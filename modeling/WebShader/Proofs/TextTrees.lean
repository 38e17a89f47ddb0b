import WebShader.Proofs.Tokens

/-!
# Trees of text

Reading tokens as an expression. An access to a part binds tighter than a prefix, a prefix tighter
than an infix, and infixes by their level, from the left. In WGSL, what follows a word in angle
brackets is a list of template arguments where the brackets match before anything that cannot be
part of such a list.
-/

namespace WebShader

/-! ## Trees -/

/-- An expression as it is read. -/
inductive TextTree where
  | word (text : String)
  | number (text : String)
  | group (t : TextTree)
  | field (t : TextTree) (name : String)
  | index (t i : TextTree)
  | unary (op : UnaryOp) (t : TextTree)
  | binary (op : BinaryOp) (l r : TextTree)
  | call (callee : TextTree) (args : List TextTree)
  | template (name : String) (args : List TextTree)

namespace TextTree

/-! ## Signs -/

/-- The operator that a sign before an operand is. -/
def unarySign? : String → Option UnaryOp
  | "-" => some .neg
  | "!" => some .not
  | "~" => some .bitNot
  | _ => none

/-- The operator that a sign between operands is. -/
def binarySign? : String → Option BinaryOp
  | "+" => some .add
  | "-" => some .sub
  | "*" => some .mul
  | "/" => some .div
  | "%" => some .rem
  | "&&" => some .and
  | "||" => some .or
  | "&" => some .bitAnd
  | "|" => some .bitOr
  | "^" => some .bitXor
  | "<<" => some .shl
  | ">>" => some .shr
  | "==" => some .eq
  | "!=" => some .ne
  | "<" => some .lt
  | "<=" => some .le
  | ">" => some .gt
  | ">=" => some .ge
  | _ => none

/-- How tight an operator between operands binds. -/
def level : BinaryOp → Nat
  | .mul | .div | .rem => 10
  | .add | .sub => 9
  | .shl | .shr => 8
  | .lt | .le | .gt | .ge => 7
  | .eq | .ne => 6
  | .bitAnd => 5
  | .bitXor => 4
  | .bitOr => 3
  | .and => 2
  | .or => 1

/-! ## Template lists -/

/-- Whether an angle bracket that has been opened is closed by what follows, given how many brackets
of other kinds and how many angle brackets have been opened since, and whether a word has just been
read: an angle bracket opens after a word only. -/
def isClosed : Nat → Nat → Bool → List Token → Bool
  | _, _, _, [] => false
  | depth, angles, _, .word _ :: rest => isClosed depth angles true rest
  | depth, angles, _, .number _ :: rest => isClosed depth angles false rest
  | depth, angles, afterWord, .sign s :: rest =>
    if s = "(" || s = "[" then isClosed (depth + 1) angles false rest
    else if s = ")" || s = "]" then
      if depth = 0 then false else isClosed (depth - 1) angles false rest
    else if s = "=" || s = ";" || s = ":" || s = "\x7b" then false
    else if depth > 0 then isClosed depth angles false rest
    else if s = "&&" || s = "||" then false
    else if s = "<" then isClosed depth (if afterWord then angles + 1 else angles) false rest
    else if s = ">" || s = ">=" then
      if angles = 0 then true else isClosed depth (angles - 1) false rest
    else if s = ">>" then
      if angles ≤ 1 then true else isClosed depth (angles - 2) false rest
    else isClosed depth angles false rest

/-- Whether what follows a word is a list of template arguments. -/
def startsTemplate : List Token → Bool
  | .sign "<" :: rest => isClosed 0 0 false rest
  | _ => false

/-! ## Reading -/

/-- What an operand is read for: the operand of a prefix, the right operand of an infix, what stands
in parentheses, an index, an argument, or a template argument. -/
inductive Frame where
  | sign (op : UnaryOp)
  | left (op : BinaryOp) (l : TextTree)
  | group
  | index (base : TextTree)
  | call (callee : TextTree) (args : List TextTree)
  | template (name : String) (args : List TextTree)

/-- Where a reader is: before an operand, before the angle bracket that opens a template list, after
an operand, after the dot of an access, or lost. -/
inductive State where
  | operand (frames : List Frame)
  | named (name : String) (frames : List Frame)
  | after (t : TextTree) (frames : List Frame)
  | dot (t : TextTree) (frames : List Frame)
  | lost

/-- Apply the operators that bind at least as tight as a level to the operand that ends here. -/
def settle (n : Nat) : TextTree → List Frame → TextTree × List Frame
  | t, .sign op :: frames => settle n (.unary op t) frames
  | t, .left op l :: frames =>
    if n ≤ level op then settle n (.binary op l t) frames else (t, .left op l :: frames)
  | t, frames => (t, frames)

/-- Close a bracket, or go on to the next argument, where the sign fits what was opened. -/
def close? (s : String) (t : TextTree) : List Frame → Option State
  | .group :: frames => if s = ")" then some (.after (.group t) frames) else none
  | .index base :: frames => if s = "]" then some (.after (.index base t) frames) else none
  | .call f args :: frames =>
    if s = ")" then some (.after (.call f (args ++ [t])) frames)
    else if s = "," then some (.operand (.call f (args ++ [t]) :: frames))
    else none
  | .template w args :: frames =>
    if s = ">" then some (.after (.template w (args ++ [t])) frames)
    else if s = "," then some (.operand (.template w (args ++ [t]) :: frames))
    else none
  | _ => none

/-- Read a sign before an operand. -/
def signBefore (s : String) (frames : List Frame) : State :=
  match unarySign? s with
  | some op => .operand (.sign op :: frames)
  | none =>
    if s = "(" then .operand (.group :: frames)
    else
      match s, frames with
      | ")", .call f [] :: frames => .after (.call f []) frames
      | _, _ => .lost

/-- Read a sign after an operand. -/
def signAfter (s : String) (t : TextTree) (frames : List Frame) : State :=
  if s = "." then .dot t frames
  else if s = "[" then .operand (.index t :: frames)
  else if s = "(" then .operand (.call t [] :: frames)
  else
    match close? s (settle 0 t frames).1 (settle 0 t frames).2 with
    | some state => state
    | none =>
      match binarySign? s with
      | some op =>
        .operand (.left op (settle (level op) t frames).1 :: (settle (level op) t frames).2)
      | none => .lost

/-- Read a token, knowing what follows it. -/
def step (templates : Bool) (token : Token) (rest : List Token) : State → State
  | .operand frames =>
    match token with
    | .word w =>
        if templates && startsTemplate rest then .named w frames else .after (.word w) frames
    | .number n => .after (.number n) frames
    | .sign s => signBefore s frames
  | .named w frames => if token = .sign "<" then .operand (.template w [] :: frames) else .lost
  | .after t frames =>
    match token with
    | .sign s => signAfter s t frames
    | _ => .lost
  | .dot t frames =>
    match token with
    | .word w => .after (.field t w) frames
    | _ => .lost
  | .lost => .lost

/-- Read tokens. -/
def run (templates : Bool) : List Token → State → State
  | [], state => state
  | token :: rest, state => run templates rest (step templates token rest state)

/-- The expression that tokens are, if they are one. -/
def ofTokens? (templates : Bool) (tokens : List Token) : Option TextTree :=
  match run templates tokens (.operand []) with
  | .after t frames =>
    match settle 0 t frames with
    | (t, []) => some t
    | _ => none
  | _ => none

/-- The expression that a text is, if it is one. -/
def ofText? (templates : Bool) (text : String) : Option TextTree :=
  ofTokens? templates (Token.read text.toList)

/-! ## Signs that are printed -/

/-- An operand with the sign before it. -/
def signed : Option UnaryOp → TextTree → TextTree
  | none, t => t
  | some op, t => unary op t

/-- The frame of the sign before an operand. -/
def signFrame : Option UnaryOp → List Frame
  | none => []
  | some op => [.sign op]

/-! ## Brackets -/

/-- Reading over the tokens, from a depth on, does not change whether an angle bracket that was
opened before them is closed. -/
def Passes (least : Nat) (tokens : List Token) : Prop :=
  ∀ depth, least ≤ depth → ∀ angles afterWord rest, ∃ afterWord',
    isClosed depth angles afterWord (tokens ++ rest) = isClosed depth angles afterWord' rest

namespace Passes

attribute [local simp] isClosed

variable {least : Nat} {tokens tokens' : List Token}

/-- Tokens that pass a bound pass a larger one. -/
theorem mono {least' : Nat} (h : Passes least tokens) (hle : least ≤ least') :
    Passes least' tokens :=
  fun depth hdepth => h depth (Nat.le_trans hle hdepth)

/-- No tokens pass. -/
protected theorem nil : Passes least [] := fun _ _ _ afterWord _ => ⟨afterWord, rfl⟩

/-- Tokens that pass, twice in a row. -/
protected theorem append (h : Passes least tokens) (h' : Passes least tokens') :
    Passes least (tokens ++ tokens') := by
  intro depth hdepth angles afterWord rest
  obtain ⟨afterWord₁, h₁⟩ := h depth hdepth angles afterWord (tokens' ++ rest)
  obtain ⟨afterWord₂, h₂⟩ := h' depth hdepth angles afterWord₁ rest
  exact ⟨afterWord₂, by rw [List.append_assoc, h₁, h₂]⟩

/-- A word passes. -/
theorem word (w : String) : Passes least [.word w] := fun _ _ _ _ _ =>
  ⟨true, by rw [List.singleton_append, isClosed]⟩

/-- A number passes. -/
theorem number (n : String) : Passes least [.number n] := fun _ _ _ _ _ =>
  ⟨false, by rw [List.singleton_append, isClosed]⟩

/-- A sign that neither is nor ends a bracket. -/
theorem sign {s : String} (h : s ∈ [",", ".", "-", "!", "~"]) : Passes least [Token.sign s] := by
  intro depth _ angles afterWord rest
  refine ⟨false, ?_⟩
  simp only [List.mem_cons, List.not_mem_nil, or_false] at h
  rcases h with rfl | rfl | rfl | rfl | rfl
  all_goals
    rw [List.singleton_append, isClosed]
    simp

/-- An operator inside of a bracket. -/
theorem operator (op : BinaryOp) : Passes 1 [Token.sign op.symbol] := by
  intro depth hdepth angles afterWord rest
  have hpos : 0 < depth := hdepth
  refine ⟨false, ?_⟩
  rw [List.singleton_append, isClosed]
  cases op <;> simp [BinaryOp.symbol, hpos]

/-- What stands in a bracket closes nothing outside of it. -/
theorem bracket {before after : String} (hbefore : before = "(" ∨ before = "[")
    (hafter : after = ")" ∨ after = "]") (h : Passes 1 tokens) :
    Passes least (Token.sign before :: (tokens ++ [Token.sign after])) := by
  intro depth _ angles afterWord rest
  obtain ⟨afterWord', hscan⟩ := h (depth + 1) (by omega) angles false (.sign after :: rest)
  refine ⟨false, ?_⟩
  rw [List.cons_append, List.append_assoc, List.singleton_append, isClosed,
    if_pos (by simpa using hbefore), hscan, isClosed, if_neg, if_pos (by simpa using hafter)]
  · simp
  · rcases hafter with rfl | rfl <;> decide

/-- A template list opens and closes an angle bracket of its own. -/
theorem template (w : String) (h : Passes 0 tokens) :
    Passes 0 (.word w :: Token.sign "<" :: (tokens ++ [Token.sign ">"])) := by
  intro depth _ angles afterWord rest
  refine ⟨false, ?_⟩
  rw [List.cons_append, isClosed, List.cons_append, isClosed, List.append_assoc,
    List.singleton_append]
  rcases Nat.eq_zero_or_pos depth with rfl | hdepth
  · obtain ⟨afterWord', hscan⟩ := h 0 (Nat.le_refl 0) (angles + 1) false (Token.sign ">" :: rest)
    simp [hscan]
  · obtain ⟨afterWord', hscan⟩ := h depth (Nat.zero_le _) angles false (Token.sign ">" :: rest)
    simp [hdepth, hscan]

/-- An opening bracket that is closed by the parenthesis around it is an operator. -/
theorem startsTemplate_operator (op : BinaryOp) (h : Passes 0 tokens) (rest : List Token) :
    startsTemplate (Token.sign op.symbol :: (tokens ++ Token.sign ")" :: rest)) = false := by
  obtain ⟨afterWord, hscan⟩ := h 0 (Nat.le_refl 0) 0 false (Token.sign ")" :: rest)
  cases op with
  | lt =>
      rw [BinaryOp.symbol, startsTemplate, hscan, isClosed]
      simp
  | _ => rfl

/-- Tokens that pass are a template list between angles. -/
theorem startsTemplate_template (h : Passes 0 tokens) (rest : List Token) :
    startsTemplate (Token.sign "<" :: (tokens ++ Token.sign ">" :: rest)) = true := by
  obtain ⟨afterWord, hscan⟩ := h 0 (Nat.le_refl 0) 0 false (Token.sign ">" :: rest)
  rw [startsTemplate, hscan, isClosed]
  simp

end Passes

/-! ## Expressions of tokens -/

/-- The tokens are read as an expression with a sign before it, whatever they stand in, and close
nothing that was opened before them. -/
structure Parses (templates : Bool) (tokens : List Token) (sign : Option UnaryOp) (t : TextTree) :
    Prop where
  run : ∀ rest frames, (templates && startsTemplate rest) = false →
    run templates (tokens ++ rest) (.operand frames) =
      run templates rest (.after t (signFrame sign ++ frames))
  passes : Passes 0 tokens

/-- The tokens are read as an expression. -/
def ParsesWhole (templates : Bool) (tokens : List Token) (t : TextTree) : Prop :=
  ∃ sign u, Parses templates tokens sign u ∧ signed sign u = t

section Parses

variable {templates : Bool} {tokens tokens' : List Token} {sign sign' : Option UnaryOp}
  {t t' : TextTree}

/-- No template list starts where no angle bracket is. -/
theorem startsTemplate_of_ne {s : String} (h : s ≠ "<") (rest : List Token) :
    (templates && startsTemplate (Token.sign s :: rest)) = false := by
  rw [startsTemplate, Bool.and_false]
  intro rest' heq
  exact h (by injection heq with heq; injection heq)

/-- What is parsed whole is the tree of the tokens. -/
theorem ParsesWhole.ofTokens? (h : ParsesWhole templates tokens t) :
    TextTree.ofTokens? templates tokens = some t := by
  obtain ⟨sign, u, h, rfl⟩ := h
  have hrun := h.run [] [] (by simp [startsTemplate])
  rw [List.append_nil] at hrun
  rw [TextTree.ofTokens?, hrun]
  cases sign with
  | none => rfl
  | some op => rfl

/-- What is parsed is parsed whole. -/
theorem Parses.whole (h : Parses templates tokens sign t) :
    ParsesWhole templates tokens (signed sign t) := ⟨sign, t, h, rfl⟩

/-- A word is parsed as a tree. -/
theorem parses_word (w : String) : Parses templates [.word w] none (.word w) where
  run rest frames hrest := by
    rw [List.singleton_append, TextTree.run, step, hrest]
    rfl
  passes := .word w

/-- A number is parsed as a tree. -/
theorem parses_number (n : String) : Parses templates [.number n] none (.number n) where
  run _ _ _ := rfl
  passes := .number n

/-- A number with a sign is parsed as a tree with one. -/
theorem parses_negative (n : String) :
    Parses templates [Token.sign "-", .number n] (some .neg) (.number n) where
  run _ _ _ := rfl
  passes := (Passes.sign (by decide)).append (.number n)

/-- An access by name. The sign before what is accessed applies to the part. -/
theorem Parses.field (h : Parses templates tokens sign t) (name : String) :
    Parses templates (tokens ++ [Token.sign ".", .word name]) sign (.field t name) where
  run rest frames _ := by
    rw [List.append_assoc, List.cons_append, List.singleton_append,
      h.run _ _ (startsTemplate_of_ne (by decide) _)]
    rfl
  passes := h.passes.append ((Passes.sign (by decide)).append (.word name))

/-- An access by index. -/
theorem Parses.index (h : Parses templates tokens sign t) (h' : ParsesWhole templates tokens' t') :
    Parses templates (tokens ++ Token.sign "[" :: (tokens' ++ [Token.sign "]"])) sign
      (.index t t') where
  run rest frames _ := by
    obtain ⟨sign', u, h', rfl⟩ := h'
    rw [List.append_assoc, List.cons_append, List.append_assoc, List.singleton_append,
      h.run _ _ (startsTemplate_of_ne (by decide) _)]
    show TextTree.run templates (tokens' ++ Token.sign "]" :: rest)
        (.operand (.index t :: (signFrame sign ++ frames))) = _
    rw [h'.run _ _ (startsTemplate_of_ne (by decide) _)]
    cases sign' with
    | none => rfl
    | some op => rfl
  passes := by
    obtain ⟨sign', u, h', rfl⟩ := h'
    exact h.passes.append (.bracket (Or.inr rfl) (Or.inr rfl) (h'.passes.mono (Nat.zero_le 1)))

/-- An operator before an operand in parentheses. -/
theorem ParsesWhole.unary (op : UnaryOp) (h : ParsesWhole templates tokens t) :
    Parses templates (Token.sign op.symbol :: Token.sign "(" :: (tokens ++ [Token.sign ")"]))
      (some op)
      (.group t) where
  run rest frames _ := by
    obtain ⟨sign, u, h, rfl⟩ := h
    have hstart : run templates
        (Token.sign op.symbol :: Token.sign "(" :: (tokens ++ [Token.sign ")"]) ++ rest)
          (.operand frames) =
            run templates (tokens ++ Token.sign ")" :: rest)
              (.operand (.group :: .sign op :: frames)) := by
      rw [List.cons_append, List.cons_append, List.append_assoc, List.singleton_append]
      cases op <;> rfl
    rw [hstart, h.run _ _ (startsTemplate_of_ne (by decide) _)]
    cases sign with
    | none => rfl
    | some op' => rfl
  passes := by
    obtain ⟨sign, u, h, rfl⟩ := h
    have hsign : Passes 0 [Token.sign op.symbol] := .sign (by cases op <;> decide)
    exact hsign.append (.bracket (Or.inl rfl) (Or.inl rfl) (h.passes.mono (Nat.zero_le 1)))

/-- An operator between operands, in parentheses. -/
theorem ParsesWhole.binary (op : BinaryOp) (h : ParsesWhole templates tokens t)
    (h' : ParsesWhole templates tokens' t') :
    Parses templates
      (Token.sign "(" :: (tokens ++ Token.sign op.symbol :: (tokens' ++ [Token.sign ")"])))
      none (.group (.binary op t t')) where
  run rest frames _ := by
    obtain ⟨sign, u, h, rfl⟩ := h
    obtain ⟨sign', u', h', rfl⟩ := h'
    have hstart : run templates (Token.sign "(" :: (tokens ++ Token.sign op.symbol ::
        (tokens' ++ [Token.sign ")"])) ++ rest) (.operand frames) =
          run templates (tokens ++ Token.sign op.symbol :: (tokens' ++ Token.sign ")" :: rest))
            (.operand (.group :: frames)) := by
      simp only [List.cons_append, List.append_assoc, List.nil_append]
      rfl
    have hoperator : signAfter op.symbol u (signFrame sign ++ .group :: frames) =
        .operand (.left op (signed sign u) :: .group :: frames) := by
      cases sign <;> cases op <;> rfl
    have hclose : signAfter ")" u'
        (signFrame sign' ++ .left op (signed sign u) :: .group :: frames) =
        .after (.group (.binary op (signed sign u) (signed sign' u'))) frames := by
      cases sign' <;> cases op <;> rfl
    rw [hstart, h.run]
    · rw [TextTree.run, step, hoperator, h'.run _ _ (startsTemplate_of_ne (by decide) _),
        TextTree.run, step, hclose]
      rfl
    · rw [h'.passes.startsTemplate_operator, Bool.and_false]
  passes := by
    obtain ⟨sign, u, h, rfl⟩ := h
    obtain ⟨sign', u', h', rfl⟩ := h'
    have hinner : Passes 1 (tokens ++ Token.sign op.symbol :: tokens') :=
      (h.passes.mono (Nat.zero_le 1)).append
        (Passes.append (.operator op) (h'.passes.mono (Nat.zero_le 1)))
    have hgroup : Passes 0 _ := .bracket (Or.inl rfl) (Or.inl rfl) hinner
    simpa using hgroup

/-! ### Arguments -/

/-- The tokens of arguments are read one after the other. -/
theorem run_arguments (opened : List TextTree → Frame) {close : String}
    (closed : List TextTree → TextTree)
    (hcomma : ∀ sign u done frames, signAfter "," u (signFrame sign ++ opened done :: frames) =
      .operand (opened (done ++ [signed sign u]) :: frames))
    (hclose : ∀ sign u done frames, signAfter close u (signFrame sign ++ opened done :: frames) =
      .after (closed (done ++ [signed sign u])) frames) (hne : close ≠ "<")
    {args : List (List Token)} {ts : List TextTree}
    (h : List.Forall₂ (ParsesWhole templates) args ts)
    (hnonempty : args ≠ []) (done : List TextTree) (rest : List Token) (frames : List Frame) :
    run templates ([Token.sign ","].intercalate args ++ Token.sign close :: rest)
      (.operand (opened done :: frames)) =
        run templates rest (.after (closed (done ++ ts)) frames) := by
  induction h generalizing done with
  | nil => exact absurd rfl hnonempty
  | @cons tokens t args ts h hrest ih =>
      obtain ⟨sign, u, h, rfl⟩ := h
      cases hrest with
      | nil =>
          rw [List.intercalate_singleton, h.run _ _ (startsTemplate_of_ne hne _),
            TextTree.run, step,
            hclose]
      | cons h₂ hrest =>
          rw [List.intercalate_cons_of_ne_nil (by simp), List.append_assoc, List.append_assoc,
            List.singleton_append, h.run _ _ (startsTemplate_of_ne (by decide) _),
              TextTree.run, step,
            hcomma, ih (by simp), List.append_assoc, List.singleton_append]

/-- Arguments with commas between them pass. -/
theorem passes_arguments {args : List (List Token)} {ts : List TextTree}
    (h : List.Forall₂ (ParsesWhole templates) args ts) :
    Passes 0 ([Token.sign ","].intercalate args) := by
  induction h with
  | nil => exact .nil
  | @cons tokens t args ts h hrest ih =>
      obtain ⟨sign, u, h, rfl⟩ := h
      cases hrest with
      | nil =>
          rw [List.intercalate_singleton]
          exact h.passes
      | cons h₂ hrest =>
          rw [List.intercalate_cons_of_ne_nil (by simp)]
          exact (h.passes.append (.sign (by decide))).append ih

/-- An application to arguments. -/
theorem Parses.call (h : Parses templates tokens none t) {args : List (List Token)}
    {ts : List TextTree} (hargs : List.Forall₂ (ParsesWhole templates) args ts) :
    Parses templates
      (tokens ++ Token.sign "(" :: ([Token.sign ","].intercalate args ++ [Token.sign ")"]))
      none (.call t ts) where
  run rest frames _ := by
    rw [List.append_assoc, List.cons_append, List.append_assoc, List.singleton_append,
      h.run _ _ (startsTemplate_of_ne (by decide) _)]
    by_cases hnonempty : args = []
    · subst hnonempty
      cases hargs
      rfl
    · refine run_arguments (.call t) (.call t) ?_ ?_ (by decide) hargs
        hnonempty [] rest frames
      · intro sign u done frames
        cases sign <;> rfl
      · intro sign u done frames
        cases sign <;> rfl
  passes := h.passes.append
    (.bracket (Or.inl rfl) (Or.inl rfl) ((passes_arguments hargs).mono (Nat.zero_le 1)))

/-- A template with its arguments. -/
theorem parses_template (w : String) {args : List (List Token)} {ts : List TextTree}
    (hargs : List.Forall₂ (ParsesWhole true) args ts) (hnonempty : args ≠ []) :
    Parses true
      (.word w :: Token.sign "<" :: ([Token.sign ","].intercalate args ++ [Token.sign ">"]))
      none (.template w ts) where
  run rest frames _ := by
    have hpasses := passes_arguments hargs
    rw [List.cons_append, List.cons_append, List.append_assoc, List.singleton_append, TextTree.run,
      step, Bool.true_and, if_pos (hpasses.startsTemplate_template rest)]
    refine run_arguments (.template w) (.template w) ?_ ?_ (by decide) hargs
      hnonempty [] rest frames
    · intro sign u done frames
      cases sign <;> rfl
    · intro sign u done frames
      cases sign <;> rfl
  passes := .template w (passes_arguments hargs)

end Parses

end TextTree

end WebShader
