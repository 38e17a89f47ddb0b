import WebShader.Proofs.TextTrees

/-!
# Reading text

Which expression a text is read as, from those of its pieces: one law for each way in which
expressions are put together.
-/

namespace WebShader

namespace TextTree

/-- Whether an angle bracket may end a template list before what follows. -/
def endsTemplate : List Char → Bool
  | [] => true
  | c :: _ => c != '>' && c != '='

/-- Whether an expression that ends like the tree may end before what follows: a number would go on
with a dot, and the bracket of a template list with another one. -/
def ends : TextTree → List Char → Bool
  | number _ => Token.endsNumber
  | template _ _ => endsTemplate
  | _ => Token.endsWord

/-- Whether any expression may end before what follows. -/
def endsAll (rest : List Char) : Bool := Token.endsNumber rest && endsTemplate rest

/-- Whether the tree is a number. -/
def isNumber : TextTree → Bool
  | number _ => true
  | _ => false

/-- What ends every tree ends this one. -/
theorem ends_of_endsAll (t : TextTree) {rest : List Char} (h : endsAll rest = true) :
    t.ends rest = true := by
  rw [endsAll, Bool.and_eq_true] at h
  cases t with
  | number => exact h.1
  | template => exact h.2
  | _ => exact Token.endsWord_of_endsNumber h.1

/-- Anything but a number may end before a dot. -/
theorem ends_dot {t : TextTree} (ht : t.isNumber = false) (rest : List Char) :
    t.ends ('.' :: rest) = true := by
  cases t with
  | number => cases ht
  | _ => rfl

/-- The text is read as an expression with a sign before it, whatever it stands in. -/
structure Reads (templates : Bool) (text : String) (sign : Option UnaryOp) (t : TextTree) :
    Prop where
  exists_tokens : ∃ tokens, Parses templates tokens sign t ∧ ∀ rest, t.ends rest = true →
    Token.read (text.toList ++ rest) = tokens ++ Token.read rest

/-- The text is read as an expression. -/
def ReadsWhole (templates : Bool) (text : String) (t : TextTree) : Prop :=
  ∃ sign u, Reads templates text sign u ∧ signed sign u = t

section Reads

variable {templates : Bool} {text text' : String} {sign : Option UnaryOp} {t t' : TextTree}

/-- A text that is read is read whole. -/
theorem Reads.whole (h : Reads templates text sign t) :
    ReadsWhole templates text (signed sign t) := ⟨sign, t, h, rfl⟩

/-- The tokens of a text before something that ends any expression. -/
theorem ReadsWhole.exists_tokens (h : ReadsWhole templates text t) :
    ∃ tokens, ParsesWhole templates tokens t ∧ ∀ rest, endsAll rest = true →
      Token.read (text.toList ++ rest) = tokens ++ Token.read rest := by
  obtain ⟨sign, u, ⟨tokens, hparses, hread⟩, rfl⟩ := h
  exact ⟨tokens, hparses.whole, fun rest hrest => hread rest (u.ends_of_endsAll hrest)⟩

/-- The text by itself is read as that expression. -/
theorem ReadsWhole.ofText? (h : ReadsWhole templates text t) :
    TextTree.ofText? templates text = some t := by
  obtain ⟨tokens, hparses, hread⟩ := h.exists_tokens
  have htokens : Token.read text.toList = tokens := by
    simpa [Token.read, Token.readFrom, Token.Pending.tokens] using hread [] rfl
  rw [TextTree.ofText?, htokens, hparses.ofTokens?]

/-- A name that nothing continues is read as one token. -/
theorem read_isName {w : String} (hw : isName w = true) {rest : List Char}
    (h : Token.endsWord rest = true) :
    Token.read (w.toList ++ rest) = .word w :: Token.read rest := by
  obtain ⟨c, more, hlist, hc, hmore⟩ := exists_of_isName hw
  rw [hlist, Token.read_word hc hmore h, ← hlist, String.ofList_toList]

/-- A name is read as a word. -/
theorem reads_isName {w : String} (hw : isName w = true) : Reads templates w none (.word w) where
  exists_tokens := ⟨[.word w], parses_word w, fun _ hrest => read_isName hw hrest⟩

/-- Digits and letters after them are read as a number. -/
theorem reads_number {c : Char} {more : List Char} (htext : text.toList = c :: more)
    (hc : c.isDigit = true) (hmore : more.all isNameRest = true) :
    Reads templates text none (.number text) where
  exists_tokens := by
    refine ⟨[.number text], parses_number text, fun rest hrest => ?_⟩
    rw [htext, Token.read_number hc hmore hrest, ← htext, String.ofList_toList]
    rfl

/-- A number after a minus is read as a number with that sign. -/
theorem reads_negative {c : Char} {more : List Char} (htext : text.toList = c :: more)
    (hc : c.isDigit = true) (hmore : more.all isNameRest = true) :
    Reads templates ("-" ++ text) (some .neg) (.number text) where
  exists_tokens := by
    refine ⟨[.sign "-", .number text], parses_negative text, fun rest hrest => ?_⟩
    have hsign : Token.read ('-' :: (text.toList ++ rest)) =
        .sign "-" :: Token.read (text.toList ++ rest) := by
      refine Token.read_sign rfl fun d hd => ?_
      rw [htext, List.cons_append, List.head?_cons, Option.some.injEq] at hd
      exact Token.isPair_of_second (by decide) _ (hd ▸ hc)
    rw [String.toList_append, List.append_assoc]
    show Token.read ('-' :: (text.toList ++ rest)) = _
    rw [hsign, htext, Token.read_number hc hmore hrest, ← htext, String.ofList_toList]
    rfl

/-- An access by name. -/
theorem Reads.field (h : Reads templates text sign t) (ht : t.isNumber = false) {w : String}
    (hw : isName w = true) : Reads templates (text ++ "." ++ w) sign (.field t w) where
  exists_tokens := by
    obtain ⟨tokens, hparses, hread⟩ := h
    refine ⟨tokens ++ [.sign ".", .word w], hparses.field w, fun rest hrest => ?_⟩
    have hdot : ∀ more, Token.read ('.' :: more) = .sign "." :: Token.read more :=
      Token.read_single rfl (by decide)
    simp only [String.toList_append, List.append_assoc]
    show Token.read (text.toList ++ '.' :: (w.toList ++ rest)) = _
    rw [hread _ (ends_dot ht _), hdot, read_isName hw hrest]
    rfl

/-- An access by index. -/
theorem Reads.index (h : Reads templates text sign t) (h' : ReadsWhole templates text' t') :
    Reads templates (text ++ "[" ++ text' ++ "]") sign (.index t t') where
  exists_tokens := by
    obtain ⟨tokens, hparses, hread⟩ := h
    obtain ⟨tokens', hparses', hread'⟩ := h'.exists_tokens
    refine ⟨_, hparses.index hparses', fun rest _ => ?_⟩
    have hopen : ∀ more, Token.read ('[' :: more) = .sign "[" :: Token.read more :=
      Token.read_single rfl (by decide)
    have hclose : Token.read (']' :: rest) = .sign "]" :: Token.read rest :=
      Token.read_single rfl (by decide) rest
    simp only [String.toList_append, List.append_assoc]
    rw [hread _ (t.ends_of_endsAll rfl)]
    show tokens ++ Token.read ('[' :: (text'.toList ++ ']' :: rest)) = _
    rw [hopen, hread' _ rfl, hclose]
    simp

/-- A parenthesis that opens is a token. -/
theorem read_open (rest : List Char) : Token.read ('(' :: rest) = .sign "(" :: Token.read rest :=
  Token.read_single rfl (by decide) rest

/-- A parenthesis that closes is a token. -/
theorem read_close (rest : List Char) : Token.read (')' :: rest) = .sign ")" :: Token.read rest :=
  Token.read_single rfl (by decide) rest

/-- A comma is a token. -/
theorem read_comma (rest : List Char) : Token.read (',' :: rest) = .sign "," :: Token.read rest :=
  Token.read_single rfl (by decide) rest

/-- An operator before an operand in parentheses. -/
theorem ReadsWhole.unary (op : UnaryOp) (h : ReadsWhole templates text t) :
    Reads templates (op.symbol ++ "(" ++ text ++ ")") (some op) (.group t) where
  exists_tokens := by
    obtain ⟨tokens, hparses, hread⟩ := h.exists_tokens
    refine ⟨_, hparses.unary op, fun rest _ => ?_⟩
    have hsign : ∀ more, Token.read (op.symbol.toList ++ '(' :: more) =
        .sign op.symbol :: Token.read ('(' :: more) := by
      intro more
      cases op <;> rfl
    simp only [String.toList_append, List.append_assoc]
    show Token.read (op.symbol.toList ++ '(' :: (text.toList ++ ')' :: rest)) = _
    rw [hsign, read_open, hread _ rfl, read_close]
    simp

/-- An operator between operands, in parentheses. -/
theorem ReadsWhole.binary (op : BinaryOp) (h : ReadsWhole templates text t)
    (h' : ReadsWhole templates text' t') :
    Reads templates ("(" ++ text ++ " " ++ op.symbol ++ " " ++ text' ++ ")") none
      (.group (.binary op t t')) where
  exists_tokens := by
    obtain ⟨tokens, hparses, hread⟩ := h.exists_tokens
    obtain ⟨tokens', hparses', hread'⟩ := h'.exists_tokens
    refine ⟨_, hparses.binary op hparses', fun rest _ => ?_⟩
    have hsign : ∀ more, Token.read (op.symbol.toList ++ ' ' :: more) =
        .sign op.symbol :: Token.read more := by
      intro more
      cases op <;> rfl
    simp only [String.toList_append, List.append_assoc]
    show Token.read ('(' :: (text.toList ++ ' ' :: (op.symbol.toList ++ ' ' ::
      (text'.toList ++ ')' :: rest)))) = _
    rw [read_open, hread _ rfl, Token.read_space, hsign, hread' _ rfl, read_close]
    simp

/-! ### Arguments -/

/-- Texts that stand one after the other, a comma between them. -/
theorem read_arguments {texts : List String} {ts : List TextTree}
    (h : List.Forall₂ (ReadsWhole templates) texts ts) :
    ∃ args, List.Forall₂ (ParsesWhole templates) args ts ∧ (args = [] → texts = []) ∧
      ∀ rest, endsAll rest = true →
        Token.read ((", ".intercalate texts).toList ++ rest) =
          [.sign ","].intercalate args ++ Token.read rest := by
  induction h with
  | nil => exact ⟨[], .nil, fun _ => rfl, fun rest _ => rfl⟩
  | @cons text t texts ts h hrest ih =>
      obtain ⟨tokens, hparses, hread⟩ := h.exists_tokens
      obtain ⟨args, hargs, hnil, ih⟩ := ih
      refine ⟨tokens :: args, .cons hparses hargs, by simp, fun rest hend => ?_⟩
      rw [String.toList_intercalate] at ih ⊢
      cases hrest with
      | nil =>
          cases hargs
          rw [List.map_singleton, List.intercalate_singleton, List.intercalate_singleton,
            hread rest hend]
      | @cons text₂ _ texts₂ _ h₂ hrest₂ =>
          have hargs : args ≠ [] := fun hargs => by cases hnil hargs
          rw [List.map_cons, List.intercalate_cons_of_ne_nil (by simp),
            List.intercalate_cons_of_ne_nil hargs, List.append_assoc, List.append_assoc]
          show Token.read (text.toList ++ ',' :: ' ' :: (_ ++ rest)) = _
          rw [hread _ rfl, read_comma, Token.read_space, ih rest hend]
          simp

/-- An application to arguments. -/
theorem Reads.call (h : Reads templates text none t) {texts : List String} {ts : List TextTree}
    (hargs : List.Forall₂ (ReadsWhole templates) texts ts) :
    Reads templates (text ++ "(" ++ ", ".intercalate texts ++ ")") none (.call t ts) where
  exists_tokens := by
    obtain ⟨tokens, hparses, hread⟩ := h
    obtain ⟨args, hparsed, -, hreads⟩ := read_arguments hargs
    refine ⟨_, hparses.call hparsed, fun rest _ => ?_⟩
    simp only [String.toList_append, List.append_assoc]
    rw [hread _ (t.ends_of_endsAll rfl)]
    show tokens ++ Token.read ('(' :: ((", ".intercalate texts).toList ++ ')' :: rest)) = _
    rw [read_open, hreads _ rfl, read_close]
    simp

/-! ### Templates -/

/-- Whether a text starts like a name. -/
def startsName (text : String) : Bool := text.toList.head?.any isNameStart

/-- A name starts like one. -/
theorem startsName_of_isName {w : String} (h : isName w = true) : startsName w = true := by
  obtain ⟨c, more, hlist, hc, -⟩ := exists_of_isName h
  rw [startsName, hlist]
  exact hc

/-- A name still starts like one with more behind it. -/
theorem startsName_append {w : String} (h : isName w = true) (text : String) :
    startsName (w ++ text) = true := by
  obtain ⟨c, more, hlist, hc, -⟩ := exists_of_isName h
  rw [startsName, String.toList_append, hlist]
  exact hc

/-- The sign that opens a template list is a token. -/
theorem read_angle_open {text : String} (h : startsName text = true) (rest : List Char) :
    Token.read ('<' :: (text.toList ++ rest)) =
      .sign "<" :: Token.read (text.toList ++ rest) := by
  refine Token.read_sign rfl fun d hd => ?_
  have hd : isNameStart d = true := by
    unfold startsName at h
    cases hlist : text.toList with
    | nil =>
        rw [hlist] at h
        cases h
    | cons c more =>
        rw [hlist] at h hd
        cases hd
        exact h
  exact Token.isPair_of_second (by decide) _ hd

/-- The sign that closes a template list is a token. -/
theorem read_angle (rest : List Char) (h : endsTemplate rest = true) :
    Token.read ('>' :: rest) = .sign ">" :: Token.read rest := by
  refine Token.read_sign rfl fun d hd => ?_
  cases rest with
  | nil => cases hd
  | cons c rest =>
      rw [List.head?_cons, Option.some.injEq] at hd
      subst hd
      simp only [endsTemplate, Bool.and_eq_true, bne_iff_ne] at h
      have hpairs : ∀ p ∈ Token.pairs, p.1 = '>' → p.2 = '>' ∨ p.2 = '=' := by decide
      refine Token.isPair_eq_false fun p hp hfirst hsecond => ?_
      rcases hpairs p hp hfirst with heq | heq
      · exact h.1 (hsecond.symm.trans heq)
      · exact h.2 (hsecond.symm.trans heq)

/-- A template of one word. -/
theorem reads_template {w k : String} (hw : isName w = true) (hk : isName k = true) :
    Reads true (w ++ "<" ++ k ++ ">") none (.template w [.word k]) where
  exists_tokens := by
    have hargs : List.Forall₂ (ParsesWhole true) [[Token.word k]] [.word k] :=
      .cons (parses_word k).whole .nil
    refine ⟨_, parses_template w hargs (by simp), fun rest hrest => ?_⟩
    simp only [String.toList_append, List.append_assoc]
    show Token.read (w.toList ++ '<' :: (k.toList ++ '>' :: rest)) = _
    rw [read_isName hw rfl, read_angle_open (startsName_of_isName hk), read_isName hk rfl,
      read_angle rest hrest]
    rfl

/-- A template of an expression and a number. -/
theorem Reads.sized (h : Reads true text none t) (htext : startsName text = true) {w n : String}
    (hw : isName w = true) {c : Char} {more : List Char} (hn : n.toList = c :: more)
    (hc : c.isDigit = true) (hmore : more.all isNameRest = true) :
    Reads true (w ++ "<" ++ text ++ ", " ++ n ++ ">") none (.template w [t, .number n]) where
  exists_tokens := by
    obtain ⟨tokens, hparses, hread⟩ := h
    have hargs : List.Forall₂ (ParsesWhole true) [tokens, [.number n]] [t, .number n] :=
      .cons hparses.whole (.cons (parses_number n).whole .nil)
    refine ⟨_, parses_template w hargs (by simp), fun rest hrest => ?_⟩
    simp only [String.toList_append, List.append_assoc]
    show Token.read (w.toList ++ '<' ::
        (text.toList ++ ',' :: ' ' :: (n.toList ++ '>' :: rest))) = _
    rw [read_isName hw rfl, read_angle_open htext, hread _ (t.ends_of_endsAll rfl), read_comma,
      Token.read_space, hn, Token.read_number hc hmore rfl, ← hn, String.ofList_toList,
      read_angle rest hrest]
    simp [List.intercalate]

end Reads

end TextTree

end WebShader
