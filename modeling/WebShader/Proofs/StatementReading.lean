import WebShader.Proofs.Executions
import WebShader.Proofs.StatementOutlines

/-!
# Reading statements

The statements of a source, read from its outline. Some are told by the word that they start with.
Others are in several pieces: the branches of a conditional, the head of a loop with a counter, and
the loops that test at the end. Items are read from the last to the first, so that a piece is met
after those that belong to it.
-/

namespace WebShader

/-! ## The reader -/

/-- The statements that have been read of a block, and the condition to leave the loop that the
block is the body of, if it ends with one. -/
structure Remainder where
  flows : List Flow
  breakIf : Option (List Token)

namespace Remainder

/-- The end of a block. -/
def nothing : Remainder := ⟨[], none⟩

/-- Read one more statement. -/
def cons (flow : Flow) (r : Remainder) : Remainder := ⟨flow :: r.flows, r.breakIf⟩

end Remainder

/-- What has been read of a block, from its end up to a statement or a piece of one: branches that
follow a branch, the condition after the body of a loop, the last part of the head of a loop with a
counter, with its body, or the last two parts, or the condition to leave a loop. -/
inductive Ahead where
  | statements (r : Remainder)
  | branches (cases : List (List Token × List Flow)) (otherwise : Option (List Flow))
      (r : Remainder)
  | condition (cond : List Token) (r : Remainder)
  | step (step : List Token) (body : List Flow) (r : Remainder)
  | test (test step : List Token) (body : List Flow) (r : Remainder)
  | leaving (cond : List Token)

namespace Ahead

/-- Whether a line starts with a word that tells what statement it is. -/
def isControlled : List Token → Bool
  | .word w :: _ => controlWords.contains w
  | _ => false

/-- Read a line before what has been read. -/
def line? (text : List Token) : Ahead → Option Ahead
  | statements r =>
    match text with
    | [.word "break"] => some (statements (r.cons .breakLoop))
    | [.word "continue"] => some (statements (r.cons .continueLoop))
    | [.word "discard"] => some (statements (r.cons .discard))
    | .word "return" :: value => some (statements (r.cons (.give value)))
    | .word "while" :: cond => some (condition cond r)
    | .word "break" :: .word "if" :: cond =>
      if r.flows.isEmpty && r.breakIf.isNone then some (leaving cond) else none
    | _ => if isControlled text then none else some (statements (r.cons (.act text)))
  | step next body r => some (test text next body r)
  | test cond next body r =>
    match text with
    | .word "for" :: .sign "(" :: first =>
      some (statements (r.cons (.counting first cond next body)))
    | _ => none
  | _ => none

/-- Read a block of statements before what has been read. -/
def block? (head : List Token) (body : List Flow) : Ahead → Option Ahead
  | statements r =>
    match head with
    | [] => some (statements (r.cons (.block body)))
    | .word "if" :: cond => some (statements (r.cons (.conditional [(cond, body)] none)))
    | .word "else" :: .word "if" :: cond => some (branches [(cond, body)] none r)
    | [.word "else"] => some (branches [] (some body) r)
    | .word "while" :: cond => some (statements (r.cons (.whileDo cond body)))
    | _ =>
      if isControlled head || head.getLast? != some (.sign ")") then none
      else some (step head.dropLast body r)
  | branches cases otherwise r =>
    match head with
    | .word "if" :: cond =>
      some (statements (r.cons (.conditional ((cond, body) :: cases) otherwise)))
    | .word "else" :: .word "if" :: cond => some (branches ((cond, body) :: cases) otherwise r)
    | _ => none
  | condition cond r =>
    match head with
    | [.word "do"] => some (statements (r.cons (.doWhile body cond)))
    | _ => none
  | _ => none

/-- Read a block before what has been read, given what has been read of its items. -/
def enclose? (inner : Ahead) (head : List Token) (a : Ahead) : Option Ahead :=
  match inner with
  | statements ⟨body, none⟩ => a.block? head body
  | statements ⟨body, some cond⟩ =>
    match head, a with
    | [.word "loop"], statements r => some (statements (r.cons (.loop body cond)))
    | _, _ => none
  | leaving cond =>
    match head, a with
    | [.word "continuing"], statements ⟨[], none⟩ => some (statements ⟨[], some cond⟩)
    | _, _ => none
  | _ => none

end Ahead

mutual

/-- Read an item before what has been read. -/
def Item.read? : Item → Ahead → Option Ahead
  | .line text, a => a.line? text
  | .block head items [], a => (readAll? items).bind fun inner => inner.enclose? head a
  | .block _ _ (_ :: _), _ => none
termination_by structural i => i

/-- Read the items of a block. -/
def readAll? : List Item → Option Ahead
  | [] => some (.statements .nothing)
  | i :: rest => (readAll? rest).bind i.read?
termination_by structural items => items

end

/-- Read items before what has been read. -/
def readBefore? (a : Ahead) : List Item → Option Ahead
  | [] => some a
  | i :: rest => (readBefore? a rest).bind i.read?

/-- The statements of a block. -/
def flows? (items : List Item) : Option (List Flow) :=
  match readAll? items with
  | some (.statements ⟨flows, none⟩) => some flows
  | _ => none

/-- Items are read before nothing. -/
theorem readAll?_eq (items : List Item) :
    readAll? items = readBefore? (.statements .nothing) items := by
  induction items with
  | nil => rfl
  | cons i rest ih => rw [readAll?, ih, readBefore?]

/-- Items are read before those that follow them. -/
theorem readBefore?_append (a : Ahead) (items more : List Item) :
    readBefore? a (items ++ more) = (readBefore? a more).bind (readBefore? · items) := by
  induction items with
  | nil => simp [readBefore?]
  | cons i rest ih =>
      rw [List.cons_append, readBefore?, ih, Option.bind_assoc]
      rfl

/-! ## Tokens of lines and heads -/

/-- A space separates the tokens before it from those after it. -/
theorem tokens_spaced (a b : String) : tokens (a ++ " " ++ b) = tokens a ++ tokens b := by
  rw [tokens, String.toList_append, String.toList_append, List.append_assoc]
  exact Token.read_append_space a.toList (by decide) b.toList

/-- A parenthesis at the end is the last token. -/
theorem tokens_append_close (a : String) : tokens (a ++ ")") = tokens a ++ [.sign ")"] := by
  rw [tokens, String.toList_append]
  exact Token.read_append_mark a.toList (by decide) []

/-- A parenthesis at the start is the first token. -/
theorem tokens_append_open (b : String) : tokens ("(" ++ b) = .sign "(" :: tokens b := by
  rw [tokens, String.toList_append]
  exact Token.read_append_mark [] (by decide) b.toList

namespace Ahead

/-- A text that starts a phrase is no jump, and not empty. -/
theorem isControlled_of_starts {text : String} (h : StartsPhrase text) :
    isControlled (tokens text) = false ∧ tokens text ≠ [] := by
  obtain ⟨token, more, hread, hword⟩ := exists_first_token h.start
  rw [hread]
  refine ⟨?_, List.cons_ne_nil _ _⟩
  cases token with
  | word w =>
      rw [isControlled, List.contains_eq_mem, decide_eq_false_iff_not, hword w rfl]
      exact h.leading
  | number n => rfl
  | sign s => rfl

/-- A line that starts with no word of control is an action. -/
theorem line?_act {text : List Token} (h : isControlled text = false) (r : Remainder) :
    line? text (.statements r) = some (.statements (r.cons (.act text))) := by
  unfold line?
  dsimp only
  split
  case h_7 => rw [if_neg (by simp [h])]
  all_goals simp [isControlled, controlWords] at h

/-- A block whose head ends with a parenthesis belongs to a loop with a counter. -/
theorem block?_step {text : List Token} (h : isControlled text = false) (hne : text ≠ [])
    (body : List Flow) (r : Remainder) :
    block? (text ++ [.sign ")"]) body (.statements r) = some (.step text body r) := by
  have hcontrolled : isControlled (text ++ [.sign ")"]) = false := by
    cases text with
    | nil => exact absurd rfl hne
    | cons token rest => cases token <;> exact h
  generalize hhead : text ++ [.sign ")"] = head at hcontrolled
  unfold block?
  dsimp only
  split
  case h_1 => exact absurd hhead (by simp)
  case h_6 => rw [if_neg (by rw [hcontrolled, ← hhead]; simp), ← hhead, List.dropLast_concat]
  all_goals simp [isControlled, controlWords] at hcontrolled

/-- What has been read of a conditional from its end: its branches but the first ones. -/
def chain (cases : List (List Token × List Flow)) (otherwise : Option (List Flow))
    (r : Remainder) : Ahead :=
  match cases, otherwise with
  | [], none => statements r
  | _, _ => branches cases otherwise r

/-- A further branch. -/
theorem block?_elseIf (cond : List Token) (body : List Flow) (cases : List (List Token × List Flow))
    (otherwise : Option (List Flow)) (r : Remainder) :
    block? (.word "else" :: .word "if" :: cond) body (chain cases otherwise r) =
      some (chain ((cond, body) :: cases) otherwise r) := by
  cases cases <;> cases otherwise <;> rfl

/-- The first branch. -/
theorem block?_if (cond : List Token) (body : List Flow) (cases : List (List Token × List Flow))
    (otherwise : Option (List Flow)) (r : Remainder) :
    block? (.word "if" :: cond) body (chain cases otherwise r) =
      some (statements (r.cons (.conditional ((cond, body) :: cases) otherwise))) := by
  cases cases <;> cases otherwise <;> rfl

end Ahead

/-! ## Printed statements -/

namespace Code

namespace Stmt

variable {τ : Type} (d : Dialect τ)

mutual

/-- What a statement is read as. -/
def flow : Stmt τ → Flow
  | declare type name init => .act (tokens (action d (.declare type name init)))
  | assign target op value => .act (tokens (action d (.assign target op value)))
  | eval e => .act (tokens (e.text d))
  | discardValue e => .act (tokens ("_ = " ++ e.text d))
  | conditional branches none => .conditional (branchFlows branches) none
  | conditional branches (some body) => .conditional (branchFlows branches) (some (blockFlows body))
  | forRange type counter first last body =>
    .counting (tokens (action d (.declare type counter (some first))))
      (tokens (d.bound counter (last.text d))) (tokens (counter ++ "++")) (blockFlows body)
  | whileDo cond body => .whileDo (tokens (d.condition (cond.text d))) (blockFlows body)
  | doWhile body cond => .doWhile (blockFlows body) (tokens (d.condition (cond.text d)))
  | loop body breakIf => .loop (blockFlows body) (tokens (breakIf.text d))
  | block body => .block (blockFlows body)
  | returnWith value => .give (tokens (optional d "" value))
  | breakLoop => .breakLoop
  | continueLoop => .continueLoop
  | discard => .discard
termination_by structural s => s

/-- What the statements of a block are read as. -/
def blockFlows : List (Stmt τ) → List Flow
  | [] => []
  | s :: rest => s.flow :: blockFlows rest
termination_by structural body => body

/-- What the branches of a conditional are read as. -/
def branchFlows : List (Expr τ × List (Stmt τ)) → List (List Token × List Flow)
  | [] => []
  | (cond, body) :: rest => (tokens (d.condition (cond.text d)), blockFlows body) ::
      branchFlows rest
termination_by structural branches => branches

end

end Stmt

/-- A plain language whose declarations start no statement, where its names and types do not. -/
structure Dialect.IsReadable {τ : Type} (d : Dialect τ) (ok : String → Prop) (okType : τ → Prop) :
    Prop extends d.IsPlain ok okType where
  startsName : ∀ n, ok n → StartsPhrase n
  startsType : ∀ t, okType t → StartsPhrase (d.type t)
  startsDeclaration : ∀ t n, okType t → ok n → StartsPhrase (d.declaration t n)

namespace Stmt

variable {τ : Type} {d : Dialect τ} {ok : String → Prop} {okType : τ → Prop}

/-- The statements of a block are read one by one. -/
theorem readBefore?_block {body : List (Stmt τ)}
    (h : ∀ s ∈ body, ∀ r, readBefore? (.statements r) (s.items d) =
      some (.statements (r.cons (s.flow d)))) (r : Remainder) :
    readBefore? (.statements r) (blockItems d body) =
      some (.statements ⟨blockFlows d body ++ r.flows, r.breakIf⟩) := by
  induction body with
  | nil => rfl
  | cons s rest ih =>
      rw [List.forall_mem_cons] at h
      rw [blockItems, readBefore?_append, ih h.2, Option.bind_some, h.1]
      rfl

/-- A block is read if each of its statements is, before whatever follows. -/
theorem readAll?_block {body : List (Stmt τ)}
    (h : ∀ s ∈ body, ∀ r, readBefore? (.statements r) (s.items d) =
      some (.statements (r.cons (s.flow d)))) :
    readAll? (blockItems d body) = some (.statements ⟨blockFlows d body, none⟩) := by
  rw [readAll?_eq, readBefore?_block h, Remainder.nothing, List.append_nil]

/-- A block whose statements are read is read with its head. -/
theorem read?_block {body : List (Stmt τ)}
    (h : ∀ s ∈ body, ∀ r, readBefore? (.statements r) (s.items d) =
      some (.statements (r.cons (s.flow d)))) (head : List Token) (a : Ahead) :
    Item.read? (.block head (blockItems d body) []) a = a.block? head (blockFlows d body) := by
  rw [Item.read?, readAll?_block h]
  rfl

/-- The head of a branch. -/
theorem tokens_if (text : String) : tokens ("if " ++ text) = .word "if" :: tokens text :=
  tokens_spaced "if" text

/-- Branches that follow a branch. -/
theorem readBefore?_branches {branches : List (Expr τ × List (Stmt τ))}
    (h : ∀ b ∈ branches, ∀ s ∈ b.2, ∀ r, readBefore? (.statements r) (s.items d) =
      some (.statements (r.cons (s.flow d)))) (otherwise : Option (List Flow)) (r : Remainder) :
    readBefore? (.chain [] otherwise r) (branchItems d [.word "else"] branches) =
      some (.chain (branchFlows d branches) otherwise r) := by
  induction branches with
  | nil => rfl
  | cons b rest ih =>
      obtain ⟨cond, body⟩ := b
      rw [List.forall_mem_cons] at h
      rw [branchItems, readBefore?, ih h.2, Option.bind_some, read?_block h.1, tokens_if]
      exact Ahead.block?_elseIf _ _ _ _ _

/-- All the branches of a conditional. -/
theorem readBefore?_conditional {branches : List (Expr τ × List (Stmt τ))} (hne : branches ≠ [])
    (h : ∀ b ∈ branches, ∀ s ∈ b.2, ∀ r, readBefore? (.statements r) (s.items d) =
      some (.statements (r.cons (s.flow d)))) (otherwise : Option (List Flow)) (r : Remainder) :
    readBefore? (.chain [] otherwise r) (branchItems d [] branches) =
      some (.statements (r.cons (.conditional (branchFlows d branches) otherwise))) := by
  cases branches with
  | nil => exact absurd rfl hne
  | cons b rest =>
      obtain ⟨cond, body⟩ := b
      rw [List.forall_mem_cons] at h
      rw [branchItems, readBefore?, readBefore?_branches h.2, Option.bind_some, read?_block h.1,
        tokens_if]
      exact Ahead.block?_if _ _ _ _ _

/-- A legible statement is read from its items. -/
theorem readBefore?_items (hd : d.IsReadable ok okType) {s : Stmt τ} (hs : s.Legible ok okType)
    (r : Remainder) :
    readBefore? (.statements r) (s.items d) = some (.statements (r.cons (s.flow d))) := by
  have hexpr : ∀ {e : Expr τ}, e.Legible ok okType → StartsPhrase (e.text d) :=
    fun he => he.starts hd.startsName hd.startsType
  have hact : ∀ {text : String}, StartsPhrase text → ∀ r,
      readBefore? (.statements r) [.line (tokens text)] =
        some (.statements (r.cons (.act (tokens text)))) := fun htext r =>
    Ahead.line?_act (Ahead.isControlled_of_starts htext).1 r
  -- items are read from the last to the first, and each statement takes its own from what is left
  induction hs generalizing r with
  | @declare type name init htype hname hinit =>
      refine hact ?_ r
      have hstart := hd.startsDeclaration _ _ htype hname
      cases init with
      | none => exact hstart.append rfl
      | some e => exact hstart.append (by rw [optional, String.toList_append]; rfl)
  | @assign target op value htarget hvalue =>
      refine hact ?_ r
      cases op with
      | none =>
          show StartsPhrase (target.text d ++ " = " ++ value.text d)
          exact (hexpr htarget).append_sign rfl _
      | some op =>
          show StartsPhrase (target.text d ++ " " ++ op.symbol ++ "= " ++ value.text d)
          rw [String.append_assoc, String.append_assoc]
          exact (hexpr htarget).append_sign rfl _
  | eval he => exact hact (hexpr he) r
  | @discardValue e he =>
      have hname : StartsPhrase "_" := (IsPhrase.of_isName (by decide) (by decide)).toStartsPhrase
      have hstart : StartsPhrase ("_" ++ " = " ++ e.text d) := hname.append_sign rfl (e.text d)
      rw [show "_" ++ " = " = ("_ = " : String) from rfl] at hstart
      exact hact hstart r
  | @conditional branches otherwise hne hconds hbodies hotherwise ih ih' =>
      cases otherwise with
      | none => exact readBefore?_conditional hne ih none r
      | some body =>
          rw [items, readBefore?_append, readBefore?, readBefore?, Option.bind_some,
            read?_block (ih' body rfl)]
          exact readBefore?_conditional hne ih (some (blockFlows d body)) r
  -- the first of three lines has the keyword, and the last the block
  | @forRange type counter first last body htype hcounter hfirst hlast hbody ih =>
      have hhead : tokens ("for (" ++ d.declaration type counter ++ " = " ++ first.text d) =
          .word "for" :: .sign "(" :: tokens (action d (.declare type counter (some first))) := by
        have htext : "for (" ++ d.declaration type counter ++ " = " ++ first.text d =
            "for" ++ " " ++ ("(" ++ action d (.declare type counter (some first))) := by
          simp only [action, optional, String.append_assoc]
          rfl
        rw [htext, tokens_spaced, tokens_append_open]
        rfl
      have hstep : tokens (counter ++ "++)") = tokens (counter ++ "++") ++ [.sign ")"] := by
        rw [← tokens_append_close, String.append_assoc]
        rfl
      obtain ⟨hplain, hne⟩ := Ahead.isControlled_of_starts
        ((hd.startsName _ hcounter).append (b := "++") rfl)
      rw [items, readBefore?, readBefore?, readBefore?, readBefore?, Option.bind_some,
        read?_block ih, hstep, Ahead.block?_step hplain hne, hhead]
      rfl
  | @whileDo cond body hcond hbody ih =>
      rw [items, readBefore?, readBefore?, Option.bind_some, read?_block ih,
        show tokens ("while " ++ d.condition (cond.text d)) =
          .word "while" :: tokens (d.condition (cond.text d)) from tokens_spaced "while" _]
      rfl
  | @doWhile body cond hbody hcond ih =>
      have hline : Item.read? (.line (tokens ("while " ++ d.condition (cond.text d))))
          (.statements r) = some (.condition (tokens (d.condition (cond.text d))) r) := by
        rw [show tokens ("while " ++ d.condition (cond.text d)) =
          .word "while" :: tokens (d.condition (cond.text d)) from tokens_spaced "while" _]
        rfl
      rw [items, readBefore?, readBefore?, readBefore?, Option.bind_some, hline, Option.bind_some,
        read?_block ih]
      rfl
  -- `continuing` is read first, and the test with it
  | @loop body breakIf hbody hbreak ih =>
      have htest : tokens ("break if " ++ breakIf.text d) =
          .word "break" :: .word "if" :: tokens (breakIf.text d) := by
        rw [show ("break if " : String) = "break if" ++ " " from rfl, tokens_spaced]
        rfl
      have hinner : readAll? (blockItems d body ++
          [.block [.word "continuing"] [.line (tokens ("break if " ++ breakIf.text d))] []]) =
            some (.statements ⟨blockFlows d body, some (tokens (breakIf.text d))⟩) := by
        rw [readAll?_eq, readBefore?_append, htest]
        show readBefore? (.statements ⟨[], some (tokens (breakIf.text d))⟩) _ = _
        rw [readBefore?_block ih, List.append_nil]
      rw [items, readBefore?, readBefore?, Option.bind_some, Item.read?, hinner]
      rfl
  | @block body hbody ih =>
      rw [items, readBefore?, readBefore?, Option.bind_some, read?_block ih]
      rfl
  | @returnWith value hvalue =>
      cases value with
      | none =>
          rw [items, optional, show tokens ("return" ++ "") = [.word "return"] by decide]
          rfl
      | some e =>
          have hline : tokens ("return" ++ optional d " " (some e)) =
              .word "return" :: tokens (optional d "" (some e)) := by
            rw [optional, optional, ← String.append_assoc, tokens_spaced, String.empty_append]
            rfl
          rw [items, hline]
          rfl
  | breakLoop => rfl
  | continueLoop => rfl
  | discard => rfl

/-- The statements of a legible block are those that its items are read as. -/
theorem flows?_block (hd : d.IsReadable ok okType) {body : List (Stmt τ)}
    (h : ∀ s ∈ body, s.Legible ok okType) :
    flows? (blockItems d body) = some (blockFlows d body) := by
  rw [flows?, readAll?_block fun s hs => readBefore?_items hd (h s hs)]

end Stmt

end Code

end WebShader
