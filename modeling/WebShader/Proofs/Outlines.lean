import Mathlib.Data.List.TakeWhile
import WebShader.Proofs.Tokens

/-!
# Outlines

How a source is read before any of its statements and declarations is: as lines, which semicolons
end, and blocks in braces, with what stands before a block and what its braces hold besides lines
and blocks. Nothing else in a source has a semicolon or a brace, so that the outline of a text is
told from those of its pieces.
-/

namespace WebShader

namespace Token

/-! ## Spaces -/

/-- A space at the start is skipped. -/
theorem readFrom_nothing_space {c : Char} (hc : c.isWhitespace = true) (rest : List Char) :
    readFrom .nothing (c :: rest) = readFrom .nothing rest := by
  rw [readFrom, Pending.next, Pending.start, if_pos hc, List.nil_append]

/-- Spaces before a text are skipped. -/
theorem read_dropWhile (text : List Char) :
    read (text.dropWhile Char.isWhitespace) = read text := by
  induction text with
  | nil => rfl
  | cons c rest ih =>
      by_cases hc : c.isWhitespace = true
      · rw [List.dropWhile_cons_of_pos hc, ih]
        exact (readFrom_nothing_space hc rest).symm
      · rw [List.dropWhile_cons_of_neg hc]

/-- A space ends what is pending. -/
theorem next_space {p : Pending} {c : Char} (hc : c.isWhitespace = true) :
    p.next c = (p.tokens, .nothing) := by
  have hstart : Pending.start c = .nothing := by rw [Pending.start, if_pos hc]
  have hrest : isNameRest c = false ∧ c ≠ '.' ∧ ∀ d, isPair d c = false := by
    simp only [Char.isWhitespace, Bool.or_eq_true, decide_eq_true_eq] at hc
    rcases hc with ((rfl | rfl) | rfl) | rfl
    all_goals exact ⟨by decide, by decide, fun d =>
      isPair_of_second (f := fun c => c.isWhitespace) (by decide) d rfl⟩
  cases p with
  | nothing => rw [Pending.next, hstart, Pending.tokens]
  | word text => simp [Pending.next, hrest.1, hstart]
  | number text => simp [Pending.next, hrest.1, hrest.2.1, hstart]
  | sign d => simp [Pending.next, hrest.2.2 d, hstart]

/-- A space separates what is before it from what is after it. -/
theorem readFrom_append_space (p : Pending) (text : List Char) {c : Char}
    (hc : c.isWhitespace = true) (rest : List Char) :
    readFrom p (text ++ c :: rest) = readFrom p text ++ read rest := by
  induction text generalizing p with
  | nil =>
      rw [List.nil_append, readFrom.eq_2, next_space hc]
      rfl
  | cons d text ih =>
      rw [List.cons_append, readFrom, readFrom, ih, List.append_assoc]

/-- A space separates what is before it from what is after it. -/
theorem read_append_space (text : List Char) {c : Char} (hc : c.isWhitespace = true)
    (rest : List Char) : read (text ++ c :: rest) = read text ++ read rest :=
  readFrom_append_space .nothing text hc rest

/-! ## Marks -/

/-- Whether the character is a token wherever it stands. -/
def isMark (c : Char) : Bool := "(),:@#[]".toList.contains c

/-- A mark ends what is pending, and is pending itself. -/
theorem next_mark {c : Char} (hc : isMark c = true) (p : Pending) :
    p.next c = (p.tokens, .sign c) := by
  have hmarks : ("(),:@#[]".toList.all fun d =>
      !isNameRest d && d != '.' && !d.isWhitespace && !d.isDigit) = true := by decide
  have hmark := List.all_eq_true.mp hmarks c (List.contains_iff_mem.mp hc)
  simp only [Bool.and_eq_true, Bool.not_eq_true', bne_iff_ne] at hmark
  obtain ⟨⟨⟨hrest, hdot⟩, hspace⟩, hdigit⟩ := hmark
  have hstart : Pending.start c = .sign c := by simp [Pending.start, hspace, hdigit, hrest]
  cases p with
  | nothing => rw [Pending.next, hstart, Pending.tokens]
  | word text => simp [Pending.next, hrest, hstart]
  | number text => simp [Pending.next, hrest, hdot, hstart]
  | sign d => simp [Pending.next, isPair_of_second
      (by decide : ∀ p ∈ pairs, isMark p.2 = false) d hc,
      hstart]

/-- A mark separates what is before it from what is after it. -/
theorem readFrom_append_mark (p : Pending) (text : List Char) {c : Char} (hc : isMark c = true)
    (rest : List Char) : readFrom p (text ++ c :: rest) =
      readFrom p text ++ .sign (String.ofList [c]) :: read rest := by
  induction text generalizing p with
  | nil =>
      have hfirst : ∀ p ∈ pairs, isMark p.1 = false := by decide
      have hstop : readFrom (.sign c) rest = .sign (String.ofList [c]) :: read rest :=
        readFrom_of_stop fun d _ => by
          have hpair : isPair c d = false := isPair_of_first (fun p hp heq => by
            rw [← heq, hfirst p hp] at hc
            cases hc) d
          simp [Pending.next, hpair]
      rw [List.nil_append, readFrom.eq_2, next_mark hc, hstop]
      cases p <;> rfl
  | cons d text ih => rw [List.cons_append, readFrom, readFrom, ih, List.append_assoc]

/-- A mark separates what is before it from what is after it. -/
theorem read_append_mark (text : List Char) {c : Char} (hc : isMark c = true) (rest : List Char) :
    read (text ++ c :: rest) = read text ++ .sign (String.ofList [c]) :: read rest :=
  readFrom_append_mark .nothing text hc rest

end Token

/-- The tokens of a text. -/
def tokens (text : String) : List Token := Token.read text.toList

/-! ## Items -/

/-- A line, or a block with what stands before its brace, the items inside, and the text between the
last of these and the brace that closes it. -/
inductive Item where
  | line (text : List Token)
  | block (head : List Token) (items : List Item) (last : List Char)

/-- Whether the character ends a line, or opens or closes a block. -/
def isBound (c : Char) : Bool := c == ';' || c == '\x7b' || c == '\x7d'

/-- Where a reader is: the blocks that are open, from the innermost out, with what stands before
each and the items before it, the items read since, and what may become a line or the head of a
block. -/
structure Outline where
  outer : List (List Token × List Item)
  items : List Item
  run : List Char

namespace Outline

/-- Before a text. -/
def start : Outline := ⟨[], [], []⟩

/-- Read a character. -/
def step (o : Outline) (c : Char) : Option Outline :=
  if c = ';' then some ⟨o.outer, o.items ++ [.line (Token.read o.run)], []⟩
  else if c = '\x7b' then some ⟨(Token.read o.run, o.items) :: o.outer, [], []⟩
  else if c = '\x7d' then
    match o.outer with
    | [] => none
    | (head, before) :: outer =>
      some ⟨outer, before ++ [.block head o.items o.run], []⟩
  else if o.run.isEmpty && c.isWhitespace then some o
  else some ⟨o.outer, o.items, o.run ++ [c]⟩

/-- Read a text. -/
def feed (o : Outline) (text : String) : Option Outline := text.toList.foldlM step o

/-- The items of a text, if its braces match and it ends with an item. -/
def ofText? (text : String) : Option (List Item) :=
  match start.feed text with
  | some ⟨[], items, []⟩ => some items
  | _ => none

end Outline

/-! ## Pieces of text -/

/-- The text neither ends a line nor opens or closes a block. -/
def IsPlain (text : String) : Prop := ∀ c ∈ text.toList, isBound c = false

instance (text : String) : Decidable (IsPlain text) :=
  List.decidableBAll (fun c => isBound c = false) text.toList

/-- The text is made of spaces and ends of lines. -/
def IsBlank (text : String) : Prop := ∀ c ∈ text.toList, c.isWhitespace = true

instance (text : String) : Decidable (IsBlank text) :=
  List.decidableBAll (fun c : Char => c.isWhitespace = true) text.toList

namespace IsPlain

variable {a b : String}

/-- Two plain texts in a row are plain. -/
protected theorem append (ha : IsPlain a) (hb : IsPlain b) : IsPlain (a ++ b) := by
  intro c hc
  rw [String.toList_append, List.mem_append] at hc
  exact hc.elim (ha c) (hb c)

/-- Plain texts with a plain separator between them are plain. -/
theorem intercalate {separator : String} (hseparator : IsPlain separator) {texts : List String}
    (h : ∀ text ∈ texts, IsPlain text) : IsPlain (separator.intercalate texts) := by
  induction texts with
  | nil =>
      intro c hc
      simp at hc
  | cons text rest ih =>
      rw [List.forall_mem_cons] at h
      cases rest with
      | nil => simpa using h.1
      | cons text' rest =>
          rw [String.intercalate_cons_of_ne_nil (by simp)]
          exact (h.1.append hseparator).append (ih h.2)

/-- Plain texts in a row are plain. -/
theorem join {texts : List String} (h : ∀ text ∈ texts, IsPlain text) :
    IsPlain (String.join texts) := by
  intro c hc
  rw [String.toList_join, List.mem_flatMap] at hc
  obtain ⟨text, htext, hc⟩ := hc
  exact h text htext c hc

/-- What a name can go on with is plain. -/
theorem of_nameRest {text : String} (h : text.toList.all isNameRest = true) : IsPlain text := by
  intro c hc
  have hrest := List.all_eq_true.mp h c hc
  by_contra hbound
  simp only [Bool.not_eq_false, isBound, Bool.or_eq_true, beq_iff_eq] at hbound
  rcases hbound with (rfl | rfl) | rfl <;> exact absurd hrest (by decide)

end IsPlain

/-- Reading the text adds the items and leaves nothing behind. -/
def Adds (text : String) (items : List Item) : Prop :=
  ∀ outer before, Outline.feed ⟨outer, before, []⟩ text = some ⟨outer, before ++ items, []⟩

namespace Outline

/-- A text is read after the text before it. -/
theorem feed_append (o : Outline) (a b : String) :
    o.feed (a ++ b) = (o.feed a).bind (·.feed b) := by
  simp only [feed, String.toList_append, List.foldlM_append]
  rfl

/-- A plain character goes on with the run, unless it is a space at its start. -/
theorem step_plain {c : Char} (hc : isBound c = false) (o : Outline) :
    o.step c = if o.run.isEmpty && c.isWhitespace then some o
      else some ⟨o.outer, o.items, o.run ++ [c]⟩ := by
  simp only [isBound, Bool.or_eq_false_iff, beq_eq_false_iff_ne] at hc
  rw [step, if_neg hc.1.1, if_neg hc.1.2, if_neg hc.2]

/-- A plain text goes on what has been read of a line. -/
theorem feed_plain_of_ne_nil {text : List Char} (h : ∀ c ∈ text, isBound c = false)
    (outer : List (List Token × List Item)) (items : List Item) {run : List Char}
    (hrun : run ≠ []) :
    text.foldlM step ⟨outer, items, run⟩ = some ⟨outer, items, run ++ text⟩ := by
  induction text generalizing run with
  | nil => simp
  | cons c text ih =>
      rw [List.forall_mem_cons] at h
      rw [List.foldlM_cons, step_plain h.1, if_neg (by simp [hrun])]
      show List.foldlM step ⟨outer, items, run ++ [c]⟩ text = _
      rw [ih h.2 (by simp)]
      simp

/-- A plain text starts a line, but for the spaces before it. -/
theorem feed_plain {text : String} (h : IsPlain text) (outer : List (List Token × List Item))
    (items : List Item) : feed ⟨outer, items, []⟩ text =
      some ⟨outer, items, text.toList.dropWhile Char.isWhitespace⟩ := by
  rw [feed]
  unfold IsPlain at h
  generalize text.toList = chars at h ⊢
  induction chars with
  | nil => rfl
  | cons c rest ih =>
      rw [List.forall_mem_cons] at h
      rw [List.foldlM_cons, step_plain h.1]
      by_cases hc : c.isWhitespace = true
      · rw [if_pos (by simp [hc]), List.dropWhile_cons_of_pos hc]
        exact ih h.2
      · rw [if_neg (by simp [hc]), List.dropWhile_cons_of_neg hc]
        exact feed_plain_of_ne_nil h.2 outer items (by simp)

end Outline

namespace Adds

open Outline

variable {a b text : String} {items items' : List Item}

/-- No text adds no item. -/
protected theorem empty : Adds "" [] := fun outer before => by simp [feed]

/-- Two texts in a row add the items of both. -/
protected theorem append (ha : Adds a items) (hb : Adds b items') :
    Adds (a ++ b) (items ++ items') := by
  intro outer before
  rw [feed_append, ha, Option.bind_some, hb, List.append_assoc]

/-- Texts in a row add the items of all of them. -/
theorem join {α : Type} {f : α → String} {g : α → List Item} {xs : List α}
    (h : ∀ x ∈ xs, Adds (f x) (g x)) : Adds (String.join (xs.map f)) (xs.flatMap g) := by
  induction xs with
  | nil => exact Adds.empty
  | cons x rest ih =>
      rw [List.forall_mem_cons] at h
      rw [List.map_cons, String.join_cons, List.flatMap_cons]
      exact h.1.append (ih h.2)

/-- Blank text is plain. -/
theorem isPlain_spaces (h : IsBlank text) : IsPlain text := by
  intro c hc
  have hspace := h c hc
  by_contra hbound
  simp only [Bool.not_eq_false, isBound, Bool.or_eq_true, beq_iff_eq] at hbound
  rcases hbound with (rfl | rfl) | rfl <;> exact absurd hspace (by decide)

/-- Spaces between items add nothing. -/
theorem spaces (h : IsBlank text) : Adds text [] := by
  intro outer before
  rw [feed_plain (isPlain_spaces h), List.dropWhile_eq_nil_iff.mpr h, List.append_nil]

/-- The end of a line adds no item. -/
theorem newline : Adds "\n" [] := spaces (by decide)

/-- A text before a semicolon is a line. -/
theorem line (h : IsPlain text) : Adds (text ++ ";") [.line (tokens text)] := by
  intro outer before
  rw [feed_append, feed_plain h, Option.bind_some]
  show some _ = _
  rw [Token.read_dropWhile]
  rfl

/-- Items in braces are a block. -/
theorem block {head body last : String} (hhead : IsPlain head) (hbody : Adds body items)
    (hlast : IsPlain last) : Adds (head ++ "\x7b" ++ body ++ last ++ "\x7d")
      [.block (tokens head) items (last.toList.dropWhile Char.isWhitespace)] := by
  intro outer before
  have hopen : feed ⟨outer, before, head.toList.dropWhile Char.isWhitespace⟩ "\x7b" =
      some ⟨(tokens head, before) :: outer, [], []⟩ := by
    show some _ = _
    rw [Token.read_dropWhile]
    rfl
  rw [feed_append, feed_append, feed_append, feed_append, feed_plain hhead, Option.bind_some, hopen,
    Option.bind_some, hbody, Option.bind_some, feed_plain hlast, Option.bind_some]
  rfl

/-- A line with the end of the line of text. -/
theorem text_line (h : IsPlain text) : Adds (text ++ ";\n") [.line (tokens text)] := by
  have hend : text ++ ";\n" = text ++ ";" ++ "\n" := by rw [String.append_assoc]; rfl
  rw [hend]
  exact (line h).append newline

/-- A block as it is laid out: the brace that opens it ends a line, and the one that closes it comes
after spaces. -/
theorem text_block {head body space : String} (hhead : IsPlain head) (hbody : Adds body items)
    (hspace : IsBlank space) :
    Adds (head ++ " \x7b\n" ++ body ++ space ++ "\x7d") [.block (tokens head) items []] := by
  have htext : head ++ " \x7b\n" ++ body ++ space ++ "\x7d" =
      head ++ " " ++ "\x7b" ++ ("\n" ++ body) ++ space ++ "\x7d" := by
    rw [show (" \x7b\n" : String) = " " ++ "\x7b" ++ "\n" from rfl]
    simp only [String.append_assoc]
  have hhead' : tokens (head ++ " ") = tokens head := by
    rw [tokens, String.toList_append]
    exact (Token.read_append_space _ (by decide) []).trans (List.append_nil _)
  have hlast : space.toList.dropWhile Char.isWhitespace = [] := List.dropWhile_eq_nil_iff.mpr hspace
  rw [htext, ← hhead', ← hlast]
  exact block (hhead.append (by decide)) (newline.append hbody) (isPlain_spaces hspace)

/-- What adds items to a text adds them to none. -/
theorem ofText? (h : Adds text items) : Outline.ofText? text = some items := by
  rw [Outline.ofText?, start, h]
  rfl

end Adds

end WebShader
