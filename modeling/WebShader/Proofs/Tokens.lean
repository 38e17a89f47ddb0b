import WebShader.Proofs.Datum

/-!
# Tokens

Reading text from left to right as words, numbers and signs. A token is as long as it can be, so
where one ends depends on the character after it: every law below is about a piece of text and
whatever follows it.
-/

namespace WebShader

/-- A token of a target language. -/
inductive Token where
  | word (text : String)
  | number (text : String)
  | sign (text : String)
  deriving DecidableEq

namespace Token

/-! ## Reading -/

/-- The signs of two characters. -/
def pairs : List (Char × Char) :=
  [('=', '='), ('!', '='), ('<', '='), ('>', '='), ('<', '<'), ('>', '>'), ('&', '&'), ('|', '|'),
    ('+', '+'), ('-', '-'), ('-', '>'), ('+', '='), ('-', '='), ('*', '='), ('/', '='), ('%', '='),
    ('&', '='), ('|', '='), ('^', '=')]

/-- Whether a sign of two characters starts with the first and ends with the second. -/
def isPair (c d : Char) : Bool := pairs.contains (c, d)

/-- What has been read of a token that may go on. -/
inductive Pending where
  | nothing
  | word (text : List Char)
  | number (text : List Char)
  | sign (c : Char)

namespace Pending

/-- What a character starts. -/
def start (c : Char) : Pending :=
  if c.isWhitespace then nothing
  else if c.isDigit then number [c]
  else if isNameRest c then word [c]
  else sign c

/-- The token that has been read, if it does not go on. -/
def tokens : Pending → List Token
  | nothing => []
  | word text => [.word (String.ofList text)]
  | number text => [.number (String.ofList text)]
  | sign c => [.sign (String.ofList [c])]

/-- Read one more character: the tokens that end with it or before it, and what goes on. -/
def next (p : Pending) (c : Char) : List Token × Pending :=
  match p with
  | nothing => ([], start c)
  | word text =>
    if isNameRest c then ([], word (text ++ [c])) else ((word text).tokens, start c)
  | number text =>
    if isNameRest c || c == '.' then ([], number (text ++ [c]))
    else ((number text).tokens, start c)
  | sign d =>
    if isPair d c then ([.sign (String.ofList [d, c])], nothing) else ((sign d).tokens, start c)

end Pending

/-- The tokens of a text that goes on where a token may have been started. -/
def readFrom : Pending → List Char → List Token
  | p, [] => p.tokens
  | p, c :: rest => (p.next c).1 ++ readFrom (p.next c).2 rest

/-- The tokens of a text. -/
def read (text : List Char) : List Token := readFrom .nothing text

/-! ## Pieces of text -/

/-- Whether a word may end before what follows. -/
def endsWord : List Char → Bool
  | [] => true
  | c :: _ => !isNameRest c

/-- Whether a number may end before what follows. -/
def endsNumber : List Char → Bool
  | [] => true
  | c :: _ => !isNameRest c && c != '.'

/-- What ends a number ends a word. -/
theorem endsWord_of_endsNumber {rest : List Char} (h : endsNumber rest = true) :
    endsWord rest = true := by
  cases rest with
  | nil => rfl
  | cons c rest => exact (Bool.and_eq_true_iff.mp h).1

/-- A space is skipped. -/
theorem read_space (rest : List Char) : read (' ' :: rest) = read rest := rfl

/-- No digit is a space. -/
theorem isWhitespace_of_isDigit {c : Char} (h : c.isDigit = true) : c.isWhitespace = false := by
  by_contra hspace
  simp only [Bool.not_eq_false, Char.isWhitespace, Bool.or_eq_true, decide_eq_true_eq] at hspace
  rcases hspace with ((rfl | rfl) | rfl) | rfl <;> exact absurd h (by decide)

/-- No name starts with a space. -/
theorem isWhitespace_of_isNameStart {c : Char} (h : isNameStart c = true) :
    c.isWhitespace = false := by
  by_contra hspace
  simp only [Bool.not_eq_false, Char.isWhitespace, Bool.or_eq_true, decide_eq_true_eq] at hspace
  rcases hspace with ((rfl | rfl) | rfl) | rfl <;> exact absurd h (by decide)

/-- No name starts with a digit. -/
theorem isDigit_of_isNameStart {c : Char} (h : isNameStart c = true) : c.isDigit = false := by
  rw [isNameStart, Bool.or_eq_true, beq_iff_eq] at h
  rcases h with h | rfl
  · have hletter : (decide (c.val ≥ 'A'.val ∧ c.val ≤ 'Z'.val) ||
        decide (c.val ≥ 'a'.val) && decide (c.val ≤ 'z'.val)) = true := h
    simp only [Char.isDigit, Bool.or_eq_true, Bool.and_eq_true, decide_eq_true_eq, ge_iff_le,
      UInt32.le_iff_toNat_le, Bool.and_eq_false_iff, decide_eq_false_iff_not] at hletter ⊢
    simp at hletter ⊢
    omega
  · decide

/-- A name can go on as it can start. -/
theorem isNameRest_of_isNameStart {c : Char} (h : isNameStart c = true) : isNameRest c = true := by
  rw [isNameStart, Bool.or_eq_true] at h
  rw [isNameRest, Char.isAlphanum, Bool.or_eq_true, Bool.or_eq_true]
  exact h.imp_left Or.inl

/-- A name starts. -/
theorem Pending.start_name {c : Char} (h : isNameStart c = true) : start c = word [c] := by
  rw [start, isWhitespace_of_isNameStart h, isDigit_of_isNameStart h,
    isNameRest_of_isNameStart h]
  rfl

/-- A number starts. -/
theorem Pending.start_digit {c : Char} (h : c.isDigit = true) : start c = number [c] := by
  rw [start, isWhitespace_of_isDigit h, h]
  rfl

/-- What goes on is a token by itself where the next character does not continue it. -/
theorem readFrom_of_stop {p : Pending} {rest : List Char}
    (h : ∀ c, rest.head? = some c → p.next c = (p.tokens, Pending.start c)) :
    readFrom p rest = p.tokens ++ read rest := by
  cases rest with
  | nil =>
      rw [readFrom, read, readFrom, Pending.tokens]
      simp
  | cons c rest =>
      rw [readFrom, h c rfl]
      rfl

/-- A word ends where what follows is no part of a name. -/
theorem readFrom_word {text rest : List Char} (h : endsWord rest = true) :
    readFrom (.word text) rest = .word (String.ofList text) :: read rest := by
  apply readFrom_of_stop
  intro c hc
  have hrest : isNameRest c = false := by
    cases rest with
    | nil => cases hc
    | cons d rest =>
        cases hc
        simpa [endsWord] using h
  simp [Pending.next, hrest]

/-- A number ends where what follows is no part of one. -/
theorem readFrom_number {text rest : List Char} (h : endsNumber rest = true) :
    readFrom (.number text) rest = .number (String.ofList text) :: read rest := by
  apply readFrom_of_stop
  intro c hc
  have hrest : isNameRest c = false ∧ c ≠ '.' := by
    cases rest with
    | nil => cases hc
    | cons d rest =>
        cases hc
        simpa [endsNumber] using h
  simp [Pending.next, hrest]

/-- Letters and digits go on a word. -/
theorem readFrom_word_append {text more rest : List Char} (h : more.all isNameRest = true) :
    readFrom (.word text) (more ++ rest) = readFrom (.word (text ++ more)) rest := by
  induction more generalizing text with
  | nil => simp
  | cons c more ih =>
      rw [List.all_cons, Bool.and_eq_true] at h
      rw [List.cons_append, readFrom, Pending.next, if_pos h.1, List.nil_append, ih h.2]
      simp

/-- Letters and digits go on a number. -/
theorem readFrom_number_append {text more rest : List Char} (h : more.all isNameRest = true) :
    readFrom (.number text) (more ++ rest) = readFrom (.number (text ++ more)) rest := by
  induction more generalizing text with
  | nil => simp
  | cons c more ih =>
      rw [List.all_cons, Bool.and_eq_true] at h
      rw [List.cons_append, readFrom, Pending.next, if_pos (by simp [h.1]), List.nil_append,
        ih h.2]
      simp

/-- A word that nothing continues is read as such. -/
theorem read_word {c : Char} {text rest : List Char} (hc : isNameStart c = true)
    (htext : text.all isNameRest = true) (h : endsWord rest = true) :
    read (c :: text ++ rest) = .word (String.ofList (c :: text)) :: read rest := by
  rw [List.cons_append, read, readFrom, Pending.next, List.nil_append, Pending.start_name hc,
    readFrom_word_append htext, readFrom_word h]
  rfl

/-- Digits that nothing continues are read as a number. -/
theorem read_number {c : Char} {text rest : List Char} (hc : c.isDigit = true)
    (htext : text.all isNameRest = true) (h : endsNumber rest = true) :
    read (c :: text ++ rest) = .number (String.ofList (c :: text)) :: read rest := by
  rw [List.cons_append, read, readFrom, Pending.next, List.nil_append, Pending.start_digit hc,
    readFrom_number_append htext, readFrom_number h]
  rfl

/-- Characters that no sign is made of. -/
theorem isPair_eq_false {c d : Char} (h : ∀ p ∈ pairs, p.1 = c → p.2 ≠ d) : isPair c d = false := by
  rw [isPair, ← Bool.not_eq_true, List.contains_iff_mem]
  exact fun hmem => h _ hmem rfl rfl

/-- What starts no sign of two characters is a sign by itself. -/
theorem isPair_of_first {c : Char} (h : ∀ p ∈ pairs, p.1 ≠ c) (d : Char) : isPair c d = false :=
  isPair_eq_false fun p hp hc => absurd hc (h p hp)

/-- What ends no sign of two characters does not go on with one. -/
theorem isPair_of_second {f : Char → Bool} (h : ∀ p ∈ pairs, f p.2 = false) (c : Char) {d : Char}
    (hd : f d = true) : isPair c d = false := by
  refine isPair_eq_false fun p hp _ heq => ?_
  rw [← heq, h p hp] at hd
  cases hd

/-- A sign that starts no longer one is read as such. -/
theorem read_sign {c : Char} {rest : List Char} (hc : Pending.start c = .sign c)
    (h : ∀ d, rest.head? = some d → isPair c d = false) :
    read (c :: rest) = .sign (String.ofList [c]) :: read rest := by
  rw [read, readFrom, Pending.next, List.nil_append, hc]
  apply readFrom_of_stop
  intro d hd
  simp [Pending.next, h d hd]

/-- A sign that no longer one starts with is read as such, whatever follows. -/
theorem read_single {c : Char} (hc : Pending.start c = .sign c) (h : ∀ p ∈ pairs, p.1 ≠ c)
    (rest : List Char) : read (c :: rest) = .sign (String.ofList [c]) :: read rest :=
  read_sign hc fun d _ => isPair_of_first h d

end Token

end WebShader
