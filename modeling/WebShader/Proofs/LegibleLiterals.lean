import WebShader.Proofs.LegibleCode
import WebShader.Value

/-!
# Legible literals

However a number is spelled, with its digits, a point or an exponent, its text is a phrase.
-/

namespace WebShader

/-! ## Digits -/

/-- No name starts with a digit. -/
theorem isNameStart_of_isDigit {c : Char} (h : c.isDigit = true) : isNameStart c = false := by
  by_contra hstart
  rw [Bool.not_eq_false] at hstart
  rw [Token.isDigit_of_isNameStart hstart] at h
  cases h

/-- A digit neither ends a line nor opens or closes a block. -/
theorem isBound_of_isDigit {c : Char} (h : c.isDigit = true) : isBound c = false := by
  by_contra hbound
  simp only [Bool.not_eq_false, isBound, Bool.or_eq_true, beq_iff_eq] at hbound
  rcases hbound with (rfl | rfl) | rfl <;> exact absurd h (by decide)

/-- A natural number is printed in digits. -/
theorem isDigit_of_mem_toString {n : Nat} {c : Char} (h : c ∈ (toString n).toList) :
    c.isDigit = true := by
  rw [show (toString n).toList = Nat.toDigits 10 n from Nat.toList_repr] at h
  exact Nat.isDigit_of_mem_toDigits (by decide) (by decide) h

/-- A natural number is printed plainly. -/
theorem IsPlain.nat (n : Nat) : IsPlain (toString n) := fun _ hc =>
  isBound_of_isDigit (isDigit_of_mem_toString hc)

/-- An integer is printed plainly. -/
theorem IsPlain.int (i : Int) : IsPlain (toString i) := by
  cases i with
  | ofNat n => exact .nat n
  | negSucc n => exact IsPlain.append (by decide) (.nat (n + 1))

/-- The text starts with a digit. -/
def StartsDigit (text : String) : Prop := ∃ c rest, text.toList = c :: rest ∧ c.isDigit = true

/-- A text that starts with a digit still does with more behind it. -/
theorem StartsDigit.append {a : String} (ha : StartsDigit a) (b : String) :
    StartsDigit (a ++ b) := by
  obtain ⟨c, rest, hlist, hc⟩ := ha
  exact ⟨c, rest ++ b.toList, by rw [String.toList_append, hlist, List.cons_append], hc⟩

/-- No statement starts with a digit. -/
theorem StartsDigit.phrase {text : String} (h : StartsDigit text) : StartsPhrase text := by
  obtain ⟨c, rest, hlist, hc⟩ := h
  exact .of_first hlist (Token.isWhitespace_of_isDigit hc) (isNameStart_of_isDigit hc)

/-- A natural number starts with a digit. -/
theorem StartsDigit.nat (n : Nat) : StartsDigit (toString n) := by
  cases hlist : (toString n).toList with
  | nil =>
      have hpos := Nat.length_toDigits_pos (b := 10) (n := n)
      rw [show (toString n).toList = Nat.toDigits 10 n from Nat.toList_repr] at hlist
      simp [hlist] at hpos
  | cons c rest =>
      have hmem : c ∈ (toString n).toList := by
        rw [hlist]
        exact List.mem_cons_self
      exact ⟨c, rest, hlist, isDigit_of_mem_toString hmem⟩

/-- A natural number is a phrase, whatever suffix it has. -/
theorem IsPhrase.nat (n : Nat) (suffix : String) (h : IsPlain suffix) :
    IsPhrase (toString n ++ suffix) where
  toStartsPhrase := ((StartsDigit.nat n).append suffix).phrase
  plain := (IsPlain.nat n).append h

/-- An integer is a phrase, whatever suffix it has. -/
theorem IsPhrase.int (i : Int) (suffix : String) (h : IsPlain suffix) :
    IsPhrase (toString i ++ suffix) where
  toStartsPhrase := by
    cases i with
    | ofNat n => exact (IsPhrase.nat n suffix h).toStartsPhrase
    | negSucc n =>
        rw [show toString (Int.negSucc n) = "-" ++ toString (n + 1) from rfl, String.append_assoc]
        exact .of_sign _ (by decide) _
  plain := (IsPlain.int i).append h

/-! ## Floats -/

namespace Binary

/-- The shortest decimal has the digits of a natural number, but for zeros at its end. -/
theorem exists_shortest (f : BinaryFormat) (m : Nat) (e : Int) :
    ∃ n shift, shortest f m e = Digits.ofNat n shift := by
  simp only [shortest]
  generalize hfound : List.findSome? _ _ = found
  cases found with
  | none => exact ⟨0, 0, rfl⟩
  | some d =>
      obtain ⟨c, -, hc⟩ := List.exists_of_findSome?_eq_some hfound
      obtain ⟨n, -, rfl⟩ := Option.map_eq_some_iff.mp hc
      exact ⟨n, _, rfl⟩

/-- The shortest digits of a float are digits. -/
theorem isDigit_of_shortest {f : BinaryFormat} {m : Nat} {e : Int} {c : Char}
    (h : c ∈ (shortest f m e).digits) : c.isDigit = true := by
  obtain ⟨n, shift, hshortest⟩ := exists_shortest f m e
  rw [hshortest, Digits.ofNat, List.mem_reverse] at h
  exact isDigit_of_mem_toString (List.mem_reverse.mp ((List.dropWhile_suffix _).subset h))

section Digits

variable {d : Digits}

/-- A float that is printed without an exponent. -/
theorem startsDigit_positional (hd : ∀ c ∈ d.digits, c.isDigit = true) :
    StartsDigit d.positional ∧ IsPlain d.positional := by
  have hzeros : ∀ n, ∀ c ∈ List.replicate n '0', c.isDigit = true := by
    intro n c hc
    rw [List.eq_of_mem_replicate hc]
    decide
  -- the characters are digits, the first one is, and there may be a point among the others
  suffices h : ∃ c rest, d.positional.toList = c :: rest ∧ c.isDigit = true ∧
      ∀ x ∈ rest, x.isDigit = true ∨ x = '.' by
    obtain ⟨c, rest, hlist, hc, hrest⟩ := h
    refine ⟨⟨c, rest, hlist, hc⟩, fun x hx => ?_⟩
    rw [hlist, List.mem_cons] at hx
    rcases hx with rfl | hx
    · exact isBound_of_isDigit hc
    · rcases hrest x hx with hx | rfl
      · exact isBound_of_isDigit hx
      · decide
  simp only [Digits.positional, String.toList_ofList]
  split
  · refine ⟨'0', _, rfl, by decide, fun x hx => ?_⟩
    rcases List.mem_append.mp (show x ∈ ('.' :: List.replicate _ '0') ++ d.digits from hx)
      with hx | hx
    · rcases List.mem_cons.mp hx with rfl | hx
      · exact Or.inr rfl
      · exact Or.inl (hzeros _ x hx)
    · exact Or.inl (hd x hx)
  · rename_i hpoint
    obtain ⟨n, hn⟩ : ∃ n, d.point.toNat = n + 1 := ⟨d.point.toNat - 1, by omega⟩
    rw [hn]
    cases hdigits : d.digits with
    | nil => exact ⟨'0', List.replicate n '0', rfl, by decide, fun x hx => Or.inl (hzeros n x hx)⟩
    | cons c rest =>
        rw [hdigits, List.forall_mem_cons] at hd
        split
        · refine ⟨c, rest.take n ++ '.' :: rest.drop n, rfl, hd.1, fun x hx => ?_⟩
          rw [List.mem_append, List.mem_cons] at hx
          rcases hx with hx | rfl | hx
          · exact Or.inl (hd.2 x (List.mem_of_mem_take hx))
          · exact Or.inr rfl
          · exact Or.inl (hd.2 x (List.mem_of_mem_drop hx))
        · refine ⟨c, _, rfl, hd.1, fun x hx => ?_⟩
          rcases List.mem_append.mp hx with hx | hx
          · exact Or.inl (hd.2 x hx)
          · exact Or.inl (hzeros _ x hx)

/-- A float that is printed with an exponent. -/
theorem startsDigit_scientific (hd : ∀ c ∈ d.digits, c.isDigit = true) :
    StartsDigit d.scientific ∧ IsPlain d.scientific := by
  have hend : IsPlain ("e" ++ toString (d.point - 1)) := IsPlain.append (by decide) (.int _)
  have hplain : ∀ rest : List Char, (∀ x ∈ rest, x.isDigit = true) →
      IsPlain (String.ofList rest) := by
    intro rest hrest x hx
    rw [String.toList_ofList] at hx
    exact isBound_of_isDigit (hrest x hx)
  have hone : ∀ c : Char, c.isDigit = true → StartsDigit c.toString ∧ IsPlain c.toString := by
    intro c hc
    rw [Char.toString_eq_singleton]
    refine ⟨⟨c, [], String.toList_singleton c, hc⟩, fun x hx => ?_⟩
    rw [String.toList_singleton, List.mem_singleton] at hx
    exact hx ▸ isBound_of_isDigit hc
  unfold Digits.scientific
  rw [String.append_assoc]
  match hdigits : d.digits with
  | [] => exact ⟨(StartsDigit.nat 0).append _, IsPlain.append (by decide) hend⟩
  | [c] =>
      rw [hdigits, List.forall_mem_cons] at hd
      exact ⟨(hone c hd.1).1.append _, (hone c hd.1).2.append hend⟩
  | c :: c' :: rest =>
      rw [hdigits, List.forall_mem_cons] at hd
      refine ⟨?_, (((hone c hd.1).2.append (by decide)).append (hplain _ hd.2)).append hend⟩
      exact (((hone c hd.1).1.append ".").append _).append _

end Digits

/-- However a float is spelled, its text is a phrase, the suffix of its type included. -/
theorem isPhrase_literalText (f : BinaryFormat) (x : Binary) (suffix : String)
    (h : suffix ∈ ["", "h"]) : IsPhrase (x.literalText f ++ suffix) := by
  have hsuffix : IsPlain suffix := by
    rw [List.mem_cons, List.mem_singleton] at h
    rcases h with rfl | rfl <;> decide
  -- a number without a sign starts with a digit, unless it is infinite
  have hsigned : ∀ negative text, IsPlain text → (StartsDigit text ∨ text = "inf") →
      IsPhrase (signText negative ++ text ++ suffix) := by
    intro negative text hplain hstart
    cases negative with
    | true =>
        refine ⟨?_, (IsPlain.append (by decide) hplain).append hsuffix⟩
        rw [String.append_assoc]
        exact .of_sign _ (by decide) _
    | false =>
        rw [signText, if_neg (by decide), String.empty_append]
        refine ⟨?_, hplain.append hsuffix⟩
        rcases hstart with hstart | rfl
        · exact (hstart.append suffix).phrase
        · rw [List.mem_cons, List.mem_singleton] at h
          rcases h with rfl | rfl
          · exact (IsPhrase.of_isName (a := "inf") (by decide) (by decide)).toStartsPhrase
          · exact (IsPhrase.of_isName (a := "infh") (by decide) (by decide)).toStartsPhrase
  cases x with
  | nan =>
      rw [List.mem_cons, List.mem_singleton] at h
      rcases h with rfl | rfl
      · exact .of_isName (a := "NaN") (by decide) (by decide)
      · exact .of_isName (a := "NaNh") (by decide) (by decide)
  | infinity negative => exact hsigned negative "inf" (by decide) (Or.inr rfl)
  | finite negative m e =>
      have hdigits : ∀ c ∈ (shortest f m e).digits, c.isDigit = true :=
        fun c hc => isDigit_of_shortest hc
      rw [literalText]
      refine hsigned negative _ ?_ (Or.inl ?_)
      · split
        · decide
        · dsimp only
          split
          · exact (IsPlain.nat _).append (by decide)
          · split
            · exact (startsDigit_positional hdigits).2
            · exact (startsDigit_scientific hdigits).2
      · split
        · exact ⟨'0', ['.', '0'], rfl, by decide⟩
        · dsimp only
          split
          · exact (StartsDigit.nat _).append _
          · split
            · exact (startsDigit_positional hdigits).1
            · exact (startsDigit_scientific hdigits).1

end Binary

end WebShader
