import Mathlib.Data.List.Nodup
import WebShader.Swizzle

/-!
# The masks that are read

A mask is written with letters of one alphabet, `xyzw` or `rgba`, each at the position of the
component it selects. `Swizzle.parse_eq_ok_iff` characterizes what is read from a mask by what it
is written as: the components read are the ones whose letters, in order, are the mask. The grammar
of masks, their length, their selectors and their text all follow from it.

The length is bounded in bytes by the program and in letters by the grammar. The letters of both
alphabets are one byte each, and no letter is less, so the two bounds refuse the same masks.
-/

namespace WebShader

/-! ## Alphabets -/

namespace LetterSet

/-- The letters of a set, each at the position of the component it stands for. -/
def alphabet : LetterSet → List Char
  | .position => ['x', 'y', 'z', 'w']
  | .color => ['r', 'g', 'b', 'a']

/-- A letter of the set stands at the position of its component. -/
theorem idxOf_letter (set : LetterSet) (c : Component) :
    set.alphabet.idxOf (set.letter c) = c.index.toNat := by
  cases set <;> cases c <;> decide

/-- The letters of an alphabet are those of the components. -/
theorem mem_alphabet_iff {set : LetterSet} {c : Char} :
    c ∈ set.alphabet ↔ ∃ component, set.letter component = c := by
  constructor
  · intro h
    cases set <;> simp only [alphabet, List.mem_cons, List.not_mem_nil, or_false] at h <;>
      rcases h with rfl | rfl | rfl | rfl
    exacts [⟨.x, rfl⟩, ⟨.y, rfl⟩, ⟨.z, rfl⟩, ⟨.w, rfl⟩, ⟨.x, rfl⟩, ⟨.y, rfl⟩, ⟨.z, rfl⟩, ⟨.w, rfl⟩]
  · rintro ⟨component, rfl⟩
    cases set <;> cases component <;> decide

/-- Different components have different letters. -/
theorem letter_injective (set : LetterSet) : Function.Injective set.letter := by
  intro c d h
  have hread := congrArg Component.ofLetter? h
  simp only [Component.ofLetter?_letter] at hread
  exact congrArg Prod.fst (Option.some.inj hread)

/-- A word over an alphabet names its components. -/
theorem exists_map_letter {set : LetterSet} {cs : List Char} (h : ∀ c ∈ cs, c ∈ set.alphabet) :
    ∃ components : List Component, components.map set.letter = cs := by
  induction cs with
  | nil => exact ⟨[], rfl⟩
  | cons c cs ih =>
      obtain ⟨component, rfl⟩ := mem_alphabet_iff.mp (h c List.mem_cons_self)
      obtain ⟨components, rfl⟩ := ih fun d hd => h d (List.mem_cons_of_mem _ hd)
      exact ⟨component :: components, rfl⟩

/-- Every letter is one byte long. -/
theorem utf8Size_letter (set : LetterSet) (c : Component) : (set.letter c).utf8Size = 1 := by
  cases set <;> cases c <;> decide

end LetterSet

/-- A character that stands for a component is that component's letter in its set. -/
theorem Component.ofLetter?_eq_some_iff {c : Char} {component : Component} {set : LetterSet} :
    ofLetter? c = some (component, set) ↔ set.letter component = c := by
  constructor
  · intro h
    unfold ofLetter? at h
    split at h <;> cases h <;> rfl
  · rintro rfl
    exact ofLetter?_letter set component

/-! ## Reading -/

namespace Swizzle

/-- Bytes are letters in what is written with one alphabet. -/
theorem utf8ByteSize_text (s : Swizzle) : s.text.utf8ByteSize = s.length := by
  obtain ⟨components, set⟩ := s
  unfold text length
  induction components with
  | nil => rfl
  | cons c components ih =>
      rw [List.map_cons, String.ofList_cons, String.utf8ByteSize_append,
        String.utf8ByteSize_singleton, set.utf8Size_letter, List.length_cons]
      dsimp only at ih ⊢
      omega

/-- One step of the reading: the letter stands for a component of the vector in the set met so
far, and the other letters are read in its set. -/
theorem readLetters_cons_eq_ok_iff {mask : String} {size : UInt8} {before : Option LetterSet}
    {c : Char} {cs : List Char} {components : List Component} {set : LetterSet} :
    readLetters mask size before (c :: cs) = .ok (components, set) ↔
      ∃ component letters rest, components = component :: rest ∧ letters.letter component = c ∧
        (∀ l ∈ before, l = letters) ∧ component.index < size ∧
        readLetters mask size (some letters) cs = .ok (rest, set) := by
  simp only [readLetters, ← Component.ofLetter?_eq_some_iff]
  cases hletter : Component.ofLetter? c with
  | none => simp
  | some x =>
      obtain ⟨component, letters⟩ := x
      have hmixed : before.any (· != letters) = true ↔ ¬ ∀ l ∈ before, l = letters := by
        cases before <;> simp
      dsimp only
      grind

/-- What is read in a set is what is written with that set, within the vector. -/
theorem readLetters_some_eq_ok_iff {mask : String} {size : UInt8} {set letters : LetterSet}
    {cs : List Char} {components : List Component} :
    readLetters mask size (some set) cs = .ok (components, letters) ↔
      letters = set ∧ components.map set.letter = cs ∧ ∀ c ∈ components, c.index < size := by
  induction cs generalizing components with
  | nil =>
      simp only [readLetters, Option.getD_some, Except.ok.injEq, Prod.mk.injEq, List.map_eq_nil_iff]
      constructor
      · rintro ⟨rfl, rfl⟩
        exact ⟨rfl, rfl, fun c hc => by cases hc⟩
      · rintro ⟨rfl, rfl, -⟩
        exact ⟨rfl, rfl⟩
  | cons c cs ih =>
      rw [readLetters_cons_eq_ok_iff]
      constructor
      · rintro ⟨component, next, rest, rfl, rfl, hset, hindex, hrest⟩
        obtain rfl := hset set rfl
        obtain ⟨rfl, rfl, hindices⟩ := ih.mp hrest
        exact ⟨rfl, rfl, List.forall_mem_cons.mpr ⟨hindex, hindices⟩⟩
      · rintro ⟨rfl, hmap, hindex⟩
        obtain ⟨component, rest, rfl, rfl, hrest⟩ := List.map_eq_cons_iff.mp hmap
        obtain ⟨hindex, hindices⟩ := List.forall_mem_cons.mp hindex
        exact ⟨component, letters, rest, rfl, rfl, fun l hl => (Option.mem_some.mp hl).symm,
          hindex, ih.mpr ⟨rfl, hrest, hindices⟩⟩

/-- What is read from the letters of a whole mask, whose first letter chooses the set. -/
theorem readLetters_none_eq_ok_iff {mask : String} {size : UInt8} {cs : List Char} (hcs : cs ≠ [])
    {components : List Component} {set : LetterSet} :
    readLetters mask size none cs = .ok (components, set) ↔
      components.map set.letter = cs ∧ ∀ c ∈ components, c.index < size := by
  obtain ⟨c, cs, rfl⟩ := List.exists_cons_of_ne_nil hcs
  rw [readLetters_cons_eq_ok_iff]
  constructor
  · rintro ⟨component, letters, rest, rfl, rfl, -, hindex, hrest⟩
    obtain ⟨rfl, rfl, hindices⟩ := readLetters_some_eq_ok_iff.mp hrest
    exact ⟨rfl, List.forall_mem_cons.mpr ⟨hindex, hindices⟩⟩
  · rintro ⟨hmap, hindex⟩
    obtain ⟨component, rest, rfl, rfl, hrest⟩ := List.map_eq_cons_iff.mp hmap
    obtain ⟨hindex, hindices⟩ := List.forall_mem_cons.mp hindex
    exact ⟨component, set, rest, rfl, rfl, fun l hl => (Option.not_mem_none l hl).elim, hindex,
      readLetters_some_eq_ok_iff.mpr ⟨rfl, hrest, hindices⟩⟩

/-- No more than four components. -/
theorem toNat_min_four (size : UInt8) : (min size 4).toNat = min size.toNat 4 := by
  have hle : size ≤ 4 ↔ size.toNat ≤ 4 := UInt8.le_iff_toNat_le
  show (if size ≤ 4 then size else 4).toNat = _
  split
  · rename_i h
    exact (Nat.min_eq_left (hle.mp h)).symm
  · rename_i h
    exact (Nat.min_eq_right (Nat.le_of_not_le (mt hle.mpr h))).symm

/-- A mask is read as the components whose letters it is, when they are one to four, no more than
the vector has, and all of the vector. -/
theorem parse_eq_ok_iff {mask : String} {size : UInt8} {s : Swizzle} :
    parse mask size = .ok s ↔
      s.text = mask ∧ 1 ≤ s.length ∧ s.length ≤ min size.toNat 4 ∧
        ∀ c ∈ s.components, c.index < size := by
  obtain ⟨components, set⟩ := s
  -- the length is checked in bytes, and every letter is one byte
  have hbytes : (Swizzle.mk components set).text = mask →
      mask.utf8ByteSize = components.length := by
    rintro rfl
    exact utf8ByteSize_text _
  have htext : (Swizzle.mk components set).text = mask ↔
      components.map set.letter = mask.toList := by
    rw [text, ← String.toList_inj, String.toList_ofList]
  unfold parse length
  dsimp only
  rw [toNat_min_four]
  split
  -- too long or empty, before a letter is looked at
  · rename_i hrefused
    simp only [Bool.or_eq_true, String.isEmpty_iff, decide_eq_true_eq] at hrefused
    simp only [reduceCtorEq, false_iff]
    rintro ⟨hmask, hpos, hle, -⟩
    have hsize := hbytes hmask
    obtain rfl | hlong := hrefused
    · rw [String.utf8ByteSize_empty] at hsize
      omega
    · omega
  · rename_i hfits
    simp only [Bool.or_eq_true, String.isEmpty_iff, decide_eq_true_eq, not_or, Nat.not_lt] at hfits
    obtain ⟨hne, hfits⟩ := hfits
    have hlist : mask.toList ≠ [] := by
      intro hnil
      exact hne (String.toList_inj.mp hnil)
    have hread : readLetters mask size none mask.toList = .ok (components, set) ↔
        (Swizzle.mk components set).text = mask ∧ ∀ c ∈ components, c.index < size := by
      rw [readLetters_none_eq_ok_iff hlist, htext]
    refine Iff.trans (b := readLetters mask size none mask.toList = .ok (components, set)) ?_
      (hread.trans ?_)
    · cases readLetters mask size none mask.toList with
      | error e => simp
      | ok x => simp [Prod.ext_iff]
    · constructor
      · rintro ⟨hmask, hindices⟩
        have hsize := hbytes hmask
        have hpos : components ≠ [] := by
          rintro rfl
          exact hlist (htext.mp hmask).symm
        exact ⟨hmask, List.length_pos_iff.mpr hpos, hsize ▸ hfits, hindices⟩
      · rintro ⟨hmask, -, -, hindices⟩
        exact ⟨hmask, hindices⟩

/-! ## The grammar -/

/-- What is written with one alphabet, within the vector, is the text of components of the
vector. -/
theorem exists_text_eq_iff {mask : String} {size : UInt8} {set : LetterSet} :
    (∀ c ∈ mask.toList, c ∈ set.alphabet ∧ set.alphabet.idxOf c < size.toNat) ↔
      ∃ components : List Component, (Swizzle.mk components set).text = mask ∧
        ∀ c ∈ components, c.index < size := by
  constructor
  · intro h
    obtain ⟨components, hmap⟩ := LetterSet.exists_map_letter fun c hc => (h c hc).1
    refine ⟨components, by rw [text, hmap, String.ofList_toList], fun c hc => ?_⟩
    have hletter := (h (set.letter c) (hmap ▸ List.mem_map_of_mem hc)).2
    rw [LetterSet.idxOf_letter] at hletter
    exact UInt8.lt_iff_toNat_lt.mpr hletter
  · rintro ⟨components, rfl, hindices⟩ c hc
    rw [text, String.toList_ofList] at hc
    obtain ⟨component, hcomponent, rfl⟩ := List.mem_map.mp hc
    refine ⟨LetterSet.mem_alphabet_iff.mpr ⟨component, rfl⟩, ?_⟩
    rw [LetterSet.idxOf_letter]
    exact UInt8.lt_iff_toNat_lt.mp (hindices component hcomponent)

/-- **The grammar of masks.** A mask is accepted exactly when it has one letter to four, no more
than the vector has components, all of one alphabet and each at a position within the vector. The
mask read then has as many selectors as there are letters, the positions of the letters in order;
it prints back as it was written, and it is unique exactly when no letter is repeated. -/
theorem parse_accepts_grammar (mask : String) (size : UInt8) :
    ((∃ s, parse mask size = .ok s) ↔
      1 ≤ mask.length ∧ mask.length ≤ min size.toNat 4 ∧
        ∃ set : LetterSet, ∀ c ∈ mask.toList,
          c ∈ set.alphabet ∧ set.alphabet.idxOf c < size.toNat) ∧
    ∀ s, parse mask size = .ok s →
      s.length = mask.length ∧
      (∀ c ∈ mask.toList, c ∈ s.letters.alphabet) ∧
      s.components.map (·.index.toNat) = mask.toList.map s.letters.alphabet.idxOf ∧
      s.text = mask ∧
      (s.isUnique = true ↔ mask.toList.Nodup) := by
  have hlength : ∀ s : Swizzle, s.text.length = s.length := by
    intro s
    rw [text, String.length_ofList, List.length_map, length]
  constructor
  · constructor
    -- what is accepted is printed as it was written
    · rintro ⟨s, h⟩
      obtain ⟨rfl, hpos, hle, hindices⟩ := parse_eq_ok_iff.mp h
      rw [hlength]
      exact ⟨hpos, hle, s.letters, exists_text_eq_iff.mpr ⟨s.components, rfl, hindices⟩⟩
    -- and what follows the grammar is the text of some swizzle
    · rintro ⟨hpos, hle, set, hset⟩
      obtain ⟨components, rfl, hindices⟩ := exists_text_eq_iff.mp hset
      rw [hlength] at hpos hle
      exact ⟨⟨components, set⟩, parse_eq_ok_iff.mpr ⟨rfl, hpos, hle, hindices⟩⟩
  · intro s h
    obtain ⟨rfl, -, -, hindices⟩ := parse_eq_ok_iff.mp h
    have hletters : s.text.toList = s.components.map s.letters.letter := by
      rw [text, String.toList_ofList]
    refine ⟨(hlength s).symm, fun c hc => ?_, ?_, rfl, ?_⟩
    · exact (exists_text_eq_iff.mpr ⟨s.components, rfl, hindices⟩ c hc).1
    · rw [hletters, List.map_map]
      exact List.map_congr_left fun c _ => (s.letters.idxOf_letter c).symm
    · rw [hletters, List.nodup_map_iff s.letters.letter_injective, isUnique, decide_eq_true_eq]

/-- A mask that reverses the colors of a pixel reads as it is written. -/
theorem parse_bgra :
    parse "bgra" 4 = .ok ⟨[.z, .y, .x, .w], .color⟩ ∧
      (Swizzle.mk [.z, .y, .x, .w] .color).text = "bgra" :=
  have h : parse "bgra" 4 = .ok ⟨[.z, .y, .x, .w], .color⟩ := by rfl
  ⟨h, ((parse_accepts_grammar "bgra" 4).2 _ h).2.2.2.1⟩

end Swizzle

end WebShader
