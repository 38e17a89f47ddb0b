import WebShader.Proofs.AddedTypes

/-!
# Consistent registries

However types are registered, a registry only grows, every type is found by its key and every struct
by its name, and a generated name is free. A description that is refused leaves behind at most the
types of the descriptions inside of it and their `std140` copies.
-/

namespace WebShader

namespace Interning

/-! ## Generated names -/

/-- The fresh number is the least one, from `n` on, whose generated name no struct has. -/
theorem freshNumber_least (r : Registry) (n : Nat) : n ≤ freshNumber r n ∧
    freshNumber r n ≤ n + r.size ∧
    ∀ k, n ≤ k → k < freshNumber r n → r.structNamed? (generatedName k) ≠ none := by
  obtain ⟨i, hi, hfree⟩ := exists_generatedName_free r n
  unfold freshNumber
  dsimp only
  rw [List.find?_map]
  cases hfind : (List.range (r.size + 1)).find?
      ((fun k => (r.structNamed? (generatedName k)).isNone) ∘ (n + ·)) with
  | none =>
      have hnone := List.find?_eq_none.mp hfind i (List.mem_range.mpr hi)
      rw [Function.comp_apply, hfree] at hnone
      simp at hnone
  | some j =>
      obtain ⟨-, hj, hbelow⟩ := List.find?_range_eq_some.mp hfind
      have hlt := List.mem_range.mp hj
      show n ≤ n + j ∧ n + j ≤ n + r.size ∧ _
      refine ⟨by omega, by omega, fun k hk hkj hnone => ?_⟩
      have htaken := hbelow (k - n) (by
        change k < n + j at hkj
        omega)
      rw [Function.comp_apply, Nat.add_sub_cancel' hk, hnone] at htaken
      simp at htaken

end Interning

namespace Registry

variable {r : Registry}

/-- A type found by a name is the struct of this name. -/
theorem exists_struct_of_structNamed? {name : String} {t : TypeId}
    (h : r.structNamed? name = some t) : ∃ s, r.kind t = .struct s ∧ s.name = name := by
  obtain ⟨i, hi, rfl⟩ := Option.map_eq_some_iff.mp h
  obtain ⟨hlt, hnamed, -⟩ := Array.findIdx?_eq_some_iff_getElem.mp hi
  unfold kind
  rw [Array.getElem?_eq_getElem hlt]
  dsimp only
  unfold isStructNamed at hnamed
  split at hnamed
  · rename_i s hs
    exact ⟨s, hs, beq_iff_eq.mp hnamed⟩
  · cases hnamed

/-- A struct is found by its name. -/
theorem Sound.structNamed?_name (hr : r.Sound) {t : TypeId} {s : StructType}
    (hs : r.kind t = .struct s) : r.structNamed? s.name = some t := by
  cases hfind : r.structNamed? s.name with
  | none => exact absurd rfl (name_ne_of_structNamed?_eq_none hfind hs)
  | some u =>
      obtain ⟨s', hs', hname⟩ := exists_struct_of_structNamed? hfind
      rw [hr.name_inj u t s' s hs' hs hname]

/-- A registered type is found by its key. -/
theorem Sound.withKey?_key (hr : r.Sound) {t : TypeId} (ht : t.index < r.size) :
    r.withKey? (r.key t) = some t := by
  obtain ⟨u, hu⟩ := exists_withKey?_key ht
  obtain ⟨hlt, hkey⟩ := withKey?_eq_some hu
  rw [hu, hr.key_inj u t hlt ht hkey]

end Registry

/-! ## Registrations in any order -/

/-- A registration: of a description, or of a type made of registered ones. -/
inductive Registration where
  | shape (d : TypeShape)
  | void
  | primitive (p : PrimitiveType)
  | scalar (k : ScalarKind)
  | array (element : TypeId) (length : Nat)
  | pointer (pointee : TypeId) (space : AddressSpace)
  | std140 (t : TypeId)
  | struct (name : Option String) (policy : LayoutPolicy) (members : List Member)

namespace Registration

/-- Make a registration. -/
def make : Registration → Interning TypeId
  | shape d => Interning.shape d
  | void => Interning.void
  | primitive p => Interning.primitive p
  | scalar k => Interning.scalar k
  | array element length => Interning.array element length
  | pointer pointee space => Interning.pointer pointee space
  | std140 t => Interning.std140 t
  | struct name policy members => Interning.struct name policy members

/-- Whether a registration may be made on a registry: what it refers to is registered there, and a
primitive type, which is not checked any more, has a valid shape. -/
def IsMadeOn (r : Registry) : Registration → Prop
  | shape _ | void | scalar _ => True
  | primitive p => p.fault = none
  | array t _ | pointer t _ | std140 t => t.index < r.size
  | struct _ _ members => ∀ m ∈ members, m.type.index < r.size

/-- A registration leaves a sound registry that keeps what was registered. -/
theorem sound_make {r : Registry} (hr : r.Sound) (op : Registration) (h : op.IsMadeOn r) :
    (r.run op.make).2.Sound ∧ r ≤ (r.run op.make).2 := by
  have of_ensures : ∀ {act : Interning TypeId} {post : TypeId → Registry → Prop},
      act.Ensures r post → (r.run act).2.Sound ∧ r ≤ (r.run act).2 := fun h => ⟨h.1, h.2.1⟩
  cases op with
  | shape d => exact of_ensures (Interning.ensures_shape hr d)
  | void => exact of_ensures (Interning.ensures_void hr)
  | primitive p => exact of_ensures (Interning.ensures_primitive hr h)
  | scalar k => exact of_ensures (Interning.ensures_primitive hr (by cases k <;> rfl))
  | array element n => exact of_ensures (Interning.ensures_array hr element n)
  | pointer pointee space => exact of_ensures (Interning.ensures_pointer hr pointee space)
  | std140 t => exact of_ensures (Interning.ensures_std140 hr h)
  | struct name policy members => exact of_ensures (Interning.ensures_struct hr name policy h)

end Registration

namespace Registry

open Interning (generatedName structName)

/-- The registries that registrations lead to from the one without types, each refused or not. -/
inductive Collected : Registry → Prop
  | empty : Collected empty
  | add {r : Registry} (op : Registration) :
      op.IsMadeOn r → Collected r → Collected (r.run op.make).2

/-- The invariant holds of every registry that has been collected. -/
theorem Collected.sound {r : Registry} (h : r.Collected) : r.Sound := by
  induction h with
  | empty => exact sound_empty
  | add op hop _ ih => exact (Registration.sound_make ih op hop).1

/-- A registry of which nothing is lost and in which everything is found. What is read back from a
type tells it apart from every other one; it is the canonical shape of a description for the type
registered for the description, and the one under `std140` rules for a copy. -/
structure Consistent (r : Registry) : Prop where
  kept : ∀ op : Registration, op.IsMadeOn r →
    ∀ i < r.size, (r.run op.make).2.entries[i]? = r.entries[i]?
  key_found : ∀ t : TypeId, t.index < r.size → r.withKey? (r.key t) = some t
  found_key : ∀ key t, r.withKey? key = some t → t.index < r.size ∧ r.key t = key
  name_found : ∀ t s, r.kind t = .struct s → r.structNamed? s.name = some t
  found_name : ∀ name t, r.structNamed? name = some t → ∃ s, r.kind t = .struct s ∧ s.name = name
  one_of_name : ∀ t u s s', r.kind t = .struct s → r.kind u = .struct s' → s.name = s'.name → t = u
  generated_free : ∃ n, r.generated ≤ n ∧ n ≤ r.generated + r.size ∧
    r.run (structName none) = (.ok (generatedName n), { r with generated := n + 1 }) ∧
    (∀ t s, r.kind t = .struct s → s.name ≠ generatedName n) ∧
    ∀ k, r.generated ≤ k → k < n → ∃ t s, r.kind t = .struct s ∧ s.name = generatedName k
  told_apart : ∀ t u : TypeId, t.index < r.size → u.index < r.size →
    r.shapeOf t = r.shapeOf u → t = u
  described : ∀ d t r', r.run (Interning.shape d) = (.ok t, r') →
    t.index < r'.size ∧ r'.shapeOf t = d.canonical .packed
  copied : ∀ t u r', t.index < r.size → r.run (Interning.std140 t) = (.ok u, r') →
    u.index < r'.size ∧ r'.shapeOf u = (r.shapeOf t).canonical .std140
  refused : ∀ d e r', r.run (Interning.shape d) = (.error e, r') →
    ∀ t : TypeId, r.size ≤ t.index → t.index < r'.size → ∃ part : TypeShape, part.Inside d ∧
      (r'.shapeOf t = part.canonical .packed ∨ r'.shapeOf t = part.canonical .std140)

/-- Whatever has been registered or refused, the registry is consistent. -/
theorem collected_consistent {r : Registry} (h : r.Collected) : r.Consistent where
  kept op hop _ hi := getElem?_entries_of_le (Registration.sound_make h.sound op hop).2 hi
  key_found _ ht := h.sound.withKey?_key ht
  found_key _ _ hkey := withKey?_eq_some hkey
  name_found _ _ hs := h.sound.structNamed?_name hs
  found_name _ _ hname := exists_struct_of_structNamed? hname
  one_of_name := h.sound.name_inj
  generated_free := by
    -- all names between the counter and the number that is found are taken
    have hfree := Interning.structNamed?_freshNumber r r.generated
    obtain ⟨hge, hle, htaken⟩ := Interning.freshNumber_least r r.generated
    refine ⟨_, hge, hle, rfl, fun t s hs => name_ne_of_structNamed?_eq_none hfree hs, ?_⟩
    intro k hk hlt
    obtain ⟨t, ht⟩ := Option.ne_none_iff_exists'.mp (htaken k hk hlt)
    exact ⟨t, exists_struct_of_structNamed? ht⟩
  told_apart _ _ := h.sound.shapeOf_inj
  described d t r' := (Interning.ensures_shape_reads h.sound d).2.2 t r'
  copied t u r' ht := (Interning.ensures_std140_reads h.sound ht).2.2 u r'
  refused d e r' hrun t ht hlt := by
    have hnew := Interning.addsInside h.sound d
    unfold Interning.AddsInside at hnew
    rw [hrun] at hnew
    rcases hnew t ht hlt with hgiven | hinside
    · cases hgiven
    · exact hinside

/-- A block under `std140` rules with two members of one name: it is refused after the struct that
the first one holds has been copied. -/
def twiceLit : TypeShape :=
  .struct (some "Scene") .std140
    [("lamp", .struct (some "Lamp") .packed [("power", .scalar .f32)]), ("lamp", .scalar .u32)]

/-- The registry that the refused block leaves. -/
def litTypes : Registry := (empty.run (Interning.shape twiceLit)).2

/-- The refused block leaves the types of its members, the one of a member inside, and a copy. -/
theorem litTypes_consistent : litTypes.Collected ∧
    (empty.run (Interning.shape twiceLit)).1.isOk = false ∧ litTypes.size = 4 ∧
    litTypes.Consistent :=
  have hcollected : litTypes.Collected := .add (.shape twiceLit) trivial .empty
  ⟨hcollected, by decide +kernel, by decide +kernel, collected_consistent hcollected⟩

end Registry

end WebShader
