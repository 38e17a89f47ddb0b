import Mathlib.Data.List.Basic
import Mathlib.Order.Defs.PartialOrder
import WebShader.Type.Intern

/-!
# Running registrations

What a registration gives on a registry, one step at a time, and how registries grow: types are
only ever added at the end, so what was known about a type stays true.
-/

namespace WebShader

namespace Registry

/-! ## Runs -/

section Runs

variable {α β : Type} (r : Registry)

/-- Nothing is registered. -/
@[simp]
theorem run_pure (a : α) : r.run (pure a : Interning α) = (.ok a, r) := rfl

/-- An error leaves the registry alone. -/
@[simp]
theorem run_throw (e : ShaderError) : r.run (throw e : Interning α) = (.error e, r) := rfl

/-- The registry is looked at. -/
@[simp]
theorem run_get : r.run (get : Interning Registry) = (.ok r, r) := rfl

/-- The registry is replaced. -/
@[simp]
theorem run_set (r' : Registry) : r.run (set r' : Interning PUnit) = (.ok ⟨⟩, r') := rfl

/-- A check leaves the registry alone. -/
@[simp]
theorem run_liftM (x : Except ShaderError α) : r.run (liftM x : Interning α) = (x, r) := by
  cases x <;> rfl

/-- A sequence goes on from the registry its first part leaves, unless that part is refused. -/
theorem run_bind (act : Interning α) (f : α → Interning β) :
    r.run (act >>= f) = match r.run act with
      | (.ok a, r') => r'.run (f a)
      | (.error e, r') => (.error e, r') := by
  show StateT.run (ExceptT.run (ExceptT.bind act f)) r = _
  simp only [run, ExceptT.bind, ExceptT.run, ExceptT.mk, bind, StateT.bind, StateT.run]
  cases h : act r with
  | mk x r' => cases x <;> rfl

/-- A sequence succeeds exactly when its parts do. -/
theorem run_bind_eq_ok_iff {act : Interning α} {f : α → Interning β} {b : β} {r r'' : Registry} :
    r.run (act >>= f) = (.ok b, r'') ↔
      ∃ a r', r.run act = (.ok a, r') ∧ r'.run (f a) = (.ok b, r'') := by
  rw [run_bind]
  rcases r.run act with ⟨_ | a, r'⟩ <;> simp

/-- A registration that gives something ran to the end. -/
theorem run_of_toOption {act : Interning α} {a : α} {r : Registry}
    (h : (r.run act).1.toOption = some a) : r.run act = (.ok a, (r.run act).2) := by
  cases hrun : (r.run act).1 with
  | error e => rw [hrun] at h; cases h
  | ok b =>
      rw [hrun] at h
      rw [← Option.some.inj h]
      exact Prod.ext hrun rfl

/-- A sequence whose first part succeeds runs like its second part. -/
theorem run_bind_of_ok {act : Interning α} {f : α → Interning β} {a : α} {r r' : Registry}
    (h : r.run act = (.ok a, r')) : r.run (act >>= f) = r'.run (f a) := by
  rw [run_bind, h]

end Runs

/-! ## Growth -/

/-- A registry is below another that has the same types at the same places, and maybe more. -/
instance : Preorder Registry where
  le r r' := r.entries.toList <+: r'.entries.toList
  le_refl r := List.prefix_refl _
  le_trans _ _ _ h h' := List.IsPrefix.trans h h'

section Growth

variable {r r' : Registry} {t : TypeId}

/-- A registry grows at its end. -/
theorem le_iff : r ≤ r' ↔ r.entries.toList <+: r'.entries.toList := Iff.rfl

/-- A larger registry has at least as many types. -/
theorem size_le_of_le (h : r ≤ r') : r.size ≤ r'.size := by
  have hlen := List.IsPrefix.length_le h
  simpa [size] using hlen

/-- The entries of the smaller registry are those of the larger one. -/
theorem getElem?_entries_of_le (h : r ≤ r') {i : Nat} (hi : i < r.size) :
    r'.entries[i]? = r.entries[i]? := by
  obtain ⟨rest, hrest⟩ := le_iff.mp h
  rw [← Array.getElem?_toList, ← hrest, List.getElem?_append_left (by simpa [size] using hi),
    Array.getElem?_toList]

/-- A registered type keeps its kind. -/
theorem kind_eq_of_le (h : r ≤ r') (ht : t.index < r.size) : r'.kind t = r.kind t := by
  unfold kind
  rw [getElem?_entries_of_le h ht]

/-- A type with a kind keeps it. -/
theorem kind_of_le (h : r ≤ r') {k : TypeKind} (hk : r.kind t = k) (hvoid : k ≠ .void) :
    r'.kind t = k := by
  rw [kind_eq_of_le h, hk]
  apply Nat.lt_of_not_le
  intro hle
  exact hvoid (hk.symm.trans (kind_eq_void_of_le hle))

/-- A registered type keeps its key. -/
theorem key_eq_of_le (h : r ≤ r') (ht : t.index < r.size) : r'.key t = r.key t := by
  unfold key
  rw [getElem?_entries_of_le h ht]

/-- Two registries have the same types at the places below a number. -/
def AgreesBelow (n : Nat) (r r' : Registry) : Prop :=
  ∀ t : TypeId, t.index < n → r'.kind t = r.kind t

/-- Registries agree in either order. -/
theorem AgreesBelow.symm {n : Nat} (h : AgreesBelow n r r') : AgreesBelow n r' r :=
  fun t ht => (h t ht).symm

/-- A registry agrees with every larger one. -/
theorem agreesBelow_of_le (h : r ≤ r') : AgreesBelow r.size r r' := fun _ ht => kind_eq_of_le h ht

/-- Registering a type gives a larger registry. -/
theorem le_push (r : Registry) (key : String) (kind : TypeKind) : r ≤ r.push key kind := by
  rw [le_iff, push, Array.toList_push]
  exact List.prefix_append _ _

/-- One more type is registered. -/
@[simp]
theorem size_push (r : Registry) (key : String) (kind : TypeKind) :
    (r.push key kind).size = r.size + 1 := by
  simp [push, size]

/-- The type that is registered last has the key it is registered with. -/
theorem key_push_size (r : Registry) (key : String) (kind : TypeKind) :
    (r.push key kind).key ⟨r.size⟩ = key := by
  simp [push, Registry.key, size]

/-- A type of a registry with one more is either the new one or an old one. -/
theorem lt_or_eq_of_lt_size_push {key : String} {kind : TypeKind}
    (ht : t.index < (r.push key kind).size) : t.index < r.size ∨ t = ⟨r.size⟩ := by
  rw [size_push] at ht
  rcases Nat.lt_or_eq_of_le (Nat.le_of_lt_succ ht) with hlt | heq
  · exact Or.inl hlt
  · exact Or.inr (by rw [← heq])

/-- What a type of a registry with one more is made of is new or was registered before. -/
theorem kind_of_push {key : String} {kind k : TypeKind} (h : (r.push key kind).kind t = k)
    (hvoid : k ≠ .void) : r.kind t = k ∨ kind = k := by
  have ht : t.index < (r.push key kind).size := by
    by_contra hle
    exact hvoid (h.symm.trans (kind_eq_void_of_le (Nat.le_of_not_lt hle)))
  rcases lt_or_eq_of_lt_size_push ht with hlt | rfl
  · exact Or.inl ((kind_push_of_lt hlt).symm.trans h)
  · exact Or.inr ((kind_push_size r key kind).symm.trans h)

/-- A type found by a key is registered and has this key. -/
theorem withKey?_eq_some {key : String} (ht : r.withKey? key = some t) :
    t.index < r.size ∧ r.key t = key := by
  obtain ⟨i, hi, rfl⟩ := Option.map_eq_some_iff.mp ht
  obtain ⟨hlt, hkey, -⟩ := Array.findIdx?_eq_some_iff_getElem.mp hi
  refine ⟨hlt, ?_⟩
  unfold Registry.key
  rw [Array.getElem?_eq_getElem hlt]
  exact beq_iff_eq.mp hkey

/-- A key under which nothing is found is the key of no registered type. -/
theorem key_ne_of_withKey?_eq_none {key : String} (h : r.withKey? key = none)
    (ht : t.index < r.size) : r.key t ≠ key := by
  intro heq
  have hnone := Array.findIdx?_eq_none_iff.mp (Option.map_eq_none_iff.mp h)
  have hmem := hnone r.entries[t.index] (Array.getElem_mem ht)
  unfold Registry.key at heq
  rw [Array.getElem?_eq_getElem ht] at heq
  simp [heq] at hmem

/-- A registered type is found by its key, or one that was registered before it is. -/
theorem exists_withKey?_key (ht : t.index < r.size) : ∃ u, r.withKey? (r.key t) = some u := by
  cases h : r.withKey? (r.key t) with
  | some u => exact ⟨u, rfl⟩
  | none => exact absurd rfl (key_ne_of_withKey?_eq_none h ht)

/-- A name that no struct has is the name of no registered struct. -/
theorem name_ne_of_structNamed?_eq_none {name : String} (h : r.structNamed? name = none)
    {s : StructType} (hs : r.kind t = .struct s) : s.name ≠ name := by
  intro heq
  have ht : t.index < r.size := lt_size_of_isStorable (by rw [hs]; rfl)
  have hnone := Array.findIdx?_eq_none_iff.mp (Option.map_eq_none_iff.mp h)
  have hmem := hnone r.entries[t.index] (Array.getElem_mem ht)
  unfold kind at hs
  rw [Array.getElem?_eq_getElem ht] at hs
  simp only [isStructNamed, hs, heq] at hmem
  simp at hmem

end Growth

/-! ## Traversals -/

section Traversals

variable {r r' : Registry} {n : Nat}

/-- The parts of a type are registered. -/
theorem WellFormed.part_lt_size (hr : r.WellFormed) {t part : TypeId}
    (h : part ∈ (r.kind t).parts) : part.index < r.size := by
  have hpart := hr t part h
  by_contra hle
  rw [kind_eq_void_of_le (by omega)] at h
  simp [TypeKind.parts] at h

/-- Registries that agree on the types of a well-formed one agree on the tails of types. -/
theorem AgreesBelow.isRuntimeSized_eq (h : AgreesBelow n r r') (hr : r.WellFormed) {t : TypeId}
    (ht : t.index < n) : r'.isRuntimeSized t = r.isRuntimeSized t := by
  rw [isRuntimeSized, isRuntimeSized, h t ht]
  cases hk : r.kind t with
  | struct s =>
      dsimp only
      cases hl : s.members.getLast? with
      | none => rfl
      | some m =>
          have hm : m.type ∈ (r.kind t).parts := by
            rw [hk]
            exact List.mem_map_of_mem (List.mem_of_getLast? hl)
          have hlt := hr t m.type hm
          simp only [hlt, if_true]
          exact AgreesBelow.isRuntimeSized_eq h hr (Nat.lt_trans hlt ht)
  | void | primitive | array | pointer | texture | sampler => rfl
termination_by t.index

/-- A primitive type is told by its kind. -/
theorem primitive?_eq_some_iff {r : Registry} {t : TypeId} {p : PrimitiveType} :
    r.primitive? t = some p ↔ r.kind t = .primitive p := by
  unfold primitive?
  cases r.kind t <;> simp

/-- A primitive type stays one. -/
theorem primitive?_of_le (h : r ≤ r') {t : TypeId} {p : PrimitiveType}
    (hp : r.primitive? t = some p) : r'.primitive? t = some p := by
  rw [primitive?_eq_some_iff] at hp ⊢
  exact kind_of_le h hp (by simp)

/-- A struct is told by its kind. -/
theorem struct?_eq_some_iff {r : Registry} {t : TypeId} {s : StructType} :
    r.struct? t = some s ↔ r.kind t = .struct s := by
  unfold struct?
  cases r.kind t <;> simp

/-- An array is runtime-sized when it has no length. -/
theorem isRuntimeSized_array {r : Registry} {t inner : TypeId} {n : Nat}
    (hk : r.kind t = .array inner n) : r.isRuntimeSized t = (n == 0) := by
  rw [isRuntimeSized, hk]

/-- The extent of an array follows from the one of its elements. -/
theorem WellFormed.extent_array (hr : r.WellFormed) {t element : TypeId} {n : Nat}
    (hk : r.kind t = .array element n) (policy : LayoutPolicy) :
    r.extent t policy = (r.extent element policy).bind fun extent =>
      match elementExtent policy extent with
      | some stride =>
        match Layout.checked (stride.size * n) with
        | some size => .ok ⟨size, stride.alignment⟩
        | none => .error (tooLarge (quoted (r.display t)))
      | none => .error (tooLarge (quoted (r.display t))) := by
  have hlt : element.index < t.index := hr t element (by rw [hk]; simp [TypeKind.parts])
  rw [extent, hk]
  simp only [hlt, if_true]
  cases r.extent element policy <;> rfl

/-- The extent of a primitive type. -/
theorem extent_primitive {t : TypeId} {p : PrimitiveType} (hk : r.kind t = .primitive p)
    (policy : LayoutPolicy) : r.extent t policy = .ok (p.extent policy) := by
  rw [extent, hk]

/-- The extent of a struct is that of its layout. -/
theorem extent_struct {t : TypeId} {s : StructType} (hk : r.kind t = .struct s)
    (policy : LayoutPolicy) :
    r.extent t policy = .ok ⟨s.layout.size, s.layout.alignment⟩ := by
  rw [extent, hk]

/-- The extent of an array that has one: the elements follow each other at the stride. -/
theorem WellFormed.extent_array_eq_ok_iff (hr : r.WellFormed) {t element : TypeId} {n : Nat}
    (hk : r.kind t = .array element n) {policy : LayoutPolicy} {extent : Extent} :
    r.extent t policy = .ok extent ↔ ∃ inner stride size, r.extent element policy = .ok inner ∧
      elementExtent policy inner = some stride ∧ Layout.checked (stride.size * n) = some size ∧
      extent = ⟨size, stride.alignment⟩ := by
  rw [hr.extent_array hk]
  constructor
  · intro h
    cases hin : r.extent element policy with
    | error e => simp [hin, Except.bind] at h
    | ok inner =>
        simp only [hin, Except.bind] at h
        cases hst : elementExtent policy inner with
        | none => simp [hst] at h
        | some stride =>
            cases hc : Layout.checked (stride.size * n) with
            | none => simp [hst, hc] at h
            | some size =>
                simp only [hst, hc, Except.ok.injEq] at h
                exact ⟨inner, stride, size, rfl, hst, hc, h.symm⟩
  · rintro ⟨inner, stride, size, hin, hst, hc, rfl⟩
    simp [hin, hst, hc, Except.bind]

/-- An extent is the same in registries that agree. -/
theorem AgreesBelow.extent_eq_ok (h : AgreesBelow n r r') (hr : r.WellFormed) (hr' : r'.WellFormed)
    {t : TypeId} (ht : t.index < n) {policy : LayoutPolicy} {extent : Extent}
    (he : r.extent t policy = .ok extent) : r'.extent t policy = .ok extent := by
  have hkind := h t ht
  cases hk : r.kind t with
  | array element length =>
      have hpart : element ∈ (r.kind t).parts := by rw [hk]; simp [TypeKind.parts]
      obtain ⟨inner, stride, size, hin, hst, hc, rfl⟩ := (hr.extent_array_eq_ok_iff hk).mp he
      have hdown := hr t element hpart
      have hin' := AgreesBelow.extent_eq_ok h hr hr' (Nat.lt_trans hdown ht) hin
      exact (hr'.extent_array_eq_ok_iff (hkind.trans hk)).mpr
        ⟨inner, stride, size, hin', hst, hc, rfl⟩
  | void | primitive | struct | pointer | texture | sampler =>
      rw [Registry.extent, hk] at he
      rw [Registry.extent, hkind, hk]
      exact he
termination_by t.index

/-- The places of members are the same in registries that agree. -/
theorem AgreesBelow.layoutMembers_eq_ok (h : AgreesBelow n r r') (hr : r.WellFormed)
    (hr' : r'.WellFormed) {policy : LayoutPolicy} {members : List Member}
    (hm : ∀ m ∈ members, m.type.index < n) {offset alignment : Nat}
    {layout : List Nat × Nat × Nat}
    (hl : r.layoutMembers policy members offset alignment = .ok layout) :
    r'.layoutMembers policy members offset alignment = .ok layout := by
  induction members generalizing offset alignment layout with
  | nil => exact hl
  | cons m rest ih =>
      simp only [layoutMembers, bind, Except.bind] at hl ⊢
      cases he : r.extent m.type policy with
      | error e => simp [he] at hl
      | ok extent =>
          rw [h.extent_eq_ok hr hr' (hm m List.mem_cons_self) he]
          simp only [he] at hl ⊢
          cases hstart : Layout.roundUp? offset extent.alignment with
          | none => simp [hstart] at hl
          | some start =>
              simp only [hstart] at hl ⊢
              cases hnext : Layout.checked (start + extent.size) with
              | none => simp [hnext] at hl
              | some next =>
                  simp only [hnext] at hl ⊢
                  cases hrest : r.layoutMembers policy rest next
                    (max alignment extent.alignment) with
                  | error e => simp [hrest] at hl
                  | ok tail =>
                      rw [ih (fun m' hm' => hm m' (List.mem_cons_of_mem _ hm')) hrest]
                      simpa [hrest] using hl

/-- A layout is the same in registries that agree. -/
theorem AgreesBelow.structLayout_eq_ok (h : AgreesBelow n r r') (hr : r.WellFormed)
    (hr' : r'.WellFormed) {policy : LayoutPolicy} {members : List Member}
    (hm : ∀ m ∈ members, m.type.index < n) {layout : StructLayout}
    (hl : r.structLayout members policy = .ok layout) :
    r'.structLayout members policy = .ok layout := by
  unfold structLayout at hl ⊢
  simp only [bind, Except.bind] at hl ⊢
  cases hmem : r.layoutMembers policy members 0 1 with
  | error e => simp [hmem] at hl
  | ok found =>
      rw [h.layoutMembers_eq_ok hr hr' hm hmem]
      simpa [hmem] using hl

end Traversals

end Registry

/-! ## Checked members -/

namespace Registry

open Interning (checkMembers)

variable {r : Registry}

/-- The checks of a member and of those after it. -/
theorem checkMembers_cons_eq_ok_iff {before : List String} {m : Member} {rest : List Member} :
    checkMembers r before (m :: rest) = .ok () ↔
      isIdentifier m.name = true ∧ m.name ∉ before ∧ (r.kind m.type).isStorable = true ∧
        (r.isRuntimeSized m.type = true → rest = []) ∧
        checkMembers r (m.name :: before) rest = .ok () := by
  rw [← checkIdentifier_eq_ok_iff]
  simp only [checkMembers, bind, Except.bind]
  cases checkIdentifier m.name with
  | error e => simp
  | ok u =>
      by_cases hfresh : m.name ∈ before
      · simp [hfresh]
      cases hstorable : (r.kind m.type).isStorable
      · simp [hfresh]
      cases hsized : r.isRuntimeSized m.type <;> cases rest <;> simp [hfresh]

/-- What the checks of a list of members say of each of them. -/
theorem of_checkMembers {before : List String} {members : List Member}
    (h : checkMembers r before members = .ok ()) :
    (∀ m ∈ members, isIdentifier m.name = true ∧ m.name ∉ before ∧
      (r.kind m.type).isStorable = true) ∧ (members.map (·.name)).Nodup := by
  induction members generalizing before with
  | nil => simp
  | cons m rest ih =>
      obtain ⟨hid, hfresh, hstorable, -, hchecked⟩ := checkMembers_cons_eq_ok_iff.mp h
      obtain ⟨hrest, hnodup⟩ := ih hchecked
      refine ⟨fun m' hm' => ?_, ?_⟩
      · rcases List.mem_cons.mp hm' with rfl | hm'
        · exact ⟨hid, hfresh, hstorable⟩
        · obtain ⟨hid', hnot, hst⟩ := hrest m' hm'
          exact ⟨hid', fun hin => hnot (List.mem_cons_of_mem _ hin), hst⟩
      · rw [List.map_cons, List.nodup_cons]
        refine ⟨fun hin => ?_, hnodup⟩
        obtain ⟨m', hm', heq⟩ := List.mem_map.mp hin
        exact (hrest m' hm').2.1 (heq ▸ List.mem_cons_self)

end Registry

/-! ## Names of structs -/

/-- The name of a struct and the names of its members are identifiers. -/
def StructType.IsNamed (s : StructType) : Prop :=
  isIdentifier s.name = true ∧ ∀ m ∈ s.members, isIdentifier m.name = true

/-- A generated name is an identifier. -/
theorem isIdentifier_generatedName (n : Nat) : isIdentifier (Interning.generatedName n) = true := by
  have hdigits : ∀ c ∈ Nat.toDigits 10 n, isNameRest c = true := by
    intro c hc
    have hdigit := Nat.isDigit_of_mem_toDigits (by decide) (by decide) hc
    simp [isNameRest, Char.isAlphanum, hdigit]
  have hlist : (Interning.generatedName n).toList =
      'S' :: ['t', 'r', 'u', 'c', 't'] ++ Nat.toDigits 10 n := by
    rw [Interning.generatedName, String.toList_append,
      show (toString n).toList = Nat.toDigits 10 n from Nat.toList_repr]
    rfl
  rw [isIdentifier, hlist]
  simp only [List.cons_append, List.nil_append, List.all_cons, List.all_eq_true.mpr hdigits]
  rfl

namespace Registry

/-- Every struct has an identifier for its name, as have its members. -/
def NamesStructs (r : Registry) : Prop := ∀ t s, r.kind t = .struct s → s.IsNamed

/-- Without types there are no names to check. -/
theorem namesStructs_empty : empty.NamesStructs := by
  intro t s hs
  rw [kind_eq_void_of_le (Nat.zero_le _)] at hs
  cases hs

/-- A named struct can be registered. -/
theorem NamesStructs.push {r : Registry} (hr : r.NamesStructs) (key : String) {kind : TypeKind}
    (hkind : ∀ s, kind = .struct s → s.IsNamed) :
    (r.push key kind).NamesStructs := by
  intro t s hs
  rcases kind_of_push hs (by simp) with hold | hnew
  · exact hr t s hold
  · exact hkind s hnew

/-- A registry with at least the types of another, whose structs are still named by identifiers. -/
structure Grows (r r' : Registry) : Prop where
  le : r ≤ r'
  names : r.NamesStructs → r'.NamesStructs

/-- A preorder of registries that holds when a name is generated and when a type is registered that
is not primitive, under names that are identifiers if it is a struct. -/
class IsGrowth (R : Registry → Registry → Prop) : Prop extends IsPreorder Registry R where
  push : ∀ (r : Registry) (key : String) {kind : TypeKind}, (∀ p, kind ≠ .primitive p) →
    (∀ s, kind = .struct s → s.IsNamed) → R r (r.push key kind)
  generated : ∀ (r : Registry) (n : Nat), R r { r with generated := n }

instance : IsGrowth Grows where
  refl r := ⟨le_refl r, id⟩
  trans _ _ _ h h' := ⟨le_trans h.le h'.le, fun hr => h'.names (h.names hr)⟩
  push r key _ _ hstruct := ⟨r.le_push key _, fun hr => hr.push key hstruct⟩
  generated r _ := ⟨le_refl r, id⟩

end Registry

/-! ## Relations along registrations -/

namespace Interning

/-- The registry that a registration leaves, refused or not, is related to the one it has started
from. -/
def Follows {α : Type} (R : Registry → Registry → Prop) (act : Interning α) : Prop :=
  ∀ r : Registry, R r (r.run act).2

variable {R : Registry → Registry → Prop}

namespace Follows

variable {α β : Type} [IsPreorder Registry R]

/-- A reflexive relation holds along nothing. -/
@[grind ←]
protected theorem pure (a : α) : Follows R (pure a : Interning α) := refl_of R

/-- A reflexive relation holds along an error. -/
@[grind ←]
theorem throw (e : ShaderError) : Follows R (throw e : Interning α) := refl_of R

/-- A reflexive relation holds along looking at the registry. -/
@[grind ←]
theorem get : Follows R (get : Interning Registry) := refl_of R

/-- A reflexive relation holds along a check. -/
@[grind ←]
theorem liftM (x : Except ShaderError α) : Follows R (liftM x : Interning α) := by
  intro r
  rw [Registry.run_liftM]
  exact refl_of R r

/-- What follows a registration may rely on what it has given. -/
theorem bind_of_run {act : Interning α} {f : α → Interning β} (h : Follows R act)
    (hf : ∀ (r : Registry) a r', r.run act = (.ok a, r') → Follows R (f a)) :
    Follows R (act >>= f) := by
  intro r
  have hact := h r
  rw [Registry.run_bind]
  rcases hrun : r.run act with ⟨_ | a, r'⟩
  · rw [hrun] at hact
    exact hact
  · rw [hrun] at hact
    exact trans_of R hact (hf r a r' hrun r')

/-- A transitive relation holds along one registration after the other. -/
@[grind ←]
theorem bind {act : Interning α} {f : α → Interning β} (h : Follows R act)
    (hf : ∀ a, Follows R (f a)) : Follows R (act >>= f) := bind_of_run h fun _ a _ _ => hf a

/-- What follows the check of a name may rely on the name being an identifier. -/
theorem check_bind {name : String} {f : Unit → Interning β}
    (hf : isIdentifier name = true → ∀ a, Follows R (f a)) :
    Follows R ((checkIdentifier name : Interning Unit) >>= f) := by
  refine bind_of_run (.liftM _) fun r a r' hrun => hf (checkIdentifier_eq_ok_iff.mp ?_) a
  rw [Registry.run_liftM] at hrun
  exact (Prod.mk.inj hrun).1

/-- A transitive relation holds along a list of registrations. -/
@[grind ←]
theorem mapM {f : α → Interning β} {as : List α} (hf : ∀ a ∈ as, Follows R (f a)) :
    Follows R (as.mapM f) := by
  induction as with
  | nil => exact .pure []
  | cons a rest ih =>
      rw [List.mapM_cons]
      obtain ⟨ha, hrest⟩ := List.forall_mem_cons.mp hf
      exact .bind ha fun b => .bind (ih hrest) fun bs => .pure _

end Follows

theorem follows_insert [IsPreorder Registry R] {key : String} {kind : TypeKind}
    (h : ∀ r : Registry, R r (r.push key kind)) : Follows R (insert key kind) := by
  intro r
  unfold insert
  rw [Registry.run_bind, Registry.run_get]
  dsimp only
  cases r.withKey? key with
  | some t => exact refl_of R r
  | none => exact h r

variable [Registry.IsGrowth R]

/-- A type that is neither primitive nor a struct is registered. -/
theorem follows_insert_other (key : String) {kind : TypeKind}
    (hprimitive : ∀ p, kind ≠ .primitive p) (hstruct : ∀ s, kind ≠ .struct s) :
    Follows R (insert key kind) :=
  follows_insert fun r =>
    Registry.IsGrowth.push r key hprimitive fun s hs => absurd hs (hstruct s)

@[grind ←]
theorem follows_void : Follows R void := follows_insert_other _ (by simp) (by simp)

@[grind ←]
theorem follows_array (element : TypeId) (n : Nat) : Follows R (array element n) := by
  have hinsert : ∀ key, Follows R (insert key (.array element n)) :=
    fun key => follows_insert_other key (by simp) (by simp)
  unfold array
  grind

@[grind ←]
theorem follows_pointer (pointee : TypeId) (space : AddressSpace) :
    Follows R (pointer pointee space) := by
  have hinsert : ∀ key, Follows R (insert key (.pointer pointee space)) :=
    fun key => follows_insert_other key (by simp) (by simp)
  unfold pointer
  grind

@[grind ←]
theorem follows_structName (name : Option String) : Follows R (structName name) := by
  cases name with
  | some name =>
      unfold structName
      grind
  | none => exact fun r => Registry.IsGrowth.generated r _

/-- The name of a new struct is the given one, or a generated one. -/
theorem isIdentifier_of_run_structName {name : Option String} {r r' : Registry} {given : String}
    (hname : ∀ n, name = some n → isIdentifier n = true)
    (h : r.run (structName name) = (.ok given, r')) : isIdentifier given = true := by
  cases name with
  | some n =>
      obtain ⟨_, _, -, h⟩ := Registry.run_bind_eq_ok_iff.mp h
      split at h
      · cases (Prod.mk.inj h).1
      · rw [← Except.ok.inj (Prod.mk.inj h).1]
        exact hname n rfl
  | none =>
      rw [← Except.ok.inj (Prod.mk.inj h).1]
      exact isIdentifier_generatedName _

theorem follows_structOf {name : Option String} (hname : ∀ n, name = some n → isIdentifier n = true)
    (policy : LayoutPolicy) (members : List Member) : Follows R (structOf name policy members) := by
  refine .bind .get fun r => .bind_of_run (.liftM _) fun r₁ _ r₂ hchecked => ?_
  rw [Registry.run_liftM] at hchecked
  obtain ⟨hmembers, -⟩ := Registry.of_checkMembers (Prod.mk.inj hchecked).1
  dsimp only
  split
  · exact .pure _
  · refine .bind_of_run (follows_structName _) fun r₃ given r₄ hgiven => ?_
    have hgiven := isIdentifier_of_run_structName hname hgiven
    refine .bind (.liftM _) fun layout => follows_insert fun r => ?_
    refine Registry.IsGrowth.push r _ (by simp) fun s hs => ?_
    rw [← TypeKind.struct.inj hs]
    exact ⟨hgiven, fun m hm => (hmembers m hm).1⟩

@[grind ←]
theorem follows_std140 (t : TypeId) : Follows R (std140 t) := by
  rw [std140]
  refine .bind .get fun r => ?_
  cases hkind : r.kind t with
  | array element n =>
      by_cases hlt : element.index < t.index
      · simp only [hlt, if_true]
        exact .bind (follows_std140 element) fun _ => follows_array _ _
      · simp only [hlt, if_false]
        exact .pure t
  | struct s =>
      by_cases hpolicy : s.policy = .packed
      · simp only [hpolicy, if_true]
        refine .check_bind fun hname _ => .bind (.mapM fun m _ => ?_) fun _ =>
          follows_structOf (fun n hn => Option.some.inj hn ▸ hname) _ _
        by_cases hlt : m.type.index < t.index
        · simp only [hlt, if_true]
          exact .bind (follows_std140 m.type) fun _ => .pure _
        · simp only [hlt, if_false]
          exact .pure m
      · simp only [hpolicy, if_false]
        exact .pure t
  | void | primitive | pointer | texture | sampler => exact .pure t
termination_by t.index

@[grind ←]
theorem follows_struct (name : Option String) (policy : LayoutPolicy) (members : List Member) :
    Follows R (struct name policy members) := by
  cases name with
  | none =>
      have hstruct : ∀ members, Follows R (structOf none policy members) :=
        follows_structOf (by simp) policy
      unfold struct
      grind
  | some name =>
      refine .check_bind fun hname _ => ?_
      have hstruct : ∀ members, Follows R (structOf (some name) policy members) :=
        follows_structOf (fun n hn => Option.some.inj hn ▸ hname) policy
      grind

/-! ## Registrations add types -/

/-- A primitive type is registered at the end. -/
theorem grows_primitive (p : PrimitiveType) : Follows Registry.Grows (primitive p) :=
  follows_insert fun r => ⟨r.le_push _ _, fun hr => hr.push _ (by simp)⟩

mutual

/-- A described type is registered at the end, after its parts. -/
theorem grows_shape : ∀ shape : TypeShape, Follows Registry.Grows (Interning.shape shape)
  | .void => follows_void
  | .primitive p => by
      rw [shape]
      cases p.fault with
      | some fault => exact .throw _
      | none => exact grows_primitive p
  | .array element n => by
      rw [shape]
      exact .bind (grows_shape element) fun _ => follows_array _ _
  | .struct name policy members => by
      rw [shape]
      exact .bind (grows_memberShapes members) fun _ => follows_struct _ _ _
  | .pointer pointee space => by
      rw [shape]
      exact .bind (grows_shape pointee) fun _ => follows_pointer _ _
  | .texture t => by
      rw [shape]
      cases t.fault with
      | some fault => exact .throw _
      | none => exact follows_insert_other _ (by simp) (by simp)
  | .sampler kind => follows_insert_other _ (by simp) (by simp)

/-- The types of members are registered at the end, one after the other. -/
theorem grows_memberShapes :
    ∀ members : List (String × TypeShape), Follows Registry.Grows (memberShapes members)
  | [] => .pure []
  | (name, type) :: rest => by
      rw [memberShapes]
      exact .bind (grows_shape type) fun _ => .bind (grows_memberShapes rest) fun _ => .pure _

end

end Interning

end WebShader
