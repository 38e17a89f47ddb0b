import Mathlib.Logic.Relation
import WebShader.Proofs.TypeKey

/-!
# Sound registries

What holds of the registry whatever has been registered, and refused, so far: every type was
checked when it came in, and two types differ by their keys and, for structs, by their names.
-/

namespace WebShader

open Interning

namespace Registry

/-! ## Contained types -/

/-- The second type is the first one or a part of it, at any depth. -/
def Contains (r : Registry) : TypeId → TypeId → Prop :=
  Relation.ReflTransGen fun t part => part ∈ (r.kind t).parts

/-- Every struct that the type contains follows `std140` rules. -/
def IsStd140 (r : Registry) (t : TypeId) : Prop :=
  ∀ u s, r.Contains t u → r.kind u = .struct s → s.policy = .std140

section Contains

variable {r r' : Registry} {t u : TypeId}

/-- What a type for uniforms contains is for uniforms. -/
theorem IsStd140.of_contains (h : r.IsStd140 t) (hu : r.Contains t u) : r.IsStd140 u :=
  fun _ s hv hs => h _ s (Relation.ReflTransGen.trans hu hv) hs

/-- The parts of a type for uniforms are for uniforms. -/
theorem IsStd140.part (h : r.IsStd140 t) (hu : u ∈ (r.kind t).parts) : r.IsStd140 u :=
  h.of_contains (Relation.ReflTransGen.single hu)

/-- A type is made of structs under `std140` rules when its parts are, and itself if it is one. -/
theorem isStd140_of_parts (hparts : ∀ u ∈ (r.kind t).parts, r.IsStd140 u)
    (hself : ∀ s, r.kind t = .struct s → s.policy = .std140) : r.IsStd140 t := by
  intro u s hu hs
  rcases Relation.ReflTransGen.cases_head hu with rfl | ⟨part, hpart, hrest⟩
  · exact hself s hs
  · exact hparts part hpart u s hrest hs

/-- What a type contains comes before it, or is the type itself. -/
theorem WellFormed.contains_index_le (hr : r.WellFormed) (h : r.Contains t u) :
    u.index ≤ t.index := by
  induction h with
  | refl => exact Nat.le_refl t.index
  | tail _ hpart ih =>
      have hdown := hr _ _ hpart
      omega

/-- No part of a type contains the type. -/
theorem WellFormed.ne_of_contains_part (hr : r.WellFormed) {part : TypeId}
    (hpart : part ∈ (r.kind t).parts) (h : r.Contains part u) : u ≠ t := by
  intro heq
  have hle := hr.contains_index_le h
  have hlt := hr t part hpart
  rw [heq] at hle
  omega

/-- A type contains the same types in registries that agree. -/
theorem AgreesBelow.contains {n : Nat} (h : AgreesBelow n r r') (hr : r.WellFormed)
    (ht : t.index < n) (hu : r'.Contains t u) : r.Contains t u := by
  induction hu with
  | refl => exact Relation.ReflTransGen.refl
  | tail _ hpart ih =>
      rw [h _ (Nat.lt_of_le_of_lt (hr.contains_index_le ih) ht)] at hpart
      exact Relation.ReflTransGen.tail ih hpart

/-- Registries that agree have the same types for uniforms. -/
theorem AgreesBelow.isStd140 {n : Nat} (h : AgreesBelow n r r') (hr : r.WellFormed)
    (ht : t.index < n) (hstd : r.IsStd140 t) : r'.IsStd140 t := by
  intro u s hu hs
  have hu := h.contains hr ht hu
  rw [h u (Nat.lt_of_le_of_lt (hr.contains_index_le hu) ht)] at hs
  exact hstd u s hu hs

/-- A type for uniforms stays one. -/
theorem WellFormed.isStd140_of_le (hr : r.WellFormed) (hle : r ≤ r') (ht : t.index < r.size)
    (h : r.IsStd140 t) : r'.IsStd140 t := (agreesBelow_of_le hle).isStd140 hr ht h

end Contains

/-! ## Checked types -/

/-- A type made of registered parts that pass all the checks made when it is registered. -/
def Valid (r : Registry) : TypeKind → Prop
  | .primitive p => p.fault = none
  | .array element n =>
    (r.kind element).isStorable = true ∧ r.isRuntimeSized element = false ∧
      ∃ extent stride size, r.extent element .packed = .ok extent ∧
        Layout.roundUp? extent.size extent.alignment = some stride ∧
        Layout.checked (stride * n) = some size
  | .struct s =>
    s.members ≠ [] ∧ checkMembers r [] s.members = .ok () ∧
      r.structLayout s.members s.policy = .ok s.layout ∧
      (s.policy = .std140 → ∀ m ∈ s.members, r.IsStd140 m.type)
  | .pointer pointee _ => (r.kind pointee).isStorable = true
  | .texture t => t.fault = none
  | .void | .sampler _ => True

section Valid

variable {r r' : Registry}

/-- The checks of a list of members pass in registries that agree. -/
theorem AgreesBelow.checkMembers_eq_ok {n : Nat} (h : AgreesBelow n r r') (hr : r.WellFormed)
    {before : List String} {members : List Member} (hm : ∀ m ∈ members, m.type.index < n)
    (hchecked : checkMembers r before members = .ok ()) :
    checkMembers r' before members = .ok () := by
  induction members generalizing before with
  | nil => rfl
  | cons m rest ih =>
      rw [List.forall_mem_cons] at hm
      rw [checkMembers_cons_eq_ok_iff] at hchecked ⊢
      obtain ⟨hid, hfresh, hstorable, hlast, hchecked⟩ := hchecked
      rw [h m.type hm.1, h.isRuntimeSized_eq hr hm.1]
      exact ⟨hid, hfresh, hstorable, hlast, ih hm.2 hchecked⟩

/-- The parts of a checked type that can be held are registered. -/
theorem Valid.parts_lt_size {k : TypeKind} (h : r.Valid k) :
    ∀ part ∈ k.parts, part.index < r.size := by
  intro part hpart
  cases k with
  | void | primitive | texture | sampler => simp [TypeKind.parts] at hpart
  | array element n =>
      rw [List.mem_singleton.mp hpart]
      exact lt_size_of_isStorable h.1
  | pointer pointee space =>
      rw [List.mem_singleton.mp hpart]
      exact lt_size_of_isStorable h
  | struct s =>
      obtain ⟨m, hm, rfl⟩ := List.mem_map.mp hpart
      exact lt_size_of_isStorable ((of_checkMembers h.2.1).1 m hm).2.2

/-- The key of a checked type can be read back. -/
theorem Valid.spelled {k : TypeKind} (h : r.Valid k) : k.Spelled := by
  cases k with
  | primitive p => exact h
  | struct s => exact fun m hm => ((of_checkMembers h.2.1).1 m hm).1
  | void | array | pointer | texture | sampler => trivial

/-- A type passes its checks in registries that agree on its parts. -/
theorem AgreesBelow.valid {n : Nat} (h : AgreesBelow n r r') (hr : r.WellFormed)
    (hr' : r'.WellFormed) {k : TypeKind} (hlt : ∀ part ∈ k.parts, part.index < n)
    (hk : r.Valid k) : r'.Valid k := by
  cases k with
  | void | primitive | texture | sampler => exact hk
  | pointer pointee space =>
      show (r'.kind pointee).isStorable = true
      rw [h pointee (hlt pointee List.mem_cons_self)]
      exact hk
  | array element length =>
      obtain ⟨hstorable, hsized, extent, stride, size, hextent, hfits⟩ := hk
      have hlt := hlt element List.mem_cons_self
      refine ⟨?_, ?_, extent, stride, size, h.extent_eq_ok hr hr' hlt hextent, hfits⟩
      · rw [h element hlt]
        exact hstorable
      · rw [h.isRuntimeSized_eq hr hlt]
        exact hsized
  | struct s =>
      obtain ⟨hne, hchecked, hlayout, hstd⟩ := hk
      have hm : ∀ m ∈ s.members, m.type.index < n :=
        fun m hm => hlt m.type (List.mem_map_of_mem hm)
      exact ⟨hne, h.checkMembers_eq_ok hr hm hchecked, h.structLayout_eq_ok hr hr' hm hlayout,
        fun hp m hmem => h.isStd140 hr (hm m hmem) (hstd hp m hmem)⟩

/-- A checked type passes its checks in every larger registry. -/
theorem Valid.of_le (hle : r ≤ r') (hr : r.WellFormed) (hr' : r'.WellFormed) {k : TypeKind}
    (h : r.Valid k) : r'.Valid k := (agreesBelow_of_le hle).valid hr hr' h.parts_lt_size h

/-- The key of a checked type stays the same in every larger registry. -/
theorem Valid.keyOf_of_le (hle : r ≤ r') {k : TypeKind} (h : r.Valid k) :
    r'.keyOf k = r.keyOf k := by
  have hkeys : ∀ part ∈ k.parts, r'.key part = r.key part :=
    fun part hpart => key_eq_of_le hle (h.parts_lt_size part hpart)
  cases k with
  | void | primitive | texture | sampler => rfl
  | array element n => rw [keyOf, keyOf, hkeys element List.mem_cons_self]
  | pointer pointee space => rw [keyOf, keyOf, hkeys pointee List.mem_cons_self]
  | struct s =>
      have hfields : s.members.map (fun m => m.name ++ ":" ++ r'.key m.type ++ ";") =
          s.members.map fun m => m.name ++ ":" ++ r.key m.type ++ ";" :=
        List.map_congr_left fun m hm => by rw [hkeys m.type (List.mem_map_of_mem hm)]
      rw [keyOf, keyOf, structKey, structKey, hfields]

end Valid

/-! ## The invariant -/

/-- The invariant of registries: every type was checked, its key is the one of what it is made of,
and no two types share a key or the name of a struct. -/
structure Sound (r : Registry) : Prop where
  wellFormed : r.WellFormed
  valid : ∀ t, r.Valid (r.kind t)
  key_eq : ∀ t, t.index < r.size → r.key t = r.keyOf (r.kind t)
  key_inj : ∀ t u, t.index < r.size → u.index < r.size → r.key t = r.key u → t = u
  name_inj : ∀ t u s s', r.kind t = .struct s → r.kind u = .struct s' → s.name = s'.name → t = u

/-- Nothing is registered at first. -/
theorem sound_empty : empty.Sound where
  wellFormed := wellFormed_empty
  valid t := by simp [empty, kind, Valid]
  key_eq t ht := absurd ht (by simp [empty, size])
  key_inj t u ht := absurd ht (by simp [empty, size])
  name_inj t u s s' hs := by simp [empty, kind] at hs

namespace Sound

variable {r : Registry}

/-- A type of a known kind passes the checks of this kind. -/
theorem valid_of_kind (hr : r.Sound) {t : TypeId} {k : TypeKind} (hk : r.kind t = k) :
    r.Valid k := hk ▸ hr.valid t

/-- The parts of a type are registered. -/
theorem part_lt_size (hr : r.Sound) {t part : TypeId} (h : part ∈ (r.kind t).parts) :
    part.index < r.size :=
  hr.wellFormed.part_lt_size h

/-- No key of a registered type can be read as the key of another one, whatever follows. -/
theorem separates (hr : r.Sound) {t u : TypeId} (ht : t.index < r.size) (hu : u.index < r.size) :
    r.Separates t u := by
  intro x y h
  rw [hr.key_eq t ht, hr.key_eq u hu] at h
  have hparts : ∀ a ∈ (r.kind t).parts, ∀ b ∈ (r.kind u).parts, r.Separates a b := by
    intro a ha b hb
    -- the parts of `t` come before it, whatever those of `u` are
    have hdown := hr.wellFormed t a ha
    exact separates hr (hr.part_lt_size ha) (hr.part_lt_size hb)
  have hxy := (keyOf_append_inj (hr.valid t).spelled (hr.valid u).spelled hparts h).2
  rw [hxy] at h
  apply hr.key_inj t u ht hu
  rw [hr.key_eq t ht, hr.key_eq u hu]
  exact String.toList_inj.mp (List.append_cancel_right h)
termination_by t.index

/-- A type whose key is that of some registered parts is made of these parts. -/
theorem form_eq_of_key_eq (hr : r.Sound) {t : TypeId} (ht : t.index < r.size) {k : TypeKind}
    (hk : k.Spelled) (hparts : ∀ part ∈ k.parts, part.index < r.size)
    (h : r.key t = r.keyOf k) : (r.kind t).form = k.form :=
  (keyOf_append_inj (x := []) (y := []) (hr.valid t).spelled hk
    (fun _ ha b hb => hr.separates (hr.part_lt_size ha) (hparts b hb))
    (by rw [← hr.key_eq t ht, h])).1

/-- Registering a checked type under its key keeps the invariant, if nothing has this key or, for
a struct, its name. -/
theorem push (hr : r.Sound) {k : TypeKind} (hk : r.Valid k)
    (hkey : r.withKey? (r.keyOf k) = none)
    (hname : ∀ s, k = .struct s → r.structNamed? s.name = none) :
    (r.push (r.keyOf k) k).Sound := by
  have hle := le_push r (r.keyOf k) k
  have hwf : (r.push (r.keyOf k) k).WellFormed := hr.wellFormed.push hk.parts_lt_size
  have hnew : (r.push (r.keyOf k) k).kind ⟨r.size⟩ = k := kind_push_size r _ k
  refine ⟨hwf, fun t => ?_, fun t ht => ?_, fun t u ht hu h => ?_, fun t u s s' hs hs' h => ?_⟩
  · by_cases ht : t.index < (r.push (r.keyOf k) k).size
    · rcases lt_or_eq_of_lt_size_push ht with ht | rfl
      · rw [kind_eq_of_le hle ht]
        exact (hr.valid t).of_le hle hr.wellFormed hwf
      · rw [hnew]
        exact hk.of_le hle hr.wellFormed hwf
    · rw [kind_eq_void_of_le (by omega)]
      trivial
  · rcases lt_or_eq_of_lt_size_push ht with ht | rfl
    · rw [kind_eq_of_le hle ht, key_eq_of_le hle ht, (hr.valid t).keyOf_of_le hle]
      exact hr.key_eq t ht
    · rw [hnew, key_push_size, hk.keyOf_of_le hle]
  -- no key is there twice, as the new one has been looked for
  · rcases lt_or_eq_of_lt_size_push ht with ht | rfl <;>
      rcases lt_or_eq_of_lt_size_push hu with hu | rfl
    · rw [key_eq_of_le hle ht, key_eq_of_le hle hu] at h
      exact hr.key_inj t u ht hu h
    · rw [key_eq_of_le hle ht, key_push_size] at h
      exact absurd h (key_ne_of_withKey?_eq_none hkey ht)
    · rw [key_eq_of_le hle hu, key_push_size] at h
      exact absurd h.symm (key_ne_of_withKey?_eq_none hkey hu)
    · rfl
  · have hlt : ∀ {v sv}, (r.push (r.keyOf k) k).kind v = .struct sv →
        v.index < (r.push (r.keyOf k) k).size :=
      fun hv => lt_size_of_isStorable (by rw [hv]; rfl)
    rcases lt_or_eq_of_lt_size_push (hlt hs) with ht | rfl <;>
      rcases lt_or_eq_of_lt_size_push (hlt hs') with hu | rfl
    · rw [kind_eq_of_le hle ht] at hs
      rw [kind_eq_of_le hle hu] at hs'
      exact hr.name_inj t u s s' hs hs' h
    · rw [kind_eq_of_le hle ht] at hs
      rw [hnew] at hs'
      exact absurd h (name_ne_of_structNamed?_eq_none (hname s' hs') hs)
    · rw [kind_eq_of_le hle hu] at hs'
      rw [hnew] at hs
      exact absurd h.symm (name_ne_of_structNamed?_eq_none (hname s hs) hs')
    · rfl

/-- What a sound registry has grown from was sound. -/
theorem of_le {r' : Registry} (hle : r ≤ r') (hr' : r'.Sound) : r.Sound := by
  have hkind : ∀ {t : TypeId}, t.index < r.size → r'.kind t = r.kind t := kind_eq_of_le hle
  have hwf : r.WellFormed := by
    intro t part hpart
    by_cases ht : t.index < r.size
    · exact hr'.wellFormed t part (by rwa [hkind ht])
    · rw [kind_eq_void_of_le (by omega)] at hpart
      cases hpart
  have hvalid : ∀ t, r.Valid (r.kind t) := by
    intro t
    by_cases ht : t.index < r.size
    · have hparts : ∀ part ∈ (r.kind t).parts, part.index < r.size :=
        fun part hpart => hwf.part_lt_size hpart
      have hagrees := (agreesBelow_of_le hle).symm
      exact hagrees.valid hr'.wellFormed hwf hparts (hkind ht ▸ hr'.valid t)
    · rw [kind_eq_void_of_le (by omega)]
      trivial
  have hstruct : ∀ {t s}, r.kind t = .struct s → r'.kind t = .struct s :=
    fun hs => (hkind (lt_size_of_isStorable (by rw [hs]; rfl))).trans hs
  refine ⟨hwf, hvalid, fun t ht => ?_, fun t u ht hu h => ?_, fun t u s s' hs hs' h => ?_⟩
  · rw [← key_eq_of_le hle ht, ← (hvalid t).keyOf_of_le hle, ← hkind ht]
    exact hr'.key_eq t (Nat.lt_of_lt_of_le ht (size_le_of_le hle))
  · have hsize := size_le_of_le hle
    rw [← key_eq_of_le hle ht, ← key_eq_of_le hle hu] at h
    exact hr'.key_inj t u (by omega) (by omega) h
  · exact hr'.name_inj t u s s' (hstruct hs) (hstruct hs') h

/-- Only the last of the checked members ends with a runtime-sized array. -/
theorem getLast?_of_isRuntimeSized {before : List String} {members : List Member}
    (h : checkMembers r before members = .ok ()) {m : Member} (hm : m ∈ members)
    (hsized : r.isRuntimeSized m.type = true) : members.getLast? = some m := by
  induction members generalizing before with
  | nil => simp at hm
  | cons m' rest ih =>
      obtain ⟨-, -, -, hlast, hchecked⟩ := checkMembers_cons_eq_ok_iff.mp h
      rcases List.mem_cons.mp hm with rfl | hm
      · rw [hlast hsized]
        rfl
      · rw [List.getLast?_cons, ih hchecked hm]
        rfl

/-- A struct under `std140` rules only contains structs under `std140` rules. -/
theorem isStd140_of_policy (hr : r.Sound) {t : TypeId} {s : StructType}
    (hk : r.kind t = .struct s) (hpolicy : s.policy = .std140) : r.IsStd140 t := by
  obtain ⟨-, -, -, hstd⟩ := hr.valid_of_kind hk
  refine isStd140_of_parts (fun u hu => ?_) fun s' hs' => ?_
  · rw [hk] at hu
    obtain ⟨m, hm, rfl⟩ := List.mem_map.mp hu
    exact hstd hpolicy m hm
  · rw [hk] at hs'
    rw [← TypeKind.struct.inj hs']
    exact hpolicy

/-- The parts of a type with a size that can be held can be held and have a size. -/
theorem part_of_sized (hr : r.Sound) {t u : TypeId} (hstorable : (r.kind t).isStorable = true)
    (hsized : r.isRuntimeSized t = false) (hu : u ∈ (r.kind t).parts) :
    (r.kind u).isStorable = true ∧ r.isRuntimeSized u = false := by
  have hvalid := hr.valid t
  cases hk : r.kind t with
  | array element n =>
      rw [hk] at hvalid hu
      rw [List.mem_singleton.mp hu]
      exact ⟨hvalid.1, hvalid.2.1⟩
  | struct s =>
      have hdown := hr.wellFormed t u hu
      rw [hk] at hvalid hu
      obtain ⟨m, hm, rfl⟩ := List.mem_map.mp hu
      refine ⟨((of_checkMembers hvalid.2.1).1 m hm).2.2, ?_⟩
      by_contra hruntime
      have hruntime : r.isRuntimeSized m.type = true := by simpa using hruntime
      rw [isRuntimeSized, hk] at hsized
      simp only [getLast?_of_isRuntimeSized hvalid.2.1 hm hruntime, hdown, if_true,
        hruntime] at hsized
      simp at hsized
  | primitive p =>
      rw [hk] at hu
      simp [TypeKind.parts] at hu
  | void | pointer | texture | sampler =>
      rw [hk] at hstorable
      simp [TypeKind.isStorable] at hstorable

end Sound

end Registry

end WebShader
