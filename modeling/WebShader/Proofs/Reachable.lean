import Mathlib.Data.Fintype.Pigeonhole
import WebShader.Proofs.TypeRegistry

/-!
# Reachable registries

Every registration, refused or not, keeps the invariant of registries, and gives a type made of
what was asked for.
-/

namespace WebShader

open Registry (run_bind_of_ok run_get run_liftM)

namespace Interning

/-! ## Registrations that keep the invariant -/

/-- From a registry, a registration leaves a larger one that is sound, and what it gives, unless it
is refused, is as told. -/
def Ensures {α : Type} (act : Interning α) (r : Registry) (post : α → Registry → Prop) : Prop :=
  (r.run act).2.Sound ∧ r ≤ (r.run act).2 ∧ ∀ a r', r.run act = (.ok a, r') → post a r'

namespace Ensures

variable {α β : Type} {r : Registry} {act : Interning α} {post : α → Registry → Prop}

/-- What a registration ensures may be weakened. -/
theorem mono {post' : α → Registry → Prop} (h : act.Ensures r post)
    (himp : ∀ a r', r'.Sound → r ≤ r' → post a r' → post' a r') : act.Ensures r post' := by
  obtain ⟨hsound, hle, hpost⟩ := h
  refine ⟨hsound, hle, fun a r' hrun => ?_⟩
  rw [hrun] at hsound hle
  exact himp a r' hsound hle (hpost a r' hrun)

/-- Nothing is registered. -/
protected theorem pure (hr : r.Sound) {a : α} (h : post a r) :
    (pure a : Interning α).Ensures r post := by
  refine ⟨hr, le_refl r, fun b r' hrun => ?_⟩
  obtain ⟨hb, rfl⟩ := Prod.mk.inj hrun
  rw [← Except.ok.inj hb]
  exact h

/-- A registration that fails keeps the invariant. -/
theorem throw (hr : r.Sound) (e : ShaderError) : (throw e : Interning α).Ensures r post :=
  ⟨hr, le_refl r, fun _ _ hrun => absurd (Prod.mk.inj hrun).1 (by simp)⟩

/-- What follows a registration runs from the sound registry it leaves. -/
theorem bind {mid : α → Registry → Prop} {f : α → Interning β} {post : β → Registry → Prop}
    (h : act.Ensures r mid)
    (hf : ∀ a r', r'.Sound → r ≤ r' → mid a r' → (f a).Ensures r' post) :
    (act >>= f).Ensures r post := by
  obtain ⟨hsound, hle, hmid⟩ := h
  unfold Ensures
  rw [Registry.run_bind]
  rcases hrun : r.run act with ⟨_ | a, r'⟩
  · rw [hrun] at hsound hle
    exact ⟨hsound, hle, fun _ _ h => absurd (Prod.mk.inj h).1 (by simp)⟩
  · rw [hrun] at hsound hle
    obtain ⟨hsound', hle', hpost⟩ := hf a r' hsound hle (hmid a r' hrun)
    exact ⟨hsound', le_trans hle hle', hpost⟩

/-- What follows goes on from the registry at hand. -/
theorem get_bind {f : Registry → Interning β} {post : β → Registry → Prop}
    (h : (f r).Ensures r post) : (get >>= f).Ensures r post := by
  unfold Ensures at h ⊢
  rw [Registry.run_bind_of_ok (Registry.run_get r)]
  exact h

/-- What follows a check runs from the same registry, if the check passes. -/
theorem liftM_bind {x : Except ShaderError α} {f : α → Interning β}
    {post : β → Registry → Prop} (hr : r.Sound)
    (h : ∀ a, x = .ok a → (f a).Ensures r post) : (liftM x >>= f).Ensures r post := by
  cases x with
  | error e => exact ⟨hr, le_refl r, fun _ _ hrun => absurd (Prod.mk.inj hrun).1 (by simp)⟩
  | ok a =>
      have ha := h a rfl
      unfold Ensures at ha ⊢
      rw [run_bind_of_ok (run_liftM r (.ok a))]
      exact ha

/-- A list of registrations, when what each gives stays true in larger registries. -/
theorem mapM {f : α → Interning β} {as : List α} {post : α → β → Registry → Prop}
    (hr : r.Sound)
    (hpost : ∀ a b r₁ r₂, r₁.Sound → r₁ ≤ r₂ → post a b r₁ → post a b r₂)
    (hf : ∀ a ∈ as, ∀ r', r'.Sound → r ≤ r' → (f a).Ensures r' (post a)) :
    (as.mapM f).Ensures r fun bs r' => List.Forall₂ (fun a b => post a b r') as bs := by
  induction as generalizing r with
  | nil => exact Ensures.pure hr List.Forall₂.nil
  | cons a rest ih =>
      rw [List.mapM_cons]
      refine (hf a List.mem_cons_self r hr (le_refl r)).bind fun b r₁ hr₁ hle₁ hb => ?_
      have hrest := ih hr₁ fun a' ha' r' hr' hle' =>
        hf a' (List.mem_cons_of_mem _ ha') r' hr' (le_trans hle₁ hle')
      refine hrest.bind fun bs r₂ hr₂ hle₂ hbs => Ensures.pure hr₂ ?_
      exact List.Forall₂.cons (hpost a b r₁ r₂ hr₁ hle₂ hb) hbs

end Ensures

/-! ## Single types -/

section Single

variable {r : Registry}

/-- A registered type with the parts of `k`, up to the name of a struct. -/
def Gives (k : TypeKind) (t : TypeId) (r : Registry) : Prop :=
  t.index < r.size ∧ (r.kind t).form = k.form

/-- A checked type is registered once: under its key there is one made of the same parts. -/
theorem ensures_insert (hr : r.Sound) {k : TypeKind} (hk : r.Valid k)
    (hname : ∀ s, k = .struct s → r.structNamed? s.name = none) :
    (insert (r.keyOf k) k).Ensures r (Gives k) := by
  unfold insert
  refine Ensures.get_bind ?_
  cases hkey : r.withKey? (r.keyOf k) with
  | some t =>
      obtain ⟨ht, hkt⟩ := Registry.withKey?_eq_some hkey
      exact Ensures.pure hr ⟨ht, hr.form_eq_of_key_eq ht hk.spelled hk.parts_lt_size hkt⟩
  | none =>
      refine ⟨hr.push hk hkey hname, Registry.le_push r _ k, fun t r' hrun => ?_⟩
      obtain ⟨ht, rfl⟩ := Prod.mk.inj hrun
      rw [← Except.ok.inj ht]
      refine ⟨by rw [Registry.size_push]; exact Nat.lt_succ_self _, ?_⟩
      rw [Registry.kind_push_size]

theorem ensures_void (hr : r.Sound) : void.Ensures r (Gives .void) :=
  ensures_insert (k := .void) hr trivial (by simp)

theorem ensures_primitive (hr : r.Sound) {p : PrimitiveType} (hp : p.fault = none) :
    (primitive p).Ensures r (Gives (.primitive p)) :=
  ensures_insert (k := .primitive p) hr hp (by simp)

theorem ensures_texture (hr : r.Sound) {t : TextureType} (ht : t.fault = none) :
    (texture t).Ensures r (Gives (.texture t)) :=
  ensures_insert (k := .texture t) hr ht (by simp)

theorem ensures_sampler (hr : r.Sound) (kind : SamplerKind) :
    (sampler kind).Ensures r (Gives (.sampler kind)) :=
  ensures_insert (k := .sampler kind) hr trivial (by simp)

theorem ensures_pointer (hr : r.Sound) (pointee : TypeId) (space : AddressSpace) :
    (pointer pointee space).Ensures r (Gives (.pointer pointee space)) := by
  unfold pointer
  refine Ensures.get_bind ?_
  cases hstorable : (r.kind pointee).isStorable with
  | false => exact Ensures.throw hr _
  | true => exact ensures_insert (k := .pointer pointee space) hr hstorable (by simp)

/-- The form of anything but a struct is the kind itself. -/
theorem eq_of_form_eq {k k' : TypeKind} (h : k.form = k'.form)
    (hk' : ∀ s, k' ≠ .struct s) : k = k' := by
  cases k' with
  | struct s => exact absurd rfl (hk' s)
  | void | primitive | array | pointer | texture | sampler =>
      cases k <;> first | exact h | simp [TypeKind.form] at h

/-- A type that is given has its kind, unless it is a struct. -/
theorem Gives.kind_eq {k : TypeKind} {t : TypeId} (h : Gives k t r) (hk : ∀ s, k ≠ .struct s) :
    r.kind t = k :=
  eq_of_form_eq h.2 hk

/-- A struct given for another one has its rules and its members. -/
theorem Gives.struct {s : StructType} {t : TypeId} (h : Gives (.struct s) t r) :
    ∃ s', r.kind t = .struct s' ∧ s'.policy = s.policy ∧ s'.members = s.members := by
  have hform := h.2
  cases hk : r.kind t with
  | struct s' =>
      rw [hk] at hform
      simp only [TypeKind.form, TypeKind.struct.injEq, StructType.mk.injEq] at hform
      exact ⟨s', rfl, hform.2.1, hform.2.2.1⟩
  | void | primitive | array | pointer | texture | sampler =>
      rw [hk] at hform
      simp [TypeKind.form] at hform

/-- A checked array is registered under its key. -/
theorem run_array_of_valid {element : TypeId} {n : Nat} (h : r.Valid (.array element n)) :
    r.run (array element n) =
      r.run (insert (r.keyOf (.array element n)) (.array element n)) := by
  obtain ⟨hstorable, hsized, extent, stride, size, hextent, hstride, hsize⟩ := h
  unfold array
  rw [run_bind_of_ok (run_get r)]
  extract_lets store tail
  have htail : r.run (tail ()) =
      r.run (insert (r.keyOf (.array element n)) (.array element n)) := by
    show r.run (liftM (r.extent element .packed) >>= _) = _
    rw [run_bind_of_ok (by rw [run_liftM, hextent])]
    simp only [hstride, Option.bind_some, hsize, Option.isNone_some]
    rfl
  cases hk : r.kind element with
  | array inner m =>
      rw [Registry.isRuntimeSized_array hk] at hsized
      cases m with
      | zero => simp at hsized
      | succ m => exact htail
  | struct s =>
      show r.run (if r.isRuntimeSized element = true then _ else _) = _
      rw [hsized]
      exact htail
  | primitive p => exact htail
  | void | pointer | texture | sampler =>
      rw [hk] at hstorable
      simp [TypeKind.isStorable] at hstorable

/-- An array that does not pass the checks is refused, and nothing is registered. -/
theorem run_array_of_not_valid {element : TypeId} {n : Nat} (h : ¬r.Valid (.array element n)) :
    ∃ e, r.run (array element n) = (.error e, r) := by
  unfold array
  rw [run_bind_of_ok (run_get r)]
  extract_lets store tail
  -- what is checked of the sizes, once the elements can be stored
  have htail : (r.kind element).isStorable = true → r.isRuntimeSized element = false →
      ∃ e, r.run (tail ()) = (.error e, r) := by
    intro hstorable hsized
    show ∃ e, r.run (liftM (r.extent element .packed) >>= _) = (.error e, r)
    cases hextent : r.extent element .packed with
    | error e => exact ⟨e, rfl⟩
    | ok extent =>
        rw [run_bind_of_ok (run_liftM r _)]
        cases hstride : Layout.roundUp? extent.size extent.alignment with
        | none => exact ⟨_, rfl⟩
        | some stride =>
            cases hsize : Layout.checked (stride * n) with
            | none =>
                simp only [Option.bind_some, hsize, Option.isNone_none, if_true]
                exact ⟨_, rfl⟩
            | some size =>
                exact absurd ⟨hstorable, hsized, extent, stride, size, hextent, hstride, hsize⟩ h
  cases hk : r.kind element with
  | array inner m =>
      cases m with
      | zero => exact ⟨_, rfl⟩
      | succ m => exact htail (by rw [hk]; rfl) (by rw [Registry.isRuntimeSized_array hk]; rfl)
  | struct s =>
      show ∃ e, r.run (if r.isRuntimeSized element = true then _ else _) = (.error e, r)
      cases hsized : r.isRuntimeSized element with
      | true => exact ⟨_, rfl⟩
      | false => exact htail (by rw [hk]; rfl) hsized
  | primitive p => exact htail (by rw [hk]; rfl) (by rw [Registry.isRuntimeSized, hk])
  | void | pointer | texture | sampler => exact ⟨_, rfl⟩

/-- An array is registered when its elements can be held and have a size. -/
theorem ensures_array (hr : r.Sound) (element : TypeId) (n : Nat) :
    (array element n).Ensures r fun t r' =>
      Gives (.array element n) t r' ∧ r.Valid (.array element n) := by
  by_cases hvalid : r.Valid (.array element n)
  · have hinsert := ensures_insert (k := .array element n) hr hvalid (by simp)
    unfold Ensures
    rw [run_array_of_valid hvalid]
    exact hinsert.mono fun t r' _ _ ht => ⟨ht, hvalid⟩
  · obtain ⟨e, he⟩ := run_array_of_not_valid hvalid
    unfold Ensures
    rw [he]
    exact Ensures.throw hr e

end Single

/-! ## Structs -/

section Structs

variable {r : Registry}

/-- A registry with the same types is sound too. -/
theorem sound_of_entries_eq {r' : Registry} (hr : r.Sound) (h : r'.entries = r.entries) :
    r'.Sound := by
  have hkind : ∀ t, r'.kind t = r.kind t := fun t => by rw [Registry.kind, h, Registry.kind]
  have hkey : ∀ t, r'.key t = r.key t := fun t => by rw [Registry.key, h, Registry.key]
  have hsize : r'.size = r.size := by rw [Registry.size, h, Registry.size]
  have hle : r ≤ r' := by rw [Registry.le_iff, h]
  have hwf : r'.WellFormed := fun t part hpart => hr.wellFormed t part (hkind t ▸ hpart)
  refine ⟨hwf, fun t => ?_, fun t ht => ?_, fun t u ht hu he => ?_, fun t u s s' hs hs' he => ?_⟩
  · rw [hkind]
    exact (hr.valid t).of_le hle hr.wellFormed hwf
  · rw [hkey, hkind, (hr.valid t).keyOf_of_le hle]
    exact hr.key_eq t (hsize ▸ ht)
  · rw [hkey, hkey] at he
    exact hr.key_inj t u (hsize ▸ ht) (hsize ▸ hu) he
  · rw [hkind] at hs hs'
    exact hr.name_inj t u s s' hs hs' he

/-- Different numbers give different generated names. -/
theorem generatedName_inj {m n : Nat} (h : generatedName m = generatedName n) : m = n := by
  have hlist := congrArg String.toList h
  simp only [generatedName, String.toList_append] at hlist
  exact toString_nat_inj (List.append_cancel_left hlist)

/-- Some generated name is free: there are fewer types than candidates. -/
theorem exists_generatedName_free (r : Registry) (n : Nat) :
    ∃ i < r.size + 1, r.structNamed? (generatedName (n + i)) = none := by
  by_contra hall
  push Not at hall
  have htaken : ∀ i : Fin (r.size + 1), ∃ j : Fin r.size,
      Registry.isStructNamed (generatedName (n + i)) r.entries[j] = true := by
    intro i
    obtain ⟨t, ht⟩ := Option.ne_none_iff_exists'.mp (hall i i.isLt)
    obtain ⟨j, hj, -⟩ := Option.map_eq_some_iff.mp ht
    obtain ⟨hlt, hnamed, -⟩ := Array.findIdx?_eq_some_iff_getElem.mp hj
    exact ⟨⟨j, hlt⟩, hnamed⟩
  choose place hplace using htaken
  obtain ⟨i, i', hne, hsame⟩ := Fintype.exists_ne_map_eq_of_card_lt place (by simp)
  have hi := hplace i
  have hi' := hplace i'
  rw [hsame] at hi
  apply hne
  simp only [Registry.isStructNamed] at hi hi'
  split at hi
  · rename_i s hs
    rw [hs] at hi'
    have heq := generatedName_inj ((beq_iff_eq.mp hi).symm.trans (beq_iff_eq.mp hi'))
    exact Fin.ext (Nat.add_left_cancel heq)
  · simp at hi

/-- No struct has the generated name of a fresh number. -/
theorem structNamed?_freshNumber (r : Registry) (n : Nat) :
    r.structNamed? (generatedName (freshNumber r n)) = none := by
  obtain ⟨i, hi, hfree⟩ := exists_generatedName_free r n
  unfold freshNumber
  dsimp only
  cases hfind : ((List.range (r.size + 1)).map (n + ·)).find? fun k =>
      (r.structNamed? (generatedName k)).isNone with
  | some k =>
      have hk := List.find?_some hfind
      exact Option.isNone_iff_eq_none.mp hk
  | none =>
      have hnone := List.find?_eq_none.mp hfind (n + i)
        (List.mem_map_of_mem (List.mem_range.mpr hi))
      rw [hfree] at hnone
      simp at hnone

/-- The name given to a new struct is free, and nothing is registered for it. -/
theorem run_structName (r : Registry) (name : Option String) :
    (∃ e, r.run (structName name) = (.error e, r)) ∨
      ∃ given r', r.run (structName name) = (.ok given, r') ∧ r'.entries = r.entries ∧
        r.structNamed? given = none := by
  cases name with
  | none =>
      refine Or.inr ⟨generatedName (freshNumber r r.generated), _, rfl, rfl, ?_⟩
      exact structNamed?_freshNumber r r.generated
  | some name =>
      unfold structName
      rw [run_bind_of_ok (run_get r)]
      cases hname : r.structNamed? name with
      | some t => exact Or.inl ⟨_, rfl⟩
      | none => exact Or.inr ⟨name, r, rfl, rfl, hname⟩

theorem ensures_structName (hr : r.Sound) (name : Option String) :
    (structName name).Ensures r fun given r' =>
      r'.entries = r.entries ∧ r'.structNamed? given = none := by
  rcases run_structName r name with ⟨e, he⟩ | ⟨given, r', hrun, hentries, hfree⟩
  · unfold Ensures
    rw [he]
    exact Ensures.throw hr e
  · unfold Ensures
    rw [hrun]
    refine ⟨sound_of_entries_eq hr hentries, by rw [Registry.le_iff, hentries], ?_⟩
    intro given' r'' h
    obtain ⟨hgiven, rfl⟩ := Prod.mk.inj h
    rw [← Except.ok.inj hgiven]
    refine ⟨hentries, ?_⟩
    rw [Registry.structNamed?, hentries]
    exact hfree

/-- A checked list of members gives a struct that has these members and follows these rules. -/
theorem ensures_structOf (hr : r.Sound) (name : Option String) {policy : LayoutPolicy}
    {members : List Member} (hne : members ≠ [])
    (hstd : policy = .std140 → ∀ m ∈ members, (r.kind m.type).isStorable = true →
      r.IsStd140 m.type) :
    (structOf name policy members).Ensures r fun t r' => t.index < r'.size ∧
      checkMembers r [] members = .ok () ∧
        ∃ s, r'.kind t = .struct s ∧ s.policy = policy ∧ s.members = members := by
  unfold structOf
  refine Ensures.get_bind (Ensures.liftM_bind hr fun _ hchecked => ?_)
  have hm := (Registry.of_checkMembers hchecked).1
  have hparts : ∀ part ∈ members.map (·.type), part.index < r.size := by
    intro part hpart
    obtain ⟨m, hmem, rfl⟩ := List.mem_map.mp hpart
    exact Registry.lt_size_of_isStorable (hm m hmem).2.2
  dsimp only
  cases hkey : r.withKey? (structKey r policy members) with
  | some t =>
      obtain ⟨ht, hkt⟩ := Registry.withKey?_eq_some hkey
      have hform := hr.form_eq_of_key_eq (k := .struct ⟨"", policy, members, ⟨[], 1, 0⟩⟩) ht
        (fun m hmem => (hm m hmem).1) hparts hkt
      exact Ensures.pure hr ⟨ht, hchecked, Gives.struct ⟨ht, hform⟩⟩
  | none =>
      refine (ensures_structName hr name).bind fun given r₁ hr₁ hle ⟨hentries, hfree⟩ => ?_
      refine Ensures.liftM_bind hr₁ fun layout hlayout => ?_
      have hvalid : r.Valid (.struct ⟨given, policy, members, layout⟩) :=
        ⟨hne, hchecked, hlayout, fun hp m hmem => hstd hp m hmem (hm m hmem).2.2⟩
      have hkey : structKey r policy members =
          r₁.keyOf (.struct ⟨given, policy, members, layout⟩) := (hvalid.keyOf_of_le hle).symm
      rw [hkey]
      have hinsert := ensures_insert hr₁ (hvalid.of_le hle hr.wellFormed hr₁.wellFormed)
        (fun s hs => by rw [← TypeKind.struct.inj hs]; exact hfree)
      exact hinsert.mono fun t r' _ _ ht => ⟨ht.1, hchecked, ht.struct⟩

end Structs

/-! ## Copies under `std140` rules -/

section Std140

variable {r r' : Registry}

/-- A registered type whose structs follow `std140` rules, if its values can be held. -/
def HoldsStd140 (r : Registry) (t : TypeId) : Prop :=
  t.index < r.size ∧ ((r.kind t).isStorable = true → r.IsStd140 t)

/-- A type that may be held still may be. -/
theorem HoldsStd140.of_le (hr : r.Sound) (hle : r ≤ r') {t : TypeId} (h : HoldsStd140 r t) :
    HoldsStd140 r' t := by
  refine ⟨Nat.lt_of_lt_of_le h.1 (Registry.size_le_of_le hle), fun hstorable => ?_⟩
  rw [Registry.kind_eq_of_le hle h.1] at hstorable
  exact hr.wellFormed.isStd140_of_le hle h.1 (h.2 hstorable)

/-- The members of a struct with their types replaced, each as told. -/
def Replaced (r : Registry) (m m' : Member) : Prop :=
  m'.name = m.name ∧ HoldsStd140 r m'.type

/-- A member that has been replaced still is. -/
theorem Replaced.of_le (m m' : Member) (r r' : Registry) (hr : r.Sound) (hle : r ≤ r')
    (h : Replaced r m m') : Replaced r' m m' :=
  ⟨h.1, h.2.of_le hr hle⟩

/-- Replacing members without renaming them leaves their names. -/
theorem names_of_forall₂ {R : Member → Member → Prop} (hR : ∀ m m', R m m' → m'.name = m.name)
    {members members' : List Member} (h : List.Forall₂ R members members') :
    members'.map (·.name) = members.map (·.name) := by
  induction h with
  | nil => rfl
  | cons hm _ ih => rw [List.map_cons, List.map_cons, ih, hR _ _ hm]

/-- The members that have been replaced may be held. -/
theorem replaced_types {members members' : List Member}
    (h : List.Forall₂ (Replaced r) members members') :
    ∀ m ∈ members', HoldsStd140 r m.type := by
  induction h with
  | nil => simp
  | cons hm _ ih =>
      intro m hmem
      rcases List.mem_cons.mp hmem with rfl | hmem
      · exact hm.2
      · exact ih m hmem

/-- There are as many members as before. -/
theorem replaced_ne_nil {members members' : List Member}
    (h : List.Forall₂ (Replaced r) members members') (hne : members ≠ []) : members' ≠ [] := by
  cases h with
  | nil => exact absurd rfl hne
  | cons _ _ => simp

/-- A struct made of replaced members follows `std140` rules with all it contains. -/
theorem ensures_structOf_replaced (hr : r.Sound) (name : Option String)
    {members members' : List Member} (hne : members ≠ [])
    (h : List.Forall₂ (Replaced r) members members') :
    (structOf name .std140 members').Ensures r fun t r' => HoldsStd140 r' t ∧
      ∃ s, r'.kind t = .struct s ∧ s.policy = .std140 ∧ s.members = members' := by
  have htypes := replaced_types h
  have hstd : LayoutPolicy.std140 = .std140 → ∀ m ∈ members',
      (r.kind m.type).isStorable = true → r.IsStd140 m.type :=
    fun _ m hm hstorable => (htypes m hm).2 hstorable
  refine (ensures_structOf hr name (replaced_ne_nil h hne) hstd).mono ?_
  intro t r' hr' hle ⟨ht, hchecked, s, hs, hpolicy, hmembers⟩
  refine ⟨⟨ht, fun _ => ?_⟩, s, hs, hpolicy, hmembers⟩
  refine Registry.isStd140_of_parts (fun u hu => ?_) fun s' hs' => ?_
  · rw [hs] at hu
    obtain ⟨m, hm, rfl⟩ := List.mem_map.mp hu
    rw [hmembers] at hm
    have hstorable := ((Registry.of_checkMembers hchecked).1 m hm).2.2
    exact hr.wellFormed.isStd140_of_le hle (htypes m hm).1 ((htypes m hm).2 hstorable)
  · rw [hs] at hs'
    rw [← TypeKind.struct.inj hs']
    exact hpolicy

/-- The copy of a type holds values of structs under `std140` rules only. -/
theorem ensures_std140 {r : Registry} (hr : r.Sound) {t : TypeId} (ht : t.index < r.size) :
    (std140 t).Ensures r fun t' r' => HoldsStd140 r' t' := by
  rw [std140]
  refine Ensures.get_bind ?_
  cases hk : r.kind t with
  | array element n =>
      have hpart : element ∈ (r.kind t).parts := by rw [hk]; exact List.mem_cons_self
      have hlt := hr.wellFormed t element hpart
      dsimp only
      rw [if_pos hlt]
      have helement := ensures_std140 hr (hr.part_lt_size hpart)
      refine helement.bind fun element' r₁ hr₁ _ helement' => ?_
      refine (ensures_array hr₁ element' n).mono fun t' r₂ hr₂ hle harray => ?_
      obtain ⟨hgives, hvalid⟩ := harray
      have hkind := hgives.kind_eq (by simp)
      refine ⟨hgives.1, fun _ => Registry.isStd140_of_parts (fun u hu => ?_) fun s hs => ?_⟩
      · rw [hkind] at hu
        rw [List.mem_singleton.mp hu]
        exact hr₁.wellFormed.isStd140_of_le hle helement'.1 (helement'.2 hvalid.1)
      · rw [hkind] at hs
        simp at hs
  | struct s =>
      obtain ⟨hne, -, -, hstd⟩ := hr.valid_of_kind hk
      dsimp only
      by_cases hpolicy : s.policy = .packed
      -- a packed struct is copied with its members promoted
      · rw [if_pos hpolicy]
        refine Ensures.liftM_bind hr fun _ _ => ?_
        refine Ensures.bind (Ensures.mapM hr Replaced.of_le ?_) ?_
        rotate_left
        · intro members' r₁ hr₁ _ hreplaced
          exact (ensures_structOf_replaced hr₁ _ hne hreplaced).mono fun _ _ _ _ h => h.1
        · intro m hm r₁ hr₁ hle₁
          have hpart : m.type ∈ (r.kind t).parts := by
            rw [hk]
            exact List.mem_map_of_mem hm
          have hlt := hr.wellFormed t m.type hpart
          have hreg := Nat.lt_of_lt_of_le (hr.part_lt_size hpart) (Registry.size_le_of_le hle₁)
          rw [if_pos hlt]
          refine (ensures_std140 hr₁ hreg).bind fun t' r₂ hr₂ _ ht' => ?_
          exact Ensures.pure hr₂ ⟨rfl, ht'⟩
      -- any other has promoted members already and stays
      · rw [if_neg hpolicy]
        have hp : s.policy = .std140 := by
          cases h : s.policy with
          | packed => exact absurd h hpolicy
          | std140 => rfl
        refine Ensures.pure hr ⟨ht, fun _ => Registry.isStd140_of_parts (fun u hu => ?_) ?_⟩
        · rw [hk] at hu
          obtain ⟨m, hm, rfl⟩ := List.mem_map.mp hu
          exact hstd hp m hm
        · intro s' hs'
          rw [hk] at hs'
          rw [← TypeKind.struct.inj hs']
          exact hp
  | primitive p =>
      refine Ensures.pure hr ⟨ht, fun _ => ?_⟩
      refine Registry.isStd140_of_parts (fun u hu => ?_) fun s hs => ?_
      · rw [hk] at hu
        simp [TypeKind.parts] at hu
      · rw [hk] at hs
        simp at hs
  | void | pointer | texture | sampler =>
      refine Ensures.pure hr ⟨ht, fun hstorable => ?_⟩
      rw [hk] at hstorable
      simp [TypeKind.isStorable] at hstorable
termination_by t.index

/-- The copies of the types of a list of members. -/
theorem ensures_replaced (hr : r.Sound) {members : List Member}
    (hm : ∀ m ∈ members, m.type.index < r.size) :
    (members.mapM fun m => return { m with type := ← std140 m.type } : Interning _).Ensures r
      fun members' r' => List.Forall₂ (Replaced r') members members' := by
  refine Ensures.mapM hr Replaced.of_le fun m hmem r₁ hr₁ hle => ?_
  have hreg := Nat.lt_of_lt_of_le (hm m hmem) (Registry.size_le_of_le hle)
  refine (ensures_std140 hr₁ hreg).bind fun t' r₂ hr₂ _ ht' => ?_
  exact Ensures.pure hr₂ ⟨rfl, ht'⟩

/-- A struct has the members that were asked for, by name, and follows the rules asked for. -/
theorem ensures_struct (hr : r.Sound) (name : Option String) (policy : LayoutPolicy)
    {members : List Member} (hm : ∀ m ∈ members, m.type.index < r.size) :
    (struct name policy members).Ensures r fun t r' => t.index < r'.size ∧
      ∃ s, r'.kind t = .struct s ∧ s.policy = policy ∧
        s.members.map (·.name) = members.map (·.name) := by
  unfold struct
  extract_lets build policed named
  have hpoliced : members ≠ [] → (policed ()).Ensures r fun t r' => t.index < r'.size ∧
      ∃ s, r'.kind t = .struct s ∧ s.policy = policy ∧
        s.members.map (·.name) = members.map (·.name) := by
    intro hne
    cases policy with
    | packed =>
        simp only [policed, build, pure_bind]
        refine (ensures_structOf hr name hne (by simp)).mono ?_
        rintro t r' - - ⟨ht, -, s, hs, hp, hmembers⟩
        exact ⟨ht, s, hs, hp, by rw [hmembers]⟩
    | std140 =>
        refine (ensures_replaced hr hm).bind fun members' r₁ hr₁ _ hreplaced => ?_
        refine (ensures_structOf_replaced hr₁ name hne hreplaced).mono ?_
        rintro t r' - - ⟨ht, s, hs, hp, hmembers⟩
        exact ⟨ht.1, s, hs, hp, by rw [hmembers, names_of_forall₂ (fun _ _ h => h.1) hreplaced]⟩
  have hnamed : (named ()).Ensures r fun t r' => t.index < r'.size ∧
      ∃ s, r'.kind t = .struct s ∧ s.policy = policy ∧
        s.members.map (·.name) = members.map (·.name) := by
    cases members with
    | nil => exact Ensures.throw hr _
    | cons m rest =>
        simp only [named, List.isEmpty_cons, Bool.false_eq_true, if_false]
        exact hpoliced (List.cons_ne_nil m rest)
  cases name with
  | none => exact hnamed
  | some name => exact Ensures.liftM_bind hr fun _ _ => hnamed

end Std140

/-! ## Shapes -/

mutual

/-- A shape is registered after its parts. -/
theorem ensures_shape {r : Registry} (hr : r.Sound) :
    (d : TypeShape) → (shape d).Ensures r fun t r' => t.index < r'.size
  | .void => (ensures_void hr).mono fun _ _ _ _ h => h.1
  | .primitive p => by
      rw [shape]
      cases hp : p.fault with
      | none => exact (ensures_primitive hr hp).mono fun _ _ _ _ h => h.1
      | some fault => exact Ensures.throw hr _
  | .array element n => by
      rw [shape]
      refine (ensures_shape hr element).bind fun t r₁ hr₁ _ _ => ?_
      exact (ensures_array hr₁ t n).mono fun _ _ _ _ h => h.1.1
  | .struct name policy members => by
      rw [shape]
      refine (ensures_memberShapes hr members).bind fun members' r₁ hr₁ _ hm => ?_
      exact (ensures_struct hr₁ name policy hm).mono fun _ _ _ _ h => h.1
  | .pointer pointee space => by
      rw [shape]
      refine (ensures_shape hr pointee).bind fun t r₁ hr₁ _ _ => ?_
      exact (ensures_pointer hr₁ t space).mono fun _ _ _ _ h => h.1
  | .texture t => by
      rw [shape]
      cases ht : t.fault with
      | none => exact (ensures_texture hr ht).mono fun _ _ _ _ h => h.1
      | some fault => exact Ensures.throw hr _
  | .sampler kind => by
      rw [shape]
      exact (ensures_sampler hr kind).mono fun _ _ _ _ h => h.1

/-- The types of the members of a struct are registered one after the other. -/
theorem ensures_memberShapes {r : Registry} (hr : r.Sound) :
    (members : List (String × TypeShape)) →
      (memberShapes members).Ensures r fun members' r' => ∀ m ∈ members', m.type.index < r'.size
  | [] => Ensures.pure hr (by simp)
  | (name, type) :: rest => by
      rw [memberShapes]
      refine (ensures_shape hr type).bind fun t r₁ hr₁ _ ht => ?_
      refine (ensures_memberShapes hr₁ rest).bind fun members' r₂ hr₂ hle hm => ?_
      refine Ensures.pure hr₂ fun m hmem => ?_
      rcases List.mem_cons.mp hmem with rfl | hmem
      · exact Nat.lt_of_lt_of_le ht (Registry.size_le_of_le hle)
      · exact hm m hmem

end

end Interning

/-! ## Reachable registries -/

namespace Registry

/-- The registries that registrations of types lead to, from the one without types: shapes,
primitive types of valid shapes, and pointers, `std140` copies and structs of registered types,
each refused or not. -/
inductive Reachable : Registry → Prop
  | empty : Reachable empty
  | shape {r : Registry} (d : TypeShape) : Reachable r → Reachable (r.run (Interning.shape d)).2
  | void {r : Registry} : Reachable r → Reachable (r.run Interning.void).2
  | primitive {r : Registry} {p : PrimitiveType} :
      p.fault = none → Reachable r → Reachable (r.run (Interning.primitive p)).2
  | pointer {r : Registry} (t : TypeId) (space : AddressSpace) :
      Reachable r → Reachable (r.run (Interning.pointer t space)).2
  | std140 {r : Registry} {t : TypeId} :
      t.index < r.size → Reachable r → Reachable (r.run (Interning.std140 t)).2
  | struct {r : Registry} (name : Option String) (policy : LayoutPolicy) {members : List Member} :
      (∀ m ∈ members, m.type.index < r.size) → Reachable r →
        Reachable (r.run (Interning.struct name policy members)).2

/-- The invariant holds of every reachable registry. -/
theorem Reachable.sound {r : Registry} (h : r.Reachable) : r.Sound := by
  induction h with
  | empty => exact sound_empty
  | shape d _ ih => exact (Interning.ensures_shape ih d).1
  | void _ ih => exact (Interning.ensures_void ih).1
  | primitive hp _ ih => exact (Interning.ensures_primitive ih hp).1
  | pointer t space _ ih => exact (Interning.ensures_pointer ih t space).1
  | std140 ht _ ih => exact (Interning.ensures_std140 ih ht).1
  | struct name policy hm _ ih => exact (Interning.ensures_struct ih name policy hm).1

end Registry

end WebShader
