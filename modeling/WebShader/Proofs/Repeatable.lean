import WebShader.Proofs.Reachable

/-!
# Copies asked for again

The `std140` copy of a type is made once: asked for again, at any later time, it is found, and
nothing is registered.
-/

namespace WebShader

open Registry (run_bind_of_ok run_get run_liftM)

namespace Interning

variable {α β : Type}

/-! ## Settled registrations -/

/-- From now on the registration gives `a` and registers nothing. -/
def Settled (act : Interning α) (a : α) (r : Registry) : Prop :=
  ∀ r', r'.Sound → r ≤ r' → r'.run act = (.ok a, r')

/-- A registration that is settled stays so. -/
theorem Settled.of_le {act : Interning α} {a : α} {r r' : Registry} (h : Settled act a r)
    (hle : r ≤ r') : Settled act a r' :=
  fun r'' hr'' hle' => h r'' hr'' (le_trans hle hle')

/-- Two facts about what a registration gives. -/
theorem Ensures.and {act : Interning α} {r : Registry} {p q : α → Registry → Prop}
    (hp : act.Ensures r p) (hq : act.Ensures r q) :
    act.Ensures r fun a r' => p a r' ∧ q a r' :=
  ⟨hp.1, hp.2.1, fun a r' hrun => ⟨hp.2.2 a r' hrun, hq.2.2 a r' hrun⟩⟩

/-- A list of settled registrations is settled. -/
theorem settled_mapM {f : α → Interning β} {r : Registry} {as : List α} {bs : List β}
    (h : List.Forall₂ (fun a b => Settled (f a) b r) as bs) : Settled (as.mapM f) bs r := by
  intro r' hr' hle
  induction h with
  | nil => rfl
  | cons ha _ ih =>
      rw [List.mapM_cons, run_bind_of_ok (ha r' hr' hle), run_bind_of_ok ih]
      rfl

/-- A list of registrations, each settled once it has been made, is settled at the end. -/
theorem Ensures.mapM_settled {f : α → Interning β} {r : Registry} {as : List α} (hr : r.Sound)
    (post : α → β → Registry → Prop)
    (hpost : ∀ a b r₁ r₂, r₁.Sound → r₁ ≤ r₂ → post a b r₁ → post a b r₂)
    (hf : ∀ a ∈ as, ∀ r', r'.Sound → r ≤ r' →
      (f a).Ensures r' fun b r'' => post a b r'' ∧ Settled (f a) b r'') :
    (as.mapM f).Ensures r fun bs r' =>
      List.Forall₂ (fun a b => post a b r') as bs ∧ Settled (as.mapM f) bs r' := by
  have hboth : (as.mapM f).Ensures r fun bs r' =>
      List.Forall₂ (fun a b => post a b r' ∧ Settled (f a) b r') as bs := by
    refine Ensures.mapM hr ?_ hf
    intro a b r₁ r₂ hr₁ hle h
    exact ⟨hpost a b r₁ r₂ hr₁ hle h.1, h.2.of_le hle⟩
  refine hboth.mono fun bs r' _ _ h => ?_
  exact ⟨h.imp fun _ _ h => h.1, settled_mapM (h.imp fun _ _ h => h.2)⟩

section Single

variable {r : Registry}

/-- Two types made of the same parts have the same key. -/
theorem keyOf_eq_of_form_eq {k k' : TypeKind} (h : k.form = k'.form) : r.keyOf k = r.keyOf k' := by
  cases k' with
  | struct s' =>
      cases k with
      | struct s =>
          simp only [TypeKind.form, TypeKind.struct.injEq, StructType.mk.injEq] at h
          rw [Registry.keyOf, Registry.keyOf, h.2.1, h.2.2.1]
      | void | primitive | array | pointer | texture | sampler => simp [TypeKind.form] at h
  | void | primitive | array | pointer | texture | sampler =>
      rw [eq_of_form_eq h (by simp)]

/-- A registered type is found under the key of what it is made of. -/
theorem Gives.withKey?_eq (hr : r.Sound) {k : TypeKind} {t : TypeId} (h : Gives k t r) :
    r.withKey? (r.keyOf k) = some t := by
  have hkey : r.key t = r.keyOf k := by
    rw [hr.key_eq t h.1]
    exact keyOf_eq_of_form_eq h.2
  obtain ⟨u, hu⟩ := Registry.exists_withKey?_key h.1
  obtain ⟨hlt, hku⟩ := Registry.withKey?_eq_some hu
  rw [← hkey, hu, hr.key_inj u t hlt h.1 hku]

/-- A registration that gives a type keeps giving it. -/
theorem Gives.of_le {r' : Registry} (hle : r ≤ r') {k : TypeKind} {t : TypeId}
    (h : Gives k t r) : Gives k t r' := by
  constructor
  · exact Nat.lt_of_lt_of_le h.1 (Registry.size_le_of_le hle)
  · rw [Registry.kind_eq_of_le hle h.1]
    exact h.2

/-- A type that is there is not registered again. -/
theorem run_insert_of_gives (hr : r.Sound) {k : TypeKind} {t : TypeId} (h : Gives k t r) :
    r.run (insert (r.keyOf k) k) = (.ok t, r) := by
  unfold insert
  rw [run_bind_of_ok (run_get r), h.withKey?_eq hr]
  rfl

theorem ensures_array_settled (hr : r.Sound) (element : TypeId) (n : Nat) :
    (array element n).Ensures r fun t r' => Settled (array element n) t r' := by
  obtain ⟨hsound, hle, hpost⟩ := ensures_array hr element n
  refine ⟨hsound, hle, fun t r' hrun => ?_⟩
  obtain ⟨hgives, hvalid⟩ := hpost t r' hrun
  rw [hrun] at hle
  intro r'' hr'' hle'
  rw [run_array_of_valid (hvalid.of_le (le_trans hle hle') hr.wellFormed hr''.wellFormed)]
  exact run_insert_of_gives hr'' (hgives.of_le hle')

end Single

/-! ## Structs -/

section Structs

variable {r : Registry}

/-- A struct that is there is found by its members, whatever name is asked for. -/
theorem run_structOf_of_kind (hr : r.Sound) (name : Option String) {members : List Member}
    {policy : LayoutPolicy} {t : TypeId} {s : StructType} (ht : t.index < r.size)
    (hk : r.kind t = .struct s) (hpolicy : s.policy = policy) (hmembers : s.members = members) :
    r.run (structOf name policy members) = (.ok t, r) := by
  obtain ⟨-, hchecked, -, -⟩ := hr.valid_of_kind hk
  have hgives : Gives (.struct s) t r := ⟨ht, by rw [hk]⟩
  have hkey := hgives.withKey?_eq hr
  rw [Registry.keyOf, hpolicy, hmembers] at hkey
  rw [hmembers] at hchecked
  unfold structOf
  rw [run_bind_of_ok (run_get r), run_bind_of_ok (by rw [run_liftM, hchecked])]
  dsimp only
  rw [hkey]
  rfl

/-- The copy of a type is settled once it has been made. -/
theorem ensures_std140_settled {r : Registry} (hr : r.Sound) {t : TypeId} (ht : t.index < r.size) :
    (std140 t).Ensures r fun t' r' => Settled (std140 t) t' r' := by
  -- the kind of `t` is the same in every larger registry, so `std140` takes the same branch there
  have hrun : ∀ r', r ≤ r' → r'.kind t = r.kind t :=
    fun r' hle => Registry.kind_eq_of_le hle ht
  have hself : (∀ r', r ≤ r' → r'.run (std140 t) = (.ok t, r')) →
      (std140 t).Ensures r fun t' r' => Settled (std140 t) t' r' := by
    intro h
    have hnow := h r (le_refl r)
    refine ⟨by rw [hnow]; exact hr, by rw [hnow], ?_⟩
    intro t' r' hrun'
    rw [hnow] at hrun'
    obtain ⟨ht', rfl⟩ := Prod.mk.inj hrun'
    rw [← Except.ok.inj ht']
    exact fun r'' _ hle => h r'' hle
  cases hk : r.kind t with
  | array element n =>
      have hpart : element ∈ (r.kind t).parts := by rw [hk]; exact List.mem_cons_self
      have hdown := hr.wellFormed t element hpart
      rw [std140]
      refine Ensures.get_bind ?_
      rw [hk]
      dsimp only
      rw [if_pos hdown]
      refine (ensures_std140_settled hr (hr.part_lt_size hpart)).bind ?_
      intro element' r₁ hr₁ hle₁ helement
      refine (ensures_array_settled hr₁ element' n).mono ?_
      intro t' r₂ _ hle₂ harray r' hr' hle
      rw [run_bind_of_ok (run_get r'), hrun r' (le_trans hle₁ (le_trans hle₂ hle)), hk]
      dsimp only
      rw [if_pos hdown, run_bind_of_ok (helement r' hr' (le_trans hle₂ hle))]
      exact harray r' hr' hle
  | struct s =>
      by_cases hpolicy : s.policy = .packed
      · obtain ⟨hne, -, -, -⟩ := hr.valid_of_kind hk
        rw [std140]
        refine Ensures.get_bind ?_
        rw [hk]
        dsimp only
        rw [if_pos hpolicy]
        refine Ensures.liftM_bind hr fun checked hchecked => ?_
        refine Ensures.bind (Ensures.mapM_settled hr (fun m m' r' => Replaced r' m m')
          Replaced.of_le ?_) ?_
        · intro m hm r₁ hr₁ hle₁
          have hpart : m.type ∈ (r.kind t).parts := by
            rw [hk]
            exact List.mem_map_of_mem hm
          have hdown := hr.wellFormed t m.type hpart
          have hlt := Nat.lt_of_lt_of_le (hr.part_lt_size hpart) (Registry.size_le_of_le hle₁)
          rw [if_pos hdown]
          refine ((ensures_std140 hr₁ hlt).and (ensures_std140_settled hr₁ hlt)).bind ?_
          intro t' r₂ hr₂ _ ht'
          refine Ensures.pure hr₂ ⟨⟨rfl, ht'.1⟩, ?_⟩
          intro r' hr' hle
          rw [run_bind_of_ok (ht'.2 r' hr' hle)]
          rfl
        · rintro members' r₁ hr₁ hle₁ ⟨hreplaced, hmembers⟩
          refine (ensures_structOf_replaced hr₁ _ hne hreplaced).mono ?_
          rintro t' r₂ _ hle₂ ⟨ht', s', hs', hpolicy', hmembers'⟩ r' hr' hle
          have hlt := Nat.lt_of_lt_of_le ht'.1 (Registry.size_le_of_le hle)
          have hs' := (Registry.kind_eq_of_le hle ht'.1).trans hs'
          rw [run_bind_of_ok (run_get r'), hrun r' (le_trans hle₁ (le_trans hle₂ hle)), hk]
          dsimp only
          rw [if_pos hpolicy, run_bind_of_ok (by rw [run_liftM, hchecked]),
            run_bind_of_ok (hmembers r' hr' (le_trans hle₂ hle))]
          exact run_structOf_of_kind hr' _ hlt hs' hpolicy' hmembers'
      · refine hself fun r' hle => ?_
        rw [std140, run_bind_of_ok (run_get r'), hrun r' hle, hk]
        dsimp only
        rw [if_neg hpolicy]
        rfl
  | void | primitive | pointer | texture | sampler =>
      refine hself fun r' hle => ?_
      rw [std140, run_bind_of_ok (run_get r'), hrun r' hle, hk]
      rfl
termination_by t.index

/-- A type that follows `std140` rules is its own copy. -/
theorem run_std140_of_holds {r : Registry} (hr : r.Sound) {t : TypeId} (h : HoldsStd140 r t) :
    r.run (std140 t) = (.ok t, r) := by
  obtain ⟨ht, hstd⟩ := h
  have hvalid := hr.valid t
  rw [std140, run_bind_of_ok (run_get r)]
  cases hk : r.kind t with
  | array element n =>
      have hpart : element ∈ (r.kind t).parts := by rw [hk]; exact List.mem_cons_self
      have hdown := hr.wellFormed t element hpart
      have hstd := hstd (by rw [hk]; rfl)
      have helement : HoldsStd140 r element := ⟨hr.part_lt_size hpart, fun _ => hstd.part hpart⟩
      rw [hk] at hvalid
      dsimp only
      rw [if_pos hdown, run_bind_of_ok (run_std140_of_holds hr helement), run_array_of_valid hvalid]
      exact run_insert_of_gives hr ⟨ht, by rw [hk]⟩
  | struct s =>
      have hpolicy : s.policy = .std140 :=
        hstd (by rw [hk]; rfl) t s Relation.ReflTransGen.refl hk
      dsimp only
      rw [if_neg (by rw [hpolicy]; simp)]
      rfl
  | void | primitive | pointer | texture | sampler => rfl
termination_by t.index

/-- A member and its `std140` copy, which is settled. -/
def SettledCopy (r : Registry) (m m' : Member) : Prop :=
  m'.name = m.name ∧ Settled (std140 m.type) m'.type r

/-- A copy that is settled stays so. -/
theorem SettledCopy.of_le (m m' : Member) (r r' : Registry) (_ : r.Sound) (hle : r ≤ r')
    (h : SettledCopy r m m') : SettledCopy r' m m' :=
  ⟨h.1, h.2.of_le hle⟩

/-- A struct under `std140` rules has the copies of the members that were asked for. -/
theorem ensures_struct_std140 (hr : r.Sound) (name : String) {members : List Member}
    (hm : ∀ m ∈ members, m.type.index < r.size) :
    (struct (some name) .std140 members).Ensures r fun t r' =>
      ∃ s, r'.kind t = .struct s ∧ s.policy = .std140 ∧
        List.Forall₂ (SettledCopy r') members s.members := by
  have hcopies : (members.mapM fun m => return { m with type := ← std140 m.type } :
      Interning _).Ensures r fun members' r' =>
        List.Forall₂ (fun m m' => Replaced r' m m' ∧ SettledCopy r' m m') members members' := by
    refine Ensures.mapM hr ?_ ?_
    · intro m m' r₁ r₂ hr₁ hle h
      exact ⟨h.1.of_le m m' r₁ r₂ hr₁ hle, h.2.of_le m m' r₁ r₂ hr₁ hle⟩
    · intro m hmem r₁ hr₁ hle₁
      have hlt := Nat.lt_of_lt_of_le (hm m hmem) (Registry.size_le_of_le hle₁)
      refine ((ensures_std140 hr₁ hlt).and (ensures_std140_settled hr₁ hlt)).bind ?_
      intro t' r₂ hr₂ _ ht'
      exact Ensures.pure hr₂ ⟨⟨rfl, ht'.1⟩, rfl, ht'.2⟩
  unfold struct
  extract_lets build policed named
  refine Ensures.liftM_bind hr fun _ _ => ?_
  cases members with
  | nil => exact Ensures.throw hr _
  | cons m rest =>
      simp only [named, List.isEmpty_cons, Bool.false_eq_true, if_false]
      refine hcopies.bind fun members' r₁ hr₁ _ hmembers => ?_
      have hreplaced := hmembers.imp fun _ _ h => h.1
      refine (ensures_structOf_replaced hr₁ (some name) (List.cons_ne_nil m rest)
        hreplaced).mono ?_
      rintro t r₂ - hle₂ ⟨-, s, hs, hpolicy, hmembers'⟩
      refine ⟨s, hs, hpolicy, ?_⟩
      rw [hmembers']
      exact hmembers.imp fun m m' h => h.2.of_le m m' r₁ r₂ hr₁ hle₂

end Structs

end Interning

end WebShader
