import WebShader.Proofs.Repeatable

/-!
# Structural identity

Two descriptions give the same registered type exactly when they have the same canonical shape.
The canonical shape of a description is read back from the type registered for it, and no two
registered types read back alike.
-/

namespace WebShader

/-! ## Canonical shapes -/

/-- The rules a struct follows inside a type that follows the outer ones: `std140` rules reach
every struct below them. -/
def LayoutPolicy.within : LayoutPolicy → LayoutPolicy → LayoutPolicy
  | .std140, _ => .std140
  | .packed, own => own

namespace TypeShape

mutual

/-- The shape without the names of its structs, where every packed struct below a `std140` one,
through members and arrays, follows `std140` rules. -/
def canonical (outer : LayoutPolicy) : TypeShape → TypeShape
  | .void => .void
  | .primitive p => .primitive p
  | .array element n => .array (canonical outer element) n
  | .struct _ own members =>
    .struct none (outer.within own) (memberShapes (outer.within own) members)
  | .pointer pointee space => .pointer (canonical .packed pointee) space
  | .texture t => .texture t
  | .sampler kind => .sampler kind

/-- The canonical shapes of the members of a struct that follows the given rules. -/
def memberShapes (policy : LayoutPolicy) : List (String × TypeShape) → List (String × TypeShape)
  | [] => []
  | (name, type) :: rest => (name, canonical policy type) :: memberShapes policy rest

end

/-- The members are made canonical one by one. -/
theorem memberShapes_eq_map (policy : LayoutPolicy) (members : List (String × TypeShape)) :
    memberShapes policy members = members.map fun m => (m.1, m.2.canonical policy) := by
  induction members with
  | nil => rfl
  | cons m rest ih => rw [memberShapes, ih, List.map_cons]

mutual

/-- Rules imposed one after the other are imposed at once. -/
theorem canonical_canonical (p q : LayoutPolicy) :
    (d : TypeShape) → (d.canonical q).canonical p = d.canonical (p.within q)
  | .void | .primitive _ | .texture _ | .sampler _ => rfl
  | .array element n => by
      rw [canonical, canonical, canonical, canonical_canonical p q element]
  | .struct name own members => by
      have hwithin : p.within (q.within own) = (p.within q).within own := by
        cases p <;> cases q <;> rfl
      have hidem : (p.within (q.within own)).within (q.within own) = p.within (q.within own) := by
        cases p <;> cases q <;> cases own <;> rfl
      rw [canonical, canonical, canonical, memberShapes_memberShapes, hidem, hwithin]
  | .pointer pointee space => by
      rw [canonical, canonical, canonical, canonical_canonical .packed .packed pointee]
      rfl

/-- Members are made canonical once. -/
theorem memberShapes_memberShapes (p q : LayoutPolicy) :
    (members : List (String × TypeShape)) →
      memberShapes p (memberShapes q members) = memberShapes (p.within q) members
  | [] => rfl
  | (name, type) :: rest => by
      rw [memberShapes, memberShapes, memberShapes, canonical_canonical p q type,
        memberShapes_memberShapes p q rest]

end

end TypeShape

/-! ## Reading types back -/

namespace TypeKind

/-- The shape of a type, without the name of a struct, from the shapes of its parts. -/
def shapeWith (shape : TypeId → TypeShape) : TypeKind → TypeShape
  | void => .void
  | primitive p => .primitive p
  | array element n => .array (shape element) n
  | struct s => .struct none s.policy (s.members.map fun m => (m.name, shape m.type))
  | pointer pointee space => .pointer (shape pointee) space
  | texture t => .texture t
  | sampler kind => .sampler kind

/-- The description of a type depends on that of its parts. -/
theorem shapeWith_congr {f g : TypeId → TypeShape} {k : TypeKind}
    (h : ∀ part ∈ k.parts, f part = g part) : k.shapeWith f = k.shapeWith g := by
  cases k with
  | array element n => rw [shapeWith, shapeWith, h element List.mem_cons_self]
  | pointer pointee space => rw [shapeWith, shapeWith, h pointee List.mem_cons_self]
  | struct s =>
      have hmembers : s.members.map (fun m => (m.name, f m.type)) =
          s.members.map fun m => (m.name, g m.type) :=
        List.map_congr_left fun m hm => by rw [h m.type (List.mem_map_of_mem hm)]
      rw [shapeWith, shapeWith, hmembers]
  | void | primitive | texture | sampler => rfl

/-- Members with the same names and shapes are the same when these shapes tell their types
apart. -/
theorem members_eq_of_shapes_eq {f : TypeId → TypeShape} {members members' : List Member}
    (hf : ∀ m ∈ members, ∀ m' ∈ members', f m.type = f m'.type → m.type = m'.type)
    (h : members.map (fun m => (m.name, f m.type)) = members'.map fun m => (m.name, f m.type)) :
    members = members' := by
  induction members generalizing members' with
  | nil => exact (List.map_eq_nil_iff.mp h.symm).symm
  | cons m rest ih =>
      cases members' with
      | nil => exact absurd h (by simp)
      | cons m' rest' =>
          simp only [List.map_cons, List.cons.injEq, Prod.mk.injEq] at h
          obtain ⟨⟨hname, hshape⟩, hrest⟩ := h
          have htype := hf m List.mem_cons_self m' List.mem_cons_self hshape
          have htail := ih (fun n hn n' hn' =>
            hf n (List.mem_cons_of_mem _ hn) n' (List.mem_cons_of_mem _ hn')) hrest
          cases m
          cases m'
          rw [htail]
          exact congrArg (· :: rest') (congrArg₂ Member.mk hname htype)

/-- Types of the same shape are made of the same parts when these shapes tell the parts apart. -/
theorem form_eq_of_shapeWith_eq {f : TypeId → TypeShape} {k k' : TypeKind}
    (hf : ∀ a ∈ k.parts, ∀ b ∈ k'.parts, f a = f b → a = b)
    (h : k.shapeWith f = k'.shapeWith f) : k.form = k'.form := by
  cases k with
  | array a n =>
      cases k' with
      | array b n' =>
          rw [shapeWith, shapeWith, TypeShape.array.injEq] at h
          rw [hf a List.mem_cons_self b List.mem_cons_self h.1, h.2]
      | _ => cases h
  | pointer a space =>
      cases k' with
      | pointer b space' =>
          rw [shapeWith, shapeWith, TypeShape.pointer.injEq] at h
          rw [hf a List.mem_cons_self b List.mem_cons_self h.1, h.2]
      | _ => cases h
  | struct s =>
      cases k' with
      | struct s' =>
          rw [shapeWith, shapeWith, TypeShape.struct.injEq] at h
          have hmembers := members_eq_of_shapes_eq (fun m hm m' hm' =>
            hf _ (List.mem_map_of_mem hm) _ (List.mem_map_of_mem hm')) h.2.2
          rw [form, form, h.2.1, hmembers]
      | _ => cases h
  | void =>
      cases k' with
      | void => rfl
      | _ => cases h
  | primitive p =>
      cases k' with
      | primitive q => rw [TypeShape.primitive.inj h]
      | _ => cases h
  | texture t =>
      cases k' with
      | texture t' => rw [TypeShape.texture.inj h]
      | _ => cases h
  | sampler kind =>
      cases k' with
      | sampler kind' => rw [TypeShape.sampler.inj h]
      | _ => cases h

end TypeKind

namespace Registry

/-- The shape of a registered type, without the names of its structs. -/
def shapeOf (r : Registry) (t : TypeId) : TypeShape :=
  (r.kind t).shapeWith fun part => if part.index < t.index then r.shapeOf part else .void
termination_by t.index

/-- A type is described by its kind and its parts. -/
theorem WellFormed.shapeOf_eq {r : Registry} (hr : r.WellFormed) (t : TypeId) :
    r.shapeOf t = (r.kind t).shapeWith r.shapeOf := by
  rw [shapeOf]
  exact TypeKind.shapeWith_congr fun part hpart => if_pos (hr t part hpart)

/-- A type of a kind is described by it. -/
theorem WellFormed.shapeOf_of_kind {r : Registry} (hr : r.WellFormed) {t : TypeId} {k : TypeKind}
    (hk : r.kind t = k) : r.shapeOf t = k.shapeWith r.shapeOf := by
  rw [hr.shapeOf_eq, hk]

/-- A registered type reads back the same in every larger registry. -/
theorem WellFormed.shapeOf_of_le {r r' : Registry} (hr : r.WellFormed) (hle : r ≤ r') {t : TypeId}
    (ht : t.index < r.size) : r'.shapeOf t = r.shapeOf t := by
  rw [shapeOf, shapeOf, kind_eq_of_le hle ht]
  refine TypeKind.shapeWith_congr fun part hpart => ?_
  have hdown := hr t part hpart
  rw [if_pos hdown, if_pos hdown]
  exact shapeOf_of_le hr hle (hr.part_lt_size hpart)
termination_by t.index

namespace Sound

variable {r : Registry}

/-- No two registered types read back alike. -/
theorem shapeOf_inj (hr : r.Sound) {t u : TypeId} (ht : t.index < r.size) (hu : u.index < r.size)
    (h : r.shapeOf t = r.shapeOf u) : t = u := by
  have hparts : ∀ a ∈ (r.kind t).parts, ∀ b ∈ (r.kind u).parts,
      r.shapeOf a = r.shapeOf b → a = b := by
    intro a ha b hb hab
    -- the parts of `t` come before it, whatever those of `u` are
    have hdown := hr.wellFormed t a ha
    exact shapeOf_inj hr (hr.part_lt_size ha) (hr.part_lt_size hb) hab
  rw [hr.wellFormed.shapeOf_eq, hr.wellFormed.shapeOf_eq] at h
  apply hr.key_inj t u ht hu
  rw [hr.key_eq t ht, hr.key_eq u hu]
  exact Interning.keyOf_eq_of_form_eq (TypeKind.form_eq_of_shapeWith_eq hparts h)
termination_by t.index

/-- A registered type reads back as a canonical shape, also below `std140` rules if all its structs
follow them. -/
theorem canonical_shapeOf (hr : r.Sound) (t : TypeId) (outer : LayoutPolicy)
    (houter : outer = .std140 → r.IsStd140 t) :
    (r.shapeOf t).canonical outer = r.shapeOf t := by
  rw [hr.wellFormed.shapeOf_eq]
  have hdown := hr.wellFormed t
  cases hk : r.kind t with
  | array element n =>
      have hpart : element ∈ (r.kind t).parts := by rw [hk]; exact List.mem_cons_self
      have hlt := hdown element hpart
      rw [TypeKind.shapeWith, TypeShape.canonical,
        canonical_shapeOf hr element outer fun h => (houter h).part hpart]
  | pointer pointee space =>
      have hlt := hdown pointee (by rw [hk]; exact List.mem_cons_self)
      rw [TypeKind.shapeWith, TypeShape.canonical,
        canonical_shapeOf hr pointee .packed (by simp)]
  | struct s =>
      have hpolicy : outer.within s.policy = s.policy := by
        cases houter' : outer with
        | packed => rfl
        | std140 => exact (houter houter' t s Relation.ReflTransGen.refl hk).symm
      have hmembers : ∀ m ∈ s.members,
          (r.shapeOf m.type).canonical s.policy = r.shapeOf m.type := by
        intro m hm
        have hpart : m.type ∈ (r.kind t).parts := by rw [hk]; exact List.mem_map_of_mem hm
        have hlt := hdown m.type hpart
        exact canonical_shapeOf hr m.type s.policy fun h => (hr.isStd140_of_policy hk h).part hpart
      rw [TypeKind.shapeWith, TypeShape.canonical, hpolicy, TypeShape.memberShapes_eq_map,
        List.map_map]
      congr 1
      exact List.map_congr_left fun m hm => congrArg (Prod.mk m.name) (hmembers m hm)
  | void | primitive | texture | sampler => rfl
termination_by t.index

end Sound

end Registry

namespace Interning

/-! ## What registrations read back as -/

/-- A registered type that reads back as the shape. -/
def ReadsAs (d : TypeShape) (t : TypeId) (r : Registry) : Prop :=
  t.index < r.size ∧ r.shapeOf t = d

/-- What a type reads as stays. -/
theorem ReadsAs.of_le {d : TypeShape} {t : TypeId} {r r' : Registry} (hr : r.Sound) (hle : r ≤ r')
    (h : ReadsAs d t r) : ReadsAs d t r' :=
  ⟨Nat.lt_of_lt_of_le h.1 (Registry.size_le_of_le hle),
    (hr.wellFormed.shapeOf_of_le hle h.1).trans h.2⟩

/-- What is made of the parts of `k` reads back like it. -/
theorem Gives.readsAs {k : TypeKind} {t : TypeId} {r : Registry} (hr : r.Sound) (h : Gives k t r) :
    ReadsAs (k.shapeWith r.shapeOf) t r := by
  refine ⟨h.1, ?_⟩
  cases k with
  | struct s =>
      obtain ⟨s', hk, hpolicy, hmembers⟩ := h.struct
      rw [hr.wellFormed.shapeOf_of_kind hk, TypeKind.shapeWith, TypeKind.shapeWith, hpolicy,
        hmembers]
  | void | primitive | array | pointer | texture | sampler =>
      exact hr.wellFormed.shapeOf_of_kind (h.kind_eq (by simp))

/-- The member of a struct with its type replaced by one that reads back as told. -/
def ReadsMember (shape : Member → TypeShape) (r : Registry) (m m' : Member) : Prop :=
  m'.name = m.name ∧ ReadsAs (shape m) m'.type r

section Copies

variable {r : Registry}

/-- Members read as the descriptions they were made of. -/
theorem shapes_of_readsMember {shape : Member → TypeShape} {members members' : List Member}
    (h : List.Forall₂ (ReadsMember shape r) members members') :
    (members'.map fun m => (m.name, r.shapeOf m.type)) =
      members.map fun m => (m.name, shape m) := by
  induction h with
  | nil => rfl
  | cons hm _ ih => rw [List.map_cons, List.map_cons, ih, hm.1, hm.2.2]

/-- A struct reads back as its members do. -/
theorem readsAs_struct (hr : r.Sound) {t : TypeId} {s : StructType} {shape : Member → TypeShape}
    {members : List Member} (hk : r.kind t = .struct s)
    (h : List.Forall₂ (ReadsMember shape r) members s.members) :
    ReadsAs (.struct none s.policy (members.map fun m => (m.name, shape m))) t r := by
  refine ⟨Registry.lt_size_of_isStorable (by rw [hk]; rfl), ?_⟩
  rw [hr.wellFormed.shapeOf_of_kind hk, TypeKind.shapeWith, shapes_of_readsMember h]

/-- What a member reads as stays. -/
theorem ReadsMember.of_le {shape : Member → TypeShape} (m m' : Member) (r r' : Registry)
    (hr : r.Sound) (hle : r ≤ r') (h : ReadsMember shape r m m') : ReadsMember shape r' m m' :=
  ⟨h.1, h.2.of_le hr hle⟩

/-- The member of a struct with its type replaced by a `std140` copy that reads back as told. -/
def CopiesMember (shape : Member → TypeShape) (r : Registry) (m m' : Member) : Prop :=
  Replaced r m m' ∧ ReadsMember shape r m m'

/-- What a member copies stays. -/
theorem CopiesMember.of_le (shape : Member → TypeShape) (m m' : Member) (r r' : Registry)
    (hr : r.Sound) (hle : r ≤ r') (h : CopiesMember shape r m m') : CopiesMember shape r' m m' :=
  ⟨h.1.of_le m m' r r' hr hle, h.2.of_le m m' r r' hr hle⟩

/-- A struct made of copied members reads back as they do. -/
theorem ensures_structOf_reads (hr : r.Sound) (name : Option String)
    {shape : Member → TypeShape} {members members' : List Member} (hne : members ≠ [])
    (h : List.Forall₂ (CopiesMember shape r) members members') :
    (structOf name .std140 members').Ensures r
      (ReadsAs (.struct none .std140 (members.map fun m => (m.name, shape m)))) := by
  have hreplaced := h.imp fun _ _ h => h.1
  refine (ensures_structOf_replaced hr name hne hreplaced).mono ?_
  rintro t r' hr' hle ⟨-, s, hs, hpolicy, hmembers⟩
  rw [← hpolicy]
  refine readsAs_struct hr' hs ?_
  rw [hmembers]
  exact h.imp fun m m' h => h.2.of_le m m' r r' hr hle

/-- The copy of a type reads back as the type below `std140` rules. -/
theorem ensures_std140_reads {r : Registry} (hr : r.Sound) {t : TypeId} (ht : t.index < r.size) :
    (std140 t).Ensures r (ReadsAs ((r.shapeOf t).canonical .std140)) := by
  have hwf := hr.wellFormed
  rw [std140]
  refine Ensures.get_bind ?_
  cases hk : r.kind t with
  | array element n =>
      have hpart : element ∈ (r.kind t).parts := by rw [hk]; exact List.mem_cons_self
      have hdown := hwf t element hpart
      dsimp only
      rw [if_pos hdown, hwf.shapeOf_of_kind hk, TypeKind.shapeWith, TypeShape.canonical]
      refine (ensures_std140_reads hr (hr.part_lt_size hpart)).bind fun element' r₁ hr₁ _ he => ?_
      refine (ensures_array hr₁ element' n).mono ?_
      rintro t' r₂ hr₂ hle ⟨hgives, -⟩
      have hreads := hgives.readsAs hr₂
      rwa [TypeKind.shapeWith, (he.of_le hr₁ hle).2] at hreads
  | struct s =>
      obtain ⟨hne, -, -, -⟩ := hr.valid_of_kind hk
      dsimp only
      by_cases hpolicy : s.policy = .packed
      · rw [if_pos hpolicy, hwf.shapeOf_of_kind hk, TypeKind.shapeWith, TypeShape.canonical,
          TypeShape.memberShapes_eq_map, List.map_map]
        refine Ensures.liftM_bind hr fun _ _ => ?_
        refine Ensures.bind (Ensures.mapM hr (CopiesMember.of_le fun m =>
          (r.shapeOf m.type).canonical .std140) fun m hm r₁ hr₁ hle₁ => ?_)
          fun members' r₁ hr₁ _ hmembers => ensures_structOf_reads hr₁ _ hne hmembers
        have hpart : m.type ∈ (r.kind t).parts := by rw [hk]; exact List.mem_map_of_mem hm
        have hdown := hwf t m.type hpart
        have hlt := hr.part_lt_size hpart
        have hlt₁ := Nat.lt_of_lt_of_le hlt (Registry.size_le_of_le hle₁)
        rw [if_pos hdown]
        -- the member is promoted in a later registry, where it still has its shape
        refine ((ensures_std140 hr₁ hlt₁).and (ensures_std140_reads hr₁ hlt₁)).bind ?_
        intro t' r₂ hr₂ _ ht'
        rw [hwf.shapeOf_of_le hle₁ hlt] at ht'
        exact Ensures.pure hr₂ ⟨⟨rfl, ht'.1⟩, rfl, ht'.2⟩
      · have hstd : s.policy = .std140 := by
          cases h : s.policy with
          | packed => exact absurd h hpolicy
          | std140 => rfl
        rw [if_neg hpolicy]
        refine Ensures.pure hr ⟨ht, ?_⟩
        exact (hr.canonical_shapeOf t .std140 fun _ => hr.isStd140_of_policy hk hstd).symm
  | pointer pointee space =>
      refine Ensures.pure hr ⟨ht, ?_⟩
      rw [hwf.shapeOf_of_kind hk, TypeKind.shapeWith, TypeShape.canonical,
        hr.canonical_shapeOf pointee .packed (by simp)]
  | void | primitive | texture | sampler =>
      refine Ensures.pure hr ⟨ht, ?_⟩
      rw [hwf.shapeOf_of_kind hk]
      rfl
termination_by t.index

/-- A struct reads back as its members below its rules. -/
theorem ensures_struct_reads (hr : r.Sound) (name : Option String) (policy : LayoutPolicy)
    {members : List Member} (hm : ∀ m ∈ members, m.type.index < r.size) :
    (struct name policy members).Ensures r (ReadsAs (.struct none policy
      (members.map fun m => (m.name, (r.shapeOf m.type).canonical policy)))) := by
  have hwf := hr.wellFormed
  unfold struct
  extract_lets build policed named
  -- under `std140` rules the members are promoted before the struct is looked for
  have hpoliced : members ≠ [] → (policed ()).Ensures r (ReadsAs (.struct none policy
      (members.map fun m => (m.name, (r.shapeOf m.type).canonical policy)))) := by
    intro hne
    cases policy with
    | packed =>
        simp only [policed, build, pure_bind]
        refine (ensures_structOf hr name hne (by simp)).mono ?_
        rintro t r' hr' hle ⟨-, -, s, hs, hpolicy, hmembers⟩
        rw [← hpolicy]
        refine readsAs_struct hr' hs ?_
        rw [hmembers, List.forall₂_same, hpolicy]
        intro m hmem
        refine ⟨rfl, ReadsAs.of_le hr hle ⟨hm m hmem, ?_⟩⟩
        exact (hr.canonical_shapeOf m.type .packed (by simp)).symm
    | std140 =>
        refine Ensures.bind (Ensures.mapM hr (CopiesMember.of_le fun m =>
          (r.shapeOf m.type).canonical .std140) fun m hmem r₁ hr₁ hle₁ => ?_)
          fun members' r₁ hr₁ _ hmembers => ensures_structOf_reads hr₁ name hne hmembers
        have hlt := hm m hmem
        have hlt₁ := Nat.lt_of_lt_of_le hlt (Registry.size_le_of_le hle₁)
        refine ((ensures_std140 hr₁ hlt₁).and (ensures_std140_reads hr₁ hlt₁)).bind ?_
        intro t' r₂ hr₂ _ ht'
        rw [hwf.shapeOf_of_le hle₁ hlt] at ht'
        exact Ensures.pure hr₂ ⟨⟨rfl, ht'.1⟩, rfl, ht'.2⟩
  have hnamed : (named ()).Ensures r (ReadsAs (.struct none policy
      (members.map fun m => (m.name, (r.shapeOf m.type).canonical policy)))) := by
    cases members with
    | nil => exact Ensures.throw hr _
    | cons m rest =>
        simp only [named, List.isEmpty_cons, Bool.false_eq_true, if_false]
        exact hpoliced (List.cons_ne_nil m rest)
  cases name with
  | none => exact hnamed
  | some name => exact Ensures.liftM_bind hr fun _ _ => hnamed

end Copies

/-! ## Descriptions -/

/-- The members of a struct read back as described. -/
def ReadAsMembers (shapes : List (String × TypeShape)) (members : List Member) (r : Registry) :
    Prop :=
  (∀ m ∈ members, m.type.index < r.size) ∧
    (members.map fun m => (m.name, r.shapeOf m.type)) = TypeShape.memberShapes .packed shapes

mutual

/-- The type registered for a description reads back as its canonical shape. -/
theorem ensures_shape_reads {r : Registry} (hr : r.Sound) :
    (d : TypeShape) → (shape d).Ensures r (ReadsAs (d.canonical .packed))
  | .void => (ensures_void hr).mono fun _ _ hr' _ h => h.readsAs hr'
  | .primitive p => by
      rw [shape]
      cases hp : p.fault with
      | none => exact (ensures_primitive hr hp).mono fun _ _ hr' _ h => h.readsAs hr'
      | some fault => exact Ensures.throw hr _
  | .array element n => by
      rw [shape]
      refine (ensures_shape_reads hr element).bind fun t r₁ hr₁ _ ht => ?_
      refine (ensures_array hr₁ t n).mono ?_
      rintro t' r₂ hr₂ hle ⟨hgives, -⟩
      have hreads := hgives.readsAs hr₂
      rwa [TypeKind.shapeWith, (ht.of_le hr₁ hle).2] at hreads
  | .struct name policy members => by
      rw [shape]
      refine (ensures_memberShapes_read hr members).bind ?_
      rintro members' r₁ hr₁ _ ⟨hlt, hshapes⟩
      refine (ensures_struct_reads hr₁ name policy hlt).mono ?_
      rintro t r₂ hr₂ hle ⟨ht, hreads⟩
      refine ⟨ht, ?_⟩
      have hpolicy : policy.within .packed = policy := by cases policy <;> rfl
      have hmembers := TypeShape.memberShapes_memberShapes policy .packed members
      rw [← hshapes, TypeShape.memberShapes_eq_map, List.map_map, hpolicy] at hmembers
      rw [hreads, TypeShape.canonical]
      exact congrArg _ hmembers
  | .pointer pointee space => by
      rw [shape]
      refine (ensures_shape_reads hr pointee).bind fun t r₁ hr₁ _ ht => ?_
      refine (ensures_pointer hr₁ t space).mono ?_
      intro t' r₂ hr₂ hle hgives
      have hreads := hgives.readsAs hr₂
      rwa [TypeKind.shapeWith, (ht.of_le hr₁ hle).2] at hreads
  | .texture t => by
      rw [shape]
      cases ht : t.fault with
      | none => exact (ensures_texture hr ht).mono fun _ _ hr' _ h => h.readsAs hr'
      | some fault => exact Ensures.throw hr _
  | .sampler kind => by
      rw [shape]
      exact (ensures_sampler hr kind).mono fun _ _ hr' _ h => h.readsAs hr'

theorem ensures_memberShapes_read {r : Registry} (hr : r.Sound) :
    (shapes : List (String × TypeShape)) → (memberShapes shapes).Ensures r (ReadAsMembers shapes)
  | [] => Ensures.pure hr ⟨by simp, rfl⟩
  | (name, type) :: rest => by
      rw [memberShapes]
      refine (ensures_shape_reads hr type).bind fun t r₁ hr₁ _ ht => ?_
      refine (ensures_memberShapes_read hr₁ rest).bind ?_
      rintro members' r₂ hr₂ hle ⟨hlt, hshapes⟩
      have ht₂ := ht.of_le hr₁ hle
      refine Ensures.pure hr₂ ⟨fun m hmem => ?_, ?_⟩
      · rcases List.mem_cons.mp hmem with rfl | hmem
        · exact ht₂.1
        · exact hlt m hmem
      · rw [List.map_cons, hshapes, ht₂.2, TypeShape.memberShapes]

end

end Interning

namespace Registry

/-- Two descriptions registered at any two moments give the same type, and types of the same key,
exactly when they have the same canonical shape. The registry of the second moment holds what the
one the first registration left does, whatever was registered or refused since. -/
theorem shape_eq_iff {r₁ r₁' r₂ r₂' : Registry} {d₁ d₂ : TypeShape} {t₁ t₂ : TypeId}
    (hr₁ : r₁.Reachable) (hrun₁ : r₁.run (Interning.shape d₁) = (.ok t₁, r₁'))
    (hr₂ : r₂.Reachable) (hle : r₁' ≤ r₂)
    (hrun₂ : r₂.run (Interning.shape d₂) = (.ok t₂, r₂')) :
    (t₁ = t₂ ↔ d₁.canonical .packed = d₂.canonical .packed) ∧
      (r₂'.key t₁ = r₂'.key t₂ ↔ d₁.canonical .packed = d₂.canonical .packed) := by
  obtain ⟨hsound₁, -, hreads₁⟩ := Interning.ensures_shape_reads hr₁.sound d₁
  obtain ⟨hsound₂, hle₂, hreads₂⟩ := Interning.ensures_shape_reads hr₂.sound d₂
  rw [hrun₁] at hsound₁
  rw [hrun₂] at hsound₂ hle₂
  -- both handles are read in the later registry, where the first still has its shape
  obtain ⟨hlt₁, hshape₁⟩ := (hreads₁ t₁ r₁' hrun₁).of_le hsound₁ (le_trans hle hle₂)
  obtain ⟨hlt₂, hshape₂⟩ := hreads₂ t₂ r₂' hrun₂
  have hsame : t₁ = t₂ ↔ d₁.canonical .packed = d₂.canonical .packed := by
    rw [← hshape₁, ← hshape₂]
    exact ⟨congrArg r₂'.shapeOf, hsound₂.shapeOf_inj hlt₁ hlt₂⟩
  refine ⟨hsame, ?_⟩
  rw [← hsame]
  exact ⟨hsound₂.key_inj t₁ t₂ hlt₁ hlt₂, congrArg r₂'.key⟩

/-- A block under `std140` rules around a packed struct. -/
def lampBlock : TypeShape :=
  .struct (some "Scene") .std140 [("lamp", .struct (some "Lamp") .packed [("power", .scalar .f32)])]

/-- The same block with its rules spelled out and no names. -/
def paddedLampBlock : TypeShape :=
  .struct none .std140 [("lamp", .struct none .std140 [("power", .scalar .f32)])]

/-- The type a description gets, if it is registered. -/
def typeOf? (r : Registry) (d : TypeShape) : Option TypeId := (r.run (Interning.shape d)).1.toOption

/-- A description whose type is registered gives that type. -/
theorem run_of_typeOf? {r : Registry} {d : TypeShape} {t : TypeId} (h : r.typeOf? d = some t) :
    r.run (Interning.shape d) = (.ok t, (r.run (Interning.shape d)).2) :=
  run_of_toOption h

/-- The registry after the first block and a refused struct without members. -/
def lampTypes : Registry :=
  (((empty.run (Interning.shape lampBlock)).2).run (Interning.shape (.struct none .packed []))).2

/-- The second block is the type of the first one. -/
theorem paddedLampBlock_registers_lampBlock :
    ∃ t, empty.typeOf? lampBlock = some t ∧ lampTypes.typeOf? paddedLampBlock = some t := by
  have h₁ : empty.typeOf? lampBlock = some ⟨3⟩ := by decide +kernel
  obtain ⟨t, h₂⟩ : ∃ t, lampTypes.typeOf? paddedLampBlock = some t :=
    Option.isSome_iff_exists.mp (by decide +kernel)
  have hr : (empty.run (Interning.shape lampBlock)).2.Reachable := .shape _ .empty
  have hsame := (shape_eq_iff .empty (run_of_typeOf? h₁) (.shape _ hr)
    (Interning.ensures_shape hr.sound _).2.1 (run_of_typeOf? h₂)).1.mpr rfl
  exact ⟨⟨3⟩, h₁, hsame ▸ h₂⟩

end Registry

end WebShader
