import WebShader.Proofs.ListTraversal
import WebShader.Proofs.StructuralIdentity

/-!
# Added types

A registration only adds the types of what it is asked for. Registering a description, refused or
not, adds types that stand for the descriptions inside of it, their types or `std140` copies of
these, and the type it gives, if it gives one.
-/

namespace WebShader

open Registry (run_bind run_bind_of_ok run_get run_liftM)

/-! ## Parts of descriptions -/

namespace TypeShape

/-- The descriptions that a description is made of. -/
def parts : TypeShape → List TypeShape
  | array element _ => [element]
  | struct _ _ members => members.map (·.2)
  | pointer pointee _ => [pointee]
  | _ => []

/-- A description occurs inside of another one, at any depth. -/
def Inside : TypeShape → TypeShape → Prop := Relation.TransGen fun part d => part ∈ d.parts

/-- A description is another one or occurs inside of it. -/
def Within : TypeShape → TypeShape → Prop := Relation.ReflTransGen fun part d => part ∈ d.parts

/-- A part of a part of a description is inside of the description. -/
theorem Within.inside {part d whole : TypeShape} (h : part.Within d) (hd : d ∈ whole.parts) :
    part.Inside whole :=
  Relation.TransGen.tail' h hd

/-- The parts of a canonical shape are canonical shapes of parts. -/
theorem exists_part_of_canonical {outer : LayoutPolicy} {s d : TypeShape}
    (h : s ∈ (d.canonical outer).parts) : ∃ part ∈ d.parts, ∃ p, s = part.canonical p := by
  cases d with
  | array element n => exact ⟨element, List.mem_cons_self, outer, List.mem_singleton.mp h⟩
  | pointer pointee space =>
      exact ⟨pointee, List.mem_cons_self, .packed, List.mem_singleton.mp h⟩
  | struct name own members =>
      rw [canonical, parts, memberShapes_eq_map, List.map_map] at h
      obtain ⟨m, hm, rfl⟩ := List.mem_map.mp h
      exact ⟨m.2, List.mem_map_of_mem hm, outer.within own, rfl⟩
  | void | primitive | texture | sampler => cases h

/-- What occurs within a canonical shape is the canonical shape of what occurs within. -/
theorem exists_within_of_canonical {s t d : TypeShape} {outer : LayoutPolicy} (h : s.Within t)
    (ht : t = d.canonical outer) :
    ∃ part : TypeShape, part.Within d ∧ ∃ p, s = part.canonical p := by
  induction h generalizing d outer with
  | refl => exact ⟨d, Relation.ReflTransGen.refl, outer, ht⟩
  | tail _ hstep ih =>
      rw [ht] at hstep
      obtain ⟨below, hbelow, p, hs⟩ := exists_part_of_canonical hstep
      obtain ⟨part, hpart, q, rfl⟩ := ih hs
      exact ⟨part, hpart.tail hbelow, q, rfl⟩

/-- The shape of a type that stands for a description: the type that is registered for it, or the
`std140` copy of that type. -/
def StandsFor (d s : TypeShape) : Prop := s = d.canonical .packed ∨ s = d.canonical .std140

/-- The copy of what is read back from a description stands for it. -/
theorem StandsFor.of_canonical (d : TypeShape) (p : LayoutPolicy) :
    d.StandsFor ((d.canonical p).canonical .std140) := by
  right
  rw [canonical_canonical]
  rfl

end TypeShape

/-- A type reads back as made of what its parts read back as. -/
theorem Registry.WellFormed.shapeOf_mem_parts {r : Registry} (hr : r.WellFormed) {t part : TypeId}
    (h : part ∈ (r.kind t).parts) : r.shapeOf part ∈ (r.shapeOf t).parts := by
  rw [hr.shapeOf_eq t]
  cases hk : r.kind t with
  | array element n =>
      rw [hk] at h
      rw [List.mem_singleton.mp h]
      exact List.mem_cons_self
  | pointer pointee space =>
      rw [hk] at h
      rw [List.mem_singleton.mp h]
      exact List.mem_cons_self
  | struct s =>
      rw [hk] at h
      obtain ⟨m, hm, rfl⟩ := List.mem_map.mp h
      rw [TypeKind.shapeWith, TypeShape.parts, List.map_map]
      exact List.mem_map_of_mem (f := fun m => r.shapeOf m.type) hm
  | void | primitive | texture | sampler =>
      rw [hk] at h
      cases h

namespace Interning

variable {α β : Type} {r : Registry}

/-! ## What a registration adds -/

/-- Whatever comes of a registration, it keeps what is registered, and the only type it may have
added is the one it gives. -/
structure AddsResult (act : Interning TypeId) (r : Registry) : Prop where
  le : r ≤ (r.run act).2
  given : ∀ t : TypeId, r.size ≤ t.index → t.index < (r.run act).2.size → (r.run act).1 = .ok t

/-- A registration as ensured. Whatever comes of it, the types it has added read back as told. -/
structure Adds (act : Interning α) (r : Registry) (P : TypeShape → Prop)
    (post : α → Registry → Prop) : Prop where
  ensures : act.Ensures r post
  new : ∀ t : TypeId, r.size ≤ t.index → t.index < (r.run act).2.size → P ((r.run act).2.shapeOf t)

namespace AddsResult

/-- Runs alike add alike. -/
theorem of_run_eq {act act' : Interning TypeId} (hrun : r.run act = r.run act')
    (h : AddsResult act' r) : AddsResult act r := by
  obtain ⟨hle, hgiven⟩ := h
  rw [← hrun] at hle hgiven
  exact ⟨hle, hgiven⟩

/-- A registration that does nothing adds nothing. -/
theorem pure (t : TypeId) : AddsResult (pure t) r :=
  ⟨le_refl r, fun _ ht hlt => absurd hlt (Nat.not_lt.mpr ht)⟩

/-- A registration that fails at once adds nothing. -/
theorem throw (e : ShaderError) : AddsResult (throw e) r :=
  ⟨le_refl r, fun _ ht hlt => absurd hlt (Nat.not_lt.mpr ht)⟩

/-- What goes on from the registry at hand adds what it does from that registry. -/
theorem get_bind {f : Registry → Interning TypeId} (h : AddsResult (f r) r) :
    AddsResult (get >>= f) r :=
  of_run_eq (run_bind_of_ok (run_get r)) h

/-- A check adds nothing to what follows it. -/
theorem liftM_bind {x : Except ShaderError α} {f : α → Interning TypeId}
    (hf : ∀ a, AddsResult (f a) r) : AddsResult (liftM x >>= f) r := by
  cases x with
  | error e => exact throw e
  | ok a => exact of_run_eq (run_bind_of_ok (run_liftM r (.ok a))) (hf a)

/-- A name is found without registering anything. -/
theorem structName_bind (name : Option String) {f : String → Interning TypeId}
    (hf : ∀ given r', AddsResult (f given) r') : AddsResult (structName name >>= f) r := by
  rcases run_structName r name with ⟨e, he⟩ | ⟨given, r', hrun, hentries, -⟩
  · exact of_run_eq (by rw [run_bind, he]; rfl) (throw e)
  · obtain ⟨hle, hgiven⟩ := hf given r'
    have hsize : r'.size = r.size := by rw [Registry.size, hentries, Registry.size]
    have hstart : r ≤ r' := by rw [Registry.le_iff, hentries]
    rw [← run_bind_of_ok hrun] at hle hgiven
    exact ⟨le_trans hstart hle, fun t ht => hgiven t (hsize ▸ ht)⟩

/-- A type that is inserted is the only one that is added. -/
theorem insert (key : String) (kind : TypeKind) : AddsResult (insert key kind) r := by
  unfold Interning.insert
  refine get_bind ?_
  cases hkey : r.withKey? key with
  | some t => exact pure t
  | none =>
      refine ⟨r.le_push key kind, fun t ht hlt => ?_⟩
      have hpush : t.index < (r.push key kind).size := hlt
      rcases Registry.lt_or_eq_of_lt_size_push hpush with hold | rfl
      · omega
      · rfl

/-- An array adds itself at most. -/
theorem array (element : TypeId) (n : Nat) : AddsResult (array element n) r := by
  by_cases hvalid : r.Valid (.array element n)
  · exact of_run_eq (run_array_of_valid hvalid) (insert _ _)
  · obtain ⟨e, he⟩ := run_array_of_not_valid hvalid
    exact of_run_eq he (throw e)

/-- A pointer adds itself at most. -/
theorem pointer (pointee : TypeId) (space : AddressSpace) :
    AddsResult (pointer pointee space) r := by
  unfold Interning.pointer
  refine get_bind ?_
  cases hstorable : (r.kind pointee).isStorable with
  | false => exact throw _
  | true => exact insert _ _

/-- A struct adds itself at most. -/
theorem structOf (name : Option String) (policy : LayoutPolicy) (members : List Member) :
    AddsResult (structOf name policy members) r := by
  unfold Interning.structOf
  refine get_bind (liftM_bind fun _ => ?_)
  dsimp only
  split
  · exact pure _
  · exact structName_bind name fun _ _ => liftM_bind fun _ => insert _ _

end AddsResult

namespace Adds

variable {act : Interning α} {P : TypeShape → Prop} {post : α → Registry → Prop}

/-- What is added may be described more weakly. -/
theorem mono {Q : TypeShape → Prop} (h : Adds act r P post) (himp : ∀ s, P s → Q s) :
    Adds act r Q post := ⟨h.ensures, fun t ht hlt => himp _ (h.new t ht hlt)⟩

/-- A registration that does nothing adds nothing. -/
protected theorem pure (hr : r.Sound) {a : α} (h : post a r) : Adds (pure a) r P post :=
  ⟨Ensures.pure hr h, fun _ ht hlt => absurd hlt (Nat.not_lt.mpr ht)⟩

/-- A registration that fails at once adds nothing. -/
theorem throw (hr : r.Sound) (e : ShaderError) : Adds (throw e : Interning α) r P post :=
  ⟨Ensures.throw hr e, fun _ ht hlt => absurd hlt (Nat.not_lt.mpr ht)⟩

/-- A type that a sequence has added was added by one of its parts, and reads back the same. -/
theorem bind {mid : α → Registry → Prop} {f : α → Interning β} {R : β → Registry → Prop}
    (h : Adds act r P mid)
    (hf : ∀ a r', r'.Sound → r ≤ r' → mid a r' → Adds (f a) r' P R) :
    Adds (act >>= f) r P R := by
  refine ⟨h.ensures.bind fun a r' hr' hle hmid => (hf a r' hr' hle hmid).ensures, ?_⟩
  obtain ⟨⟨hsound, hle, hmid⟩, hnew⟩ := h
  rw [run_bind]
  rcases hrun : r.run act with ⟨e | a, r'⟩
  · rw [hrun] at hnew
    exact hnew
  · rw [hrun] at hsound hle hnew
    obtain ⟨⟨-, hle', -⟩, hnew'⟩ := hf a r' hsound hle (hmid a r' hrun)
    intro t ht hlt
    by_cases hold : t.index < r'.size
    · dsimp only
      rw [hsound.wellFormed.shapeOf_of_le hle' hold]
      exact hnew t ht hold
    · exact hnew' t (Nat.le_of_not_lt hold) hlt

/-- What goes on from the registry at hand adds what it does from that registry. -/
theorem get_bind {f : Registry → Interning β} {post : β → Registry → Prop}
    (h : Adds (f r) r P post) : Adds (get >>= f) r P post := by
  refine ⟨h.ensures.get_bind, ?_⟩
  rw [run_bind_of_ok (run_get r)]
  exact h.new

/-- A check adds nothing to what follows it. -/
theorem liftM_bind {x : Except ShaderError α} {f : α → Interning β} {post : β → Registry → Prop}
    (hr : r.Sound) (h : ∀ a, x = .ok a → Adds (f a) r P post) :
    Adds (liftM x >>= f) r P post := by
  cases x with
  | error e => exact throw hr e
  | ok a =>
      refine ⟨Ensures.liftM_bind hr fun b hb => (h b hb).ensures, ?_⟩
      rw [run_bind_of_ok (run_liftM r (.ok a))]
      exact (h a rfl).new

/-- A list of registrations adds what each of them does. -/
theorem mapM {f : α → Interning β} {as : List α} {post : α → β → Registry → Prop} (hr : r.Sound)
    (hpost : ∀ a b r₁ r₂, r₁.Sound → r₁ ≤ r₂ → post a b r₁ → post a b r₂)
    (hf : ∀ a ∈ as, ∀ r', r'.Sound → r ≤ r' → Adds (f a) r' P (post a)) :
    Adds (as.mapM f) r P fun bs r' => List.Forall₂ (fun a b => post a b r') as bs := by
  induction as generalizing r with
  | nil => exact Adds.pure hr .nil
  | cons a rest ih =>
      rw [List.mapM_cons]
      refine (hf a List.mem_cons_self r hr (le_refl r)).bind fun b r₁ hr₁ hle₁ hb => ?_
      have hrest := ih hr₁ fun a' ha' r' hr' hle' =>
        hf a' (List.mem_cons_of_mem _ ha') r' hr' (le_trans hle₁ hle')
      refine hrest.bind fun bs r₂ hr₂ hle₂ hbs => Adds.pure hr₂ ?_
      exact .cons (hpost a b r₁ r₂ hr₁ hle₂ hb) hbs

/-- Where the last part of a sequence may only add the type it gives, a type that the sequence has
added was added before, or is given by the sequence. -/
theorem new_or_given {mid : α → Registry → Prop} {f : α → Interning TypeId} (h : Adds act r P mid)
    (hf : ∀ a r', AddsResult (f a) r') {t : TypeId} (ht : r.size ≤ t.index)
    (hlt : t.index < (r.run (act >>= f)).2.size) :
    (r.run (act >>= f)).1 = .ok t ∨ P ((r.run (act >>= f)).2.shapeOf t) := by
  obtain ⟨⟨hsound, -, -⟩, hnew⟩ := h
  rw [run_bind] at hlt ⊢
  rcases hact : r.run act with ⟨e | a, r'⟩
  · rw [hact] at hlt hnew
    exact Or.inr (hnew t ht hlt)
  · rw [hact] at hlt hnew hsound
    obtain ⟨hle, hgiven⟩ := hf a r'
    by_cases hold : t.index < r'.size
    · right
      dsimp only
      rw [hsound.wellFormed.shapeOf_of_le hle hold]
      exact hnew t ht hold
    · left
      exact hgiven t (Nat.le_of_not_lt hold) hlt

/-- Where the last part of a sequence may only add the type it gives, and this one reads back as
told, too. -/
theorem last {mid : α → Registry → Prop} {f : α → Interning TypeId}
    {post : TypeId → Registry → Prop} (h : Adds act r P mid)
    (hf : ∀ a r', AddsResult (f a) r') (hensures : (act >>= f).Ensures r post)
    (hpost : ∀ t r', post t r' → P (r'.shapeOf t)) : Adds (act >>= f) r P post := by
  refine ⟨hensures, fun t ht hlt => ?_⟩
  rcases h.new_or_given hf ht hlt with hgiven | hnew
  · exact hpost t _ (hensures.2.2 t _ (Prod.ext hgiven rfl))
  · exact hnew

/-- Runs alike add alike. -/
theorem of_run_eq {act' : Interning α} (hrun : r.run act = r.run act') (h : Adds act' r P post) :
    Adds act r P post := by
  obtain ⟨hensures, hnew⟩ := h
  unfold Ensures at hensures
  rw [← hrun] at hensures hnew
  exact ⟨hensures, hnew⟩

end Adds

/-! ## Copies -/

/-- The shape of the `std140` copy of what occurs within a shape. -/
def IsCopyWithin (whole s : TypeShape) : Prop :=
  ∃ part : TypeShape, part.Within whole ∧ s = part.canonical .std140

/-- A part of a copy is a copy within what the copy is made of. -/
theorem IsCopyWithin.of_mem_parts {part whole s : TypeShape} (h : IsCopyWithin part s)
    (hpart : part ∈ whole.parts) : IsCopyWithin whole s := by
  obtain ⟨inner, hinner, hs⟩ := h
  exact ⟨inner, hinner.tail hpart, hs⟩

/-- A copy as registered: it follows `std140` rules and reads back as the copy of the shape. -/
def IsCopy (s : TypeShape) (t : TypeId) (r : Registry) : Prop :=
  HoldsStd140 r t ∧ ReadsAs (s.canonical .std140) t r

theorem ensures_copy (hr : r.Sound) {t : TypeId} (ht : t.index < r.size) :
    (std140 t).Ensures r (IsCopy (r.shapeOf t)) :=
  (ensures_std140 hr ht).and (ensures_std140_reads hr ht)

/-- A copy is a copy within the type it is made of. -/
theorem IsCopy.isCopyWithin {s : TypeShape} {t : TypeId} {r : Registry} (h : IsCopy s t r) :
    IsCopyWithin s (r.shapeOf t) :=
  ⟨s, Relation.ReflTransGen.refl, h.2.2⟩

/-- Members are copied by copying their types. -/
theorem adds_copies {P : TypeShape → Prop} {shape : Member → TypeShape} {members : List Member}
    (hr : r.Sound) (hm : ∀ m ∈ members, ∀ r', r'.Sound → r ≤ r' →
      Adds (std140 m.type) r' P (IsCopy (shape m))) :
    Adds (members.mapM fun m => return { m with type := ← std140 m.type } : Interning _) r P
      fun members' r' =>
        List.Forall₂ (CopiesMember (fun m => (shape m).canonical .std140) r') members members' := by
  refine Adds.mapM hr (CopiesMember.of_le _) fun m hmem r₁ hr₁ hle => ?_
  refine (hm m hmem r₁ hr₁ hle).bind fun t r₂ hr₂ _ ht => ?_
  exact Adds.pure hr₂ ⟨⟨rfl, ht.1⟩, rfl, ht.2⟩

/-- A copy of an array is an array of copies. -/
theorem run_std140_of_array (hr : r.WellFormed) {t element : TypeId} {n : Nat}
    (hk : r.kind t = .array element n) :
    r.run (std140 t) = r.run (std140 element >>= fun element => array element n) := by
  have hdown := hr t element (by rw [hk]; exact List.mem_cons_self)
  rw [std140, run_bind_of_ok (run_get r), hk]
  dsimp only
  rw [if_pos hdown]

/-- A copy of a packed struct is a struct of copies. -/
theorem run_std140_of_packed (hr : r.WellFormed) {t : TypeId} {s : StructType}
    (hk : r.kind t = .struct s) (hpolicy : s.policy = .packed) :
    r.run (std140 t) = r.run ((do
      checkIdentifier (s.name ++ "_std140")
      s.members.mapM fun m => return { m with type := ← std140 m.type } : Interning _) >>=
        structOf (some (s.name ++ "_std140")) .std140) := by
  have hmembers : (s.members.mapM fun m =>
      if m.type.index < t.index then return { m with type := ← std140 m.type } else return m :
      Interning _) = s.members.mapM fun m => return { m with type := ← std140 m.type } := by
    refine mapM_congr_left fun m hm => ?_
    rw [if_pos (hr t m.type (by rw [hk]; exact List.mem_map_of_mem hm))]
  rw [std140, run_bind_of_ok (run_get r), hk]
  dsimp only
  rw [if_pos hpolicy, hmembers, bind_assoc]

/-- Copying a type adds copies of what occurs within it. -/
theorem adds_std140 {r : Registry} (hr : r.Sound) {t : TypeId} (ht : t.index < r.size) :
    Adds (std140 t) r (IsCopyWithin (r.shapeOf t)) (IsCopy (r.shapeOf t)) := by
  have hwf := hr.wellFormed
  have hensures := ensures_copy hr ht
  have hgiven : ∀ t' r', IsCopy (r.shapeOf t) t' r' → IsCopyWithin (r.shapeOf t) (r'.shapeOf t') :=
    fun _ _ h => h.isCopyWithin
  have hself : r.run (std140 t) = (.ok t, r) →
      Adds (std140 t) r (IsCopyWithin (r.shapeOf t)) (IsCopy (r.shapeOf t)) := by
    intro hrun
    refine ⟨hensures, fun u hu hlt => ?_⟩
    rw [hrun] at hlt
    exact absurd hlt (Nat.not_lt.mpr hu)
  -- what is added for a part is added for the type, which reads back as the shapes of its parts
  have hpart : ∀ part ∈ (r.kind t).parts, ∀ r', r'.Sound → r ≤ r' →
      Adds (std140 part) r' (IsCopyWithin (r.shapeOf t)) (IsCopy (r.shapeOf part)) := by
    intro part hmem r' hr' hle
    have hdown := hwf t part hmem
    have hlt := hr.part_lt_size hmem
    have hcopies := adds_std140 hr' (Nat.lt_of_lt_of_le hlt (Registry.size_le_of_le hle))
    rw [hwf.shapeOf_of_le hle hlt] at hcopies
    exact hcopies.mono fun s hs => hs.of_mem_parts (hwf.shapeOf_mem_parts hmem)
  cases hk : r.kind t with
  | array element n =>
      have hrun := run_std140_of_array hwf hk
      unfold Ensures at hensures
      rw [hrun] at hensures
      refine Adds.of_run_eq hrun ((hpart element ?_ r hr (le_refl r)).last
        (fun element' _ => .array element' n) hensures hgiven)
      rw [hk]
      exact List.mem_cons_self
  | struct s =>
      by_cases hpolicy : s.policy = .packed
      · have hrun := run_std140_of_packed hwf hk hpolicy
        unfold Ensures at hensures
        rw [hrun] at hensures
        have hmembers : ∀ m ∈ s.members, ∀ r', r'.Sound → r ≤ r' →
            Adds (std140 m.type) r' (IsCopyWithin (r.shapeOf t)) (IsCopy (r.shapeOf m.type)) :=
          fun m hm => hpart m.type (by rw [hk]; exact List.mem_map_of_mem hm)
        have hcopies := Adds.liftM_bind hr
          fun _ (_ : checkIdentifier (s.name ++ "_std140") = .ok _) => adds_copies hr hmembers
        refine Adds.of_run_eq hrun (hcopies.last ?_ hensures hgiven)
        exact fun members' _ => .structOf _ _ members'
      · refine hself ?_
        rw [std140, run_bind_of_ok (run_get r), hk]
        dsimp only
        rw [if_neg hpolicy]
        rfl
  | void | primitive | pointer | texture | sampler =>
      refine hself ?_
      rw [std140, run_bind_of_ok (run_get r), hk]
      rfl
termination_by t.index

/-! ## Structs -/

/-- The members of a struct as they are registered, after the checks of the name and their
number. -/
def structMembers (name : Option String) (policy : LayoutPolicy) (members : List Member) :
    Interning (List Member) := do
  if let some name := name then checkIdentifier name
  if members.isEmpty then throw (.declaration .emptyStruct)
  match policy with
  | .packed => return members
  | .std140 => members.mapM fun m => return { m with type := ← std140 m.type }

/-- A struct is registered after its members. -/
theorem struct_eq (name : Option String) (policy : LayoutPolicy) (members : List Member) :
    struct name policy members = structMembers name policy members >>= structOf name policy := by
  unfold struct structMembers
  cases name <;> cases policy <;> cases members <;> simp [bind_assoc]

/-- The members of a struct as they are registered add copies of what occurs within their types. -/
theorem adds_structMembers (hr : r.Sound) (name : Option String) (policy : LayoutPolicy)
    {members : List Member} (hm : ∀ m ∈ members, m.type.index < r.size) {P : TypeShape → Prop}
    (hP : ∀ m ∈ members, ∀ s, IsCopyWithin (r.shapeOf m.type) s → P s) :
    Adds (structMembers name policy members) r P fun _ _ => True := by
  have htypes : ∀ m ∈ members, ∀ r', r'.Sound → r ≤ r' →
      Adds (std140 m.type) r' P (IsCopy (r.shapeOf m.type)) := by
    intro m hmem r' hr' hle
    have hlt := hm m hmem
    have hstd := adds_std140 hr' (Nat.lt_of_lt_of_le hlt (Registry.size_le_of_le hle))
    rw [hr.wellFormed.shapeOf_of_le hle hlt] at hstd
    exact hstd.mono (hP m hmem)
  have hcopies := adds_copies hr htypes
  have hlast : Adds (do
      if members.isEmpty then throw (.declaration .emptyStruct)
      match policy with
      | .packed => return members
      | .std140 => members.mapM fun m => return { m with type := ← std140 m.type } :
      Interning (List Member)) r P fun _ _ => True := by
    cases members with
    | nil => exact .throw hr _
    | cons m rest =>
        cases policy with
        | packed => exact .pure hr trivial
        | std140 => exact ⟨hcopies.ensures.mono fun _ _ _ _ _ => trivial, hcopies.new⟩
  unfold structMembers
  cases name with
  | none => exact hlast
  | some name => exact .liftM_bind hr fun _ _ => hlast

/-! ## Descriptions -/

/-- The shape of a type that stands for what occurs within a description. -/
def IsOf (d s : TypeShape) : Prop := ∃ part : TypeShape, part.Within d ∧ part.StandsFor s

/-- The shape of a type that stands for what occurs inside of a description. -/
def IsInside (d s : TypeShape) : Prop := ∃ part : TypeShape, part.Inside d ∧ part.StandsFor s

/-- What describes a part of a description is inside of the description. -/
theorem IsOf.isInside {d part s : TypeShape} (h : IsOf part s) (hpart : part ∈ d.parts) :
    IsInside d s := by
  obtain ⟨inner, hinner, hs⟩ := h
  exact ⟨inner, hinner.inside hpart, hs⟩

/-- The copies of what occurs within the type of a description. -/
theorem IsCopyWithin.isOf {d s : TypeShape} {outer : LayoutPolicy}
    (h : IsCopyWithin (d.canonical outer) s) : IsOf d s := by
  obtain ⟨part, hpart, rfl⟩ := h
  obtain ⟨inner, hinner, p, rfl⟩ := TypeShape.exists_within_of_canonical hpart rfl
  exact ⟨inner, hinner, .of_canonical inner p⟩

/-- Whatever comes of the registration of a description, a type that it has added is the one that is
given or stands for what occurs inside of the description. -/
def AddsInside (d : TypeShape) (r : Registry) : Prop :=
  ∀ t : TypeId, r.size ≤ t.index → t.index < (r.run (shape d)).2.size →
    (r.run (shape d)).1 = .ok t ∨ IsInside d ((r.run (shape d)).2.shapeOf t)

/-- A description is read back from what it is registered as. -/
theorem AddsInside.adds {d : TypeShape} (hr : r.Sound) (h : AddsInside d r) :
    Adds (shape d) r (IsOf d) (ReadsAs (d.canonical .packed)) := by
  have hensures := ensures_shape_reads hr d
  refine ⟨hensures, fun t ht hlt => ?_⟩
  rcases h t ht hlt with hgiven | ⟨part, hpart, hs⟩
  · have hreads := hensures.2.2 t _ (Prod.ext hgiven rfl)
    exact ⟨d, Relation.ReflTransGen.refl, Or.inl hreads.2⟩
  · exact ⟨part, hpart.to_reflTransGen, hs⟩

/-- A description is registered after a part of it. -/
theorem addsInside_of_part {d part : TypeShape} {f : TypeId → Interning TypeId}
    (heq : shape d = shape part >>= f) (hf : ∀ a r', AddsResult (f a) r') (hpart : part ∈ d.parts)
    (h : Adds (shape part) r (IsOf part) (ReadsAs (part.canonical .packed))) : AddsInside d r := by
  intro t ht hlt
  rw [heq] at hlt ⊢
  exact (h.mono fun s hs => hs.isInside hpart).new_or_given hf ht hlt

/-- A struct is registered after its members and the copies that its rules ask for. -/
theorem shape_struct_eq (name : Option String) (policy : LayoutPolicy)
    (members : List (String × TypeShape)) : shape (.struct name policy members) =
      (do structMembers name policy (← memberShapes members)) >>= structOf name policy := by
  rw [shape, bind_assoc]
  exact bind_congr fun members => struct_eq name policy members

/-- The types of members that are described add copies of what occurs within the descriptions. -/
theorem adds_structMembers_of_read {described : List (String × TypeShape)} (hr : r.Sound)
    (name : Option String) (policy : LayoutPolicy) {members : List Member}
    (h : ReadAsMembers described members r) :
    Adds (structMembers name policy members) r
      (fun s => ∃ d ∈ described.map (·.2), IsOf d s) fun _ _ => True := by
  obtain ⟨hlt, hshapes⟩ := h
  rw [TypeShape.memberShapes_eq_map] at hshapes
  refine adds_structMembers hr name policy hlt fun m hm s hs => ?_
  have hmem : (m.name, r.shapeOf m.type) ∈
      described.map fun m => (m.1, m.2.canonical .packed) := by
    rw [← hshapes]
    exact List.mem_map_of_mem hm
  obtain ⟨m', hm', heq⟩ := List.mem_map.mp hmem
  rw [← (Prod.mk.inj heq).2] at hs
  exact ⟨m'.2, List.mem_map_of_mem hm', hs.isOf⟩

mutual

/-- By the recursion of the registration: a part is registered first, and what is done with it then
may only add the type that is given. -/
theorem addsInside {r : Registry} (hr : r.Sound) : (d : TypeShape) → AddsInside d r
  | .void => fun t ht hlt => Or.inl ((AddsResult.insert _ _).given t ht hlt)
  | .primitive p => by
      have hadds : AddsResult (shape (.primitive p)) r := by
        rw [shape]
        cases p.fault with
        | none => exact .insert _ _
        | some fault => exact .throw _
      exact fun t ht hlt => Or.inl (hadds.given t ht hlt)
  | .array element n =>
      addsInside_of_part (by rw [shape]) (fun t _ => .array t n) List.mem_cons_self
        ((addsInside hr element).adds hr)
  | .pointer pointee space =>
      addsInside_of_part (by rw [shape]) (fun t _ => .pointer t space) List.mem_cons_self
        ((addsInside hr pointee).adds hr)
  | .struct name policy members => by
      intro t ht hlt
      rw [shape_struct_eq] at hlt ⊢
      -- the members are registered first, and then promoted and put into the struct
      have hmembers := (adds_memberShapes hr members).bind fun members' r₁ hr₁ _ hread =>
        adds_structMembers_of_read hr₁ name policy hread
      have hinside := hmembers.mono fun s ⟨d, hd, hs⟩ =>
        hs.isInside (d := .struct name policy members) hd
      exact hinside.new_or_given (fun members' _ => .structOf name policy members') ht hlt
  | .texture t => by
      have hadds : AddsResult (shape (.texture t)) r := by
        rw [shape]
        cases t.fault with
        | none => exact .insert _ _
        | some fault => exact .throw _
      exact fun t ht hlt => Or.inl (hadds.given t ht hlt)
  | .sampler kind => by
      have hadds : AddsResult (shape (.sampler kind)) r := by
        rw [shape]
        exact .insert _ _
      exact fun t ht hlt => Or.inl (hadds.given t ht hlt)

/-- The types of members are registered in the order of the members. -/
theorem adds_memberShapes {r : Registry} (hr : r.Sound) :
    (members : List (String × TypeShape)) →
      Adds (memberShapes members) r (fun s => ∃ d ∈ members.map (·.2), IsOf d s)
        (ReadAsMembers members)
  | [] => .pure hr ⟨by simp, rfl⟩
  | (name, type) :: rest => by
      have hensures := ensures_memberShapes_read hr ((name, type) :: rest)
      rw [memberShapes] at hensures ⊢
      have htype := ((addsInside hr type).adds hr).mono
        (Q := fun s => ∃ d ∈ ((name, type) :: rest).map (·.2), IsOf d s)
        fun s hs => ⟨type, List.mem_cons_self, hs⟩
      refine ⟨hensures, (htype.bind (R := fun _ _ => True) fun t r₁ hr₁ _ _ => ?_).new⟩
      have hrest := (adds_memberShapes hr₁ rest).mono
        (Q := fun s => ∃ d ∈ ((name, type) :: rest).map (·.2), IsOf d s)
        fun s ⟨d, hd, hs⟩ => ⟨d, List.mem_cons_of_mem _ hd, hs⟩
      exact hrest.bind fun members' r₂ hr₂ _ _ => .pure hr₂ trivial

end

end Interning

end WebShader
