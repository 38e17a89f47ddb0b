import WebShader.Proofs.BindingOrder
import WebShader.Proofs.Repeatable

/-!
# Partition of the uniforms

A plan puts each uniform of a program in one block, once, and each other resource in a record of
its own. All the stages that declare a name see it, and no other.
-/

namespace WebShader

open Registry (run_bind_eq_ok_iff)
open Interning (Ensures SettledCopy)

namespace Binding

/-! ## What a record holds -/

/-- The members of the block that a record holds. -/
def Record.members (r : Registry) (b : Record) : List Member :=
  match b.content.block?.bind r.struct? with
  | some st => st.members
  | none => []

/-- What the record of its own of a resource holds is what the resource was declared as. -/
inductive Holds (r : Registry) (d : Variable) : Content → Prop
  | texture {g : UInt32} {t : TextureType} :
      d.role = .texture g → r.texture? d.type = some t → Holds r d (.texture t)
  | sampler {g : UInt32} {kind : SamplerKind} :
      d.role = .sampler g → r.kind d.type = .sampler kind → Holds r d (.sampler kind)
  | storage {g : UInt32} {readOnly : Bool} :
      d.role = .storage g readOnly → Holds r d (.storageBuffer d.type readOnly)

/-- Every declaration of a name, from whichever stage, is bound to the record, and these stages
see it. -/
structure BoundTo (p : Plan) (ds : Declarations) (name : String) (b : Record) : Prop where
  mem : b ∈ p.records
  record : ∀ x ∈ ds, x.2.name = name → p.recordOf? x.1 = some b
  seen : SeenFrom ds name b.visibility

/-- The resources of a program are shared out among the records of its plan. A uniform is a member
of one block, once, with its copy under `std140` rules; any other resource has a record of its
own. -/
structure Plan.Partitions (p : Plan) (r : Registry) (ds : Declarations) : Prop where
  uniform : ∀ v d g, (v, d) ∈ ds → d.role = .uniform g → ∃ b t, BoundTo p ds d.name b ∧
    b.group = g ∧ r.run (Interning.std140 d.type) = (.ok t, r) ∧ ⟨d.name, t⟩ ∈ b.members r ∧
    (p.records.flatMap (·.members r)).filter (·.name == d.name) = [⟨d.name, t⟩]
  blocks : (p.records.filter (·.content.block?.isSome)).Pairwise fun a b =>
    ¬(a.visibility = b.visibility ∧ a.group = b.group)
  members : ∀ b ∈ p.records, ∀ m ∈ b.members r, BoundTo p ds m.name b ∧
    (∃ x ∈ ds, x.2.name = m.name) ∧ ∀ x ∈ ds, x.2.name = m.name → x.2.role = .uniform b.group
  own : ∀ v d, (v, d) ∈ ds → d.role.isUniform = false → ∃ b, BoundTo p ds d.name b ∧
    d.role.group? = some b.group ∧ Holds r d b.content ∧
    p.records.filter (fun c => c.content.block?.isNone && c.name == d.name) = [b]

/-! ## Types of records -/

/-- The content of a record agrees with the registered types of the resources bound to it. -/
inductive Typed (all : List Shared) (r : Registry) (b : Record) : Prop
  | block {t : TypeId} {st : StructType} : b.content = .uniformBlock t → t.index < r.size →
      r.kind t = .struct st → List.Forall₂ (SettledCopy r)
        ((blockMembers all b.visibility b.group).map fun m => ⟨m.name, m.type⟩) st.members →
      Typed all r b
  | texture {t : TextureType} {s : Shared} : b.content = .texture t → s ∈ all →
      s.name = b.name → s.type.index < r.size → r.kind s.type = .texture t → Typed all r b
  | sampler {kind : SamplerKind} {s : Shared} : b.content = .sampler kind → s ∈ all →
      s.name = b.name → s.type.index < r.size → r.kind s.type = .sampler kind → Typed all r b
  | storage {t : TypeId} {readOnly : Bool} : b.content = .storageBuffer t readOnly → Typed all r b
  | generated {kind : SamplerKind} : b.content = .sampler kind → b.isGenerated = true →
      Typed all r b

section Types

variable {target : Target} {all : List Shared} {r r' : Registry} {p : Plan} {s : Shared}
  {b : Record}

/-- A record stays typed as the registry grows. -/
theorem Typed.of_le (h : Typed all r b) (hr : r.Sound) (hle : r ≤ r') : Typed all r' b := by
  cases h with
  | block hb ht hk hmembers =>
      refine .block hb (Nat.lt_of_lt_of_le ht (Registry.size_le_of_le hle))
        ((Registry.kind_eq_of_le hle ht).trans hk) ?_
      exact hmembers.imp fun m m' h => h.of_le m m' r r' hr hle
  | texture hb hs hname hlt hk =>
      exact .texture hb hs hname (Nat.lt_of_lt_of_le hlt (Registry.size_le_of_le hle))
        ((Registry.kind_eq_of_le hle hlt).trans hk)
  | sampler hb hs hname hlt hk =>
      exact .sampler hb hs hname (Nat.lt_of_lt_of_le hlt (Registry.size_le_of_le hle))
        ((Registry.kind_eq_of_le hle hlt).trans hk)
  | storage hb => exact .storage hb
  | generated hb hgenerated => exact .generated hb hgenerated

/-- The types of the records of a plan hold in larger registries too. -/
theorem typed_of_le (h : ∀ b ∈ p.records, Typed all r b) (hr : r.Sound) (hle : r ≤ r') :
    ∀ b ∈ p.records, Typed all r' b :=
  fun b hb => (h b hb).of_le hr hle

/-- A typed record can be added to typed records. -/
theorem typed_add (h : ∀ b ∈ p.records, Typed all r b) {name : String} {g : UInt32}
    {visibility : Visibility} {content : Content} {vars : List VarId}
    {texture : Option (List VarId)}
    (hb : Typed all r ⟨name, g, p.nextIndex g, visibility, content, vars, texture⟩) :
    ∀ b ∈ (p.add name g visibility content vars texture).records, Typed all r b := by
  intro b hmem
  rcases List.mem_append.mp hmem with hmem | hmem
  · exact h b hmem
  · rw [List.mem_singleton.mp hmem]
    exact hb

/-- Binding a resource registers the type of its record. -/
theorem ensures_bind (hr : r.Sound) (hall : ∀ s ∈ all, s.type.index < r.size)
    (hp : ∀ b ∈ p.records, Typed all r b) (hs : s ∈ all) :
    (bind target all p s).Ensures r fun p' r' => ∀ b ∈ p'.records, Typed all r' b := by
  unfold bind
  cases hrole : s.role with
  | uniform g =>
      dsimp only
      unfold bindUniform
      by_cases hany : p.records.any (·.isBlock s.visibility g) = true
      · rw [if_pos hany]
        exact Ensures.pure hr hp
      · rw [if_neg hany]
        have hmembers : ∀ m ∈ (blockMembers all s.visibility g).map
            fun m => (⟨m.name, m.type⟩ : Member), m.type.index < r.size := by
          intro m hm
          obtain ⟨s', hs', rfl⟩ := List.mem_map.mp hm
          exact hall s' (List.mem_of_mem_filter hs')
        -- the members of the block are promoted, and the struct may be an older one of the same
        -- members
        have htype := (Interning.ensures_struct hr (some ("UBlock_" ++ blockSuffix s.visibility g))
          .std140 hmembers).and (Interning.ensures_struct_std140 hr _ hmembers)
        refine htype.bind ?_
        rintro t r₁ hr₁ hle ⟨⟨ht, -⟩, st, hk, -, hcopies⟩
        exact Ensures.pure hr₁ (typed_add (typed_of_le hp hr hle) (.block rfl ht hk hcopies))
  | texture g =>
      dsimp only
      unfold bindTexture
      refine Ensures.get_bind ?_
      cases hk : r.kind s.type with
      | texture t =>
          have ht : r.texture? s.type = some t := by rw [Registry.texture?, hk]
          have hadd : ∀ b ∈ (p.add s.name g s.visibility (.texture t) s.vars).records,
              Typed all r b := typed_add hp (.texture rfl hs rfl (hall s hs) hk)
          rw [ht]
          dsimp only
          -- WGSL has a sampler of its own for each texture
          split_ifs with htarget hclash
          · exact Ensures.pure hr hadd
          · exact Ensures.throw hr _
          · exact Ensures.pure hr (typed_add hadd (.generated rfl rfl))
      | void | primitive | array | struct | pointer | sampler =>
          rw [Registry.texture?, hk]
          exact Ensures.throw hr _
  | sampler g =>
      refine Ensures.get_bind ?_
      cases hk : r.kind s.type with
      | sampler kind =>
          exact Ensures.pure hr (typed_add hp (.sampler rfl hs rfl (hall s hs) hk))
      | void | primitive | array | struct | pointer | texture => exact Ensures.throw hr _
  | storage g readOnly => exact Ensures.pure hr (typed_add hp (.storage rfl))
  | localVar | param | constant | workgroup | input | output => exact Ensures.throw hr _

theorem ensures_bindAll {rest : List Shared} (hr : r.Sound)
    (hall : ∀ s ∈ all, s.type.index < r.size) (hp : ∀ b ∈ p.records, Typed all r b)
    (hrest : ∀ s ∈ rest, s ∈ all) :
    (bindAll target all rest p).Ensures r fun p' r' => ∀ b ∈ p'.records, Typed all r' b := by
  induction rest generalizing r p with
  | nil => exact Ensures.pure hr hp
  | cons s rest ih =>
      rw [bindAll]
      refine (ensures_bind hr hall hp (hrest s List.mem_cons_self)).bind ?_
      intro p₁ r₁ hr₁ hle hp₁
      exact ih hr₁ (fun s' hs' => Nat.lt_of_lt_of_le (hall s' hs') (Registry.size_le_of_le hle))
        hp₁ fun s' hs' => hrest s' (List.mem_cons_of_mem _ hs')

/-- The records of a plan have contents that agree with the registered types. -/
theorem typed_of_gathers {vars : Array Variable} {stages : List BuiltStage} (hr : r.Sound)
    (htypes : ∀ x ∈ declarations vars stages, x.2.type.index < r.size)
    (hgathers : Gathers (declarations vars stages) all)
    (hbind : r.run (bindAll target all all {}) = (.ok p, r')) :
    r'.Sound ∧ ∀ b ∈ p.records, Typed all r' b := by
  have hall : ∀ s ∈ all, s.type.index < r.size := by
    intro s hs
    obtain ⟨x, hx, hname⟩ := hgathers.exists_declaration hs
    rw [← (hgathers.agree s hs x hx hname).1]
    exact htypes x hx
  have hensures : (bindAll target all all {}).Ensures r fun p' r' =>
      ∀ b ∈ p'.records, Typed all r' b :=
    ensures_bindAll hr hall (by simp) fun s hs => hs
  have hsound := hensures.1
  rw [hbind] at hsound
  exact ⟨hsound, hensures.2.2 p r' hbind⟩

end Types

/-! ## Shares -/

section Shares

variable {target : Target} {vars : Array Variable} {stages : List BuiltStage}
  {all : List Shared} {r : Registry} {p : Plan} {s : Shared} {b : Record}

/-- The other records of a plan than the owner of a resource do not own it. -/
theorem Built.exists_split (h : Built target all all p.records)
    (hnodup : (all.map (·.name)).Nodup) (hb : b ∈ p.records) (howns : b.Owns s) :
    ∃ before after, p.records = before ++ b :: after ∧ ∀ c ∈ before ++ after, ¬c.Owns s := by
  have hpairwise := h.owners_disjoint hnodup
  obtain ⟨before, after, hrecords⟩ := List.append_of_mem hb
  rw [hrecords] at hpairwise
  obtain ⟨-, hafter, hbefore⟩ := List.pairwise_append.mp hpairwise
  refine ⟨before, after, hrecords, ?_⟩
  intro c hc
  rcases List.mem_append.mp hc with hc | hc
  · intro hown
    exact hbefore c hc b List.mem_cons_self s hown howns
  · exact (List.pairwise_cons.mp hafter).1 c hc s howns

/-- A member of a record is the copy of a uniform bound to it. -/
theorem Built.owns_of_member (h : Built target all all p.records) (hb : b ∈ p.records)
    (htyped : Typed all r b) {m : Member} (hm : m ∈ b.members r) :
    ∃ s ∈ all, b.Owns s ∧ s.name = m.name ∧ s.role = .uniform b.group ∧
      Interning.Settled (Interning.std140 s.type) m.type r := by
  unfold Record.members at hm
  cases htyped with
  | @block t st hcontent ht hk hmembers =>
      have hm : m ∈ st.members := by
        simpa [hcontent, Content.block?, Registry.struct?, hk] using hm
      obtain ⟨m', hm', hname, hsettled⟩ := exists_mem_of_forall₂ hmembers m hm
      obtain ⟨s, hs, rfl⟩ := List.mem_map.mp hm'
      have hmember : s ∈ all ∧ s.role = .uniform b.group ∧ s.visibility = b.visibility := by
        simpa [blockMembers] using hs
      have hblock : b.content.block?.isSome = true := by rw [hcontent]; rfl
      refine ⟨s, hmember.1, ⟨h.texture_of_block hb hblock, Or.inl ⟨b.group, hmember.2.1, ?_⟩⟩,
        hname.symm, hmember.2.1, hsettled⟩
      exact Record.isBlock_iff.mpr ⟨hblock, hmember.2.2.symm, rfl⟩
  | texture hcontent | sampler hcontent | storage hcontent | generated hcontent =>
      rw [hcontent] at hm
      cases hm

/-- A uniform is a member of its block once, by its copy. -/
theorem Typed.member_of_owns (htyped : Typed all r b) (hnodup : (all.map (·.name)).Nodup)
    (hs : s ∈ all) (howns : b.Owns s) {g : UInt32} (hrole : s.role = .uniform g) :
    ∃ t, Interning.Settled (Interning.std140 s.type) t r ∧
      (b.members r).filter (·.name == s.name) = [⟨s.name, t⟩] := by
  have hblock : b.isBlock s.visibility g = true := by
    rcases howns.2 with ⟨g', hrole', hblock⟩ | ⟨huniform, -⟩
    · rw [hrole] at hrole'
      rw [Role.uniform.inj hrole']
      exact hblock
    · rw [hrole] at huniform
      cases huniform
  obtain ⟨hsome, hvisibility, hgroup⟩ := Record.isBlock_iff.mp hblock
  -- only a block has members, and the uniforms of its partition and group are these
  cases htyped with
  | @block t st hcontent ht hk hmembers =>
      have hmem : s ∈ blockMembers all b.visibility b.group := by
        simp [blockMembers, hs, hrole, hvisibility, hgroup]
      obtain ⟨m, hm, hcopy⟩ := exists_result_of_forall₂ hmembers _ (List.mem_map_of_mem hmem)
      obtain ⟨hname, hsettled⟩ : m.name = s.name ∧
          Interning.Settled (Interning.std140 s.type) m.type r := hcopy
      have hnames : st.members.map (·.name) =
          (blockMembers all b.visibility b.group).map (·.name) := by
        rw [Interning.names_of_forall₂ (fun _ _ h => h.1) hmembers, List.map_map]
        rfl
      have hunique : (st.members.map (·.name)).Nodup := by
        rw [hnames]
        exact hnodup.sublist (List.filter_sublist.map _)
      refine ⟨m.type, hsettled, ?_⟩
      have hmembers' : b.members r = st.members := by
        simp [Record.members, hcontent, Content.block?, Registry.struct?, hk]
      rw [hmembers', ← hname]
      exact filter_key_eq hunique hm
  | texture hcontent | sampler hcontent | storage hcontent | generated hcontent =>
      rw [hcontent] at hsome
      cases hsome

/-- No two blocks are seen from the same stages in the same group. -/
theorem Built.blocks_pairwise (h : Built target all all p.records)
    (hnodup : (all.map (·.name)).Nodup) :
    (p.records.filter (·.content.block?.isSome)).Pairwise fun a b =>
      ¬(a.visibility = b.visibility ∧ a.group = b.group) := by
  refine ((h.owners_disjoint hnodup).filter _).imp_of_mem ?_
  rintro a b ha hb hdisjoint ⟨hvisibility, hgroup⟩
  obtain ⟨ha, hablock⟩ := List.mem_filter.mp ha
  obtain ⟨hb, hbblock⟩ := List.mem_filter.mp hb
  rcases h.origin ha with ⟨s, -, hmakes⟩ | ⟨_, -, _, -, -, hsampler, -⟩
  · refine hdisjoint s hmakes.owns ?_
    cases hmakes with
    | block index type hrole =>
        refine ⟨h.texture_of_block hb hbblock, Or.inl ⟨_, hrole, ?_⟩⟩
        exact Record.isBlock_iff.mpr ⟨hbblock, hvisibility.symm, hgroup.symm⟩
    | own index hfits =>
        rw [show Content.block? _ = none from hfits.block?] at hablock
        cases hablock
  · obtain ⟨-, t, -, rfl⟩ := Record.sampler?_eq_some hsampler
    cases hablock

/-- The owner of a resource is the record that its declarations are bound to. -/
theorem Built.boundTo (h : Built target all all p.records)
    (hgathers : Gathers (declarations vars stages) all) (hs : s ∈ all) (hb : b ∈ p.records)
    (howns : b.Owns s) : BoundTo p (declarations vars stages) s.name b := by
  refine ⟨hb, ?_, ?_⟩
  · intro x hx hname
    have hv := (hgathers.mem_vars_iff hs).mpr ⟨x.2, hx, hname⟩
    exact h.recordOf?_eq hgathers hs hv hb howns
  · have hvisibility : b.visibility = s.visibility := by
      cases h.makes (fun _ h => h) hgathers.nodup hs hb howns <;> rfl
    rw [hvisibility]
    exact hgathers.seen s hs

/-- The members of all the records that have the name of a uniform are those of its block. -/
theorem Built.members_filter (h : Built target all all p.records)
    (hnodup : (all.map (·.name)).Nodup) (htyped : ∀ b ∈ p.records, Typed all r b) (hs : s ∈ all)
    (hb : b ∈ p.records) (howns : b.Owns s) :
    (p.records.flatMap (·.members r)).filter (·.name == s.name) =
      (b.members r).filter (·.name == s.name) := by
  obtain ⟨before, after, hrecords, hother⟩ := h.exists_split hnodup hb howns
  have hnone : ∀ c ∈ before ++ after, (c.members r).filter (·.name == s.name) = [] := by
    intro c hc
    rw [List.filter_eq_nil_iff]
    intro m hm heq
    have hc' : c ∈ p.records := by
      rw [hrecords]
      rcases List.mem_append.mp hc with hc | hc
      · exact List.mem_append_left _ hc
      · exact List.mem_append_right _ (List.mem_cons_of_mem _ hc)
    obtain ⟨s', hs', howns', hname, -⟩ := h.owns_of_member hc' (htyped c hc') hm
    obtain rfl : s' = s :=
      List.inj_on_of_nodup_map hnodup hs' hs (by rw [hname]; simpa using heq)
    exact hother c hc howns'
  have hflat : ∀ cs : List Record, (∀ c ∈ cs, (c.members r).filter (·.name == s.name) = []) →
      (cs.flatMap (·.members r)).filter (·.name == s.name) = [] := by
    intro cs hcs
    rw [List.filter_flatMap, List.flatMap_eq_nil_iff]
    exact hcs
  rw [hrecords, List.flatMap_append, List.flatMap_cons, List.filter_append, List.filter_append,
    hflat before fun c hc => hnone c (List.mem_append_left _ hc),
    hflat after fun c hc => hnone c (List.mem_append_right _ hc)]
  simp

/-- A record of its own is the only one without members that has the name of its resource. -/
theorem Built.own_filter (h : Built target all all p.records)
    (hnodup : (all.map (·.name)).Nodup) (hs : s ∈ all) (hb : b ∈ p.records) (howns : b.Owns s)
    (huniform : s.role.isUniform = false) :
    p.records.filter (fun c => c.content.block?.isNone && c.name == s.name) = [b] := by
  obtain ⟨before, after, hrecords, hother⟩ := h.exists_split hnodup hb howns
  rw [hrecords]
  apply filter_eq_singleton
  · rcases howns.2 with ⟨g, hrole, -⟩ | ⟨-, hnone, hname⟩
    · rw [hrole] at huniform
      cases huniform
    · simp [hnone, hname]
  · intro c hc
    have hc' : c ∈ p.records := by
      rw [hrecords]
      rcases List.mem_append.mp hc with hc | hc
      · exact List.mem_append_left _ hc
      · exact List.mem_append_right _ (List.mem_cons_of_mem _ hc)
    rw [Bool.eq_false_iff]
    intro htest
    obtain ⟨hnone, hname⟩ : c.content.block? = none ∧ c.name = s.name := by simpa using htest
    rcases h.origin hc' with ⟨s', -, hmakes⟩ | ⟨s', -, b', -, -, -, hclash⟩
    · exact hother c hc ⟨hmakes.texture, Or.inr ⟨huniform, hnone, hname⟩⟩
    · exact hclash s hs hname.symm

/-- A record of its own holds what its resource was declared as. -/
theorem Built.holds (h : Built target all all p.records) (hnodup : (all.map (·.name)).Nodup)
    (htyped : Typed all r b) (hs : s ∈ all) (hb : b ∈ p.records) (howns : b.Owns s)
    {d : Variable} (htype : d.type = s.type) (hrole : d.role = s.role)
    (huniform : s.role.isUniform = false) :
    d.role.group? = some b.group ∧ Holds r d b.content := by
  have hsame : ∀ s' ∈ all, s'.name = s.name → s' = s :=
    fun s' hs' hname => List.inj_on_of_nodup_map hnodup hs' hs hname
  cases h.makes (fun _ h => h) hnodup hs hb howns with
  | block index type hblock =>
      rw [hblock] at huniform
      cases huniform
  | own index hfits =>
      cases hfits with
      | texture t htexture =>
          rw [hrole, htexture]
          refine ⟨rfl, .texture (hrole.trans htexture) ?_⟩
          cases htyped with
          | texture hcontent hs' hname _ hk =>
              rw [htype, ← hsame _ hs' hname, Registry.texture?, hk, ← Content.texture.inj hcontent]
          | block hcontent | sampler hcontent | storage hcontent | generated hcontent =>
              cases hcontent
      | sampler kind hsampler =>
          rw [hrole, hsampler]
          refine ⟨rfl, .sampler (hrole.trans hsampler) ?_⟩
          cases htyped with
          | sampler hcontent hs' hname _ hk =>
              rw [htype, ← hsame _ hs' hname, hk, ← Content.sampler.inj hcontent]
          | generated _ hgenerated => cases hgenerated
          | block hcontent | texture hcontent | storage hcontent => cases hcontent
      | storage hstorage =>
          rw [hrole, hstorage]
          refine ⟨rfl, ?_⟩
          dsimp only
          rw [← htype]
          exact .storage (hrole.trans hstorage)

end Shares

/-! ## Plans -/

/-- Every plan shares the resources of its program out among its records, and binds no variable of
a workgroup. -/
theorem plan_partitions {target : Target} {vars : Array Variable} {stages : List BuiltStage}
    {r r' : Registry} {p : Plan} (hr : r.Reachable)
    (htypes : ∀ x ∈ declarations vars stages, x.2.type.index < r.size)
    (h : r.run (plan target vars stages) = (.ok p, r')) :
    p.Partitions r' (declarations vars stages) ∧
      ∀ v d, vars[v.index]? = some d → d.role = .workgroup → p.recordOf? v = none := by
  obtain ⟨all, hgathers, hbind⟩ := plan_eq_ok h
  have hbuilt := built_bindAll Built.nil hbind
  rw [List.nil_append] at hbuilt
  obtain ⟨hsound, htyped⟩ := typed_of_gathers hr.sound htypes hgathers hbind
  refine ⟨⟨?_, hbuilt.blocks_pairwise hgathers.nodup, ?_, ?_⟩, ?_⟩
  -- a uniform is a member of the block of its name, and of that block only
  · intro v d g hd hrole
    obtain ⟨s, hs, hname⟩ := hgathers.exists_shared hd
    obtain ⟨b, hb, howns⟩ := hbuilt.exists_owner hs
    obtain ⟨htype, hrole'⟩ := hgathers.agree s hs (v, d) hd hname.symm
    have hrole'' : s.role = .uniform g := hrole'.symm.trans hrole
    obtain ⟨t, hsettled, hmember⟩ :=
      (htyped b hb).member_of_owns hgathers.nodup hs howns hrole''
    rw [← hname, show d.type = s.type from htype]
    refine ⟨b, t, hbuilt.boundTo hgathers hs hb howns, ?_, hsettled r' hsound (le_refl r'), ?_, ?_⟩
    · rcases howns.2 with ⟨g', hg', hblock⟩ | ⟨huniform, -⟩
      · rw [hrole''] at hg'
        rw [Role.uniform.inj hg']
        exact (Record.isBlock_iff.mp hblock).2.2
      · rw [hrole''] at huniform
        cases huniform
    · have hmem : (⟨s.name, t⟩ : Member) ∈ (b.members r').filter (·.name == s.name) := by
        rw [hmember]
        exact List.mem_cons_self
      exact (List.mem_filter.mp hmem).1
    · rw [hbuilt.members_filter hgathers.nodup htyped hs hb howns, hmember]
  -- a member of a block comes from a uniform that has been declared
  · intro b hb m hm
    obtain ⟨s, hs, howns, hname, hrole, -⟩ := hbuilt.owns_of_member hb (htyped b hb) hm
    rw [← hname]
    refine ⟨hbuilt.boundTo hgathers hs hb howns, hgathers.exists_declaration hs, ?_⟩
    intro x hx hxname
    rw [(hgathers.agree s hs x hx hxname).2]
    exact hrole
  -- a resource that is no uniform has a record of its own
  · intro v d hd huniform
    obtain ⟨s, hs, hname⟩ := hgathers.exists_shared hd
    obtain ⟨b, hb, howns⟩ := hbuilt.exists_owner hs
    obtain ⟨htype, hrole⟩ := hgathers.agree s hs (v, d) hd hname.symm
    have huniform' : s.role.isUniform = false := by
      rw [← hrole]
      exact huniform
    obtain ⟨hgroup, hholds⟩ :=
      hbuilt.holds hgathers.nodup (htyped b hb) hs hb howns htype hrole huniform'
    rw [← hname]
    exact ⟨b, hbuilt.boundTo hgathers hs hb howns, hgroup, hholds,
      hbuilt.own_filter hgathers.nodup hs hb howns huniform'⟩
  -- what a workgroup shares is not gathered, so that no record has it
  · intro v d hd hrole
    refine p.owned.eq_none fun b hb hv => ?_
    obtain ⟨s, hs, -, hvs⟩ := (hbuilt.mem_vars_iff (fun _ h => h) hgathers.nodup hb).mp hv
    obtain ⟨d', hd', -⟩ := (hgathers.mem_vars_iff hs).mp hvs
    obtain ⟨found, hfound, hworkgroup, -⟩ := mem_declarations hd'
    rw [hd] at hfound
    exact hworkgroup (Option.some.inj hfound ▸ hrole)

/-- The types of the scene are registered. -/
theorem index_lt_sceneTypes :
    ∀ x ∈ declarations sceneVars sceneStages, x.2.type.index < sceneTypes.size := by
  decide +kernel

/-- The time is in a block of its own, as both stages see it. -/
theorem scene_partitions : ∃ p r',
    sceneTypes.run (plan .webGPU sceneVars sceneStages) = (.ok p, r') ∧
    p.records.map (fun b => (b.name, b.index)) =
      [("ublock_vsfs_0", 0), ("albedo", 1), ("albedo_sampler", 2), ("ublock_fs_0", 3)] ∧
    p.Partitions r' (declarations sceneVars sceneStages) := by
  obtain ⟨p, r', hrun, hrecords⟩ := exists_scenePlan
  have hreachable : sceneTypes.Reachable := .shape _ (.shape _ .empty)
  exact ⟨p, r', hrun, hrecords, (plan_partitions hreachable index_lt_sceneTypes hrun).1⟩

end Binding

end WebShader
