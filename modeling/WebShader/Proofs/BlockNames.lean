import WebShader.Proofs.StructDeclarations

/-!
# Names of blocks

The struct of a block of uniforms is named after the block, unless a struct with its members has
been registered before. A source declares a struct of the name of a block exactly when it declares
the struct of the block itself.
-/

namespace WebShader

open Registry (run_bind run_get run_liftM run_pure run_bind_of_ok)

/-! ## New structs -/

/-- A registry that has the types of another one. The structs among its other types are as told. -/
structure Registry.AddsStructs (P : TypeId → StructType → Prop) (r r' : Registry) : Prop where
  le : r ≤ r'
  new : ∀ t s, r.size ≤ t.index → r'.kind t = .struct s → P t s

namespace Registry

variable {P Q : TypeId → StructType → Prop} {r r' : Registry}

instance : IsPreorder Registry (AddsStructs P) where
  refl r := ⟨le_refl r, fun t s ht hs => by
    rw [kind_eq_void_of_le ht] at hs
    cases hs⟩
  trans r r' r'' h h' := ⟨le_trans h.le h'.le, fun t s ht hs => by
    rcases Nat.lt_or_ge t.index r'.size with hlt | hge
    · exact h.new t s ht ((kind_eq_of_le h'.le hlt).symm.trans hs)
    · exact h'.new t s hge hs⟩

/-- What is said of added structs may be weakened. -/
theorem AddsStructs.mono (h : r.AddsStructs P r') (himp : ∀ t s, P t s → Q t s) :
    r.AddsStructs Q r' := ⟨h.le, fun t s ht hs => himp t s (h.new t s ht hs)⟩

/-- A struct that is registered is the only one that is added. -/
theorem addsStructs_push (r : Registry) (key : String) {s : StructType} (h : P ⟨r.size⟩ s) :
    r.AddsStructs P (r.push key (.struct s)) := by
  refine ⟨r.le_push key (.struct s), fun t s' ht hs => ?_⟩
  have hlt : t.index < (r.push key (.struct s)).size := lt_size_of_isStorable (by rw [hs]; rfl)
  rcases lt_or_eq_of_lt_size_push hlt with hlt | rfl
  · omega
  · rw [kind_push_size] at hs
    rwa [← TypeKind.struct.inj hs]

end Registry

namespace Interning

variable {r r' : Registry} {name : String} {members : List Member} {t : TypeId}

/-- A name that is given is checked, and the registry left alone. -/
theorem run_structName_some (r : Registry) (name : String) :
    (∃ e, r.run (structName (some name)) = (.error e, r)) ∨
      r.run (structName (some name)) = (.ok name, r) := by
  unfold structName
  rw [run_bind, run_get]
  dsimp only
  cases (r.structNamed? name).isSome with
  | true => exact Or.inl ⟨_, rfl⟩
  | false => exact Or.inr rfl

/-- Registering a struct of a name adds no type but that struct. -/
theorem run_structOf_cases (r : Registry) (name : String) (policy : LayoutPolicy)
    (members : List Member) : (r.run (structOf (some name) policy members)).2 = r ∨
      ∃ layout, r.run (structOf (some name) policy members) = (.ok ⟨r.size⟩,
        r.push (structKey r policy members) (.struct ⟨name, policy, members, layout⟩)) := by
  unfold structOf
  rw [run_bind, run_get]
  dsimp only
  rw [run_bind, run_liftM]
  cases checkMembers r [] members with
  | error e => exact Or.inl rfl
  | ok _ =>
      dsimp only
      cases hkey : r.withKey? (structKey r policy members) with
      | some t => exact Or.inl rfl
      | none =>
          dsimp only
          rw [run_bind]
          rcases run_structName_some r name with ⟨e, hname⟩ | hname
          · rw [hname]
            exact Or.inl rfl
          · rw [hname]
            dsimp only
            rw [run_bind, run_liftM]
            cases r.structLayout members policy with
            | error e => exact Or.inl rfl
            | ok layout =>
                dsimp only [insert]
                rw [run_bind, run_get]
                dsimp only
                rw [hkey]
                exact Or.inr ⟨layout, rfl⟩

/-- Members that follow `std140` rules are their own copies. -/
theorem run_mapM_std140 (hr : r.Sound) (hm : ∀ m ∈ members, HoldsStd140 r m.type) :
    r.run (members.mapM fun m => return { m with type := ← std140 m.type }) =
      (.ok members, r) := by
  induction members with
  | nil => rfl
  | cons m rest ih =>
      obtain ⟨hhead, hrest⟩ := List.forall_mem_cons.mp hm
      have hself : r.run (do return { m with type := ← std140 m.type }) = (.ok m, r) := by
        rw [run_bind_of_ok (run_std140_of_holds hr hhead)]
        rfl
      rw [List.mapM_cons, run_bind_of_ok hself, run_bind_of_ok (ih hrest)]
      rfl

/-- Where its members follow `std140` rules, registering a struct of a name adds no struct but
that one. -/
theorem adds_struct (hr : r.Sound) (hm : ∀ m ∈ members, HoldsStd140 r m.type)
    (h : r.run (struct (some name) .std140 members) = (.ok t, r')) :
    r.AddsStructs (fun u s => u = t ∧ s.name = name) r' := by
  have heq : struct (some name) .std140 members = (do
      checkIdentifier name
      if members.isEmpty then throw (.declaration .emptyStruct)
      let members ← members.mapM fun m => return { m with type := ← std140 m.type }
      structOf (some name) .std140 members) := rfl
  rw [heq, run_bind, run_liftM] at h
  cases hname : checkIdentifier name with
  | error e =>
      rw [hname] at h
      cases (Prod.mk.inj h).1
  | ok _ =>
      rw [hname] at h
      dsimp only at h
      split at h
      · cases (Prod.mk.inj h).1
      · rw [run_bind_of_ok (run_mapM_std140 hr hm)] at h
        rcases run_structOf_cases r name .std140 members with hsame | ⟨layout, hnew⟩
        · rw [h] at hsame
          obtain rfl : r' = r := hsame
          exact refl_of (Registry.AddsStructs _) r'
        · obtain ⟨ht, rfl⟩ := Prod.mk.inj (h.symm.trans hnew)
          exact r.addsStructs_push _ ⟨(Except.ok.inj ht).symm, rfl⟩

end Interning

/-! ## Blocks of a plan -/

namespace Binding

open Interning (Ensures HoldsStd140 adds_struct)

/-- The content of a block. -/
theorem Content.block?_eq_some {content : Content} {t : TypeId} :
    content.block? = some t ↔ content = .uniformBlock t := by
  cases content <;> simp [Content.block?]

/-- The name under which the struct of a block is registered. -/
def Record.structName (b : Record) : String := "UBlock_" ++ blockSuffix b.visibility b.group

/-- The struct of a block of the plan, named after it. -/
def Plan.Names (p : Plan) (t : TypeId) (s : StructType) : Prop :=
  ∃ b ∈ p.records, b.content = .uniformBlock t ∧ s.name = b.structName

/-- A plan that has the records of another one. No structs have been registered between but those
of its blocks. -/
def Plan.Extends (p : Plan) (r : Registry) (p' : Plan) (r' : Registry) : Prop :=
  p.records ⊆ p'.records ∧ r.AddsStructs p'.Names r'

section Steps

variable {target : Target} {all : List Shared} {p p' p'' : Plan} {s : Shared}
  {r r' r'' : Registry}

/-- A plan extends itself. -/
theorem Plan.extends_refl (p : Plan) (r : Registry) : p.Extends r p r :=
  ⟨List.Subset.refl _, refl_of (Registry.AddsStructs _) r⟩

/-- A plan extends what it extends twice. -/
theorem Plan.Extends.trans (h : p.Extends r p' r') (h' : p'.Extends r' p'' r'') :
    p.Extends r p'' r'' := by
  refine ⟨List.Subset.trans h.1 h'.1, trans_of (Registry.AddsStructs _) (h.2.mono ?_) h'.2⟩
  rintro t st ⟨b, hb, hnamed⟩
  exact ⟨b, h'.1 hb, hnamed⟩

/-- A record that comes with no struct. -/
theorem Plan.extends_add {name : String} {g : UInt32} {visibility : Visibility} {content : Content}
    {vars : List VarId} {texture : Option (List VarId)} :
    p.Extends r (p.add name g visibility content vars texture) r :=
  ⟨List.subset_append_left _ _, refl_of (Registry.AddsStructs _) r⟩

/-- Binding a resource registers no struct but that of a new block. -/
theorem extends_bind (hr : r.Sound)
    (hall : ∀ s ∈ all, ∀ g, s.role = .uniform g → HoldsStd140 r s.type) :
    (bind target all p s).Ensures r (p.Extends r) := by
  unfold bind
  split
  · rename_i g _
    unfold bindUniform
    split
    · exact Ensures.pure hr (p.extends_refl r)
    · have hmembers : ∀ m ∈ (blockMembers all s.visibility g).map
          fun m => (⟨m.name, m.type⟩ : Member), HoldsStd140 r m.type := by
        intro m hm
        obtain ⟨s', hs', rfl⟩ := List.mem_map.mp hm
        obtain ⟨hs', hrole⟩ := List.mem_filter.mp hs'
        exact hall s' hs' g (by simpa using (Bool.and_eq_true_iff.mp hrole).1)
      obtain ⟨hsound, hle, -⟩ := Interning.ensures_struct hr
        (some ("UBlock_" ++ blockSuffix s.visibility g)) .std140 fun m hm => (hmembers m hm).1
      refine Ensures.bind ⟨hsound, hle, fun t r₁ hrun => adds_struct hr hmembers hrun⟩ ?_
      intro t r₁ hr₁ _ hadds
      refine Ensures.pure hr₁ ⟨List.subset_append_left _ _, hadds.mono ?_⟩
      rintro u st ⟨rfl, hname⟩
      exact ⟨_, List.mem_append_right _ List.mem_cons_self, rfl, hname⟩
  · unfold bindTexture
    refine Ensures.get_bind ?_
    split
    · exact Ensures.throw hr _
    · dsimp only
      split_ifs
      · exact Ensures.pure hr Plan.extends_add
      · exact Ensures.throw hr _
      · exact Ensures.pure hr (Plan.extends_add.trans Plan.extends_add)
  · refine Ensures.get_bind ?_
    split
    · exact Ensures.pure hr Plan.extends_add
    · exact Ensures.throw hr _
  · exact Ensures.pure hr Plan.extends_add
  · exact Ensures.throw hr _

/-- Binding declarations extends the plan. -/
theorem extends_bindAll {rest : List Shared} (hr : r.Sound)
    (hall : ∀ s ∈ all, ∀ g, s.role = .uniform g → HoldsStd140 r s.type) :
    (bindAll target all rest p).Ensures r (p.Extends r) := by
  induction rest generalizing r p with
  | nil => exact Ensures.pure hr (p.extends_refl r)
  | cons s rest ih =>
      rw [bindAll]
      refine (extends_bind hr hall).bind fun p₁ r₁ hr₁ hle hp₁ => ?_
      have hall₁ : ∀ s ∈ all, ∀ g, s.role = .uniform g → HoldsStd140 r₁ s.type :=
        fun s hs g hrole => (hall s hs g hrole).of_le hr hle
      exact (ih hr₁ hall₁).mono fun p₂ r₂ _ _ hp₂ => hp₁.trans hp₂

end Steps

section Plans

variable {target : Target} {vars : Array Variable} {stages : List BuiltStage} {all : List Shared}
  {p : Plan} {r r' : Registry} {b c : Record} {t : TypeId}

/-- No two blocks have the same struct, as no two have the same member. -/
theorem Built.eq_of_block (h : Built target all all p.records)
    (hnodup : (all.map (·.name)).Nodup) (hr : r.Sound) (htyped : ∀ b ∈ p.records, Typed all r b)
    (hb : b ∈ p.records) (hc : c ∈ p.records) (hbt : b.content = .uniformBlock t)
    (hct : c.content = .uniformBlock t) {st : StructType} (hk : r.kind t = .struct st) : b = c := by
  have hmembers : ∀ d : Record, d.content = .uniformBlock t → d.members r = st.members := by
    intro d hd
    simp [Record.members, hd, Content.block?, Registry.struct?, hk]
  obtain ⟨m, hm⟩ := List.exists_mem_of_ne_nil _ (hr.valid_of_kind hk).1
  obtain ⟨s, hs, howns, hname, -⟩ :=
    h.owns_of_member hb (htyped b hb) (hmembers b hbt ▸ hm)
  obtain ⟨s', hs', howns', hname', -⟩ :=
    h.owns_of_member hc (htyped c hc) (hmembers c hct ▸ hm)
  obtain rfl := List.inj_on_of_nodup_map hnodup hs hs' (hname.trans hname'.symm)
  exact h.owner_unique hnodup hb hc howns howns'

/-- Where the uniforms follow `std140` rules, the struct of a block is named after the block, or has
been registered before the resources were bound. -/
theorem plan_names_blocks (hr : r.Sound)
    (htypes : ∀ x ∈ declarations vars stages, x.2.type.index < r.size)
    (hlaid : ∀ x ∈ declarations vars stages, ∀ g, x.2.role = .uniform g → HoldsStd140 r x.2.type)
    (h : r.run (plan target vars stages) = (.ok p, r')) (hb : b ∈ p.records)
    (hbt : b.content = .uniformBlock t) :
    ∃ st, r'.kind t = .struct st ∧ (t.index < r.size ∨ st.name = b.structName) := by
  obtain ⟨all, hgathers, hbind⟩ := plan_eq_ok h
  have hbuilt := built_bindAll Built.nil hbind
  rw [List.nil_append] at hbuilt
  obtain ⟨hsound, htyped⟩ := typed_of_gathers hr htypes hgathers hbind
  obtain ⟨st, hk⟩ : ∃ st, r'.kind t = .struct st := by
    cases htyped b hb with
    | block hcontent _ hk _ =>
        rw [Content.uniformBlock.inj (hcontent.symm.trans hbt)] at hk
        exact ⟨_, hk⟩
    | texture hcontent | sampler hcontent | storage hcontent | generated hcontent =>
        rw [hcontent] at hbt
        cases hbt
  have hall : ∀ s ∈ all, ∀ g, s.role = .uniform g → HoldsStd140 r s.type := by
    intro s hs g hrole
    obtain ⟨x, hx, hname⟩ := hgathers.exists_declaration hs
    obtain ⟨htype, hrole'⟩ := hgathers.agree s hs x hx hname
    exact htype ▸ hlaid x hx g (hrole'.trans hrole)
  obtain ⟨-, hadds⟩ := (extends_bindAll (p := {}) hr hall).2.2 p r' hbind
  refine ⟨st, hk, ?_⟩
  rcases Nat.lt_or_ge t.index r.size with hlt | hge
  · exact Or.inl hlt
  · obtain ⟨c, hc, hct, hname⟩ := hadds.new t st hge hk
    rw [hbuilt.eq_of_block hgathers.nodup hsound htyped hb hc hbt hct hk]
    exact Or.inr hname

end Plans

end Binding

/-! ## Sources of stages -/

/-- The struct of a block that a stage sees has the name of the block, unless it has been registered
before. The stage declares a struct of that name exactly if it declares that struct. -/
def ResolvedStage.NamesBlock (before : Registry) (s : ResolvedStage) (b : Binding.Record)
    (name : String) : Prop :=
  ∃ t st, b.content = .uniformBlock t ∧ s.types.kind t = .struct st ∧ st.name = name ∧
    (t.index < before.size ∨ name = b.structName) ∧ (name ∈ s.structNames ↔ t ∈ s.structTypes)

/-- The blocks that a stage sees have their names, and in GLSL ES 3.00 they are declared under
these. -/
structure ResolvedStage.NamesBlocks (before : Registry) (s : ResolvedStage) (src : StageSource) :
    Prop where
  blocks : ∀ b ∈ s.records, b.content.block?.isSome = true → ∃ name, s.NamesBlock before b name
  printed : s.target = .webGL2 → ∃ m, Glsl.module s = .ok m ∧ src.text = m.text s.indentWidth ∧
    m.structs.map (·.name) = s.structNames ∧ ∀ u name, Glsl.Uniform.block u name ∈ m.uniforms →
      ∃ b ∈ s.records, b.name = name ∧ s.NamesBlock before b u.name

/-- The source of a stage that has been built is the one of the stage resolved, whose blocks have
their names. -/
def Builder.NamesBlocks (before : Registry) (b : Builder) (plan : Binding.Plan) (st : BuiltStage)
    (src : StageSource) : Prop :=
  ∃ s, b.resolve plan st = .ok s ∧ s.NamesBlocks before src

section Resolution

variable {s : ResolvedStage} {before : Registry}

/-- Structs of one name are one type, so a name is declared only with its struct. -/
theorem ResolvedStage.mem_structNames_iff (hr : s.types.Sound) {t : TypeId} {st : StructType}
    (hk : s.types.kind t = .struct st) : st.name ∈ s.structNames ↔ t ∈ s.structTypes := by
  constructor
  · intro h
    obtain ⟨u, hu, hname⟩ := List.mem_filterMap.mp h
    obtain ⟨su, hsu, hname⟩ := Option.map_eq_some_iff.mp hname
    rwa [hr.name_inj t u st su hk (Registry.struct?_eq_some_iff.mp hsu) hname.symm]
  · intro h
    exact List.mem_filterMap.mpr ⟨t, h, by rw [Registry.struct?, hk]; rfl⟩

/-- A block is declared under the name of its struct. -/
theorem Glsl.block_of_uniform {b : Binding.Record} {u : Struct} {name : String}
    (h : uniform s b = .ok (.block u name)) : b.name = name ∧
      ∃ t st, b.content = .uniformBlock t ∧ s.types.kind t = .struct st ∧ u.name = st.name := by
  unfold uniform at h
  split at h
  · rename_i t hcontent
    split at h
    · cases h
    · rename_i st hst
      split at h
      · obtain ⟨fields, -, h⟩ := bind_eq_ok_iff.mp h
        obtain ⟨rfl, rfl⟩ := Uniform.block.inj (Except.ok.inj h)
        exact ⟨rfl, t, st, hcontent, Registry.struct?_eq_some_iff.mp hst, rfl⟩
      · cases Except.ok.inj h
  · obtain ⟨sampler, -, h⟩ := bind_eq_ok_iff.mp h
    cases Except.ok.inj h
  · cases h

end Resolution

/-! ## Programs -/

namespace Session

variable {s : Session}

/-- The blocks of stages that have been authored in a session have their names. -/
theorem Reachable.namesBlocks (hs : s.Reachable) {b : Builder} {plan : Binding.Plan}
    {stages : List BuiltStage} (hbind : s.builder.run (Build.bindStages stages) = (.ok plan, b))
    (hown : ∀ st ∈ stages, st.IsOwn s.builder) {st : BuiltStage} {src : StageSource}
    (hsrc : b.source plan st = .ok src) : b.NamesBlocks s.builder.types plan st src := by
  obtain ⟨resolved, hresolve, hsource⟩ := bind_eq_ok_iff.mp hsrc
  obtain ⟨htext, -⟩ := ResolvedStage.source_eq_ok hsource
  have htyped := hs.typed.builder.toHasSoundTypes
  have hvars : b.vars = s.builder.vars := (Authoring.run_bindStages_eq_ok hbind).2.1
  have htypes := Builder.types_of_resolve hresolve
  have hsound : resolved.types.Sound := htypes ▸ (hs.typed_of_bindStages hbind).sound
  have hplan := (Builder.resolve_eq_ok hresolve).2.2.1
  -- uniforms follow `std140` rules from their declarations on
  have hlaid : ∀ x ∈ Binding.declarations b.vars stages, ∀ g, x.2.role = .uniform g →
      Interning.HoldsStd140 s.builder.types x.2.type := by
    intro x hx g hrole
    obtain ⟨st', hst', hv, d, hd, -, heq⟩ := Binding.exists_resource_of_mem_declarations hx
    obtain ⟨d', hd', -, hlaid⟩ := (hown st' hst').globals x.1 (by simp [StageDecls.globals, hv])
    rw [hvars] at hd
    obtain rfl := Option.some.inj (hd'.symm.trans hd)
    rw [heq] at hrole ⊢
    exact hlaid.std140 g hrole htyped.sound
  have hnamed : ∀ c ∈ resolved.records, ∀ t, c.content = .uniformBlock t →
      ∃ st, resolved.types.kind t = .struct st ∧
        resolved.NamesBlock s.builder.types c st.name := by
    intro c hc t hct
    have hc : c ∈ plan.records := by
      rw [← hplan]
      exact (Binding.mem_visibleFrom.mp hc).1
    obtain ⟨st', hk, hname⟩ := Binding.plan_names_blocks htyped.sound
      (hvars ▸ htyped.declarations) hlaid (Authoring.plan_of_bindStages hbind) hc hct
    rw [← htypes] at hk
    exact ⟨st', hk, t, st', hct, hk, rfl, hname, ResolvedStage.mem_structNames_iff hsound hk⟩
  refine ⟨resolved, hresolve, fun c hc hblock => ?_, fun htarget => ?_⟩
  · obtain ⟨t, ht⟩ := Option.isSome_iff_exists.mp hblock
    obtain ⟨st', -, hname⟩ := hnamed c hc t (Binding.Content.block?_eq_some.mp ht)
    exact ⟨st'.name, hname⟩
  · rcases ResolvedStage.text_eq_ok htext with ⟨hweb, -⟩ | ⟨-, m, hm, heq⟩
    · rw [htarget] at hweb
      cases hweb
    · have hnames := (Glsl.structs_of_module hm).imp fun _ _ => Glsl.name_of_struct
      refine ⟨m, hm, heq, ResolvedStage.names_of_structs hnames, fun u name hu => ?_⟩
      obtain ⟨c, hc, huniform⟩ := exists_mem_of_forall₂ (Glsl.Module.of_module hm).uniforms _ hu
      obtain ⟨hname, t, st', hct, hk, hu⟩ := Glsl.block_of_uniform huniform
      obtain ⟨st'', hk', hnames⟩ := hnamed c hc t hct
      obtain rfl := TypeKind.struct.inj (hk.symm.trans hk')
      exact ⟨c, hc, hname, hu ▸ hnames⟩

end Session

namespace Script

open Authoring Session

/-- In every program that a script builds in a session, for every target, the struct of each block
that a stage sees has the name of the block or is a struct from before the resources were bound. A
source has a struct of the name of a block exactly if that is the struct of the block, which in GLSL
ES 3.00 is then declared twice. -/
theorem blocks_named (s : Session) (n : Notes) (hs : s.Reachable) (hn : s.KnowsNames n)
    (label : String) (tolerant : Bool) :
    (∀ (vertex fragment : Script) (s' : Builder × Notes) (program : RenderProgram),
      (render label (body (runAll tolerant vertex)) (body (runAll tolerant fragment))).runFrom
          (s.builder, n) = (.ok program, s') →
        ∃ v f s₁ s₂ plan b,
          (stage .vertex [] (body (runAll tolerant vertex))).runFrom
            ({ s.builder with phase := .building }, n) = (.ok v, s₁) ∧
          (stage .fragment v.decls.outputs (body (runAll tolerant fragment))).runFrom s₁ =
            (.ok f, s₂) ∧
          s₂.1.run (Build.bindStages [v, f]) = (.ok plan, b) ∧
          b.NamesBlocks s₂.1.types plan v program.vertex ∧
          b.NamesBlocks s₂.1.types plan f program.fragment) ∧
    ∀ (steps : Script) (s' : Builder × Notes) (program : ComputeProgram),
      (compute label (body (runAll tolerant steps))).runFrom (s.builder, n) = (.ok program, s') →
        ∃ c s₁ plan b,
          (stage .compute [] (body (runAll tolerant steps))).runFrom
            ({ s.builder with phase := .building }, n) = (.ok c, s₁) ∧
          s₁.1.run (Build.bindStages [c]) = (.ok plan, b) ∧
          b.NamesBlocks s₁.1.types plan c program.compute := by
  have hsimulates : ∀ steps : Script, Simulates (body (runAll tolerant steps)) :=
    fun steps => traces_body (simulates_runAll tolerant steps)
  constructor
  · intro vertex fragment s' program h
    obtain ⟨s₀, hcompile⟩ := compiled_of_asProgram h
    obtain ⟨v, f, s₁, plan, b, t, ht, hown, hvertex, ⟨n', hfragment⟩, hbind, hvsrc, hfsrc⟩ :=
      session_of_compileRender hs.building hn (hsimulates vertex) (hsimulates fragment)
        (retains_body tolerant vertex) (retains_body tolerant fragment) hcompile
    exact ⟨v, f, s₁, _, plan, b, hvertex, hfragment, hbind, ht.namesBlocks hbind hown hvsrc,
      ht.namesBlocks hbind hown hfsrc⟩
  · intro steps s' program h
    obtain ⟨s₀, hcompile⟩ := compiled_of_asProgram h
    obtain ⟨c, plan, b, t, ht, hown, ⟨n', hstage⟩, hbind, hsrc⟩ :=
      session_of_compileCompute hs.building hn (hsimulates steps) (retains_body tolerant steps)
        hcompile
    exact ⟨c, _, plan, b, hstage, hbind, ht.namesBlocks hbind hown hsrc⟩

/-- A light in a variable, of a struct that has the only member of the block. -/
def litFragment : Script :=
  [(false, .operation (.uniform "a" (.scalar .f32) 0) none),
    (false, .main [(false, .operation
      (.declareVar "s" (.struct (some "Light") .std140 [("a", .scalar .f32)])) none)])]

/-- The names of the structs and of the blocks that the source of the light declares. -/
def litNames : Option (List String × List String) := do
  let act : Run (BuiltStage × Binding.Plan) := do
    let built ← stage .fragment [] (body (runAll false litFragment))
    return (built, ← Build.bindStages [built])
  let s := act.runFrom (Builder.new { target := .webGL2 }, {})
  let (built, plan) ← s.1.toOption
  let m ← ((s.2.1.resolve plan built).bind Glsl.module).toOption
  let blocks := m.uniforms.filterMap fun
    | .block u _ => some u.name
    | .plain _ => none
  return (m.structs.map (·.name), blocks)

/-- The block takes the name of the struct of the light, which is declared as well. -/
example : litNames = some (["Light"], ["Light"]) := by decide +kernel

end Script

end WebShader
