import WebShader.Proofs.StagePorts
import WebShader.Proofs.StructDeclarations

/-!
# Linkage of stages

The inputs of the fragment stage of a program are the outputs of its vertex stage, and the two
sources declare them alike: in WGSL as the same members of two structs, in GLSL ES as variables that
leave the one stage and enter the other. The declarations are read from the texts of the sources.
-/

namespace WebShader

/-! ## Stages that have been built -/

/-- What leaves one stage enters the next: their variables pass through the same numbered ports. -/
structure StageDecls.Meets (vars : Array Variable) (ports : List Port) (v f : StageDecls) :
    Prop where
  numbered : Numbered ports
  outputs : PassThrough Variable.Leaves vars v.outputs ports
  inputs : PassThrough Variable.Enters vars f.inputs ports

namespace Build

/-- A stage inherits an input for each output of an earlier one. -/
theorem inputs_of_inputsFrom {b b' : Builder} {s : OpenStage} {vs : List VarId} {ports : List Port}
    (hs : b.stage = some s) (hports : PassThrough Variable.Leaves b.vars vs ports)
    (h : b.run (inputsFrom vs) = (.ok (), b')) :
    ∃ s' inherited, b'.stage = some s' ∧
      s'.decls = { s.decls with inputs := s.decls.inputs ++ inherited } ∧
      PassThrough Variable.Enters b'.vars inherited ports ∧ Extends b.vars b'.vars := by
  -- by induction on the outputs, of which each gives the next input its name, type and location
  induction vs generalizing b s ports with
  | nil =>
      cases hports
      obtain ⟨-, rfl⟩ := Prod.mk.inj h
      exact ⟨s, [], hs, by rw [List.append_nil], .nil, Extends.refl _⟩
  | cons out rest ih =>
      cases hports with
      | @cons _ p _ ports hout hrest =>
          obtain ⟨⟨name, t, role, stage, init⟩, hd, hleaves⟩ := hout
          obtain rfl : role = .output p.location := hleaves.role
          have hvar : b.var? out = some ⟨name, t, .output p.location, stage, init⟩ := hd
          unfold inputsFrom at h
          rw [Builder.run_bind, Builder.run_get] at h
          simp only [hvar] at h
          rw [Builder.run_bind] at h
          rcases run_newVar_cases b name t (.input p.location none) none with
            ⟨fault, b₁, hnew, -⟩ | ⟨s', f, frames, e, hs', -, -, hnew⟩
          · rw [hnew] at h
            cases (Prod.mk.inj h).1
          · obtain rfl := Option.some.inj (hs.symm.trans hs')
            rw [hnew] at h
            dsimp only at h
            rw [Builder.run_bind, modifyDecls, Builder.run_modifyStage_of_some rfl] at h
            dsimp only at h
            have hvars := extends_push b.vars ⟨name, t, .input p.location none, s.decls.stage, none⟩
            obtain ⟨t', inherited, ht', hdecls, henter, hvars'⟩ := ih rfl
              (PassThrough.extends hrest hvars) h
            refine ⟨t', ⟨b.vars.size⟩ :: inherited, ht', ?_, .cons ?_ henter, hvars.trans hvars'⟩
            · rw [hdecls]
              simp
            · have hnewVar : (b.vars.push ⟨name, t, .input p.location none, s.decls.stage, none⟩)[
                  b.vars.size]? = some ⟨name, t, .input p.location none, s.decls.stage, none⟩ := by
                simp
              exact ⟨_, hvars' _ _ hnewVar, hleaves.name, hleaves.type, rfl⟩

end Build

namespace Authoring

variable {σ : Type}

/-- The outputs of a stage are numbered, and but for the attributes of a vertex the outputs of the
earlier stage are what enters it. -/
theorem ports_of_stage {which : Stage} {earlier : List VarId} {body : Authoring σ Unit}
    (h : Follows Builder.Links body) {s s' : Builder × σ} {built : BuiltStage} {ports : List Port}
    (hports : PassThrough Variable.Leaves s.1.vars earlier ports)
    (hrun : (stage which earlier body).runFrom s = (.ok built, s')) :
    built.decls.NumbersOutputs s'.1.vars ∧
      (which ≠ .vertex → PassThrough Variable.Enters s'.1.vars built.decls.inputs ports) := by
  obtain ⟨b, s₂, t, main, hinherit, hbody, ht, -, rfl, rfl⟩ := runFrom_stage_eq_ok hrun
  obtain ⟨t₁, inherited, ht₁, hdecls, henter, -⟩ := Build.inputs_of_inputsFrom
    (b := s.1.opened which) rfl hports hinherit
  obtain ⟨hkeeps, hlinks⟩ := h (b, s.2)
  rw [hbody] at hkeeps hlinks
  dsimp only at hkeeps hlinks
  obtain ⟨t₁', ht₁', hports⟩ := hlinks t ht
  obtain rfl := Option.some.inj (ht₁.symm.trans ht₁')
  have hvars : Extends b.vars s₂.1.vars := hkeeps.vars.resolve_left (by simp [ht])
  refine ⟨hports.outputs ⟨[], ?_, numbered_nil⟩, fun hwhich => ?_⟩
  · rw [hdecls]
    exact .nil
  · have hinputs := hports.inputs (by rw [hdecls]; exact hwhich)
    dsimp only
    rw [hinputs, hdecls]
    exact henter.extends hvars

end Authoring

/-! ## Members in WGSL -/

/-- Whether what passes through a port is not interpolated. -/
def Registry.isInteger (r : Registry) (t : TypeId) : Bool :=
  (r.primitive? t).any (·.scalar.isInteger)

namespace Wgsl

/-- Whether a member is at a location. -/
def Field.isLocated (f : Field) : Bool :=
  f.attributes.any fun
    | .location _ => true
    | _ => false

/-- The members of a struct that are at locations. -/
def Struct.located (s : Struct) : List Field := s.fields.filter (·.isLocated)

/-- The member that holds what passes through a port. -/
structure Field.Holds (r : Registry) (f : Field) (p : Port) : Prop where
  name : f.name = p.name
  type : typeName r p.type = .ok f.type
  attributes : f.attributes = .location p.location :: if r.isInteger p.type then [.flat] else []

section Members

variable {s : ResolvedStage} {m : Module} {ports : List Port} {p : Port} {f g : Field}

/-- The members of a struct of uniforms have no attributes but those of the layout. -/
theorem attributes_of_std140Fields {r : Registry} {st : StructType} {isFirst : Bool}
    {members : List (Member × Nat)} {fields : List Field}
    (h : std140Fields r st isFirst members = .ok fields) :
    ∀ f ∈ fields, ∀ a ∈ f.attributes, ∃ n, a = .align n ∨ a = .size n := by
  induction members generalizing isFirst fields with
  | nil =>
      rw [← Except.ok.inj h]
      exact List.forall_mem_nil _
  | cons x rest ih =>
      simp only [std140Fields, bind_eq_ok_iff] at h
      obtain ⟨attributes, hattributes, type, -, others, hothers, h⟩ := h
      rw [← Except.ok.inj h, List.forall_mem_cons]
      exact ⟨eq_of_memberAttributes hattributes, ih hothers⟩

/-- What holds a variable between stages has a location. -/
theorem Field.Holds.isLocated {r : Registry} (h : f.Holds r p) : f.isLocated = true := by
  rw [Field.isLocated, h.attributes]
  rfl

/-- Two members that hold one variable are the same. -/
theorem Field.Holds.unique {r : Registry} (h : f.Holds r p) (h' : g.Holds r p) : f = g := by
  obtain ⟨attributes, name, type⟩ := f
  obtain ⟨attributes', name', type'⟩ := g
  obtain rfl : name = name' := h.name.trans h'.name.symm
  obtain rfl : type = type' := Except.ok.inj (h.type.symm.trans h'.type)
  obtain rfl : attributes = attributes' := h.attributes.trans h'.attributes.symm
  rfl

/-- A built-in value has no location. -/
theorem isLocated_builtinField (s : ResolvedStage) (b : Builtin) :
    (builtinField s b).isLocated = false := rfl

/-- A member at the location of a variable holds it. -/
theorem holds_of_locationField {d : Variable} (hname : d.name = p.name) (htype : d.type = p.type)
    (h : locationField s p.location d true = .ok f) : f.Holds s.types p := by
  simp only [locationField, bind_eq_ok_iff] at h
  obtain ⟨type, htypeName, h⟩ := h
  rw [← Except.ok.inj h]
  refine ⟨hname, htype ▸ htypeName, ?_⟩
  rw [← htype, Registry.isInteger]
  split <;> simp_all

/-- The inputs of a fragment stage hold the variables that enter it. -/
theorem holds_of_inputField (hstage : s.stage = .fragment) {v : VarId}
    (hv : ∃ d, s.vars[v.index]? = some d ∧ d.Enters p) (h : inputField s v = .ok f) :
    f.Holds s.types p := by
  obtain ⟨d, hd, henters⟩ := hv
  simp only [inputField, bind_eq_ok_iff] at h
  obtain ⟨d', hd', h⟩ := h
  obtain rfl := Option.some.inj (hd.symm.trans (ResolvedStage.var_eq_ok_iff.mp hd'))
  rw [henters.role, hstage] at h
  exact holds_of_locationField henters.name henters.type h

/-- The outputs of a vertex stage hold the variables that leave it. -/
theorem holds_of_outputField (hstage : s.stage = .vertex) {v : VarId}
    (hv : ∃ d, s.vars[v.index]? = some d ∧ d.Leaves p) (h : outputField s v = .ok f) :
    f.Holds s.types p := by
  obtain ⟨d, hd, hleaves⟩ := hv
  simp only [outputField, bind_eq_ok_iff] at h
  obtain ⟨d', hd', h⟩ := h
  obtain rfl := Option.some.inj (hd.symm.trans (ResolvedStage.var_eq_ok_iff.mp hd'))
  rw [hleaves.role, hstage] at h
  exact holds_of_locationField hleaves.name hleaves.type h

/-- Members that hold ports are located, and built-ins are not. -/
theorem filter_isLocated {fields : List Field} (h : List.Forall₂ (Field.Holds s.types) fields ports)
    (before after : List Builtin) : (before.map (builtinField s) ++ fields ++
      after.map (builtinField s)).filter (·.isLocated) = fields := by
  have hbuiltins : ∀ bs : List Builtin, (bs.map (builtinField s)).filter (·.isLocated) = [] := by
    intro bs
    rw [List.filter_eq_nil_iff]
    intro f hf
    obtain ⟨b, -, rfl⟩ := List.mem_map.mp hf
    simp [isLocated_builtinField]
  have hfields : fields.filter (·.isLocated) = fields := by
    rw [List.filter_eq_self]
    intro f hf
    obtain ⟨p, -, hp⟩ := exists_result_of_forall₂ h f hf
    exact hp.isLocated
  rw [List.filter_append, List.filter_append, hbuiltins, hbuiltins, hfields, List.nil_append,
    List.append_nil]

/-- The members of what leaves a vertex hold its ports. -/
theorem Module.Of.located_output (h : Module.Of s m) (hstage : s.stage = .vertex)
    (hports : PassThrough Variable.Leaves s.vars s.decls.outputs ports) :
    List.Forall₂ (Field.Holds s.types) m.output.located ports := by
  have houtput := h.output
  simp only [outputStruct, bind_eq_ok_iff] at houtput
  obtain ⟨outputs, houtputs, houtput⟩ := houtput
  have hholds := forall₂_of_forall₂ (mapM_eq_ok_iff.mp houtputs) hports fun v f p hf hv =>
    holds_of_outputField hstage hv hf
  rw [← Except.ok.inj houtput, Struct.located, if_pos hstage,
    ← List.map_singleton (f := builtinField s), filter_isLocated hholds]
  exact hholds

/-- The members of what enters a fragment hold its ports. -/
theorem Module.Of.located_input (h : Module.Of s m) (hstage : s.stage = .fragment)
    (hports : PassThrough Variable.Enters s.vars s.decls.inputs ports) :
    List.Forall₂ (Field.Holds s.types) m.input.located ports := by
  have hinput := h.input
  simp only [inputStruct, bind_eq_ok_iff] at hinput
  obtain ⟨inputs, hinputs, hinput⟩ := hinput
  have hholds := forall₂_of_forall₂ (mapM_eq_ok_iff.mp hinputs) hports fun v f p hf hv =>
    holds_of_inputField hstage hv hf
  have hfilter := filter_isLocated hholds [] ((s.decls.builtins.map (·.1)).filter (!·.isOutput))
  rw [List.map_nil, List.nil_append] at hfilter
  rw [← Except.ok.inj hinput, Struct.located, hfilter]
  exact hholds

/-- The structs of the types of a stage have no members at locations. -/
theorem isLocated_of_structs (h : module s = .ok m) : ∀ d ∈ m.structs, d.located = [] := by
  have hnone : ∀ {f : Field}, (∀ a ∈ f.attributes, ∃ n, a = .align n ∨ a = .size n) →
      f.isLocated = false := fun {f} hf => by
    rw [Field.isLocated, List.any_eq_false]
    intro a ha
    obtain ⟨n, rfl | rfl⟩ := hf a ha <;> simp
  intro d hd
  rw [Struct.located, List.filter_eq_nil_iff]
  intro f hf
  rw [Bool.not_eq_true]
  apply hnone
  rcases mem_structs_of_module h d hd with ⟨p, rfl⟩ | ⟨t, ht⟩
  · have hattributes : f.attributes = [.size 16] := by
      unfold wrapper at hf
      dsimp only at hf
      split at hf
      · obtain ⟨c, -, rfl⟩ := List.mem_map.mp hf
        rfl
      · rw [List.mem_singleton.mp hf]
    rw [hattributes]
    exact List.forall_mem_singleton.mpr ⟨16, Or.inr rfl⟩
  · simp only [struct, bind_eq_ok_iff] at ht
    obtain ⟨st, -, ht⟩ := ht
    split at ht
    · obtain ⟨fields, hfields, ht⟩ := bind_eq_ok_iff.mp ht
      rw [← Except.ok.inj ht] at hf
      obtain ⟨x, -, hx⟩ := exists_mem_of_forall₂ (mapM_eq_ok_iff.mp hfields) f hf
      obtain ⟨type, -, hx⟩ := bind_eq_ok_iff.mp hx
      rw [← Except.ok.inj hx]
      exact List.forall_mem_nil _
    · obtain ⟨fields, hfields, ht⟩ := bind_eq_ok_iff.mp ht
      rw [← Except.ok.inj ht] at hf
      exact attributes_of_std140Fields hfields f hf

end Members

/-! ### Members that are read -/

/-- Whether a member that has been read is at a location. -/
def ReadMember.isLocated (m : ReadMember) : Bool := m.attributes.any (·.1 == "location")

/-- The members at locations of the structs of a name. -/
def readLocated (name : String) (ds : List (ReadStruct ReadMember)) : List ReadMember :=
  (ds.filter (·.name == name)).flatMap fun d => d.members.filter ReadMember.isLocated

/-- The member that holds what passes through a port, as it is read. -/
structure ReadMember.Holds (r : Registry) (m : ReadMember) (p : Port) : Prop where
  name : m.name = p.name
  type : ∃ t, typeName r p.type = .ok t ∧ m.type = t.tree
  attributes : m.attributes = ("location", .number (toString p.location)) ::
    if r.isInteger p.type then [("interpolate", .word "flat")] else []

section Reading

variable {s : ResolvedStage} {m : Module} {p : Port} {f : Field}

/-- What is read of a member that holds a variable holds it. -/
theorem Field.Holds.read {r : Registry} (h : f.Holds r p) : f.read.Holds r p where
  name := h.name
  type := ⟨f.type, h.type, rfl⟩
  attributes := by
    rw [Field.read, h.attributes]
    split <;> rfl

/-- A member is read with its location. -/
theorem isLocated_read (f : Field) : f.read.isLocated = f.isLocated := by
  rw [ReadMember.isLocated, Field.read, Field.isLocated, List.any_map]
  congr 1
  funext a
  cases a <;> rfl

/-- The members with locations are read from the declarations with the name of their struct. -/
theorem readLocated_map (name : String) (ds : List Struct) :
    readLocated name (ds.map Struct.read) =
      (ds.filter (·.name == name)).flatMap fun d => d.located.map Field.read := by
  have hmembers : ∀ d : Struct, d.read.members.filter ReadMember.isLocated =
      d.located.map Field.read := fun d => by
    rw [Struct.read, List.filter_map, Struct.located]
    exact congrArg _ (List.filter_congr fun f _ => isLocated_read f)
  rw [readLocated, List.filter_map, List.flatMap_map]
  simp only [hmembers]
  rfl

/-- Of two lists of structs, the members of both are read. -/
theorem readLocated_append (name : String) (ds ds' : List (ReadStruct ReadMember)) :
    readLocated name (ds ++ ds') = readLocated name ds ++ readLocated name ds' := by
  rw [readLocated, List.filter_append, List.flatMap_append]
  rfl

/-- No struct of the types of a stage has members at locations, whatever its name. -/
theorem readLocated_structs (h : module s = .ok m) (name : String) :
    readLocated name (m.structs.map Struct.read) = [] := by
  rw [readLocated_map, List.flatMap_eq_nil_iff]
  intro d hd
  rw [isLocated_of_structs h d (List.mem_of_mem_filter hd), List.map_nil]

/-- A struct that holds what enters or leaves a stage, where it is declared. -/
theorem readLocated_declared (name : String) (d : Struct) :
    readLocated name ((Module.declared d).map Struct.read) =
      if d.name = name then d.located.map Field.read else [] := by
  rw [readLocated_map]
  unfold Module.declared
  split
  · rename_i hempty
    rw [Struct.located, List.isEmpty_iff.mp hempty]
    simp
  · by_cases hname : d.name = name <;> simp [hname]

/-- The members at locations that are read of what leaves a vertex. -/
theorem readLocated_output (h : module s = .ok m) (hstage : s.stage = .vertex) :
    readLocated "VertexOutput" ((m.structs ++
      (Module.declared m.input ++ Module.declared m.output)).map
      Struct.read) = m.output.located.map Field.read := by
  have hm := Module.of_module h
  have hinput := name_of_inputStruct hm.input
  have houtput := name_of_outputStruct hm.output
  rw [hstage] at hinput houtput
  rw [List.map_append, List.map_append, readLocated_append, readLocated_append,
    readLocated_structs h, readLocated_declared, readLocated_declared, hinput, houtput,
    if_neg (by decide), if_pos (by decide)]
  rfl

/-- The members at locations that are read of what enters a fragment. -/
theorem readLocated_input (h : module s = .ok m) (hstage : s.stage = .fragment) :
    readLocated "FragmentInput" ((m.structs ++
      (Module.declared m.input ++ Module.declared m.output)).map
      Struct.read) = m.input.located.map Field.read := by
  have hm := Module.of_module h
  have hinput := name_of_inputStruct hm.input
  have houtput := name_of_outputStruct hm.output
  rw [hstage] at hinput houtput
  rw [List.map_append, List.map_append, readLocated_append, readLocated_append,
    readLocated_structs h, readLocated_declared, readLocated_declared, hinput, houtput,
    if_pos (by decide), if_neg (by decide), List.append_nil]
  rfl

end Reading

end Wgsl

/-! ## Variables in GLSL ES -/

namespace Glsl

/-- Whether a variable passes from a stage to another. -/
def Qualifier.isBetween : Qualifier → Bool
  | varying | flatIn | flatOut | smoothIn | smoothOut => true
  | attributeIn | inAt _ | outAt _ => false

/-- How what leaves a stage enters the next. -/
def Qualifier.entering : Qualifier → Qualifier
  | flatOut => flatIn
  | smoothOut => smoothIn
  | q => q

/-- What leaves a stage, as the next one declares it. -/
def Interface.entering (i : Interface) : Interface := { i with qualifier := i.qualifier.entering }

/-- The variables of a source that pass from a stage to another. -/
def Module.between (m : Module) : List Interface := m.interfaces.filter (·.qualifier.isBetween)

/-- How a stage declares what leaves it for another. -/
def Qualifier.leaving (target : Target) (isFlat : Bool) : Qualifier :=
  if target = .webGL then varying else if isFlat then flatOut else smoothOut

/-- The variable that passes through a port, which the stage before declares. -/
structure Interface.Leaves (r : Registry) (target : Target) (i : Interface) (p : Port) : Prop where
  name : i.field.name = p.name
  type : typeName r target p.type = .ok i.field.type
  qualifier : i.qualifier = .leaving target (r.isInteger p.type)

/-- The variable that passes through a port, which the stage after declares. -/
structure Interface.Enters (r : Registry) (target : Target) (i : Interface) (p : Port) : Prop where
  name : i.field.name = p.name
  type : typeName r target p.type = .ok i.field.type
  qualifier : i.qualifier = (Qualifier.leaving target (r.isInteger p.type)).entering

section Variables

variable {s : ResolvedStage} {m : Module} {ports : List Port} {p : Port} {i j : Interface}

/-- What leaves one stage or enters the next is between them. -/
theorem isBetween_leaving (target : Target) (isFlat : Bool) :
    (Qualifier.leaving target isFlat).isBetween = true ∧
      (Qualifier.leaving target isFlat).entering.isBetween = true := by
  unfold Qualifier.leaving
  split
  · exact ⟨rfl, rfl⟩
  · split <;> exact ⟨rfl, rfl⟩

/-- What enters a stage is what leaves the one before, the other way round. -/
theorem entering_eq {r : Registry} {target : Target} (h : i.Leaves r target p)
    (h' : j.Enters r target p) : i.entering = j := by
  obtain ⟨q, t, name⟩ := i
  obtain ⟨q', t', name'⟩ := j
  obtain rfl : name = name' := h.name.trans h'.name.symm
  obtain rfl : t = t' := Except.ok.inj (h.type.symm.trans h'.type)
  have hq : q.entering = q' := by rw [show q = _ from h.qualifier, show q' = _ from h'.qualifier]
  rw [Interface.entering, hq]

/-- An attribute of a vertex comes from no other stage. -/
theorem isBetween_of_attribute (hstage : s.stage = .vertex) {v : VarId} (h : input s v = .ok i) :
    i.qualifier.isBetween = false := by
  simp only [input, bind_eq_ok_iff] at h
  obtain ⟨d, -, f, -, h⟩ := h
  split at h
  · rw [← Except.ok.inj h]
    dsimp only
    simp only [hstage, ↓reduceIte]
    split <;> rfl
  · cases h

/-- The inputs of a fragment stage are the variables that enter it. -/
theorem enters_of_input (hstage : s.stage = .fragment) {v : VarId}
    (hv : ∃ d, s.vars[v.index]? = some d ∧ d.Enters p) (h : input s v = .ok i) :
    i.Enters s.types s.target p := by
  obtain ⟨d, hd, henters⟩ := hv
  simp only [input, bind_eq_ok_iff] at h
  obtain ⟨d', hd', f, hf, h⟩ := h
  obtain rfl := Option.some.inj (hd.symm.trans (ResolvedStage.var_eq_ok_iff.mp hd'))
  simp only [field, bind_eq_ok_iff] at hf
  obtain ⟨t, ht, hf⟩ := hf
  rw [henters.role] at h
  rw [← Except.ok.inj h, ← Except.ok.inj hf]
  refine ⟨henters.name, henters.type ▸ ht, ?_⟩
  rw [← henters.type]
  simp only [hstage, reduceCtorEq, ↓reduceIte, Qualifier.leaving]
  by_cases htarget : s.target = .webGL
  · rw [if_pos htarget, if_pos htarget]
    rfl
  · rw [if_neg htarget, if_neg htarget]
    show (if s.types.isInteger d.type then _ else _) = _
    split <;> rfl

/-- The outputs of a vertex stage are the variables that leave it. -/
theorem leaves_of_output (hstage : s.stage = .vertex) {v : VarId}
    (hv : ∃ d, s.vars[v.index]? = some d ∧ d.Leaves p) {o : Option Interface}
    (h : output s v = .ok o) : ∃ i, o = some i ∧ i.Leaves s.types s.target p := by
  obtain ⟨d, hd, hleaves⟩ := hv
  simp only [output, bind_eq_ok_iff] at h
  obtain ⟨d', hd', f, hf, h⟩ := h
  obtain rfl := Option.some.inj (hd.symm.trans (ResolvedStage.var_eq_ok_iff.mp hd'))
  simp only [field, bind_eq_ok_iff] at hf
  obtain ⟨t, ht, hf⟩ := hf
  rw [hleaves.role] at h
  have htype : typeName s.types s.target p.type = .ok f.type := by
    rw [← Except.ok.inj hf, ← hleaves.type]
    exact ht
  have hname : f.name = p.name := by
    rw [← Except.ok.inj hf, ← hleaves.name]
  simp only [hstage, ↓reduceIte] at h
  by_cases htarget : s.target = .webGL
  · rw [if_pos htarget] at h
    exact ⟨⟨.varying, f⟩, (Except.ok.inj h).symm, hname,
      htype, by simp [Qualifier.leaving, htarget]⟩
  · rw [if_neg htarget] at h
    refine ⟨_, (Except.ok.inj h).symm, hname, htype, ?_⟩
    rw [Qualifier.leaving, if_neg htarget, ← hleaves.type]
    rfl

/-- The outputs of a fragment enter no other stage. -/
theorem isBetween_of_color (hstage : s.stage = .fragment) {v : VarId} {o : Option Interface}
    (h : output s v = .ok o) : ∀ i ∈ o, i.qualifier.isBetween = false := by
  simp only [output, bind_eq_ok_iff] at h
  obtain ⟨d, -, f, -, h⟩ := h
  split at h
  · simp only [hstage] at h
    split at h
    all_goals
      rw [← Except.ok.inj h]
      simp [Qualifier.isBetween]
  · cases h

/-- The variables that leave a vertex for the next stage pass through its ports. -/
theorem Module.Of.between_vertex (h : Module.Of s m) (hstage : s.stage = .vertex)
    (hports : PassThrough Variable.Leaves s.vars s.decls.outputs ports) :
    List.Forall₂ (Interface.Leaves s.types s.target) m.between ports := by
  obtain ⟨inputs, outputs, hinputs, houtputs, hinterfaces⟩ := h.interfaces
  have hattributes : inputs.filter (·.qualifier.isBetween) = [] := by
    rw [List.filter_eq_nil_iff]
    intro i hi
    obtain ⟨v, -, hv⟩ := exists_mem_of_forall₂ hinputs i hi
    simp [isBetween_of_attribute hstage hv]
  have hleaves : List.Forall₂ (Interface.Leaves s.types s.target) (outputs.filterMap id) ports := by
    have hsome := forall₂_of_forall₂ houtputs hports fun v o p ho hv =>
      leaves_of_output hstage hv ho
    clear hinputs houtputs hinterfaces hports
    induction hsome with
    | nil => exact .nil
    | cons ho _ ih =>
        obtain ⟨i, rfl, hi⟩ := ho
        exact .cons hi ih
  have hbetween : (outputs.filterMap id).filter (·.qualifier.isBetween) = outputs.filterMap id := by
    rw [List.filter_eq_self]
    intro i hi
    obtain ⟨p, -, hp⟩ := exists_result_of_forall₂ hleaves i hi
    rw [hp.qualifier]
    exact (isBetween_leaving _ _).1
  rw [Module.between, hinterfaces, List.filter_append, hattributes, List.nil_append, hbetween]
  exact hleaves

/-- The variables that enter a fragment from the stage before pass through its ports. -/
theorem Module.Of.between_fragment (h : Module.Of s m) (hstage : s.stage = .fragment)
    (hports : PassThrough Variable.Enters s.vars s.decls.inputs ports) :
    List.Forall₂ (Interface.Enters s.types s.target) m.between ports := by
  obtain ⟨inputs, outputs, hinputs, houtputs, hinterfaces⟩ := h.interfaces
  have henters := forall₂_of_forall₂ hinputs hports fun v i p hi hv => enters_of_input hstage hv hi
  have hbetween : inputs.filter (·.qualifier.isBetween) = inputs := by
    rw [List.filter_eq_self]
    intro i hi
    obtain ⟨p, -, hp⟩ := exists_result_of_forall₂ henters i hi
    rw [hp.qualifier]
    exact (isBetween_leaving _ _).2
  have hcolors : (outputs.filterMap id).filter (·.qualifier.isBetween) = [] := by
    rw [List.filter_eq_nil_iff]
    intro i hi
    obtain ⟨o, ho, hi⟩ := List.mem_filterMap.mp hi
    obtain ⟨v, -, hv⟩ := exists_mem_of_forall₂ houtputs o ho
    simp [isBetween_of_color hstage hv i hi]
  rw [Module.between, hinterfaces, List.filter_append, hbetween, hcolors, List.append_nil]
  exact henters

end Variables

/-! ### Variables that are read -/

/-- The variable that passes through a port, as it is read. GLSL ES 1.00 has no flat ones. -/
structure Varying.Holds (r : Registry) (target : Target) (v : Varying) (p : Port) : Prop where
  name : v.field.name = p.name
  type : ∃ t, typeName r target p.type = .ok t ∧ v.field.base = t.base ∧ v.field.lengths = t.lengths
  isFlat : v.isFlat = true ↔ target ≠ .webGL ∧ r.isInteger p.type = true

section Reading

variable {m : Module} {direction : String} {r : Registry} {target : Target} {p : Port}
  {i j : Interface}

/-- A variable is flat on both sides or on neither, and never in GLSL ES 1.00. -/
theorem isFlat_leaving (target : Target) (isFlat : Bool) :
    ((Qualifier.leaving target isFlat).isFlat = true ↔ target ≠ .webGL ∧ isFlat = true) ∧
      (Qualifier.leaving target isFlat).entering.isFlat =
        (Qualifier.leaving target isFlat).isFlat := by
  unfold Qualifier.leaving
  by_cases htarget : target = .webGL
  · simp [htarget, Qualifier.isFlat, Qualifier.entering]
  · cases isFlat <;> simp [htarget, Qualifier.isFlat, Qualifier.entering]

/-- A variable passes out of one stage and into the next. -/
theorem passes_leaving (target : Target) (isFlat : Bool) :
    (Qualifier.leaving target isFlat).passes "out" = true ∧
      (Qualifier.leaving target isFlat).entering.passes "in" = true := by
  unfold Qualifier.leaving
  split
  · exact ⟨rfl, rfl⟩
  · split <;> exact ⟨rfl, rfl⟩

/-- What is read of a declaration that a variable leaves by holds it. -/
theorem Interface.Leaves.read (h : i.Leaves r target p) : i.read.Holds r target p where
  name := h.name
  type := ⟨i.field.type, h.type, rfl, rfl⟩
  isFlat := by
    rw [Interface.read, h.qualifier]
    exact (isFlat_leaving _ _).1

/-- What leaves a stage and what enters the next are read alike. -/
theorem read_eq (h : i.Leaves r target p) (h' : j.Enters r target p) : i.read = j.read := by
  have hfield : i.field = j.field := by
    have heq := entering_eq h h'
    rw [← heq]
    rfl
  have hflat : i.qualifier.isFlat = j.qualifier.isFlat := by
    rw [h.qualifier, h'.qualifier, (isFlat_leaving _ _).2]
  rw [Interface.read, Interface.read, hfield, hflat]

/-- Where the variables between stages all pass in a direction, they are those that do. -/
theorem Module.filter_passes (h : ∀ i ∈ m.between, i.qualifier.passes direction = true) :
    m.interfaces.filter (·.qualifier.passes direction) = m.between := by
  have hbetween : ∀ q : Qualifier, q.passes direction = true → q.isBetween = true := by
    intro q hq
    cases q <;> first | rfl | cases hq
  refine List.filter_congr fun i hi => ?_
  rw [Bool.eq_iff_iff]
  exact ⟨hbetween i.qualifier, fun hi' => h i (List.mem_filter.mpr ⟨hi, hi'⟩)⟩

end Reading

end Glsl

/-! ## Programs -/

/-- The texts of two sources declare the same ports: what leaves the first one is read from it as
what enters the second one is. -/
inductive ResolvedStage.Faces (v f : ResolvedStage) (ports : List Port) (vertex fragment : String) :
    Prop
  | wgsl {vs fs : List (ReadStruct Wgsl.ReadMember)} : v.target = .webGPU → f.target = .webGPU →
      Wgsl.readStructs? vertex = some vs → Wgsl.readStructs? fragment = some fs →
      List.Forall₂ (Wgsl.ReadMember.Holds v.types) (Wgsl.readLocated "VertexOutput" vs) ports →
      Wgsl.readLocated "VertexOutput" vs = Wgsl.readLocated "FragmentInput" fs →
      Faces v f ports vertex fragment
  | glsl {varyings : List Glsl.Varying} : v.target ≠ .webGPU → f.target = v.target →
      Glsl.readVaryings? "out" vertex = some varyings →
      Glsl.readVaryings? "in" fragment = some varyings →
      List.Forall₂ (Glsl.Varying.Holds v.types v.target) varyings ports →
      Faces v f ports vertex fragment

section Sources

variable {v f : ResolvedStage} {ports : List Port} {vertex fragment : String}
  (hvstage : v.stage = .vertex) (hfstage : f.stage = .fragment) (htypes : f.types = v.types)
  (hleave : PassThrough Variable.Leaves v.vars v.decls.outputs ports)
  (henter : PassThrough Variable.Enters f.vars f.decls.inputs ports)
  (hvnames : v.HasNames (isName · = true)) (hvbranches : v.HasBranches)
  (hfnames : f.HasNames (isName · = true)) (hfbranches : f.HasBranches)
  (hvertex : v.text = .ok vertex) (hfragment : f.text = .ok fragment)
include hvstage hfstage htypes hleave henter hvnames hvbranches hfnames hfbranches hvertex hfragment

/-- In WGSL the same members are read from both sources. -/
theorem Wgsl.faces (hv : v.target = .webGPU) (hf : f.target = .webGPU) :
    v.Faces f ports vertex fragment := by
  obtain ⟨mv, hmv, hvread⟩ := exists_structs hv hvnames hvbranches hvertex
  obtain ⟨mf, hmf, hfread⟩ := exists_structs hf hfnames hfbranches hfragment
  have houtput := (Module.of_module hmv).located_output hvstage hleave
  have hinput := (Module.of_module hmf).located_input hfstage henter
  rw [htypes] at hinput
  refine .wgsl hv hf hvread hfread ?_ ?_
  · rw [readLocated_output hmv hvstage, List.forall₂_map_left_iff]
    exact houtput.imp fun _ _ => Field.Holds.read
  · have hsame := forall₂_of_forall₂ houtput.flip hinput.flip fun p i j hi hj => hi.unique hj
    rw [List.forall₂_eq_eq_eq] at hsame
    rw [readLocated_output hmv hvstage, readLocated_input hmf hfstage, hsame]

/-- In GLSL ES the same variables are read from both sources. -/
theorem Glsl.faces (hv : v.target ≠ .webGPU) (hf : f.target = v.target) :
    v.Faces f ports vertex fragment := by
  obtain ⟨mv, hmv, hvread⟩ := exists_varyings (Or.inr rfl) hv hvnames hvbranches hvertex
  obtain ⟨mf, hmf, hfread⟩ := exists_varyings (Or.inl rfl) (hf ▸ hv) hfnames hfbranches hfragment
  have hleaves := (Module.of_module hmv).between_vertex hvstage hleave
  have henters := (Module.of_module hmf).between_fragment hfstage henter
  rw [htypes, hf] at henters
  rw [Module.filter_passes fun i hi => by
    obtain ⟨p, -, hp⟩ := exists_result_of_forall₂ hleaves i hi
    rw [hp.qualifier]
    exact (passes_leaving _ _).1] at hvread
  rw [Module.filter_passes fun i hi => by
    obtain ⟨p, -, hp⟩ := exists_result_of_forall₂ henters i hi
    rw [hp.qualifier]
    exact (passes_leaving _ _).2] at hfread
  have hsame : mv.between.map Interface.read = mf.between.map Interface.read := by
    rw [← List.forall₂_eq_eq_eq, List.forall₂_map_left_iff, List.forall₂_map_right_iff]
    exact forall₂_of_forall₂ hleaves.flip henters.flip fun p i j hi hj => read_eq hi hj
  refine .glsl hv hf hvread (hsame ▸ hfread) ?_
  rw [List.forall₂_map_left_iff]
  exact hleaves.imp fun _ _ => Interface.Leaves.read

end Sources

/-- The stages of a program meet, and so do their sources. -/
def Builder.LinksStages (b : Builder) (plan : Binding.Plan) (v f : BuiltStage)
    (program : RenderProgram) : Prop :=
  ∃ ports, v.decls.Meets b.vars ports f.decls ∧
    ∃ sv sf, b.resolve plan v = .ok sv ∧ b.resolve plan f = .ok sf ∧
      sv.Faces sf ports program.vertex.text program.fragment.text

namespace Script

open Authoring Session

/-- The stages of a program that draws are linked. -/
theorem links_of_compileRender {s : Session} {n : Notes} (hs : s.Reachable) (hn : s.KnowsNames n)
    (hnamed : s.builder.IsNamed) {label : String} {vertex fragment : Script} {tolerant : Bool}
    {s' : Builder × Notes} {program : RenderProgram}
    (h : (compileRender label (body (runAll tolerant vertex))
      (body (runAll tolerant fragment))).runFrom (s.builder, n) = (.ok program, s')) :
    ∃ v f plan b, RenderStages (body (runAll tolerant vertex)) (body (runAll tolerant fragment))
      (s.builder, n) v f plan b ∧ b.LinksStages plan v f program := by
  obtain ⟨v, f, s₁, plan, b, t, ht, hown, hvertex, ⟨n', hfragment⟩, hbind, hvsrc, hfsrc⟩ :=
    session_of_compileRender hs hn (traces_body (simulates_runAll tolerant vertex))
      (traces_body (simulates_runAll tolerant fragment)) (retains_body tolerant vertex)
      (retains_body tolerant fragment) h
  obtain ⟨hnamed, hfunctions⟩ := isNamed_of_stages (staysNamed_body tolerant vertex)
    (staysNamed_body tolerant fragment) hnamed hvertex hfragment
  have hv := links_body tolerant vertex
  have hf := links_body tolerant fragment
  obtain ⟨sv, hsv, hvtext⟩ := Builder.source_eq_ok hvsrc
  obtain ⟨sf, hsf, hftext⟩ := Builder.source_eq_ok hfsrc
  obtain ⟨hvtarget, hvvars, -, hvdecls, -⟩ := Builder.resolve_eq_ok hsv
  obtain ⟨hftarget, hfvars, -, hfdecls, -⟩ := Builder.resolve_eq_ok hsf
  obtain ⟨-, hvstage, -⟩ := stage_sound hv.keeps hvertex
  obtain ⟨-, hfstage, -, hextends⟩ := stage_sound hf.keeps hfragment
  obtain ⟨⟨ports, hleave, hnumbered⟩, -⟩ := ports_of_stage hv .nil hvertex
  obtain ⟨-, henter⟩ := ports_of_stage hf hleave hfragment
  obtain ⟨-, hvars, -⟩ := run_bindStages_eq_ok hbind
  -- the fragment stage inherits what the vertex stage has numbered, and the numbers stay
  have hmeets : v.decls.Meets b.vars ports f.decls := by
    rw [hvars]
    exact ⟨hnumbered, hleave.extends hextends, henter (by simp)⟩
  have hvclosed := ht.isClosed hbind hown (by simp) hsv
  have hfclosed := ht.isClosed hbind hown (by simp) hsf
  have hvnames := hasNames_of_isNamed hbind hnamed (hfunctions v (by simp)) hsv
  have hfnames := hasNames_of_isNamed hbind hnamed (hfunctions f (by simp)) hsf
  have hvstage : sv.stage = .vertex := by rw [ResolvedStage.stage, hvdecls, hvstage]
  have hfstage : sf.stage = .fragment := by rw [ResolvedStage.stage, hfdecls, hfstage]
  have htypes : sf.types = sv.types := by
    rw [Builder.types_of_resolve hsf, Builder.types_of_resolve hsv]
  have hleave : PassThrough Variable.Leaves sv.vars sv.decls.outputs ports := by
    rw [hvvars, hvdecls]
    exact hmeets.outputs
  have henter : PassThrough Variable.Enters sf.vars sf.decls.inputs ports := by
    rw [hfvars, hfdecls]
    exact hmeets.inputs
  refine ⟨v, f, plan, b, ⟨s₁, _, hvertex, hfragment, hbind⟩, ports, hmeets, sv, sf, hsv, hsf, ?_⟩
  -- WGSL has locations, and GLSL the names and types of its varyings
  by_cases htarget : sv.target = .webGPU
  · exact Wgsl.faces hvstage hfstage htypes hleave henter hvnames hvclosed.hasBranches hfnames
      hfclosed.hasBranches hvtext hftext htarget (hftarget.trans (hvtarget.symm.trans htarget))
  · exact Glsl.faces hvstage hfstage htypes hleave henter hvnames hvclosed.hasBranches hfnames
      hfclosed.hasBranches hvtext hftext htarget (hftarget.trans hvtarget.symm)

/-- In every program that a script builds in a session, for every target, the inputs of the fragment
stage are the outputs of the vertex stage, numbered in the order of their declaration, and the texts
of the two sources declare them alike. The names that the session has been given are identifiers, as
those that scripts declare always are. -/
theorem stages_linked (s : Session) (n : Notes) (hs : s.Reachable) (hn : s.KnowsNames n)
    (hnamed : s.builder.IsNamed) (label : String) (tolerant : Bool) (vertex fragment : Script)
    (s' : Builder × Notes) (program : RenderProgram)
    (h : (render label (body (runAll tolerant vertex)) (body (runAll tolerant fragment))).runFrom
      (s.builder, n) = (.ok program, s')) :
    ∃ v f plan b, RenderStages (body (runAll tolerant vertex)) (body (runAll tolerant fragment))
        ({ s.builder with phase := .building }, n) v f plan b ∧
      b.LinksStages plan v f program := by
  obtain ⟨s₁, hcompile⟩ := compiled_of_asProgram h
  exact links_of_compileRender hs.building hn
    (IsPersistent.phase (R := Builder.StaysNamed) s.builder .building hnamed) hcompile

/-- A vertex stage with outputs of floats and of integers; declaring one of them again fails. -/
def varyingVertex : Script :=
  [(false, .operation (.output "uv" (.primitive (.vector .f32 2))) none),
    (true, .operation (.output "uv" (.primitive (.ofScalar .f32))) none),
    (false, .operation (.builtin .vertexIndex) none),
    (false, .operation (.output "layer" (.primitive (.ofScalar .i32))) none),
    (false, .main [])]

/-- A fragment stage that does nothing. -/
def plainFragment : Script := [(false, .main [])]

/-- A program with these stages, built by a new builder. -/
def runVarying : Except ShaderError RenderProgram × (Builder × Notes) :=
  (render "p" (body (runAll false varyingVertex)) (body (runAll false plainFragment))).runFrom
    (Builder.new { target := .webGPU }, {})

/-- The program with a varying is built. -/
theorem isOk_runVarying : runVarying.1.isOk = true := by
  decide +kernel

/-- The outputs enter the fragment stage. -/
theorem varying_stages_linked : ∃ program s', runVarying = (.ok program, s') ∧ ∃ v f plan b,
    RenderStages (body (runAll false varyingVertex)) (body (runAll false plainFragment))
      ({ Builder.new { target := .webGPU } with phase := .building }, {}) v f plan b ∧
    b.LinksStages plan v f program := by
  obtain ⟨program, s', hrender⟩ := exists_of_isOk isOk_runVarying
  have hknows : KnowsNames { builder := .new { target := .webGPU } } {} := by simp [KnowsNames]
  exact ⟨program, s', hrender, stages_linked _ {} (.new { target := .webGPU }) hknows
    (Builder.isNamed_new _) "p" false varyingVertex plainFragment s' program hrender⟩

end Script

end WebShader
