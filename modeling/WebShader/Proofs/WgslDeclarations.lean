import WebShader.Proofs.WgslTypes

/-!
# Types in the declarations of WGSL

Every declaration of the source of a stage that keeps to itself spells types by structs and wrappers
that the stage declares.
-/

namespace WebShader

namespace Wgsl

/-! ## Sources -/

/-- The types that a struct spells. -/
def Struct.types (d : Struct) : List TypeName := d.fields.map (·.type)

/-- The types that a function spells. -/
def Function.types (f : Function) : List TypeName :=
  f.params.map (·.type) ++ f.result.toList ++ Code.Stmt.blockTypes f.body

/-- The types that a source spells: in its structs and in those of what enters and leaves the stage,
in its constants, its variables, its functions and the body that its author wrote. -/
def Module.types (m : Module) : List TypeName :=
  (m.structs ++ (Module.declared m.input ++ Module.declared m.output)).flatMap Struct.types ++
    m.constants.flatMap (fun c => c.type :: c.value.types) ++ m.globals.map (·.type) ++
    m.functions.flatMap Function.types ++ Code.Stmt.blockTypes m.main

/-- The types that a source spells where it holds what enters and leaves the stage: in two private
variables and in its entry point. -/
def Module.interfaceTypes (m : Module) : List TypeName :=
  m.interfaceGlobals.map (·.type) ++ m.entry.types

section Sources

variable {s : ResolvedStage}

/-- Wrappers are made of primitive types. -/
theorem isDeclared_wrapper (p : PrimitiveType) : ∀ name ∈ (wrapper p).types, IsDeclared s name := by
  unfold wrapper Struct.types
  split
  · simp
  · simp

/-- The members of a struct of uniforms have declared types. -/
theorem types_of_std140Fields {st : StructType} (hr : s.types.Sound) {isFirst : Bool}
    {members : List (Member × Nat)} {fields : List Field}
    (hmembers : ∀ x ∈ members, s.Covers x.1.type ∧ CoversWrapper s x.1.type)
    (h : std140Fields s.types st isFirst members = .ok fields) :
    ∀ name ∈ fields.map (·.type), IsDeclared s name := by
  induction members generalizing isFirst fields with
  | nil =>
      rw [← Except.ok.inj h]
      simp
  | cons x rest ih =>
      obtain ⟨m, offset⟩ := x
      rw [List.forall_mem_cons] at hmembers
      simp only [std140Fields, bind_eq_ok_iff] at h
      obtain ⟨attributes, -, name, hname, others, hothers, h⟩ := h
      rw [← Except.ok.inj h, List.map_cons, List.forall_mem_cons]
      exact ⟨isDeclared_std140TypeName hr hmembers.1.1 hmembers.1.2 hname,
        ih hmembers.2 hothers⟩

/-- A declared struct spells what its members are spelled by. -/
theorem types_of_struct (hr : s.types.Sound) {t : TypeId} {d : Struct} (ht : s.Covers t)
    (h : struct s t = .ok d) : ∀ name ∈ d.types, IsDeclared s name := by
  simp only [struct, bind_eq_ok_iff] at h
  obtain ⟨st, hst, h⟩ := h
  have hk := ResolvedStage.struct_eq_ok_iff.mp hst
  cases hpolicy : st.policy with
  | packed =>
      simp only [hpolicy, bind_eq_ok_iff] at h
      obtain ⟨fields, hfields, h⟩ := h
      rw [← Except.ok.inj h]
      refine List.forall_mem_map.mpr (forall_of_mapM hfields fun m hm f hfield => ?_)
      obtain ⟨type, htype, hfield⟩ := bind_eq_ok_iff.mp hfield
      rw [← Except.ok.inj hfield]
      exact isDeclared_typeName (ht.member hk hm) htype
  | std140 =>
      simp only [hpolicy, bind_eq_ok_iff] at h
      obtain ⟨fields, hfields, h⟩ := h
      rw [← Except.ok.inj h]
      refine types_of_std140Fields hr (fun x hx => ?_) hfields
      have hm := (List.of_mem_zip hx).1
      exact ⟨ht.member hk hm, coversWrapper_of_member ht hk hpolicy hm⟩

/-- A built-in value has a declared type. -/
theorem type_of_builtinField (b : Builtin) : IsDeclared s (builtinField s b).type :=
  isDeclared_primitive

/-- A variable at a location has a declared type. -/
theorem type_of_locationField {location : Nat} {d : Variable} {isBetween : Bool} {f : Field}
    (hd : s.Covers d.type) (h : locationField s location d isBetween = .ok f) :
    IsDeclared s f.type := by
  simp only [locationField, bind_eq_ok_iff] at h
  obtain ⟨type, htype, h⟩ := h
  rw [← Except.ok.inj h]
  exact isDeclared_typeName hd htype

/-- What enters a stage spells the types of the inputs. -/
theorem types_of_inputStruct (h : s.IsClosed) {d : Struct} (hd : inputStruct s = .ok d) :
    ∀ name ∈ d.types, IsDeclared s name := by
  simp only [inputStruct, bind_eq_ok_iff] at hd
  obtain ⟨inputs, hinputs, hd⟩ := hd
  rw [← Except.ok.inj hd, Struct.types, List.map_append, List.forall_mem_append]
  constructor
  · refine List.forall_mem_map.mpr (forall_of_mapM hinputs fun v hv f hfield => ?_)
    simp only [inputField, bind_eq_ok_iff] at hfield
    obtain ⟨x, hx, hfield⟩ := hfield
    split at hfield
    · exact type_of_locationField
        (h.covers_var (h.globals v (ResolvedStage.mem_globals_of_inputs hv)) hx) hfield
    · cases hfield
  · exact List.forall_mem_map.mpr (List.forall_mem_map.mpr fun b _ => type_of_builtinField b)

/-- What leaves a stage spells the types of the outputs. -/
theorem types_of_outputStruct (h : s.IsClosed) {d : Struct} (hd : outputStruct s = .ok d) :
    ∀ name ∈ d.types, IsDeclared s name := by
  simp only [outputStruct, bind_eq_ok_iff] at hd
  obtain ⟨outputs, houtputs, hd⟩ := hd
  rw [← Except.ok.inj hd, Struct.types, List.map_append, List.map_append, List.forall_mem_append,
    List.forall_mem_append]
  refine ⟨⟨?_, ?_⟩, ?_⟩
  · split
    · simpa using type_of_builtinField .position
    · simp
  · refine List.forall_mem_map.mpr (forall_of_mapM houtputs fun v hv f hfield => ?_)
    simp only [outputField, bind_eq_ok_iff] at hfield
    obtain ⟨x, hx, hfield⟩ := hfield
    split at hfield
    · exact type_of_locationField
        (h.covers_var (h.globals v (ResolvedStage.mem_globals_of_outputs hv)) hx) hfield
    · cases hfield
  · exact List.forall_mem_map.mpr (List.forall_mem_map.mpr fun b _ => type_of_builtinField b)

/-- A constant and its initializer have declared types. -/
theorem types_of_constant (h : s.IsClosed) {c : Variable × Term} {k : Constant}
    (hc : c ∈ s.constants) (hk : constant s c = .ok k) :
    ∀ name ∈ k.type :: k.value.types, IsDeclared s name := by
  obtain ⟨htype, hvalue⟩ := h.covers_constant hc
  simp only [constant, bind_eq_ok_iff] at hk
  obtain ⟨type, hname, value, hexpr, hk⟩ := hk
  rw [← Except.ok.inj hk, List.forall_mem_cons]
  exact ⟨isDeclared_typeName htype hname, spells_expr h.sound hvalue hexpr⟩

/-- What is bound has a declared type. -/
theorem type_of_bound (h : s.IsClosed) (htarget : s.target ≠ .webGL2) {b : Binding.Record}
    {g : Global} (hb : b ∈ s.records) (hg : bound s b = .ok g) : IsDeclared s g.type := by
  unfold bound at hg
  split at hg
  · rename_i t hcontent
    obtain ⟨type, htype, hg⟩ := bind_eq_ok_iff.mp hg
    rw [← Except.ok.inj hg]
    exact isDeclared_typeName (h.covers_block htarget hb hcontent) htype
  · rename_i t readOnly hcontent
    obtain ⟨type, htype, hg⟩ := bind_eq_ok_iff.mp hg
    rw [← Except.ok.inj hg]
    exact isDeclared_typeName (h.covers_variable (h.buffers b hb t readOnly hcontent)) htype
  · rw [← Except.ok.inj hg]
    exact isDeclared_texture
  · rw [← Except.ok.inj hg]
    exact isDeclared_sampler

/-- The variables of a workgroup have declared types. -/
theorem types_of_shared (h : s.IsClosed) {vs : List VarId} {globals : List Global}
    (hvs : ∀ v ∈ vs, s.Owns v) (hg : shared s vs = .ok globals) :
    ∀ name ∈ globals.map (·.type), IsDeclared s name := by
  induction vs generalizing globals with
  | nil =>
      rw [← Except.ok.inj hg]
      simp
  | cons v rest ih =>
      rw [List.forall_mem_cons] at hvs
      simp only [shared, bind_eq_ok_iff] at hg
      obtain ⟨d, hd, hg⟩ := hg
      by_cases hrole : d.role = .workgroup
      · simp only [hrole, ↓reduceIte, bind_eq_ok_iff] at hg
        obtain ⟨type, htype, others, hothers, hg⟩ := hg
        rw [← Except.ok.inj hg, List.map_cons, List.forall_mem_cons]
        exact ⟨isDeclared_typeName (h.covers_var hvs.1 hd) htype, ih hvs.2 hothers⟩
      · rw [if_neg hrole] at hg
        exact ih hvs.2 hg

/-- A function has declared types. -/
theorem types_of_function (h : s.IsClosed) {f : WebShader.Function × List (WebShader.Stmt Term)}
    {g : Function} (hf : f ∈ s.functions) (hg : function s f = .ok g) :
    ∀ name ∈ g.types, IsDeclared s name := by
  obtain ⟨hresult, htypes⟩ := h.covers_function hf
  simp only [function, bind_eq_ok_iff] at hg
  obtain ⟨params, hparams, hg⟩ := hg
  have hparams : ∀ p ∈ params, IsDeclared s p.type := by
    refine forall_of_mapM hparams fun v hv p hfield => ?_
    simp only [bind_eq_ok_iff] at hfield
    obtain ⟨d, hd, type, htype, hfield⟩ := hfield
    rw [← Except.ok.inj hfield]
    exact isDeclared_typeName (h.covers_var (h.params f hf v hv) hd) htype
  have hbody : ∀ {body}, (lowering s).block f.2 = .ok body →
      ∀ name ∈ Code.Stmt.blockTypes body, IsDeclared s name :=
    Code.Lowering.spells_block (spellsTypes_lowering h) f.2 (h.bodies f hf) htypes
  by_cases hvoid : s.types.isVoid f.1.result = true
  · simp only [hvoid, ↓reduceIte, pure_bind, bind_eq_ok_iff] at hg
    obtain ⟨body, hlowered, hg⟩ := hg
    rw [← Except.ok.inj hg]
    simpa [Function.types, or_imp, forall_and] using ⟨hparams, hbody hlowered⟩
  · -- only a function that returns a value spells the type of what it returns
    simp only [hvoid, Bool.false_eq_true, ↓reduceIte, bind_eq_ok_iff] at hg
    obtain ⟨result, hname, body, hlowered, hg⟩ := hg
    obtain ⟨type, htype, rfl⟩ := map_eq_ok_iff.mp hname
    have hdeclared := isDeclared_typeName hresult htype
    rw [← Except.ok.inj hg]
    simpa [Function.types, or_imp, forall_and] using ⟨hparams, hdeclared, hbody hlowered⟩

/-- The struct that holds what enters or leaves a stage spells no more than its members. -/
theorem types_of_declared {P : TypeName → Prop} {d : Struct} (h : ∀ name ∈ d.types, P name) :
    ∀ d' ∈ Module.declared d, ∀ name ∈ d'.types, P name := by
  intro d' hd'
  unfold Module.declared at hd'
  split at hd'
  · cases hd'
  · rw [List.mem_singleton.mp hd']
    exact h

/-- Where a source holds what enters and leaves the stage, it only spells the structs for it. -/
theorem Module.exists_of_interfaceTypes {m : Module} {name : TypeName}
    (h : name ∈ m.interfaceTypes) :
    ∃ d ∈ Module.declared m.input ++ Module.declared m.output, name = .struct d.name := by
  have hbody : Code.Stmt.blockTypes m.entry.body = [] := by
    unfold Module.entry Module.declared
    split <;> split <;>
      simp [Code.Stmt.blockTypes, Code.Stmt.types, Code.Expr.types, Code.Expr.typesOf, stageIn,
        stageOut]
  rw [Module.interfaceTypes, Function.types, hbody, List.append_nil] at h
  simp only [Module.interfaceGlobals, Module.entry, List.map_append, List.map_map,
    List.mem_append, List.mem_map, Option.mem_toList, Option.map_eq_some_iff,
    Function.comp_apply] at h
  rcases h with (⟨d, hd, rfl⟩ | ⟨d, hd, rfl⟩) | ⟨d, hd, rfl⟩ | ⟨d, hd, rfl⟩
  · exact ⟨d, List.mem_append_left _ hd, rfl⟩
  · exact ⟨d, List.mem_append_right _ hd, rfl⟩
  · exact ⟨d, List.mem_append_left _ hd, rfl⟩
  · exact ⟨d, List.mem_append_right _ (List.mem_of_mem_head? hd), rfl⟩

/-- Different primitive types have different wrappers. -/
theorem wrapperName_valid : (PrimitiveType.valid.map wrapperName).Nodup := by decide +kernel

/-- No two wrappers that a stage declares have the same name. -/
theorem nodup_wrapperNames (hr : s.types.Sound) :
    ((declaredWrappers s).map wrapperName).Nodup := by
  have hvalid : ∀ p ∈ declaredWrappers s, p ∈ PrimitiveType.valid := by
    intro p hp
    obtain ⟨-, -, -, m, -, hm⟩ := mem_wrappers_iff.mp hp
    exact PrimitiveType.mem_valid (fault_of_wrapped? hr hm)
  refine List.Nodup.map_on (fun p hp q hq hname => ?_) nodup_wrappers
  exact List.inj_on_of_nodup_map wrapperName_valid (hvalid p hp) (hvalid q hq) hname

/-- The structs of a source, in order: the wrappers that it spells, each once, then the structs of
its stage. Wherever it spells types, it only uses these; the structs of what enters and leaves the
stage are only used to hold it. -/
structure Module.DeclaresStructs (s : ResolvedStage) (m : Module) : Prop where
  structs : ∃ structs, m.structs = (declaredWrappers s).map wrapper ++ structs ∧
    List.Forall₂ (fun t d => struct s t = .ok d) s.structTypes structs
  distinct : ((declaredWrappers s).map wrapperName).Nodup
  types : ∀ name ∈ m.types, IsDeclared s name
  interfaces : ∀ name ∈ m.interfaceTypes,
    ∃ d ∈ Module.declared m.input ++ Module.declared m.output, name = .struct d.name

/-- The source of a stage that keeps to itself declares the structs that it spells. -/
theorem declaresStructs_of_module (h : s.IsClosed) (htarget : s.target ≠ .webGL2) {m : Module}
    (hm : module s = .ok m) : m.DeclaresStructs s := by
  simp only [module, bind_eq_ok_iff] at hm
  obtain ⟨structs, hstructs, input, hinput, output, houtput, constants, hconstants, bindings,
    hbindings, workgroup, hworkgroup, functions, hfunctions, main, hmain, hm⟩ := hm
  have hstructs := mapM_eq_ok_iff.mp hstructs
  rw [← Except.ok.inj hm]
  refine ⟨⟨structs, rfl, hstructs⟩, nodup_wrapperNames h.sound, ?_, fun name hname =>
    Module.exists_of_interfaceTypes hname⟩
  simp only [Module.types, List.forall_mem_append, List.forall_mem_flatMap, List.map_append]
  refine ⟨⟨⟨⟨⟨⟨?_, ?_⟩, ?_, ?_⟩, ?_⟩, ?_, ?_⟩, ?_⟩, ?_⟩
  · intro d hd
    obtain ⟨p, -, rfl⟩ := List.mem_map.mp hd
    exact isDeclared_wrapper p
  · intro d hd
    obtain ⟨t, ht, hd⟩ := exists_mem_of_forall₂ hstructs d hd
    exact types_of_struct h.sound (ResolvedStage.covers_of_mem h.sound.wellFormed ht) hd
  · exact types_of_declared (types_of_inputStruct h hinput)
  · exact types_of_declared (types_of_outputStruct h houtput)
  · exact forall_of_mapM hconstants fun c hc k hk => types_of_constant h hc hk
  · exact List.forall_mem_map.mpr
      (forall_of_mapM hbindings fun b hb g hg => type_of_bound h htarget hb hg)
  · exact types_of_shared h (fun v hv => h.globals v (ResolvedStage.mem_globals_of_resources hv))
      hworkgroup
  · exact forall_of_mapM hfunctions fun f hf g hg => types_of_function h hf hg
  · exact Code.Lowering.spells_block (spellsTypes_lowering h) s.main h.main h.covers_main hmain

end Sources

end Wgsl

end WebShader
