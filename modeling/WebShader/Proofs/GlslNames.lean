import WebShader.Glsl.Module
import WebShader.Proofs.NameScopes

/-!
# Names in GLSL ES

The names that GLSL ES spells expressions by, what its sources declare outside of their functions,
and what the names in them refer to. The outputs of a fragment in GLSL ES 1.00 are built in, and
nothing declares their names.
-/

namespace WebShader

open Code (Prints)

namespace Glsl

/-! ## Spelling -/

/-- The names that GLSL ES spells a mention by; its samplers are part of the textures. -/
def spelling (s : ResolvedStage) : Mention → List String
  | .var v =>
    match variableExpr s v with
    | .ok e => e.names
    | .error _ => []
  | .builtin b => [b.glslName s.target]
  | .sampler _ => []

section Terms

variable {s : ResolvedStage} {allowed called : List String}

/-- No function is called for a variable. -/
theorem calls_variableExpr {v : VarId} {code : Expr} (h : variableExpr s v = .ok code) :
    code.calls = [] := by
  simp only [variableExpr, bind_eq_ok_iff] at h
  obtain ⟨d, -, h⟩ := h
  split at h
  · simp only [bind_eq_ok_iff] at h
    obtain ⟨b, -, h⟩ := h
    rw [← Except.ok.inj h]
    rfl
  · split_ifs at h
    all_goals
      rw [← Except.ok.inj h]
      rfl
  · rw [← Except.ok.inj h]
    rfl

theorem within_literal (value : Literal) : (literal value).Within allowed called := by
  cases value with
  | i32 i =>
      rw [literal]
      split
      · simp
      · simp
  | bool | u32 | f32 | f16 => simp [literal]

theorem within_binary {op : BinaryOp} {lhs rhs code : Expr} {lt rt t : TypeId}
    (hlhs : lhs.Within allowed called) (hrhs : rhs.Within allowed called)
    (h : binary s op lhs lt rhs rt t = .ok code) : code.Within allowed called := by
  unfold binary at h
  split at h
  · split_ifs at h
    · rw [← Except.ok.inj h]
      simpa using And.intro hlhs hrhs
    · unfold remainder at h
      split_ifs at h
      · rw [← Except.ok.inj h]
        simpa using And.intro hlhs hrhs
      · split at h
        · rw [← Except.ok.inj h]
          simpa [toFloat] using And.intro hlhs hrhs
        · cases h
      · rw [← Except.ok.inj h]
        simpa using And.intro hlhs hrhs
    · rw [← Except.ok.inj h]
      simpa using And.intro hlhs hrhs
  · cases h

theorem within_unary (op : UnaryOp) {operand : Expr} (t : TypeId)
    (h : operand.Within allowed called) : (unary s op operand t).Within allowed called := by
  unfold unary
  split
  · simpa using h
  · simpa using h

theorem within_construct {t : TypeId} {args : List Expr} {code : Expr}
    (hargs : ∀ e ∈ args, e.Within allowed called) (h : construct s t args = .ok code) :
    code.Within allowed called := by
  unfold construct at h
  split at h
  · unfold zero at h
    split at h
    · cases h
    · rw [← Except.ok.inj h]
      split
      · simp
      · simp
  · cases hname : typeOf s t with
    | error fault =>
        rw [hname] at h
        cases h
    | ok name =>
        rw [hname] at h
        rw [← Except.ok.inj h, Code.Expr.within_construct]
        exact hargs

theorem within_lookup100 {stage : Stage} {f : Intrinsic} {t : TextureType} {texture code : Expr}
    {args : List Expr} (hargs : ∀ e ∈ texture :: args, e.Within allowed called)
    (h : lookup100 stage f t texture args = some code) : code.Within allowed called := by
  simp only [lookup100] at h
  split at h
  · rw [← Option.some.inj h]
    simpa using hargs
  · rw [← Option.some.inj h]
    simpa using hargs
  · rw [← Option.some.inj h]
    simpa [and_comm, and_assoc, and_left_comm] using hargs
  · cases h

theorem within_lookup300 {f : Intrinsic} {t : TextureType} {texture code : Expr}
    {args : List Expr} (hargs : ∀ e ∈ texture :: args, e.Within allowed called)
    (h : lookup300 f t texture args = some code) : code.Within allowed called := by
  simp only [lookup300] at h
  split at h
  case h_9 =>
    -- the level, if there is one, comes first
    have hlevel : Code.Expr.Within allowed called (args.head?.getD (.literal "0")) := by
      cases args with
      | nil => simp
      | cons level rest => exact hargs level (by simp)
    rw [← Option.some.inj h]
    split
    · simpa using ⟨hargs texture List.mem_cons_self, hlevel⟩
    · simpa using ⟨hargs texture List.mem_cons_self, hlevel⟩
  case h_10 => cases h
  all_goals
    rw [← Option.some.inj h]
    simpa [vec, float, and_assoc] using hargs

theorem within_textureCall {f : Intrinsic} {t : Option TextureType} {args : List Expr} {code : Expr}
    (hargs : ∀ e ∈ args, e.Within allowed called) (h : textureCall s f t args = .ok code) :
    code.Within allowed called := by
  unfold textureCall at h
  split at h
  · cases h
  · split at h
    · cases h
    · dsimp only at h
      split at h
      · rename_i code' hcall
        rw [← Except.ok.inj h]
        split at hcall
        · exact within_lookup100 hargs hcall
        · exact within_lookup300 hargs hcall
      · cases h

mutual

/-- The names of a term are spelled for what it mentions, and its calls are of what it calls. -/
theorem within_expr : (e : Term) → {code : Expr} → (∀ m ∈ e.mentions, spelling s m ⊆ allowed) →
    (∀ f ∈ e.callees, (s.callName? f).toList ⊆ called) → expr s e = .ok code →
      code.Within allowed called
  | .literal _ value, code, _, _, h => by
      rw [expr] at h
      rw [← Except.ok.inj h]
      exact within_literal value
  | .var _ v, code, hm, _, h => by
      rw [expr] at h
      have hv := hm (.var v) (by simp [Term.mentions])
      rw [spelling, h] at hv
      exact ⟨hv, by simp [calls_variableExpr h]⟩
  | .builtin _ b, code, hm, _, h => by
      rw [expr] at h
      have hb := hm (.builtin b) (by simp [Term.mentions])
      rw [← Except.ok.inj h, Code.Expr.within_name]
      exact hb (by simp [spelling])
  | .member _ base i, code, hm, hc, h => by
      rw [Term.mentions] at hm
      rw [Term.callees] at hc
      simp only [expr, bind_eq_ok_iff] at h
      obtain ⟨m, -, value, hvalue, h⟩ := h
      rw [← Except.ok.inj h, Code.Expr.within_field]
      exact within_expr base hm hc hvalue
  | .swizzle _ base mask, code, hm, hc, h => by
      rw [Term.mentions] at hm
      rw [Term.callees] at hc
      simp only [expr, bind_eq_ok_iff] at h
      obtain ⟨value, hvalue, h⟩ := h
      rw [← Except.ok.inj h, Code.Expr.within_field]
      exact within_expr base hm hc hvalue
  | .index _ base i, code, hm, hc, h => by
      rw [Term.mentions, List.forall_mem_append] at hm
      rw [Term.callees, List.forall_mem_append] at hc
      simp only [expr, bind_eq_ok_iff] at h
      obtain ⟨b, hb, index, hindex, h⟩ := h
      rw [← Except.ok.inj h, Code.Expr.within_index]
      exact ⟨within_expr base hm.1 hc.1 hb, within_expr i hm.2 hc.2 hindex⟩
  | .unary t op operand, code, hm, hc, h => by
      rw [Term.mentions] at hm
      rw [Term.callees] at hc
      simp only [expr, bind_eq_ok_iff] at h
      obtain ⟨value, hvalue, h⟩ := h
      rw [← Except.ok.inj h]
      exact within_unary op t (within_expr operand hm hc hvalue)
  | .binary _ op lhs rhs, code, hm, hc, h => by
      rw [Term.mentions, List.forall_mem_append] at hm
      rw [Term.callees, List.forall_mem_append] at hc
      simp only [expr, bind_eq_ok_iff] at h
      obtain ⟨l, hl, r, hr, h⟩ := h
      exact within_binary (within_expr lhs hm.1 hc.1 hl) (within_expr rhs hm.2 hc.2 hr) h
  | .construct t args, code, hm, hc, h => by
      rw [Term.mentions] at hm
      rw [Term.callees] at hc
      simp only [expr, bind_eq_ok_iff] at h
      obtain ⟨values, hvalues, h⟩ := h
      exact within_construct (within_exprs args hm hc hvalues) h
  | .call _ f args, code, hm, hc, h => by
      rw [Term.mentions] at hm
      rw [Term.callees, List.forall_mem_cons] at hc
      simp only [expr, bind_eq_ok_iff] at h
      obtain ⟨fn, hfn, values, hvalues, h⟩ := h
      rw [← Except.ok.inj h, Code.Expr.within_call]
      exact ⟨hc.1 (by simp [ResolvedStage.callName?_of_function hfn]),
        within_exprs args hm hc.2 hvalues⟩
  | .intrinsic _ f args, code, hm, hc, h => by
      rw [Term.mentions, List.forall_mem_append] at hm
      rw [Term.callees] at hc
      simp only [expr, bind_eq_ok_iff] at h
      obtain ⟨lowered, hlowered, h⟩ := h
      have hargs := within_exprs args hm.2 hc hlowered
      split at h
      · exact within_textureCall hargs h
      · rw [← Except.ok.inj h, Code.Expr.within_builtin]
        exact hargs
  | .addressOf _ e, code, _, _, h | .deref _ e, code, _, _, h => by
      rw [expr] at h
      cases h

theorem within_exprs : (es : List Term) → {codes : List Expr} →
    (∀ m ∈ Term.mentionsOf es, spelling s m ⊆ allowed) →
    (∀ f ∈ Term.calleesOf es, (s.callName? f).toList ⊆ called) → exprs s es = .ok codes →
      ∀ code ∈ codes, code.Within allowed called
  | [], codes, _, _, h => by
      rw [exprs] at h
      rw [← Except.ok.inj h]
      simp
  | e :: rest, codes, hm, hc, h => by
      rw [Term.mentionsOf, List.forall_mem_append] at hm
      rw [Term.calleesOf, List.forall_mem_append] at hc
      simp only [exprs, bind_eq_ok_iff] at h
      obtain ⟨value, hvalue, others, hothers, h⟩ := h
      rw [← Except.ok.inj h, List.forall_mem_cons]
      exact ⟨within_expr e hm.1 hc.1 hvalue, within_exprs rest hm.2 hc.2 hothers⟩

end

/-- Arguments are spelled one by one. -/
theorem length_of_exprs {es : List Term} {xs : List Expr} (h : exprs s es = .ok xs) :
    xs.length = es.length := by
  induction es generalizing xs with
  | nil =>
      rw [← Except.ok.inj h]
      rfl
  | cons e es ih =>
      obtain ⟨x, -, h⟩ := bind_eq_ok_iff.mp h
      obtain ⟨xs', hxs, h⟩ := bind_eq_ok_iff.mp h
      rw [← Except.ok.inj h, List.length_cons, List.length_cons, ih hxs]

/-- What an expression is spelled by in GLSL ES. -/
def names (s : ResolvedStage) (e : Term) : List String := e.mentions.flatMap (spelling s)

theorem within_of_expr {e : Term} {code : Expr} (h : expr s e = .ok code) :
    code.Within (names s e) (s.calling e) :=
  within_expr e (fun _ hm _ hname => List.mem_flatMap.mpr ⟨_, hm, hname⟩)
    (fun _ hf _ hname => s.mem_calling hf hname) h

/-- An assignment is printed with the names of its target and its value; an operator that is written
out repeats the target in the value. -/
theorem exists_of_assign {target value : Term} {op : Option BinaryOp} {code : Stmt}
    (h : assign s target op value = .ok code) : ∃ p op' v, code = .assign p op' v ∧
      p.Within (names s target) (s.calling target) ∧
      v.Within (names s target ++ names s value) (s.calling target ++ s.calling value) := by
  simp only [assign, bind_eq_ok_iff] at h
  obtain ⟨t, ht, v, hv, h⟩ := h
  have htarget := within_of_expr ht
  have hvalue := (within_of_expr hv).append_left (names s target) (s.calling target)
  cases op with
  | none => exact ⟨t, none, v, (Except.ok.inj h).symm, htarget, hvalue⟩
  | some op =>
      dsimp only at h
      by_cases hwritten : isWrittenOut op = true
      · rw [if_pos hwritten] at h
        simp only [bind_eq_ok_iff] at h
        obtain ⟨combined, hcombined, h⟩ := h
        refine ⟨t, none, combined, (Except.ok.inj h).symm, htarget, ?_⟩
        exact within_binary (htarget.append_right _ _) hvalue hcombined
      · rw [if_neg hwritten] at h
        exact ⟨t, some op, v, (Except.ok.inj h).symm, htarget, hvalue⟩

/-- GLSL ES keeps the scopes of statements, with the conditions of loops outside of their bodies. -/
theorem keepsScopes_lowering (s : ResolvedStage) :
    (lowering s).KeepsScopes (nameIn s.vars) (names s) s.calling false where
  var h := (nameIn_eq (ResolvedStage.var_eq_ok_iff.mp h)).symm
  expr := within_of_expr
  assign := exists_of_assign
  eval {e code} h := by
    cases hv : expr s e with
    | error fault =>
        simp only [lowering, hv] at h
        cases h
    | ok v =>
        simp only [lowering, hv] at h
        exact ⟨v, Or.inl (Except.ok.inj h).symm, within_of_expr hv⟩
  doWhile body cond := ⟨cond, fun _ _ h => h, rfl⟩

end Terms

/-! ## Sources -/

/-- The name of a uniform. -/
def Uniform.name : Uniform → String
  | block _ name => name
  | plain f => f.name

/-- The names that a source declares outside of its functions. -/
def Module.globalNames (m : Module) : List String :=
  m.constants.map (·.field.name) ++ m.interfaces.map (·.field.name) ++ m.uniforms.map (·.name)

/-- The expressions of a source: the values of its constants, and those of its functions and of its
entry point. -/
def Module.uses (m : Module) : List (Code.Use TypeName) :=
  m.constants.map (fun c => ⟨[m.globalNames], c.value⟩) ++
    m.functions.flatMap (fun f =>
      Code.Stmt.blockUses [m.globalNames] (f.params.map (·.name)) f.body) ++
    Code.Stmt.blockUses [m.globalNames] [] m.main

/-- What a source declares outside of its functions: constants, inputs and outputs, and records. The
outputs of a fragment in GLSL ES 1.00 are built in. -/
def declarations (s : ResolvedStage) : List Declaration :=
  s.decls.constants.map (ownDeclaration s.vars) ++
    (s.decls.inputs.map (ownDeclaration s.vars) ++
      (if s.target = .webGL ∧ s.stage = .fragment then []
        else s.decls.outputs.map (ownDeclaration s.vars))) ++
    s.records.map (·.declaration)

/-- The parts of a source that its names depend on. -/
structure Module.Of (s : ResolvedStage) (m : Module) : Prop where
  constants : List.Forall₂ (fun c k => constant s c = .ok k) s.constants m.constants
  interfaces : ∃ inputs outputs, List.Forall₂ (fun v i => input s v = .ok i) s.decls.inputs inputs ∧
    List.Forall₂ (fun v o => output s v = .ok o) s.decls.outputs outputs ∧
    m.interfaces = inputs ++ outputs.filterMap id
  uniforms : List.Forall₂ (fun b u => uniform s b = .ok u) s.records m.uniforms
  functions : List.Forall₂ (fun f g => function s f = .ok g) s.functions m.functions
  main : (lowering s).block s.main = .ok m.main

section Sources

variable {s : ResolvedStage} {m : Module}

/-- A module is made of the parts of its stage. -/
theorem Module.of_module (h : module s = .ok m) : Module.Of s m := by
  unfold module at h
  obtain ⟨names, h⟩ : ∃ names, (do
      let structs ← s.structTypes.mapM (struct s)
      let constants ← s.constants.mapM (constant s)
      let inputs ← s.decls.inputs.mapM (input s)
      let outputs ← s.decls.outputs.mapM (output s)
      let uniforms ← s.records.mapM (uniform s)
      let functions ← s.functions.mapM (function s)
      let main ← (lowering s).block s.main
      return { isVersion300 := s.target = .webGL2
               extensions := GlslExtension.all.filter s.decls.extensions.contains
               samplers := names, structs, constants
               interfaces := inputs ++ outputs.filterMap id
               uniforms, functions, main }) = Except.ok m := by
    by_cases htarget : s.target = .webGL2
    · simp only [htarget, ↓reduceIte] at h ⊢
      obtain ⟨names, -, h⟩ := bind_eq_ok_iff.mp h
      exact ⟨names, h⟩
    · simp only [htarget, ↓reduceIte, pure_bind] at h ⊢
      exact ⟨[], h⟩
  simp only [bind_eq_ok_iff] at h
  obtain ⟨structs, -, constants, hconstants, inputs, hinputs, outputs, houtputs, uniforms,
    huniforms, functions, hfunctions, main, hmain, h⟩ := h
  rw [← Except.ok.inj h]
  exact ⟨mapM_eq_ok_iff.mp hconstants,
    ⟨_, _, mapM_eq_ok_iff.mp hinputs, mapM_eq_ok_iff.mp houtputs, rfl⟩,
    mapM_eq_ok_iff.mp huniforms, mapM_eq_ok_iff.mp hfunctions, hmain⟩

/-- A declaration has the name it is made for. -/
theorem field_eq_ok {name : String} {t : TypeId} {f : Field} (h : field s name t = .ok f) :
    f.name = name := by
  simp only [field, bind_eq_ok_iff] at h
  obtain ⟨type, -, h⟩ := h
  rw [← Except.ok.inj h]

/-- A constant has its own name, and the code of its initializer. -/
theorem constant_eq_ok {c : Variable × Term} {k : Constant} (h : constant s c = .ok k) :
    k.field.name = c.1.name ∧ expr s c.2 = .ok k.value := by
  simp only [constant, bind_eq_ok_iff] at h
  obtain ⟨f, hf, value, hvalue, h⟩ := h
  rw [← Except.ok.inj h]
  exact ⟨field_eq_ok hf, hvalue⟩

/-- An input has its own name. -/
theorem name_of_input {v : VarId} {i : Interface} (h : input s v = .ok i) :
    i.field.name = nameIn s.vars v := by
  simp only [input, bind_eq_ok_iff] at h
  obtain ⟨d, hd, f, hf, h⟩ := h
  split at h
  · rw [← Except.ok.inj h, field_eq_ok hf, nameIn_eq (ResolvedStage.var_eq_ok_iff.mp hd)]
  · cases h

/-- The outputs of a fragment in GLSL ES 1.00 are not declared, and all others are. -/
theorem name_of_output (hstage : s.stage ≠ .compute) {v : VarId} {o : Option Interface}
    (h : output s v = .ok o) : o.map (·.field.name) =
      if s.target = .webGL ∧ s.stage = .fragment then none else some (nameIn s.vars v) := by
  simp only [output, bind_eq_ok_iff] at h
  obtain ⟨d, hd, f, hf, h⟩ := h
  have hname : f.name = nameIn s.vars v := by
    rw [field_eq_ok hf, nameIn_eq (ResolvedStage.var_eq_ok_iff.mp hd)]
  split at h
  · by_cases htarget : s.target = .webGL
    · simp only [htarget, ↓reduceIte] at h
      rw [← Except.ok.inj h]
      cases hcase : s.stage with
      | vertex => simp [hname]
      | fragment => simp [htarget]
      | compute => exact absurd hcase hstage
    · simp only [htarget, ↓reduceIte] at h
      rw [if_neg fun h => htarget h.1]
      split at h
      · rw [← Except.ok.inj h, ← hname]
        rfl
      · rw [← Except.ok.inj h, ← hname]
        rfl
  · cases h

/-- What is bound has the name of its record. -/
theorem name_of_uniform {b : Binding.Record} {u : Uniform} (h : uniform s b = .ok u) :
    u.name = b.name := by
  unfold uniform at h
  split at h
  · split at h
    · cases h
    · split at h
      · simp only [bind_eq_ok_iff] at h
        obtain ⟨fields, -, h⟩ := h
        rw [← Except.ok.inj h]
        rfl
      · rw [← Except.ok.inj h]
        rfl
  · simp only [bind_eq_ok_iff] at h
    obtain ⟨sampler, -, h⟩ := h
    rw [← Except.ok.inj h]
    rfl
  · cases h

/-- A function has its own name, its parameters and its body. -/
theorem function_eq_ok {f : WebShader.Function × List (WebShader.Stmt Term)} {g : Function}
    (h : function s f = .ok g) : g.name = f.1.name ∧
      g.params.map (·.name) = f.1.params.map (nameIn s.vars) ∧
      (lowering s).block f.2 = .ok g.body := by
  simp only [function, bind_eq_ok_iff] at h
  obtain ⟨result, -, params, hparams, body, hbody, h⟩ := h
  rw [← Except.ok.inj h]
  refine ⟨rfl, (map_eq_map_of_forall₂ (mapM_eq_ok_iff.mp hparams) fun v p hp => ?_).symm, hbody⟩
  simp only [bind_eq_ok_iff] at hp
  obtain ⟨d, hd, hp⟩ := hp
  rw [field_eq_ok hp, nameIn_eq (ResolvedStage.var_eq_ok_iff.mp hd)]

/-- The names that a source declares are those of its declarations. -/
theorem Module.Of.globalNames_eq (h : Module.Of s m) (hs : s.IsSound)
    (hstage : s.stage ≠ .compute) : m.globalNames = (declarations s).map (·.name) := by
  obtain ⟨inputs, outputs, hinputs, houtputs, hinterfaces⟩ := h.interfaces
  have hconstants : m.constants.map (·.field.name) =
      (s.decls.constants.map (ownDeclaration s.vars)).map (·.name) := by
    rw [← map_eq_map_of_forall₂ h.constants fun c k hk => (constant_eq_ok hk).1.symm, List.map_map]
    exact (map_eq_map_of_forall₂ hs.constants fun v c hc => nameIn_eq hc).symm
  have hins : inputs.map (·.field.name) =
      (s.decls.inputs.map (ownDeclaration s.vars)).map (·.name) := by
    rw [List.map_map]
    exact (map_eq_map_of_forall₂ hinputs fun v i hi => (name_of_input hi).symm).symm
  have houts : (outputs.filterMap id).map (·.field.name) =
      (if s.target = .webGL ∧ s.stage = .fragment then []
        else s.decls.outputs.map (ownDeclaration s.vars)).map (·.name) := by
    have hnames := map_eq_map_of_forall₂ houtputs fun v o ho => (name_of_output hstage ho).symm
    have hmap : (outputs.filterMap id).map (·.field.name) =
        (outputs.map (Option.map (·.field.name))).filterMap id := by
      simp [List.map_filterMap, List.filterMap_map]
    rw [hmap, ← hnames]
    split
    · simp [List.filterMap_map]
    · simp [List.filterMap_map, Function.comp_def, ownDeclaration]
  have hrecords : m.uniforms.map (·.name) = (s.records.map (·.declaration)).map (·.name) := by
    rw [List.map_map]
    exact (map_eq_map_of_forall₂ h.uniforms fun b u hu => (name_of_uniform hu).symm).symm
  rw [globalNames, declarations, hinterfaces, hconstants, hrecords, List.map_append, hins, houts,
    List.map_append, List.map_append, List.map_append]

/-- The names of a source are printed for what its stage has recorded. -/
theorem Module.Of.prints (h : Module.Of s m) :
    List.Forall₂ (Prints (nameIn s.vars) (names s) s.calling [m.globalNames]) m.uses
      (s.places false) := by
  have hrules := keepsScopes_lowering s
  refine List.rel_append (List.rel_append ?_ ?_) ?_
  · refine List.forall₂_map_left_iff.mpr (List.forall₂_map_right_iff.mpr ?_)
    exact h.constants.flip.imp fun k c hk =>
      hrules.prints [m.globalNames] [] [] (constant_eq_ok hk).2
  · refine List.rel_flatMap h.functions.flip fun g f hg => ?_
    obtain ⟨-, hnames, hbody⟩ := function_eq_ok hg
    rw [hnames]
    exact (Code.Lowering.prints_block hrules [m.globalNames] [] f.1.params f.2 hbody).2
  · exact (Code.Lowering.prints_block hrules [m.globalNames] [] [] s.main h.main).2

/-- A variable is spelled as the names in its code. -/
theorem spelling_of_variableExpr {v : VarId} {e : Expr} (h : variableExpr s v = .ok e) :
    spelling s (.var v) = e.names := by rw [spelling, h]

/-- A variable that is neither a uniform nor an output is spelled by its name. -/
theorem spelling_of_own {v : VarId} {d : Variable} (hd : s.vars[v.index]? = some d)
    (huniform : d.role.isUniform = false) (houtput : d.role.outputLocation? = none) :
    spelling s (.var v) = [nameIn s.vars v] := by
  have hexpr : variableExpr s v = .ok (.name d.name) := by
    rw [variableExpr, ResolvedStage.var_eq_ok_iff.mpr hd]
    cases hcase : d.role with
    | uniform =>
        rw [hcase] at huniform
        cases huniform
    | output =>
        rw [hcase] at houtput
        cases houtput
    | _ =>
        simp only [bind, Except.bind, hcase]
        rfl
  rw [spelling_of_variableExpr hexpr, Code.Expr.names_name, nameIn_eq hd]

/-- A uniform is spelled by the name of its block. -/
theorem spelling_of_uniform {v : VarId} {d : Variable} {b : Binding.Record}
    (hd : s.vars[v.index]? = some d) (hrole : d.role.isUniform = true)
    (hb : s.plan.recordOf? v = some b) : spelling s (.var v) = [b.name] := by
  have hrecord : s.record v d = .ok b := by rw [ResolvedStage.record, hb]
  have hexpr : variableExpr s v = .ok (.field (.name b.name) d.name) := by
    rw [variableExpr, ResolvedStage.var_eq_ok_iff.mpr hd]
    cases hcase : d.role with
    | uniform =>
        simp only [bind, Except.bind, hcase, hrecord]
        rfl
    | _ =>
        rw [hcase] at hrole
        cases hrole
  rw [spelling_of_variableExpr hexpr, Code.Expr.names_field, Code.Expr.names_name]

/-- An output is spelled by its name, unless it is built in. -/
theorem spelling_of_output {v : VarId} {d : Variable} (hd : s.vars[v.index]? = some d)
    (hrole : d.role.outputLocation?.isSome = true) :
    spelling s (.var v) = if s.target = .webGL ∧ s.stage = .fragment then
      if s.decls.outputs.length = 1 then ["gl_FragColor"] else ["gl_FragData"]
    else [nameIn s.vars v] := by
  cases hcase : d.role with
  | output location =>
      have hexpr : variableExpr s v = .ok (if s.target = .webGL ∧ s.stage = .fragment then
          if s.decls.outputs.length = 1 then .name "gl_FragColor"
          else .index (.name "gl_FragData") (.number location)
          else .name d.name) := by
        rw [variableExpr, ResolvedStage.var_eq_ok_iff.mpr hd]
        simp only [bind, Except.bind, hcase, Bool.and_eq_true, decide_eq_true_eq]
        split
        · split <;> rfl
        · rfl
      rw [spelling_of_variableExpr hexpr]
      split
      · split
        · rw [Code.Expr.names_name]
        · rw [Code.Expr.names_index, Code.Expr.names_name, Code.Expr.names_number,
            List.append_nil]
      · rw [Code.Expr.names_name, nameIn_eq hd]
  | _ =>
      rw [hcase] at hrole
      cases hrole

/-- What a source declares is authored, or is a record with a made-up name. -/
theorem authored_of_mem (hs : s.IsSound) {d : Declaration} (hd : d ∈ declarations s) :
    (∃ v, s.Authored v d) ∨ ∃ b ∈ s.records, d = b.declaration ∧ d.isGenerated = true := by
  rw [declarations, List.mem_append, List.mem_append, List.mem_append] at hd
  rcases hd with (hd | hd | hd) | hd
  · obtain ⟨v, hv, rfl⟩ := List.mem_map.mp hd
    exact Or.inl ⟨v, hs.authored_constant hv⟩
  · obtain ⟨v, hv, rfl⟩ := List.mem_map.mp hd
    exact Or.inl ⟨v, hs.authored_input hv⟩
  · split at hd
    · cases hd
    · obtain ⟨v, hv, rfl⟩ := List.mem_map.mp hd
      exact Or.inl ⟨v, hs.authored_output hv⟩
  · obtain ⟨b, hb, rfl⟩ := List.mem_map.mp hd
    rcases hs.authored_record hb with hgenerated | hauthored
    · exact Or.inr ⟨b, hb, rfl, hgenerated⟩
    · exact Or.inl hauthored

/-- Nothing that a source declares has the name of a built-in output. -/
theorem name_ne_of_mem_declarations (hs : s.IsSound) (htarget : s.target ≠ .webGPU)
    {d : Declaration} (hd : d ∈ declarations s) {name : String}
    (hname : name = "gl_FragColor" ∨ name = "gl_FragData") : d.name ≠ name := by
  intro heq
  rcases authored_of_mem hs hd with ⟨v, hauthored⟩ | ⟨b, hb, rfl, hgenerated⟩
  · -- authors cannot use names that start like those that are built in
    obtain ⟨hv, hnamed⟩ := hauthored.mem
    obtain ⟨x, hx, hidentifier, -⟩ := hs.decls.typed.declared v hv
    rw [← nameIn_eq hx, ← hnamed, heq] at hidentifier
    rcases hname with rfl | rfl
    · exact absurd hidentifier (by decide)
    · exact absurd hidentifier (by decide)
  · have hblock : b.content.block?.isSome = true := by
      rcases Bool.or_eq_true_iff.mp hgenerated with hsampler | hblock
      · exact absurd (hs.bound.samplers b hb hsampler) htarget
      · exact hblock
    obtain ⟨rest, hrest⟩ := hs.bound.blocks b hb hblock
    have hhead : b.name.toList.head? = some 'u' := by
      rw [hrest, String.toList_append]
      rfl
    rw [show b.name = name from heq] at hhead
    rcases hname with rfl | rfl
    · exact absurd hhead (by decide)
    · exact absurd hhead (by decide)

/-- The source of a stage declares what its variables are spelled by. -/
theorem declares (hs : s.IsSound) (htarget : s.target ≠ .webGPU) :
    s.Declares (spelling s) (declarations s) where
  locals v hv := by
    obtain ⟨d, hd, -, hrole | hrole⟩ := hv
    · exact spelling_of_own hd (by rw [hrole]; rfl) (by rw [hrole]; rfl)
    · exact spelling_of_own hd (by rw [hrole]; rfl) (by rw [hrole]; rfl)
  held v hv := by
    rw [StageDecls.globals, List.mem_append, List.mem_append, List.mem_append] at hv
    rcases hv with ((hv | hv) | hv) | hv
    · obtain ⟨d, hd, -, hrole⟩ := hs.decls.typed.constants v hv
      refine Or.inl ⟨ownDeclaration s.vars v, ?_, ?_, List.mem_singleton_self v⟩
      · exact List.mem_append_left _ (List.mem_append_left _ (List.mem_map_of_mem hv))
      · exact spelling_of_own hd (by rw [hrole]; rfl) (by rw [hrole]; rfl)
    · obtain ⟨d, hd, -, hrole⟩ := hs.decls.typed.inputs v hv
      have hkinds : d.role.isUniform = false ∧ d.role.outputLocation? = none := by
        cases hcase : d.role with
        | input => exact ⟨rfl, rfl⟩
        | _ =>
            rw [hcase] at hrole
            cases hrole
      refine Or.inl ⟨ownDeclaration s.vars v, ?_, ?_, List.mem_singleton_self v⟩
      · exact List.mem_append_left _ (List.mem_append_right _
          (List.mem_append_left _ (List.mem_map_of_mem hv)))
      · exact spelling_of_own hd hkinds.1 hkinds.2
    · obtain ⟨d, hd, -, hrole⟩ := hs.decls.typed.outputs v hv
      have hspelled := spelling_of_output hd hrole
      -- a color of WebGL is written to a variable of the language, which nothing declares
      by_cases hcolor : s.target = .webGL ∧ s.stage = .fragment
      · rw [if_pos hcolor] at hspelled
        refine Or.inr ⟨⟨hcolor.1, hcolor.2, hv⟩, ?_⟩
        split at hspelled
        · exact ⟨_, hspelled, by decide, fun d hd =>
            name_ne_of_mem_declarations hs htarget hd (Or.inl rfl)⟩
        · exact ⟨_, hspelled, by decide, fun d hd =>
            name_ne_of_mem_declarations hs htarget hd (Or.inr rfl)⟩
      · rw [if_neg hcolor] at hspelled
        refine Or.inl ⟨ownDeclaration s.vars v, ?_, hspelled, List.mem_singleton_self v⟩
        refine List.mem_append_left _ (List.mem_append_right _ (List.mem_append_right _ ?_))
        rw [if_neg hcolor]
        exact List.mem_map_of_mem hv
    · obtain ⟨d, hd, -, hrole⟩ := hs.decls.typed.resources v hv
      have hgroup := hrole.resolve_right fun h => htarget h.2
      have hworkgroup : d.role ≠ .workgroup := by
        intro hcase
        rw [hcase] at hgroup
        cases hgroup
      obtain ⟨b, hb, hrecord, hname⟩ := hs.bound.resources v hv d hd hworkgroup
      refine Or.inl ⟨b.declaration, List.mem_append_right _ (List.mem_map_of_mem hb), ?_,
        ResolvedStage.holds_of_recordOf? hrecord⟩
      -- a uniform of WebGL 2 is spelled as a member of its block
      by_cases huniform : d.role.isUniform = true
      · exact spelling_of_uniform hd huniform hrecord
      · have huniform : d.role.isUniform = false := by simpa using huniform
        have houtput : d.role.outputLocation? = none := by
          cases hcase : d.role with
          | output =>
              rw [hcase] at hgroup
              cases hgroup
          | _ => rfl
        rw [spelling_of_own hd huniform houtput, nameIn_eq hd, ← hname huniform]
        rfl
  distinct := by
    refine ResolvedStage.distinct_of_authored hs.decls.nodup fun d hd => ?_
    rcases authored_of_mem hs hd with hauthored | ⟨b, -, -, hgenerated⟩
    · exact Or.inr hauthored
    · exact Or.inl hgenerated

end Sources

end Glsl

end WebShader
