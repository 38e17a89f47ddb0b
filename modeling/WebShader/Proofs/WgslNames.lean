import WebShader.Proofs.NameScopes
import WebShader.Wgsl.Module

/-!
# Names in WGSL

The names that WGSL spells expressions by, what its sources declare outside of their functions, and
what the names in them refer to: no name gets into a source but those spelled for the variables,
built-in variables and samplers that an expression mentions.
-/

namespace WebShader

open Code (Prints)

namespace Wgsl

/-! ## Spelling -/

/-- The names that WGSL spells a mention by. -/
def spelling (s : ResolvedStage) : Mention → List String
  | .var v =>
    match variableExpr s v with
    | .ok e => e.names
    | .error _ => []
  | .builtin b => if b.isOutput then stageOut.names else stageIn.names
  | .sampler texture => ((s.plan.samplerOf? texture).map (·.name)).toList

section Wrapping

variable {allowed called : List String}

/-- Loading a wrapped value only repeats its place. -/
theorem within_load {r : Registry} {t : TypeId} {place code : Expr}
    (hplace : place.Within allowed called) (h : load r t place = .ok code) :
    code.Within allowed called := by
  have hitem : ∀ k, (Code.Expr.index place (.number k)).Within allowed called := by
    intro k
    simpa using hplace
  rw [load] at h
  split at h
  · split at h
    · rw [← Except.ok.inj h]
      simpa using fun _ _ => hplace
    · rwa [← Except.ok.inj h]
  · rename_i element n hkind
    by_cases hn : n = 0
    · rw [if_pos hn] at h
      cases h
    · rw [if_neg hn] at h
      simp only [bind_eq_ok_iff] at h
      obtain ⟨items, hitems, name, -, h⟩ := h
      rw [← Except.ok.inj h, Code.Expr.within_construct]
      refine forall_of_mapM hitems fun k _ e hk => ?_
      split at hk
      · rw [← Except.ok.inj hk, Code.Expr.within_field]
        exact hitem k
      · split at hk
        · exact within_load (hitem k) hk
        · rw [← Except.ok.inj hk]
          exact hitem k
  · rwa [← Except.ok.inj h]
termination_by t.index

/-- Wrapping a value only repeats it. -/
theorem within_store {r : Registry} {t : TypeId} {value code : Expr}
    (hvalue : value.Within allowed called) (h : store r t value = .ok code) :
    code.Within allowed called := by
  have hitem : ∀ k, (Code.Expr.index value (.number k)).Within allowed called := by
    intro k
    simpa using hvalue
  rw [store] at h
  split at h
  · split at h
    · rw [← Except.ok.inj h]
      simpa using fun _ _ => hvalue
    · rwa [← Except.ok.inj h]
  · rename_i element n hkind
    by_cases hn : n = 0
    · rw [if_pos hn] at h
      cases h
    · rw [if_neg hn] at h
      simp only [bind_eq_ok_iff] at h
      obtain ⟨items, hitems, name, -, h⟩ := h
      rw [← Except.ok.inj h, Code.Expr.within_construct]
      refine forall_of_mapM hitems fun k _ e hk => ?_
      split at hk
      · rw [← Except.ok.inj hk]
        simpa using hitem k
      · split at hk
        · exact within_store (hitem k) hk
        · rw [← Except.ok.inj hk]
          exact hitem k
  · rwa [← Except.ok.inj h]
termination_by t.index

theorem within_converted {s : ResolvedStage} {e : Term} {place code : Expr}
    (hplace : place.Within allowed called) (h : converted s e place = .ok code) :
    code.Within allowed called := by
  unfold converted at h
  split at h
  · exact within_load hplace h
  · rwa [← Except.ok.inj h]

theorem within_wrappedElement {r : Registry} {t : TypeId} {place index code : Expr}
    {known : Option Nat} (hplace : place.Within allowed called)
    (hindex : index.Within allowed called)
    (h : wrappedElement r t place known index = .ok code) : code.Within allowed called := by
  unfold wrappedElement at h
  split at h
  · split at h
    · rw [← Except.ok.inj h, Code.Expr.within_field]
      exact hplace
    · cases hload : load r t place with
      | error fault =>
          rw [hload] at h
          cases h
      | ok value =>
          rw [hload] at h
          rw [← Except.ok.inj h, Code.Expr.within_index]
          exact ⟨within_load hplace hload, hindex⟩
  · split at h
    · rw [← Except.ok.inj h, Code.Expr.within_field, Code.Expr.within_index]
      exact ⟨hplace, hindex⟩
    · rw [← Except.ok.inj h, Code.Expr.within_index]
      exact ⟨hplace, hindex⟩
  · cases h

theorem within_shiftAmount (r : Registry) (t : TypeId) {e : Expr} (he : e.Within allowed called) :
    (shiftAmount r t e).Within allowed called := by
  unfold shiftAmount
  split
  · split
    · simpa using he
    · exact he
  · exact he

theorem within_storeMembers {r : Registry} {args : List (Expr × Member)} {values : List Expr}
    (hargs : ∀ x ∈ args, x.1.Within allowed called) (h : storeMembers r args = .ok values) :
    ∀ e ∈ values, e.Within allowed called := by
  induction args generalizing values with
  | nil =>
      rw [← Except.ok.inj h]
      simp
  | cons x rest ih =>
      obtain ⟨value, m⟩ := x
      rw [List.forall_mem_cons] at hargs
      rw [storeMembers] at h
      by_cases hpadded : isPadded r m.type = true
      · simp only [hpadded, ↓reduceIte, bind_eq_ok_iff] at h
        obtain ⟨stored, hstored, others, hothers, h⟩ := h
        rw [← Except.ok.inj h, List.forall_mem_cons]
        exact ⟨within_store hargs.1 hstored, ih hargs.2 hothers⟩
      · simp only [hpadded, Bool.false_eq_true, ↓reduceIte, pure_bind, bind_eq_ok_iff] at h
        obtain ⟨others, hothers, h⟩ := h
        rw [← Except.ok.inj h, List.forall_mem_cons]
        exact ⟨hargs.1, ih hargs.2 hothers⟩

theorem within_construct {s : ResolvedStage} {t : TypeId} {args : List Expr} {code : Expr}
    (hargs : ∀ e ∈ args, e.Within allowed called) (h : construct s t args = .ok code) :
    code.Within allowed called := by
  unfold construct at h
  split at h
  · split at h
    · rename_i struct hstruct hpolicy
      cases hstored : storeMembers s.types (args.zip struct.members) with
      | error fault =>
          rw [hstored] at h
          cases h
      | ok values =>
          rw [hstored] at h
          rw [← Except.ok.inj h, Code.Expr.within_construct]
          refine within_storeMembers (fun x hx => hargs x.1 ?_) hstored
          exact (List.of_mem_zip hx).1
    · rw [← Except.ok.inj h, Code.Expr.within_construct]
      exact hargs
  · cases hname : typeName s.types t with
    | error fault =>
        rw [hname] at h
        cases h
    | ok name =>
        rw [hname] at h
        rw [← Except.ok.inj h, Code.Expr.within_construct]
        exact hargs

end Wrapping

section Terms

variable {s : ResolvedStage} {allowed called : List String}

/-- No function is called for a variable. -/
theorem calls_variableExpr {v : VarId} {code : Expr} (h : variableExpr s v = .ok code) :
    code.calls = [] := by
  simp only [variableExpr, bind_eq_ok_iff] at h
  obtain ⟨d, -, h⟩ := h
  split at h
  case h_1 | h_4 | h_5 | h_6 =>
    simp only [bind_eq_ok_iff] at h
    obtain ⟨b, -, h⟩ := h
    rw [← Except.ok.inj h]
    rfl
  all_goals
    rw [← Except.ok.inj h]
    rfl

theorem within_sampling (stage : Stage) (f : Intrinsic) {args : List Expr}
    (hargs : ∀ e ∈ args, e.Within allowed called) :
    (sampling stage f args).Within allowed called := by
  have hlevel : ∀ e ∈ args ++ [.literal "0.0"], Code.Expr.Within allowed called e :=
    List.forall_mem_append.mpr ⟨hargs, by simp⟩
  unfold sampling
  split
  · simpa using hargs
  · rw [Code.Expr.within_builtin]
    exact hlevel
  · simpa using hargs
  · simpa using hargs
  · simpa using hargs

theorem within_textureCall {f : Intrinsic} {args : List Term} {lowered : List Expr} {code : Expr}
    (hlowered : ∀ e ∈ lowered, e.Within allowed called)
    (hsampler : ∀ m ∈ Term.samplerOf args, spelling s m ⊆ allowed)
    (h : textureCall s f args.head? lowered = .ok code) : code.Within allowed called := by
  unfold textureCall at h
  split at h
  · cases h
  · rename_i t rest
    split at h
    · rw [← Except.ok.inj h, Code.Expr.within_builtin]
      exact hlowered
    · split at h
      · rename_i type v hhead
        simp only [bind_eq_ok_iff] at h
        obtain ⟨d, -, h⟩ := h
        split at h
        -- the sampler that was generated for the texture follows it as an argument
        · rename_i b hb
          have hname : b.name ∈ allowed := by
            obtain ⟨more, rfl⟩ : ∃ more, args = .var type v :: more := by
              cases args with
              | nil => cases hhead
              | cons a more => exact ⟨more, by rw [Option.some.inj hhead]⟩
            apply hsampler (.sampler v) (by simp [Term.samplerOf])
            simp [spelling, hb]
          rw [← Except.ok.inj h]
          apply within_sampling
          rw [List.forall_mem_cons] at hlowered ⊢
          refine ⟨hlowered.1, List.forall_mem_cons.mpr ⟨?_, hlowered.2⟩⟩
          simpa using hname
        · cases h
      · cases h

theorem within_builtinCall {f : Intrinsic} {args : List Expr} {code : Expr}
    (hargs : ∀ e ∈ args, e.Within allowed called) (h : builtinCall f args = .ok code) :
    code.Within allowed called := by
  unfold builtinCall at h
  split at h
  · rw [← Except.ok.inj h, Code.Expr.within_floored]
    simpa using hargs
  · cases h
  · rw [← Except.ok.inj h, Code.Expr.within_builtin]
    exact hargs

theorem within_literal (value : Literal) : (literal value).Within allowed called := by
  cases value with
  | i32 i =>
      rw [literal]
      split
      · simp
      · simp
  | bool | u32 | f32 | f16 => simp [literal]

mutual

/-- The names of a term are spelled for what it mentions, and its calls are of what it calls. -/
theorem within_place : (e : Term) → {code : Expr} → (∀ m ∈ e.mentions, spelling s m ⊆ allowed) →
    (∀ f ∈ e.callees, (s.callName? f).toList ⊆ called) → place s e = .ok code →
      code.Within allowed called
  | .literal _ value, code, _, _, h => by
      rw [place] at h
      rw [← Except.ok.inj h]
      exact within_literal value
  | .var _ v, code, hm, _, h => by
      rw [place] at h
      have hv := hm (.var v) (by simp [Term.mentions])
      rw [spelling, h] at hv
      exact ⟨hv, by simp [calls_variableExpr h]⟩
  | .builtin _ b, code, hm, _, h => by
      rw [place] at h
      have hb := hm (.builtin b) (by simp [Term.mentions])
      rw [← Except.ok.inj h, Code.Expr.within_field]
      rw [spelling] at hb
      split at hb
      · rename_i hout
        rw [if_pos hout]
        exact ⟨hb, List.nil_subset _⟩
      · rename_i hout
        rw [if_neg hout]
        exact ⟨hb, List.nil_subset _⟩
  | .member _ base i, code, hm, hc, h => by
      rw [Term.mentions] at hm
      rw [Term.callees] at hc
      simp only [place, bind_eq_ok_iff] at h
      obtain ⟨m, -, p, hp, value, hvalue, h⟩ := h
      rw [← Except.ok.inj h, Code.Expr.within_field]
      exact within_converted (within_place base hm hc hp) hvalue
  | .swizzle _ base mask, code, hm, hc, h => by
      rw [Term.mentions] at hm
      rw [Term.callees] at hc
      simp only [place, bind_eq_ok_iff] at h
      obtain ⟨p, hp, value, hvalue, h⟩ := h
      rw [← Except.ok.inj h, Code.Expr.within_field]
      exact within_converted (within_place base hm hc hp) hvalue
  | .index _ base i, code, hm, hc, h => by
      rw [Term.mentions, List.forall_mem_append] at hm
      rw [Term.callees, List.forall_mem_append] at hc
      simp only [place, bind_eq_ok_iff] at h
      obtain ⟨b, hb, p, hp, index, hindex, h⟩ := h
      have hbase := within_place base hm.1 hc.1 hb
      have hi := within_converted (within_place i hm.2 hc.2 hp) hindex
      split at h
      · exact within_wrappedElement hbase hi h
      · rw [← Except.ok.inj h, Code.Expr.within_index]
        exact ⟨hbase, hi⟩
  | .unary _ op operand, code, hm, hc, h => by
      rw [Term.mentions] at hm
      rw [Term.callees] at hc
      simp only [place, bind_eq_ok_iff] at h
      obtain ⟨p, hp, value, hvalue, h⟩ := h
      rw [← Except.ok.inj h, Code.Expr.within_unary]
      exact within_converted (within_place operand hm hc hp) hvalue
  | .binary _ op lhs rhs, code, hm, hc, h => by
      rw [Term.mentions, List.forall_mem_append] at hm
      rw [Term.callees, List.forall_mem_append] at hc
      simp only [place, bind_eq_ok_iff] at h
      obtain ⟨p, hp, l, hl, q, hq, r, hr, h⟩ := h
      have hleft := within_converted (within_place lhs hm.1 hc.1 hp) hl
      have hright := within_converted (within_place rhs hm.2 hc.2 hq) hr
      rw [← Except.ok.inj h, Code.Expr.within_binary]
      refine ⟨hleft, ?_⟩
      split
      · exact within_shiftAmount _ _ hright
      · exact hright
  | .construct t args, code, hm, hc, h => by
      rw [Term.mentions] at hm
      rw [Term.callees] at hc
      simp only [place, bind_eq_ok_iff] at h
      obtain ⟨values, hvalues, h⟩ := h
      exact within_construct (within_values args hm hc hvalues) h
  | .call _ f args, code, hm, hc, h => by
      rw [Term.mentions] at hm
      rw [Term.callees, List.forall_mem_cons] at hc
      simp only [place, bind_eq_ok_iff] at h
      obtain ⟨fn, hfn, values, hvalues, h⟩ := h
      rw [← Except.ok.inj h, Code.Expr.within_call]
      exact ⟨hc.1 (by simp [ResolvedStage.callName?_of_function hfn]),
        within_values args hm hc.2 hvalues⟩
  | .intrinsic _ f args, code, hm, hc, h => by
      rw [Term.mentions, List.forall_mem_append] at hm
      rw [Term.callees] at hc
      simp only [place, bind_eq_ok_iff] at h
      obtain ⟨lowered, hlowered, h⟩ := h
      have hargs := within_values args hm.2 hc hlowered
      split at h
      · exact within_textureCall hargs hm.1 h
      · exact within_builtinCall hargs h
  | .addressOf _ e, code, hm, hc, h => by
      rw [Term.mentions] at hm
      rw [Term.callees] at hc
      rw [place] at h
      by_cases hpadded : isPaddedPlace s e = true
      · rw [if_pos hpadded] at h
        cases h
      · rw [if_neg hpadded] at h
        simp only [bind_eq_ok_iff] at h
        obtain ⟨p, hp, h⟩ := h
        rw [← Except.ok.inj h, Code.Expr.within_addressOf]
        exact within_place e hm hc hp
  | .deref _ pointer, code, hm, hc, h => by
      rw [Term.mentions] at hm
      rw [Term.callees] at hc
      simp only [place, bind_eq_ok_iff] at h
      obtain ⟨p, hp, value, hvalue, h⟩ := h
      rw [← Except.ok.inj h, Code.Expr.within_deref]
      exact within_converted (within_place pointer hm hc hp) hvalue

theorem within_values : (es : List Term) → {codes : List Expr} →
    (∀ m ∈ Term.mentionsOf es, spelling s m ⊆ allowed) →
    (∀ f ∈ Term.calleesOf es, (s.callName? f).toList ⊆ called) → values s es = .ok codes →
      ∀ code ∈ codes, code.Within allowed called
  | [], codes, _, _, h => by
      rw [values] at h
      rw [← Except.ok.inj h]
      simp
  | e :: rest, codes, hm, hc, h => by
      rw [Term.mentionsOf, List.forall_mem_append] at hm
      rw [Term.calleesOf, List.forall_mem_append] at hc
      simp only [values, bind_eq_ok_iff] at h
      obtain ⟨p, hp, value, hvalue, others, hothers, h⟩ := h
      rw [← Except.ok.inj h, List.forall_mem_cons]
      exact ⟨within_converted (within_place e hm.1 hc.1 hp) hvalue,
        within_values rest hm.2 hc.2 hothers⟩

end

/-- What an expression is spelled by in WGSL. -/
def names (s : ResolvedStage) (e : Term) : List String := e.mentions.flatMap (spelling s)

theorem within_of_place {e : Term} {code : Expr} (h : place s e = .ok code) :
    code.Within (names s e) (s.calling e) :=
  within_place e (fun _ hm _ hname => List.mem_flatMap.mpr ⟨_, hm, hname⟩)
    (fun _ hf _ hname => s.mem_calling hf hname) h

theorem within_of_expr {e : Term} {code : Expr} (h : expr s e = .ok code) :
    code.Within (names s e) (s.calling e) := by
  simp only [expr, bind_eq_ok_iff] at h
  obtain ⟨p, hp, h⟩ := h
  exact within_converted (within_of_place hp) h

/-- An assignment is printed with the names of its target and its value; what is written out or
wrapped repeats the target in the value. -/
theorem exists_of_assign {target value : Term} {op : Option BinaryOp} {code : Stmt}
    (h : assign s target op value = .ok code) : ∃ p op' v, code = .assign p op' v ∧
      p.Within (names s target) (s.calling target) ∧
      v.Within (names s target ++ names s value) (s.calling target ++ s.calling value) := by
  unfold assign at h
  split at h
  -- a target that is padded is stored with wrappers, and its value before is loaded from them
  · simp only [assignWrapped, bind_eq_ok_iff] at h
    obtain ⟨t, ht, v, hv, h⟩ := h
    have hvalue := (within_of_expr hv).append_left (names s target) (s.calling target)
    cases op with
    | none =>
        simp only [pure_bind, bind_eq_ok_iff] at h
        obtain ⟨stored, hstored, h⟩ := h
        exact ⟨t, none, stored, (Except.ok.inj h).symm, within_of_place ht,
          within_store hvalue hstored⟩
    | some op =>
        simp only [bind_eq_ok_iff] at h
        obtain ⟨combined, hcombined, stored, hstored, h⟩ := h
        refine ⟨t, none, stored, (Except.ok.inj h).symm, within_of_place ht,
          within_store ?_ hstored⟩
        cases hload : load s.types target.type t with
        | error fault =>
            rw [hload] at hcombined
            cases hcombined
        | ok before =>
            rw [hload] at hcombined
            have hbefore := within_load (within_of_place ht) hload
            rw [← Except.ok.inj hcombined, Code.Expr.within_binary]
            exact ⟨hbefore.append_right _ _, hvalue⟩
  · simp only [assignPlain, bind_eq_ok_iff] at h
    obtain ⟨t, ht, v, hv, h⟩ := h
    have htarget := within_of_expr ht
    have hvalue := (within_of_expr hv).append_left (names s target) (s.calling target)
    cases op with
    | none => exact ⟨t, none, v, (Except.ok.inj h).symm, htarget, hvalue⟩
    | some op =>
        dsimp only at h
        split_ifs at h
        · refine ⟨t, none, .binary op t v, (Except.ok.inj h).symm, htarget, ?_⟩
          rw [Code.Expr.within_binary]
          exact ⟨htarget.append_right _ _, hvalue⟩
        · refine ⟨t, some op, _, (Except.ok.inj h).symm, htarget, ?_⟩
          exact within_shiftAmount _ _ hvalue
        · exact ⟨t, some op, v, (Except.ok.inj h).symm, htarget, hvalue⟩

/-- WGSL keeps the scopes of statements, with the conditions of loops inside their bodies. -/
theorem keepsScopes_lowering (s : ResolvedStage) :
    (lowering s).KeepsScopes (nameIn s.vars) (names s) s.calling true where
  var h := (nameIn_eq (ResolvedStage.var_eq_ok_iff.mp h)).symm
  expr := within_of_expr
  assign := exists_of_assign
  eval {e code} h := by
    simp only [lowering, eval, bind_eq_ok_iff] at h
    obtain ⟨v, hv, h⟩ := h
    refine ⟨v, ?_, within_of_expr hv⟩
    rw [← Except.ok.inj h]
    split
    · exact Or.inl rfl
    · exact Or.inr rfl
  doWhile body cond := ⟨.unary .not cond, fun _ _ h => Code.Expr.within_unary.mpr h, rfl⟩

end Terms

/-! ## Sources -/

/-- The names that a source declares outside of its functions. -/
def Module.globalNames (m : Module) : List String :=
  m.constants.map (·.name) ++ (m.globals ++ m.interfaceGlobals).map (·.name)

/-- The expressions of a source: the values of its constants, and those of its functions and of the
body that its entry point runs. -/
def Module.uses (m : Module) : List (Code.Use TypeName) :=
  m.constants.map (fun c => ⟨[m.globalNames], c.value⟩) ++
    m.functions.flatMap (fun f =>
      Code.Stmt.blockUses [m.globalNames] (f.params.map (·.name)) f.body) ++
    Code.Stmt.blockUses [m.globalNames] [] m.main

/-- What a source declares outside of its functions: constants, records, the variables of the
workgroup, and the variables that hold what enters and leaves the stage. -/
def Module.declarations (s : ResolvedStage) (m : Module) : List Declaration :=
  s.decls.constants.map (ownDeclaration s.vars) ++
    (s.records.map (·.declaration) ++
      (s.decls.resources.filter fun v => s.vars[v.index]?.any (·.role == .workgroup)).map
        (ownDeclaration s.vars) ++
      ((Module.declared m.input).map (fun _ => ⟨"stage_in", s.decls.inputs, true⟩) ++
        (Module.declared m.output).map fun _ => ⟨"stage_out", s.decls.outputs, true⟩))

/-- The parts of a source that its names depend on. -/
structure Module.Of (s : ResolvedStage) (m : Module) : Prop where
  input : inputStruct s = .ok m.input
  output : outputStruct s = .ok m.output
  constants : List.Forall₂ (fun c k => constant s c = .ok k) s.constants m.constants
  globals : ∃ bindings workgroup, s.records.mapM (bound s) = .ok bindings ∧
    shared s s.decls.resources = .ok workgroup ∧ m.globals = bindings ++ workgroup
  functions : List.Forall₂ (fun f g => function s f = .ok g) s.functions m.functions
  main : (lowering s).block s.main = .ok m.main

section Sources

variable {s : ResolvedStage} {m : Module}

/-- A module is made of the parts of its stage. -/
theorem Module.of_module (h : module s = .ok m) : Module.Of s m := by
  simp only [module, bind_eq_ok_iff] at h
  obtain ⟨structs, -, input, hinput, output, houtput, constants, hconstants, bindings, hbindings,
    workgroup, hworkgroup, functions, hfunctions, main, hmain, h⟩ := h
  rw [← Except.ok.inj h]
  exact ⟨hinput, houtput, mapM_eq_ok_iff.mp hconstants, ⟨_, _, hbindings, hworkgroup, rfl⟩,
    mapM_eq_ok_iff.mp hfunctions, hmain⟩

/-- A constant has its own name, and the code of its initializer. -/
theorem constant_eq_ok {c : Variable × Term} {k : Constant} (h : constant s c = .ok k) :
    k.name = c.1.name ∧ expr s c.2 = .ok k.value := by
  simp only [constant, bind_eq_ok_iff] at h
  obtain ⟨type, -, value, hvalue, h⟩ := h
  rw [← Except.ok.inj h]
  exact ⟨rfl, hvalue⟩

/-- What is bound has the name of its record. -/
theorem name_of_bound {b : Binding.Record} {g : Global} (h : bound s b = .ok g) :
    g.name = b.name := by
  unfold bound at h
  split at h
  · simp only [bind_eq_ok_iff] at h
    obtain ⟨type, -, h⟩ := h
    rw [← Except.ok.inj h]
  · simp only [bind_eq_ok_iff] at h
    obtain ⟨type, -, h⟩ := h
    rw [← Except.ok.inj h]
  · rw [← Except.ok.inj h]
  · rw [← Except.ok.inj h]

/-- The variables of a workgroup have their own names. -/
theorem names_of_shared {vs : List VarId} {globals : List Global} (h : shared s vs = .ok globals) :
    globals.map (·.name) =
      (vs.filter fun v => s.vars[v.index]?.any (·.role == .workgroup)).map (nameIn s.vars) := by
  induction vs generalizing globals with
  | nil =>
      rw [← Except.ok.inj h]
      rfl
  | cons v rest ih =>
      simp only [shared, bind_eq_ok_iff] at h
      obtain ⟨d, hd, h⟩ := h
      have hd := ResolvedStage.var_eq_ok_iff.mp hd
      by_cases hrole : d.role = .workgroup
      · simp only [hrole, ↓reduceIte, bind_eq_ok_iff] at h
        obtain ⟨type, -, others, hothers, h⟩ := h
        rw [← Except.ok.inj h, List.filter_cons_of_pos (by simp [hd, hrole]), List.map_cons,
          List.map_cons, ih hothers, nameIn_eq hd]
      · rw [if_neg hrole] at h
        rw [List.filter_cons_of_neg (by simp [hd, hrole]), ih h]

/-- A function has its name in the source, its parameters and its body. -/
theorem function_eq_ok {f : WebShader.Function × List (WebShader.Stmt Term)} {g : Function}
    (h : function s f = .ok g) : g.name = s.functionName f.1 ∧
      g.params.map (·.name) = f.1.params.map (nameIn s.vars) ∧
      (lowering s).block f.2 = .ok g.body := by
  simp only [function, bind_eq_ok_iff] at h
  obtain ⟨params, hparams, h⟩ := h
  have hnames : f.1.params.map (nameIn s.vars) = params.map (·.name) := by
    refine map_eq_map_of_forall₂ (mapM_eq_ok_iff.mp hparams) fun v p hp => ?_
    simp only [bind_eq_ok_iff] at hp
    obtain ⟨d, hd, type, -, hp⟩ := hp
    rw [← Except.ok.inj hp, nameIn_eq (ResolvedStage.var_eq_ok_iff.mp hd)]
  by_cases hvoid : s.types.isVoid f.1.result = true
  · simp only [hvoid, ↓reduceIte, pure_bind, bind_eq_ok_iff] at h
    obtain ⟨body, hbody, h⟩ := h
    rw [← Except.ok.inj h]
    exact ⟨rfl, hnames.symm, hbody⟩
  · simp only [hvoid, Bool.false_eq_true, ↓reduceIte, bind_eq_ok_iff] at h
    obtain ⟨result, -, body, hbody, h⟩ := h
    rw [← Except.ok.inj h]
    exact ⟨rfl, hnames.symm, hbody⟩

/-- The names that a source declares are those of its declarations. -/
theorem Module.Of.globalNames_eq (h : Module.Of s m) (hs : s.IsSound) :
    m.globalNames = (m.declarations s).map (·.name) := by
  obtain ⟨bindings, workgroup, hbindings, hworkgroup, hglobals⟩ := h.globals
  have hconstants : m.constants.map (·.name) =
      (s.decls.constants.map (ownDeclaration s.vars)).map (·.name) := by
    rw [← map_eq_map_of_forall₂ h.constants fun c k hk => (constant_eq_ok hk).1.symm, List.map_map]
    exact (map_eq_map_of_forall₂ hs.constants fun v c hc => nameIn_eq hc).symm
  have hrecords : bindings.map (·.name) =
      (s.records.map (·.declaration)).map (·.name) := by
    rw [List.map_map]
    exact (map_eq_map_of_forall₂ (mapM_eq_ok_iff.mp hbindings) fun b g hg =>
      (name_of_bound hg).symm).symm
  rw [globalNames, declarations, hglobals, List.map_append, List.map_append, hconstants, hrecords,
    names_of_shared hworkgroup]
  simp [interfaceGlobals, ownDeclaration, Function.comp_def]

/-- The names of a source are printed for what its stage has recorded. -/
theorem Module.Of.prints (h : Module.Of s m) :
    List.Forall₂ (Prints (nameIn s.vars) (names s) s.calling [m.globalNames]) m.uses
      (s.places true) := by
  have hrules := keepsScopes_lowering s
  refine List.rel_append (List.rel_append ?_ ?_) ?_
  · refine List.forall₂_map_left_iff.mpr (List.forall₂_map_right_iff.mpr ?_)
    exact h.constants.flip.imp fun k c hk =>
      hrules.prints [m.globalNames] [] [] (constant_eq_ok hk).2
  · refine List.rel_flatMap h.functions.flip fun g f hg => ?_
    obtain ⟨-, hnames, hbody⟩ := function_eq_ok hg
    rw [hnames]
    exact (Code.Lowering.prints_block hrules [m.globalNames] [] f.1.params f.2 hbody).2
  · exact (Code.Lowering.prints_block hrules [m.globalNames] [] [] s.main h.main).2

/-- A variable is spelled as the names in its code. -/
theorem spelling_of_variableExpr {v : VarId} {e : Expr} (h : variableExpr s v = .ok e) :
    spelling s (.var v) = e.names := by rw [spelling, h]

/-- A variable of a role that stands for itself is spelled by its name. -/
theorem spelling_of_own {v : VarId} {d : Variable} (hd : s.vars[v.index]? = some d)
    (hrole : d.role = .localVar ∨ d.role = .param ∨ d.role = .constant ∨ d.role = .workgroup) :
    spelling s (.var v) = [nameIn s.vars v] := by
  have hexpr : variableExpr s v = .ok (.name d.name) := by
    rw [variableExpr, ResolvedStage.var_eq_ok_iff.mpr hd]
    rcases hrole with hrole | hrole | hrole | hrole
    all_goals
      simp only [bind, Except.bind, hrole]
      rfl
  rw [spelling_of_variableExpr hexpr, Code.Expr.names_name, nameIn_eq hd]

/-- A bound resource is spelled by the name of its record. -/
theorem spelling_of_record {v : VarId} {d : Variable} {b : Binding.Record}
    (hd : s.vars[v.index]? = some d) (hrole : d.role.group?.isSome = true)
    (hb : s.plan.recordOf? v = some b) : spelling s (.var v) = [b.name] := by
  have hrecord : s.record v d = .ok b := by rw [ResolvedStage.record, hb]
  have hexpr : variableExpr s v =
      .ok (if d.role.isUniform then .field (.name b.name) d.name else .name b.name) := by
    rw [variableExpr, ResolvedStage.var_eq_ok_iff.mpr hd]
    cases hcase : d.role with
    | uniform | texture | sampler | storage =>
        simp only [bind, Except.bind, hcase, hrecord]
        rfl
    | _ =>
        rw [hcase] at hrole
        cases hrole
  rw [spelling_of_variableExpr hexpr]
  split
  · rw [Code.Expr.names_field, Code.Expr.names_name]
  · rw [Code.Expr.names_name]

/-- An input is spelled as a member of the inputs. -/
theorem spelling_of_input {v : VarId} {d : Variable} (hd : s.vars[v.index]? = some d)
    (hrole : d.role.inputLocation?.isSome = true) : spelling s (.var v) = ["stage_in"] := by
  have hexpr : variableExpr s v = .ok (.field stageIn d.name) := by
    rw [variableExpr, ResolvedStage.var_eq_ok_iff.mpr hd]
    cases hcase : d.role with
    | input =>
        simp only [bind, Except.bind, hcase]
        rfl
    | _ =>
        rw [hcase] at hrole
        cases hrole
  rw [spelling_of_variableExpr hexpr, Code.Expr.names_field, stageIn, Code.Expr.names_name]

/-- An output is spelled as a member of the outputs. -/
theorem spelling_of_output {v : VarId} {d : Variable} (hd : s.vars[v.index]? = some d)
    (hrole : d.role.outputLocation?.isSome = true) : spelling s (.var v) = ["stage_out"] := by
  have hexpr : variableExpr s v = .ok (.field stageOut d.name) := by
    rw [variableExpr, ResolvedStage.var_eq_ok_iff.mpr hd]
    cases hcase : d.role with
    | output =>
        simp only [bind, Except.bind, hcase]
        rfl
    | _ =>
        rw [hcase] at hrole
        cases hrole
  rw [spelling_of_variableExpr hexpr, Code.Expr.names_field, stageOut, Code.Expr.names_name]

/-- What enters a stage is declared if there is an input. -/
theorem Module.Of.declared_input (h : Module.Of s m) {v : VarId} (hv : v ∈ s.decls.inputs) :
    Module.declared m.input = [m.input] := by
  have hinput := h.input
  simp only [inputStruct, bind_eq_ok_iff] at hinput
  obtain ⟨inputs, hinputs, hinput⟩ := hinput
  obtain ⟨f, hf, -⟩ := exists_result_of_forall₂ (mapM_eq_ok_iff.mp hinputs) v hv
  rw [← Except.ok.inj hinput, Module.declared, if_neg]
  simpa using fun hnil => absurd hf (by simp [hnil])

/-- A stage with outputs declares the struct of them. -/
theorem Module.Of.declared_output (h : Module.Of s m) {v : VarId}
    (hv : v ∈ s.decls.outputs) : Module.declared m.output = [m.output] := by
  have houtput := h.output
  simp only [outputStruct, bind_eq_ok_iff] at houtput
  obtain ⟨outputs, houtputs, houtput⟩ := houtput
  obtain ⟨f, hf, -⟩ := exists_result_of_forall₂ (mapM_eq_ok_iff.mp houtputs) v hv
  rw [← Except.ok.inj houtput, Module.declared, if_neg]
  simpa using fun _ hnil => absurd hf (by simp [hnil])

/-- The source of a stage declares what its variables are spelled by. -/
theorem Module.Of.declares (h : Module.Of s m) (hs : s.IsSound) :
    s.Declares (spelling s) (m.declarations s) where
  locals v hv := by
    obtain ⟨d, hd, -, hrole⟩ := hv
    exact spelling_of_own hd (hrole.imp_right Or.inl)
  held v hv := by
    left
    rw [StageDecls.globals, List.mem_append, List.mem_append, List.mem_append] at hv
    rcases hv with ((hv | hv) | hv) | hv
    · obtain ⟨d, hd, -, hrole⟩ := hs.decls.typed.constants v hv
      refine ⟨ownDeclaration s.vars v, ?_, ?_, List.mem_singleton_self v⟩
      · exact List.mem_append_left _ (List.mem_map_of_mem hv)
      · exact spelling_of_own hd (Or.inr (Or.inr (Or.inl hrole)))
    -- inputs and outputs are members of the variables of the interface
    · obtain ⟨d, hd, -, hrole⟩ := hs.decls.typed.inputs v hv
      refine ⟨⟨"stage_in", s.decls.inputs, true⟩, ?_, spelling_of_input hd hrole, hv⟩
      simp [declarations, h.declared_input hv]
    · obtain ⟨d, hd, -, hrole⟩ := hs.decls.typed.outputs v hv
      refine ⟨⟨"stage_out", s.decls.outputs, true⟩, ?_, spelling_of_output hd hrole, hv⟩
      simp [declarations, h.declared_output hv]
    · obtain ⟨d, hd, -, hrole⟩ := hs.decls.typed.resources v hv
      by_cases hworkgroup : d.role = .workgroup
      · refine ⟨ownDeclaration s.vars v, ?_, ?_, List.mem_singleton_self v⟩
        · have hmem : v ∈ s.decls.resources.filter
              fun v => s.vars[v.index]?.any (·.role == .workgroup) :=
            List.mem_filter.mpr ⟨hv, by simp [hd, hworkgroup]⟩
          exact List.mem_append_right _ (List.mem_append_left _
            (List.mem_append_right _ (List.mem_map_of_mem hmem)))
        · exact spelling_of_own hd (Or.inr (Or.inr (Or.inr hworkgroup)))
      · obtain ⟨b, hb, hrecord, -⟩ := hs.bound.resources v hv d hd hworkgroup
        have hgroup := hrole.resolve_right fun h => hworkgroup h.1
        refine ⟨b.declaration, ?_, spelling_of_record hd hgroup hrecord,
          ResolvedStage.holds_of_recordOf? hrecord⟩
        exact List.mem_append_right _ (List.mem_append_left _
          (List.mem_append_left _ (List.mem_map_of_mem hb)))
  distinct := by
    refine ResolvedStage.distinct_of_authored hs.decls.nodup fun d hd => ?_
    rw [declarations, List.mem_append, List.mem_append, List.mem_append, List.mem_append] at hd
    rcases hd with hd | (hd | hd) | hd | hd
    · obtain ⟨v, hv, rfl⟩ := List.mem_map.mp hd
      exact Or.inr ⟨v, hs.authored_constant hv⟩
    · obtain ⟨b, hb, rfl⟩ := List.mem_map.mp hd
      exact hs.authored_record hb
    · obtain ⟨v, hv, rfl⟩ := List.mem_map.mp hd
      obtain ⟨hv, hworkgroup⟩ := List.mem_filter.mp hv
      obtain ⟨x, hx, hidentifier, -⟩ := hs.decls.typed.resources v hv
      have hrole : x.role = .workgroup := by simpa [hx] using hworkgroup
      refine Or.inr ⟨v, .own (ResolvedStage.mem_globals_of_resources hv) ?_⟩
      exact ⟨x, hx, hidentifier, by rw [hrole]; rfl⟩
    · obtain ⟨st, -, rfl⟩ := List.mem_map.mp hd
      exact Or.inl rfl
    · obtain ⟨st, -, rfl⟩ := List.mem_map.mp hd
      exact Or.inl rfl

end Sources

end Wgsl

end WebShader
