import WebShader.Proofs.CallGraph
import WebShader.Proofs.ResolvedStages

/-!
# Calls in sources

The functions of a stage are printed in the order of their definitions, and the calls in the source
of each are of what the expressions of its body lead to. So where functions only call earlier ones,
a source declares every function before it is called.
-/

namespace WebShader

open Relation (ReflTransGen)

/-! ## Calls of trees -/

/-- What a list of trees calls, one of them calls. -/
theorem Term.mem_calleesOf_iff {es : List Term} {f : FunctionId} :
    f ∈ calleesOf es ↔ ∃ e ∈ es, f ∈ e.callees := by
  induction es with
  | nil => simp [calleesOf]
  | cons e rest ih => rw [calleesOf, List.mem_append, ih, List.exists_mem_cons_iff]

namespace Builder

variable {b b' : Builder} {callees : Callees} {n m : NodeId} {f : FunctionId} {e : Term}

/-- A call in a tree is the whole, or in the tree of an operand. -/
theorem exists_operand_of_callees (h : b.term n = .ok e) (hf : f ∈ e.callees) :
    b.IsCall n f ∨ ∃ m e', b.HasOperand n m ∧ m.index < n.index ∧ b.term m = .ok e' ∧
      f ∈ e'.callees := by
  obtain ⟨node, hnode, hroots, hdown⟩ := roots_of_term h
  -- only a call has a callee of its own
  have hoperand : ∀ m ∈ node.kind.operands, ∀ e', b.term m = .ok e' → f ∈ e'.callees →
      ∃ m e', b.HasOperand n m ∧ m.index < n.index ∧ b.term m = .ok e' ∧ f ∈ e'.callees :=
    fun m hm e' he' hf => ⟨m, e', ⟨_, hnode, hm⟩, hdown m hm, he', hf⟩
  have hargs : ∀ {ms : List NodeId} {es : List Term}, ms ⊆ node.kind.operands →
      List.Forall₂ (fun m e => b.term m = .ok e) ms es → f ∈ Term.calleesOf es →
      ∃ m e', b.HasOperand n m ∧ m.index < n.index ∧ b.term m = .ok e' ∧ f ∈ e'.callees := by
    intro ms es hms hread hf
    obtain ⟨e', he', hf⟩ := Term.mem_calleesOf_iff.mp hf
    obtain ⟨m, hm, hterm⟩ := exists_mem_of_forall₂ hread e' he'
    exact hoperand m (hms hm) e' hterm hf
  cases hroots with
  | literal | var | builtin =>
      rw [Term.callees] at hf
      cases hf
  | member _ _ hterm | swizzle _ _ hterm | unary _ _ hterm | addressOf _ hterm | deref _ hterm =>
      rw [Term.callees] at hf
      exact Or.inr (hoperand _ List.mem_cons_self _ hterm hf)
  | index _ hterm hterm' | binary _ _ hterm hterm' =>
      rw [Term.callees, List.mem_append] at hf
      rcases hf with hf | hf
      · exact Or.inr (hoperand _ List.mem_cons_self _ hterm hf)
      · exact Or.inr (hoperand _ (List.mem_cons_of_mem _ List.mem_cons_self) _ hterm' hf)
  | construct _ hread | intrinsic _ _ hread =>
      rw [Term.callees] at hf
      exact Or.inr (hargs (List.Subset.refl _) hread hf)
  | call _ _ hread =>
      rw [Term.callees] at hf
      rcases List.mem_cons.mp hf with rfl | hf
      · exact Or.inl ⟨_, hnode, rfl⟩
      · exact Or.inr (hargs (List.Subset.refl _) hread hf)

/-- What a tree calls is called by an expression that its own leads to. -/
theorem exists_call_of_term {n : NodeId} {e : Term} (h : b.term n = .ok e) (hf : f ∈ e.callees) :
    ∃ m, ReflTransGen b.HasOperand n m ∧ b.IsCall m f := by
  rcases exists_operand_of_callees h hf with hcall | ⟨m, e', hoperand, hlt, he', hf⟩
  · exact ⟨n, .refl, hcall⟩
  · obtain ⟨m', hleads, hcall⟩ := exists_call_of_term he' hf
    exact ⟨m', .head hoperand hleads, hcall⟩
termination_by n.index

/-- What has been recorded leads to the same expressions when the arena has grown. -/
theorem Typed.leads_of_starts (hb : b.Typed callees) (hnodes : b.nodes.toList <+: b'.nodes.toList)
    (hn : n.index < b.nodes.size) (h : ReflTransGen b'.HasOperand n m) :
    ReflTransGen b.HasOperand n m ∧ m.index < b.nodes.size := by
  induction h with
  | refl => exact ⟨.refl, hn⟩
  | tail _ hoperand ih =>
      obtain ⟨hleads, hlt⟩ := ih
      obtain ⟨node, hnode, hm⟩ := hoperand
      rw [node?_of_starts hnodes hlt] at hnode
      have hdown := hb.descends _ node hnode _ hm
      exact ⟨hleads.tail ⟨node, hnode, hm⟩, by omega⟩

/-- A tree calls what an expression of its body calls. -/
theorem Typed.callsIn_of_term (hb : b.Typed callees) (hnodes : b.nodes.toList <+: b'.nodes.toList)
    {body : Block} (hbody : b.Records body) (hn : n ∈ Stmt.blockExprs body)
    (h : b'.term n = .ok e) (hf : f ∈ e.callees) : ∃ m, b.CallsIn body m f := by
  obtain ⟨m, hleads, node, hnode, hcallee⟩ := exists_call_of_term h hf
  obtain ⟨hleads, hlt⟩ := hb.leads_of_starts hnodes (hbody n hn) hleads
  rw [node?_of_starts hnodes hlt] at hnode
  exact ⟨m, ⟨n, hn, hleads⟩, node, hnode, hcallee⟩

end Builder

/-! ## Calls of sources -/

namespace Code

/-- The names of the functions that a block of a source calls. -/
def Stmt.blockCalls {τ : Type} (body : List (Stmt τ)) : List String :=
  (Stmt.blockUses [] [] body).flatMap (·.expr.calls)

/-- A block only calls what is called by the expressions it is lowered from. -/
theorem Lowering.KeepsScopes.exists_of_mem_blockCalls {τ : Type} {rules : Lowering τ}
    {nameOf : VarId → String} {spelling calling : Term → List String} {testsInside : Bool}
    (h : rules.KeepsScopes nameOf spelling calling testsInside)
    {body : List (WebShader.Stmt Term)} {code : List (Stmt τ)} (hcode : rules.block body = .ok code)
    {name : String} (hname : name ∈ Stmt.blockCalls code) :
    ∃ e ∈ WebShader.Stmt.blockExprs body, name ∈ calling e := by
  have hprints := (prints_block h [] [] [] body hcode).2
  obtain ⟨u, hu, hname⟩ := List.mem_flatMap.mp hname
  obtain ⟨q, hq, hprinted⟩ := exists_result_of_forall₂ hprints u hu
  obtain ⟨e, he, hname⟩ := List.mem_flatMap.mp (hprinted.within.calls hname)
  exact ⟨e, WebShader.Stmt.exprs_of_mem_blockPlaces [] body q hq he, hname⟩

end Code

/-- The functions of a source are lowered from those of a stage, under the names they are called by,
and so is its entry point. -/
structure ResolvedStage.Lowers {τ : Type} (s : ResolvedStage) (rules : Code.Lowering τ)
    (functions : List (String × List (Code.Stmt τ))) (main : List (Code.Stmt τ)) : Prop where
  functions : List.Forall₂ (fun f g => g.1 = s.functionName f.1 ∧ rules.block f.2 = .ok g.2)
    s.functions functions
  main : rules.block s.main = .ok main

/-- The names of a source's functions are those of the stage's, in the same order. -/
theorem ResolvedStage.Lowers.names_eq {τ : Type} {s : ResolvedStage} {rules : Code.Lowering τ}
    {printed : List (String × List (Code.Stmt τ))} {entry : List (Code.Stmt τ)}
    (h : s.Lowers rules printed entry) {b : Builder} {plan : Binding.Plan} {st : BuiltStage}
    (hs : b.resolve plan st = .ok s) :
    printed.map (·.1) = st.decls.functions.map s.functionName := by
  rw [← Builder.functions_of_resolve hs, List.map_map]
  exact (map_eq_map_of_forall₂ h.functions fun f g hg => hg.1.symm).symm

/-- The functions of the module are those of the stage. -/
theorem Glsl.Module.Of.lowers {s : ResolvedStage} {m : Glsl.Module} (h : Glsl.Module.Of s m)
    (htarget : s.target ≠ .webGPU) :
    s.Lowers (Glsl.lowering s) (m.functions.map fun g => (g.name, g.body)) m.main where
  functions := by
    refine List.forall₂_map_right_iff.mpr (h.functions.imp fun f g hg => ?_)
    obtain ⟨hname, -, hbody⟩ := Glsl.function_eq_ok hg
    refine ⟨?_, hbody⟩
    -- functions may share a name
    rw [hname, ResolvedStage.functionName, if_neg (by simp [htarget])]
  main := h.main

/-- The functions of the module are those of the stage. -/
theorem Wgsl.Module.Of.lowers {s : ResolvedStage} {m : Wgsl.Module} (h : Wgsl.Module.Of s m) :
    s.Lowers (Wgsl.lowering s) (m.functions.map fun g => (g.name, g.body)) m.main where
  functions := by
    refine List.forall₂_map_right_iff.mpr (h.functions.imp fun f g hg => ?_)
    obtain ⟨hname, -, hbody⟩ := Wgsl.function_eq_ok hg
    exact ⟨hname, hbody⟩
  main := h.main

/-- The functions of a source stand in the order of their definitions, under some names, and each
call is of one that stands earlier, and that the same body of the stage calls. -/
structure BuiltStage.DeclaresFirst {τ : Type} (b : Builder) (st : BuiltStage)
    (name : Function → String) (printed : List (String × List (Code.Stmt τ)))
    (entry : List (Code.Stmt τ)) : Prop where
  names : printed.map (·.1) = st.decls.functions.map name
  functions : ∀ k code, printed[k]? = some code → ∀ called ∈ Code.Stmt.blockCalls code.2,
    ∃ f, st.Calls b k f ∧ f < k ∧ (printed.map (·.1))[f]? = some called
  main : ∀ called ∈ Code.Stmt.blockCalls entry, ∃ n f, b.CallsIn st.main n f ∧
    (printed.map (·.1))[f.index]? = some called

/-- A text is the source of a stage, and declares its functions before they are called. -/
inductive BuiltStage.DeclaresFirstIn (b : Builder) (st : BuiltStage) (s : ResolvedStage)
    (text : String) : Prop
  | wgsl {m : Wgsl.Module} : s.target = .webGPU → Wgsl.module s = .ok m →
      text = m.text s.indentWidth →
      st.DeclaresFirst b s.functionName (m.functions.map fun g => (g.name, g.body)) m.main →
      DeclaresFirstIn b st s text
  | glsl {m : Glsl.Module} : s.target ≠ .webGPU → Glsl.module s = .ok m →
      text = m.text s.indentWidth →
      st.DeclaresFirst b s.functionName (m.functions.map fun g => (g.name, g.body)) m.main →
      DeclaresFirstIn b st s text

section Sources

variable {b b' : Builder} {callees : Callees} {plan : Binding.Plan} {st : BuiltStage}
  {s : ResolvedStage} {τ : Type} {rules : Code.Lowering τ}
  {printed : List (String × List (Code.Stmt τ))} {entry : List (Code.Stmt τ)}

/-- What the source of a block calls has been recorded as a call in it. -/
theorem Builder.Typed.exists_callsIn (hb : b.Typed callees)
    (hnodes : b.nodes.toList <+: b'.nodes.toList) {nameOf : VarId → String}
    {spelling : Term → List String} {testsInside : Bool}
    (hrules : rules.KeepsScopes nameOf spelling s.calling testsInside) {body : Block}
    (hrecorded : b.Records body) {tree : List (Stmt Term)}
    (htree : Stmt.traverseBlock b'.term body = .ok tree) {code : List (Code.Stmt τ)}
    (hcode : rules.block tree = .ok code) {called : String}
    (hcalled : called ∈ Code.Stmt.blockCalls code) :
    ∃ n f, b.CallsIn body n f ∧ s.callName? f = some called := by
  obtain ⟨e, he, hname⟩ := hrules.exists_of_mem_blockCalls hcode hcalled
  obtain ⟨f, hf, hname⟩ := List.mem_filterMap.mp hname
  obtain ⟨n, hn, hread⟩ := exists_mem_of_forall₂ (Stmt.blockExprs_of_traverse body htree) e he
  obtain ⟨m, hcall⟩ := hb.callsIn_of_term hnodes hrecorded hn hread hf
  exact ⟨m, f, hcall, hname⟩

/-- Where functions only call earlier ones, their source declares them first. -/
theorem BuiltStage.CallsBack.declaresFirst (h : st.CallsBack b) (hb : b.Typed callees)
    (hnodes : b.nodes.toList <+: b'.nodes.toList)
    (hfunctions : ∀ fn ∈ st.decls.functions, b.Records fn.body) (hmain : b.Records st.main)
    (hs : b'.resolve plan st = .ok s) (hlowers : s.Lowers rules printed entry)
    {nameOf : VarId → String} {spelling : Term → List String} {testsInside : Bool}
    (hrules : rules.KeepsScopes nameOf spelling s.calling testsInside) :
    st.DeclaresFirst b s.functionName printed entry := by
  obtain ⟨-, -, -, hdecls, -, hresolved, htree⟩ := Builder.resolve_eq_ok hs
  have hnames := hlowers.names_eq hs
  have hcalled : ∀ f called, s.callName? f = some called →
      (printed.map (·.1))[f.index]? = some called := by
    intro f called hname
    rw [hnames, List.getElem?_map]
    rw [ResolvedStage.callName?, hdecls] at hname
    exact hname
  refine ⟨hnames, fun k code hcode called hmem => ?_, fun called hmem => ?_⟩
  · obtain ⟨g, hg, -, hbody⟩ := getElem?_of_forall₂ hlowers.functions hcode
    obtain ⟨fn, hfn, hread⟩ := getElem?_of_forall₂ hresolved hg
    have hrecorded := hfunctions fn (List.mem_of_getElem? hfn)
    obtain ⟨n, f, hcall, hname⟩ := hb.exists_callsIn hnodes hrules hrecorded
      (Builder.resolveFunction_eq_ok hread).2 hbody hmem
    exact ⟨f.index, ⟨fn, n, f, hfn, hcall, rfl⟩, h.functions k fn hfn n f hcall,
      hcalled f called hname⟩
  · obtain ⟨n, f, hcall, hname⟩ := hb.exists_callsIn hnodes hrules hmain htree hlowers.main hmem
    exact ⟨n, f, hcall, hcalled f called hname⟩

/-- In the source of a stage whose functions only call earlier ones, they are declared first. -/
theorem BuiltStage.CallsBack.declaresFirstIn (h : st.CallsBack b) (hb : b.Typed callees)
    (hnodes : b.nodes.toList <+: b'.nodes.toList)
    (hfunctions : ∀ fn ∈ st.decls.functions, b.Records fn.body) (hmain : b.Records st.main)
    (hs : b'.resolve plan st = .ok s) {text : String} (htext : s.text = .ok text) :
    st.DeclaresFirstIn b s text := by
  rcases ResolvedStage.text_eq_ok htext with ⟨htarget, m, hm, rfl⟩ | ⟨htarget, m, hm, rfl⟩
  · refine .wgsl htarget hm rfl ?_
    exact h.declaresFirst hb hnodes hfunctions hmain hs (Wgsl.Module.of_module hm).lowers
      (Wgsl.keepsScopes_lowering s)
  · refine .glsl htarget hm rfl ?_
    exact h.declaresFirst hb hnodes hfunctions hmain hs
      ((Glsl.Module.of_module hm).lowers htarget) (Glsl.keepsScopes_lowering s)

end Sources

end WebShader
