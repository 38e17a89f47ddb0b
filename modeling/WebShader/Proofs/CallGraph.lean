import Mathlib.Logic.Relation
import WebShader.Proofs.CallOrder
import WebShader.Proofs.NameScopes
import WebShader.Proofs.Places

/-!
# Call graphs

A function of a stage calls another one if the expressions of its body lead to a call of it, through
operands of any depth. Where these calls have been recorded since the stage was opened, functions
only call earlier ones, so that no function leads back to itself.
-/

namespace WebShader

open Relation (ReflTransGen TransGen)

/-! ## Calls in blocks -/

namespace Builder

/-- An expression is made of another one. -/
def HasOperand (b : Builder) (n m : NodeId) : Prop :=
  ∃ node, b.node? n = some node ∧ m ∈ node.kind.operands

/-- An expression is a call of a function. -/
def IsCall (b : Builder) (n : NodeId) (f : FunctionId) : Prop :=
  ∃ node, b.node? n = some node ∧ node.kind.callee? = some f

/-- The expressions of a block lead, through operands of any depth, to a call of a function. -/
def CallsIn (b : Builder) (body : Block) (n : NodeId) (f : FunctionId) : Prop :=
  (∃ root ∈ Stmt.blockExprs body, ReflTransGen b.HasOperand root n) ∧ b.IsCall n f

end Builder

namespace BuiltStage

/-- A function of a stage, by its place, calls another one. -/
def Calls (b : Builder) (st : BuiltStage) (k j : Nat) : Prop :=
  ∃ fn n f, st.decls.functions[k]? = some fn ∧ b.CallsIn fn.body n f ∧ f.index = j

/-- The calls in a stage have been recorded from some place in the arena on. -/
structure OwnsCalls (b : Builder) (start : Nat) (st : BuiltStage) : Prop where
  functions : ∀ fn ∈ st.decls.functions, ∀ n f, b.CallsIn fn.body n f → start ≤ n.index
  main : ∀ n f, b.CallsIn st.main n f → start ≤ n.index

/-- Each function of a stage only calls those before it, so that none leads back to itself, and the
entry point only calls functions that the stage has. -/
structure CallsBack (b : Builder) (st : BuiltStage) : Prop where
  functions : ∀ k fn, st.decls.functions[k]? = some fn →
    ∀ n f, b.CallsIn fn.body n f → f.index < k
  main : ∀ n f, b.CallsIn st.main n f → ∃ fn, st.decls.function? f = some fn
  acyclic : ∀ k, ¬ TransGen (st.Calls b) k k

end BuiltStage

/-! ## What a stage that is built calls -/

namespace Builder

variable {b b' : Builder} {callees : Callees} {body : Block} {n m : NodeId} {f : FunctionId}
  {start bound : Nat}

/-- Operands of any depth come before the whole. -/
theorem Typed.index_le_of_leads (hb : b.Typed callees) (h : ReflTransGen b.HasOperand n m) :
    m.index ≤ n.index := by
  induction h with
  | refl => exact le_rfl
  | tail _ hoperand ih =>
      obtain ⟨node, hnode, hm⟩ := hoperand
      have hlt := hb.descends _ node hnode _ hm
      omega

/-- Where the expressions of a block come before a place up to which only the first few functions
are called, the block only calls those. -/
theorem CallsOnly.lt_bound (h : b.CallsOnly start bound body) (hb : b.Typed callees)
    (hcall : b.CallsIn body n f) (hown : start ≤ n.index) : f.index < bound := by
  obtain ⟨stop, -, hbody, hcalls⟩ := h
  obtain ⟨⟨root, hroot, hleads⟩, node, hnode, hf⟩ := hcall
  have hle := hb.index_le_of_leads hleads
  have hlt := hbody root hroot
  exact hcalls n node f hown (by omega) hnode hf

/-- The functions of a stage that is closed only call earlier ones. -/
theorem CallsBack.built {s : OpenStage} {main : Block} (h : b.CallsBack start)
    (hb : b.Typed callees) (hs : b.stage = some s) (hmain : s.main = some main)
    (hown : (⟨s.decls, main⟩ : BuiltStage).OwnsCalls { b with stage := none } start) :
    (⟨s.decls, main⟩ : BuiltStage).CallsBack { b with stage := none } := by
  -- what expressions are made of does not depend on the stage being open
  have hown : (⟨s.decls, main⟩ : BuiltStage).OwnsCalls b start := ⟨hown.functions, hown.main⟩
  suffices h : (⟨s.decls, main⟩ : BuiltStage).CallsBack b from ⟨h.functions, h.main, h.acyclic⟩
  have hback : s.CallsBack start b := h s hs
  have hfunctions : ∀ k fn, s.decls.functions[k]? = some fn →
      ∀ n f, b.CallsIn fn.body n f → f.index < k := fun k fn hfn n f hcall =>
    (hback.functions k fn hfn).lt_bound hb hcall
      (hown.functions fn (List.mem_of_getElem? hfn) n f hcall)
  refine ⟨hfunctions, fun n f hcall => ?_, fun k hcycle => ?_⟩
  · have hfirst : b.CallsOnly start s.decls.functions.length main :=
      ⟨b.nodes.size, le_rfl, hback.main main hmain, hback.calls⟩
    have hlt := hfirst.lt_bound hb hcall (hown.main n f hcall)
    exact ⟨_, List.getElem?_eq_getElem hlt⟩
  · -- every call goes down in the order of the functions
    have hdown : ∀ j, TransGen (BuiltStage.Calls b ⟨s.decls, main⟩) k j → j < k := by
      intro j hpath
      induction hpath with
      | single hcall =>
          obtain ⟨fn, n, f, hfn, hcall, rfl⟩ := hcall
          exact hfunctions k fn hfn n f hcall
      | tail _ hcall ih =>
          obtain ⟨fn, n, f, hfn, hcall, rfl⟩ := hcall
          have hlt := hfunctions _ fn hfn n f hcall
          omega
    exact absurd (hdown k hcycle) (by omega)

/-- A stage owns its calls if nothing had been called before. -/
theorem ownsCalls_of_take (h : ∀ node ∈ b.nodes.toList.take start, node.kind.callee? = none)
    (st : BuiltStage) : st.OwnsCalls b start := by
  have hcall : ∀ n f, b.IsCall n f → start ≤ n.index := by
    rintro n f ⟨node, hnode, hf⟩
    by_contra hlt
    have hmem : node ∈ b.nodes.toList.take start := by
      refine List.mem_of_getElem? (i := n.index) ?_
      rw [List.getElem?_take, if_pos (by omega), Array.getElem?_toList]
      exact hnode
    cases (h node hmem).symm.trans hf
  exact ⟨fun fn _ n f h => hcall n f h.2, fun n f h => hcall n f h.2⟩

end Builder

end WebShader
