import Mathlib.Logic.Relation
import WebShader.Proofs.Rearrangements
import WebShader.Proofs.IndifferentRelations

/-!
# Accesses are recalled

Until it is reset, a builder gives for an access the expression it has given before. Nothing that a
stage holds matters to this, so it holds along every operation but a reset, whether it fails or not,
and along scripts of such operations with all the scopes, functions and programs in them.
-/

namespace WebShader

/-! ## Recalling -/

/-- A builder with at least the types of another, which recalls the accesses that it has given. -/
structure Builder.Recalls (b b' : Builder) : Prop where
  types : b.types ≤ b'.types
  arena : b.arena.Recalls b'.arena

/-- With the arena, all accesses are recalled. -/
theorem Builder.Recalls.of_arena_eq {b b' : Builder} (htypes : b.types ≤ b'.types)
    (harena : b'.arena = b.arena) : b.Recalls b' :=
  ⟨htypes, harena ▸ refl_of Arena.Recalls b.arena⟩

instance : IsAdditive Builder.Recalls where
  refl _ := .of_arena_eq (le_refl _) rfl
  trans _ _ _ h h' := ⟨le_trans h.types h'.types, trans_of Arena.Recalls h.arena h'.arena⟩
  of_adds _ _ h := ⟨h.types, h.arena⟩

/-- A variable is no access. -/
theorem Builder.recalls_withVar (b : Builder) (d : Variable) : b.Recalls (b.withVar d) := by
  refine ⟨le_refl _, Arena.recalls_of_starts ?_ rfl⟩
  show b.nodes.toList <+: (b.nodes.push _).toList
  rw [Array.toList_push]
  exact List.prefix_append _ _

namespace Build

/-- A change of the stage recalls all accesses. -/
theorem recalls_modifyStage (f : OpenStage → OpenStage) :
    Follows Builder.Recalls (modifyStage f) :=
  .bind follows_stage fun _ => fun _ => .of_arena_eq (le_refl _) rfl

instance : IsFullyIndifferent Builder.Recalls where
  newVar name t role init := by
    intro b
    rcases run_newVar_cases b name t role init with
      ⟨fault, _, hrun, rfl | ⟨d, rfl⟩⟩ | ⟨s, f, rest, e, -, -, -, hrun⟩
    · rw [hrun]
      exact refl_of Builder.Recalls _
    · rw [hrun]
      exact b.recalls_withVar d
    · rw [hrun]
      have hrecalls := b.recalls_withVar ⟨name, t, role, s.decls.stage, init⟩
      exact ⟨hrecalls.types, hrecalls.arena⟩
  modifyStage _ _ := recalls_modifyStage _
  addFunction _ := .bind follows_stage fun _ => .bind (recalls_modifyStage _) fun _ => .pure _

/-- Accesses are recalled in other stages and later programs. -/
instance : IsPersistent Builder.Recalls where
  opened _ _ := .of_arena_eq (le_refl _) rfl
  closed _ := .of_arena_eq (le_refl _) rfl
  phase _ _ := .of_arena_eq (le_refl _) rfl

end Build

/-! ## Sequences -/

namespace Builder

/-- One step without a reset, failed or not: an operation on any handles, or a script of such
operations with the bodies in it. A body that is still open has been opened by finer steps: a
condition or a bound is lowered, a parameter or a counter is declared, a stage is opened, and the
builder is rearranged. -/
inductive Advances (b : Builder) : Builder → Prop
  | operation {n : Script.Notes} {op : Script.Operation} {act : Script.Run Script.Reply} :
      op ≠ .reset → op.action n = .ok act → ∀ n', b.Advances (act.runFrom (b, n')).2.1
  | script {steps : Script} : ¬Script.Has .reset steps → ∀ tolerant n,
      b.Advances ((Script.runAll tolerant steps).runFrom (b, n)).2.1
  | lower (v : Value) (hint : Option ScalarKind) : b.Advances (b.run (Build.lower v hint)).2
  | declare (name : String) (t : TypeId) (role : Role) (init : Option NodeId) :
      b.Advances (b.run (Build.newVar name t role init)).2
  | opened (which : Stage) : b.Advances (b.opened which)
  | rearranged {b' : Builder} : b.Rearranges b' → b'.accesses = b.accesses → b.Advances b'

/-- What a sequence of steps without a reset leads to. -/
abbrev LeadsTo : Builder → Builder → Prop := Relation.ReflTransGen Advances

variable {b b' : Builder}

/-- Every step recalls the accesses given before. -/
theorem Advances.recalls (h : b.Advances b') : b.Recalls b' := by
  cases h with
  | @operation n op act hop h n' => exact Script.indifferent_operation Recalls hop h (b, n')
  | @script steps hsteps tolerant n =>
      have hrun : Authoring.Follows Recalls (Script.runAll tolerant steps) :=
        Script.follows_runAll_of Script.holdsAlong_of_persistent tolerant steps
          fun op hop heq => hsteps (heq ▸ hop)
      exact hrun (b, n)
  | lower v hint => exact Build.follows_lower v hint b
  | declare name t role init => exact Build.indifferent_newVar name t role init b
  | opened which => exact .of_arena_eq (le_refl _) rfl
  | rearranged h haccesses =>
      refine .of_arena_eq h.types ?_
      rw [arena, arena, h.nodes, haccesses]

/-- Every sequence of steps recalls the accesses given before it. -/
theorem LeadsTo.recalls (h : b.LeadsTo b') : b.Recalls b' := by
  induction h with
  | refl => exact refl_of Recalls b
  | tail _ hstep ih => exact trans_of Recalls ih hstep.recalls

end Builder

end WebShader
