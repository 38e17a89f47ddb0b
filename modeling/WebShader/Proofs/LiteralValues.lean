import WebShader.Proofs.ExactIntegers
import WebShader.Proofs.OverloadSelection

/-!
# Values of literals

Host values take their type from where they stand, and so become different literals in different
places. Whichever it is, the literal is one of the value: no operation changes an integer by giving
it a type.
-/

namespace WebShader

/-! ## Operands -/

/-- A literal is one of a host value: it is the same boolean, it denotes the same integer, or it is
the nearest float of 32 bits. The integers of the host program have 64 bits. -/
def Literal.IsOf (l : Literal) : HostValue → Prop
  | .bool b => l = .bool b
  | .int i => -2 ^ 63 ≤ i ∧ i < 2 ^ 63 → l.scalar.HasInt i ∧ l.number? = some (i : ℚ)
  | .float x => l = .f32 (x.convert .single) ∨ l = .f16 (x.convert .single)

/-- The literal of a host value is one of it, whatever type is asked for. -/
theorem HostValue.isOf_of_toLiteral {v : HostValue} {hint : Option ScalarKind} {l : Literal}
    (h : v.toLiteral hint = .ok l) : l.IsOf v := by
  cases v with
  | bool b => rcases hint with _ | _ | _ | _ | _ | _ <;> cases h <;> rfl
  | int i =>
      rintro ⟨hmin, hmax⟩
      exact number?_of_toLiteral (by omega) h
  | float x =>
      have hpair : l = .f32 (x.convert .single) ∨ l = .f16 (x.convert .single) := by
        rcases hint with _ | _ | _ | _ | _ | _ <;> simp only [toLiteral] at h <;>
          (try split at h) <;> cases h <;> simp
      exact hpair

namespace Builder

/-- An expression stands for an operand: it is the operand, or a literal of it. -/
def StandsFor (b : Builder) (n : NodeId) : Value → Prop
  | .expr e => n = e.node
  | .host v => ∃ t l, b.node? n = some ⟨t, .literal l⟩ ∧ l.IsOf v

/-- The last statement of the innermost scope. -/
def lastStatement? (b : Builder) : Option (Stmt NodeId) :=
  (b.stage.bind (·.frames.head?)).bind (·.body.getLast?)

variable {b b' : Builder} {v : Value} {n : NodeId}

/-- An expression stands for the same operand in a longer arena. -/
theorem StandsFor.of_starts (h : b.nodes.toList <+: b'.nodes.toList) (hn : b.StandsFor n v) :
    b'.StandsFor n v := by
  cases v with
  | expr e => exact hn
  | host v =>
      obtain ⟨t, l, hnode, hl⟩ := hn
      exact ⟨t, l, getElem?_of_starts h hnode, hl⟩

/-- An expression stands for the same operand after additions. -/
theorem StandsFor.of_adds (h : b.Adds b') (hn : b.StandsFor n v) : b'.StandsFor n v :=
  hn.of_starts h.nodes

/-- Expressions stand for the same operands in a longer arena. -/
theorem standsFor_of_starts {ns : List NodeId} {vs : List Value}
    (h : b.nodes.toList <+: b'.nodes.toList) (hns : List.Forall₂ b.StandsFor ns vs) :
    List.Forall₂ b'.StandsFor ns vs := hns.imp fun _ _ hn => hn.of_starts h

end Builder

namespace Build

open Builder (run_bind_eq_ok_iff run_get_bind run_pure_eq_ok_iff run_refuse_eq_ok_iff)

variable {b b' : Builder} {e : Expr}

/-! ## One operand -/

/-- What an operand is lowered to stands for it, with any hint and without one. -/
theorem standsFor_of_run_lower {v : Value} {hint : Option ScalarKind}
    (h : b.run (lower v hint) = (.ok e, b')) : b'.StandsFor e.node v := by
  unfold lower at h
  cases v with
  | expr e' =>
      obtain ⟨rfl, rfl⟩ := run_pure_eq_ok_iff.mp h
      rfl
  | host v =>
      dsimp only at h
      split at h
      · rename_i l hl
        exact ⟨e.type, l, makes_of_run_literal h, HostValue.isOf_of_toLiteral hl⟩
      · cases (Prod.mk.inj h).1

/-- An operand is lowered to what stands for it. -/
theorem standsFor_of_run_lowerNear {v : Value} {hint : Option ScalarKind}
    (h : b.run (lowerNear v hint) = (.ok e, b')) : b'.StandsFor e.node v := by
  unfold lowerNear at h
  split at h
  · split at h <;> exact standsFor_of_run_lower h
  · exact standsFor_of_run_lower h

/-- An operand is coerced to what stands for it. -/
theorem standsFor_of_run_coerce {v : Value} {t : TypeId} {what : String}
    (h : b.run (coerce v t what) = (.ok e, b')) : b'.StandsFor e.node v := by
  rw [coerce, run_get_bind] at h
  obtain ⟨e', b₁, hlower, h⟩ := run_bind_eq_ok_iff.mp h
  rw [run_get_bind] at h
  obtain ⟨rfl, rfl⟩ := run_pure_eq_ok_iff.mp (run_refuse_eq_ok_iff.mp h).2
  exact standsFor_of_run_lowerNear hlower

/-- Two operands are lowered one after the other. -/
theorem standsFor_of_run_lowerPair {lhs rhs : Value} {x : Expr × Expr}
    (h : b.run (lowerPair lhs rhs) = (.ok x, b')) :
    b'.StandsFor x.1.node lhs ∧ b'.StandsFor x.2.node rhs := by
  unfold lowerPair at h
  split at h
  · rw [run_get_bind] at h
    obtain ⟨r, b₁, hr, h⟩ := run_bind_eq_ok_iff.mp h
    obtain ⟨rfl, rfl⟩ := run_pure_eq_ok_iff.mp h
    exact ⟨rfl, standsFor_of_run_lowerNear hr⟩
  · rw [run_get_bind] at h
    obtain ⟨l, b₁, hl, h⟩ := run_bind_eq_ok_iff.mp h
    obtain ⟨rfl, rfl⟩ := run_pure_eq_ok_iff.mp h
    exact ⟨standsFor_of_run_lowerNear hl, rfl⟩
  · obtain ⟨l, b₁, hl, h⟩ := run_bind_eq_ok_iff.mp h
    rw [run_get_bind] at h
    obtain ⟨r, b₂, hr, h⟩ := run_bind_eq_ok_iff.mp h
    obtain ⟨rfl, rfl⟩ := run_pure_eq_ok_iff.mp h
    have hadds := (follows_lowerNear (R := Builder.Adds) _ _).of_run hr
    exact ⟨(standsFor_of_run_lowerNear hl).of_adds hadds, standsFor_of_run_lowerNear hr⟩

/-- A component is lowered to what stands for it. -/
theorem standsFor_of_run_component {p : PrimitiveType} {args : List Value} {v : Value}
    (h : b.run (component p args v) = (.ok e, b')) : b'.StandsFor e.node v := by
  unfold component at h
  cases v with
  | expr e' =>
      obtain ⟨rfl, rfl⟩ := run_pure_eq_ok_iff.mp h
      rfl
  | host v => exact standsFor_of_run_lower (run_check_eq_ok_iff.mp h).2

/-! ## Lists of operands -/

section Lists

variable {ns : List NodeId}

/-- An operand is lowered before the others, and the expression made of it stays. -/
theorem standsFor_cons {act : Build Expr} {rest : Build (List NodeId)} {v : Value}
    {vs : List Value} (hact : ∀ {b : Builder} {e b'}, b.run act = (.ok e, b') →
      b'.StandsFor e.node v)
    (hadds : Follows Builder.Adds rest)
    (hrest : ∀ {b : Builder} {ns}, b.run rest = (.ok ns, b') → List.Forall₂ b'.StandsFor ns vs)
    (h : b.run (do
      let e ← act
      let ns ← rest
      return e.node :: ns) = (.ok ns, b')) :
    List.Forall₂ b'.StandsFor ns (v :: vs) := by
  obtain ⟨e, b₁, he, h⟩ := run_bind_eq_ok_iff.mp h
  obtain ⟨ns, b₂, hns, h⟩ := run_bind_eq_ok_iff.mp h
  obtain ⟨rfl, rfl⟩ := run_pure_eq_ok_iff.mp h
  exact .cons ((hact he).of_adds (hadds.of_run hns)) (hrest hns)

/-- Arguments of a call stand for what is passed, those beyond the parameters left out. -/
theorem standsFor_of_run_coerceAll {what : String} {args : List (Value × TypeId)}
    (h : b.run (coerceAll what args) = (.ok ns, b')) :
    List.Forall₂ b'.StandsFor ns (args.map (·.1)) := by
  induction args generalizing b ns with
  | nil =>
      obtain ⟨rfl, rfl⟩ := run_pure_eq_ok_iff.mp h
      exact .nil
  | cons x rest ih =>
      exact standsFor_cons standsFor_of_run_coerce (follows_coerceAll _ _) ih h

/-- Arguments are lowered to what stands for them, in order. -/
theorem standsFor_of_run_lowerAll {args : List (Value × PrimitiveType)}
    (h : b.run (lowerAll args) = (.ok ns, b')) :
    List.Forall₂ b'.StandsFor ns (args.map (·.1)) := by
  induction args generalizing b ns with
  | nil =>
      obtain ⟨rfl, rfl⟩ := run_pure_eq_ok_iff.mp h
      exact .nil
  | cons x rest ih =>
      exact standsFor_cons standsFor_of_run_lower (follows_lowerAll _) ih h

/-- The members of a struct are lowered to what stands for them, in order. -/
theorem standsFor_of_run_memberParts {what : String} {args : List (Value × TypeId)}
    (h : b.run (memberParts what args) = (.ok ns, b')) :
    List.Forall₂ b'.StandsFor ns (args.map (·.1)) := by
  induction args generalizing b ns with
  | nil =>
      obtain ⟨rfl, rfl⟩ := run_pure_eq_ok_iff.mp h
      exact .nil
  | cons x rest ih =>
      rw [memberParts, run_get_bind] at h
      obtain ⟨-, h⟩ := run_refuse_eq_ok_iff.mp h
      exact standsFor_cons standsFor_of_run_coerce (follows_memberParts _ _) ih h

/-- The parts of a vector are lowered to what stands for them, in order. -/
theorem standsFor_of_run_vectorParts {p : PrimitiveType} {args parts : List Value} {before : Nat}
    {x : List NodeId × Nat} (h : b.run (vectorParts p args before parts) = (.ok x, b')) :
    List.Forall₂ b'.StandsFor x.1 parts := by
  induction parts generalizing b before x with
  | nil =>
      obtain ⟨rfl, rfl⟩ := run_pure_eq_ok_iff.mp h
      exact .nil
  | cons v rest ih =>
      obtain ⟨e, b₁, he, h⟩ := run_bind_eq_ok_iff.mp h
      rw [run_get_bind] at h
      split at h
      · obtain ⟨-, h⟩ := run_check_eq_ok_iff.mp h
        obtain ⟨-, h⟩ := run_refuse_eq_ok_iff.mp h
        obtain ⟨y, b₂, hy, h⟩ := run_bind_eq_ok_iff.mp h
        obtain ⟨rfl, rfl⟩ := run_pure_eq_ok_iff.mp h
        have hadds := (follows_vectorParts (R := Builder.Adds) _ _ _ _).of_run hy
        exact .cons ((standsFor_of_run_component he).of_adds hadds) (ih hy)
      · cases (Prod.mk.inj h).1

/-- The parts of a matrix are lowered to what stands for them, in order. -/
theorem standsFor_of_run_matrixParts {p part : PrimitiveType} {args parts : List Value}
    (h : b.run (matrixParts p part args parts) = (.ok ns, b')) :
    List.Forall₂ b'.StandsFor ns parts := by
  induction parts generalizing b ns with
  | nil =>
      obtain ⟨rfl, rfl⟩ := run_pure_eq_ok_iff.mp h
      exact .nil
  | cons v rest ih =>
      obtain ⟨e, b₁, he, h⟩ := run_bind_eq_ok_iff.mp h
      rw [run_get_bind] at h
      obtain ⟨-, h⟩ := run_check_eq_ok_iff.mp h
      obtain ⟨ns, b₂, hns, h⟩ := run_bind_eq_ok_iff.mp h
      obtain ⟨rfl, rfl⟩ := run_pure_eq_ok_iff.mp h
      have hadds := (follows_matrixParts (R := Builder.Adds) _ _ _ _).of_run hns
      exact .cons ((standsFor_of_run_component he).of_adds hadds) (ih hns)

end Lists

/-! ## Operators -/

/-- What follows a check that may not be made is run from some builder. -/
theorem run_of_run_when {α : Type} {c : Prop} [Decidable c] {check : Build PUnit}
    {f : PUnit → Build α} {a : α} (h : b.run (if c then check >>= f else f ⟨⟩) = (.ok a, b')) :
    ∃ b₁ : Builder, b₁.run (f ⟨⟩) = (.ok a, b') := by
  split at h
  · obtain ⟨_, b₁, -, h⟩ := run_bind_eq_ok_iff.mp h
    exact ⟨b₁, h⟩
  · exact ⟨b, h⟩

/-- The operand of an operator. -/
theorem operands_of_run_unary {op : UnaryOp} {v : Value}
    (h : b.run (unary op v) = (.ok e, b')) :
    ∃ n, b'.Makes e (.unary op n) ∧ b'.StandsFor n v := by
  unfold unary at h
  obtain ⟨b₁, h⟩ := run_of_run_when h
  obtain ⟨e', b₂, hlower, h⟩ := run_bind_eq_ok_iff.mp h
  obtain ⟨p, -, h⟩ := run_operandType_bind_eq_ok_iff.mp h
  obtain ⟨-, h⟩ := run_refuse_eq_ok_iff.mp h
  obtain ⟨hnodes, hmakes⟩ := makes_of_run_pushNode h
  exact ⟨e'.node, hmakes, (standsFor_of_run_lower hlower).of_starts hnodes⟩

/-- The operands of an operator, the left one first. -/
theorem operands_of_run_binary {op : BinaryOp} {lhs rhs : Value}
    (h : b.run (binary op lhs rhs) = (.ok e, b')) :
    ∃ l r, b'.Makes e (.binary op l r) ∧ b'.StandsFor l lhs ∧ b'.StandsFor r rhs := by
  unfold binary at h
  obtain ⟨b₁, h⟩ := run_of_run_when h
  obtain ⟨x, b₂, hpair, h⟩ := run_bind_eq_ok_iff.mp h
  obtain ⟨t, b₃, htype, h⟩ := run_bind_eq_ok_iff.mp h
  obtain ⟨hnodes', hmakes⟩ := makes_of_run_pushNode h
  have hnodes := ((follows_binaryType (R := Builder.Adds) _ _ _).of_run htype).nodes.trans hnodes'
  obtain ⟨hl, hr⟩ := standsFor_of_run_lowerPair hpair
  exact ⟨x.1.node, x.2.node, hmakes, hl.of_starts hnodes, hr.of_starts hnodes⟩

/-- The operand of a conversion. -/
theorem operands_of_run_cast {v : Value} {k : ScalarKind}
    (h : b.run (cast v k) = (.ok e, b')) :
    ∃ n, b'.Makes e (.construct [n]) ∧ b'.StandsFor n v := by
  unfold cast at h
  obtain ⟨e', b₁, hlower, h⟩ := run_bind_eq_ok_iff.mp h
  obtain ⟨p, -, h⟩ := run_operandType_bind_eq_ok_iff.mp h
  obtain ⟨-, h⟩ := run_refuse_eq_ok_iff.mp h
  obtain ⟨t, b₃, htype, h⟩ := run_bind_eq_ok_iff.mp h
  obtain ⟨hnodes', hmakes⟩ := makes_of_run_pushNode h
  have hnodes := ((follows_type (R := Builder.Adds) _).of_run htype).nodes.trans hnodes'
  exact ⟨e'.node, hmakes, (standsFor_of_run_lower hlower).of_starts hnodes⟩

/-! ## Constructors -/

/-- The arguments of a vector. -/
theorem standsFor_of_run_vectorArgs {p : PrimitiveType} {args : List Value} {ns : List NodeId}
    (h : b.run (vectorArgs p args) = (.ok ns, b')) : List.Forall₂ b'.StandsFor ns args := by
  unfold vectorArgs at h
  split at h
  · obtain ⟨rfl, rfl⟩ := run_pure_eq_ok_iff.mp h
    exact .nil
  · rw [run_get_bind] at h
    obtain ⟨rfl, rfl⟩ := run_pure_eq_ok_iff.mp (run_check_eq_ok_iff.mp h).2
    exact .cons rfl .nil
  · obtain ⟨e, b₁, he, h⟩ := run_bind_eq_ok_iff.mp h
    obtain ⟨rfl, rfl⟩ := run_pure_eq_ok_iff.mp h
    exact .cons (standsFor_of_run_component he) .nil
  · obtain ⟨x, b₁, hx, h⟩ := run_bind_eq_ok_iff.mp h
    obtain ⟨rfl, rfl⟩ := run_pure_eq_ok_iff.mp (run_check_eq_ok_iff.mp h).2
    exact standsFor_of_run_vectorParts hx

/-- The arguments of a matrix. -/
theorem standsFor_of_run_matrixArgs {p : PrimitiveType} {args : List Value} {ns : List NodeId}
    (h : b.run (matrixArgs p args) = (.ok ns, b')) : List.Forall₂ b'.StandsFor ns args := by
  unfold matrixArgs at h
  split at h
  · exact standsFor_of_run_matrixParts h
  · split at h
    · exact standsFor_of_run_matrixParts h
    · split at h
      · rename_i hempty
        rw [List.isEmpty_iff.mp hempty]
        obtain ⟨rfl, rfl⟩ := run_pure_eq_ok_iff.mp h
        exact .nil
      · cases (Prod.mk.inj h).1

/-- The arguments of a struct or an array. -/
theorem standsFor_of_run_memberArgs {t : TypeId} {count : Nat} {types : List TypeId}
    {args : List Value} {ns : List NodeId}
    (hcount : count = args.length → args.length ≤ types.length)
    (h : b.run (memberArgs t count types args) = (.ok ns, b')) :
    List.Forall₂ b'.StandsFor ns args := by
  rw [memberArgs, run_get_bind] at h
  obtain ⟨hlength, h⟩ := run_refuse_eq_ok_iff.mp h
  have hparts := standsFor_of_run_memberParts h
  rwa [List.map_fst_zip (hcount (not_not.mp hlength))] at hparts

/-- A constructor is made of expressions that stand for its arguments. -/
theorem operands_of_run_construct {shape : TypeShape} {args : List Value}
    (h : b.run (construct shape args) = (.ok e, b')) :
    ∃ ns, b'.Makes e (.construct ns) ∧ List.Forall₂ b'.StandsFor ns args := by
  have hpush : ∀ {b : Builder} {act : Build (List NodeId)} {t : TypeId},
      (∀ {ns b'}, b.run act = (.ok ns, b') → List.Forall₂ b'.StandsFor ns args) →
      b.run (do pushNode t (.construct (← act))) = (.ok e, b') →
        ∃ ns, b'.Makes e (.construct ns) ∧ List.Forall₂ b'.StandsFor ns args := by
    intro b act t hact h
    obtain ⟨ns, b₁, hns, h⟩ := run_bind_eq_ok_iff.mp h
    obtain ⟨hnodes, hmakes⟩ := makes_of_run_pushNode h
    exact ⟨ns, hmakes, Builder.standsFor_of_starts hnodes (hact hns)⟩
  obtain ⟨t, b₁, -, h⟩ := run_bind_eq_ok_iff.mp h
  rw [run_get_bind] at h
  dsimp only at h
  split at h
  · split at h
    · exact hpush standsFor_of_run_matrixArgs h
    · exact hpush standsFor_of_run_vectorArgs h
  · obtain ⟨-, h⟩ := run_refuse_eq_ok_iff.mp h
    obtain ⟨_, b₂, -, h⟩ := run_bind_eq_ok_iff.mp h
    exact hpush (standsFor_of_run_memberArgs fun _ => by simp) h
  · exact hpush (standsFor_of_run_memberArgs fun hcount => by simp [hcount]) h
  · cases (Prod.mk.inj h).1

/-! ## Calls -/

/-- A statement that is emitted is the last of the innermost scope, and no expression changes. -/
theorem lastStatement?_of_run_emit {st : Stmt NodeId} {u : Unit}
    (h : b.run (emit st) = (.ok u, b')) : b'.lastStatement? = some st ∧ b'.nodes = b.nodes := by
  rcases run_emit_cases b st with ⟨e, hrun⟩ | ⟨s, f, rest, -, -, hrun⟩
  · rw [hrun] at h
    cases (Prod.mk.inj h).1
  · rw [hrun] at h
    obtain ⟨-, rfl⟩ := Prod.mk.inj h
    exact ⟨by simp [Builder.lastStatement?, Builder.withFrame], rfl⟩

/-- A call is made of expressions that stand for its arguments. -/
theorem operands_of_run_call {name : String} {args : List Value}
    (h : b.run (call name args) = (.ok e, b')) :
    ∃ f ns, b'.Makes e (.call f ns) ∧ List.Forall₂ b'.StandsFor ns args := by
  unfold call at h
  obtain ⟨s, b₁, -, hafter⟩ := run_bind_eq_ok_iff.mp h
  obtain ⟨-, hafter⟩ := run_refuse_eq_ok_iff.mp hafter
  obtain ⟨chosen, b₂, hchosen, hafter⟩ := run_bind_eq_ok_iff.mp hafter
  obtain rfl : b₁ = b₂ := (reads_chooseOverload _ _).of_run hchosen
  split at hafter
  · cases (Prod.mk.inj hafter).1
  · rename_i f fn
    have haccepts := (of_run_chooseOverload hchosen).2
    obtain ⟨ns, b₃, hns, hafter⟩ := run_bind_eq_ok_iff.mp hafter
    obtain ⟨e', b₄, hpush, hafter⟩ := run_bind_eq_ok_iff.mp hafter
    obtain ⟨hstarts, hmakes⟩ := makes_of_run_pushNode hpush
    have hargs := standsFor_of_run_coerceAll hns
    rw [List.map_fst_zip (length_of_acceptsAll haccepts).ge] at hargs
    have hargs := Builder.standsFor_of_starts hstarts hargs
    rw [run_get_bind] at hafter
    dsimp only at hafter
    split at hafter
    · -- the call of a function without result is also a statement
      obtain ⟨u, b₅, hemit, hafter⟩ := run_bind_eq_ok_iff.mp hafter
      obtain ⟨rfl, rfl⟩ := run_pure_eq_ok_iff.mp hafter
      have hnodes := (lastStatement?_of_run_emit hemit).2
      refine ⟨f, ns, ?_, hargs.imp fun n v hn => hn.of_starts (by rw [hnodes])⟩
      rwa [Builder.Makes, Builder.node?, hnodes]
    · obtain ⟨rfl, rfl⟩ := run_pure_eq_ok_iff.mp hafter
      exact ⟨f, ns, hmakes, hargs⟩

/-- The arguments that parameters accept are lowered, and then the call is recorded, maybe after
other operands. -/
theorem operands_of_run_lowerAll {f : Intrinsic} {result : PrimitiveType}
    {params : List PrimitiveType} {args : List Value} (firsts : List NodeId)
    (hlength : params.length = args.length)
    (h : b.run (do
      let nodes ← lowerAll (args.zip params)
      pushNode (← intern (Interning.primitive result)) (.intrinsic f (firsts ++ nodes))) =
        (.ok e, b')) :
    ∃ ns, b'.Makes e (.intrinsic f (firsts ++ ns)) ∧ List.Forall₂ b'.StandsFor ns args := by
  obtain ⟨ns, b₁, hns, h⟩ := run_bind_eq_ok_iff.mp h
  obtain ⟨t, b₂, htype, h⟩ := run_bind_eq_ok_iff.mp h
  obtain ⟨hnodes, hmakes⟩ := makes_of_run_pushNode h
  have hargs := standsFor_of_run_lowerAll hns
  rw [List.map_fst_zip hlength.ge] at hargs
  have hsame : b₂.nodes = b₁.nodes := congrArg Arena.nodes (Builder.arena_of_run_intern htype)
  rw [hsame] at hnodes
  exact ⟨ns, hmakes, Builder.standsFor_of_starts hnodes hargs⟩

/-- The operands of a built-in function are its arguments, in order. -/
theorem operands_of_run_overloaded {f : Intrinsic} {args : List Value}
    (h : b.run (overloaded f args) = (.ok e, b')) :
    ∃ ns, b'.Makes e (.intrinsic f ns) ∧ List.Forall₂ b'.StandsFor ns args := by
  rw [overloaded, run_get_bind] at h
  split at h
  · cases (Prod.mk.inj h).1
  · rename_i s hs
    have haccepts : b.acceptsParams s.params args = true := by simpa using List.find?_some hs
    exact operands_of_run_lowerAll [] (length_of_acceptsParams haccepts) h

/-- The texture itself is the first argument. -/
theorem operands_of_run_textureCall {f : Intrinsic} {args : List Value}
    (h : b.run (textureCall f args) = (.ok e, b')) :
    ∃ ns, b'.Makes e (.intrinsic f ns) ∧ List.Forall₂ b'.StandsFor ns args := by
  unfold textureCall at h
  obtain ⟨⟨texture, name, t⟩, b₁, htexture, hafter⟩ := run_bind_eq_ok_iff.mp h
  have hhead : args.head? = some (.expr texture) := by
    rw [textureArgument, run_get_bind] at htexture
    dsimp only at htexture
    split at htexture
    · split at htexture
      · split at htexture
        · obtain ⟨heq, -⟩ := run_pure_eq_ok_iff.mp htexture
          obtain ⟨rfl, -⟩ := Prod.mk.inj heq
          assumption
        · cases (Prod.mk.inj htexture).1
      · cases (Prod.mk.inj htexture).1
    · cases (Prod.mk.inj htexture).1
  obtain ⟨rest, rfl⟩ := List.head?_eq_some_iff.mp hhead
  obtain ⟨s, b₂, -, hafter⟩ := run_bind_eq_ok_iff.mp hafter
  rw [run_get_bind] at hafter
  obtain ⟨haccepts, hafter⟩ := run_refuse_eq_ok_iff.mp hafter
  have haccepts := length_of_acceptsParams (by simpa using haccepts)
  obtain ⟨ns, hmakes, hns⟩ := operands_of_run_lowerAll [texture.node] haccepts hafter
  exact ⟨texture.node :: ns, hmakes, .cons rfl hns⟩

/-- The call of a built-in function is made of expressions that stand for its arguments. -/
theorem operands_of_run_intrinsic {f : Intrinsic} {args : List Value}
    (h : b.run (intrinsic f args) = (.ok e, b')) :
    ∃ ns, b'.Makes e (.intrinsic f ns) ∧ List.Forall₂ b'.StandsFor ns args := by
  rw [intrinsic_eq] at h
  obtain ⟨_, b₁, -, hcall⟩ := run_bind_eq_ok_iff.mp h
  split at hcall
  · exact operands_of_run_textureCall hcall
  · exact operands_of_run_overloaded hcall

/-! ## Indices -/

/-- A literal is no access. -/
theorem accesses_of_run_literal {l : Literal} (h : b.run (literal l) = (.ok e, b')) :
    b'.accesses = b.accesses := by
  obtain ⟨t, b₁, hintern, hpush⟩ := run_bind_eq_ok_iff.mp (run_literal_eq_ok_iff.mp h).2
  obtain ⟨-, rfl⟩ := Prod.mk.inj hpush
  exact congrArg Arena.accesses (Builder.arena_of_run_intern hintern)

/-- An element of an index that the host program knows is the one given before, or a new one whose
index stands for it. -/
theorem operands_of_run_element {base : Expr} {t : TypeId} {bound : Option Nat} {i : Int}
    (h : b.run (element base t bound i) = (.ok e, b')) :
    b.accessed? base.node (.index i.toNat) = some e ∨
      ∃ n, b'.Makes e (.index base.node n) ∧ b'.StandsFor n (.host (.int i)) := by
  unfold element at h
  dsimp only at h
  split at h
  · cases (Prod.mk.inj h).1
  · rename_i hrange
    have hliteral : (HostValue.int i).toLiteral none =
        .ok (if isI32 i then .i32 i else .u32 i.toNat) := by
      have hi : isU32 i = true := by
        by_contra hi
        simp [hi] at hrange
      rw [HostValue.toLiteral, if_pos hi]
      split <;> rfl
    rw [run_get_bind] at h
    split at h
    · rename_i e' he'
      obtain ⟨rfl, rfl⟩ := run_pure_eq_ok_iff.mp h
      exact Or.inl he'
    · rename_i hnone
      obtain ⟨index, b₁, hindex, haccess⟩ := run_bind_eq_ok_iff.mp h
      -- the literal of the index is no access, so that there still is none
      have hsame : b₁.accesses = b.accesses := accesses_of_run_literal hindex
      rw [Builder.accessed?, ← hsame] at hnone
      rw [run_access, Arena.given?, Builder.arena, hnone] at haccess
      obtain ⟨he, rfl⟩ := Prod.mk.inj haccess
      obtain rfl := Except.ok.inj he
      have hstands : b₁.StandsFor index.node (.host (.int i)) :=
        ⟨index.type, _, makes_of_run_literal hindex, HostValue.isOf_of_toLiteral hliteral⟩
      refine Or.inr ⟨index.node, by simp [Builder.Makes, Builder.node?], hstands.of_starts ?_⟩
      rw [Array.toList_push]
      exact List.prefix_append _ _

/-- An index that the host program knows is looked up or lowered; any other index is an
expression. -/
theorem operands_of_run_at {base : Expr} {index : Value}
    (h : b.run («at» base index) = (.ok e, b')) :
    (∃ i, index = .host (.int i) ∧ b.accessed? base.node (.index i.toNat) = some e) ∨
      ∃ n, b'.Makes e (.index base.node n) ∧ b'.StandsFor n index := by
  unfold «at» at h
  obtain ⟨⟨t, bound⟩, b₁, helements, hafter⟩ := run_bind_eq_ok_iff.mp h
  have hsame : b₁.accesses = b.accesses := congrArg Arena.accesses (arena_of_run_elements helements)
  dsimp only at hafter
  split at hafter
  · rename_i i
    rcases operands_of_run_element hafter with haccessed | hmade
    · rw [Builder.accessed?, hsame, ← Builder.accessed?] at haccessed
      exact Or.inl ⟨i, rfl, haccessed⟩
    · exact Or.inr hmade
  · rw [run_get_bind] at hafter
    split at hafter
    · obtain ⟨-, hpush⟩ := run_refuse_eq_ok_iff.mp hafter
      exact Or.inr ⟨_, (makes_of_run_pushNode hpush).2, rfl⟩
    · cases (Prod.mk.inj hafter).1
  · cases (Prod.mk.inj hafter).1

/-! ## Assignments -/

/-- An assignment is recorded with an expression that stands for its value. -/
theorem operand_of_run_assign {target : Expr} {value : Value} {u : Unit}
    (h : b.run (assign target value) = (.ok u, b')) :
    ∃ n, b'.lastStatement? = some (.assign target.node none n) ∧ b'.StandsFor n value := by
  rw [assign, run_get_bind] at h
  obtain ⟨_, b₁, -, hafter⟩ := run_bind_eq_ok_iff.mp h
  obtain ⟨e, b₂, hvalue, hemit⟩ := run_bind_eq_ok_iff.mp hafter
  obtain ⟨hlast, hnodes⟩ := lastStatement?_of_run_emit hemit
  exact ⟨e.node, hlast, (standsFor_of_run_coerce hvalue).of_starts (by rw [hnodes])⟩

/-- The value of an assignment with an operator. -/
theorem operand_of_run_assignOp {target : Expr} {op : BinaryOp} {value : Value} {u : Unit}
    (h : b.run (assignOp target op value) = (.ok u, b')) :
    ∃ n, b'.lastStatement? = some (.assign target.node (some op) n) ∧ b'.StandsFor n value := by
  unfold assignOp at h
  obtain ⟨-, h⟩ := run_refuse_eq_ok_iff.mp h
  rw [run_get_bind] at h
  obtain ⟨_, b₁, -, hafter⟩ := run_bind_eq_ok_iff.mp h
  obtain ⟨e, b₂, hvalue, hafter⟩ := run_bind_eq_ok_iff.mp hafter
  obtain ⟨t, b₃, htype, hafter⟩ := run_bind_eq_ok_iff.mp hafter
  rw [run_get_bind] at hafter
  obtain ⟨-, hemit⟩ := run_refuse_eq_ok_iff.mp hafter
  obtain ⟨hlast, hnodes⟩ := lastStatement?_of_run_emit hemit
  have hadds := (follows_binaryType (R := Builder.Adds) _ _ _).of_run htype
  refine ⟨e.node, hlast, (standsFor_of_run_lowerNear hvalue).of_starts ?_⟩
  rw [hnodes]
  exact hadds.nodes

/-- The value of a built-in output. -/
theorem operand_of_run_assignBuiltin {x : Builtin} {value : Value} {u : Unit}
    (h : b.run (assignBuiltin x value) = (.ok u, b')) :
    ∃ target n, b'.lastStatement? = some (.assign target none n) ∧ b'.StandsFor n value := by
  obtain ⟨target, b₁, -, hassign⟩ := run_bind_eq_ok_iff.mp h
  obtain ⟨n, hn⟩ := operand_of_run_assign hassign
  exact ⟨target.node, n, hn⟩

end Build

/-! ## Integers -/

section Integers

open Build

/-- What an operation makes of its operands stands for them, wherever host values are lowered: with
a type asked for, suggested or expected, next to another operand, and in operators, constructors,
calls, indices and assignments. A type that is asked for is given to the integers it has. -/
structure Builder.LowersExactly (b : Builder) : Prop where
  accepted : ∀ {i : Int} {k : ScalarKind}, (lower (.host (.int i)) (some k)).Succeeds b ↔
    k.HasInt i ∧ b.target.supportsScalar k = true
  lower : ∀ {v hint e b'}, b.run (lower v hint) = (.ok e, b') → b'.StandsFor e.node v
  near : ∀ {v hint e b'}, b.run (lowerNear v hint) = (.ok e, b') → b'.StandsFor e.node v
  expected : ∀ {v t what e b'}, b.run (coerce v t what) = (.ok e, b') → b'.StandsFor e.node v
  pair : ∀ {lhs rhs x b'}, b.run (lowerPair lhs rhs) = (.ok x, b') →
    b'.StandsFor x.1.node lhs ∧ b'.StandsFor x.2.node rhs
  unary : ∀ {op v e b'}, b.run (unary op v) = (.ok e, b') →
    ∃ n, b'.Makes e (.unary op n) ∧ b'.StandsFor n v
  binary : ∀ {op lhs rhs e b'}, b.run (binary op lhs rhs) = (.ok e, b') →
    ∃ l r, b'.Makes e (.binary op l r) ∧ b'.StandsFor l lhs ∧ b'.StandsFor r rhs
  cast : ∀ {v k e b'}, b.run (Build.cast v k) = (.ok e, b') →
    ∃ n, b'.Makes e (.construct [n]) ∧ b'.StandsFor n v
  construct : ∀ {shape args e b'}, b.run (construct shape args) = (.ok e, b') →
    ∃ ns, b'.Makes e (.construct ns) ∧ List.Forall₂ b'.StandsFor ns args
  call : ∀ {name args e b'}, b.run (call name args) = (.ok e, b') →
    ∃ f ns, b'.Makes e (.call f ns) ∧ List.Forall₂ b'.StandsFor ns args
  intrinsic : ∀ {f args e b'}, b.run (intrinsic f args) = (.ok e, b') →
    ∃ ns, b'.Makes e (.intrinsic f ns) ∧ List.Forall₂ b'.StandsFor ns args
  index : ∀ {base index e b'}, b.run («at» base index) = (.ok e, b') →
    (∃ i, index = .host (.int i) ∧ b.accessed? base.node (.index i.toNat) = some e) ∨
      ∃ n, b'.Makes e (.index base.node n) ∧ b'.StandsFor n index
  assign : ∀ {target value b'}, b.run (assign target value) = (.ok (), b') →
    ∃ n, b'.lastStatement? = some (.assign target.node none n) ∧ b'.StandsFor n value
  assignOp : ∀ {target op value b'}, b.run (assignOp target op value) = (.ok (), b') →
    ∃ n, b'.lastStatement? = some (.assign target.node (some op) n) ∧ b'.StandsFor n value
  assignBuiltin : ∀ {x value b'}, b.run (assignBuiltin x value) = (.ok (), b') →
    ∃ target n, b'.lastStatement? = some (.assign target none n) ∧ b'.StandsFor n value

/-- An integer is given the types that have it among their values, as far as the target has
these. -/
theorem Build.succeeds_lower_int_iff {b : Builder} {i : Int} {k : ScalarKind} :
    (Build.lower (.host (.int i)) (some k)).Succeeds b ↔
      k.HasInt i ∧ b.target.supportsScalar k = true := by
  constructor
  · rintro ⟨e, b', h⟩
    unfold Build.lower at h
    dsimp only at h
    split at h
    · rename_i l hl
      have hscalar := HostValue.scalar_of_toLiteral hl
      have hsupports := (run_literal_eq_ok_iff.mp h).1
      have hfits := (HostValue.toLiteral_int_cases hl).1
      rw [hscalar] at hsupports hfits
      exact ⟨HostValue.fits_int_iff.mp hfits, hsupports⟩
    · cases (Prod.mk.inj h).1
  · rintro ⟨hint, hsupports⟩
    refine succeeds_lower fun h hh => ?_
    obtain rfl := Value.host.inj hh
    exact ⟨HostValue.fits_int_iff.mpr hint, hsupports⟩

/-- Every operation with literals lowers exactly the integer it is given. -/
theorem Builder.lowersExactly (b : Builder) : b.LowersExactly where
  accepted := succeeds_lower_int_iff
  lower := standsFor_of_run_lower
  near := standsFor_of_run_lowerNear
  expected := standsFor_of_run_coerce
  pair := standsFor_of_run_lowerPair
  unary := operands_of_run_unary
  binary := operands_of_run_binary
  cast := operands_of_run_cast
  construct := operands_of_run_construct
  call := operands_of_run_call
  intrinsic := operands_of_run_intrinsic
  index := operands_of_run_at
  assign := operand_of_run_assign
  assignOp := operand_of_run_assignOp
  assignBuiltin := operand_of_run_assignBuiltin

/-- An integer fits a component type exactly if it is one of its values, and no operation changes an
integer of 64 bits by giving it a type: the literal that stands for it denotes it. -/
theorem integers_denoted :
    (∀ (i : Int) (k : ScalarKind), (HostValue.int i).fits k = true ↔ k.HasInt i) ∧
      ∀ b : Builder, b.LowersExactly :=
  ⟨fun _ _ => HostValue.fits_int_iff, Builder.lowersExactly⟩

/-- The least integer of 64 bits is a float. -/
theorem integers_denoted_least : ∃ e b',
    (Builder.new { target := .webGL2 }).run (lower (.host (.int (-2 ^ 63))) (some .f32)) =
      (.ok e, b') ∧ b'.StandsFor e.node (.host (.int (-2 ^ 63))) := by
  have hexact := integers_denoted.2 (Builder.new { target := .webGL2 })
  have hint : ScalarKind.f32.HasInt (-2 ^ 63) := ⟨-1, 63, by decide, by norm_num⟩
  obtain ⟨e, b', hrun⟩ := hexact.accepted.mpr ⟨hint, rfl⟩
  exact ⟨e, b', hrun, hexact.lower hrun⟩

end Integers

end WebShader
