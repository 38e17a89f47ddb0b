import WebShader.Proofs.TypingRules
import WebShader.Term

/-!
# Trees read from the arena

A tree is read from an expression of its shape, and its operands from those of the expression, which
come before it. So whatever the typing rules imply of a tree that is read holds of all the trees in
it.
-/

namespace WebShader

/-! ## Operands -/

namespace Term

/-- The trees that a tree is made of. -/
def operands : Term → List Term
  | literal _ _ | var _ _ | builtin _ _ => []
  | member _ base _ | swizzle _ base _ => [base]
  | index _ base i => [base, i]
  | unary _ _ operand => [operand]
  | binary _ _ lhs rhs => [lhs, rhs]
  | construct _ args | call _ _ args | intrinsic _ _ args => args
  | addressOf _ place => [place]
  | deref _ pointer => [pointer]

/-- What is true of a tree, of its operands, of their operands and so on. -/
inductive Every (P : Term → Prop) : Term → Prop
  | of {e : Term} : P e → (∀ operand ∈ e.operands, Every P operand) → Every P e

section Every

variable {P Q R : Term → Prop} {e : Term}

/-- What is true of every part of a tree is true of the tree. -/
theorem Every.self (h : e.Every P) : P e := by
  cases h with
  | of he _ => exact he

/-- What is true of every part of a tree is true of every part of its operands. -/
theorem Every.operands (h : e.Every P) : ∀ operand ∈ e.operands, operand.Every P := by
  cases h with
  | of _ hoperands => exact hoperands

/-- A tree with a single operand. -/
theorem Every.operand {operand : Term} (h : e.Every P) (he : e.operands = [operand]) :
    operand.Every P :=
  h.operands operand (he ▸ List.mem_cons_self)

/-- A tree with two operands. -/
theorem Every.pair {l r : Term} (h : e.Every P) (he : e.operands = [l, r]) :
    l.Every P ∧ r.Every P := by
  have hpair := h.operands
  rw [he] at hpair
  exact ⟨hpair l List.mem_cons_self, hpair r (List.mem_cons_of_mem _ List.mem_cons_self)⟩

/-- Two things that are true of every part give a third. -/
theorem Every.imp₂ (hp : e.Every P) (hq : e.Every Q) (h : ∀ {e}, P e → Q e → R e) : e.Every R := by
  induction hp with
  | of he _ ih =>
      exact .of (h he hq.self) fun operand ho => ih operand ho (hq.operands operand ho)

end Every

end Term

/-! ## Roots -/

namespace Builder

variable {b : Builder} {callees : Callees} {n : NodeId} {e : Term}

/-- A tree has the type and the shape of an expression, and operands that are read from those of the
expression. -/
inductive Roots (b : Builder) : Node → Term → Prop
  | literal (t : TypeId) (value : Literal) : b.Roots ⟨t, .literal value⟩ (.literal t value)
  | var (t : TypeId) (v : VarId) : b.Roots ⟨t, .var v⟩ (.var t v)
  | builtin (t : TypeId) (x : Builtin) : b.Roots ⟨t, .builtin x⟩ (.builtin t x)
  | member (t : TypeId) {m : NodeId} (i : Nat) {base : Term} : b.term m = .ok base →
      b.Roots ⟨t, .member m i⟩ (.member t base i)
  | swizzle (t : TypeId) {m : NodeId} (mask : Swizzle) {base : Term} : b.term m = .ok base →
      b.Roots ⟨t, .swizzle m mask⟩ (.swizzle t base mask)
  | index (t : TypeId) {m k : NodeId} {base i : Term} : b.term m = .ok base → b.term k = .ok i →
      b.Roots ⟨t, .index m k⟩ (.index t base i)
  | unary (t : TypeId) (op : UnaryOp) {m : NodeId} {operand : Term} : b.term m = .ok operand →
      b.Roots ⟨t, .unary op m⟩ (.unary t op operand)
  | binary (t : TypeId) (op : BinaryOp) {m k : NodeId} {lhs rhs : Term} : b.term m = .ok lhs →
      b.term k = .ok rhs → b.Roots ⟨t, .binary op m k⟩ (.binary t op lhs rhs)
  | construct (t : TypeId) {ms : List NodeId} {args : List Term} :
      List.Forall₂ (fun m e => b.term m = .ok e) ms args →
      b.Roots ⟨t, .construct ms⟩ (.construct t args)
  | call (t : TypeId) (f : FunctionId) {ms : List NodeId} {args : List Term} :
      List.Forall₂ (fun m e => b.term m = .ok e) ms args →
      b.Roots ⟨t, .call f ms⟩ (.call t f args)
  | intrinsic (t : TypeId) (f : Intrinsic) {ms : List NodeId} {args : List Term} :
      List.Forall₂ (fun m e => b.term m = .ok e) ms args →
      b.Roots ⟨t, .intrinsic f ms⟩ (.intrinsic t f args)
  | addressOf (t : TypeId) {m : NodeId} {place : Term} : b.term m = .ok place →
      b.Roots ⟨t, .addressOf m⟩ (.addressOf t place)
  | deref (t : TypeId) {m : NodeId} {pointer : Term} : b.term m = .ok pointer →
      b.Roots ⟨t, .deref m⟩ (.deref t pointer)

/-- The tree has the type of its node. -/
theorem Roots.type_eq {node : Node} (h : b.Roots node e) : node.type = e.type := by
  cases h <;> rfl

/-- An operand that comes before the whole is read on its own. -/
theorem term_of_operand {m n : NodeId} {e : Term}
    (h : (if m.index < n.index then b.term m
      else .error (.internal (.undefinedExpression m.index))) = .ok e) :
    m.index < n.index ∧ b.term m = .ok e := by
  by_cases hlt : m.index < n.index
  · rw [if_pos hlt] at h
    exact ⟨hlt, h⟩
  · rw [if_neg hlt] at h
    cases h

/-- A tree that is read has a root, whose operands come before it. -/
theorem roots_of_term (h : b.term n = .ok e) : ∃ node, b.node? n = some node ∧ b.Roots node e ∧
    ∀ m ∈ node.kind.operands, m.index < n.index := by
  rw [term] at h
  cases hnode : b.node? n with
  | none =>
      rw [hnode] at h
      cases h
  | some node =>
      obtain ⟨t, kind⟩ := node
      rw [hnode] at h
      refine ⟨_, rfl, ?_⟩
      -- operands are read only where they come before the node
      have hargs : ∀ {ms : List NodeId} {es : List Term},
          ms.mapM (fun m => if m.index < n.index then b.term m
            else .error (.internal (.undefinedExpression m.index))) = .ok es →
          List.Forall₂ (fun m e => b.term m = .ok e) ms es ∧ ∀ m ∈ ms, m.index < n.index := by
        intro ms es hes
        have hread := mapM_eq_ok_iff.mp hes
        refine ⟨hread.imp fun _ _ he => (term_of_operand he).2, fun m hm => ?_⟩
        obtain ⟨e, -, he⟩ := exists_result_of_forall₂ hread m hm
        exact (term_of_operand he).1
      cases kind with
      | literal value =>
          rw [← Except.ok.inj h]
          exact ⟨.literal t value, by simp [NodeKind.operands]⟩
      | var v =>
          rw [← Except.ok.inj h]
          exact ⟨.var t v, by simp [NodeKind.operands]⟩
      | builtin x =>
          rw [← Except.ok.inj h]
          exact ⟨.builtin t x, by simp [NodeKind.operands]⟩
      | member m i =>
          obtain ⟨base, hbase, h⟩ := bind_eq_ok_iff.mp h
          obtain ⟨hlt, hbase⟩ := term_of_operand hbase
          rw [← Except.ok.inj h]
          exact ⟨.member t i hbase, by simpa [NodeKind.operands] using hlt⟩
      | swizzle m mask =>
          obtain ⟨base, hbase, h⟩ := bind_eq_ok_iff.mp h
          obtain ⟨hlt, hbase⟩ := term_of_operand hbase
          rw [← Except.ok.inj h]
          exact ⟨.swizzle t mask hbase, by simpa [NodeKind.operands] using hlt⟩
      | index m k =>
          obtain ⟨base, hbase, h⟩ := bind_eq_ok_iff.mp h
          obtain ⟨i, hi, h⟩ := bind_eq_ok_iff.mp h
          obtain ⟨hlt, hbase⟩ := term_of_operand hbase
          obtain ⟨hlt', hi⟩ := term_of_operand hi
          rw [← Except.ok.inj h]
          exact ⟨.index t hbase hi, by simpa [NodeKind.operands] using ⟨hlt, hlt'⟩⟩
      | unary op m =>
          obtain ⟨operand, hoperand, h⟩ := bind_eq_ok_iff.mp h
          obtain ⟨hlt, hoperand⟩ := term_of_operand hoperand
          rw [← Except.ok.inj h]
          exact ⟨.unary t op hoperand, by simpa [NodeKind.operands] using hlt⟩
      | binary op m k =>
          obtain ⟨lhs, hlhs, h⟩ := bind_eq_ok_iff.mp h
          obtain ⟨rhs, hrhs, h⟩ := bind_eq_ok_iff.mp h
          obtain ⟨hlt, hlhs⟩ := term_of_operand hlhs
          obtain ⟨hlt', hrhs⟩ := term_of_operand hrhs
          rw [← Except.ok.inj h]
          exact ⟨.binary t op hlhs hrhs, by simpa [NodeKind.operands] using ⟨hlt, hlt'⟩⟩
      | construct ms =>
          obtain ⟨args, hread, h⟩ := bind_eq_ok_iff.mp h
          rw [← Except.ok.inj h]
          exact ⟨.construct t (hargs hread).1, (hargs hread).2⟩
      | call f ms =>
          obtain ⟨args, hread, h⟩ := bind_eq_ok_iff.mp h
          rw [← Except.ok.inj h]
          exact ⟨.call t f (hargs hread).1, (hargs hread).2⟩
      | intrinsic f ms =>
          obtain ⟨args, hread, h⟩ := bind_eq_ok_iff.mp h
          rw [← Except.ok.inj h]
          exact ⟨.intrinsic t f (hargs hread).1, (hargs hread).2⟩
      | addressOf m =>
          obtain ⟨place, hplace, h⟩ := bind_eq_ok_iff.mp h
          obtain ⟨hlt, hplace⟩ := term_of_operand hplace
          rw [← Except.ok.inj h]
          exact ⟨.addressOf t hplace, by simpa [NodeKind.operands] using hlt⟩
      | deref m =>
          obtain ⟨pointer, hpointer, h⟩ := bind_eq_ok_iff.mp h
          obtain ⟨hlt, hpointer⟩ := term_of_operand hpointer
          rw [← Except.ok.inj h]
          exact ⟨.deref t hpointer, by simpa [NodeKind.operands] using hlt⟩

/-- A tree has the type of the expression that it is read from. -/
theorem typeOf?_of_term (h : b.term n = .ok e) : b.typeOf? n = some e.type := by
  obtain ⟨node, hnode, hroots, -⟩ := roots_of_term h
  rw [typeOf?, hnode, Option.map_some, hroots.type_eq]

/-- The operands of a tree are read from those of the expression. -/
theorem Roots.exists_operand {node : Node} (h : b.Roots node e) {operand : Term}
    (ho : operand ∈ e.operands) : ∃ m ∈ node.kind.operands, b.term m = .ok operand := by
  cases h with
  | literal | var | builtin => cases ho
  | member _ _ hterm | swizzle _ _ hterm | unary _ _ hterm | addressOf _ hterm | deref _ hterm =>
      obtain rfl := List.mem_singleton.mp ho
      exact ⟨_, List.mem_cons_self, hterm⟩
  | index _ hterm hterm' | binary _ _ hterm hterm' =>
      rcases List.mem_cons.mp ho with rfl | ho
      · exact ⟨_, List.mem_cons_self, hterm⟩
      · obtain rfl := List.mem_singleton.mp ho
        exact ⟨_, List.mem_cons_of_mem _ List.mem_cons_self, hterm'⟩
  | construct _ hread | call _ _ hread | intrinsic _ _ hread =>
      exact exists_mem_of_forall₂ hread operand ho

/-- What the rules imply of a tree, given the expression that it is read from, is true of every tree
within a tree that is read. -/
theorem Typed.every {P : Term → Prop} (hb : b.Typed callees)
    (hP : ∀ {m node e}, b.Roots node e → b.Dictates callees m node.kind node.type → P e)
    {n : NodeId} {e : Term} (h : b.term n = .ok e) : e.Every P := by
  obtain ⟨node, hnode, hroots, hdown⟩ := roots_of_term h
  refine .of (hP hroots (hb.dictated n node hnode)) fun operand ho => ?_
  obtain ⟨m, hm, hoperand⟩ := hroots.exists_operand ho
  have hlt := hdown m hm
  exact hb.every hP hoperand
termination_by n.index

end Builder

end WebShader
