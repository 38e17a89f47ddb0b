import WebShader.Proofs.SwizzleMasks
import WebShader.Proofs.TypedSteps
import WebShader.Proofs.TypingRules

/-!
# Expressions follow the rules

Operators, accesses and built-in functions give primitive types of valid shapes where their
operands have such types. Operands, operators, accesses and pointers record only expressions that
follow the typing rules, and give handles that carry their types.
-/

namespace WebShader

/-! ## Shapes of results -/

namespace PrimitiveType

/-- The shapes without fault: matrices of floats and single columns. -/
theorem fault_eq_none_iff {p : PrimitiveType} : p.fault = none ↔
    (p.isMatrix = true ∧ p.scalar.isFloat = true ∧ p.cols ≤ 4 ∧ 2 ≤ p.rows ∧ p.rows ≤ 4) ∨
      p.cols = 1 ∧ p.rows ≠ 0 ∧ p.rows ≤ 4 := by
  unfold fault
  cases hm : p.isMatrix with
  | true =>
      have hne : p.cols ≠ 1 := fun h => by simp [isMatrix, h] at hm
      cases hf : p.scalar.isFloat
      · simp only [if_true]
        split <;> simp [hne]
      · simp [hne, and_assoc]
  | false => simp [and_assoc]

/-- A scalar is a valid type. -/
theorem fault_ofScalar (k : ScalarKind) : (ofScalar k).fault = none := by cases k <;> rfl

/-- The elements of a valid type are valid. -/
theorem fault_element {p : PrimitiveType} (hp : p.fault = none) : p.element.fault = none := by
  unfold element
  split
  · rename_i hmatrix
    rw [fault_eq_none_iff] at hp ⊢
    rcases hp with ⟨-, -, -, hrows, hrows'⟩ | ⟨hcols, -⟩
    · refine Or.inr ⟨rfl, ?_, hrows'⟩
      rintro hzero
      rw [show p.rows = 0 from hzero] at hrows
      exact absurd hrows (by decide)
    · simp [isMatrix, hcols] at hmatrix
  · exact fault_ofScalar _

end PrimitiveType

namespace BinaryOp

variable {l r p : PrimitiveType}

/-- A product of valid types is valid. -/
theorem fault_matrixProduct? (hl : l.fault = none) (hr : r.fault = none)
    (h : matrixProduct? l r = some p) : p.fault = none := by
  have hrows : ∀ {n : UInt8}, 2 ≤ n → n ≠ 0 := by
    rintro n hn rfl
    exact absurd hn (by decide)
  unfold matrixProduct? at h
  rw [PrimitiveType.fault_eq_none_iff] at hl hr ⊢
  grind [PrimitiveType.vector, PrimitiveType.matrix, PrimitiveType.isMatrix,
    PrimitiveType.isVector]

/-- Operators give types of valid shapes. -/
theorem fault_result? {op : BinaryOp} (hl : l.fault = none) (hr : r.fault = none)
    (h : op.result? l r = some p) : p.fault = none := by
  have hproduct : op.result? l r = matrixProduct? l r → p.fault = none := by
    rw [h]
    exact fun h => fault_matrixProduct? hl hr h.symm
  have hcomponents : op.result? l r = componentwise? l r → p.fault = none := by
    rw [h]
    unfold componentwise?
    grind
  have hbool : l.isMatrix = false → (l.withScalar .bool).fault = none := by
    intro hmatrix
    rw [PrimitiveType.fault_eq_none_iff] at hl ⊢
    grind [PrimitiveType.withScalar]
  unfold result? at h hproduct hcomponents
  grind

end BinaryOp

/-! ## Masks -/

/-- A mask selects one to four components. -/
theorem Swizzle.length_of_parse {mask : String} {size : UInt8} {s : Swizzle}
    (h : parse mask size = .ok s) : 1 ≤ s.length ∧ s.length ≤ 4 := by
  obtain ⟨-, hpos, hle, -⟩ := parse_eq_ok_iff.mp h
  omega

/-! ## Built-in functions and variables -/

/-- The overloads of built-in functions give types of valid shapes. -/
theorem Intrinsic.fault_of_mem_signatures {target : Target} {f : Intrinsic} {s : Signature}
    (h : s ∈ f.signatures target) : s.result.fault = none := by
  have hall : ∀ s ∈ f.signatures target, s.result.fault.isNone = true := by
    cases target <;> cases f <;> decide
  exact Option.isNone_iff_eq_none.mp (hall s h)

/-- What reading a texture gives is valid. -/
theorem Intrinsic.fault_textureSignature (target : Target) (f : Intrinsic) (t : TextureType)
    (arity : Nat) : (f.textureSignature target t arity).result.fault = none := by
  have hsize : t.sizeComponents = 2 ∨ t.sizeComponents = 3 := by
    unfold TextureType.sizeComponents
    split <;> simp
  have htexel : (PrimitiveType.vector t.sample.scalar 4).fault = none :=
    PrimitiveType.fault_eq_none_iff.mpr (Or.inr
      ⟨rfl, show (4 : UInt8) ≠ 0 by decide, show (4 : UInt8) ≤ 4 by decide⟩)
  unfold textureSignature
  split
  · rfl
  · rfl
  · dsimp only
    split
    · rfl
    · exact htexel
  · rcases hsize with hsize | hsize <;> rw [hsize] <;> split <;> rfl
  · rfl

/-- The type of a built-in value is valid. -/
theorem Builtin.fault_type (target : Target) (x : Builtin) : (x.type target).fault = none := by
  cases target <;> cases x <;> rfl

/-! ## Operands -/

/-- An operand is a host value, or a handle with a property. -/
def Value.Holds (P : Expr → Prop) : Value → Prop
  | .host _ => True
  | .expr e => P e

/-- What a value holds may be weakened. -/
theorem Value.Holds.imp {P Q : Expr → Prop} {v : Value} (hv : v.Holds P) (h : ∀ e, P e → Q e) :
    v.Holds Q := by
  cases v with
  | host v => trivial
  | expr e => exact h e hv

namespace Builder

variable {b b' : Builder} {callees : Callees} {v : Value} {e : Expr}

/-- A handle among the operands carries the type of its expression. -/
def Knows (b : Builder) (v : Value) : Prop := v.Holds b.Carries

/-- What an operand is lowered to: a handle stays as it is, and a host value gets the type asked
for. -/
def Lowers (b : Builder) (hint : Option ScalarKind) : Value → Expr → Prop
  | .host _, e => ∀ k, hint = some k → b.types.kind e.type = .primitive (.ofScalar k)
  | .expr e', e => e = e'

/-- What is known stays known. -/
theorem Knows.of_extends (h : b.Extends b') (hv : b.Knows v) : b'.Knows v :=
  Value.Holds.imp hv fun _ he => he.of_extends h

/-- The primitive type of a handle is that of its expression. -/
theorem Carries.primitiveOf? (he : b.Carries e) {p : PrimitiveType}
    (hp : b.types.primitive? e.type = some p) : b.primitiveOf? e.node = some p := by
  rw [Builder.primitiveOf?, show b.typeOf? e.node = some e.type from he]
  exact hp

/-- Registered primitive types have valid shapes. -/
theorem Typed.fault_eq_none (hb : b.Typed callees) {t : TypeId} {p : PrimitiveType}
    (hp : b.types.primitive? t = some p) : p.fault = none := by
  have hvalid := hb.sound.valid t
  rw [Registry.primitive?_eq_some_iff.mp hp] at hvalid
  exact hvalid

end Builder

namespace Build

variable {α : Type} {callees : Callees} {b : Builder}

/-- What follows a look at the type of an operand. -/
theorem Ensures.operandType_bind (hb : b.Typed callees) {e : Expr} {operation : String}
    {f : PrimitiveType → Build α} {post : α → Builder → Prop}
    (hf : ∀ p, b.types.primitive? e.type = some p → (f p).Ensures callees b post) :
    (operandType e operation >>= f).Ensures callees b post :=
  .reads_bind hb (reads_operandType _ _) fun p hrun => hf p (run_operandType_eq_ok hrun).2

theorem ensures_literal (hb : b.Typed callees) (l : Literal) :
    (literal l).Ensures callees b fun e b' =>
      b'.Carries e ∧ b'.types.kind e.type = .primitive (.ofScalar l.scalar) := by
  have hpush : ∀ l : Literal, Ensures (do
      pushNode (← intern (Interning.scalar l.scalar)) (.literal l)) callees b fun e b' =>
        b'.Carries e ∧ b'.types.kind e.type = .primitive (.ofScalar l.scalar) := by
    intro l
    refine (ensures_primitive hb (PrimitiveType.fault_ofScalar _)).bind fun t b₁ _ hb₁ ht => ?_
    refine (ensures_pushNode hb₁ (.literal ht)).mono fun e b₂ hext ⟨he, htype⟩ => ⟨he, ?_⟩
    rw [htype]
    exact Registry.kind_of_le hext.types ht (by simp)
  unfold literal
  split
  · exact .reads_bind hb (reads_require _) fun _ _ => hpush _
  · exact .reads_bind hb (reads_require _) fun _ _ => hpush _
  · exact hpush _

theorem ensures_lower (hb : b.Typed callees) {v : Value} (hv : b.Knows v)
    (hint : Option ScalarKind) :
    (lower v hint).Ensures callees b fun e b' => b'.Carries e ∧ b'.Lowers hint v e := by
  unfold lower
  cases v with
  | expr e => exact .pure hb ⟨hv, rfl⟩
  | host v =>
      dsimp only
      split
      · rename_i l hl
        refine (ensures_literal hb l).mono fun e b' _ ⟨he, hkind⟩ => ⟨he, fun k hk => ?_⟩
        rw [hk] at hl
        rw [hkind, HostValue.scalar_of_toLiteral hl]
      · exact .throw hb _

theorem ensures_lowerNear (hb : b.Typed callees) {v : Value} (hv : b.Knows v)
    (hint : Option ScalarKind) :
    (lowerNear v hint).Ensures callees b fun e b' => b'.Carries e := by
  unfold lowerNear
  repeat' split
  all_goals exact (ensures_lower hb hv _).mono fun _ _ _ h => h.1

theorem ensures_coerce (hb : b.Typed callees) {v : Value} (hv : b.Knows v) (t : TypeId)
    (what : String) :
    (coerce v t what).Ensures callees b fun e b' => b'.Carries e ∧ e.type = t := by
  refine .get_bind ((ensures_lowerNear hb hv _).bind fun e b₁ _ hb₁ he => ?_)
  refine .get_bind (.refuse hb₁ fun htype => .pure hb₁ ⟨he, ?_⟩)
  simpa using htype

theorem ensures_lowerPair (hb : b.Typed callees) {lhs rhs : Value} (hl : b.Knows lhs)
    (hr : b.Knows rhs) :
    (lowerPair lhs rhs).Ensures callees b fun x b' => b'.Carries x.1 ∧ b'.Carries x.2 := by
  unfold lowerPair
  split
  · refine .get_bind ((ensures_lowerNear hb hr _).bind fun r b₁ hext hb₁ hr => ?_)
    exact .pure hb₁ ⟨Builder.Carries.of_extends hext hl, hr⟩
  · refine .get_bind ((ensures_lowerNear hb hl _).bind fun l b₁ hext hb₁ hl => ?_)
    exact .pure hb₁ ⟨hl, Builder.Carries.of_extends hext hr⟩
  · refine (ensures_lowerNear hb hl _).bind fun l b₁ hext hb₁ hl => .get_bind ?_
    refine (ensures_lowerNear hb₁ (hr.of_extends hext) _).bind fun r b₂ hext' hb₂ hr => ?_
    exact .pure hb₂ ⟨hl.of_extends hext', hr⟩

/-! ## Operators -/

/-- An operator gives the type that its operands dictate, wherever it is recorded. -/
theorem ensures_binaryType (hb : b.Typed callees) (op : BinaryOp) {lhs rhs : Expr}
    (hl : b.Carries lhs) (hr : b.Carries rhs) :
    (binaryType op lhs rhs).Ensures callees b fun t b' =>
      ∀ n, b'.Dictates callees n (.binary op lhs.node rhs.node) t := by
  refine .operandType_bind hb fun p hp => .operandType_bind hb fun q hq => ?_
  split
  · rename_i result hresult
    have hfault := BinaryOp.fault_result? (hb.fault_eq_none hp) (hb.fault_eq_none hq) hresult
    refine (ensures_primitive hb hfault).mono fun t b' hext ht n => ?_
    exact .binary (hext.primitiveOf? (hl.primitiveOf? hp)) (hext.primitiveOf? (hr.primitiveOf? hq))
      hresult ht
  · exact .throw hb _

theorem ensures_binary (hb : b.Typed callees) (op : BinaryOp) {lhs rhs : Value}
    (hl : b.Knows lhs) (hr : b.Knows rhs) :
    (binary op lhs rhs).Ensures callees b fun e b' => b'.Carries e := by
  unfold binary
  refine .when (fun _ => .rearranges hb (reads_require _).rearranges) (fun b₁ hext hb₁ => ?_) hb
  have hpair := ensures_lowerPair hb₁ (hl.of_extends hext) (hr.of_extends hext)
  refine hpair.bind fun x b₂ _ hb₂ ⟨hl, hr⟩ => ?_
  refine (ensures_binaryType hb₂ op hl hr).bind fun t b₃ _ hb₃ ht => ?_
  exact (ensures_pushNode hb₃ (ht _)).mono fun _ _ _ h => h.1

theorem ensures_unary (hb : b.Typed callees) (op : UnaryOp) {v : Value} (hv : b.Knows v) :
    (unary op v).Ensures callees b fun e b' => b'.Carries e := by
  unfold unary
  refine .when (fun _ => .rearranges hb (reads_require _).rearranges) (fun b₁ hext hb₁ => ?_) hb
  refine (ensures_lower hb₁ (hv.of_extends hext) _).bind fun e b₂ _ hb₂ ⟨he, _⟩ => ?_
  refine .operandType_bind hb₂ fun p hp => .refuse hb₂ fun happlies => ?_
  have hkind := Registry.primitive?_eq_some_iff.mp hp
  have hdictated : b₂.Dictates callees ⟨b₂.nodes.size⟩ (.unary op e.node) e.type :=
    .unary he hkind (by simpa using happlies)
  exact (ensures_pushNode hb₂ hdictated).mono fun _ _ _ h => h.1

/-- A primitive type is registered if its shape is valid. -/
theorem ensures_typePrimitive (hb : b.Typed callees) (p : PrimitiveType) :
    (type (.primitive p)).Ensures callees b fun t b' => b'.types.kind t = .primitive p := by
  refine .get_bind (.reads_bind hb (Follows.liftM _) fun _ _ => ?_)
  rw [Interning.shape]
  split
  · exact ensures_intern hb (P := fun t r => r.kind t = .primitive p)
      (Interning.Ensures.throw hb.sound _)
  · exact ensures_primitive hb ‹_›

theorem ensures_cast (hb : b.Typed callees) {v : Value} (hv : b.Knows v) (k : ScalarKind) :
    (cast v k).Ensures callees b fun e b' => b'.Carries e := by
  refine (ensures_lower hb hv _).bind fun e b₁ _ hb₁ ⟨he, _⟩ => ?_
  refine .operandType_bind hb₁ fun p hp => .refuse hb₁ fun hmatrix => ?_
  refine (ensures_typePrimitive hb₁ _).bind fun t b₂ hext hb₂ ht => ?_
  have hq := Registry.primitive?_of_le hext.types hp
  have hmatrix : p.isMatrix = false := by simpa using hmatrix
  have hbuilds : b₂.types.Builds (b₂.types.kind t) [e.type] := by
    rw [ht]
    refine .converted hmatrix ?_
    rw [hq]
    simp [converts, hmatrix, PrimitiveType.withScalar]
  refine (ensures_pushNode hb₂ (.construct (.cons (he.of_extends hext) .nil) hbuilds)).mono ?_
  exact fun _ _ _ h => h.1

end Build

/-! ## Accesses -/

/-- What the elements of a type are: those of an array, or the columns of a matrix or the components
of a vector. -/
def Registry.HasElements (r : Registry) (t element : TypeId) : Prop :=
  (∃ length, r.kind t = .array element length) ∨
    ∃ p, r.primitive? t = some p ∧ p.isScalar = false ∧ r.kind element = .primitive p.element

/-- A type keeps its elements. -/
theorem Registry.HasElements.of_le {r r' : Registry} (h : r ≤ r') {t element : TypeId}
    (ht : r.HasElements t element) : r'.HasElements t element := by
  rcases ht with ⟨length, hkind⟩ | ⟨p, hp, hmany, hkind⟩
  · exact Or.inl ⟨length, kind_of_le h hkind (by simp)⟩
  · exact Or.inr ⟨p, primitive?_of_le h hp, hmany, kind_of_le h hkind (by simp)⟩

namespace Build

variable {callees : Callees} {b : Builder}

/-- An access gives the handle given before, or a new one. -/
theorem ensures_access (hb : b.Typed callees) {base : Expr} {part : Access} {t : TypeId}
    {kind : NodeKind} (hd : b.Dictates callees ⟨b.nodes.size⟩ kind t) :
    (access base part t kind).Ensures callees b fun e b' => b'.Carries e := by
  refine .get_bind ?_
  split
  · rename_i e he
    obtain ⟨x, hx, rfl⟩ := Option.map_eq_some_iff.mp he
    refine .pure hb (hb.handles _ (Builder.mem_handles_iff.mpr (Or.inl ⟨x, ?_, rfl⟩)))
    exact List.mem_of_find?_eq_some hx
  · refine (ensures_pushNode hb hd).bind fun e b₁ _ hb₁ ⟨he, _⟩ => ?_
    have hshares : b₁.Shares { b₁ with accesses := ((base.node, part), e) :: b₁.accesses } :=
      .of_eq rfl rfl rfl rfl
    refine .of_run rfl hshares.extends (hb₁.of_shares hshares fun e' he' => ?_) he
    rcases Builder.mem_handles_iff.mp he' with ⟨x, hx, rfl⟩ | hstage
    · rcases List.mem_cons.mp hx with rfl | hx
      · exact he
      · exact hb₁.handles _ (Builder.mem_handles_iff.mpr (Or.inl ⟨x, hx, rfl⟩))
    · exact hb₁.handles _ (Builder.mem_handles_iff.mpr (Or.inr hstage))

theorem ensures_member (hb : b.Typed callees) {base : Expr} (hbase : b.Carries base)
    (name : String) : (member base name).Ensures callees b fun e b' => b'.Carries e := by
  refine .get_bind ?_
  dsimp only
  split
  · exact .throw hb _
  · rename_i s hs
    have hkind : b.types.kind base.type = .struct s := by
      unfold Registry.struct? at hs
      split at hs
      · rw [← Option.some.inj hs]
        assumption
      · cases hs
    split
    · exact .throw hb _
    · rename_i i m hm
      have hmember : s.members[i]? = some m := by
        obtain ⟨j, -, hj⟩ := Option.bind_eq_some_iff.mp hm
        obtain ⟨m', hm', h⟩ := Option.bind_eq_some_iff.mp hj
        obtain ⟨rfl, rfl⟩ := Prod.mk.inj (Option.some.inj h)
        exact hm'
      exact ensures_access hb (.member hbase hkind hmember)

theorem ensures_swizzle (hb : b.Typed callees) {base : Expr} (hbase : b.Carries base)
    (mask : String) : (swizzle base mask).Ensures callees b fun e b' => b'.Carries e := by
  refine .get_bind ?_
  dsimp only
  split
  · exact .throw hb _
  · rename_i p hp
    refine .refuse hb fun hvector => ?_
    have hvector : p.isVector = true := by simpa using hvector
    refine .reads_bind hb (Follows.liftM _) fun s hs => ?_
    rw [Builder.run_liftM] at hs
    obtain ⟨hpos, hle⟩ := Swizzle.length_of_parse (Prod.mk.inj hs).1
    have hfault : (PrimitiveType.vector p.scalar (UInt8.ofNat s.length)).fault = none := by
      have hcases : s.length = 1 ∨ s.length = 2 ∨ s.length = 3 ∨ s.length = 4 := by omega
      rcases hcases with h | h | h | h <;> rw [h] <;> rfl
    refine (ensures_primitive hb hfault).bind fun t b₁ hext hb₁ ht => ?_
    exact ensures_access hb₁ (.swizzle (hext.primitiveOf? (hbase.primitiveOf? hp)) hvector ht)

/-- An index that is an integer gives what the elements of its base are. -/
theorem dictates_index {base i : Expr} {t : TypeId} {q : PrimitiveType} (hbase : b.Carries base)
    (helements : b.types.HasElements base.type t) (hi : b.Carries i)
    (hq : b.types.primitive? i.type = some q) (hscalar : q.isScalar = true)
    (hint : q.scalar.isInteger = true) (n : NodeId) :
    b.Dictates callees n (.index base.node i.node) t := by
  have hq := hi.primitiveOf? hq
  rcases helements with ⟨length, hkind⟩ | ⟨p, hp, hmany, hkind⟩
  · exact .element hbase hkind hq hscalar hint
  · exact .component (hbase.primitiveOf? hp) hmany hkind hq hscalar hint

theorem ensures_elements (hb : b.Typed callees) (t : TypeId) :
    (elements t).Ensures callees b fun x b' => b'.types.HasElements t x.1 := by
  refine .get_bind ?_
  dsimp only
  split
  · exact .pure hb (Or.inl ⟨_, ‹_›⟩)
  · rename_i p hkind
    have hp := Registry.primitive?_eq_some_iff.mpr hkind
    refine .refuse hb fun hscalar => ?_
    have hfault := PrimitiveType.fault_element (hb.fault_eq_none hp)
    refine (ensures_primitive hb hfault).bind fun u b₁ hext hb₁ hu => .pure hb₁ (Or.inr ?_)
    exact ⟨p, Registry.primitive?_of_le hext.types hp, by simpa using hscalar, hu⟩
  · exact .throw hb _

theorem ensures_element (hb : b.Typed callees) {base : Expr} {t : TypeId} (hbase : b.Carries base)
    (helements : b.types.HasElements base.type t) (bound : Option Nat) (i : Int) :
    (element base t bound i).Ensures callees b fun e b' => b'.Carries e := by
  unfold element
  dsimp only
  split
  · exact .get_bind (.throw_bind hb _)
  · refine .get_bind ?_
    split
    · rename_i e he
      obtain ⟨x, hx, rfl⟩ := Option.map_eq_some_iff.mp he
      refine .pure hb (hb.handles _ (Builder.mem_handles_iff.mpr (Or.inl ⟨x, ?_, rfl⟩)))
      exact List.mem_of_find?_eq_some hx
    · refine (ensures_literal hb _).bind fun index b₁ hext hb₁ ⟨hindex, hkind⟩ => ?_
      have hq := Registry.primitive?_eq_some_iff.mpr hkind
      refine ensures_access hb₁ (dictates_index (hbase.of_extends hext)
        (helements.of_le hext.types) hindex hq rfl ?_ _)
      split <;> rfl

theorem ensures_at (hb : b.Typed callees) {base : Expr} (hbase : b.Carries base) {index : Value}
    (hindex : b.Knows index) :
    («at» base index).Ensures callees b fun e b' => b'.Carries e := by
  refine (ensures_elements hb base.type).bind fun (t, bound) b₁ hext hb₁ helements => ?_
  have hbase := Builder.Carries.of_extends hext hbase
  dsimp only
  split
  · exact ensures_element hb₁ hbase helements _ _
  · rename_i e
    have he : b₁.Carries e := Builder.Knows.of_extends hext hindex
    refine .get_bind ?_
    split
    · rename_i q hq
      refine .refuse hb₁ fun hint => ?_
      simp only [Bool.not_eq_true', Bool.not_eq_false, Bool.and_eq_true] at hint
      have hdictated : ∀ n, b₁.Dictates callees n (.index base.node e.node) t :=
        dictates_index hbase helements he hq hint.1 hint.2
      exact (ensures_pushNode hb₁ (hdictated _)).mono fun _ _ _ h => h.1
    · exact .throw hb₁ _
  · exact .throw hb₁ _

/-! ## Pointers -/

theorem ensures_addressOf (hb : b.Typed callees) {place : Expr} (hplace : b.Carries place) :
    (addressOf place).Ensures callees b fun e b' => b'.Carries e := by
  refine .reads_bind hb (reads_require _) fun _ _ => .get_bind ?_
  split
  · exact .throw hb _
  · split
    · exact .throw hb _
    · rename_i space _
      have hpointer := ensures_intern hb (Interning.ensures_pointer hb.sound place.type space)
      refine hpointer.bind fun t b₁ hext hb₁ ht => ?_
      have hkind := Interning.Gives.kind_eq ht (by simp)
      exact (ensures_pushNode hb₁ (.addressOf (hext.typeOf? hplace) hkind)).mono fun _ _ _ h => h.1

theorem ensures_deref (hb : b.Typed callees) {pointer : Expr} (hpointer : b.Carries pointer) :
    (deref pointer).Ensures callees b fun e b' => b'.Carries e := by
  refine .get_bind ?_
  dsimp only
  split
  · exact (ensures_pushNode hb (.deref hpointer ‹_›)).mono fun _ _ _ h => h.1
  · exact .throw hb _

end Build

end WebShader
