import Mathlib.Algebra.GroupWithZero.Nat
import WebShader.Proofs.Nesting
import WebShader.Proofs.Reachable

/-!
# Typing rules

The type that an expression has by what it is made of and the types of its operands. A builder is
typed if every expression it records follows the rules, and if the handles it gives out again carry
the types of their expressions.
-/

namespace WebShader

/-! ## Handles -/

namespace Builder

/-- The type of an expression. -/
def typeOf? (b : Builder) (n : NodeId) : Option TypeId := (b.node? n).map (·.type)

/-- The primitive type of an expression. -/
def primitiveOf? (b : Builder) (n : NodeId) : Option PrimitiveType :=
  (b.typeOf? n).bind b.types.primitive?

/-- Expressions have types, one each. -/
def HaveTypes (b : Builder) : List NodeId → List TypeId → Prop :=
  List.Forall₂ fun n t => b.typeOf? n = some t

/-- Expressions have primitive types, one each. -/
def HavePrimitives (b : Builder) : List NodeId → List PrimitiveType → Prop :=
  List.Forall₂ fun n p => b.primitiveOf? n = some p

/-- A handle has the type of its expression. -/
def Carries (b : Builder) (e : Expr) : Prop := b.typeOf? e.node = some e.type

end Builder

/-- The handles that a stage gives out again: those of its names, its built-ins and its tags. -/
def OpenStage.handles (s : OpenStage) : List Expr :=
  s.frames.flatMap (·.symbols.map (·.2)) ++ s.decls.builtins.map (·.2) ++ s.tags.map (·.2)

/-- The handles that a builder gives out again: those of accesses and those of its stage. -/
def Builder.handles (b : Builder) : List Expr :=
  b.accesses.map (·.2) ++ b.stage.toList.flatMap (·.handles)

/-! ## Rules -/

/-- The types of the values that a value is built from: nothing, a value to convert or to repeat,
parts whose components add up, the columns or the components of a matrix, the elements of an array
or the members of a struct. -/
inductive Registry.Builds (r : Registry) : TypeKind → List TypeId → Prop
  | nothing {p : PrimitiveType} : r.Builds (.primitive p) []
  | converted {p : PrimitiveType} {t : TypeId} : p.isMatrix = false →
      Build.converts p (r.primitive? t) = true → r.Builds (.primitive p) [t]
  | parts {p : PrimitiveType} {ts : List TypeId} {qs : List PrimitiveType} : p.isMatrix = false →
      List.Forall₂ (fun t q => r.primitive? t = some q) ts qs →
      (∀ q ∈ qs, q.isMatrix = false ∧ q.scalar = p.scalar) →
      (qs.map (·.components.toNat)).sum = p.components.toNat → r.Builds (.primitive p) ts
  | columns {p : PrimitiveType} {ts : List TypeId} : p.isMatrix = true →
      ts.length = p.cols.toNat → (∀ t ∈ ts, r.primitive? t = some p.element) →
      r.Builds (.primitive p) ts
  | components {p : PrimitiveType} {ts : List TypeId} : p.isMatrix = true →
      ts.length = p.components.toNat →
      (∀ t ∈ ts, r.primitive? t = some (.ofScalar p.scalar)) → r.Builds (.primitive p) ts
  | elements {t : TypeId} {n : Nat} : 0 < n → r.Builds (.array t n) (List.replicate n t)
  | members {s : StructType} : r.Builds (.struct s) (s.members.map (·.type))

/-- The parameters after the texture, the layer left out, and the result of a function on textures,
given the number of arguments. -/
def Intrinsic.textureSignature (target : Target) (f : Intrinsic) (t : TextureType) (arity : Nat) :
    Signature :=
  let coords := PrimitiveType.vector .f32 t.coordComponents
  let depth := PrimitiveType.ofScalar .f32
  match f with
  | .textureSampleCompare => ⟨[coords, depth], depth⟩
  | .textureSampleLevel => ⟨[coords, depth], .vector .f32 4⟩
  | .textureLoad =>
    ⟨[.vector .i32 t.coordComponents, .ofScalar .i32],
      if t.isDepth then depth else .vector t.sample.scalar 4⟩
  | .textureDimensions =>
    ⟨if arity > 1 then [.ofScalar .i32] else [],
      .vector (if target = .webGPU then .u32 else .i32) t.sizeComponents⟩
  | _ => ⟨[coords], .vector .f32 4⟩

/-- The functions that calls have been resolved to: for an expression and a place, the function
that was in this place when the expression was recorded. -/
abbrev Callees := NodeId → FunctionId → Option Function

/-- The typing rules: what an expression is made of dictates its type. -/
inductive Builder.Dictates (b : Builder) (callees : Callees) (n : NodeId) :
    NodeKind → TypeId → Prop
  | literal {l : Literal} {t : TypeId} :
      b.types.kind t = .primitive (.ofScalar l.scalar) → b.Dictates callees n (.literal l) t
  | var {v : VarId} {d : Variable} :
      b.var? v = some d → b.Dictates callees n (.var v) d.type
  | builtin {x : Builtin} {t : TypeId} :
      b.types.kind t = .primitive (x.type b.target) → b.Dictates callees n (.builtin x) t
  | member {base : NodeId} {i : Nat} {u : TypeId} {s : StructType} {m : Member} :
      b.typeOf? base = some u → b.types.kind u = .struct s → s.members[i]? = some m →
      b.Dictates callees n (.member base i) m.type
  | swizzle {base : NodeId} {mask : Swizzle} {p : PrimitiveType} {t : TypeId} :
      b.primitiveOf? base = some p → p.isVector = true →
      b.types.kind t = .primitive (.vector p.scalar (UInt8.ofNat mask.length)) →
      b.Dictates callees n (.swizzle base mask) t
  | element {base i : NodeId} {u t : TypeId} {length : Nat} {q : PrimitiveType} :
      b.typeOf? base = some u → b.types.kind u = .array t length →
      b.primitiveOf? i = some q → q.isScalar = true → q.scalar.isInteger = true →
      b.Dictates callees n (.index base i) t
  | component {base i : NodeId} {t : TypeId} {p q : PrimitiveType} :
      b.primitiveOf? base = some p → p.isScalar = false →
      b.types.kind t = .primitive p.element →
      b.primitiveOf? i = some q → q.isScalar = true → q.scalar.isInteger = true →
      b.Dictates callees n (.index base i) t
  | unary {op : UnaryOp} {operand : NodeId} {t : TypeId} {p : PrimitiveType} :
      b.typeOf? operand = some t → b.types.kind t = .primitive p → op.appliesTo p = true →
      b.Dictates callees n (.unary op operand) t
  | binary {op : BinaryOp} {lhs rhs : NodeId} {t : TypeId} {p q result : PrimitiveType} :
      b.primitiveOf? lhs = some p → b.primitiveOf? rhs = some q → op.result? p q = some result →
      b.types.kind t = .primitive result → b.Dictates callees n (.binary op lhs rhs) t
  | construct {args : List NodeId} {ts : List TypeId} {t : TypeId} :
      b.HaveTypes args ts → b.types.Builds (b.types.kind t) ts →
      b.Dictates callees n (.construct args) t
  | call {f : FunctionId} {args : List NodeId} {fn : Function} :
      callees n f = some fn → b.HaveTypes args fn.paramTypes →
      b.Dictates callees n (.call f args) fn.result
  | overload {f : Intrinsic} {args : List NodeId} {s : Intrinsic.Signature} {t : TypeId} :
      s ∈ f.signatures b.target → b.HavePrimitives args s.params →
      b.types.kind t = .primitive s.result → b.Dictates callees n (.intrinsic f args) t
  | texture {f : Intrinsic} {tex : NodeId} {args : List NodeId} {u t : TypeId}
      {texture : TextureType} {s : Intrinsic.Signature} :
      f.isTexture = true → b.typeOf? tex = some u → b.types.kind u = .texture texture →
      f.textureSignature b.target texture (args.length + 1) = s →
      b.HavePrimitives args (Build.withLayer f texture s.params) →
      b.types.kind t = .primitive s.result → b.Dictates callees n (.intrinsic f (tex :: args)) t
  | addressOf {place : NodeId} {u t : TypeId} {space : AddressSpace} :
      b.typeOf? place = some u → b.types.kind t = .pointer u space →
      b.Dictates callees n (.addressOf place) t
  | deref {pointer : NodeId} {u t : TypeId} {space : AddressSpace} :
      b.typeOf? pointer = some u → b.types.kind u = .pointer t space →
      b.Dictates callees n (.deref pointer) t

/-- The registry of a builder is sound, and the types of its variables are registered. -/
structure Builder.HasSoundTypes (b : Builder) : Prop where
  sound : b.types.Sound
  vars : ∀ v d, b.var? v = some d → d.type.index < b.types.size

/-- The invariant of builders: types are sound, every expression comes after its operands and has
the type that the rules dictate, and the handles given out again carry the types of their
expressions. -/
structure Builder.Typed (callees : Callees) (b : Builder) : Prop extends b.HasSoundTypes where
  dictated : ∀ n node, b.node? n = some node → b.Dictates callees n node.kind node.type
  descends : ∀ n node, b.node? n = some node → ∀ m ∈ node.kind.operands, m.index < n.index
  handles : ∀ e ∈ b.handles, b.Carries e

/-! ## Larger builders -/

/-- A builder with the options of another, and all of its types, expressions and variables at the
same places. -/
structure Builder.Extends (b b' : Builder) : Prop where
  config : b'.config = b.config
  types : b.types ≤ b'.types
  nodes : b.nodes.toList <+: b'.nodes.toList
  vars : b.vars.toList <+: b'.vars.toList

namespace Registry

variable {r r' : Registry} {t : TypeId}

/-- What a type is built from stays. -/
theorem Builds.of_le (h : r ≤ r') {k : TypeKind} {ts : List TypeId} (hk : r.Builds k ts) :
    r'.Builds k ts := by
  cases hk with
  | nothing => exact .nothing
  | @converted p t hp hc =>
      refine .converted hp ?_
      cases hq : r.primitive? t with
      | none =>
          rw [hq] at hc
          cases hc
      | some q => rwa [primitive?_of_le h hq, ← hq]
  | parts hp hts hqs hsum =>
      exact .parts hp (hts.imp fun _ _ => primitive?_of_le h) hqs hsum
  | columns hp hlength hts => exact .columns hp hlength fun t ht => primitive?_of_le h (hts t ht)
  | components hp hlength hts =>
      exact .components hp hlength fun t ht => primitive?_of_le h (hts t ht)
  | elements hn => exact .elements hn
  | members => exact .members

end Registry

namespace Builder

variable {b b' b'' : Builder} {callees : Callees}

/-- A builder extends itself. -/
theorem Extends.refl (b : Builder) : b.Extends b :=
  ⟨rfl, le_refl _, List.prefix_refl _, List.prefix_refl _⟩

/-- A builder is extended in steps. -/
theorem Extends.trans (h : b.Extends b') (h' : b'.Extends b'') : b.Extends b'' :=
  ⟨h'.config.trans h.config, le_trans h.types h'.types, h.nodes.trans h'.nodes,
    h.vars.trans h'.vars⟩

section Extends

variable (h : b.Extends b')

include h

/-- The target stays. -/
theorem Extends.target_eq : b'.target = b.target := congrArg Config.target h.config

/-- The expressions stay. -/
theorem Extends.node? {n : NodeId} {node : Node} (hn : b.node? n = some node) :
    b'.node? n = some node := getElem?_of_starts h.nodes hn

/-- The variables stay. -/
theorem Extends.var? {v : VarId} {d : Variable} (hv : b.var? v = some d) : b'.var? v = some d :=
  getElem?_of_starts h.vars hv

/-- The types of expressions stay. -/
theorem Extends.typeOf? {n : NodeId} {t : TypeId} (hn : b.typeOf? n = some t) :
    b'.typeOf? n = some t := by
  obtain ⟨node, hnode, rfl⟩ := Option.map_eq_some_iff.mp hn
  rw [Builder.typeOf?, h.node? hnode]
  rfl

/-- Handles keep their types. -/
theorem Carries.of_extends {e : Expr} (he : b.Carries e) : b'.Carries e := h.typeOf? he

/-- The primitive types of expressions stay. -/
theorem Extends.primitiveOf? {n : NodeId} {p : PrimitiveType} (hn : b.primitiveOf? n = some p) :
    b'.primitiveOf? n = some p := by
  obtain ⟨t, ht, hp⟩ := Option.bind_eq_some_iff.mp hn
  rw [Builder.primitiveOf?, h.typeOf? ht]
  exact Registry.primitive?_of_le h.types hp

/-- Expressions keep their types. -/
theorem HaveTypes.of_extends {ns : List NodeId} {ts : List TypeId} (hns : b.HaveTypes ns ts) :
    b'.HaveTypes ns ts := List.Forall₂.imp (fun _ _ => h.typeOf?) hns

/-- Expressions keep their primitive types. -/
theorem HavePrimitives.of_extends {ns : List NodeId} {ps : List PrimitiveType}
    (hns : b.HavePrimitives ns ps) : b'.HavePrimitives ns ps :=
  List.Forall₂.imp (fun _ _ => h.primitiveOf?) hns

/-- The registry only grows. -/
theorem Extends.types_size_le : b.types.size ≤ b'.types.size := Registry.size_le_of_le h.types

/-- The arena only grows. -/
theorem Extends.nodes_size_le : b.nodes.size ≤ b'.nodes.size := by
  simpa using h.nodes.length_le

/-- What the rules dictate is the same in every larger builder. -/
theorem Dictates.of_extends {n : NodeId} {kind : NodeKind} {t : TypeId}
    (hd : b.Dictates callees n kind t) : b'.Dictates callees n kind t := by
  have hkind : ∀ {t k}, b.types.kind t = k → k ≠ .void → b'.types.kind t = k :=
    fun hk hvoid => Registry.kind_of_le h.types hk hvoid
  cases hd with
  | literal ht => exact .literal (hkind ht (by simp))
  | var hv => exact .var (h.var? hv)
  | builtin ht => exact .builtin (by rw [h.target_eq]; exact hkind ht (by simp))
  | member hbase hu hm => exact .member (h.typeOf? hbase) (hkind hu (by simp)) hm
  | swizzle hbase hp ht => exact .swizzle (h.primitiveOf? hbase) hp (hkind ht (by simp))
  | element hbase hu hi hq hint =>
      exact .element (h.typeOf? hbase) (hkind hu (by simp)) (h.primitiveOf? hi) hq hint
  | component hbase hp ht hi hq hint =>
      exact .component (h.primitiveOf? hbase) hp (hkind ht (by simp)) (h.primitiveOf? hi) hq hint
  | unary hm hp happlies => exact .unary (h.typeOf? hm) (hkind hp (by simp)) happlies
  | binary hl hr hresult ht =>
      exact .binary (h.primitiveOf? hl) (h.primitiveOf? hr) hresult (hkind ht (by simp))
  | construct hargs hbuilds =>
      refine .construct (hargs.of_extends h) ?_
      rw [hkind rfl (by intro hvoid; rw [hvoid] at hbuilds; cases hbuilds)]
      exact hbuilds.of_le h.types
  | call hf hargs => exact .call hf (hargs.of_extends h)
  | overload hs hargs ht =>
      exact .overload (by rw [h.target_eq]; exact hs) (hargs.of_extends h) (hkind ht (by simp))
  | texture hf htex hu hs hargs ht =>
      exact .texture hf (h.typeOf? htex) (hkind hu (by simp)) (by rw [h.target_eq]; exact hs)
        (hargs.of_extends h) (hkind ht (by simp))
  | addressOf hm ht => exact .addressOf (h.typeOf? hm) (hkind ht (by simp))
  | deref hm hu => exact .deref (h.typeOf? hm) (hkind hu (by simp))

end Extends

/-- A rule only looks at the function that the call itself has been resolved to. -/
theorem Dictates.of_callees {callees' : Callees} {n : NodeId} {kind : NodeKind} {t : TypeId}
    (h : callees' n = callees n) (hd : b.Dictates callees n kind t) :
    b.Dictates callees' n kind t := by
  cases hd with
  | call hf hargs => exact .call (by rw [h]; exact hf) hargs
  | literal ht => exact .literal ht
  | var hv => exact .var hv
  | builtin ht => exact .builtin ht
  | member hbase hu hm => exact .member hbase hu hm
  | swizzle hbase hp ht => exact .swizzle hbase hp ht
  | element hbase hu hi hq hint => exact .element hbase hu hi hq hint
  | component hbase hp ht hi hq hint => exact .component hbase hp ht hi hq hint
  | unary hm hp happlies => exact .unary hm hp happlies
  | binary hl hr hresult ht => exact .binary hl hr hresult ht
  | construct hargs hbuilds => exact .construct hargs hbuilds
  | overload hs hargs ht => exact .overload hs hargs ht
  | texture hf htex hu hs hargs ht => exact .texture hf htex hu hs hargs ht
  | addressOf hm ht => exact .addressOf hm ht
  | deref hm hu => exact .deref hm hu

end Builder

end WebShader
