import WebShader.Proofs.ConstantOrder
import WebShader.Proofs.UncheckedTraversals

/-!
# Values of constants

Whatever literals, accesses, operators and constructors are taken for, the tree of a constant has a
value where the variables that it names have one. So the constants of a stage are evaluated in the
order of their declarations, from nothing but the values of those before.
-/

namespace WebShader

open Relation (ReflTransGen)

/-! ## Evaluation -/

/-- What the parts of constants are taken for. -/
structure Folding (α : Type) where
  literal : TypeId → Literal → α
  member : TypeId → α → Nat → α
  swizzle : TypeId → α → Swizzle → α
  index : TypeId → α → α → α
  unary : TypeId → UnaryOp → α → α
  binary : TypeId → BinaryOp → α → α → α
  construct : TypeId → List α → α

section Values

variable {α : Type} (F : Folding α)

mutual

/-- The value of a tree, if its variables have values and it is made of parts of constants. -/
def Term.fold (value : VarId → Option α) : Term → Option α
  | .literal t l => some (F.literal t l)
  | .var _ v => value v
  | .member t base i => do return F.member t (← base.fold value) i
  | .swizzle t base mask => do return F.swizzle t (← base.fold value) mask
  | .index t base i => do return F.index t (← base.fold value) (← i.fold value)
  | .unary t op e => do return F.unary t op (← e.fold value)
  | .binary t op lhs rhs => do return F.binary t op (← lhs.fold value) (← rhs.fold value)
  | .construct t args => do return F.construct t (← Term.foldAll value args)
  | .builtin _ _ | .call _ _ _ | .intrinsic _ _ _ | .addressOf _ _ | .deref _ _ => none

/-- The values of several trees. -/
def Term.foldAll (value : VarId → Option α) : List Term → Option (List α)
  | [] => some []
  | e :: rest => do return (← e.fold value) :: (← Term.foldAll value rest)

end

/-- The value that a variable has been given. -/
def valueIn (env : List (VarId × α)) (v : VarId) : Option α :=
  (env.find? (·.1 == v)).map (·.2)

/-- Declarations evaluated in their order: each may read the values given before. -/
def Folding.evaluate (env : List (VarId × α)) : List (VarId × Term) → Option (List (VarId × α))
  | [] => some env
  | (v, e) :: rest => do
    let x ← e.fold F (valueIn env)
    Folding.evaluate (env ++ [(v, x)]) rest

end Values

/-! ## Trees of constants -/

/-- A tree that is made of parts of constants, and of variables with a property. -/
inductive Term.IsFoldable (P : VarId → Prop) : Term → Prop
  | literal (t : TypeId) (l : Literal) : IsFoldable P (.literal t l)
  | var (t : TypeId) {v : VarId} : P v → IsFoldable P (.var t v)
  | member (t : TypeId) {base : Term} (i : Nat) :
      base.IsFoldable P → IsFoldable P (.member t base i)
  | swizzle (t : TypeId) {base : Term} (mask : Swizzle) :
      base.IsFoldable P → IsFoldable P (.swizzle t base mask)
  | index (t : TypeId) {base i : Term} :
      base.IsFoldable P → i.IsFoldable P → IsFoldable P (.index t base i)
  | unary (t : TypeId) (op : UnaryOp) {e : Term} : e.IsFoldable P → IsFoldable P (.unary t op e)
  | binary (t : TypeId) (op : BinaryOp) {lhs rhs : Term} :
      lhs.IsFoldable P → rhs.IsFoldable P → IsFoldable P (.binary t op lhs rhs)
  | construct (t : TypeId) {args : List Term} :
      (∀ e ∈ args, e.IsFoldable P) → IsFoldable P (.construct t args)

namespace Term

variable {α : Type} {F : Folding α} {value : VarId → Option α} {P : VarId → Prop} {e : Term}

/-- A list can be folded if each of its trees can. -/
theorem isSome_foldAll {es : List Term} (h : ∀ e ∈ es, (e.fold F value).isSome = true) :
    (foldAll F value es).isSome = true := by
  induction es with
  | nil => rfl
  | cons e rest ih =>
      obtain ⟨he, hrest⟩ := List.forall_mem_cons.mp h
      obtain ⟨x, hx⟩ := Option.isSome_iff_exists.mp he
      obtain ⟨xs, hxs⟩ := Option.isSome_iff_exists.mp (ih hrest)
      rw [foldAll, hx, hxs]
      rfl

/-- What can be folded with some constants can be with more. -/
theorem IsFoldable.imp {Q : VarId → Prop} (h : e.IsFoldable P) (himp : ∀ v, P v → Q v) :
    e.IsFoldable Q := by
  induction h with
  | literal t l => exact .literal t l
  | var t hv => exact .var t (himp _ hv)
  | member t i _ ih => exact .member t i ih
  | swizzle t mask _ ih => exact .swizzle t mask ih
  | index t _ _ ih ih' => exact .index t ih ih'
  | unary t op _ ih => exact .unary t op ih
  | binary t op _ _ ih ih' => exact .binary t op ih ih'
  | construct t _ ih => exact .construct t ih

/-- A tree of constants has a value if its variables have. -/
theorem IsFoldable.isSome_fold (h : e.IsFoldable P) (hvalue : ∀ v, P v → (value v).isSome = true) :
    (e.fold F value).isSome = true := by
  induction h with
  | literal => rfl
  | var t hv => exact hvalue _ hv
  | member _ _ _ ih | swizzle _ _ _ ih | unary _ _ _ ih =>
      obtain ⟨x, hx⟩ := Option.isSome_iff_exists.mp ih
      rw [fold, hx]
      rfl
  | index _ _ _ ih ih' | binary _ _ _ _ ih ih' =>
      obtain ⟨x, hx⟩ := Option.isSome_iff_exists.mp ih
      obtain ⟨y, hy⟩ := Option.isSome_iff_exists.mp ih'
      rw [fold, hx, hy]
      rfl
  | construct _ _ ih =>
      obtain ⟨xs, hxs⟩ := Option.isSome_iff_exists.mp (isSome_foldAll ih)
      rw [fold, hxs]
      rfl

/-- What a list of trees mentions, one of them does. -/
theorem mem_mentionsOf_iff {es : List Term} {x : Mention} :
    x ∈ mentionsOf es ↔ ∃ e ∈ es, x ∈ e.mentions := by
  induction es with
  | nil => simp [mentionsOf]
  | cons e rest ih => rw [mentionsOf, List.mem_append, ih, List.exists_mem_cons_iff]

/-- A tree of constants only mentions its variables. -/
theorem IsFoldable.mentions (h : e.IsFoldable P) : ∀ x ∈ e.mentions, ∃ v, x = .var v ∧ P v := by
  induction h with
  | literal => simp [Term.mentions]
  | var t hv =>
      intro x hx
      rw [Term.mentions, List.mem_singleton] at hx
      exact ⟨_, hx, hv⟩
  | member _ _ _ ih | swizzle _ _ _ ih | unary _ _ _ ih => exact ih
  | index _ _ _ ih ih' | binary _ _ _ _ ih ih' =>
      rw [Term.mentions]
      exact List.forall_mem_append.mpr ⟨ih, ih'⟩
  | construct _ _ ih =>
      intro x hx
      rw [Term.mentions] at hx
      obtain ⟨e, he, hx⟩ := mem_mentionsOf_iff.mp hx
      exact ih e he x hx

/-- A tree of constants calls no function. -/
theorem IsFoldable.callees_eq_nil (h : e.IsFoldable P) : e.callees = [] := by
  induction h with
  | literal | var => rfl
  | member _ _ _ ih | swizzle _ _ _ ih | unary _ _ _ ih => exact ih
  | index _ _ _ ih ih' | binary _ _ _ _ ih ih' => rw [callees, ih, ih', List.nil_append]
  | construct _ _ ih =>
      rw [callees, List.eq_nil_iff_forall_not_mem]
      intro f hf
      obtain ⟨e, he, hf⟩ := mem_calleesOf_iff.mp hf
      rw [ih e he] at hf
      cases hf

end Term

namespace Builder

variable {b b' : Builder} {callees : Callees} {P : VarId → Prop} {start : Nat} {vars : List VarId}

/-- An expression that is made of parts of constants is read as such a tree, which names what the
expression leads to. -/
theorem isFoldable_of_term {n : NodeId} {e : Term} (h : b.term n = .ok e)
    (hparts : ∀ m, ReflTransGen b.HasOperand n m →
      ∃ node, b.node? m = some node ∧ node.kind.isFoldable = true)
    (hvars : ∀ m v, ReflTransGen b.HasOperand n m → b.varOf? m = some v → P v) :
    e.IsFoldable P := by
  obtain ⟨node, hnode, hroots, hdown⟩ := roots_of_term h
  obtain ⟨node', hnode', hkind⟩ := hparts n .refl
  obtain rfl := Option.some.inj (hnode.symm.trans hnode')
  have hoperand : ∀ m ∈ node.kind.operands, ∀ e', b.term m = .ok e' → e'.IsFoldable P := by
    intro m hm e' he'
    have hlt := hdown m hm
    have hoperand : b.HasOperand n m := ⟨_, hnode, hm⟩
    exact isFoldable_of_term he' (fun m' hm' => hparts m' (.head hoperand hm'))
      fun m' v hm' => hvars m' v (.head hoperand hm')
  cases hroots with
  | literal t value => exact .literal t value
  | var t v => exact .var t (hvars n v .refl (varOf?_eq_some_iff.mpr ⟨t, hnode⟩))
  | member t i hbase => exact .member t i (hoperand _ List.mem_cons_self _ hbase)
  | swizzle t mask hbase => exact .swizzle t mask (hoperand _ List.mem_cons_self _ hbase)
  | unary t op hbase => exact .unary t op (hoperand _ List.mem_cons_self _ hbase)
  | index t hl hr =>
      exact .index t (hoperand _ List.mem_cons_self _ hl)
        (hoperand _ (List.mem_cons_of_mem _ List.mem_cons_self) _ hr)
  | binary t op hl hr =>
      exact .binary t op (hoperand _ List.mem_cons_self _ hl)
        (hoperand _ (List.mem_cons_of_mem _ List.mem_cons_self) _ hr)
  | construct t hread =>
      refine .construct t fun e' he' => ?_
      obtain ⟨m, hm, hterm⟩ := exists_mem_of_forall₂ hread e' he'
      exact hoperand m hm e' hterm
  | builtin | call | intrinsic | addressOf | deref => cases hkind
termination_by n.index

/-- What has been recorded is read as the same tree when the arena has grown. -/
theorem term_of_starts (hnodes : b.nodes.toList <+: b'.nodes.toList) {n : NodeId}
    (hn : n.index < b.nodes.size) : b'.term n = b.term n := by
  have hoperand : ∀ (m : NodeId) x, (if m.index < n.index then b'.term m else x) =
      if m.index < n.index then b.term m else x := fun m x => by
    split
    · exact term_of_starts hnodes (by omega)
    · rfl
  rw [term, term, node?_of_starts hnodes hn]
  simp only [hoperand]
termination_by n.index

/-- A constant is resolved to its variable and the tree of its initializer. -/
theorem resolveConstant_eq_ok_iff {v : VarId} {c : Variable × Term} :
    b.resolveConstant v = .ok c ↔
      b.var? v = some c.1 ∧ ∃ n, c.1.init = some n ∧ b.term n = .ok c.2 := by
  obtain ⟨d, e⟩ := c
  unfold resolveConstant
  cases hd : b.var? v with
  | none => simp
  | some d' =>
      dsimp only
      cases hinit : d'.init with
      | none =>
          refine ⟨nofun, ?_⟩
          rintro ⟨hsame, n, hn, -⟩
          rw [← Option.some.inj hsame, hinit] at hn
          cases hn
      | some n =>
          simp only [bind_eq_ok_iff]
          constructor
          · rintro ⟨e', he', h⟩
            obtain ⟨rfl, rfl⟩ := Prod.mk.inj (Except.ok.inj h)
            exact ⟨rfl, n, hinit, he'⟩
          · rintro ⟨hsame, n', hn', he⟩
            obtain rfl := Option.some.inj hsame
            obtain rfl := Option.some.inj (hinit.symm.trans hn')
            exact ⟨e, he, rfl⟩

/-- A constant is resolved to the same tree when the builder has grown. -/
theorem resolveConstant_of_starts (hnodes : b.nodes.toList <+: b'.nodes.toList)
    (hvars : b.vars.toList <+: b'.vars.toList) {v : VarId} {c : Variable × Term}
    (h : b.resolveConstant v = .ok c) : b'.resolveConstant v = .ok c := by
  obtain ⟨hd, n, hinit, hterm⟩ := resolveConstant_eq_ok_iff.mp h
  have hn := lt_size_of_typeOf? (typeOf?_of_term hterm)
  refine resolveConstant_eq_ok_iff.mpr ⟨getElem?_of_starts hvars hd, n, hinit, ?_⟩
  rw [term_of_starts hnodes hn, hterm]

end Builder

/-! ## Evaluation in order -/

section Evaluation

variable {α : Type} {F : Folding α}

/-- A constant that has been evaluated has a value. -/
theorem isSome_valueIn {env : List (VarId × α)} {v : VarId} (h : v ∈ env.map (·.1)) :
    (valueIn env v).isSome = true := by
  obtain ⟨x, hx, rfl⟩ := List.mem_map.mp h
  rw [valueIn, Option.isSome_map, List.find?_isSome]
  exact ⟨x, hx, beq_self_eq_true _⟩

/-- Declarations are evaluated in their order if each only reads those before it. -/
theorem Folding.isSome_evaluate {decls : List (VarId × Term)} {env : List (VarId × α)}
    (h : ∀ (k : Nat) v e, decls[k]? = some (v, e) →
      e.IsFoldable fun w => w ∈ env.map (·.1) ++ (decls.take k).map (·.1)) :
    (F.evaluate env decls).isSome = true := by
  induction decls generalizing env with
  | nil => rfl
  | cons d rest ih =>
      obtain ⟨v, e⟩ := d
      have hfirst : (e.fold F (valueIn env)).isSome = true :=
        (h 0 v e rfl).isSome_fold fun w hw => isSome_valueIn (by simpa using hw)
      obtain ⟨x, hx⟩ := Option.isSome_iff_exists.mp hfirst
      rw [Folding.evaluate, hx]
      refine ih fun k w e' hk => ?_
      have hnext := h (k + 1) w e' hk
      rw [List.take_succ_cons, List.map_cons] at hnext
      rwa [List.map_append, List.append_assoc]

end Evaluation

/-- The constants of a stage are resolved to trees. Whatever the parts of constants are taken for,
these are evaluated in the order of the declarations, where no other variable has a value than the
constants before. -/
structure BuiltStage.FoldsConstants (b : Builder) (st : BuiltStage)
    (trees : List (Variable × Term)) : Prop where
  resolved : st.decls.constants.mapM b.resolveConstant = .ok trees
  evaluated : ∀ {α : Type} (F : Folding α),
    (F.evaluate [] (st.decls.constants.zip (trees.map (·.2)))).isSome = true

namespace Builder

variable {b : Builder} {callees : Callees} {start : Nat} {st : BuiltStage}

/-- A constant of a stage is resolved to a tree that names constants before it. -/
theorem InitializesInOrder.isFoldable (h : b.InitializesInOrder start st.decls.constants)
    (hown : st.OwnsConstants b start) {k : Nat} {v : VarId} {c : Variable × Term}
    (hv : st.decls.constants[k]? = some v) (hc : b.resolveConstant v = .ok c) :
    c.2.IsFoldable fun w => b.InitReads v w ∧ ∃ j < k, st.decls.constants[j]? = some w := by
  obtain ⟨hd, n, hinit, hterm⟩ := resolveConstant_eq_ok_iff.mp hc
  obtain ⟨d, n', hd', -, hinit', hmade⟩ := h.initialized k v hv
  obtain rfl := Option.some.inj (hd'.symm.trans hd)
  obtain rfl := Option.some.inj (hinit'.symm.trans hinit)
  refine isFoldable_of_term hterm hmade.parts fun m w hm hw => ?_
  have hreads : b.InitReads v w := ⟨_, _, m, hd, hinit, hm, hw⟩
  exact ⟨hreads, h.exists_earlier hown hv hreads⟩

/-- Constants in order can be folded in that order. -/
theorem InitializesInOrder.foldsConstants (h : b.InitializesInOrder start st.decls.constants)
    (hb : b.Typed callees) (hown : st.OwnsConstants b start) :
    ∃ trees, st.FoldsConstants b trees := by
  have hresolved : ∀ v ∈ st.decls.constants, ∃ c, b.resolveConstant v = .ok c := by
    intro v hv
    obtain ⟨k, hk⟩ := List.mem_iff_getElem?.mp hv
    obtain ⟨d, n, hd, -, hinit, hmade⟩ := h.initialized k v hk
    obtain ⟨e, he⟩ := Unchecked.exists_reads hb hmade.recorded (Nat.lt_succ_self _)
    exact ⟨(d, e), resolveConstant_eq_ok_iff.mpr ⟨hd, n, hinit, he.checked⟩⟩
  obtain ⟨trees, htrees⟩ := exists_forall₂ hresolved
  have hlength : st.decls.constants.length ≤ (trees.map (·.2)).length := by
    rw [List.length_map, htrees.length_eq]
  refine ⟨trees, mapM_eq_ok_iff.mpr htrees, fun F => Folding.isSome_evaluate fun k v e hk => ?_⟩
  obtain ⟨hv, he⟩ := List.getElem?_zip_eq_some.mp hk
  rw [List.getElem?_map] at he
  obtain ⟨c, hc, rfl⟩ := Option.map_eq_some_iff.mp he
  obtain ⟨v', hv', hresolve⟩ := getElem?_of_forall₂ htrees hc
  obtain rfl := Option.some.inj (hv'.symm.trans hv)
  refine (h.isFoldable hown hv hresolve).imp ?_
  rintro w ⟨-, j, hj, hw⟩
  rw [List.map_take, List.map_fst_zip hlength]
  refine List.mem_append_right _ (List.mem_of_getElem? (i := j) ?_)
  rwa [List.getElem?_take_of_lt hj]

end Builder

end WebShader
