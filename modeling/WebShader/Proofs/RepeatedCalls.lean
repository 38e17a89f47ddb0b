import WebShader.Proofs.WgslValues
import WebShader.Proofs.WrittenCalls

/-!
# Repeated calls

What each language writes several times. GLSL ES repeats the target of a compound assignment that it
writes out, and nothing else. WGSL also repeats what it wraps or unwraps, and the operands of a
floored remainder. Everything else is written once: nothing that has been recorded is left out.
-/

namespace WebShader

/-! ## Arities -/

/-- Structs are built from a value for each of their members, and the size of a texture is asked for
of one level at most. -/
def Term.HasArity (r : Registry) : Term → Prop
  | construct t args => ∀ st, r.kind t = .struct st → args.length = st.members.length
  | intrinsic _ .textureDimensions args => args.length ≤ 2
  | _ => True

/-- Typed expressions have as many arguments as they should. -/
theorem Builder.Typed.hasArities {b : Builder} {callees : Callees} (hb : b.Typed callees)
    {n : NodeId} {e : Term} (h : b.term n = .ok e) : e.Every (Term.HasArity b.types) := by
  refine hb.every (fun {m node e} hroots hdictated => ?_) h
  cases hroots with
  | construct t hread =>
      intro st hst
      cases hdictated with
      | construct htypes hbuilds =>
          rw [hst] at hbuilds
          cases hbuilds
          rw [← hread.length_eq, htypes.length_eq, List.length_map]
  | intrinsic t f hread =>
      by_cases hf : f = .textureDimensions
      · subst hf
        show _ ≤ 2
        rw [← hread.length_eq]
        cases hdictated with
        | overload hs => cases hs
        | @texture _ _ args _ _ texture s _ _ _ hs hargs =>
            have hparams : s.params.length ≤ 1 := by
              rw [← hs]
              dsimp only [Intrinsic.textureSignature]
              split <;> simp
            have hlength := hargs.length_eq
            rw [Build.withLayer, if_neg (by simp)] at hlength
            rw [List.length_cons]
            omega
      · cases f <;> trivial
  | _ => trivial

/-! ## GLSL ES -/

namespace Glsl

variable {s : ResolvedStage} {f : String}

theorem callCount_literal (value : Literal) : (literal value).callCount f = 0 := by
  cases value with
  | i32 i =>
      rw [literal]
      split <;> rfl
  | bool | u32 | f32 | f16 => rfl

theorem callCount_variableExpr {v : VarId} {code : Expr} (h : variableExpr s v = .ok code) :
    code.callCount f = 0 :=
  Code.Expr.callCount_eq_zero code (by simp [calls_variableExpr h])

theorem callCount_unary (op : UnaryOp) (operand : Expr) (t : TypeId) :
    (unary s op operand t).callCount f = operand.callCount f := by
  unfold unary
  split
  · simp [Code.Expr.callCounts]
  · rfl

/-- Both operands are written once. -/
theorem callCount_binary {op : BinaryOp} {lhs rhs code : Expr} {lt rt t : TypeId}
    (h : binary s op lhs lt rhs rt t = .ok code) :
    code.callCount f = lhs.callCount f + rhs.callCount f := by
  unfold binary at h
  split at h
  · split at h
    · rw [← Except.ok.inj h]
      simp [Code.Expr.callCounts]
    · split at h
      · unfold remainder at h
        split at h
        · rw [← Except.ok.inj h]
          simp [Code.Expr.callCounts]
        · split at h
          · split at h
            · rw [← Except.ok.inj h]
              simp [toFloat, Code.Expr.callCounts]
            · cases h
          · rw [← Except.ok.inj h]
            rfl
      · rw [← Except.ok.inj h]
        rfl
  · cases h

theorem callCount_construct {t : TypeId} {args : List Expr} {code : Expr}
    (h : construct s t args = .ok code) : code.callCount f = Code.Expr.callCounts f args := by
  unfold construct at h
  split at h
  · rename_i hempty
    rw [List.isEmpty_iff.mp hempty]
    unfold zero at h
    split at h
    · cases h
    · rw [← Except.ok.inj h]
      split <;> rfl
  · obtain ⟨name, -, rfl⟩ := map_eq_ok_iff.mp h
    rfl

theorem callCount_lookup100 {stage : Stage} {g : Intrinsic} {t : TextureType} {texture code : Expr}
    {args : List Expr} (h : lookup100 stage g t texture args = some code) :
    code.callCount f = texture.callCount f + Code.Expr.callCounts f args := by
  unfold lookup100 at h
  dsimp only at h
  split at h
  · rw [← Option.some.inj h]
    rfl
  · rw [← Option.some.inj h]
    rfl
  · rw [← Option.some.inj h]
    simp only [Code.Expr.callCount_builtin, Code.Expr.callCounts, Code.Expr.callCount]
    omega
  · cases h

theorem callCount_lookup300 {g : Intrinsic} {t : TextureType} {texture code : Expr}
    {args : List Expr} (hargs : g = .textureDimensions → args.length ≤ 1)
    (h : lookup300 g t texture args = some code) :
    code.callCount f = texture.callCount f + Code.Expr.callCounts f args := by
  unfold lookup300 at h
  dsimp only at h
  split at h
  case h_9 =>
    have hlength := hargs rfl
    have hsize : Code.Expr.callCounts f [texture, args.headD (.literal "0")] =
        texture.callCount f + Code.Expr.callCounts f args := by
      match args, hlength with
      | [], _ => rfl
      | [level], _ => rfl
    split at h
    all_goals
      rw [← Option.some.inj h]
      exact hsize
  case h_10 => cases h
  all_goals
    rw [← Option.some.inj h]
    simp [vec, float, Code.Expr.callCounts]
    try omega

theorem callCount_textureCall {g : Intrinsic} {t : Option TextureType} {args : List Expr}
    {code : Expr} (hargs : g = .textureDimensions → args.length ≤ 2)
    (h : textureCall s g t args = .ok code) :
    code.callCount f = Code.Expr.callCounts f args := by
  unfold textureCall at h
  split at h
  · cases h
  · rename_i texture args
    split at h
    · cases h
    · rename_i t
      dsimp only at h
      split at h
      · rename_i e he
        rw [← Except.ok.inj h]
        split at he
        · exact callCount_lookup100 he
        · exact callCount_lookup300 (fun hg => Nat.le_of_succ_le_succ (hargs hg)) he
      · cases h

mutual

/-- The text of a tree has the calls of the tree. -/
theorem callCount_expr : (e : Term) → {code : Expr} → e.Every (Term.HasArity s.types) →
    expr s e = .ok code → code.callCount f = s.callCount f e
  | .literal _ value, code, _, h => by
      rw [expr] at h
      rw [← Except.ok.inj h]
      exact callCount_literal value
  | .var _ v, code, _, h => by
      rw [expr] at h
      exact callCount_variableExpr h
  | .builtin _ b, code, _, h => by
      rw [expr] at h
      rw [← Except.ok.inj h]
      rfl
  | .member _ base i, code, he, h => by
      simp only [expr, bind_eq_ok_iff] at h
      obtain ⟨m, -, value, hvalue, h⟩ := h
      rw [← Except.ok.inj h, Code.Expr.callCount,
        callCount_expr base (he.operand rfl) hvalue]
      rfl
  | .swizzle _ base mask, code, he, h => by
      simp only [expr, bind_eq_ok_iff] at h
      obtain ⟨value, hvalue, h⟩ := h
      rw [← Except.ok.inj h, Code.Expr.callCount,
        callCount_expr base (he.operand rfl) hvalue]
      rfl
  | .index _ base i, code, he, h => by
      simp only [expr, bind_eq_ok_iff] at h
      obtain ⟨l, hl, r, hr, h⟩ := h
      obtain ⟨hbase, hi⟩ := he.pair rfl
      rw [← Except.ok.inj h, Code.Expr.callCount, callCount_expr base hbase hl,
        callCount_expr i hi hr]
      exact (s.count_calling_append base i).symm
  | .unary t op operand, code, he, h => by
      simp only [expr, bind_eq_ok_iff] at h
      obtain ⟨value, hvalue, h⟩ := h
      rw [← Except.ok.inj h, callCount_unary]
      exact callCount_expr operand (he.operand rfl) hvalue
  | .binary t op lhs rhs, code, he, h => by
      simp only [expr, bind_eq_ok_iff] at h
      obtain ⟨l, hl, r, hr, h⟩ := h
      obtain ⟨hlhs, hrhs⟩ := he.pair rfl
      rw [callCount_binary h, callCount_expr lhs hlhs hl, callCount_expr rhs hrhs hr]
      exact (s.count_calling_append lhs rhs).symm
  | .construct t args, code, he, h => by
      simp only [expr, bind_eq_ok_iff] at h
      obtain ⟨values, hvalues, h⟩ := h
      rw [callCount_construct h]
      exact callCounts_exprs args he.operands hvalues
  | .call t g args, code, he, h => by
      simp only [expr, bind_eq_ok_iff] at h
      obtain ⟨fn, hfn, values, hvalues, h⟩ := h
      rw [← Except.ok.inj h, Code.Expr.callCount, s.callCount_call t hfn,
        callCounts_exprs args he.operands hvalues]
  | .intrinsic t g args, code, he, h => by
      simp only [expr, bind_eq_ok_iff] at h
      obtain ⟨lowered, hlowered, h⟩ := h
      have harity := he.self
      have hargs := he.operands
      have hcounts := callCounts_exprs args hargs hlowered
      split at h
      · rw [callCount_textureCall (fun hg => ?_) h]
        · exact hcounts
        · subst hg
          rw [length_of_exprs hlowered]
          exact harity
      · rw [← Except.ok.inj h]
        exact hcounts
  | .addressOf _ _, code, _, h | .deref _ _, code, _, h => by
      rw [expr] at h
      cases h

theorem callCounts_exprs : (es : List Term) → {codes : List Expr} →
    (∀ e ∈ es, e.Every (Term.HasArity s.types)) → exprs s es = .ok codes →
      Code.Expr.callCounts f codes = s.callCounts f es
  | [], codes, _, h => by
      rw [exprs] at h
      rw [← Except.ok.inj h]
      rfl
  | e :: rest, codes, he, h => by
      simp only [exprs, bind_eq_ok_iff] at h
      obtain ⟨value, hvalue, others, hothers, h⟩ := h
      obtain ⟨he, hrest⟩ := List.forall_mem_cons.mp he
      rw [← Except.ok.inj h, Code.Expr.callCounts, s.callCounts_cons,
        callCount_expr e he hvalue, callCounts_exprs rest hrest hothers]

end

/-- The target of an assignment calls nothing if it is written out. -/
def RepeatsNoCall (a : Term × Option BinaryOp × Term) : Prop :=
  a.2.1.any isWrittenOut = true → a.1.callees = []

theorem callCount_assign {target value : Term} {op : Option BinaryOp} {code : Stmt}
    (ht : target.Every (Term.HasArity s.types)) (hv : value.Every (Term.HasArity s.types))
    (hrepeats : RepeatsNoCall (target, op, value)) (h : assign s target op value = .ok code) :
    code.callCount f = s.callCount f target + s.callCount f value := by
  simp only [assign, bind_eq_ok_iff] at h
  obtain ⟨t, htarget, v, hvalue, h⟩ := h
  have ht := callCount_expr target ht htarget (f := f)
  have hv := callCount_expr value hv hvalue (f := f)
  cases op with
  | none =>
      rw [← Except.ok.inj h, Code.Stmt.callCount, ht, hv]
  | some op =>
      dsimp only at h
      by_cases hwritten : isWrittenOut op = true
      · rw [if_pos hwritten] at h
        obtain ⟨combined, hcombined, h⟩ := bind_eq_ok_iff.mp h
        have hnone := ResolvedStage.callCount_eq_zero (s := s) (f := f) (hrepeats hwritten)
        rw [← Except.ok.inj h, Code.Stmt.callCount, callCount_binary hcombined, ht, hv, hnone,
          Nat.zero_add]
      · rw [if_neg hwritten] at h
        rw [← Except.ok.inj h, Code.Stmt.callCount, ht, hv]

/-- GLSL ES only repeats what it writes out. -/
theorem writesCalls_lowering (s : ResolvedStage) (f : String) :
    (lowering s).WritesCalls s f (·.Every (Term.HasArity s.types)) RepeatsNoCall where
  expr he h := callCount_expr _ he h
  assign := callCount_assign
  eval {e code} he h := by
    obtain ⟨v, hv, rfl⟩ := map_eq_ok_iff.mp (show (expr s e).map .eval = .ok code from h)
    exact callCount_expr e he hv
  doWhile body cond := by
    show (Code.Stmt.doWhile body cond).callCount f = _
    rw [Code.Stmt.callCount]

end Glsl

/-! ## WGSL -/

namespace Wgsl

variable {s : ResolvedStage} {f : String}

/-- Whether parts of a tree may be written several times: what is padded is unwrapped, what is held
in padded members is wrapped, and floored remainders are written out. -/
def repeats (s : ResolvedStage) (e : Term) : Bool :=
  isPaddedPlace s e ||
    match e with
    | .construct t _ => !holdsPlain s t
    | .intrinsic _ .mod _ => true
    | _ => false

/-- An assignment to a padded place repeats its target. -/
theorem repeats_of_padded {e : Term} (h : isPaddedPlace s e = true) : repeats s e = true := by
  unfold repeats
  rw [h]
  rfl

/-- A tree with the arguments it should have, which calls nothing if it is repeated. -/
structure WritesOnce (s : ResolvedStage) (e : Term) : Prop where
  arity : e.HasArity s.types
  callees : repeats s e = true → e.callees = []

/-- What calls nothing is written without calls. -/
theorem callCount_of_within {e : Term} {names : List String} {code : Expr}
    (h : code.Within names (s.calling e)) (he : e.callees = []) :
    code.callCount f = s.callCount f e := by
  rw [ResolvedStage.callCount_eq_zero he]
  refine Code.Expr.callCount_eq_zero code fun hf => ?_
  have hcalled := h.calls hf
  rw [ResolvedStage.calling, he] at hcalled
  cases hcalled

theorem callCount_literal (value : Literal) : (literal value).callCount f = 0 := by
  cases value with
  | i32 i =>
      rw [literal]
      split <;> rfl
  | bool | u32 | f32 | f16 => rfl

theorem callCount_variableExpr {v : VarId} {code : Expr} (h : variableExpr s v = .ok code) :
    code.callCount f = 0 :=
  Code.Expr.callCount_eq_zero code (by simp [calls_variableExpr h])

theorem callCount_shiftAmount (t : TypeId) (e : Expr) :
    (shiftAmount s.types t e).callCount f = e.callCount f := by
  unfold shiftAmount
  split
  · split
    · simp [Code.Expr.callCounts]
    · rfl
  · rfl

/-- A value has the calls of its place, if it calls nothing where it is unwrapped. -/
theorem callCount_converted {e : Term} {p code : Expr} (he : WritesOnce s e)
    (hp : place s e = .ok p) (hcount : p.callCount f = s.callCount f e)
    (h : converted s e p = .ok code) : code.callCount f = s.callCount f e := by
  by_cases hpadded : isPaddedPlace s e = true
  · exact callCount_of_within (within_converted (within_of_place hp) h)
      (he.callees (repeats_of_padded hpadded))
  · rw [converted, if_neg hpadded] at h
    rwa [← Except.ok.inj h]

/-- An element of what calls nothing has the calls of its index. -/
theorem callCount_wrappedElement {base i : Term} {t : TypeId} {b index code : Expr}
    (hb : place s base = .ok b) (hbase : base.callees = [])
    (hindex : index.callCount f = s.callCount f i)
    (h : wrappedElement s.types t b (literalIndex? i) index = .ok code) :
    code.callCount f = s.callCount f base + s.callCount f i := by
  have hwithin := within_of_place hb
  have hcount := callCount_of_within (f := f) hwithin hbase
  unfold wrappedElement at h
  split at h
  · split at h
    · rename_i k hk
      -- only literals are known
      have hi : i.callees = [] := by
        unfold literalIndex? at hk
        split at hk
        · rfl
        · rfl
        · cases hk
      rw [← Except.ok.inj h, Code.Expr.callCount, hcount, ResolvedStage.callCount_eq_zero hi,
        Nat.add_zero]
    · obtain ⟨value, hvalue, rfl⟩ := map_eq_ok_iff.mp h
      rw [Code.Expr.callCount, hindex, callCount_of_within (within_load hwithin hvalue) hbase]
  · split at h
    all_goals
      rw [← Except.ok.inj h]
      simp only [Code.Expr.callCount, hcount, hindex]
  · cases h

theorem callCounts_append (args args' : List Expr) :
    Code.Expr.callCounts f (args ++ args') =
      Code.Expr.callCounts f args + Code.Expr.callCounts f args' := by
  induction args with
  | nil => simp [Code.Expr.callCounts]
  | cons e args ih =>
      rw [List.cons_append, Code.Expr.callCounts, Code.Expr.callCounts, ih, Nat.add_assoc]

theorem callCount_sampling (stage : Stage) (g : Intrinsic) (args : List Expr) :
    (sampling stage g args).callCount f = Code.Expr.callCounts f args := by
  unfold sampling
  split
  all_goals simp [callCounts_append, Code.Expr.callCounts, Code.Expr.callCount]

theorem callCount_textureCall {g : Intrinsic} {texture : Option Term} {args : List Expr}
    {code : Expr} (h : textureCall s g texture args = .ok code) :
    code.callCount f = Code.Expr.callCounts f args := by
  unfold textureCall at h
  split at h
  · cases h
  · split at h
    · rw [← Except.ok.inj h]
      rfl
    · split at h
      · simp only [bind_eq_ok_iff] at h
        obtain ⟨d, -, h⟩ := h
        split at h
        · rw [← Except.ok.inj h, callCount_sampling]
          simp [Code.Expr.callCounts, Code.Expr.callCount]
        · cases h
      · cases h

/-- What is held without wrappers is built from its parts. -/
theorem callCount_construct {t : TypeId} {args : List Expr} {code : Expr}
    (hplain : holdsPlain s t = true)
    (harity : ∀ st, s.types.kind t = .struct st → args.length = st.members.length)
    (h : construct s t args = .ok code) : code.callCount f = Code.Expr.callCounts f args := by
  unfold construct at h
  split at h
  · rename_i struct hstruct
    split at h
    · rename_i hpolicy
      have hmembers : ∀ p ∈ args.zip struct.members, isPadded s.types p.2.type = false := by
        intro p hp
        rw [holdsPlain, hstruct, Option.all_some, hpolicy] at hplain
        simpa using List.all_eq_true.mp hplain p.2 (List.of_mem_zip hp).2
      obtain ⟨values, hvalues, rfl⟩ := map_eq_ok_iff.mp h
      rw [storeMembers_of_plain hmembers] at hvalues
      have hlength := harity struct (Registry.struct?_eq_some_iff.mp hstruct)
      rw [← Except.ok.inj hvalues, List.map_fst_zip hlength.le]
      rfl
    · rw [← Except.ok.inj h]
      rfl
  · obtain ⟨name, -, rfl⟩ := map_eq_ok_iff.mp h
    rfl

/-- There is a value for each argument. -/
theorem length_of_values {es : List Term} {codes : List Expr} (h : values s es = .ok codes) :
    codes.length = es.length := by
  induction es generalizing codes with
  | nil =>
      rw [values] at h
      rw [← Except.ok.inj h]
      rfl
  | cons e es ih =>
      simp only [values, bind_eq_ok_iff] at h
      obtain ⟨p, -, value, -, others, hothers, h⟩ := h
      rw [← Except.ok.inj h, List.length_cons, List.length_cons, ih hothers]

mutual

/-- The spelling of a tree has the calls of the tree. -/
theorem callCount_place : (e : Term) → {code : Expr} → e.Every (WritesOnce s) →
    place s e = .ok code → code.callCount f = s.callCount f e
  | .literal _ value, code, _, h => by
      rw [place] at h
      rw [← Except.ok.inj h]
      exact callCount_literal value
  | .var _ v, code, _, h => by
      rw [place] at h
      exact callCount_variableExpr h
  | .builtin _ b, code, _, h => by
      rw [place] at h
      rw [← Except.ok.inj h]
      cases b.isOutput <;> rfl
  | .member _ base i, code, he, h => by
      have hbase := he.operand rfl
      simp only [place, bind_eq_ok_iff] at h
      obtain ⟨m, -, p, hp, value, hvalue, h⟩ := h
      rw [← Except.ok.inj h, Code.Expr.callCount,
        callCount_converted hbase.self hp (callCount_place base hbase hp) hvalue]
      rfl
  | .swizzle _ base mask, code, he, h => by
      have hbase := he.operand rfl
      simp only [place, bind_eq_ok_iff] at h
      obtain ⟨p, hp, value, hvalue, h⟩ := h
      rw [← Except.ok.inj h, Code.Expr.callCount,
        callCount_converted hbase.self hp (callCount_place base hbase hp) hvalue]
      rfl
  | .index _ base i, code, he, h => by
      obtain ⟨hbase, hi⟩ := he.pair rfl
      simp only [place, bind_eq_ok_iff] at h
      obtain ⟨b, hb, p, hp, index, hindex, h⟩ := h
      have hcount := callCount_converted hi.self hp (callCount_place i hi hp) hindex
      refine Eq.trans ?_ (s.count_calling_append base i).symm
      by_cases hpadded : isPaddedPlace s base = true
      · rw [if_pos hpadded] at h
        have hcallees := hbase.self.callees (repeats_of_padded hpadded)
        exact callCount_wrappedElement hb hcallees hcount h
      · rw [if_neg hpadded] at h
        rw [← Except.ok.inj h, Code.Expr.callCount, callCount_place base hbase hb, hcount]
  | .unary _ op operand, code, he, h => by
      have hoperand := he.operand rfl
      simp only [place, bind_eq_ok_iff] at h
      obtain ⟨p, hp, value, hvalue, h⟩ := h
      rw [← Except.ok.inj h, Code.Expr.callCount,
        callCount_converted hoperand.self hp (callCount_place operand hoperand hp) hvalue]
      rfl
  | .binary _ op lhs rhs, code, he, h => by
      obtain ⟨hlhs, hrhs⟩ := he.pair rfl
      simp only [place, bind_eq_ok_iff] at h
      obtain ⟨p, hp, l, hl, q, hq, r, hr, h⟩ := h
      have hleft := callCount_converted hlhs.self hp (callCount_place lhs hlhs hp) hl
      have hright := callCount_converted hrhs.self hq (callCount_place rhs hrhs hq) hr
      refine Eq.trans ?_ (s.count_calling_append lhs rhs).symm
      rw [← Except.ok.inj h, Code.Expr.callCount, hleft]
      split
      · rw [callCount_shiftAmount, hright]
      · rw [hright]
  | .construct t args, code, he, h => by
      have hself := he.self
      have hargs := he.operands
      have hwithin := within_of_place h
      simp only [place, bind_eq_ok_iff] at h
      obtain ⟨lowered, hlowered, h⟩ := h
      by_cases hplain : holdsPlain s t = true
      · rw [callCount_construct hplain (fun st hst => ?_) h, callCounts_values args hargs hlowered]
        · rfl
        · rw [length_of_values hlowered]
          exact hself.arity st hst
      · exact callCount_of_within hwithin (hself.callees (by simp [repeats, hplain]))
  | .call t g args, code, he, h => by
      simp only [place, bind_eq_ok_iff] at h
      obtain ⟨fn, hfn, lowered, hlowered, h⟩ := h
      rw [← Except.ok.inj h, Code.Expr.callCount, s.callCount_call t hfn,
        callCounts_values args he.operands hlowered]
  | .intrinsic t g args, code, he, h => by
      have hself := he.self
      have hargs := he.operands
      have hwithin := within_of_place h
      simp only [place, bind_eq_ok_iff] at h
      obtain ⟨lowered, hlowered, h⟩ := h
      have hcounts := callCounts_values args hargs hlowered
      split at h
      · rw [callCount_textureCall h]
        exact hcounts
      · unfold builtinCall at h
        split at h
        · exact callCount_of_within hwithin (hself.callees (by simp [repeats]))
        · cases h
        · rw [← Except.ok.inj h]
          exact hcounts
  | .addressOf _ e, code, he, h => by
      rw [place] at h
      split at h
      · cases h
      · simp only [bind_eq_ok_iff] at h
        obtain ⟨p, hp, h⟩ := h
        rw [← Except.ok.inj h, Code.Expr.callCount,
          callCount_place e (he.operand rfl) hp]
        rfl
  | .deref _ pointer, code, he, h => by
      have hpointer := he.operand rfl
      simp only [place, bind_eq_ok_iff] at h
      obtain ⟨p, hp, value, hvalue, h⟩ := h
      rw [← Except.ok.inj h, Code.Expr.callCount,
        callCount_converted hpointer.self hp (callCount_place pointer hpointer hp) hvalue]
      rfl

theorem callCounts_values : (es : List Term) → {codes : List Expr} →
    (∀ e ∈ es, e.Every (WritesOnce s)) → values s es = .ok codes →
      Code.Expr.callCounts f codes = s.callCounts f es
  | [], codes, _, h => by
      rw [values] at h
      rw [← Except.ok.inj h]
      rfl
  | e :: rest, codes, he, h => by
      simp only [values, bind_eq_ok_iff] at h
      obtain ⟨p, hp, value, hvalue, others, hothers, h⟩ := h
      obtain ⟨he, hrest⟩ := List.forall_mem_cons.mp he
      rw [← Except.ok.inj h, Code.Expr.callCounts, s.callCounts_cons,
        callCount_converted he.self hp (callCount_place e he hp) hvalue,
        callCounts_values rest hrest hothers]

end

theorem callCount_expr {e : Term} {code : Expr} (he : e.Every (WritesOnce s))
    (h : expr s e = .ok code) : code.callCount f = s.callCount f e := by
  simp only [expr, bind_eq_ok_iff] at h
  obtain ⟨p, hp, h⟩ := h
  exact callCount_converted he.self hp (callCount_place e he hp) h

/-- An assignment to what is padded, or one that is written out, calls nothing that it repeats: its
target, and its value where it is wrapped. -/
structure RepeatsNoCall (s : ResolvedStage) (a : Term × Option BinaryOp × Term) : Prop where
  wrapped : isPaddedPlace s a.1 = true → a.1.callees = [] ∧ a.2.2.callees = []
  writtenOut : a.2.1.any (·.isLogical) = true → a.1.callees = []

theorem callCount_assign {target value : Term} {op : Option BinaryOp} {code : Stmt}
    (ht : target.Every (WritesOnce s)) (hv : value.Every (WritesOnce s))
    (hrepeats : RepeatsNoCall s (target, op, value)) (h : assign s target op value = .ok code) :
    code.callCount f = s.callCount f target + s.callCount f value := by
  by_cases hpadded : isPaddedPlace s target = true
  · obtain ⟨htarget, hvalue⟩ := hrepeats.wrapped hpadded
    obtain ⟨p, op', v, rfl, hp, hv⟩ := exists_of_assign h
    have hcalling : s.calling target ++ s.calling value = s.calling target := by
      rw [ResolvedStage.calling, ResolvedStage.calling, htarget, hvalue]
      rfl
    rw [hcalling] at hv
    rw [Code.Stmt.callCount, callCount_of_within hp htarget, callCount_of_within hv htarget,
      ResolvedStage.callCount_eq_zero htarget, ResolvedStage.callCount_eq_zero hvalue]
  · rw [assign, if_neg hpadded] at h
    simp only [assignPlain, bind_eq_ok_iff] at h
    obtain ⟨t, htarget, v, hvalue, h⟩ := h
    have ht := callCount_expr (f := f) ht htarget
    have hv := callCount_expr (f := f) hv hvalue
    cases op with
    | none => rw [← Except.ok.inj h, Code.Stmt.callCount, ht, hv]
    | some op =>
        dsimp only at h
        split at h
        · rename_i hlogical
          have hnone := ResolvedStage.callCount_eq_zero (s := s) (f := f)
            (hrepeats.writtenOut hlogical)
          rw [← Except.ok.inj h, Code.Stmt.callCount, Code.Expr.callCount, ht, hv, hnone,
            Nat.zero_add]
        · split at h
          · rw [← Except.ok.inj h, Code.Stmt.callCount, callCount_shiftAmount, ht, hv]
          · rw [← Except.ok.inj h, Code.Stmt.callCount, ht, hv]

/-- WGSL only repeats what it wraps, unwraps and writes out. -/
theorem writesCalls_lowering (s : ResolvedStage) (f : String) :
    (lowering s).WritesCalls s f (·.Every (WritesOnce s)) (RepeatsNoCall s) where
  expr he h := callCount_expr he h
  assign := callCount_assign
  eval {e code} he h := by
    simp only [lowering, eval, bind_eq_ok_iff] at h
    obtain ⟨v, hv, h⟩ := h
    rw [← Except.ok.inj h, ← callCount_expr he hv]
    split <;> rfl
  doWhile body cond := rfl

end Wgsl

/-! ## Statements -/

section Statements

variable {b : Builder} {callees : Callees} {plan : Binding.Plan} {built : BuiltStage}
  {s : ResolvedStage} {st : WebShader.Stmt NodeId} {tree : WebShader.Stmt Term}

/-- The trees of a typed statement have as many operands as their operators take. -/
theorem Builder.Typed.hasArities_of_traverse (hb : b.Typed callees)
    (hs : b.resolve plan built = .ok s) (hread : st.traverse b.term = .ok tree) :
    ∀ e ∈ tree.exprs, e.Every (Term.HasArity s.types) := by
  intro e he
  obtain ⟨n, -, hn⟩ := exists_mem_of_forall₂ (Stmt.exprs_of_traverse st hread) e he
  rw [Builder.types_of_resolve hs]
  exact hb.hasArities hn

/-- In GLSL ES, whatever statement over recorded expressions is written, its text has as many calls
of each name as the statement, if nothing is called in the target of a compound assignment that is
written out. -/
theorem Glsl.callCount_stmt (hb : b.Typed callees) (hs : b.resolve plan built = .ok s)
    (hread : st.traverse b.term = .ok tree) {code : Stmt}
    (hcode : (lowering s).stmt tree = .ok code) (hrepeats : ∀ a ∈ tree.assignments, RepeatsNoCall a)
    (f : String) : code.callCount f = s.callCounts f tree.exprs :=
  (writesCalls_lowering s f).stmt tree hcode (hb.hasArities_of_traverse hs hread) hrepeats

/-- In WGSL, whatever statement over recorded expressions is written, its text has as many calls of
each name as the statement, if nothing that is wrapped, unwrapped or written out calls. -/
theorem Wgsl.callCount_stmt (hb : b.Typed callees) (hs : b.resolve plan built = .ok s)
    (hread : st.traverse b.term = .ok tree) {code : Stmt}
    (hcode : (lowering s).stmt tree = .ok code)
    (hexprs : ∀ e ∈ tree.exprs, e.Every fun part => repeats s part = true → part.callees = [])
    (hrepeats : ∀ a ∈ tree.assignments, RepeatsNoCall s a) (f : String) :
    code.callCount f = s.callCounts f tree.exprs := by
  refine (writesCalls_lowering s f).stmt tree hcode (fun e he => ?_) hrepeats
  exact (hb.hasArities_of_traverse hs hread e he).imp₂ (hexprs e he) .mk

end Statements

namespace Script

open Authoring

/-- The remainder of a call, in the entry point of a stage. -/
def remainderSteps : Script :=
  [(false, .func "f" [("x", .scalar .f32)] [(false, .operation (.returnValue (.named "x")) none)]),
    (false, .main [
      (false, .operation (.call "f" [.host (.float (.finite false 3 (-1)))]) (some "c")),
      (false, .operation (.intrinsic .mod [.named "c", .host (.float (.finite false 1 1))])
        (some "m")),
      (false, .operation (.declareLocal "y" (.named "m")) none)])]

/-- How many calls of `f` the entry point of a stage has, and how many its text has in WGSL. -/
def remainderCalls : Except ShaderError (Nat × Nat) := do
  let run := (stage .compute [] (body (runAll false remainderSteps))).runFrom
    (Builder.new { target := .webGPU }, {})
  let s ← run.2.1.resolve {} (← run.1)
  return (s.callCounts "f" (Stmt.blockExprs s.main),
    Code.Stmt.blockCallCount "f" (← (Wgsl.lowering s).block s.main))

example : remainderCalls.toOption = some (1, 2) := by
  decide +kernel

end Script

end WebShader
