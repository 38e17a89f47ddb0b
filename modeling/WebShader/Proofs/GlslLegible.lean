import WebShader.Glsl.Module
import WebShader.Proofs.LegibleStages
import WebShader.Proofs.StatementReading

/-!
# Legible GLSL ES

The types and expressions of GLSL ES sources are legible where the names of the stage are.
-/

namespace WebShader

namespace Glsl

/-! ## Types -/

/-- The structs that a type is spelled with have names that will do. -/
def TypeName.Legible (ok : String → Prop) : TypeName → Prop
  | array element _ => element.Legible ok
  | struct name => ok name
  | sampler name => IsFreeName name
  | _ => True

section Types

variable {ok : String → Prop} {r : Registry}

/-- The name of a primitive type starts a phrase. -/
theorem isPhrase_primitiveName (p : PrimitiveType) : IsPhrase (primitiveName p) := by
  have hscalar : ∀ k, IsPhrase (scalarName k) := by
    intro k
    cases k <;> exact .of_isName (by decide) (by decide)
  unfold primitiveName
  split
  · split
    · exact ⟨.of_start (w := "mat") (by decide) (by decide) _,
        IsPlain.append (by decide) (.nat _)⟩
    · refine ⟨?_, ((IsPlain.append (by decide) (.nat _)).append (by decide)).append (.nat _)⟩
      simp only [String.append_assoc]
      exact .of_start (w := "mat") (by decide) (by decide) _
  · split
    · cases p.scalar with
      | f32 | f16 => exact ⟨.of_start (w := "vec") (by decide) (by decide) _,
          IsPlain.append (by decide) (.nat _)⟩
      | bool => exact ⟨.of_start (w := "bvec") (by decide) (by decide) _,
          IsPlain.append (by decide) (.nat _)⟩
      | i32 => exact ⟨.of_start (w := "ivec") (by decide) (by decide) _,
          IsPlain.append (by decide) (.nat _)⟩
      | u32 => exact ⟨.of_start (w := "uvec") (by decide) (by decide) _,
          IsPlain.append (by decide) (.nat _)⟩
    · exact hscalar _

/-- The text of a legible type is plain. -/
theorem TypeName.Legible.plain (hok : ∀ n, ok n → IsPlain n) {t : TypeName} (h : t.Legible ok) :
    IsPlain t.text := by
  induction t with
  | void => decide
  | primitive p => exact (isPhrase_primitiveName p).plain
  | struct name => exact hok name h
  | array element n ih => exact (((ih h).append (by decide)).append (.nat _)).append (by decide)
  | sampler name => exact (IsFreeName.phrase h).plain

/-- The text of a legible type starts no statement. -/
theorem TypeName.Legible.starts (hok : ∀ n, ok n → StartsPhrase n) {t : TypeName}
    (h : t.Legible ok) : StartsPhrase t.text := by
  induction t with
  | void => exact (IsPhrase.of_isName (by decide) (by decide)).toStartsPhrase
  | primitive p => exact (isPhrase_primitiveName p).toStartsPhrase
  | struct name => exact hok name h
  | array element n ih =>
      rw [text, String.append_assoc]
      exact (ih h).append_sign (by decide) _
  | sampler name => exact (IsFreeName.phrase h).toStartsPhrase

/-- The declaration of a plain name of a legible type is plain. -/
theorem TypeName.Legible.plain_declare (hok : ∀ n, ok n → IsPlain n) {t : TypeName}
    (h : t.Legible ok) {name : String} (hname : IsPlain name) : IsPlain (t.declare name) := by
  have htext := h.plain hok
  cases t with
  | array element n =>
      have helement : IsPlain element.text := TypeName.Legible.plain (t := element) hok h
      exact ((((helement.append (by decide)).append hname).append (by decide)).append
        (.nat _)).append
        (by decide)
  | _ => exact (htext.append (by decide)).append hname

/-- The declaration of a name of a legible type starts no statement. -/
theorem TypeName.Legible.starts_declare (hok : ∀ n, ok n → StartsPhrase n) {t : TypeName}
    (h : t.Legible ok) (name : String) : StartsPhrase (t.declare name) := by
  have htext := h.starts hok
  cases t with
  | array element n =>
      have helement : StartsPhrase element.text := TypeName.Legible.starts (t := element) hok h
      simp only [declare, String.append_assoc]
      rw [← String.append_assoc]
      exact helement.append_sign (by decide) _
  | _ => exact htext.append_sign (by decide) _

/-- The sampler of a texture is named by what it samples. -/
theorem isFreeName_samplerName {target : Target} {t : TextureType} {name : String}
    (h : samplerName target t = .ok name) : IsFreeName name := by
  have hprefix : samplerPrefix t.sample = "" ∨ samplerPrefix t.sample = "i" ∨
      samplerPrefix t.sample = "u" := by
    cases t.sample <;> decide
  have hsuffix : samplerSuffix t = "" ∨ samplerSuffix t = "Shadow" := by
    unfold samplerSuffix
    split
    · exact Or.inr rfl
    · exact Or.inl rfl
  unfold samplerName at h
  cases hdimension : t.dimension with
  | cubeArray =>
      rw [hdimension] at h
      cases h
  | flat | cube | flatArray | volume =>
      rw [hdimension] at h
      obtain rfl := Except.ok.inj h
      rcases hprefix with hp | hp | hp <;> rcases hsuffix with hs | hs
      all_goals
        simp only [hp, hs]
        try split
      all_goals decide

/-- Registered types are spelled by the names of their structs. -/
theorem legible_typeName (hr : r.HasNames ok) {target : Target}
    {t : TypeId} {name : TypeName} (h : typeName r target t = .ok name) : name.Legible ok := by
  rw [typeName] at h
  cases hk : r.kind t with
  | void | primitive =>
      rw [hk] at h
      rw [← Except.ok.inj h]
      trivial
  | struct st =>
      rw [hk] at h
      rw [← Except.ok.inj h]
      exact (hr t st hk).1
  | texture texture =>
      rw [hk] at h
      obtain ⟨name, hname, rfl⟩ := map_eq_ok_iff.mp h
      exact isFreeName_samplerName hname
  | array element n =>
      rw [hk] at h
      dsimp only at h
      by_cases hn : n = 0
      · rw [if_pos hn] at h
        cases h
      · rw [if_neg hn] at h
        by_cases hdown : element.index < t.index
        · rw [if_pos hdown] at h
          obtain ⟨inner, hinner, rfl⟩ := map_eq_ok_iff.mp h
          show inner.Legible ok
          exact legible_typeName hr hinner
        · rw [if_neg hdown] at h
          cases h
  | pointer | sampler =>
      rw [hk] at h
      cases h
termination_by t.index

end Types

/-! ## Expressions -/

section Terms

variable {ok : String → Prop} {s : ResolvedStage}

/-- An expression of GLSL ES whose names and types will do. -/
abbrev Expr.Legible (ok : String → Prop) : Expr → Prop := Code.Expr.Legible ok (TypeName.Legible ok)

/-- A built-in function has a name that starts no statement. -/
theorem isName_glslName (f : Intrinsic) : isName f.glslName = true ∧ f.glslName ∉ controlWords := by
  cases f <;> decide

/-- A built-in variable has a name that starts no statement. -/
theorem isName_builtin (target : Target) (b : Builtin) :
    isName (b.glslName target) = true ∧ b.glslName target ∉ controlWords := by
  cases b <;> cases target <;> decide

/-- A name that starts no statement is a legible literal. -/
theorem legible_words (text : String) (h : isName text = true ∧ text ∉ controlWords) :
    Expr.Legible ok (.literal text) := .literal (.of_isName h.1 h.2)

/-- A number with a plain suffix is a legible literal. -/
theorem legible_digits (n : Nat) (suffix : String) {text : String} (h : text = toString n ++ suffix)
    (hsuffix : IsPlain suffix) : Expr.Legible ok (.literal text) := by
  rw [h]
  exact .literal (.nat n suffix hsuffix)

/-- A literal is legible. -/
theorem legible_literal (value : Literal) : Expr.Legible ok (literal value) := by
  cases value with
  | bool b => cases b <;> exact .literal (.of_isName (by decide) (by decide))
  | i32 i =>
      have hplain := IsPhrase.int i "" (by decide)
      rw [String.append_empty] at hplain
      rw [literal]
      split
      · exact .binary (.literal ⟨.of_sign "-" (by decide) "2147483647", by decide⟩)
          (legible_digits 1 "" (by decide) (by decide))
      · exact .literal hplain
  | u32 n => exact .literal (.nat n _ (by decide))
  | f32 x | f16 x =>
      have h := Binary.isPhrase_literalText .single x "" (by decide)
      rw [String.append_empty] at h
      exact .literal h

/-- A variable is legible. -/
theorem legible_variableExpr (hok : AdmitsNames ok) (hs : s.HasNames ok) {v : VarId} {code : Expr}
    (h : variableExpr s v = .ok code) : Expr.Legible ok code := by
  simp only [variableExpr, bind_eq_ok_iff] at h
  obtain ⟨d, hd, h⟩ := h
  have hname := hs.var hd
  split at h
  · simp only [bind_eq_ok_iff] at h
    obtain ⟨b, hb, h⟩ := h
    rw [← Except.ok.inj h]
    exact .field (.name (hs.record hb)) (hok.plain _ hname)
  · rename_i location _
    have hnumber : Expr.Legible ok (.number location) :=
      legible_digits location "" (by rw [String.append_empty]) (by decide)
    split_ifs at h
    · rw [← Except.ok.inj h]
      exact .name (hok.name _ (by decide) (by decide))
    · rw [← Except.ok.inj h]
      exact .index (.name (hok.name _ (by decide) (by decide))) hnumber
    · rw [← Except.ok.inj h]
      exact .name hname
  · rw [← Except.ok.inj h]
    exact .name hname

/-- An operator with one operand is legible. -/
theorem legible_unary (op : UnaryOp) {operand : Expr} (t : TypeId)
    (h : Expr.Legible ok operand) : Expr.Legible ok (unary s op operand t) := by
  unfold unary
  split
  · exact .builtin (by decide) (List.forall_mem_singleton.mpr h)
  · exact .unary h

/-- A call with two arguments is legible. -/
theorem legible_pair {f : String} (hf : isName f = true ∧ f ∉ controlWords) {lhs rhs : Expr}
    (hl : Expr.Legible ok lhs) (hr : Expr.Legible ok rhs) :
    Expr.Legible ok (.builtin f [lhs, rhs]) :=
  .builtin hf (List.forall_mem_cons.mpr ⟨hl, List.forall_mem_singleton.mpr hr⟩)

/-- An operator with two operands is legible, also where a function is called for it. -/
theorem legible_binary {op : BinaryOp} {lhs rhs code : Expr} {lt rt t : TypeId}
    (hl : Expr.Legible ok lhs) (hr : Expr.Legible ok rhs)
    (h : binary s op lhs lt rhs rt t = .ok code) : Expr.Legible ok code := by
  have hcomparison : isName (comparison op) = true ∧ comparison op ∉ controlWords := by
    cases op <;> decide
  have hfloat : ∀ p e, Expr.Legible ok e → Expr.Legible ok (toFloat p e) :=
    fun p e he => .construct trivial (List.forall_mem_singleton.mpr he)
  unfold binary at h
  split at h
  · split_ifs at h
    · rw [← Except.ok.inj h]
      exact legible_pair hcomparison hl hr
    · unfold remainder at h
      split_ifs at h
      · rw [← Except.ok.inj h]
        exact legible_pair (by decide) hl hr
      · split at h
        · rw [← Except.ok.inj h]
          exact .construct trivial (List.forall_mem_singleton.mpr
            (legible_pair (by decide) (hfloat _ _ hl) (hfloat _ _ hr)))
        · cases h
      · rw [← Except.ok.inj h]
        exact .binary hl hr
    · rw [← Except.ok.inj h]
      exact .binary hl hr
  · cases h

/-- What is built from legible parts is legible. -/
theorem legible_construct (hs : s.HasNames ok) {t : TypeId} {args : List Expr} {code : Expr}
    (hargs : ∀ e ∈ args, Expr.Legible ok e) (h : construct s t args = .ok code) :
    Expr.Legible ok code := by
  unfold construct at h
  split at h
  · unfold zero at h
    split at h
    · cases h
    · rename_i p _
      have hzero : Expr.Legible ok (.literal (zeroLiteral p.scalar)) := by
        cases p.scalar with
        | bool => exact legible_words "false" (by decide)
        | i32 => exact legible_digits 0 "" (by decide) (by decide)
        | u32 => exact legible_digits 0 "u" (by decide) (by decide)
        | f32 | f16 => exact legible_digits 0 ".0" (by decide) (by decide)
      rw [← Except.ok.inj h]
      split
      · exact hzero
      · exact .construct trivial (List.forall_mem_singleton.mpr hzero)
  · obtain ⟨name, hname, rfl⟩ := map_eq_ok_iff.mp h
    exact .construct (legible_typeName hs.structs hname) hargs

/-- A vector of legible components is legible. -/
theorem legible_vec (n : UInt8) {args : List Expr} (hargs : ∀ e ∈ args, Expr.Legible ok e) :
    Expr.Legible ok (vec n args) := .construct trivial hargs

/-- A conversion to a float is legible. -/
theorem legible_float {e : Expr} (he : Expr.Legible ok e) : Expr.Legible ok (float e) :=
  .construct trivial (List.forall_mem_singleton.mpr he)

/-- The lookup functions of GLSL ES 1.00 are called legibly. -/
theorem legible_lookup100 {stage : Stage} {f : Intrinsic} {t : TextureType} {texture code : Expr}
    {args : List Expr} (hargs : ∀ e ∈ texture :: args, Expr.Legible ok e)
    (h : lookup100 stage f t texture args = some code) : Expr.Legible ok code := by
  have hbase : ∀ suffix ∈ ["", "Lod", "LodEXT"],
      isName ((if t.dimension = .cube then "textureCube" else "texture2D") ++ suffix) = true ∧
        (if t.dimension = .cube then "textureCube" else "texture2D") ++ suffix ∉ controlWords := by
    split <;> decide
  have hcall := hbase "" (by decide)
  rw [String.append_empty] at hcall
  simp only [lookup100] at h
  split at h
  · rw [← Option.some.inj h]
    exact .builtin hcall hargs
  · rw [← Option.some.inj h]
    refine .builtin (hbase _ ?_) hargs
    split <;> decide
  · rename_i c depth
    simp only [List.forall_mem_cons] at hargs
    rw [← Option.some.inj h]
    refine legible_pair (by decide) hargs.2.2.1 (.field ?_ (by decide))
    exact legible_pair hcall hargs.1 hargs.2.1
  · cases h

/-- The lookup functions of GLSL ES 3.00 are called legibly. -/
theorem legible_lookup300 {f : Intrinsic} {t : TextureType} {texture code : Expr}
    {args : List Expr} (hargs : ∀ e ∈ texture :: args, Expr.Legible ok e)
    (h : lookup300 f t texture args = some code) : Expr.Legible ok code := by
  simp only [lookup300] at h
  split at h
  case h_9 =>
    -- the level, if there is one, comes first
    have hlevel : Expr.Legible ok (args.headD (.literal "0")) := by
      cases args with
      | nil => exact legible_digits 0 "" (by decide) (by decide)
      | cons level rest => exact hargs level (by simp)
    have hsize := legible_pair (f := "textureSize") (by decide) (hargs _ List.mem_cons_self) hlevel
    rw [← Option.some.inj h]
    split
    · exact .field hsize (by decide)
    · exact hsize
  case h_10 => cases h
  all_goals
    simp only [List.forall_mem_cons] at hargs
    rw [← Option.some.inj h]
    refine .builtin (by decide) ?_
    simp only [List.forall_mem_cons, List.not_mem_nil, false_imp_iff, implies_true, and_true]
  · exact ⟨hargs.1, hargs.2.1⟩
  · refine ⟨hargs.1, legible_vec _ ?_⟩
    simpa using ⟨hargs.2.1, legible_float hargs.2.2.1⟩
  · exact ⟨hargs.1, hargs.2.1, hargs.2.2.1⟩
  · refine ⟨hargs.1, legible_vec _ ?_, hargs.2.2.2.1⟩
    simpa using ⟨hargs.2.1, legible_float hargs.2.2.1⟩
  · refine ⟨hargs.1, legible_vec _ ?_⟩
    simpa using ⟨hargs.2.1, hargs.2.2.1⟩
  · refine ⟨hargs.1, legible_vec _ ?_⟩
    simpa using ⟨hargs.2.1, legible_float hargs.2.2.1, hargs.2.2.2.1⟩
  · exact ⟨hargs.1, hargs.2.1, hargs.2.2.1⟩
  · refine ⟨hargs.1, .construct trivial ?_, hargs.2.2.2.1⟩
    simpa using ⟨hargs.2.1, hargs.2.2.1⟩

/-- A call that reads a texture is legible. -/
theorem legible_textureCall {f : Intrinsic} {t : Option TextureType} {args : List Expr}
    {code : Expr} (hargs : ∀ e ∈ args, Expr.Legible ok e)
    (h : textureCall s f t args = .ok code) : Expr.Legible ok code := by
  unfold textureCall at h
  split at h
  · cases h
  · split at h
    · cases h
    · dsimp only at h
      split at h
      · rename_i code' hcall
        rw [← Except.ok.inj h]
        split at hcall
        · exact legible_lookup100 hargs hcall
        · exact legible_lookup300 hargs hcall
      · cases h

mutual

/-- The spelling of a term is legible. -/
theorem legible_expr (hok : AdmitsNames ok) (hs : s.HasNames ok) : (e : Term) → {code : Expr} →
    expr s e = .ok code → Expr.Legible ok code
  | .literal _ value, code, h => by
      rw [expr] at h
      rw [← Except.ok.inj h]
      exact legible_literal value
  | .var _ v, code, h => by
      rw [expr] at h
      exact legible_variableExpr hok hs h
  | .builtin _ b, code, h => by
      rw [expr] at h
      obtain ⟨hname, hword⟩ := isName_builtin s.target b
      rw [← Except.ok.inj h]
      exact .name (hok.name _ hname hword)
  | .member _ base i, code, h => by
      simp only [expr, bind_eq_ok_iff] at h
      obtain ⟨m, hm, value, hvalue, h⟩ := h
      rw [← Except.ok.inj h]
      exact .field (legible_expr hok hs base hvalue) (hs.member hm)
  | .swizzle _ base mask, code, h => by
      simp only [expr, bind_eq_ok_iff] at h
      obtain ⟨value, hvalue, h⟩ := h
      rw [← Except.ok.inj h]
      exact .field (legible_expr hok hs base hvalue) (isPlain_swizzle mask)
  | .index _ base i, code, h => by
      simp only [expr, bind_eq_ok_iff] at h
      obtain ⟨b, hb, index, hindex, h⟩ := h
      rw [← Except.ok.inj h]
      exact .index (legible_expr hok hs base hb) (legible_expr hok hs i hindex)
  | .unary t op operand, code, h => by
      simp only [expr, bind_eq_ok_iff] at h
      obtain ⟨value, hvalue, h⟩ := h
      rw [← Except.ok.inj h]
      exact legible_unary op t (legible_expr hok hs operand hvalue)
  | .binary _ op lhs rhs, code, h => by
      simp only [expr, bind_eq_ok_iff] at h
      obtain ⟨l, hl, r, hr, h⟩ := h
      exact legible_binary (legible_expr hok hs lhs hl) (legible_expr hok hs rhs hr) h
  | .construct t args, code, h => by
      simp only [expr, bind_eq_ok_iff] at h
      obtain ⟨codes, hcodes, h⟩ := h
      exact legible_construct hs (legible_exprs hok hs args hcodes) h
  | .call _ f args, code, h => by
      simp only [expr, bind_eq_ok_iff] at h
      obtain ⟨fn, hfn, codes, hcodes, h⟩ := h
      rw [← Except.ok.inj h]
      exact .call (hs.function hfn) (legible_exprs hok hs args hcodes)
  | .intrinsic _ f args, code, h => by
      simp only [expr, bind_eq_ok_iff] at h
      obtain ⟨lowered, hlowered, h⟩ := h
      have hargs := legible_exprs hok hs args hlowered
      split at h
      · exact legible_textureCall hargs h
      · rw [← Except.ok.inj h]
        exact .builtin (isName_glslName f) hargs
  | .addressOf _ e, code, h | .deref _ e, code, h => by
      rw [expr] at h
      cases h

/-- Arguments are legible, by recursion on the list. -/
theorem legible_exprs (hok : AdmitsNames ok) (hs : s.HasNames ok) : (es : List Term) →
    {codes : List Expr} → exprs s es = .ok codes → ∀ code ∈ codes, Expr.Legible ok code
  | [], codes, h => by
      rw [exprs] at h
      rw [← Except.ok.inj h]
      simp
  | e :: rest, codes, h => by
      simp only [exprs, bind_eq_ok_iff] at h
      obtain ⟨value, hvalue, others, hothers, h⟩ := h
      rw [← Except.ok.inj h, List.forall_mem_cons]
      exact ⟨legible_expr hok hs e hvalue, legible_exprs hok hs rest hothers⟩

end

end Terms

/-! ## Statements -/

section Statements

variable {ok : String → Prop} {s : ResolvedStage}

/-- The dialect prints legible parts plainly. -/
theorem isPlain_dialect (hok : ∀ n, ok n → IsPlain n) :
    dialect.IsPlain ok (TypeName.Legible ok) where
  name := hok
  type _ h := h.plain hok
  declaration _ n ht hn := ht.plain_declare hok (hok n hn)
  condition _ h := (IsPlain.append (by decide) h).append (by decide)
  bound n _ hn hc := ((hok n hn).append (by decide)).append hc

/-- Declarations start with a type. -/
theorem isReadable_dialect (hok : ∀ n, ok n → IsPhrase n) :
    dialect.IsReadable ok (TypeName.Legible ok) where
  toIsPlain := isPlain_dialect fun n hn => (hok n hn).plain
  startsName n hn := (hok n hn).toStartsPhrase
  startsType _ ht := ht.starts fun n hn => (hok n hn).toStartsPhrase
  startsDeclaration _ n ht _ := ht.starts_declare (fun n hn => (hok n hn).toStartsPhrase) n

/-- An assignment is legible. -/
theorem legible_assign (hok : AdmitsNames ok) (hs : s.HasNames ok) {target value : Term}
    {op : Option BinaryOp} {code : Stmt} (h : assign s target op value = .ok code) :
    code.Legible ok (TypeName.Legible ok) := by
  simp only [assign, bind_eq_ok_iff] at h
  obtain ⟨t, ht, v, hv, h⟩ := h
  have htarget := legible_expr hok hs target ht
  have hvalue := legible_expr hok hs value hv
  cases op with
  | none =>
      rw [← Except.ok.inj h]
      exact .assign htarget hvalue
  | some op =>
      dsimp only at h
      split at h
      · obtain ⟨combined, hcombined, h⟩ := bind_eq_ok_iff.mp h
        rw [← Except.ok.inj h]
        exact .assign htarget (legible_binary htarget hvalue hcombined)
      · rw [← Except.ok.inj h]
        exact .assign htarget hvalue

/-- Whatever GLSL ES lowers is legible where the names of the stage will do. -/
theorem isLegible_lowering (hok : AdmitsNames ok) (hs : s.HasNames ok) :
    (lowering s).IsLegible ok (TypeName.Legible ok) where
  var h := hs.var h
  type h := legible_typeName hs.structs h
  expr h := legible_expr hok hs _ h
  assign h := legible_assign hok hs h
  eval h := by
    obtain ⟨value, hvalue, rfl⟩ := map_eq_ok_iff.mp h
    exact .eval (legible_expr hok hs _ hvalue)
  doWhile hbody hcond := .doWhile hbody hcond

end Statements

end Glsl

end WebShader
