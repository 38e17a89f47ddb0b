import WebShader.Glsl.Expression
import WebShader.Proofs.CodeValues

/-!
# Values of GLSL ES expressions

The text of a term in GLSL ES, read back, stands for what the term does.
-/

namespace WebShader

open Code.Expr (Means Applies)

namespace Glsl

/-- The names of a GLSL ES source stand for what the valuation says. -/
abbrev NamesAgree (names : Names) (s : ResolvedStage) (σ : Valuation) : Prop :=
  names.Agrees s σ (variableExpr s) fun b => .name (b.glslName s.target)

/-! ## Literals -/

section Literals

variable {target : Target} {names : Names} (htarget : target.isGlsl = true)

include htarget

/-- A number that is small enough is an integer. -/
theorem number?_eq {n : Nat} (h : n < 2147483648) :
    target.number? (toString n ++ "") = some (.i32 (BitVec.ofInt 32 n)) := by
  rw [String.append_empty, Target.number?_digits, htarget, if_pos rfl, Scalar.ofInt?,
    if_pos (by omega)]

/-- An integer means itself. -/
theorem means_i32 {i : Int} (hlow : -2147483648 < i) (hhigh : i < 2147483648) :
    (Code.Expr.literal (toString i)).Means target names dialect
      (.scalar (.i32 (BitVec.ofInt 32 i))) := by
  have h : (Code.Expr.literal (toString i ++ "")).Means target names dialect
      (.scalar (.i32 (BitVec.ofInt 32 i))) :=
    Code.Expr.means_signed (fun n => number?_eq htarget) hlow hhigh
  rwa [String.append_empty] at h

/-- The least integer, written as a difference. -/
theorem means_least : (Code.Expr.binary .sub (.literal "-2147483647") (.literal "1")).Means target
    names dialect (.scalar (.i32 (BitVec.ofInt 32 (-2147483648)))) := by
  have hnext : (Code.Expr.literal "-2147483647").Means target names dialect
      (.scalar (.i32 (BitVec.ofInt 32 (-2147483647)))) :=
    means_i32 htarget (i := -2147483647) (by decide) (by decide)
  have hone : (Code.Expr.literal "1").Means target names dialect
      (.scalar (.i32 (BitVec.ofInt 32 1))) :=
    means_i32 htarget (i := 1) (by decide) (by decide)
  have hminus : BitVec.ofInt 32 (-2147483647) - BitVec.ofInt 32 1 =
      BitVec.ofInt 32 (-2147483648) := by decide
  refine hnext.binary hone ?_
  rw [← hminus, Target.binary?, htarget]
  rfl

/-- A literal means its value. -/
theorem means_literal {l : Literal} {v : Datum} (h : l.datum? = some v) :
    (literal l).Means target names dialect v := by
  cases l with
  | bool b =>
      rw [← Option.some.inj h]
      exact Code.Expr.means_bool b
  | i32 i =>
      obtain ⟨a, ha, rfl⟩ := Option.map_eq_some_iff.mp h
      unfold Scalar.ofInt? at ha
      split at ha
      · rename_i hrange
        rw [← Option.some.inj ha, literal]
        split
        · rename_i hleast
          rw [hleast]
          exact means_least htarget
        · rename_i hleast
          exact means_i32 htarget (by omega) hrange.2
      · cases ha
  | u32 n =>
      obtain ⟨a, ha, rfl⟩ := Option.map_eq_some_iff.mp h
      exact Code.Expr.means_number (by rw [Target.number?_unsigned, ha])
  | f32 | f16 => cases h

end Literals

/-! ## Types -/

section Types

variable {s : ResolvedStage} {σ : Valuation} {names : Names} {t : TypeId} {m : Maker}

/-- A name of GLSL ES stands for the scalar or vector type it was made for. -/
theorem primitiveNamed?_primitiveName {target : Target} (htarget : target.isGlsl = true)
    {p : PrimitiveType} (hfault : p.fault = none) (hmatrix : p.isMatrix = false)
    (hhalf : p.scalar ≠ .f16) : isName (primitiveName p) = true ∧
      target.builtin? (primitiveName p) = none ∧
        target.primitiveNamed? (primitiveName p) = some p := by
  rw [Target.builtin?, Target.primitiveNamed?, htarget]
  obtain ⟨hcols, hrows⟩ := PrimitiveType.rows_cases hfault hmatrix
  obtain ⟨k, r, c⟩ := p
  dsimp only at hcols hrows hhalf
  rw [hcols]
  rcases hrows with hrows | hrows | hrows | hrows
  all_goals
    rw [hrows]
    cases k <;> first | exact absurd rfl hhalf | decide

/-- A scalar or vector type is applied as such. -/
theorem applies_primitive {target : Target} (htarget : target.isGlsl = true) {p : PrimitiveType}
    (hfault : p.fault = none) (hmatrix : p.isMatrix = false) (hhalf : p.scalar ≠ .f16)
    {args : List Datum} {v : Datum} (hargs : args ≠ []) (hv : p.make args = some v) :
    Applies target names dialect (.type (.primitive p)) args v := by
  obtain ⟨hname, hbuiltin, hprimitive⟩ := primitiveNamed?_primitiveName htarget hfault hmatrix hhalf
  refine ⟨.word (primitiveName p), TextTree.reads_isName hname, ?_⟩
  have hword : (TextTree.word (primitiveName p)).builtin? target = none := hbuiltin
  have hmaker : (TextTree.word (primitiveName p)).maker? target names = some (.primitive p) := by
    rw [TextTree.maker?, hprimitive]
  rw [TextTree.apply_of_maker? hword hmaker (by simp [hargs]), Maker.make, hv]

/-- The type of a value that is no array is a word. -/
theorem typeName_word (htarget : s.target.isGlsl = true) (hnames : NamesAgree names s σ)
    (hm : s.maker? t = some m) (harray : (s.types.kind t).isArray = false) :
    ∃ name, typeName s.types s.target t = .ok name ∧ isName name.text = true ∧
      s.target.builtin? name.text = none ∧
        (TextTree.word name.text).maker? s.target names = some m := by
  rw [typeName]
  cases hkind : s.types.kind t with
  | primitive p =>
      obtain ⟨hfault, hmatrix, hhalf, rfl⟩ := ResolvedStage.maker?_primitive hkind hm
      obtain ⟨hname, hbuiltin, hprimitive⟩ :=
        primitiveNamed?_primitiveName htarget hfault hmatrix hhalf
      refine ⟨.primitive p, rfl, hname, hbuiltin, ?_⟩
      rw [TypeName.text, TextTree.maker?, hprimitive]
  | struct struct =>
      obtain ⟨fields, rfl, -⟩ := ResolvedStage.maker?_struct hkind hm
      obtain ⟨hstruct, hbuiltin, hprimitive⟩ := hnames.struct t _ _ hm
      refine ⟨.struct struct.name, rfl, ?_, hbuiltin, ?_⟩
      · exact isName_of_isWord (names.isWord_of_struct _ _ hstruct)
      · rw [TypeName.text, TextTree.maker?, hprimitive, hstruct]
        rfl
  | array element n =>
      rw [hkind] at harray
      cases harray
  | void | pointer | texture | sampler =>
      rw [ResolvedStage.maker?, hkind] at hm
      cases hm

/-- The type of a value is spelled by what is read as that type. -/
theorem applies_type (htarget : s.target.isGlsl = true) (hnames : NamesAgree names s σ)
    (hm : s.maker? t = some m) : ∃ name, typeName s.types s.target t = .ok name ∧
      ∀ args v, args ≠ [] → m.make args = some v →
        Applies s.target names dialect (.type name) args v := by
  -- the constructor of an array is its type with the length in brackets, and any other is a name
  cases harray : (s.types.kind t).isArray with
  | false =>
      obtain ⟨name, hname, hword, hbuiltin, hmaker⟩ := typeName_word htarget hnames hm harray
      refine ⟨name, hname, fun args v hargs hv => ⟨.word name.text, ?_, ?_⟩⟩
      · exact TextTree.reads_isName hword
      · have happly : TextTree.apply s.target names (.word name.text) args = m.make args :=
          TextTree.apply_of_maker? hbuiltin hmaker (by simp [hargs])
        rw [happly, hv]
  | true =>
      cases hkind : s.types.kind t with
      | array element n =>
          obtain ⟨hn, hlt, hnested, m', hm', rfl⟩ := ResolvedStage.maker?_array hkind hm
          -- no array of arrays is made in GLSL ES
          have hflat : (s.types.kind element).isArray = false := by
            by_contra harray'
            rw [Bool.not_eq_false] at harray'
            have hsupports := hnested harray'
            cases htarget' : s.target <;> rw [htarget'] at htarget hsupports
            · cases hsupports
            · cases hsupports
            · cases htarget
          obtain ⟨name, hname, hword, hbuiltin, hmaker⟩ :=
            typeName_word htarget hnames hm' hflat
          refine ⟨.array name n, ?_, fun args v hargs hv =>
            ⟨.index (.word name.text) (.number (toString n)), ?_, ?_⟩⟩
          · rw [typeName, hkind]
            simp only [hn, if_false, hlt, if_true, hname]
            rfl
          · rw [htarget]
            exact (TextTree.reads_isName hword).index (TextTree.reads_nat n).whole
          · have hmaker' : (TextTree.index (.word name.text) (.number (toString n))).maker?
                s.target names = some (.array m' n) := by
              rw [TextTree.maker?, htarget, hmaker, decimal?_toString]
              · rfl
              · simp
            rw [TextTree.apply_of_maker? rfl hmaker' (by simp [hargs]), hv]
      | _ =>
          rw [hkind] at harray
          cases harray

end Types

/-! ## Terms -/

section Terms

variable {s : ResolvedStage} {σ : Valuation} {names : Names}

/-- The zero of a kind means zero. -/
theorem means_zeroLiteral {target : Target} (htarget : target.isGlsl = true) {k : ScalarKind}
    (hk : k.isFloat = false) :
    (Code.Expr.literal (zeroLiteral k)).Means target names dialect (.scalar (.zero k)) := by
  cases k with
  | bool => exact Code.Expr.means_bool false
  | i32 => exact means_i32 htarget (i := 0) (by decide) (by decide)
  | u32 => exact Code.Expr.means_number (Target.number?_unsigned target 0)
  | f32 | f16 => cases hk

/-- Zero has a constructor where it is a vector. -/
theorem means_zero (htarget : s.target.isGlsl = true) (hnames : NamesAgree names s σ) {t : TypeId}
    {m : Maker} (hm : s.maker? t = some m) {v : Datum} (hv : m.build [] = some v) :
    ∃ c, zero s t = .ok c ∧ c.Means s.target names dialect v := by
  unfold Maker.build at hv
  split at hv
  · cases hv
  · rename_i hzero
    cases m with
    | array | record => exact absurd rfl hzero
    | primitive p =>
        have hk : p.scalar.isFloat = false := by simpa [Maker.hasZero] using hzero
        have hkind : s.types.kind t = .primitive p := ResolvedStage.kind_of_maker? hm
        have hmeans : (Code.Expr.literal (zeroLiteral p.scalar)).Means s.target names dialect
            (.scalar (.zero p.scalar)) := means_zeroLiteral htarget hk
        rw [zero, Registry.primitive?, hkind]
        dsimp only
        split
        · rename_i hscalar
          rw [PrimitiveType.eq_ofScalar_of_isScalar hscalar] at hv
          have hvalue : v = .scalar (.zero p.scalar) := by
            cases hp : p.scalar <;> rw [hp] at hv <;> exact (Option.some.inj hv).symm
          exact ⟨_, rfl, hvalue ▸ hmeans⟩
        · obtain ⟨name, hname, happlies⟩ := applies_type htarget hnames hm
          rw [typeName, hkind] at hname
          rw [← Except.ok.inj hname] at happlies
          exact ⟨_, rfl, Code.Expr.means_apply (.cons hmeans .nil)
            (happlies [.scalar (.zero p.scalar)] v (by simp) hv)⟩

/-- A constructor means what is built from its arguments. -/
theorem means_construct (htarget : s.target.isGlsl = true) (hnames : NamesAgree names s σ)
    {t : TypeId} {m : Maker} (hm : s.maker? t = some m) {args : List Expr} {us : List Datum}
    {v : Datum} (hargs : List.Forall₂ (Means s.target names dialect) args us)
    (hv : m.build us = some v) :
    ∃ c, construct s t args = .ok c ∧ c.Means s.target names dialect v := by
  cases hargs with
  | nil => exact means_zero htarget hnames hm hv
  | @cons arg u args us harg hargs =>
      obtain ⟨name, hname, happlies⟩ := applies_type htarget hnames hm
      refine ⟨.construct name (arg :: args), ?_, ?_⟩
      · rw [construct, typeOf, hname]
        rfl
      · exact Code.Expr.means_apply (.cons harg hargs)
          (happlies _ _ (by simp) (Maker.make_of_build hv))

/-- A comparison of vectors is a function, any other operator is spelled as such. -/
theorem means_binary (htarget : s.target.isGlsl = true) {op : BinaryOp} (hrem : op ≠ .rem)
    {l r : Expr} {lt rt : TypeId} (t : TypeId) {d e v : Datum}
    (hl : l.Means s.target names dialect d) (hr : r.Means s.target names dialect e)
    (hlt : d.fits s.types lt = true) (hrt : e.fits s.types rt = true)
    (hv : op.outcome? d e = some v) :
    ∃ c, binary s op l lt r rt t = .ok c ∧ c.Means s.target names dialect v := by
  obtain ⟨hd, he⟩ := BinaryOp.components?_of_outcome? hv
  obtain ⟨p, hp, hpvector⟩ := Datum.exists_primitive_of_fits hlt hd
  obtain ⟨q, hq, -⟩ := Datum.exists_primitive_of_fits hrt he
  rw [binary, hp, hq]
  dsimp only
  rw [if_neg hrem]
  split
  · rename_i hvector
    rw [Bool.and_eq_true, hpvector] at hvector
    refine ⟨_, rfl, Code.Expr.means_apply (.cons hl (.cons hr .nil)) ?_⟩
    have he := BinaryOp.isVector_of_outcome? hvector.1 hvector.2 hv
    have hcompare : Target.compareVectors op [d, e] = some v := by
      cases d <;> cases hvector.2
      cases e <;> cases he
      exact hv
    refine Code.Expr.applies_builtin ?_ ?_ hcompare
    · cases op <;> decide
    · rw [Target.builtin?, htarget]
      cases op <;> first | rfl | cases hvector.1
  · rename_i hvector
    refine ⟨_, rfl, hl.binary hr ?_⟩
    rw [Target.binary?, htarget, if_pos rfl, if_neg (by rwa [hpvector] at hvector),
      if_neg (by simp [hrem]), hv]

/-- An operator with one operand means its outcome. -/
theorem means_unary (htarget : s.target.isGlsl = true) {op : UnaryOp} {operand : Expr}
    {t : TypeId} {d v : Datum} (h : operand.Means s.target names dialect d)
    (hv : op.outcome? d = some v) (ht : v.fits s.types t = true) :
    (unary s op operand t).Means s.target names dialect v := by
  obtain ⟨hcomponents, hvector⟩ := Datum.components_of_map hv
  obtain ⟨p, hp, hpvector⟩ := Datum.exists_primitive_of_fits ht hcomponents
  rw [unary, hp, Option.any_some, hpvector, hvector]
  split
  · rename_i hnot
    rw [Bool.and_eq_true, decide_eq_true_eq] at hnot
    refine Code.Expr.means_apply (.cons h .nil) (Code.Expr.applies_builtin (by decide)
      (g := Target.notVector) ?_ ?_)
    · rw [Target.builtin?, htarget]
      rfl
    · cases d <;> cases hnot.2
      rw [hnot.1] at hv
      exact hv
  · rename_i hnot
    rw [Bool.not_eq_true] at hnot
    refine h.unary ?_
    rw [TextTree.unary?_eq, hv]
    rw [htarget, Bool.true_and, hnot]

mutual

/-- The text of a term stands for what the term stands for. -/
theorem means_expr (htarget : s.target.isGlsl = true) (hnames : NamesAgree names s σ) :
    (e : Term) → {v : Datum} → e.value s σ = some v →
      ∃ c, expr s e = .ok c ∧ c.Means s.target names dialect v
  | .literal t l, v, h => by
      rw [Term.value] at h
      obtain ⟨h, -⟩ := Option.filter_eq_some_iff.mp h
      exact ⟨_, rfl, means_literal htarget h⟩
  | .var t x, v, h => by
      rw [Term.value] at h
      obtain ⟨h, -⟩ := Option.filter_eq_some_iff.mp h
      obtain ⟨c, hc, hplace⟩ := hnames.var x v h
      exact ⟨c, by rw [expr, hc], Code.Expr.means_place hplace⟩
  | .builtin t b, v, h => by
      rw [Term.value] at h
      obtain ⟨h, -⟩ := Option.filter_eq_some_iff.mp h
      exact ⟨_, rfl, Code.Expr.means_place (hnames.builtin b v h)⟩
  | .member t base i, v, h => by
      rw [Term.value] at h
      obtain ⟨h, -⟩ := Option.filter_eq_some_iff.mp h
      obtain ⟨d, hd, h⟩ := Option.bind_eq_some_iff.mp h
      obtain ⟨m, hm, hv⟩ := Option.bind_eq_some_iff.mp h
      obtain ⟨c, hc, hmeans⟩ := means_expr htarget hnames base hd
      refine ⟨.field c m.name, ?_, hmeans.field ?_ (Datum.part?_of_field? hv)⟩
      · rw [expr, ResolvedStage.member, hm, hc]
        rfl
      · exact isName_of_isWord (Datum.isWord_of_field? hv)
  | .swizzle t base mask, v, h => by
      rw [Term.value] at h
      obtain ⟨h, -⟩ := Option.filter_eq_some_iff.mp h
      obtain ⟨d, hd, hv⟩ := Option.bind_eq_some_iff.mp h
      obtain ⟨c, hc, hmeans⟩ := means_expr htarget hnames base hd
      obtain ⟨hpart, hname⟩ := Datum.part?_of_swizzle? hv
      refine ⟨.field c mask.text, ?_, hmeans.field hname hpart⟩
      rw [expr, hc]
      rfl
  | .index t base i, v, h => by
      rw [Term.value] at h
      obtain ⟨h, -⟩ := Option.filter_eq_some_iff.mp h
      obtain ⟨d, hd, h⟩ := Option.bind_eq_some_iff.mp h
      obtain ⟨k, hk, hv⟩ := Option.bind_eq_some_iff.mp h
      obtain ⟨c, hc, hmeans⟩ := means_expr htarget hnames base hd
      obtain ⟨c', hc', hmeans'⟩ := means_expr htarget hnames i hk
      refine ⟨.index c c', ?_, hmeans.index hmeans' hv⟩
      rw [expr, hc, hc']
      rfl
  | .unary t op operand, v, h => by
      rw [Term.value] at h
      obtain ⟨h, ht⟩ := Option.filter_eq_some_iff.mp h
      obtain ⟨d, hd, hv⟩ := Option.bind_eq_some_iff.mp h
      obtain ⟨c, hc, hmeans⟩ := means_expr htarget hnames operand hd
      refine ⟨unary s op c t, ?_, means_unary htarget hmeans hv ht⟩
      rw [expr, hc]
      rfl
  | .binary t op lhs rhs, v, h => by
      rw [Term.value] at h
      split at h
      · cases h
      · rename_i hop
        obtain ⟨h, -⟩ := Option.filter_eq_some_iff.mp h
        obtain ⟨d, hd, h⟩ := Option.bind_eq_some_iff.mp h
        obtain ⟨e, he, hv⟩ := Option.bind_eq_some_iff.mp h
        obtain ⟨l, hl, hlmeans⟩ := means_expr htarget hnames lhs hd
        obtain ⟨r, hr, hrmeans⟩ := means_expr htarget hnames rhs he
        have hrem : op ≠ .rem := fun hrem => hop (by simp [hrem])
        obtain ⟨c, hc, hmeans⟩ := means_binary htarget hrem t hlmeans hrmeans
          (Term.fits_of_value s σ hd) (Term.fits_of_value s σ he) hv
        refine ⟨c, ?_, hmeans⟩
        rw [expr, hl, hr]
        exact hc
  | .construct t args, v, h => by
      rw [Term.value] at h
      obtain ⟨h, -⟩ := Option.filter_eq_some_iff.mp h
      obtain ⟨m, hm, h⟩ := Option.bind_eq_some_iff.mp h
      obtain ⟨us, hus, hv⟩ := Option.bind_eq_some_iff.mp h
      obtain ⟨cs, hcs, hargs⟩ := means_exprs htarget hnames args hus
      obtain ⟨c, hc, hmeans⟩ := means_construct htarget hnames hm hargs hv
      refine ⟨c, ?_, hmeans⟩
      rw [expr, hcs]
      exact hc
  | .call t f args, v, h => by
      rw [Term.value] at h
      obtain ⟨h, -⟩ := Option.filter_eq_some_iff.mp h
      obtain ⟨us, hus, hv⟩ := Option.bind_eq_some_iff.mp h
      obtain ⟨cs, hcs, hargs⟩ := means_exprs htarget hnames args hus
      obtain ⟨fn, hfn, hcall, hbuiltin, hprimitive, hstruct⟩ := hnames.function f us v hv
      refine ⟨.apply (.function (s.functionName fn)) cs, ?_, ?_⟩
      · rw [expr, hfn, hcs]
        rfl
      · exact Code.Expr.means_apply hargs
          (Code.Expr.applies_function hbuiltin hprimitive hstruct hcall)
  | .intrinsic _ _ _, v, h | .addressOf _ _, v, h | .deref _ _, v, h => by
      rw [Term.value] at h
      cases h

/-- The values of arguments, by recursion on the list. -/
theorem means_exprs (htarget : s.target.isGlsl = true) (hnames : NamesAgree names s σ) :
    (es : List Term) → {vs : List Datum} → Term.values s σ es = some vs →
      ∃ cs, exprs s es = .ok cs ∧ List.Forall₂ (Means s.target names dialect) cs vs
  | [], vs, h => by
      rw [Term.values] at h
      rw [← Option.some.inj h]
      exact ⟨[], by rw [exprs], .nil⟩
  | e :: rest, vs, h => by
      rw [Term.values] at h
      obtain ⟨d, hd, h⟩ := Option.bind_eq_some_iff.mp h
      obtain ⟨ds, hds, rfl⟩ := Option.map_eq_some_iff.mp h
      obtain ⟨c, hc, hmeans⟩ := means_expr htarget hnames e hd
      obtain ⟨cs, hcs, hrest⟩ := means_exprs htarget hnames rest hds
      refine ⟨c :: cs, ?_, .cons hmeans hrest⟩
      rw [exprs, hc, hcs]
      rfl

end

end Terms

end Glsl

end WebShader
