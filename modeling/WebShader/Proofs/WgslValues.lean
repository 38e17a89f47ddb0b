import WebShader.Proofs.CodeValues
import WebShader.Wgsl.Expression

/-!
# Values of WGSL expressions

The text of a term in WGSL, read back, stands for what the term does, where nothing is wrapped to
pad it.
-/

namespace WebShader

open Code.Expr (Means Applies)

namespace Wgsl

/-- The names of a WGSL source stand for what the valuation says. -/
abbrev NamesAgree (names : Names) (s : ResolvedStage) (σ : Valuation) : Prop :=
  names.Agrees s σ (variableExpr s) fun b =>
    .field (if b.isOutput then stageOut else stageIn) b.memberName

/-! ## Padding -/

/-- Whether the members of a struct type are held without wrappers. -/
def holdsPlain (s : ResolvedStage) (t : TypeId) : Bool :=
  (s.types.struct? t).all fun struct =>
    struct.policy != .std140 || struct.members.all fun m => !isPadded s.types m.type

mutual

/-- Whether no part of a term is spelled with wrappers. -/
def isPlain (s : ResolvedStage) : Term → Bool
  | .literal _ _ | .builtin _ _ => true
  | .var t v => !isPaddedPlace s (.var t v)
  | .member t base i => !isPaddedPlace s (.member t base i) && isPlain s base
  | .swizzle _ base _ => isPlain s base
  | .index t base i => !isPaddedPlace s (.index t base i) && isPlain s base && isPlain s i
  | .unary _ _ operand => isPlain s operand
  | .binary _ _ lhs rhs => isPlain s lhs && isPlain s rhs
  | .construct t args => holdsPlain s t && arePlain s args
  | .call _ _ args | .intrinsic _ _ args => arePlain s args
  | .addressOf _ e | .deref _ e => isPlain s e
termination_by structural e => e

/-- Whether no part of several terms is spelled with wrappers. -/
def arePlain (s : ResolvedStage) : List Term → Bool
  | [] => true
  | e :: rest => isPlain s e && arePlain s rest
termination_by structural es => es

end

/-- What is not wrapped is not a wrapped place. -/
theorem isPaddedPlace_of_isPlain {s : ResolvedStage} {e : Term} (h : isPlain s e = true) :
    isPaddedPlace s e = false := by
  cases e with
  | var | member | index =>
      rw [isPlain] at h
      simp_all
  | _ => rfl

/-- A plain place is read as it is. -/
theorem converted_of_isPlain {s : ResolvedStage} {e : Term} (h : isPlain s e = true)
    (place : Expr) : converted s e place = .ok place := by
  rw [converted, isPaddedPlace_of_isPlain h]
  rfl

/-- Plain members are stored as they are. -/
theorem storeMembers_of_plain {r : Registry} {pairs : List (Expr × Member)}
    (h : ∀ p ∈ pairs, isPadded r p.2.type = false) :
    storeMembers r pairs = .ok (pairs.map (·.1)) := by
  induction pairs with
  | nil => rfl
  | cons p rest ih =>
      rw [storeMembers, h p List.mem_cons_self, ih fun q hq => h q (List.mem_cons_of_mem _ hq)]
      rfl

/-! ## Literals -/

section Literals

variable {target : Target} {names : Names} (htarget : target.isGlsl = false)

include htarget

/-- An integer means itself. -/
theorem means_i32 {i : Int} (hlow : -2147483648 < i) (hhigh : i < 2147483648) :
    (Code.Expr.literal (toString i ++ "i")).Means target names dialect
      (.scalar (.i32 (BitVec.ofInt 32 i))) := by
  refine Code.Expr.means_signed (fun n hn => ?_) hlow hhigh
  rw [Target.number?_signed htarget, Scalar.ofInt?, if_pos (by omega)]

/-- The least integer, converted from digits without a suffix. -/
theorem means_least : (Code.Expr.construct (.primitive (.ofScalar .i32))
    [.literal (toString (-2147483648 : Int))]).Means target names dialect
      (.scalar (.i32 (BitVec.ofInt 32 (-2147483648)))) := by
  have hdigits : (Code.Expr.literal ("-" ++ toString 2147483648)).Means target names dialect
      (.scalar (.exact (-2147483648))) := by
    refine Code.Expr.means_negative (a := .exact 2147483648) ?_ rfl
    rw [Target.number?_digits, htarget]
    rfl
  refine Code.Expr.means_apply (.cons hdigits .nil) ⟨.word "i32", ?_, ?_⟩
  · exact TextTree.reads_isName (by decide)
  · have hmaker : (TextTree.word "i32").maker? target names =
        some (.primitive (.ofScalar .i32)) := by
      rw [TextTree.maker?, Target.primitiveNamed?, htarget]
      rfl
    have hbuiltin : (TextTree.word "i32").builtin? target = none := by
      rw [TextTree.builtin?, Target.builtin?, htarget]
      rfl
    rw [TextTree.apply_of_maker? hbuiltin hmaker (by simp [htarget])]
    rfl

/-- A literal means its value. -/
theorem means_literal {l : Literal} {v : Datum} (h : l.datum? = some v) :
    (literal l).Means target names dialect v := by
  cases l with
  | bool b =>
      rw [← Option.some.inj h]
      exact Code.Expr.means_bool b
  | i32 i =>
      obtain ⟨a, ha, rfl⟩ := Option.map_eq_some_iff.mp h
      unfold Scalar.ofInt? at ha
      split at ha
      · rename_i hrange
        rw [← Option.some.inj ha, literal]
        split
        · rename_i hleast
          rw [hleast]
          exact means_least htarget
        · rename_i hleast
          exact means_i32 htarget (by omega) hrange.2
      · cases ha
  | u32 n =>
      obtain ⟨a, ha, rfl⟩ := Option.map_eq_some_iff.mp h
      exact Code.Expr.means_number (by rw [Target.number?_unsigned, ha])
  | f32 | f16 => cases h

end Literals

/-! ## Types -/

section Types

variable {s : ResolvedStage} {σ : Valuation} {names : Names}

/-- A scalar or vector type is read as such. -/
theorem reads_primitive (names : Names) {target : Target} (htarget : target.isGlsl = false)
    {p : PrimitiveType}
    (hfault : p.fault = none) (hmatrix : p.isMatrix = false) (hhalf : p.scalar ≠ .f16) :
    ∃ f, TextTree.Reads true p.text none f ∧ TextTree.startsName p.text = true ∧
      f.builtin? target = none ∧ f.maker? target names = some (.primitive p) := by
  obtain ⟨hcols, hrows⟩ := PrimitiveType.rows_cases hfault hmatrix
  obtain ⟨k, r, c⟩ := p
  dsimp only at hcols hrows hhalf
  have hscalar : isName k.name = true := by cases k <;> decide
  have hnamed : target.primitiveNamed? k.name = some (.ofScalar k) := by
    rw [Target.primitiveNamed?, htarget]
    cases k <;> first | rfl | exact absurd rfl hhalf
  rw [hcols]
  rcases hrows with rfl | hrows
  · refine ⟨.word k.name, TextTree.reads_isName hscalar, TextTree.startsName_of_isName hscalar,
      ?_, ?_⟩
    · rw [TextTree.builtin?, Target.builtin?, htarget]
      rfl
    · rw [TextTree.maker?, hnamed]
      rfl
  · -- the word of a vector ends with the number of its components
    have hvector : ∃ w, isName w = true ∧ PrimitiveType.text ⟨k, r, 1⟩ = w ++ "<" ++ k.name ++ ">" ∧
        Target.vectorSize? w = some r := by
      rcases hrows with rfl | rfl | rfl
      · exact ⟨"vec2", by decide, by cases k <;> decide, rfl⟩
      · exact ⟨"vec3", by decide, by cases k <;> decide, rfl⟩
      · exact ⟨"vec4", by decide, by cases k <;> decide, rfl⟩
    obtain ⟨w, hw, htext, hsize⟩ := hvector
    rw [htext]
    refine ⟨.template w [.word k.name], TextTree.reads_template hw hscalar, ?_, rfl, ?_⟩
    · rw [String.append_assoc, String.append_assoc]
      exact TextTree.startsName_append hw _
    · rw [TextTree.maker?, htarget, hsize, hnamed]
      rfl

/-- The type of a value is read as that type. -/
theorem reads_type (htarget : s.target.isGlsl = false) (hnames : NamesAgree names s σ) {t : TypeId}
    {m : Maker} (hm : s.maker? t = some m) : ∃ name f, typeName s.types t = .ok name ∧
      TextTree.Reads true name.text none f ∧ TextTree.startsName name.text = true ∧
        f.builtin? s.target = none ∧ f.maker? s.target names = some m := by
  rw [typeName]
  cases hkind : s.types.kind t with
  | primitive p =>
      obtain ⟨hfault, hmatrix, hhalf, rfl⟩ := ResolvedStage.maker?_primitive hkind hm
      obtain ⟨f, hf⟩ := reads_primitive names htarget hfault hmatrix hhalf
      exact ⟨.primitive p, f, rfl, hf⟩
  | struct struct =>
      obtain ⟨fields, rfl, -⟩ := ResolvedStage.maker?_struct hkind hm
      obtain ⟨hstruct, hbuiltin, hprimitive⟩ := hnames.struct t _ _ hm
      have hname := isName_of_isWord (names.isWord_of_struct _ _ hstruct)
      refine ⟨.struct struct.name, .word struct.name, rfl, TextTree.reads_isName hname,
        TextTree.startsName_of_isName hname, hbuiltin, ?_⟩
      rw [TextTree.maker?, hprimitive, hstruct]
      rfl
  | array element n =>
      obtain ⟨hn, hlt, -, m', hm', rfl⟩ := ResolvedStage.maker?_array hkind hm
      obtain ⟨name, f, hname, hreads, hstarts, hbuiltin, hmaker⟩ :=
        reads_type htarget hnames hm'
      obtain ⟨c, more, hlist, hc, hmore⟩ := exists_of_decimal? (decimal?_toString n)
      have htext : (TypeName.array name n).text =
          "array" ++ "<" ++ name.text ++ ", " ++ toString n ++ ">" := by
        rw [TypeName.text, if_neg hn]
        rfl
      refine ⟨.array name n, .template "array" [f, .number (toString n)], ?_, ?_, ?_, rfl, ?_⟩
      · simp only [hlt, if_true, hname]
        rfl
      · rw [htext]
        exact hreads.sized hstarts (by decide) hlist hc (all_isNameRest_of_isDigit hmore)
      · rw [htext, String.append_assoc, String.append_assoc, String.append_assoc,
          String.append_assoc]
        exact TextTree.startsName_append (by decide) _
      · rw [TextTree.maker?, htarget, hmaker, decimal?_toString]
        rfl
  | void | pointer | texture | sampler =>
      rw [ResolvedStage.maker?, hkind] at hm
      cases hm
termination_by t.index

end Types

/-! ## Terms -/

section Terms

variable {s : ResolvedStage} {σ : Valuation} {names : Names}

/-- The members of a struct that is held without wrappers are stored as they are. -/
theorem construct_of_struct {t : TypeId} {struct : StructType}
    (hstruct : s.types.struct? t = some struct) (hplain : holdsPlain s t = true) {args : List Expr}
    (hlength : args.length = struct.members.length) :
    construct s t args = .ok (.construct (.struct struct.name) args) := by
  simp only [construct, hstruct]
  split
  · rename_i hpolicy
    rw [holdsPlain, hstruct, Option.all_some, hpolicy] at hplain
    have hmembers : ∀ p ∈ args.zip struct.members, isPadded s.types p.2.type = false := by
      intro p hp
      have hall := List.all_eq_true.mp hplain p.2 (List.of_mem_zip hp).2
      simpa using hall
    rw [storeMembers_of_plain hmembers, List.map_fst_zip (Nat.le_of_eq hlength)]
    rfl
  · rfl

/-- A constructor means what is built from its arguments. -/
theorem means_construct (htarget : s.target.isGlsl = false) (hnames : NamesAgree names s σ)
    {t : TypeId} {m : Maker} (hm : s.maker? t = some m) (hplain : holdsPlain s t = true)
    {args : List Expr} {us : List Datum} {v : Datum}
    (hargs : List.Forall₂ (Means s.target names dialect) args us) (hv : m.build us = some v) :
    ∃ c, construct s t args = .ok c ∧ c.Means s.target names dialect v := by
  have hv := Maker.make_of_build hv
  obtain ⟨name, f, hname, hreads, -, hbuiltin, hmaker⟩ := reads_type htarget hnames hm
  have happly : TextTree.apply s.target names f us = some v := by
    rw [TextTree.apply_of_maker? hbuiltin hmaker (by simp [htarget]), hv]
  refine ⟨.construct name args, ?_, Code.Expr.means_apply hargs ⟨f, ?_, happly⟩⟩
  · cases hstruct : s.types.struct? t with
    | none =>
        simp only [construct, hstruct, hname]
        rfl
    | some struct =>
        have hkind : s.types.kind t = .struct struct := by
          unfold Registry.struct? at hstruct
          split at hstruct
          · rename_i hkind
            rw [hkind, Option.some.inj hstruct]
          · cases hstruct
        obtain ⟨fields, rfl, hfields⟩ := ResolvedStage.maker?_struct hkind hm
        rw [typeName, hkind] at hname
        rw [← Except.ok.inj hname]
        apply construct_of_struct hstruct hplain
        rw [hargs.length_eq, ← hfields]
        exact Maker.length_of_make hv
  · rw [htarget]
    exact hreads

mutual

/-- The text of a place stands for what the term stands for. -/
theorem means_place (htarget : s.target.isGlsl = false) (hnames : NamesAgree names s σ) :
    (e : Term) → isPlain s e = true → {v : Datum} → e.value s σ = some v →
      ∃ c, place s e = .ok c ∧ c.Means s.target names dialect v
  | .literal t l, _, v, h => by
      rw [Term.value] at h
      obtain ⟨h, -⟩ := Option.filter_eq_some_iff.mp h
      exact ⟨_, rfl, means_literal htarget h⟩
  | .var t x, _, v, h => by
      rw [Term.value] at h
      obtain ⟨h, -⟩ := Option.filter_eq_some_iff.mp h
      obtain ⟨c, hc, hplace⟩ := hnames.var x v h
      exact ⟨c, by rw [place, hc], Code.Expr.means_place hplace⟩
  | .builtin t b, _, v, h => by
      rw [Term.value] at h
      obtain ⟨h, -⟩ := Option.filter_eq_some_iff.mp h
      exact ⟨_, rfl, Code.Expr.means_place (hnames.builtin b v h)⟩
  | .member t base i, hplain, v, h => by
      rw [isPlain, Bool.and_eq_true] at hplain
      rw [Term.value] at h
      obtain ⟨h, -⟩ := Option.filter_eq_some_iff.mp h
      obtain ⟨d, hd, h⟩ := Option.bind_eq_some_iff.mp h
      obtain ⟨m, hm, hv⟩ := Option.bind_eq_some_iff.mp h
      obtain ⟨c, hc, hmeans⟩ := means_place htarget hnames base hplain.2 hd
      refine ⟨.field c m.name, ?_, hmeans.field ?_ (Datum.part?_of_field? hv)⟩
      · simp only [place, ResolvedStage.member, hm, hc, bind, Except.bind,
          converted_of_isPlain hplain.2]
        rfl
      · exact isName_of_isWord (Datum.isWord_of_field? hv)
  | .swizzle t base mask, hplain, v, h => by
      rw [isPlain] at hplain
      rw [Term.value] at h
      obtain ⟨h, -⟩ := Option.filter_eq_some_iff.mp h
      obtain ⟨d, hd, hv⟩ := Option.bind_eq_some_iff.mp h
      obtain ⟨c, hc, hmeans⟩ := means_place htarget hnames base hplain hd
      obtain ⟨hpart, hname⟩ := Datum.part?_of_swizzle? hv
      refine ⟨.field c mask.text, ?_, hmeans.field hname hpart⟩
      simp only [place, hc, bind, Except.bind, converted_of_isPlain hplain]
      rfl
  | .index t base i, hplain, v, h => by
      rw [isPlain, Bool.and_eq_true, Bool.and_eq_true] at hplain
      rw [Term.value] at h
      obtain ⟨h, -⟩ := Option.filter_eq_some_iff.mp h
      obtain ⟨d, hd, h⟩ := Option.bind_eq_some_iff.mp h
      obtain ⟨k, hk, hv⟩ := Option.bind_eq_some_iff.mp h
      obtain ⟨c, hc, hmeans⟩ := means_place htarget hnames base hplain.1.2 hd
      obtain ⟨c', hc', hmeans'⟩ := means_place htarget hnames i hplain.2 hk
      refine ⟨.index c c', ?_, hmeans.index hmeans' hv⟩
      simp only [place, hc, hc', bind, Except.bind, converted_of_isPlain hplain.2,
        isPaddedPlace_of_isPlain hplain.1.2]
      rfl
  | .unary t op operand, hplain, v, h => by
      rw [isPlain] at hplain
      rw [Term.value] at h
      obtain ⟨h, -⟩ := Option.filter_eq_some_iff.mp h
      obtain ⟨d, hd, hv⟩ := Option.bind_eq_some_iff.mp h
      obtain ⟨c, hc, hmeans⟩ := means_place htarget hnames operand hplain hd
      refine ⟨.unary op c, ?_, hmeans.unary ?_⟩
      · simp only [place, hc, bind, Except.bind, converted_of_isPlain hplain]
        rfl
      · rw [TextTree.unary?_eq (by simp [htarget]), hv]
  | .binary t op lhs rhs, hplain, v, h => by
      rw [isPlain, Bool.and_eq_true] at hplain
      rw [Term.value] at h
      split at h
      · cases h
      · rename_i hop
        obtain ⟨h, -⟩ := Option.filter_eq_some_iff.mp h
        obtain ⟨d, hd, h⟩ := Option.bind_eq_some_iff.mp h
        obtain ⟨e, he, hv⟩ := Option.bind_eq_some_iff.mp h
        obtain ⟨l, hl, hlmeans⟩ := means_place htarget hnames lhs hplain.1 hd
        obtain ⟨r, hr, hrmeans⟩ := means_place htarget hnames rhs hplain.2 he
        have hshift : op.isShift = false := by
          rw [Bool.or_eq_true, not_or] at hop
          simpa using hop.2
        refine ⟨.binary op l r, ?_, hlmeans.binary hrmeans ?_⟩
        · simp only [place, hl, hr, bind, Except.bind, converted_of_isPlain hplain.1,
            converted_of_isPlain hplain.2, hshift]
          rfl
        · rw [Target.binary?, htarget]
          exact hv
  | .construct t args, hplain, v, h => by
      rw [isPlain, Bool.and_eq_true] at hplain
      rw [Term.value] at h
      obtain ⟨h, -⟩ := Option.filter_eq_some_iff.mp h
      obtain ⟨m, hm, h⟩ := Option.bind_eq_some_iff.mp h
      obtain ⟨us, hus, hv⟩ := Option.bind_eq_some_iff.mp h
      obtain ⟨cs, hcs, hargs⟩ := means_values htarget hnames args hplain.2 hus
      obtain ⟨c, hc, hmeans⟩ := means_construct htarget hnames hm hplain.1 hargs hv
      refine ⟨c, ?_, hmeans⟩
      rw [place, hcs]
      exact hc
  | .call t f args, hplain, v, h => by
      rw [isPlain] at hplain
      rw [Term.value] at h
      obtain ⟨h, -⟩ := Option.filter_eq_some_iff.mp h
      obtain ⟨us, hus, hv⟩ := Option.bind_eq_some_iff.mp h
      obtain ⟨cs, hcs, hargs⟩ := means_values htarget hnames args hplain hus
      obtain ⟨fn, hfn, hcall, hbuiltin, hprimitive, hstruct⟩ := hnames.function f us v hv
      refine ⟨.apply (.function (s.functionName fn)) cs, ?_, ?_⟩
      · rw [place, hfn, hcs]
        rfl
      · exact Code.Expr.means_apply hargs
          (Code.Expr.applies_function hbuiltin hprimitive hstruct hcall)
  | .intrinsic _ _ _, _, v, h | .addressOf _ _, _, v, h | .deref _ _, _, v, h => by
      rw [Term.value] at h
      cases h

/-- The values of arguments, by recursion on the list. -/
theorem means_values (htarget : s.target.isGlsl = false) (hnames : NamesAgree names s σ) :
    (es : List Term) → arePlain s es = true → {vs : List Datum} →
      Term.values s σ es = some vs →
        ∃ cs, values s es = .ok cs ∧ List.Forall₂ (Means s.target names dialect) cs vs
  | [], _, vs, h => by
      rw [Term.values] at h
      rw [← Option.some.inj h]
      exact ⟨[], by rw [values], .nil⟩
  | e :: rest, hplain, vs, h => by
      rw [arePlain, Bool.and_eq_true] at hplain
      rw [Term.values] at h
      obtain ⟨d, hd, h⟩ := Option.bind_eq_some_iff.mp h
      obtain ⟨ds, hds, rfl⟩ := Option.map_eq_some_iff.mp h
      obtain ⟨c, hc, hmeans⟩ := means_place htarget hnames e hplain.1 hd
      obtain ⟨cs, hcs, hrest⟩ := means_values htarget hnames rest hplain.2 hds
      refine ⟨c :: cs, ?_, .cons hmeans hrest⟩
      simp only [values, hc, hcs, bind, Except.bind, converted_of_isPlain hplain.1]
      rfl

end

/-- The text of a term stands for what the term stands for. -/
theorem means_expr (htarget : s.target.isGlsl = false) (hnames : NamesAgree names s σ) {e : Term}
    (hplain : isPlain s e = true) {v : Datum} (h : e.value s σ = some v) :
    ∃ c, expr s e = .ok c ∧ c.Means s.target names dialect v := by
  obtain ⟨c, hc, hmeans⟩ := means_place htarget hnames e hplain h
  refine ⟨c, ?_, hmeans⟩
  rw [expr, hc]
  exact converted_of_isPlain hplain c

end Terms

end Wgsl

end WebShader
