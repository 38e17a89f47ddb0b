import WebShader.Proofs.GlslValues
import WebShader.Proofs.WgslValues

/-!
# Printed expressions keep their value

In whichever language a term is printed, its text, read back with the precedence of that language,
has the value of the term.
-/

namespace WebShader

namespace ResolvedStage

/-- The text of a term in the language of the stage. -/
def exprText (s : ResolvedStage) (e : Term) : Except ShaderError String :=
  if s.target.isGlsl then (Glsl.expr s e).map (·.text Glsl.dialect)
  else (Wgsl.expr s e).map (·.text Wgsl.dialect)

/-- Whether no part of a term is spelled with wrappers, which only WGSL has. -/
def isPlain (s : ResolvedStage) (e : Term) : Bool := s.target.isGlsl || Wgsl.isPlain s e

/-- Names stand for what the valuation says, as the language of the stage spells variables. -/
def Agrees (s : ResolvedStage) (names : Names) (σ : Valuation) : Prop :=
  if s.target.isGlsl then Glsl.NamesAgree names s σ else Wgsl.NamesAgree names s σ

/-- The text of a term is read as the value, whatever it stands in. -/
def Prints (s : ResolvedStage) (names : Names) (e : Term) (v : Datum) : Prop :=
  if s.target.isGlsl then ∃ c, Glsl.expr s e = .ok c ∧ c.Means s.target names Glsl.dialect v
  else ∃ c, Wgsl.expr s e = .ok c ∧ c.Means s.target names Wgsl.dialect v

/-- What is read whatever it stands in is read by itself. -/
theorem Prints.read {s : ResolvedStage} {names : Names} {e : Term} {v : Datum}
    (h : s.Prints names e v) :
    ∃ text, s.exprText e = .ok text ∧ s.target.read names text = some v := by
  unfold Prints at h
  unfold exprText
  split at h
  · rename_i htarget
    obtain ⟨c, hc, hmeans⟩ := h
    exact ⟨_, by rw [if_pos htarget, hc]; rfl, hmeans.read⟩
  · rename_i htarget
    obtain ⟨c, hc, hmeans⟩ := h
    exact ⟨_, by rw [if_neg htarget, hc]; rfl, hmeans.read⟩

/-- The text of a term is read as what the term stands for. -/
theorem prints_of_value {s : ResolvedStage} {σ : Valuation} {names : Names}
    (hnames : s.Agrees names σ) {e : Term} (hplain : s.isPlain e = true) {v : Datum}
    (h : e.value s σ = some v) : s.Prints names e v := by
  unfold Agrees at hnames
  unfold Prints
  split at hnames
  · rename_i htarget
    rw [if_pos htarget]
    exact Glsl.means_expr htarget hnames e h
  · rename_i htarget
    rw [if_neg htarget]
    rw [Bool.not_eq_true] at htarget
    rw [isPlain, htarget, Bool.false_or] at hplain
    exact Wgsl.means_expr htarget hnames hplain h

/-- Names agree in every language where variables are spelled by their names and nothing else than
variables and functions is used. -/
theorem agrees_of_names {s : ResolvedStage} {names : Names} {σ : Valuation}
    (hvar : ∀ v d, σ.var v = some d → ∃ name, Glsl.variableExpr s v = .ok (.name name) ∧
      Wgsl.variableExpr s v = .ok (.name name) ∧ names.var name = some d)
    (hbuiltin : ∀ b, σ.builtin b = none)
    (hstruct : ∀ t struct, s.types.kind t ≠ .struct struct)
    (hfunction : ∀ f args d, σ.call f args = some d → ∃ fn, s.function f = .ok fn ∧
      names.function (s.functionName fn) args = some d ∧
        s.target.builtin? (s.functionName fn) = none ∧
          s.target.primitiveNamed? (s.functionName fn) = none ∧
            names.struct (s.functionName fn) = none) : s.Agrees names σ := by
  have hrecord : ∀ t name fields, s.maker? t = some (.record name fields) →
      names.struct name = some fields ∧ s.target.builtin? name = none ∧
        s.target.primitiveNamed? name = none := by
    intro t name fields h
    obtain ⟨struct, hkind, -⟩ := kind_of_maker? h
    exact absurd hkind (hstruct t struct)
  unfold Agrees
  split
  · refine ⟨fun v d h => ?_, fun b d h => ?_, hrecord, hfunction⟩
    · obtain ⟨name, hname, -, hd⟩ := hvar v d h
      exact ⟨_, hname, hd⟩
    · rw [hbuiltin] at h
      cases h
  · refine ⟨fun v d h => ?_, fun b d h => ?_, hrecord, hfunction⟩
    · obtain ⟨name, -, hname, hd⟩ := hvar v d h
      exact ⟨_, hname, hd⟩
    · rw [hbuiltin] at h
      cases h

end ResolvedStage

/-- A term that has a value is printed, and its text, read back, has that value, where names stand
for what the term takes its variables and functions for and nothing is wrapped to pad it. -/
theorem printed_value {s : ResolvedStage} {σ : Valuation} {names : Names}
    (hnames : s.Agrees names σ)
    {e : Term} (hplain : s.isPlain e = true) {v : Datum} (h : e.value s σ = some v) :
    ∃ text, s.exprText e = .ok text ∧ s.target.read names text = some v :=
  (ResolvedStage.prints_of_value hnames hplain h).read

/-! ## A sign before an access -/

/-- A function of a vector. -/
def totalFunction : Function where
  name := "total"
  params := []
  paramTypes := [⟨1⟩]
  result := ⟨0⟩
  rank := 0
  body := []

/-- A stage with a vector of integers and a function of one parameter. -/
def vectorStage (target : Target) : ResolvedStage where
  target := target
  indentWidth := 2
  types := ⟨#[⟨"i32", .primitive ⟨.i32, 1, 1⟩⟩, ⟨"vec2<i32>", .primitive ⟨.i32, 2, 1⟩⟩,
    ⟨"bool", .primitive ⟨.bool, 1, 1⟩⟩], 0⟩
  vars := #[{ name := "v", type := ⟨1⟩, role := .localVar, stage := .vertex }]
  plan := {}
  decls := { stage := .vertex, functions := [totalFunction] }
  constants := []
  functions := []
  main := []

/-- The sum of the two components of a vector. -/
def vectorTotal : List Datum → Option Datum
  | [.vector [x, y]] => (Scalar.binary .add x y).map .scalar
  | _ => none

/-- The vector is `(3, 5)`, and the function adds its components. -/
def vectorValuation : Valuation where
  var v := if v.index = 0 then some (.vector [.i32 3, .i32 5]) else none
  builtin _ := none
  call f args := if f.index = 0 then vectorTotal args else none

/-- The names of one variable and nothing else. -/
def Names.ofVar (name : String) (hname : isWord name = true) (value : Datum) : Names where
  var w := if w = name then some value else none
  struct _ := none
  function _ _ := none
  isWord_of_var w d h := by
    split at h
    · rename_i hw
      rw [hw, hname]
    · cases h
  isWord_of_struct _ _ h := by cases h
  isWord_of_function _ _ _ h := by cases h

/-- The names of the variable and of the function. -/
def vectorNames : Names where
  __ := Names.ofVar "v" (by decide) (.vector [.i32 3, .i32 5])
  function name args := if name = "total" then vectorTotal args else none
  isWord_of_function name args d h := by
    split at h
    · rename_i hname
      rw [hname]
      decide
    · cases h

/-- A component of a negated vector compared with the sum of the vector: `-(v).yx[1] < total(v)`. -/
def signedComparison : Term :=
  .binary ⟨2⟩ .lt
    (.index ⟨0⟩ (.swizzle ⟨1⟩ (.unary ⟨1⟩ .neg (.var ⟨1⟩ ⟨0⟩)) ⟨[.y, .x], .position⟩)
      (.literal ⟨0⟩ (.i32 1)))
    (.call ⟨0⟩ ⟨0⟩ [.var ⟨1⟩ ⟨0⟩])

/-- The value of the comparison. -/
theorem value_signedComparison (target : Target) :
    signedComparison.value (vectorStage target) vectorValuation = some (.scalar (.bool true)) := by
  rfl

/-- The stage has no structs. -/
theorem kind_vectorStage_ne (target : Target) (t : TypeId) (struct : StructType) :
    (vectorStage target).types.kind t ≠ .struct struct := by
  obtain ⟨i⟩ := t
  intro h
  match i with
  | 0 | 1 | 2 => cases h
  | i + 3 => cases h

theorem agrees_vectorNames (target : Target) :
    (vectorStage target).Agrees vectorNames vectorValuation := by
  have hname : (vectorStage target).functionName totalFunction = "total" := by
    cases target <;> decide
  refine ResolvedStage.agrees_of_names ?_ (fun _ => rfl) (kind_vectorStage_ne target) ?_
  · intro v d h
    obtain ⟨i⟩ := v
    simp only [vectorValuation] at h
    split at h
    · rename_i hi
      subst hi
      exact ⟨"v", rfl, rfl, h⟩
    · cases h
  · intro f args d h
    obtain ⟨i⟩ := f
    simp only [vectorValuation] at h
    split at h
    · rename_i hi
      subst hi
      refine ⟨totalFunction, rfl, ?_⟩
      rw [hname]
      refine ⟨h, ?_, ?_, rfl⟩
      · cases target <;> rfl
      · cases target <;> decide
    · cases h

/-- The sign applies to the component, in GLSL ES and in WGSL. -/
theorem printed_signedComparison :
    (∃ text, (vectorStage .webGL2).exprText signedComparison = .ok text ∧
      Target.webGL2.read vectorNames text = some (.scalar (.bool true))) ∧
    ∃ text, (vectorStage .webGPU).exprText signedComparison = .ok text ∧
      Target.webGPU.read vectorNames text = some (.scalar (.bool true)) :=
  ⟨printed_value (agrees_vectorNames .webGL2) rfl (value_signedComparison .webGL2),
    printed_value (agrees_vectorNames .webGPU) rfl (value_signedComparison .webGPU)⟩

example : (vectorStage .webGL2).exprText signedComparison = .ok "(-(v).yx[1] < total(v))" := by
  rfl

end WebShader
