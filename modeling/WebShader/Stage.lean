/-!
# Pipeline stages

The programmable stages of a pipeline, and the sets of stages a resource is visible from.
-/

namespace WebShader

/-- A programmable stage. -/
inductive Stage where
  | vertex
  | fragment
  | compute
  deriving DecidableEq

namespace Stage

/-- Every stage. -/
def all : List Stage := [vertex, fragment, compute]

/-- The name of the stage. -/
def text : Stage → String
  | vertex => "vertex"
  | fragment => "fragment"
  | compute => "compute"

/-- The stage whose name is `s`. -/
def ofText? (s : String) : Option Stage := all.find? (·.text == s)

theorem ofText?_text (s : Stage) : ofText? s.text = some s := by cases s <;> decide

end Stage

/-! ## Visibility -/

/-- A set of stages. -/
structure Visibility where
  vertex : Bool
  fragment : Bool
  compute : Bool
  deriving DecidableEq

namespace Visibility

/-- Visible from no stage. -/
def none : Visibility := ⟨false, false, false⟩

/-- Visible from one stage. -/
def ofStage : Stage → Visibility
  | .vertex => ⟨true, false, false⟩
  | .fragment => ⟨false, true, false⟩
  | .compute => ⟨false, false, true⟩

/-- Visible from the stages of either set. -/
def union (v w : Visibility) : Visibility :=
  ⟨v.vertex || w.vertex, v.fragment || w.fragment, v.compute || w.compute⟩

/-- Visible from each stage of the list. -/
def ofStages (stages : List Stage) : Visibility :=
  stages.foldl (fun v s => v.union (ofStage s)) none

/-- Whether the stage belongs to the set. -/
def has (v : Visibility) : Stage → Bool
  | .vertex => v.vertex
  | .fragment => v.fragment
  | .compute => v.compute

/-- Whether every stage of `w` belongs to `v`. -/
def contains (v w : Visibility) : Bool := Stage.all.all fun s => !w.has s || v.has s

/-- Whether no stage belongs to the set. -/
def isEmpty (v : Visibility) : Bool := v == none

/-- The set as a bit mask: 1 for vertex, 2 for fragment, 4 for compute. -/
def bits (v : Visibility) : Nat := v.vertex.toNat + 2 * v.fragment.toNat + 4 * v.compute.toNat

/-- The short name of the set in the names of merged uniform blocks. -/
def shortName (v : Visibility) : String :=
  if v.compute then "cs"
  else if v.vertex && v.fragment then "vsfs"
  else if v.vertex then "vs"
  else "fs"

theorem has_ofStage (s t : Stage) : (ofStage s).has t = (s == t) := by
  cases s <;> cases t <;> rfl

theorem has_union (v w : Visibility) (s : Stage) : (v.union w).has s = (v.has s || w.has s) := by
  cases s <;> rfl

theorem contains_ofStage (v : Visibility) (s : Stage) : v.contains (ofStage s) = v.has s := by
  cases s <;> simp [contains, Stage.all, has, ofStage]

/-- Different sets have different bit masks. -/
theorem bits_injective {v w : Visibility} (h : v.bits = w.bits) : v = w := by
  revert h
  rcases v with ⟨_ | _, _ | _, _ | _⟩ <;> rcases w with ⟨_ | _, _ | _, _ | _⟩ <;> decide

end Visibility

end WebShader
