import WebShader.Place

/-!
# Reflection

Tags give paths to the expressions of a stage, and an expression knows how the variable it names
was declared.
-/

namespace WebShader

/-! ## Tags -/

/-- The tags with a path moved to an expression; a new path goes to the end. -/
def putTag (tags : List (String × Expr)) (path : String) (e : Expr) : List (String × Expr) :=
  if tags.any (·.1 == path) then tags.map fun t => if t.1 == path then (path, e) else t
  else tags ++ [(path, e)]

/-- Give a path to an expression. -/
def Build.tag (e : Expr) (path : String) : Build Unit := do
  if path.isEmpty then throw (.parameter .emptyPath)
  Build.modifyStage fun s => { s with tags := putTag s.tags path e }

namespace Builder

/-- The expression of a path. -/
def tagged (b : Builder) (path : String) : Option Expr :=
  b.stage.bind fun s => (s.tags.find? (·.1 == path)).map (·.2)

/-- The paths of an expression. -/
def tagsOf (b : Builder) (e : Expr) : List String :=
  match b.stage with
  | some s => (s.tags.filter (·.2 == e)).map (·.1)
  | none => []

end Builder

/-! ## Declarations -/

/-- How the variable an expression names was declared, where it is a declaration of its stage. -/
inductive DeclarationKind where
  | none
  | uniform
  | storage
  | workgroup
  | stageInput
  | stageOutput
  deriving DecidableEq

namespace DeclarationKind

/-- The name of the kind. -/
def name : DeclarationKind → String
  | none => "None"
  | uniform => "Uniform"
  | storage => "Storage"
  | workgroup => "Workgroup"
  | stageInput => "StageInput"
  | stageOutput => "StageOutput"

/-- The kind of declaration of a variable. -/
def ofRole : Role → DeclarationKind
  | .uniform _ | .texture _ | .sampler _ => uniform
  | .storage _ _ => storage
  | .workgroup => workgroup
  | .input _ _ => stageInput
  | .output _ => stageOutput
  | _ => none

end DeclarationKind

/-- What is known of the declaration behind an expression. -/
structure ExprInfo where
  declaration : DeclarationKind
  group : Option UInt32
  semantic : Option Semantic
  sample : Option SampleType
  tags : List String

/-- What is known of the declaration behind an expression. -/
def Builder.info (b : Builder) (e : Expr) : ExprInfo :=
  let role := ((b.varOf? e.node).bind b.var?).map (·.role)
  { declaration := (role.map DeclarationKind.ofRole).getD .none
    group := role.bind (·.group?)
    semantic := role.bind (·.semantic?)
    sample := (b.types.texture? e.type).map (·.sample)
    tags := b.tagsOf e }

end WebShader
