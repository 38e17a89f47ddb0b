import WebShader.Code.Syntax
import WebShader.Resolved

/-!
# Lowering of statements

Every language spells the same control flow. What differs from one to the next is given by the
rules of a lowering: expressions, types, assignments, values that are dropped, and loops that test
their condition at the end.
-/

namespace WebShader

namespace Code

/-- The rules of a language. -/
structure Lowering (τ : Type) where
  var : VarId → Except ShaderError Variable
  type : TypeId → Except ShaderError τ
  expr : Term → Except ShaderError (Expr τ)
  assign : Term → Option BinaryOp → Term → Except ShaderError (Stmt τ)
  eval : Term → Except ShaderError (Stmt τ)
  doWhile : List (Stmt τ) → Expr τ → Stmt τ

namespace Lowering

variable {τ : Type} (rules : Lowering τ)

/-- The value a declaration or `return` may have. -/
def optional : Option Term → Except ShaderError (Option (Expr τ))
  | none => .ok none
  | some e => (rules.expr e).map some

mutual

/-- Lower a statement. -/
def stmt : WebShader.Stmt Term → Except ShaderError (Stmt τ)
  | .declare v init => do
    let d ← rules.var v
    let type ← rules.type d.type
    return .declare type d.name (← rules.optional init)
  | .assign target op value => rules.assign target op value
  | .eval e => rules.eval e
  | .conditional cases none => return .conditional (← branches cases) none
  | .conditional cases (some otherwise) => do
    let lowered ← branches cases
    return .conditional lowered (some (← block otherwise))
  | .forRange counter first last body => do
    let d ← rules.var counter
    let type ← rules.type d.type
    let first ← rules.expr first
    let last ← rules.expr last
    return .forRange type d.name first last (← block body)
  | .whileDo cond body => do
    let cond ← rules.expr cond
    return .whileDo cond (← block body)
  | .doWhile body cond => do
    let body ← block body
    return rules.doWhile body (← rules.expr cond)
  | .block body => return .block (← block body)
  | .returnWith value => return .returnWith (← rules.optional value)
  | .breakLoop => return .breakLoop
  | .continueLoop => return .continueLoop
  | .discard => return .discard
termination_by structural s => s

/-- Lower a block. -/
def block : List (WebShader.Stmt Term) → Except ShaderError (List (Stmt τ))
  | [] => return []
  | s :: rest => do
    let s ← stmt s
    return s :: (← block rest)
termination_by structural body => body

/-- Lower the branches of a conditional. -/
def branches : List (Term × List (WebShader.Stmt Term)) →
    Except ShaderError (List (Expr τ × List (Stmt τ)))
  | [] => return []
  | (cond, body) :: rest => do
    let cond ← rules.expr cond
    let body ← block body
    return (cond, body) :: (← branches rest)
termination_by structural cases => cases

end

end Lowering

end Code

end WebShader
