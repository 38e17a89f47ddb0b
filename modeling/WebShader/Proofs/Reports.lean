import WebShader.Proofs.DetachedBranches
import WebShader.Proofs.Scripts

/-!
# Kept reports

A builder keeps a report of the last program that could not be built. Operations neither look at it
nor change it: whatever report is kept, they give the same results and do the same to the rest of
the builder.
-/

namespace WebShader

/-- The builder with another report. -/
def Builder.recalling (b : Builder) (report : Option String) : Builder :=
  { b with lastError := report }

/-! ## Looks at the builder -/

namespace Builder

variable (b : Builder) (report : Option String)

/-- The report is no option. -/
@[grind =]
theorem config_recalling : (b.recalling report).config = b.config := rfl

/-- The registry does not depend on the report. -/
@[grind =]
theorem types_recalling : (b.recalling report).types = b.types := rfl

/-- The arena does not depend on the report. -/
@[grind =]
theorem nodes_recalling : (b.recalling report).nodes = b.nodes := rfl

/-- The variables do not depend on the report. -/
@[grind =]
theorem vars_recalling : (b.recalling report).vars = b.vars := rfl

/-- The stage does not depend on the report. -/
@[grind =]
theorem stage_recalling : (b.recalling report).stage = b.stage := rfl

/-- The phase does not depend on the report. -/
@[grind =]
theorem phase_recalling : (b.recalling report).phase = b.phase := rfl

/-- The target does not depend on the report. -/
@[grind =]
theorem target_recalling : (b.recalling report).target = b.target := rfl

/-- Variables are found without the report. -/
@[grind =]
theorem var?_recalling (v : VarId) : (b.recalling report).var? v = b.var? v := rfl

/-- The variable of an expression is found without the report. -/
@[grind =]
theorem varOf?_recalling (n : NodeId) : (b.recalling report).varOf? n = b.varOf? n := rfl

/-- Names are looked up without the report. -/
@[grind =]
theorem lookup_recalling (name : String) : (b.recalling report).lookup name = b.lookup name := rfl

/-- Accesses are remembered without the report. -/
@[grind =]
theorem accessed?_recalling (n : NodeId) (a : Access) :
    (b.recalling report).accessed? n a = b.accessed? n a := rfl

/-- Component types are found without the report. -/
@[grind =]
theorem scalarOf?_recalling (t : TypeId) : (b.recalling report).scalarOf? t = b.scalarOf? t := rfl

/-- A value is described without the report. -/
@[grind =]
theorem describe_recalling (v : Value) : (b.recalling report).describe v = b.describe v := by
  cases v <;> rfl

/-- Values are described without the report. -/
@[grind =]
theorem describeAll_recalling (vs : List Value) :
    (b.recalling report).describeAll vs = b.describeAll vs := by
  have hdescribe : (b.recalling report).describe = b.describe :=
    funext (b.describe_recalling report)
  rw [describeAll, describeAll, hdescribe]

/-- A value is accepted without the report. -/
@[grind =]
theorem accepts_recalling (t : TypeId) (v : Value) :
    (b.recalling report).accepts t v = b.accepts t v := by
  cases v <;> rfl

/-- Values are accepted without the report. -/
@[grind =]
theorem acceptsAll_recalling (types : List TypeId) (vs : List Value) :
    Build.acceptsAll (b.recalling report) types vs = Build.acceptsAll b types vs := by
  induction types generalizing vs with
  | nil => cases vs <;> rfl
  | cons t types ih =>
      cases vs with
      | nil => rfl
      | cons v vs => rw [Build.acceptsAll, Build.acceptsAll, accepts_recalling, ih]

/-- Arguments are accepted without the report. -/
@[grind =]
theorem acceptsParams_recalling (params : List PrimitiveType) (vs : List Value) :
    (b.recalling report).acceptsParams params vs = b.acceptsParams params vs := by
  induction params generalizing vs with
  | nil => cases vs <;> rfl
  | cons p params ih =>
      cases vs with
      | nil => rfl
      | cons v vs =>
          rw [acceptsParams, acceptsParams, ih]
          cases v <;> rfl

/-- Whether a location is taken does not depend on the report. -/
@[grind =]
theorem isTaken_recalling (s : OpenStage) (location : Nat) :
    Build.isTaken (b.recalling report) s location = Build.isTaken b s location := rfl

/-- The root of an access is found without the report. -/
@[grind =]
theorem root?_recalling (n : NodeId) : (b.recalling report).root? n = b.root? n :=
  root?_congr (b.nodes_recalling report) n

/-- Whether an expression is constant does not depend on the report. -/
@[grind =]
theorem isConstant_recalling (n : NodeId) : (b.recalling report).isConstant n = b.isConstant n :=
  isConstant_congr (b.nodes_recalling report) (b.vars_recalling report) n

/-- A place is checked without the report. -/
@[grind =]
theorem checkPlace_recalling (n : NodeId) : (b.recalling report).checkPlace n = b.checkPlace n :=
  checkPlace_congr (b.nodes_recalling report) (b.vars_recalling report) (fun _ => rfl) n

end Builder

/-! ## Operations that ignore the report -/

namespace Build

variable {α β : Type}

/-- Whatever report the builder keeps, an operation gives the same, does the same to the rest of the
builder, and leaves the report. -/
def Ignores (act : Build α) : Prop :=
  ∀ (b : Builder) report,
    (b.recalling report).run act = ((b.run act).1, (b.run act).2.recalling report)

namespace Ignores

/-- One after the other. -/
theorem bind {act : Build α} {f : α → Build β} (h : Ignores act) (hf : ∀ a, Ignores (f a)) :
    Ignores (act >>= f) := by
  intro b report
  rw [Builder.run_bind, Builder.run_bind, h b report]
  rcases b.run act with ⟨e | a, b'⟩
  · rfl
  · exact hf a b' report

end Ignores

/-- An operation is ordinary if it ignores the report and its result is attached. -/
structure IsOrdinary (act : Build α) : Prop where
  ignores : Ignores act
  attached : ∀ b : Builder, IsAttached (b.run act).1

attribute [grind ←] IsOrdinary.ignores

namespace IsOrdinary

/-- Nothing is done. -/
@[grind ←]
protected theorem pure (a : α) : IsOrdinary (pure a : Build α) := ⟨fun _ _ => rfl, fun _ => .ok a⟩

/-- An error, but that of a detached branch. -/
@[grind ←]
theorem throw {e : ShaderError} (he : ¬e.IsDetached) : IsOrdinary (throw e : Build α) :=
  ⟨fun _ _ => rfl, fun _ => .error he⟩

/-- A check. -/
@[grind ←]
theorem liftM {x : Except ShaderError α} (h : IsAttached x) : IsOrdinary (liftM x : Build α) := by
  refine ⟨fun b report => ?_, fun b => ?_⟩
  · rw [Builder.run_liftM, Builder.run_liftM]
  · rwa [Builder.run_liftM]

/-- One after the other. -/
@[grind ←]
theorem bind {act : Build α} {f : α → Build β} (h : IsOrdinary act) (hf : ∀ a, IsOrdinary (f a)) :
    IsOrdinary (act >>= f) := by
  refine ⟨h.ignores.bind fun a => (hf a).ignores, fun b => ?_⟩
  have hact := h.attached b
  rw [Builder.run_bind]
  rcases hrun : b.run act with ⟨e | a, b'⟩
  · rw [hrun] at hact
    exact .error (hact e rfl)
  · exact (hf a).attached b'

/-- What follows a look at anything but the report. -/
@[grind ←]
theorem get_bind {f : Builder → Build β} (hsame : ∀ b report, f (b.recalling report) = f b)
    (hf : ∀ b, IsOrdinary (f b)) : IsOrdinary (get >>= f) := by
  refine ⟨fun b report => ?_, fun b => (hf b).attached b⟩
  rw [Builder.run_bind, Builder.run_bind, Builder.run_get, Builder.run_get]
  dsimp only
  rw [hsame]
  exact (hf b).ignores b report

/-- An attempt and what is done about its failure. -/
@[grind ←]
theorem tryCatch {act : Build α} {handler : ShaderError → Build α} (h : IsOrdinary act)
    (hhandler : ∀ e, IsOrdinary (handler e)) : IsOrdinary (tryCatch act handler) := by
  refine ⟨fun b report => ?_, fun b => ?_⟩
  · rw [Builder.run_tryCatch, Builder.run_tryCatch, h.ignores b report]
    rcases b.run act with ⟨e | a, b'⟩
    · exact (hhandler e).ignores b' report
    · rfl
  · rw [Builder.run_tryCatch]
    rcases b.run act with ⟨e | a, b'⟩
    · exact (hhandler e).attached b'
    · exact .ok a

end IsOrdinary

/-! ### Changes of the builder -/

@[grind ←]
theorem ordinary_intern {act : Interning α} (h : act.Attaches) : IsOrdinary (intern act) := by
  refine ⟨fun b report => ?_, fun b => ?_⟩
  · rw [Builder.run_intern, Builder.run_intern]
    rfl
  · rw [Builder.run_intern]
    exact h b.types

@[grind ←]
theorem ordinary_remark (r : Remark) : IsOrdinary (remark r) :=
  ⟨fun _ _ => rfl, fun _ => .ok _⟩

@[grind ←]
theorem ordinary_pushNode (type : TypeId) (kind : NodeKind) : IsOrdinary (pushNode type kind) :=
  ⟨fun _ _ => rfl, fun _ => .ok _⟩

@[grind ←]
theorem ordinary_pushVar (v : Variable) : IsOrdinary (pushVar v) :=
  ⟨fun _ _ => rfl, fun _ => .ok _⟩

@[grind ←]
theorem ordinary_stage : IsOrdinary stage := by
  unfold stage
  grind

@[grind ←]
theorem ordinary_modifyStage (f : OpenStage → OpenStage) : IsOrdinary (modifyStage f) :=
  .bind ordinary_stage fun _ => ⟨fun _ _ => rfl, fun _ => .ok _⟩

@[grind ←]
theorem ordinary_modifyDecls (f : StageDecls → StageDecls) : IsOrdinary (modifyDecls f) :=
  ordinary_modifyStage _

/-! ### Checks and types -/

@[grind ←]
theorem ordinary_require (f : Feature) : IsOrdinary (require f) := by
  unfold require
  grind

@[grind ←]
theorem ordinary_type (shape : TypeShape) : IsOrdinary (type shape) := by
  unfold type
  grind

@[grind ←]
theorem ordinary_enable (e : GlslExtension) : IsOrdinary (enable e) := by
  unfold enable
  grind

@[grind ←]
theorem ordinary_inGlobalScope : IsOrdinary inGlobalScope := by
  unfold inGlobalScope
  grind

@[grind ←]
theorem ordinary_requireGlobal (what : String) : IsOrdinary (requireGlobal what) := by
  unfold requireGlobal
  grind

@[grind ←]
theorem ordinary_requireFunction (what : String) : IsOrdinary (requireFunction what) := by
  unfold requireFunction
  grind

@[grind ←]
theorem ordinary_resolve (name : String) : IsOrdinary (resolve name) := by
  unfold resolve
  grind

@[grind ←]
theorem ordinary_frame : IsOrdinary frame := by
  unfold frame
  grind

@[grind ←]
theorem ordinary_setFrame (f : Frame) : IsOrdinary (setFrame f) := by
  unfold setFrame
  grind

@[grind ←]
theorem ordinary_declareSymbol (name : String) (e : Expr) : IsOrdinary (declareSymbol name e) := by
  unfold declareSymbol
  grind

@[grind ←]
theorem ordinary_newVar (name : String) (t : TypeId) (role : Role) (init : Option NodeId) :
    IsOrdinary (newVar name t role init) := by
  unfold newVar
  grind

@[grind ←]
theorem ordinary_emit (s : Stmt NodeId) : IsOrdinary (emit s) := by
  unfold emit
  grind

@[grind ←]
theorem ordinary_pushScope (kind : ScopeKind) : IsOrdinary (pushScope kind) := by
  unfold pushScope
  grind

@[grind ←]
theorem ordinary_popScope : IsOrdinary popScope := by
  unfold popScope
  grind

/-! ### Operands and operators -/

@[grind ←]
theorem ordinary_literal (l : Literal) : IsOrdinary (literal l) := by
  unfold literal
  grind

@[grind ←]
theorem ordinary_lower (v : Value) (hint : Option ScalarKind) : IsOrdinary (lower v hint) := by
  unfold lower
  grind

@[grind ←]
theorem ordinary_lowerNear (v : Value) (hint : Option ScalarKind) :
    IsOrdinary (lowerNear v hint) := by
  unfold lowerNear
  grind

@[grind ←]
theorem ordinary_coerce (v : Value) (t : TypeId) (what : String) :
    IsOrdinary (coerce v t what) := by
  unfold coerce
  grind

@[grind ←]
theorem ordinary_lowerPair (lhs rhs : Value) : IsOrdinary (lowerPair lhs rhs) := by
  unfold lowerPair
  grind

@[grind ←]
theorem ordinary_operandType (e : Expr) (operation : String) :
    IsOrdinary (operandType e operation) := by
  unfold operandType
  grind

@[grind ←]
theorem ordinary_binaryType (op : BinaryOp) (lhs rhs : Expr) :
    IsOrdinary (binaryType op lhs rhs) := by
  unfold binaryType
  grind

@[grind ←]
theorem ordinary_binary (op : BinaryOp) (lhs rhs : Value) : IsOrdinary (binary op lhs rhs) := by
  unfold binary
  grind

@[grind ←]
theorem ordinary_unary (op : UnaryOp) (operand : Value) : IsOrdinary (unary op operand) := by
  unfold unary
  grind

@[grind ←]
theorem ordinary_cast (v : Value) (k : ScalarKind) : IsOrdinary (cast v k) := by
  unfold cast
  grind

/-! ### Accesses -/

@[grind ←]
theorem ordinary_access (base : Expr) (part : Access) (t : TypeId) (kind : NodeKind) :
    IsOrdinary (access base part t kind) := by
  unfold access
  refine .get_bind (fun _ _ => rfl) fun b => ?_
  split
  · exact .pure _
  · exact .bind (ordinary_pushNode _ _) fun e =>
      .bind ⟨fun _ _ => rfl, fun _ => .ok _⟩ fun _ => .pure e

@[grind ←]
theorem ordinary_member (base : Expr) (name : String) : IsOrdinary (member base name) := by
  unfold member
  grind

@[grind ←]
theorem ordinary_swizzle (base : Expr) (mask : String) : IsOrdinary (swizzle base mask) := by
  unfold swizzle
  grind

@[grind ←]
theorem ordinary_elements (t : TypeId) : IsOrdinary (elements t) := by
  unfold elements
  grind

@[grind ←]
theorem ordinary_element (base : Expr) (t : TypeId) (bound : Option Nat) (i : Int) :
    IsOrdinary (element base t bound i) := by
  unfold element
  grind

@[grind ←]
theorem ordinary_at (base : Expr) (index : Value) : IsOrdinary («at» base index) := by
  unfold «at»
  refine .bind (ordinary_elements _) fun x => ?_
  obtain ⟨type, bound⟩ := x
  dsimp only
  split
  · exact ordinary_element _ _ _ _
  · grind
  · exact .throw (by grind)

@[grind ←]
theorem ordinary_addressOf (place : Expr) : IsOrdinary (addressOf place) := by
  unfold addressOf
  refine .bind (ordinary_require _) fun _ => .get_bind (fun b report => ?_) fun b => ?_
  · rw [Builder.root?_recalling]
    rfl
  · split
    · exact .throw (by grind)
    · split
      · exact .throw (by grind)
      · exact .bind (ordinary_intern (Interning.attaches_pointer _ _)) fun t =>
          ordinary_pushNode _ _

@[grind ←]
theorem ordinary_deref (pointer : Expr) : IsOrdinary (deref pointer) := by
  unfold deref
  grind

/-! ### Statements -/

@[grind ←]
theorem ordinary_requireSized (what name : String) (t : TypeId) :
    IsOrdinary (requireSized what name t) := by
  unfold requireSized
  grind

@[grind ←]
theorem ordinary_condition (v : Value) : IsOrdinary (condition v) := by
  unfold condition
  grind

@[grind ←]
theorem ordinary_requireLoop (statement : String) : IsOrdinary (requireLoop statement) := by
  unfold requireLoop
  grind

@[grind ←]
theorem ordinary_requireBounds (first last : Expr) : IsOrdinary (requireBounds first last) := by
  unfold requireBounds
  grind

/-- What adds a branch may fail as a detached branch does, but it ignores the report. -/
theorem ignores_extendLast (failure : InternalFault) (f : Stmt NodeId → Option (Stmt NodeId)) :
    Ignores (extendLast failure f) := by
  refine ordinary_frame.ignores.bind fun scope => ?_
  split
  · exact (ordinary_setFrame _).ignores
  · exact fun _ _ => rfl

@[grind ←]
theorem ordinary_declareLocal (name : String) (init : Value) :
    IsOrdinary (declareLocal name init) := by
  unfold declareLocal
  grind

@[grind ←]
theorem ordinary_declareVar (name : String) (shape : TypeShape) :
    IsOrdinary (declareVar name shape) := by
  unfold declareVar
  grind

@[grind ←]
theorem ordinary_assign (target : Expr) (value : Value) : IsOrdinary (assign target value) := by
  unfold assign
  grind

@[grind ←]
theorem ordinary_assignOp (target : Expr) (op : BinaryOp) (value : Value) :
    IsOrdinary (assignOp target op value) := by
  unfold assignOp
  grind

@[grind ←]
theorem ordinary_assignNamed (name : String) (value : Value) :
    IsOrdinary (assignNamed name value) := by
  unfold assignNamed
  grind

@[grind ←]
theorem ordinary_eval (e : Expr) : IsOrdinary (eval e) := by
  unfold eval
  grind

@[grind ←]
theorem ordinary_breakLoop : IsOrdinary breakLoop := by
  unfold breakLoop
  grind

@[grind ←]
theorem ordinary_continueLoop : IsOrdinary continueLoop := by
  unfold continueLoop
  grind

@[grind ←]
theorem ordinary_discard : IsOrdinary discard := by
  unfold discard
  grind

@[grind ←]
theorem ordinary_tag (e : Expr) (path : String) : IsOrdinary (tag e path) := by
  unfold tag
  grind

/-! ### Functions -/

@[grind ←]
theorem ordinary_checkFunctionName (name : String) : IsOrdinary (checkFunctionName name) := by
  unfold checkFunctionName
  grind

@[grind ←]
theorem ordinary_paramTypes (name : String) (params : List (String × TypeShape)) :
    IsOrdinary (paramTypes name params) := by
  induction params with
  | nil => exact .pure _
  | cons x rest ih =>
      unfold paramTypes
      grind

@[grind ←]
theorem ordinary_declareParams (params : List (String × TypeId)) :
    IsOrdinary (declareParams params) := by
  induction params with
  | nil => exact .pure _
  | cons x rest ih =>
      unfold declareParams
      grind

@[grind ←]
theorem ordinary_function (f : FunctionId) : IsOrdinary (function f) := by
  unfold function
  grind

@[grind ←]
theorem ordinary_requireNewParams (name : String) (types : List TypeId) (fs : List FunctionId) :
    IsOrdinary (requireNewParams name types fs) := by
  induction fs with
  | nil => exact .pure _
  | cons x rest ih =>
      unfold requireNewParams
      grind

@[grind ←]
theorem ordinary_resultType (name : String) (scope : Frame) :
    IsOrdinary (resultType name scope) := by
  unfold resultType
  grind

@[grind ←]
theorem ordinary_addFunction (f : Function) : IsOrdinary (addFunction f) := by
  unfold addFunction
  grind

@[grind ←]
theorem ordinary_chooseOverload (args : List Value) (fs : List FunctionId) :
    IsOrdinary (chooseOverload args fs) := by
  induction fs with
  | nil => exact .pure _
  | cons x rest ih =>
      unfold chooseOverload
      grind

@[grind ←]
theorem ordinary_coerceAll (what : String) (args : List (Value × TypeId)) :
    IsOrdinary (coerceAll what args) := by
  induction args with
  | nil => exact .pure _
  | cons x rest ih =>
      unfold coerceAll
      grind

@[grind ←]
theorem ordinary_call (name : String) (args : List Value) : IsOrdinary (call name args) := by
  unfold call
  refine .bind ordinary_stage fun s => ?_
  dsimp only
  -- what follows the check is the same whether the check is made or not
  split
  case' isTrue => refine .bind (.throw (by grind)) fun _ => ?_
  all_goals
    refine .bind (ordinary_chooseOverload _ _) fun chosen => ?_
    grind

@[grind ←]
theorem ordinary_enclosingFunction : IsOrdinary enclosingFunction := by
  unfold enclosingFunction
  grind

@[grind ←]
theorem ordinary_setResult (t : TypeId) : IsOrdinary (setResult t) := by
  unfold setResult
  grind

@[grind ←]
theorem ordinary_returned (v : Value) (t : Option TypeId) : IsOrdinary (returned v t) := by
  unfold returned
  grind

@[grind ←]
theorem ordinary_returnValue (v : Value) : IsOrdinary (returnValue v) := by
  unfold returnValue
  grind

@[grind ←]
theorem ordinary_returnVoid : IsOrdinary returnVoid := by
  unfold returnVoid
  grind

/-! ### Constructors -/

/-- What follows the making of the error of a constructor, which is not that of a branch. -/
@[grind ←]
theorem ordinary_constructFailure_bind {p : PrimitiveType} {args : List Value}
    {f : ShaderError → Build α} (hf : ∀ e, ¬e.IsDetached → IsOrdinary (f e)) :
    IsOrdinary (constructFailure p args >>= f) := by
  unfold constructFailure
  simp only [bind_assoc, pure_bind]
  exact .get_bind (fun _ _ => by simp only [Builder.describeAll_recalling]) fun b => hf _ (by grind)

@[grind ←]
theorem ordinary_component (p : PrimitiveType) (args : List Value) (v : Value) :
    IsOrdinary (component p args v) := by
  unfold component
  grind

@[grind ←]
theorem ordinary_vectorParts (p : PrimitiveType) (args : List Value) (before : Nat)
    (parts : List Value) : IsOrdinary (vectorParts p args before parts) := by
  induction parts generalizing before with
  | nil => exact .pure _
  | cons x rest ih =>
      unfold vectorParts
      grind

@[grind ←]
theorem ordinary_vectorArgs (p : PrimitiveType) (args : List Value) :
    IsOrdinary (vectorArgs p args) := by
  unfold vectorArgs
  grind

@[grind ←]
theorem ordinary_matrixParts (p part : PrimitiveType) (args parts : List Value) :
    IsOrdinary (matrixParts p part args parts) := by
  induction parts with
  | nil => exact .pure _
  | cons x rest ih =>
      unfold matrixParts
      grind

@[grind ←]
theorem ordinary_matrixArgs (p : PrimitiveType) (args : List Value) :
    IsOrdinary (matrixArgs p args) := by
  unfold matrixArgs
  grind

@[grind ←]
theorem ordinary_memberParts (what : String) (parts : List (Value × TypeId)) :
    IsOrdinary (memberParts what parts) := by
  induction parts with
  | nil => exact .pure _
  | cons x rest ih =>
      unfold memberParts
      grind

@[grind ←]
theorem ordinary_memberArgs (t : TypeId) (count : Nat) (types : List TypeId) (args : List Value) :
    IsOrdinary (memberArgs t count types args) := by
  unfold memberArgs
  grind

@[grind ←]
theorem ordinary_construct (shape : TypeShape) (args : List Value) :
    IsOrdinary (construct shape args) := by
  unfold construct
  grind

/-! ### Built-in functions -/

@[grind ←]
theorem ordinary_lowerAll (args : List (Value × PrimitiveType)) : IsOrdinary (lowerAll args) := by
  induction args with
  | nil => exact .pure _
  | cons x rest ih =>
      unfold lowerAll
      grind

@[grind ←]
theorem ordinary_overloaded (f : Intrinsic) (args : List Value) :
    IsOrdinary (overloaded f args) := by
  unfold overloaded
  grind

@[grind ←]
theorem ordinary_textureArgument (f : Intrinsic) (arg : Option Value) :
    IsOrdinary (textureArgument f arg) := by
  unfold textureArgument
  refine .get_bind (fun _ _ => rfl) fun b => ?_
  grind

@[grind ←]
theorem ordinary_fetchSignature (name : String) (t : TextureType) :
    IsOrdinary (fetchSignature name t) := by
  unfold fetchSignature
  grind

@[grind ←]
theorem ordinary_textureSignature (f : Intrinsic) (name : String) (t : TextureType) (arity : Nat) :
    IsOrdinary (textureSignature f name t arity) := by
  unfold textureSignature
  grind

@[grind ←]
theorem ordinary_textureCall (f : Intrinsic) (args : List Value) :
    IsOrdinary (textureCall f args) := by
  unfold textureCall
  grind

@[grind ←]
theorem ordinary_checkDerivative (f : Intrinsic) : IsOrdinary (checkDerivative f) := by
  unfold checkDerivative
  grind

@[grind ←]
theorem ordinary_intrinsic (f : Intrinsic) (args : List Value) : IsOrdinary (intrinsic f args) := by
  unfold intrinsic
  grind

/-! ### Declarations -/

@[grind ←]
theorem ordinary_resource (name : String) (t : TypeId) (role : Role) :
    IsOrdinary (resource name t role) := by
  unfold resource
  grind

@[grind ←]
theorem ordinary_uniformTexture (name : String) (texture : TextureType) (group : UInt32) :
    IsOrdinary (uniformTexture name texture group) := by
  unfold uniformTexture
  grind

@[grind ←]
theorem ordinary_uniformSampler (name : String) (kind : SamplerKind) (group : UInt32) :
    IsOrdinary (uniformSampler name kind group) := by
  unfold uniformSampler
  grind

@[grind ←]
theorem ordinary_uniformValue (name : String) (shape : TypeShape) (group : UInt32) :
    IsOrdinary (uniformValue name shape group) := by
  unfold uniformValue
  grind

@[grind ←]
theorem ordinary_uniform (name : String) (shape : TypeShape) (group : UInt32) :
    IsOrdinary (uniform name shape group) := by
  unfold uniform
  grind

@[grind ←]
theorem ordinary_storage (name : String) (shape : TypeShape) (group : UInt32) (readOnly : Bool) :
    IsOrdinary (storage name shape group readOnly) := by
  unfold storage
  grind

@[grind ←]
theorem ordinary_workgroup (name : String) (shape : TypeShape) :
    IsOrdinary (workgroup name shape) := by
  unfold workgroup
  grind

@[grind ←]
theorem ordinary_constant (name : String) (value : Value) : IsOrdinary (constant name value) := by
  unfold constant
  grind

@[grind ←]
theorem ordinary_setWorkgroupSize (x y z : UInt32) : IsOrdinary (setWorkgroupSize x y z) := by
  unfold setWorkgroupSize
  grind

@[grind ←]
theorem ordinary_interfaceType (what name : String) (shape : TypeShape) :
    IsOrdinary (interfaceType what name shape) := by
  unfold interfaceType
  grind

@[grind ←]
theorem ordinary_vertexInput (name : String) (shape : TypeShape) (semantic : Semantic) :
    IsOrdinary (vertexInput name shape semantic) := by
  have hdeclare : ∀ t, IsOrdinary (newVar name t (.input semantic.location (some semantic)) >>=
      fun x => modifyDecls (fun d => { d with inputs := d.inputs ++ [x.1] }) >>= fun _ =>
        pure x.2) :=
    fun t => .bind (ordinary_newVar _ _ _ _) fun x =>
      .bind (ordinary_modifyDecls _) fun _ => .pure _
  unfold vertexInput
  refine .bind ordinary_stage fun s => ?_
  dsimp only
  -- what follows a check is the same whether the check is made or not
  split
  case' isTrue => refine .bind (.throw (by grind)) fun _ => ?_
  all_goals
    refine .bind (ordinary_requireGlobal _) fun _ => ?_
    refine .bind (ordinary_interfaceType _ _ _) fun x => ?_
    obtain ⟨t, p⟩ := x
    dsimp only
    split
    case' isTrue => refine .bind (ordinary_require _) fun _ => ?_
    all_goals
      refine .get_bind (fun _ _ => rfl) fun b => .bind ordinary_stage fun s' => ?_
      split
      · exact .bind (.throw (by grind)) fun _ => hdeclare t
      · exact hdeclare t

@[grind ←]
theorem ordinary_checkColor (name : String) (p : PrimitiveType) (location : Nat) :
    IsOrdinary (checkColor name p location) := by
  unfold checkColor
  grind

@[grind ←]
theorem ordinary_output (name : String) (shape : TypeShape) : IsOrdinary (output name shape) := by
  have hdeclare : ∀ t location, IsOrdinary (newVar name t (.output location) >>= fun x =>
      modifyDecls (fun d => { d with outputs := d.outputs ++ [x.1] }) >>= fun _ => pure x.2) :=
    fun t location =>
      .bind (ordinary_newVar _ _ _ _) fun x => .bind (ordinary_modifyDecls _) fun _ => .pure _
  unfold output
  refine .bind ordinary_stage fun s => ?_
  dsimp only
  -- what follows a check is the same whether the check is made or not
  split
  case' isTrue => refine .bind (.throw (by grind)) fun _ => ?_
  all_goals
    refine .bind (ordinary_requireGlobal _) fun _ => ?_
    refine .bind (ordinary_interfaceType _ _ _) fun x => ?_
    obtain ⟨t, p⟩ := x
    dsimp only
    split
    case' isTrue => refine .bind (ordinary_require _) fun _ => ?_
    all_goals
      refine .bind ordinary_stage fun s' => .get_bind (fun _ _ => rfl) fun b => ?_
      split
      · exact .bind (ordinary_checkColor _ _ _) fun _ => hdeclare t _
      · exact hdeclare t _

@[grind ←]
theorem ordinary_inputsFrom (outs : List VarId) : IsOrdinary (inputsFrom outs) := by
  induction outs with
  | nil => exact .pure _
  | cons x rest ih =>
      unfold inputsFrom
      grind

@[grind ←]
theorem ordinary_builtin (b : Builtin) : IsOrdinary (builtin b) := by
  unfold builtin
  refine .bind ordinary_stage fun s => ?_
  dsimp only
  -- what follows a check is the same whether the check is made or not
  split
  case' isTrue => refine .bind (.throw (by grind)) fun _ => ?_
  all_goals
    split
    · exact .pure _
    · split
      case' h_1 => refine .bind (ordinary_require _) fun _ => ?_
      all_goals
        refine .get_bind (fun _ _ => rfl) fun b' => ?_
        refine .bind (ordinary_intern (Interning.attaches_primitive _)) fun t => ?_
        refine .bind (ordinary_pushNode _ _) fun e => ?_
        grind

@[grind ←]
theorem ordinary_assignBuiltin (b : Builtin) (value : Value) :
    IsOrdinary (assignBuiltin b value) := by
  unfold assignBuiltin
  grind

/-! ### Programs -/

@[grind ←]
theorem ordinary_openStage (which : Stage) (earlier : List VarId) :
    IsOrdinary (openStage which earlier) :=
  .bind ⟨fun _ _ => rfl, fun _ => .ok _⟩ fun _ => ordinary_inputsFrom _

@[grind ←]
theorem ordinary_closeStage (which : Stage) : IsOrdinary (closeStage which) := by
  unfold closeStage
  refine .get_bind (fun _ _ => rfl) fun b => ?_
  split
  · exact .throw (by grind)
  · refine .bind ⟨fun _ _ => rfl, fun _ => .ok _⟩ fun _ => ?_
    grind

@[grind ←]
theorem ordinary_bindStages (stages : List BuiltStage) : IsOrdinary (bindStages stages) := by
  unfold bindStages
  grind

@[grind ←]
theorem ordinary_start : IsOrdinary start := by
  unfold start
  refine .get_bind (fun _ _ => rfl) fun b => ?_
  split
  · exact .throw (by grind)
  · exact .throw (by grind)
  · exact ⟨fun _ _ => rfl, fun _ => .ok _⟩

@[grind ←]
theorem ordinary_finish : IsOrdinary finish := ⟨fun _ _ => rfl, fun _ => .ok _⟩

end Build

end WebShader
