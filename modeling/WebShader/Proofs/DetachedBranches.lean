import WebShader.Program
import WebShader.Proofs.ExpressionFaults
import WebShader.Proofs.Registration

/-!
# Detached branches

Two internal errors tell of a branch that has no conditional to join. Checks, registrations and the
writing of a source may fail in many ways, also internal ones, but never with these two.
-/

namespace WebShader

/-- The error is that of a branch without a conditional. -/
abbrev ShaderError.IsDetached (e : ShaderError) : Prop := e.fault? = some .detached

/-- A result is not the error of a branch without a conditional. -/
abbrev IsAttached {α : Type} (x : Except ShaderError α) : Prop := Avoids .detached x

/-! ## Checks -/

/-- A feature may be missing. -/
@[grind ←]
theorem attached_require (target : Target) (f : Feature) : IsAttached (target.require f) := by
  unfold Target.require
  grind

/-- A name may be no identifier. -/
@[grind ←]
theorem attached_checkIdentifier (name : String) : IsAttached (checkIdentifier name) := by
  unfold checkIdentifier
  grind

/-- A texture is checked. -/
@[grind ←]
theorem attached_checkTexture (target : Target) (t : TextureType) :
    IsAttached (Build.checkTexture target t) := by
  unfold Build.checkTexture
  grind

/-- A primitive type is checked. -/
@[grind ←]
theorem attached_checkPrimitive (target : Target) (p : PrimitiveType) :
    IsAttached (Build.checkPrimitive target p) := by
  unfold Build.checkPrimitive
  grind

mutual

/-- A shape is checked, by recursion on the shape. -/
@[grind ←]
theorem attached_checkShape (target : Target) (shape : TypeShape) :
    IsAttached (Build.checkShape target shape) :=
  match shape with
  | .void | .sampler _ => .ok ()
  | .primitive p => attached_checkPrimitive target p
  | .array element n => by
      have helement := attached_checkShape target element
      rw [Build.checkShape]
      grind
  | .struct _ _ members => attached_checkMemberShapes target members
  | .pointer pointee _ => .bind (attached_require _ _) fun _ => attached_checkShape target pointee
  | .texture t => attached_checkTexture target t

/-- The members of a shape are checked, by recursion on the list. -/
theorem attached_checkMemberShapes (target : Target) (members : List (String × TypeShape)) :
    IsAttached (Build.checkMemberShapes target members) :=
  match members with
  | [] => .ok ()
  | (_, type) :: rest =>
      .bind (attached_checkShape target type) fun _ => attached_checkMemberShapes target rest

end

/-! ## Places -/

/-- A variable may not be assigned to. -/
@[grind ←]
theorem attached_checkVarPlace (v : Variable) : IsAttached (Builder.checkVarPlace v) := by
  unfold Builder.checkVarPlace
  grind

/-- A swizzle may not be assigned through. -/
@[grind ←]
theorem attached_checkSwizzlePlace (target : Target) (s : Swizzle) :
    IsAttached (Builder.checkSwizzlePlace target s) := by
  unfold Builder.checkSwizzlePlace
  grind

/-- A place is checked, by recursion on the expression. -/
@[grind ←]
theorem attached_checkPlace (b : Builder) (n : NodeId) : IsAttached (b.checkPlace n) := by
  -- parts that come after the place are refused
  have hbase : ∀ m : NodeId, IsAttached (if m.index < n.index then b.checkPlace m else
      .error (.internal (.undefinedExpression n.index))) := by
    intro m
    split
    · exact attached_checkPlace b m
    · exact .error (by grind)
  rw [Builder.checkPlace]
  grind
termination_by n.index

/-- The letters of a mask are read, by induction on them. -/
@[grind ←]
theorem attached_readLetters (mask : String) (size : UInt8) (set : Option LetterSet)
    (letters : List Char) : IsAttached (Swizzle.readLetters mask size set letters) := by
  induction letters generalizing set with
  | nil => exact .ok _
  | cons c rest ih =>
      unfold Swizzle.readLetters
      grind

/-- A mask is read. -/
@[grind ←]
theorem attached_parse (mask : String) (size : UInt8) : IsAttached (Swizzle.parse mask size) := by
  have hletters := attached_readLetters mask size none mask.toList
  unfold Swizzle.parse
  grind

/-! ## Types -/

/-- An extent is found, by recursion on the type. -/
@[grind ←]
theorem attached_extent (r : Registry) (t : TypeId) (policy : LayoutPolicy) :
    IsAttached (r.extent t policy) := by
  rw [Registry.extent]
  split
  · exact .ok _
  · split
    · rename_i element _ _ hlt
      have helement := attached_extent r element policy
      grind [Registry.tooLarge]
    · exact .ok _
  · exact .ok _
  · exact .ok _
termination_by t.index

/-- Members are laid out, by induction on them. -/
@[grind ←]
theorem attached_layoutMembers (r : Registry) (policy : LayoutPolicy) (members : List Member)
    (offset alignment : Nat) : IsAttached (r.layoutMembers policy members offset alignment) := by
  induction members generalizing offset alignment with
  | nil => exact .ok _
  | cons m rest ih =>
      unfold Registry.layoutMembers
      grind [Registry.tooLarge]

/-- A struct is laid out. -/
@[grind ←]
theorem attached_structLayout (r : Registry) (members : List Member) (policy : LayoutPolicy) :
    IsAttached (r.structLayout members policy) := by
  unfold Registry.structLayout
  grind [Registry.tooLarge]

/-- Members are checked, by induction on them. -/
@[grind ←]
theorem attached_checkMembers (r : Registry) (before : List String) (members : List Member) :
    IsAttached (Interning.checkMembers r before members) := by
  induction members generalizing before with
  | nil => exact .ok _
  | cons m rest ih =>
      unfold Interning.checkMembers
      grind

namespace Interning

variable {α β : Type}

/-- Whatever the types, the result of a registration is attached. -/
def Attaches (act : Interning α) : Prop := ∀ r : Registry, IsAttached (r.run act).1

namespace Attaches

/-- Nothing is registered. -/
@[grind ←]
protected theorem pure (a : α) : Attaches (pure a : Interning α) := fun _ => .ok a

/-- Other errors are attached. -/
@[grind ←]
theorem throw {e : ShaderError} (he : ¬e.IsDetached) : Attaches (throw e : Interning α) :=
  fun _ => .error he

/-- A check of a registration. -/
@[grind ←]
theorem liftM {x : Except ShaderError α} (h : IsAttached x) : Attaches (liftM x : Interning α) := by
  intro r
  rw [Registry.run_liftM]
  exact h

/-- One after the other. -/
@[grind ←]
theorem bind {act : Interning α} {f : α → Interning β} (h : Attaches act)
    (hf : ∀ a, Attaches (f a)) : Attaches (act >>= f) := by
  intro r
  have hact := h r
  rw [Registry.run_bind]
  rcases hrun : r.run act with ⟨e | a, r'⟩
  · rw [hrun] at hact
    exact .error (hact e rfl)
  · exact hf a r'

/-- A look at the types. -/
@[grind ←]
theorem get : Attaches (get : Interning Registry) := fun _ => .ok _

/-- A change of the types. -/
@[grind ←]
theorem set (r : Registry) : Attaches (set r : Interning PUnit) := fun _ => .ok _

/-- Each of a list. -/
@[grind ←]
theorem mapM {f : α → Interning β} (h : ∀ a, Attaches (f a)) (l : List α) :
    Attaches (l.mapM f) := by
  induction l with
  | nil => exact .pure _
  | cons a l ih =>
      rw [List.mapM_cons]
      exact .bind (h a) fun _ => .bind ih fun _ => .pure _

end Attaches

/-- A type is found or added. -/
@[grind ←]
theorem attaches_insert (key : String) (kind : TypeKind) : Attaches (insert key kind) := by
  unfold insert
  grind

@[grind ←]
theorem attaches_void : Attaches void := attaches_insert _ _

@[grind ←]
theorem attaches_primitive (p : PrimitiveType) : Attaches (primitive p) := attaches_insert _ _

@[grind ←]
theorem attaches_scalar (k : ScalarKind) : Attaches (scalar k) := attaches_primitive _

@[grind ←]
theorem attaches_texture (t : TextureType) : Attaches (texture t) := attaches_insert _ _

@[grind ←]
theorem attaches_sampler (kind : SamplerKind) : Attaches (sampler kind) := attaches_insert _ _

/-- An array is registered. -/
@[grind ←]
theorem attaches_array (element : TypeId) (length : Nat) : Attaches (array element length) := by
  unfold array
  grind [Registry.tooLarge]

/-- A pointer is registered. -/
@[grind ←]
theorem attaches_pointer (pointee : TypeId) (space : AddressSpace) :
    Attaches (pointer pointee space) := by
  unfold pointer
  grind

/-- A name is chosen for a struct. -/
@[grind ←]
theorem attaches_structName (name : Option String) : Attaches (structName name) := by
  unfold structName
  grind

/-- A struct is registered whose members follow its rules. -/
@[grind ←]
theorem attaches_structOf (name : Option String) (policy : LayoutPolicy) (members : List Member) :
    Attaches (structOf name policy members) := by
  unfold structOf
  grind

/-- A type is promoted, by recursion on the type. -/
@[grind ←]
theorem attaches_std140 (t : TypeId) : Attaches (std140 t) := by
  have hpart : ∀ part : TypeId, part.index < t.index → Attaches (std140 part) :=
    fun part _ => attaches_std140 part
  have hmember : ∀ m : Member, Attaches (if m.type.index < t.index then
      do return { m with type := ← std140 m.type } else return m) := by
    intro m
    split
    · exact .bind (hpart _ ‹_›) fun _ => .pure _
    · exact .pure _
  rw [std140]
  grind
termination_by t.index

/-- A struct is registered. -/
@[grind ←]
theorem attaches_struct (name : Option String) (policy : LayoutPolicy) (members : List Member) :
    Attaches (struct name policy members) := by
  unfold struct
  grind

mutual

/-- A shape is registered, by recursion on the shape. -/
@[grind ←]
theorem attaches_shape (d : TypeShape) : Attaches (shape d) :=
  match d with
  | .void => attaches_void
  | .primitive p => by
      rw [shape]
      grind
  | .array element n => .bind (attaches_shape element) fun _ => attaches_array _ _
  | .struct name policy members =>
      .bind (attaches_memberShapes members) fun _ => attaches_struct _ _ _
  | .pointer pointee space => .bind (attaches_shape pointee) fun _ => attaches_pointer _ _
  | .texture t => by
      rw [shape]
      grind
  | .sampler kind => attaches_sampler kind

/-- The members of a shape are registered, by recursion on the list. -/
theorem attaches_memberShapes (members : List (String × TypeShape)) :
    Attaches (memberShapes members) :=
  match members with
  | [] => .pure _
  | (_, type) :: rest =>
      .bind (attaches_shape type) fun _ => .bind (attaches_memberShapes rest) fun _ => .pure _

end

end Interning

/-! ## Bindings -/

namespace Binding

/-- A declaration joins those of its name, or conflicts with them. -/
@[grind ←]
theorem attached_gather (r : Registry) (v : VarId) (d : Variable) (found : List Shared) :
    IsAttached (gather r v d found) := by
  induction found with
  | nil => exact .ok _
  | cons s rest ih =>
      unfold gather
      grind

/-- The declarations of a program are joined, by induction on them. -/
@[grind ←]
theorem attached_gatherAll (r : Registry) (declared : List (VarId × Variable))
    (found : List Shared) : IsAttached (gatherAll r declared found) := by
  induction declared generalizing found with
  | nil => exact .ok _
  | cons x rest ih => exact .bind (attached_gather _ _ _ _) fun _ => ih _

/-- A uniform is bound with its block. -/
@[grind ←]
theorem attaches_bindUniform (all : List Shared) (p : Plan) (s : Shared) (group : UInt32) :
    (bindUniform all p s group).Attaches := by
  unfold bindUniform
  grind

/-- A texture is bound, with its sampler or without. -/
@[grind ←]
theorem attaches_bindTexture (target : Target) (all : List Shared) (p : Plan) (s : Shared)
    (group : UInt32) : (bindTexture target all p s group).Attaches := by
  unfold bindTexture
  grind

/-- A resource is bound. -/
@[grind ←]
theorem attaches_bind (target : Target) (all : List Shared) (p : Plan) (s : Shared) :
    (bind target all p s).Attaches := by
  unfold bind
  grind

/-- Resources are bound, by induction on them. -/
@[grind ←]
theorem attaches_bindAll (target : Target) (all rest : List Shared) (p : Plan) :
    (bindAll target all rest p).Attaches := by
  induction rest generalizing p with
  | nil => exact .pure _
  | cons s rest ih => exact .bind (attaches_bind _ _ _ _) fun _ => ih _

/-- A program is planned. -/
@[grind ←]
theorem attaches_plan (target : Target) (vars : Array Variable) (stages : List BuiltStage) :
    (plan target vars stages).Attaches := by
  unfold plan
  grind

/-- The members of a buffer are laid out, by induction on them. -/
@[grind ←]
theorem attached_memberLayouts (r : Registry) (policy : LayoutPolicy)
    (members : List (Member × Nat)) : IsAttached (memberLayouts r policy members) := by
  induction members with
  | nil => exact .ok _
  | cons m rest ih =>
      exact .bind (attached_extent _ _ _) fun _ => .bind ih fun _ => .pure _

/-- A buffer is laid out. -/
@[grind ←]
theorem attached_bufferLayout (r : Registry) (t : TypeId) (bufferUse : BufferUse) :
    IsAttached (bufferLayout r t bufferUse) := by
  unfold bufferLayout
  grind

/-- A record is laid out. -/
@[grind ←]
theorem attached_entry (r : Registry) (b : Record) : IsAttached (b.entry r) := by
  unfold Record.entry Content.layout
  grind

/-- The groups of a program are laid out. -/
@[grind ←]
theorem attached_layouts (p : Plan) (r : Registry) (label : String) :
    IsAttached (p.layouts r label) := by
  unfold Plan.layouts Plan.groupCount Plan.groupLayout
  grind

end Binding

/-! ## Resolved stages -/

/-- An expression is read, by recursion on the expression. -/
@[grind ←]
theorem attached_term (b : Builder) (n : NodeId) : IsAttached (b.term n) := by
  have hoperand : ∀ m : NodeId, IsAttached (if m.index < n.index then b.term m else
      .error (.internal (.undefinedExpression m.index))) := by
    intro m
    split
    · exact attached_term b m
    · exact .error (by grind)
  rw [Builder.term]
  grind
termination_by n.index

section Traversal

variable {ε δ : Type} {f : ε → Except ShaderError δ}

/-- What may be missing is traversed. -/
@[grind ←]
theorem attached_optional (h : ∀ e, IsAttached (f e)) (x : Option ε) :
    IsAttached (Stmt.optional f x) := by
  unfold Stmt.optional
  grind

mutual

/-- A statement is traversed, by recursion on the statement. -/
theorem attached_traverse (h : ∀ e, IsAttached (f e)) (s : Stmt ε) : IsAttached (s.traverse f) :=
  match s with
  | .declare _ init => .bind (attached_optional h init) fun _ => .pure _
  | .assign target _ value => .bind (h target) fun _ => .bind (h value) fun _ => .pure _
  | .eval e => .bind (h e) fun _ => .pure _
  | .conditional branches (some otherwise) =>
      .bind (attached_traverseBranches h branches) fun _ =>
        .bind (attached_traverseBlock h otherwise) fun _ => .pure _
  | .conditional branches none => .bind (attached_traverseBranches h branches) fun _ => .pure _
  | .forRange _ first last body =>
      .bind (h first) fun _ => .bind (h last) fun _ =>
        .bind (attached_traverseBlock h body) fun _ => .pure _
  | .whileDo cond body =>
      .bind (h cond) fun _ => .bind (attached_traverseBlock h body) fun _ => .pure _
  | .doWhile body cond =>
      .bind (attached_traverseBlock h body) fun _ => .bind (h cond) fun _ => .pure _
  | .block body => .bind (attached_traverseBlock h body) fun _ => .pure _
  | .returnWith value => .bind (attached_optional h value) fun _ => .pure _
  | .breakLoop | .continueLoop | .discard => .ok _
termination_by structural s

/-- A block is traversed, by recursion on the block. -/
theorem attached_traverseBlock (h : ∀ e, IsAttached (f e)) (body : List (Stmt ε)) :
    IsAttached (Stmt.traverseBlock f body) :=
  match body with
  | [] => .ok _
  | s :: rest =>
      .bind (attached_traverse h s) fun _ => .bind (attached_traverseBlock h rest) fun _ => .pure _
termination_by structural body

/-- Branches are traversed, by recursion on the list. -/
theorem attached_traverseBranches (h : ∀ e, IsAttached (f e))
    (branches : List (ε × List (Stmt ε))) : IsAttached (Stmt.traverseBranches f branches) :=
  match branches with
  | [] => .ok _
  | (cond, body) :: rest =>
      .bind (h cond) fun _ => .bind (attached_traverseBlock h body) fun _ =>
        .bind (attached_traverseBranches h rest) fun _ => .pure _
termination_by structural branches

end

end Traversal

/-- A stage is resolved. -/
@[grind ←]
theorem attached_resolve (b : Builder) (plan : Binding.Plan) (s : BuiltStage) :
    IsAttached (b.resolve plan s) := by
  have hblock : ∀ body, IsAttached (Stmt.traverseBlock b.term body) :=
    attached_traverseBlock (attached_term b)
  have hconstant : ∀ v, IsAttached (b.resolveConstant v) := by
    intro v
    unfold Builder.resolveConstant
    grind
  have hfunction : ∀ f, IsAttached (b.resolveFunction f) :=
    fun f => .bind (hblock f.body) fun _ => .pure _
  unfold Builder.resolve
  grind

/-- A variable is looked up. -/
@[grind ←]
theorem attached_var (s : ResolvedStage) (v : VarId) : IsAttached (s.var v) := by
  unfold ResolvedStage.var
  grind

/-! ## Lowered statements -/

namespace Code

variable {τ : Type}

/-- What statements are made of is attached. -/
structure Lowering.IsAttached (rules : Lowering τ) : Prop where
  var : ∀ v, WebShader.IsAttached (rules.var v)
  type : ∀ t, WebShader.IsAttached (rules.type t)
  expr : ∀ e, WebShader.IsAttached (rules.expr e)
  assign : ∀ target op value, WebShader.IsAttached (rules.assign target op value)
  eval : ∀ e, WebShader.IsAttached (rules.eval e)

namespace Lowering.IsAttached

variable {rules : Lowering τ}

/-- What may be missing is lowered. -/
theorem optional (h : rules.IsAttached) (x : Option Term) :
    WebShader.IsAttached (rules.optional x) := by
  cases x with
  | none => exact .ok _
  | some e => exact .map (h.expr e) _

mutual

/-- A statement is lowered, by recursion on the statement. -/
theorem stmt (h : rules.IsAttached) (s : WebShader.Stmt Term) :
    WebShader.IsAttached (rules.stmt s) :=
  match s with
  | .declare v init =>
      .bind (h.var v) fun d => .bind (h.type d.type) fun _ =>
        .bind (h.optional init) fun _ => .pure _
  | .assign target op value => h.assign target op value
  | .eval e => h.eval e
  | .conditional cases none => .bind (h.branches cases) fun _ => .pure _
  | .conditional cases (some otherwise) =>
      .bind (h.branches cases) fun _ => .bind (h.block otherwise) fun _ => .pure _
  | .forRange counter first last body =>
      .bind (h.var counter) fun d => .bind (h.type d.type) fun _ => .bind (h.expr first) fun _ =>
        .bind (h.expr last) fun _ => .bind (h.block body) fun _ => .pure _
  | .whileDo cond body => .bind (h.expr cond) fun _ => .bind (h.block body) fun _ => .pure _
  | .doWhile body cond => .bind (h.block body) fun _ => .bind (h.expr cond) fun _ => .pure _
  | .block body => .bind (h.block body) fun _ => .pure _
  | .returnWith value => .bind (h.optional value) fun _ => .pure _
  | .breakLoop | .continueLoop | .discard => .pure _
termination_by structural s

/-- A block is lowered, by recursion on the block. -/
theorem block (h : rules.IsAttached) (body : List (WebShader.Stmt Term)) :
    WebShader.IsAttached (rules.block body) :=
  match body with
  | [] => .pure _
  | s :: rest => .bind (h.stmt s) fun _ => .bind (h.block rest) fun _ => .pure _
termination_by structural body

/-- Branches are lowered, by recursion on the list. -/
theorem branches (h : rules.IsAttached) (cases : List (Term × List (WebShader.Stmt Term))) :
    WebShader.IsAttached (rules.branches cases) :=
  match cases with
  | [] => .pure _
  | (cond, body) :: rest =>
      .bind (h.expr cond) fun _ => .bind (h.block body) fun _ =>
        .bind (h.branches rest) fun _ => .pure _
termination_by structural cases

end

end Lowering.IsAttached

end Code

/-! ## GLSL -/

namespace Glsl

variable (s : ResolvedStage)

/-- A term is spelled. -/
@[grind ←]
theorem attached_expr (e : Term) : IsAttached (expr s e) :=
  avoids_expr e fun v _ => attached_var s v

/-- An assignment is spelled. -/
theorem attached_assign (target : Term) (op : Option BinaryOp) (value : Term) :
    IsAttached (assign s target op value) := by
  unfold assign
  grind

/-- All that statements are made of is spelled. -/
theorem attached_lowering : (lowering s).IsAttached where
  var := attached_var s
  type := avoids_typeOf
  expr := attached_expr s
  assign := attached_assign s
  eval e := .map (attached_expr s e) _

/-- A field is spelled. -/
@[grind ←]
theorem attached_field (name : String) (t : TypeId) : IsAttached (field s name t) :=
  .bind (avoids_typeOf t) fun _ => .pure _

/-- A struct is declared. -/
theorem attached_structField (t : TypeId) : IsAttached (struct s t) :=
  .bind (ResolvedStage.avoids_struct t) fun _ =>
    .bind (.mapM (fun _ => attached_field s _ _) _) fun _ => .pure _

/-- A constant is declared. -/
theorem attached_constant (c : Variable × Term) : IsAttached (constant s c) :=
  .bind (attached_field s _ _) fun _ => .bind (attached_expr s c.2) fun _ => .pure _

/-- An input is declared. -/
theorem attached_input (v : VarId) : IsAttached (input s v) := by
  unfold input
  grind

/-- An output is declared. -/
theorem attached_output (v : VarId) : IsAttached (output s v) := by
  unfold output
  grind

/-- A resource is declared. -/
theorem attached_uniform (b : Binding.Record) : IsAttached (uniform s b) := by
  unfold uniform
  grind

/-- A function is defined. -/
theorem attached_definition (f : WebShader.Function × List (WebShader.Stmt Term)) :
    IsAttached (function s f) := by
  have hbody := (attached_lowering s).block f.2
  unfold function
  grind

/-- A stage is written in GLSL. -/
theorem attached_module : IsAttached (module s) := by
  have hsamplers : IsAttached (samplers s) := by
    unfold samplers
    grind
  have hmain := (attached_lowering s).block s.main
  unfold module
  dsimp only
  -- what follows the samplers is the same whether they are declared or not
  split
  case' isTrue => refine .bind hsamplers fun _ => ?_
  case' isFalse => refine .bind (.pure _) fun _ => ?_
  all_goals
    refine .bind (.mapM (attached_structField s) _) fun _ => ?_
    refine .bind (.mapM (attached_constant s) _) fun _ => ?_
    refine .bind (.mapM (attached_input s) _) fun _ => ?_
    refine .bind (.mapM (attached_output s) _) fun _ => ?_
    refine .bind (.mapM (attached_uniform s) _) fun _ => ?_
    exact .bind (.mapM (attached_definition s) _) fun _ => .bind hmain fun _ => .pure _

end Glsl

/-! ## WGSL -/

namespace Wgsl

variable (s : ResolvedStage)

/-- A place is spelled. -/
@[grind ←]
theorem attached_place (e : Term) : IsAttached (place s e) :=
  avoids_place e fun v _ => attached_var s v

/-- A value is spelled. -/
@[grind ←]
theorem attached_expr (e : Term) : IsAttached (expr s e) :=
  .bind (attached_place s e) fun _ => avoids_converted _ _

/-- An assignment is spelled. -/
theorem attached_assign (target : Term) (op : Option BinaryOp) (value : Term) :
    IsAttached (assign s target op value) := by
  unfold assign assignWrapped assignPlain
  grind

/-- All that statements are made of is spelled. -/
theorem attached_lowering : (lowering s).IsAttached where
  var := attached_var s
  type := avoids_typeName s.types
  expr := attached_expr s
  assign := attached_assign s
  eval e := .bind (attached_expr s e) fun _ => .pure _

/-- Fields under `std140` rules are declared, by induction on them. -/
@[grind ←]
theorem attached_std140Fields (r : Registry) (struct : StructType) (isFirst : Bool)
    (members : List (Member × Nat)) : IsAttached (std140Fields r struct isFirst members) := by
  induction members generalizing isFirst with
  | nil => exact .ok _
  | cons m rest ih =>
      unfold std140Fields memberAttributes
      grind

/-- A struct is declared. -/
theorem attached_structFields (t : TypeId) : IsAttached (struct s t) := by
  unfold struct
  grind

/-- A field at a location is declared. -/
@[grind ←]
theorem attached_locationField (location : Nat) (d : Variable) (isBetween : Bool) :
    IsAttached (locationField s location d isBetween) := by
  unfold locationField
  grind

/-- What enters a stage is declared. -/
theorem attached_inputStruct : IsAttached (inputStruct s) := by
  unfold inputStruct inputField
  grind

/-- What leaves a stage is declared. -/
theorem attached_outputStruct : IsAttached (outputStruct s) := by
  unfold outputStruct outputField
  grind

/-- A constant is declared. -/
theorem attached_constant (c : Variable × Term) : IsAttached (constant s c) :=
  .bind (avoids_typeName _ _) fun _ => .bind (attached_expr s c.2) fun _ => .pure _

/-- A resource is declared. -/
theorem attached_bound (b : Binding.Record) : IsAttached (bound s b) := by
  unfold bound
  grind

/-- What a workgroup shares is declared, by induction on it. -/
theorem attached_shared (resources : List VarId) : IsAttached (shared s resources) := by
  induction resources with
  | nil => exact .ok _
  | cons v rest ih =>
      unfold shared
      grind

/-- A function is defined. -/
theorem attached_definition (f : WebShader.Function × List (WebShader.Stmt Term)) :
    IsAttached (function s f) := by
  have hbody := (attached_lowering s).block f.2
  unfold function
  grind

/-- A stage is written in WGSL. -/
theorem attached_module : IsAttached (module s) := by
  have hmain := (attached_lowering s).block s.main
  unfold module
  refine .bind (.mapM (attached_structFields s) _) fun _ => ?_
  refine .bind (attached_inputStruct s) fun _ => .bind (attached_outputStruct s) fun _ => ?_
  refine .bind (.mapM (attached_constant s) _) fun _ => ?_
  refine .bind (.mapM (attached_bound s) _) fun _ => .bind (attached_shared s _) fun _ => ?_
  exact .bind (.mapM (attached_definition s) _) fun _ => .bind hmain fun _ => .pure _

end Wgsl

/-! ## Sources -/

/-- The source of a stage cannot be that of a detached branch. -/
theorem attached_source (b : Builder) (plan : Binding.Plan) (s : BuiltStage) :
    IsAttached (b.source plan s) := by
  have htext : ∀ stage : ResolvedStage, IsAttached stage.text := by
    intro stage
    unfold ResolvedStage.text
    split
    · exact .map (Wgsl.attached_module stage) _
    · exact .map (Glsl.attached_module stage) _
  refine .bind (attached_resolve b plan s) fun stage => ?_
  exact .bind (htext stage) fun _ => .pure _

end WebShader
