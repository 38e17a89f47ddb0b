import WebShader.Builtin
import WebShader.Intrinsic
import WebShader.Operator
import WebShader.Role
import WebShader.Texture

/-!
# Errors

Every way an authoring operation or the rendering of a program can fail, by cause. The causes fall
into five kinds; `ShaderError.message` words them. Types and values that only serve the wording
are carried as their text.
-/

namespace WebShader

/-! ## Causes -/

/-- A wrong argument. -/
inductive ParameterFault where
  | unknownTarget (name : String)
  | shape (fault : ShapeFault)
  | texture (fault : TextureFault)
  | identifier (name : String)
  | workgroupSize (x y z : UInt32)
  | compoundOperator (op : BinaryOp)
  | noConstructor (type : String)
  | construct (type : PrimitiveType) (args : String)
  | valueCount (type : String) (expected got : Nat)
  | memberValue (type expected got : String)
  | emptyPath
  | noTexture (f : Intrinsic)
  | textureArguments (f : Intrinsic) (texture : TextureType) (expected got : String)

/-- A value or type where it cannot stand. -/
inductive TypeFault where
  | runtimeElement
  | arrayElement (type : String)
  | runtimeTailElement (struct : String)
  | tooLarge (what : String)
  | pointee (type : String)
  | swizzleLength (mask : String) (limit : UInt8)
  | swizzleLetter (letter : Char) (mask : String)
  | swizzleMixed (mask : String)
  | swizzleRange (mask : String) (letter : Char) (components : UInt8)
  | integerRange (value : Int) (types : String)
  | integerInexact (value : Int) (scalar : ScalarKind)
  | floatRange (value : String)
  | literal (value : String) (scalar : ScalarKind)
  | expected (what wanted got : String)
  | operand (operation type : String)
  | binary (op : BinaryOp) (lhs rhs : PrimitiveType)
  | unary (op : UnaryOp) (operand : PrimitiveType)
  | cast (type : PrimitiveType) (scalar : ScalarKind)
  | memberOf (name type : String)
  | noMember (struct name : String)
  | swizzleOf (type : String)
  | indexInto (type : String)
  | indexRange (index : Int) (type : String)
  | indexType (type : String)
  | indexLiteral (value : String)
  | noAddress
  | addressOf (name : String) (role : Role)
  | deref (type : String)
  | condition (type : String)
  | declared (what name type : String)
  | notAssignable (name : String) (role : Role)
  | swizzleRepeats (mask : String)
  | swizzleWide (mask : String)
  | notPlace
  | compound (op : BinaryOp) (target result : String)
  | loopBounds (first last : String)
  | paramType (param function type : String)
  | noOverload (function args : String)
  | returnType (type : String)
  | noIntrinsic (f : Intrinsic) (args : String)
  | textureUse (verb name : String) (texture : TextureType)
  | webGLOutput (name : String) (type : PrimitiveType)
  | paddedRuntime
  | paddedAddress

/-- A declaration or statement where it cannot stand. -/
inductive DeclarationFault where
  | emptyStruct
  | duplicateMember (name : String)
  | memberType (name type : String)
  | runtimeNotLast (name : String)
  | structClash (name : String)
  | notGlobal (what : String)
  | notInFunction (what : String)
  | alreadyDeclared (name : String)
  | undeclared (name : String)
  | readOnlyParam (name : String)
  | outsideLoop (statement : String)
  | discardStage
  | mainAsFunction
  | reservedFunction
  | duplicateFunction (name : String)
  | missingReturn (function : String)
  | secondMain
  | returnOutside
  | mainReturnsValue
  | returnConflict (value type : String)
  | emptyReturn
  | derivativeStage (f : Intrinsic)
  | workgroupStage
  | notConstant (name : String)
  | workgroupSizeStage
  | conflict (name : String) (type : String) (role : Role) (type' : String) (role' : Role)
  | samplerClash (sampler texture : String)
  | attributeStage (name : String)
  | semanticTaken (semantic : Semantic)
  | computeOutput
  | builtinStage (builtin : Builtin) (stage : Stage)
  | noMain (stage : Stage)

/-- A broken invariant, or an operation outside of its moment. -/
inductive InternalFault where
  | noStage
  | emptyScopes
  | globalScope
  | detachedElseIf
  | detachedElse
  | undefinedFunctionId (id : Nat)
  | undefinedFunction (name : String)
  | reentrant
  | needsReset
  | stageVanished
  | openScopes (count : Nat) (stage : Stage)
  | outputRole
  | undefinedExpression (id : Nat)
  | textureType (name : String)
  | samplerType (name : String)
  | notBindable (name : String) (role : Role)
  | unbound (name : String)
  | notStruct
  | noValue (name : String)
  | notInput (name : String)
  | notOutput (name : String)
  | voidSpelling
  | memberAccess
  | indexAccess
  | moduloArity
  | textureMissing
  | textureNotDeclared
  | noSampler (name : String)
  | blockNotStruct (name : String)
  | glslResource (name : String)
  | glslSpelling (type : String)
  | cubeArraySpelling
  | zeroValue
  | pointerSpelling
  | binaryOperands
  | remainderType
  | notTexture
  | textureSpelling (f : Intrinsic) (texture : TextureType) (target : Target)

/-- An error of the builder, or the overflow of an addition of machine words, which nothing handles:
it ends the program that uses the builder. -/
inductive ShaderError where
  | parameter (fault : ParameterFault)
  | type (fault : TypeFault)
  | capability (feature : Feature) (target : Target)
  | declaration (fault : DeclarationFault)
  | internal (fault : InternalFault)
  | overflow

/-! ## Wording -/

/-- The text of a fault of shape. -/
def ShapeFault.text : ShapeFault → String
  | matrixSize cols rows =>
    "matrices must have between 2 and 4 columns and rows, got " ++ toString cols.toNat ++ "x" ++
      toString rows.toNat
  | matrixScalar k => "matrices must have floating point components, got " ++ k.name
  | vectorSize rows =>
    "vectors must have between 2 and 4 components, got " ++ toString rows.toNat

/-- The text of a fault of a texture type. -/
def TextureFault.text : TextureFault → String
  | multisampled => "only 2D textures can be multisampled"
  | depthVolume => "3D textures cannot hold depth"

/-- The text between backquotes. -/
def quoted (s : String) : String := "`" ++ s ++ "`"

/-- The text of a wrong argument. -/
def ParameterFault.text : ParameterFault → String
  | unknownTarget name => "unknown target " ++ quoted name
  | shape fault => fault.text
  | texture fault => fault.text
  | identifier name => quoted name ++ " is not a valid identifier"
  | workgroupSize x y z =>
    "workgroup size (" ++ toString x.toNat ++ ", " ++ toString y.toNat ++ ", " ++
      toString z.toNat ++ ") has a null dimension"
  | compoundOperator op => quoted op.symbol ++ " has no compound assignment form"
  | noConstructor type => type ++ " has no constructor"
  | construct type args => "cannot construct " ++ type.text ++ " from (" ++ args ++ ")"
  | valueCount type expected got =>
    type ++ " takes " ++ toString expected ++ " value(s), got " ++ toString got
  | memberValue type expected got => type ++ " expects " ++ expected ++ ", got " ++ got
  | emptyPath => "reflection paths cannot be empty"
  | noTexture f => f.name ++ " expects a texture variable first"
  | textureArguments f t expected got =>
    f.name ++ " on " ++ t.text ++ " expects (" ++ expected ++ "), got (" ++ got ++ ")"

/-- The text of a misplaced value or type. -/
def TypeFault.text : TypeFault → String
  | runtimeElement => "runtime-sized arrays cannot be array elements"
  | arrayElement type => quoted type ++ " cannot be an array element"
  | runtimeTailElement struct =>
    "struct " ++ quoted struct ++
      " ends with a runtime-sized array and cannot be an array element"
  | tooLarge what => what ++ " does not fit in a 32-bit address space"
  | pointee type => "cannot point to a value of type " ++ quoted type
  | swizzleLength mask limit =>
    "swizzle mask " ++ quoted mask ++ " must have between 1 and " ++ toString limit.toNat ++
      " letters"
  | swizzleLetter letter mask =>
    quoted letter.toString ++ " is not a swizzle letter in " ++ quoted mask
  | swizzleMixed mask => "swizzle mask " ++ quoted mask ++ " mixes xyzw and rgba letters"
  | swizzleRange mask letter components =>
    "swizzle mask " ++ quoted mask ++ " selects " ++ quoted letter.toString ++
      " on a vector of " ++ toString components.toNat ++ " components"
  | integerRange value types =>
    "integer literal " ++ toString value ++ " does not fit in " ++ types
  | integerInexact value k =>
    "integer literal " ++ toString value ++ " is not exactly representable as " ++ k.name
  | floatRange value => "float literal " ++ value ++ " is not representable"
  | literal value k => value ++ " cannot be used as " ++ k.name
  | expected what wanted got => what ++ " expects " ++ wanted ++ ", got " ++ got
  | operand operation type =>
    quoted operation ++ " expects scalar, vector or matrix operands, got " ++ type
  | binary op lhs rhs =>
    "cannot apply " ++ quoted op.symbol ++ " to " ++ lhs.text ++ " and " ++ rhs.text
  | unary op p => "cannot apply " ++ op.name ++ " to " ++ p.text
  | cast p k => "cannot cast " ++ p.text ++ " to " ++ k.name
  | memberOf name type =>
    "cannot access member " ++ quoted name ++ " of non-struct type " ++ type
  | noMember struct name => "struct " ++ quoted struct ++ " has no member " ++ quoted name
  | swizzleOf type => "cannot swizzle non-vector type " ++ type
  | indexInto type => "cannot index into " ++ type
  | indexRange index type =>
    "index " ++ toString index ++ " is out of bounds for " ++ type
  | indexType type => "indices must be i32 or u32 scalars, got " ++ type
  | indexLiteral value => "indices must be integers, got " ++ value
  | noAddress => "only variables, or members and elements of variables, have an address"
  | addressOf name role =>
    "cannot take the address of " ++ quoted name ++ " (" ++ role.text ++ ")"
  | deref type => "cannot dereference non-pointer type " ++ type
  | condition type => "conditions must be bool, got " ++ type
  | declared what name type => what ++ " " ++ quoted name ++ " cannot have type " ++ type
  | notAssignable name role => quoted name ++ " (" ++ role.text ++ ") cannot be assigned to"
  | swizzleRepeats mask =>
    "cannot assign through swizzle " ++ quoted mask ++ " selecting a component twice"
  | swizzleWide mask =>
    "WGSL cannot assign through the multi-component swizzle " ++ quoted mask
  | notPlace => "expression cannot be assigned to"
  | compound op target result =>
    quoted (op.symbol ++ "=") ++ " would change the type of its target from " ++ target ++
      " to " ++ result
  | loopBounds first last =>
    "loop bounds must both be i32 or u32, got " ++ first ++ " and " ++ last
  | paramType param function type =>
    "parameter " ++ quoted param ++ " of " ++ quoted function ++ " cannot have type " ++ type
  | noOverload function args =>
    "no overload of " ++ quoted function ++ " accepts (" ++ args ++ ")"
  | returnType type => "functions cannot return " ++ type
  | noIntrinsic f args => "no overload of " ++ f.name ++ " accepts (" ++ args ++ ")"
  | textureUse verb name t =>
    "cannot " ++ verb ++ " texture " ++ quoted name ++ " (" ++ t.text ++ ")"
  | webGLOutput name p =>
    "WebGL fragment outputs must be vec4<f32>, " ++ quoted name ++ " is " ++ p.text
  | paddedRuntime => "runtime-sized arrays padded under std140 can only be indexed"
  | paddedAddress => "cannot take the address of an array or matrix padded under std140"

/-- The text of a misplaced declaration or statement. -/
def DeclarationFault.text : DeclarationFault → String
  | emptyStruct => "structs must have at least one member"
  | duplicateMember name => "duplicate struct member " ++ quoted name
  | memberType name type =>
    "struct member " ++ quoted name ++ " cannot have type " ++ quoted type
  | runtimeNotLast name =>
    "runtime-sized member " ++ quoted name ++ " must be the last member of its struct"
  | structClash name =>
    "struct " ++ quoted name ++ " is already declared with different members"
  | notGlobal what => what ++ " must be declared at global scope"
  | notInFunction what => what ++ " must appear inside a function"
  | alreadyDeclared name => quoted name ++ " is already declared in this scope"
  | undeclared name => quoted name ++ " is not declared"
  | readOnlyParam name => "parameter " ++ quoted name ++ " is read-only"
  | outsideLoop statement => quoted statement ++ " outside of a loop"
  | discardStage => "`discard` is only available in fragment shaders"
  | mainAsFunction => "`main` is defined with `ProgramBuilder::main`"
  | reservedFunction => "`stage_main` is a reserved function name"
  | duplicateFunction name =>
    "function " ++ quoted name ++ " is already defined with the same parameters"
  | missingReturn function =>
    "function " ++ quoted function ++ " does not return a value on every path"
  | secondMain => "`main` is already defined for this stage"
  | returnOutside => "`return` outside of a function"
  | mainReturnsValue => "`main` cannot return a value"
  | returnConflict value type =>
    "return of " ++ value ++ " conflicts with the return type " ++ type ++
      " fixed by an earlier return"
  | emptyReturn => "empty return in a function that returns a value"
  | derivativeStage f => f.name ++ " is only available in fragment shaders"
  | workgroupStage => "workgroup variables only exist in compute shaders"
  | notConstant name =>
    "the value of constant " ++ quoted name ++ " is not a constant expression"
  | workgroupSizeStage => "only compute shaders have a workgroup size"
  | conflict name type role type' role' =>
    quoted name ++ " is declared as " ++ type ++ " (" ++ role.text ++ ") and as " ++ type' ++
      " (" ++ role'.text ++ ")"
  | samplerClash sampler texture =>
    quoted sampler ++ " clashes with the sampler generated for texture " ++ quoted texture
  | attributeStage name =>
    "vertex attribute " ++ quoted name ++ " declared outside of the vertex stage"
  | semanticTaken semantic =>
    "semantic " ++ semantic.name ++ " is already bound to another attribute"
  | computeOutput => "compute shaders have no outputs"
  | builtinStage builtin stage =>
    "built-in " ++ builtin.name ++ " is not available in the " ++ stage.text ++ " stage"
  | noMain stage => "the " ++ stage.text ++ " stage has no main function"

/-- The text of a broken invariant. -/
def InternalFault.text : InternalFault → String
  | noStage => "no shader stage is being built"
  | emptyScopes => "empty scope stack"
  | globalScope => "cannot leave the global scope"
  | detachedElseIf => "`else if` does not follow an `if`"
  | detachedElse => "`else` does not follow an `if`"
  | undefinedFunctionId id => "function #" ++ toString id ++ " is not defined"
  | undefinedFunction name => "function " ++ quoted name ++ " is not defined"
  | reentrant => "a program is already being built; builders are not reentrant"
  | needsReset => "the builder must be reset before compiling another program"
  | stageVanished => "stage state vanished while building"
  | openScopes count stage =>
    toString count ++ " scope(s) left open at the end of the " ++ stage.text ++ " stage"
  | outputRole => "vertex output is not an output variable"
  | undefinedExpression id => "expression #" ++ toString id ++ " is not defined"
  | textureType name => "texture " ++ quoted name ++ " does not have a texture type"
  | samplerType name => "sampler " ++ quoted name ++ " does not have a sampler type"
  | notBindable name role => quoted name ++ " (" ++ role.text ++ ") is not a bindable resource"
  | unbound name => quoted name ++ " was not assigned a binding"
  | notStruct => "declaring a non-struct type as a struct"
  | noValue name => "constant " ++ quoted name ++ " has no value"
  | notInput name => quoted name ++ " is not an input"
  | notOutput name => quoted name ++ " is not an output"
  | voidSpelling => "void has no WGSL spelling"
  | memberAccess => "member access on a non-struct"
  | indexAccess => "indexing a value that is neither an array nor a matrix"
  | moduloArity => "mod takes two arguments"
  | textureMissing => "texture built-in without a texture"
  | textureNotDeclared => "sampling a texture that is not a declaration"
  | noSampler name => "texture " ++ quoted name ++ " has no sampler"
  | blockNotStruct name => "block " ++ quoted name ++ " is not a struct"
  | glslResource name => quoted name ++ " cannot be declared in GLSL ES"
  | glslSpelling type => type ++ " has no GLSL ES spelling"
  | cubeArraySpelling => "cube array textures have no GLSL ES spelling"
  | zeroValue => "zero value of a non-primitive type"
  | pointerSpelling => "pointers have no GLSL ES spelling"
  | binaryOperands => "binary operator on non-primitive operands"
  | remainderType => "remainder of non-primitive type"
  | notTexture => "texture built-in on a non-texture"
  | textureSpelling f t target =>
    f.name ++ " on " ++ t.text ++ " has no " ++ target.text ++ " spelling"

namespace ShaderError

/-- The message of the error. -/
def message : ShaderError → String
  | parameter fault => "parameter error: " ++ fault.text
  | type fault => "type error: " ++ fault.text
  | capability feature target =>
    feature.description ++ " is not supported when targeting " ++ target.text
  | declaration fault => "declaration error: " ++ fault.text
  | internal fault => "internal error: " ++ fault.text
  | overflow => "attempt to add with overflow"

/-- The name of the kind of the error. -/
def kindName : ShaderError → String
  | parameter _ => "Parameter"
  | type _ => "Type"
  | capability _ _ => "Capability"
  | declaration _ => "Declaration"
  | internal _ => "Internal"
  | overflow => "Panic"

end ShaderError

/-- Refuse a feature that the target lacks. -/
def Target.require (t : Target) (f : Feature) : Except ShaderError Unit :=
  if t.supports f then .ok () else .error (.capability f t)

theorem Target.require_eq_ok_iff {t : Target} {f : Feature} :
    t.require f = .ok () ↔ t.supports f = true := by
  unfold Target.require
  split <;> simp_all

/-- Read a target name. -/
def Target.parse (s : String) : Except ShaderError Target :=
  match ofName? s with
  | some t => .ok t
  | none => .error (.parameter (.unknownTarget s))

end WebShader
