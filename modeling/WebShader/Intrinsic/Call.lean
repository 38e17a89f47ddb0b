import WebShader.Function

/-!
# Calls of built-in functions

A function that works on no texture takes the first of its overloads that accepts the arguments. A
function on a texture takes the texture variable, the coordinates, the layer if the texture has
layers, and then what the function itself asks for.
-/

namespace WebShader

/-! ## Overloads -/

/-- Whether the parameters of an overload accept the arguments. -/
def Builder.acceptsParams (b : Builder) : List PrimitiveType → List Value → Bool
  | [], [] => true
  | p :: params, v :: vs => b.acceptsPrimitive p v && b.acceptsParams params vs
  | _, _ => false

namespace Build

/-- The expressions of arguments, host values taking the component types of the parameters. -/
def lowerAll : List (Value × PrimitiveType) → Build (List NodeId)
  | [] => return []
  | (v, p) :: rest => do
    let e ← lower v (some p.scalar)
    return e.node :: (← lowerAll rest)

/-- Call a function that works on no texture. -/
def overloaded (f : Intrinsic) (args : List Value) : Build Expr := do
  let b ← get
  match (f.signatures b.target).find? fun s => b.acceptsParams s.params args with
  | none => throw (.type (.noIntrinsic f (b.describeAll args)))
  | some s =>
    let nodes ← lowerAll (args.zip s.params)
    pushNode (← intern (Interning.primitive s.result)) (.intrinsic f nodes)

/-! ## Textures -/

/-- The texture variable that an argument names, its name and its type. -/
def textureArgument (f : Intrinsic) (arg : Option Value) :
    Build (Expr × String × TextureType) := do
  let b ← get
  let failure := ShaderError.parameter (.noTexture f)
  match arg with
  | some (.expr e) =>
    match (b.varOf? e.node).bind b.var?, b.types.texture? e.type with
    | some v, some t => if v.role.isTexture then return (e, v.name, t) else throw failure
    | _, _ => throw failure
  | _ => throw failure

/-- Whether a texture can be sampled with filtering. -/
def isSampled (t : TextureType) : Bool :=
  !t.sample.isInteger && !t.multisampled && !t.isDepth

/-- The parameters after the texture, the layer left out, and the result of a texel fetch. -/
def fetchSignature (name : String) (t : TextureType) : Build Intrinsic.Signature := do
  require .textureLoad
  if t.dimension = .cube || t.dimension = .cubeArray then
    throw (.type (.textureUse "load from" name t))
  if t.isDepth then require .depthTextureLoad
  let texel := if t.isDepth then PrimitiveType.ofScalar .f32 else .vector t.sample.scalar 4
  return ⟨[.vector .i32 t.coordComponents, .ofScalar .i32], texel⟩

/-- The parameters after the texture, the layer left out, and the result of a function, given the
number of arguments. -/
def textureSignature (f : Intrinsic) (name : String) (t : TextureType) (arity : Nat) :
    Build Intrinsic.Signature := do
  let target := (← get).target
  let coords := PrimitiveType.vector .f32 t.coordComponents
  let depth := PrimitiveType.ofScalar .f32
  match f with
  | .textureSampleCompare =>
    if !t.isDepth || t.multisampled then throw (.type (.textureUse "compare-sample" name t))
    if target = .webGL then
      remark (.warning ("depth comparison on " ++ quoted name ++
        " is emulated with a regular texture lookup on WebGL"))
    return ⟨[coords, depth], depth⟩
  | .textureLoad => fetchSignature name t
  | .textureDimensions =>
    require .textureDimensions
    let index := if target = .webGPU then ScalarKind.u32 else .i32
    let level := if arity > 1 then [PrimitiveType.ofScalar .i32] else []
    return ⟨level, .vector index t.sizeComponents⟩
  | _ =>
    if !isSampled t then throw (.type (.textureUse "sample" name t))
    if f = .textureSampleLevel then
      if target = .webGL && (← stage).decls.stage = .fragment then enable .shaderTextureLod
      return ⟨[coords, depth], .vector .f32 4⟩
    else return ⟨[coords], .vector .f32 4⟩

/-- The parameters with the layer, which follows the coordinates, for textures that have layers. -/
def withLayer (f : Intrinsic) (t : TextureType) (params : List PrimitiveType) :
    List PrimitiveType :=
  if t.isArray && f != .textureDimensions then
    params.take 1 ++ [.ofScalar .i32] ++ params.drop 1
  else params

/-- Call a function on a texture. -/
def textureCall (f : Intrinsic) (args : List Value) : Build Expr := do
  let (texture, name, t) ← textureArgument f args.head?
  let signature ← textureSignature f name t args.length
  let params := withLayer f t signature.params
  let rest := args.drop 1
  let b ← get
  if !b.acceptsParams params rest then
    let expected := ", ".intercalate (params.map (·.text))
    throw (.parameter (.textureArguments f t expected (b.describeAll rest)))
  let nodes ← lowerAll (rest.zip params)
  pushNode (← intern (Interning.primitive signature.result))
    (.intrinsic f (texture.node :: nodes))

/-! ## Calls -/

/-- Refuse a derivative outside of fragments, and enable it where it is an extension. -/
def checkDerivative (f : Intrinsic) : Build Unit := do
  if (← stage).decls.stage ≠ .fragment then throw (.declaration (.derivativeStage f))
  if (← get).target = .webGL then enable .standardDerivatives

/-- Call a built-in function. -/
def intrinsic (f : Intrinsic) (args : List Value) : Build Expr := do
  let _ ← stage
  if let some feature := f.feature? then require feature
  if f.isDerivative then checkDerivative f
  if f.isTexture then textureCall f args else overloaded f args

end Build

end WebShader
