import WebShader.Proofs.OverloadSelection
import WebShader.Proofs.IndifferentRelations
import WebShader.Proofs.TypedScripts

/-!
# Scripts keep to the types of their target

No script, whichever of its steps fail, registers a type whose components the target lacks, or opens
a stage that the target lacks. So whatever a call, a constructor or a built-in function selects in a
script is lowered.
-/

namespace WebShader

/-! ## What the target has -/

namespace Builder

variable {b b' : Builder} {s s' : OpenStage}

/-- The target of a builder still has what it had before. -/
def StaysSupported (b b' : Builder) : Prop := b.Supported → b'.Supported

instance : IsAdditive StaysSupported where
  refl _ := id
  trans _ _ _ h h' hb := h' (h hb)
  of_adds _ _ h := h.supported

/-- A stage of the same kind is as good as another. -/
theorem Supported.withStage (hb : b.Supported) (hs : b.stage = some s)
    (h : s'.decls.stage = s.decls.stage) : Supported { b with stage := some s' } := by
  refine ⟨hb.types, fun hcompute => hb.stage ?_⟩
  rw [currentStage, hs]
  exact (congrArg some h).symm.trans hcompute

/-- What is registered when a program is finished is supported. -/
theorem Supported.finished (hb : b.Supported) : b.finished.Supported :=
  ⟨hb.types, fun h => by cases h⟩

end Builder

namespace Build

open Builder

variable {b : Builder}

/-- A change of the declarations of the stage. -/
theorem staysSupported_modifyStage {f : OpenStage → OpenStage}
    (hf : ∀ s, (f s).decls.stage = s.decls.stage) : Follows StaysSupported (modifyStage f) := by
  intro b hb
  cases hs : b.stage with
  | none =>
      rw [Builder.run_modifyStage_of_none hs]
      exact hb
  | some s =>
      rw [Builder.run_modifyStage_of_some hs]
      exact hb.withStage hs (hf s)

/-- A function that is added needs no feature. -/
theorem staysSupported_addFunction (fn : Function) : Follows StaysSupported (addFunction fn) :=
  .bind follows_stage fun _ => .bind (staysSupported_modifyStage fun _ => rfl) fun _ => .pure _

/-- A new variable needs no feature. -/
theorem staysSupported_newVar (name : String) (t : TypeId) (role : Role) (init : Option NodeId) :
    Follows StaysSupported (newVar name t role init) := by
  intro b hb
  rcases run_newVar_cases b name t role init with
    ⟨fault, b', hrun, rfl | ⟨d, rfl⟩⟩ | ⟨s, f, rest, e, hs, -, -, hrun⟩
  · rw [hrun]
    exact hb
  · rw [hrun]
    exact ⟨hb.types, hb.stage⟩
  · rw [hrun]
    exact hb.withStage hs rfl

end Build

/-! ## Whatever runs -/

/-- Whatever a stage holds, it is one that the target has. -/
instance : IsFullyIndifferent Builder.StaysSupported where
  newVar := Build.staysSupported_newVar
  modifyStage hstage _ := Build.staysSupported_modifyStage hstage
  addFunction _ := Build.staysSupported_addFunction _

/-- A scope that is left keeps to the types of the target. -/
theorem Builder.Leaves.supported {kind : ScopeKind} {b b' : Builder} {f : Frame}
    (h : b.Leaves StaysSupported kind f b') : b.StaysSupported b' := by
  obtain ⟨-, s, b₁, hs, hbody, hpop⟩ := h
  intro hb
  have hpopped := Build.indifferent_popScope (R := StaysSupported) b₁ (hbody (hb.withStage hs rfl))
  rwa [hpop] at hpopped

/-- Whatever a script does, a builder stays supported. -/
instance : IsTraced Builder.StaysSupported where
  newVar := Build.staysSupported_newVar
  inherit _ := Build.staysSupported_modifyStage fun _ => rfl
  operation {_ _ n' _ _} _ _ hop h :=
    Script.indifferent_operation Builder.StaysSupported hop h (_, n')
  reset _ _ := Builder.supported_new _
  leave h := h.supported
  stuck _ hs hbody _ hb := hbody (hb.withStage hs rfl)
  construct hleaves h _ _ _ hb :=
    Build.indifferent_emit (R := Builder.StaysSupported) _ _ (h (hleaves.supported hb))
  extend failure hleaves _ _ hb :=
    Build.indifferent_extendLast (R := Builder.StaysSupported) failure _ _ (hleaves.supported hb)
  func {name _ f b₁ b₂ _} fn hleaves hresult _ _ hb := by
    have hsupported := Build.follows_resultType (R := Builder.StaysSupported) name f b₁
    rw [hresult] at hsupported
    exact Build.staysSupported_addFunction fn b₂ (hsupported (hleaves.supported hb))
  main {_ f b₁} hleaves hb := by
    have hmain : Build.Follows Builder.StaysSupported
        (Build.modifyStage fun s => { s with main := some f.body }) :=
      Build.staysSupported_modifyStage fun _ => rfl
    exact hmain b₁ (hleaves.supported hb)
  finish _ hb := hb.finished
  stage {b b' which} hwhich h hb := by
    have hopened : (b.opened which).Supported :=
      ⟨hb.types, fun hs => hwhich (Option.some.inj hs)⟩
    exact (h hopened).finished

/-! ## Selections -/

namespace Builder

open Build

variable (b : Builder) (args : List Value)

/-- A call fails and changes nothing if no function of its name accepts the arguments. The first
function of a name that does, in the order of their definitions, is called: the arguments are
lowered, and the expressions have the types of its parameters. -/
def CallsFirst : Prop := ∀ s, b.stage = some s →
  (∀ name, (∀ fn ∈ s.decls.functions, fn.name = name → acceptsAll b fn.paramTypes args = false) →
    b.run (call name args) =
      (.error (if s.decls.functions.any (·.name == name) then
          .type (.noOverload name (b.describeAll args))
        else .internal (.undefinedFunction name)), b)) ∧
  ∀ i fn, s.decls.functions[i]? = some fn → acceptsAll b fn.paramTypes args = true →
    (∀ j < i, ∀ fn', s.decls.functions[j]? = some fn' → fn'.name = fn.name →
      acceptsAll b fn'.paramTypes args = false) →
    ∃ nodes b', b.run (coerceAll fn.name (args.zip fn.paramTypes)) = (.ok nodes, b') ∧
      b'.HaveTypes nodes fn.paramTypes ∧
      b.run (call fn.name args) = b'.run (recordCall ⟨i⟩ fn nodes)

/-- The constructor of an array or a struct whose parts accept the arguments lowers them, and the
expressions have the types of the parts. Otherwise it refuses an argument that is not accepted: it
never fails to lower one that is. -/
def BuildsParts : Prop :=
  (∀ shape t b₁ types, b.run (type shape) = (.ok t, b₁) → partTypes? b₁ t = some types →
    acceptsAll b₁ types args = true →
    ∃ nodes b₂, b₁.run (coerceAll (b₁.types.display t) (args.zip types)) = (.ok nodes, b₂) ∧
      b₂.HaveTypes nodes types ∧
      b.run (construct shape args) = b₂.run (pushNode t (.construct nodes))) ∧
  ∀ what types e b', b.run (memberParts what (args.zip types)) = (.error e, b') →
    ∃ v t, (v, t) ∈ args.zip types ∧ b'.accepts t v = false ∧
      e = .parameter (.memberValue what (b'.types.display t) (b'.describe v))

/-- The first overload of a built-in function that accepts the arguments is called: the target has
the component types of its parameters and its result, the arguments are lowered, and the expressions
have the types of its parameters. -/
def CallsOverload (f : Intrinsic) : Prop := f.isTexture = false →
  ∀ b₁, b.run (checkIntrinsic f) = (.ok (), b₁) →
    match (f.signatures b₁.target).find? fun sig => b₁.acceptsParams sig.params args with
    | none => b.run (intrinsic f args) = (.error (.type (.noIntrinsic f (b₁.describeAll args))), b₁)
    | some sig =>
      (∀ p ∈ sig.result :: sig.params, b₁.target.supportsScalar p.scalar = true) ∧
      ∃ nodes b', b₁.run (lowerAll (args.zip sig.params)) = (.ok nodes, b') ∧
        b'.HavePrimitives nodes sig.params ∧
        b.run (intrinsic f args) = b'.run (do
          pushNode (← intern (Interning.primitive sig.result)) (.intrinsic f nodes))

/-- A function on a texture whose parameters accept the arguments after the texture is called: the
target has the component types of its parameters and its result, the arguments are lowered, and the
expressions have the types of its parameters. -/
def CallsTexture (f : Intrinsic) : Prop := f.isTexture = true →
  ∀ b₁ texture name t b₂ sig b₃, b.run (checkIntrinsic f) = (.ok (), b₁) →
    b₁.run (textureArgument f args.head?) = (.ok (texture, name, t), b₂) →
    b₂.run (textureSignature f name t args.length) = (.ok sig, b₃) →
    b₃.acceptsParams (withLayer f t sig.params) (args.drop 1) = true →
    (∀ p ∈ sig.result :: withLayer f t sig.params, b₃.target.supportsScalar p.scalar = true) ∧
    ∃ nodes b', b₃.run (lowerAll ((args.drop 1).zip (withLayer f t sig.params))) = (.ok nodes, b') ∧
      b'.HavePrimitives nodes (withLayer f t sig.params) ∧
      b.run (intrinsic f args) = b'.run (do
        pushNode (← intern (Interning.primitive sig.result)) (.intrinsic f (texture.node :: nodes)))

variable {b args} {callees : Callees}

/-- A call of a user function finds its first overload. -/
theorem Typed.callsFirst (hb : b.Typed callees) (hargs : ∀ v ∈ args, b.Knows v) :
    b.CallsFirst args := by
  intro s hs
  refine ⟨fun name h => run_call_of_rejects hs h, fun i fn hfn haccepts hfirst => ?_⟩
  exact run_call_of_accepts hb hargs hs hfn haccepts hfirst

/-- A constructor builds from the parts it is given. -/
theorem Typed.buildsParts (hb : b.Typed callees) (hargs : ∀ v ∈ args, b.Knows v) :
    b.BuildsParts args := by
  refine ⟨fun shape t b₁ types hshape htypes haccepts => ?_, fun what types e b' h => ?_⟩
  · exact run_construct_of_accepts hb hargs hshape htypes haccepts
  · exact refused_of_memberParts hb (fun x hx => hargs x.1 (List.of_mem_zip hx).1) h

/-- The checks before a call of a built-in function keep what is relied on to resolve it. -/
theorem Typed.of_run_checkIntrinsic (hb : b.Typed callees) (hargs : ∀ v ∈ args, b.Knows v)
    {f : Intrinsic} {b₁ : Builder} (h : b.run (checkIntrinsic f) = (.ok (), b₁)) :
    b₁.Typed callees ∧ (∀ v ∈ args, b₁.Knows v) ∧ b.Adds b₁ := by
  obtain ⟨hext, hb₁, -⟩ := ensures_checkIntrinsic hb f
  have hadds := follows_checkIntrinsic f b
  rw [h] at hext hb₁ hadds
  exact ⟨hb₁, fun v hv => (hargs v hv).of_extends hext, hadds⟩

/-- A call of a built-in function finds its first overload. -/
theorem Typed.callsOverload (hb : b.Typed callees) (hsupported : b.Supported)
    (hargs : ∀ v ∈ args, b.Knows v) (f : Intrinsic) : b.CallsOverload args f := by
  intro hf b₁ hcheck
  obtain ⟨hb₁, hargs₁, hadds⟩ := hb.of_run_checkIntrinsic hargs hcheck
  have hcall : b.run (intrinsic f args) = b₁.run (overloaded f args) := by
    rw [intrinsic_eq, Builder.run_bind, hcheck]
    simp [hf]
  rw [hcall]
  split
  · exact run_overloaded_of_rejects ‹_›
  · exact run_overloaded_of_accepts hb₁ (hadds.supported hsupported) hargs₁ ‹_›

/-- A call that reads a texture finds its signature. -/
theorem Typed.callsTexture (hb : b.Typed callees) (hargs : ∀ v ∈ args, b.Knows v) (f : Intrinsic) :
    b.CallsTexture args f := by
  intro hf b₁ texture name t b₂ sig b₃ hcheck htexture hsig haccepts
  obtain ⟨hb₁, hargs₁, -⟩ := hb.of_run_checkIntrinsic hargs hcheck
  have hcall : b.run (intrinsic f args) = b₁.run (textureCall f args) := by
    rw [intrinsic_eq, Builder.run_bind, hcheck]
    simp [hf]
  rw [hcall]
  exact run_textureCall_of_accepts hb₁ hargs₁ htexture hsig haccepts

end Builder

namespace Script

/-- From a new builder on, a script only leads to sessions whose builders keep to what their target
has, whichever of its steps fail. In these, a call picks the first function of its name that accepts
the arguments, and fails if none does; and once a function, the constructor of an array or a struct,
or an overload of a built-in function accepts its arguments, they are lowered to expressions of the
types that it asks for, which for a built-in function are types that the target has. -/
theorem selections_lowered :
    (∀ config, (Builder.new config).Supported) ∧
    (∀ (s : Session) (n : Notes), s.Reachable → s.KnowsNames n → s.builder.Supported →
      ∀ (tolerant : Bool) (steps : Script), ∃ s' : Session, s'.Reachable ∧
        s'.builder.Supported ∧ s'.builder = (runAll tolerant steps (s.builder, n)).2.1 ∧
        s'.KnowsNames (runAll tolerant steps (s.builder, n)).2.2) ∧
    ∀ (s : Session) (args : List Value), s.Reachable → s.builder.Supported →
      (∀ v ∈ args, s.Knows v) →
      s.builder.CallsFirst args ∧ s.builder.BuildsParts args ∧
      ∀ f, s.builder.CallsOverload args f ∧ s.builder.CallsTexture args f := by
  refine ⟨Builder.supported_new, fun s n hs hn hsupported tolerant steps => ?_,
    fun s args hs hsupported hargs => ?_⟩
  · obtain ⟨s', hs', hleads, hb, hn', -⟩ :=
      traces_runAll (R := Builder.StaysSupported) tolerant steps s n hs hn
    exact ⟨s', hs', hleads.2 hsupported, hb, hn'⟩
  · have hb := hs.typed.builder
    have hargs : ∀ v ∈ args, s.builder.Knows v := fun v hv => hs.typed.knows (hargs v hv)
    exact ⟨hb.callsFirst hargs, hb.buildsParts hargs,
      fun f => ⟨hb.callsOverload hsupported hargs f, hb.callsTexture hargs f⟩⟩

/-- Two functions of one name, after a step that fails. -/
def doubles : Script :=
  [(true, .operation (.unary .not (.host (.int 1))) none),
    (false, .func "double" [("x", .primitive (.ofScalar .i32))]
      [(false, .operation (.binary .add (.named "x") (.named "x")) (some "sum")),
        (false, .operation (.returnValue (.named "sum")) none)]),
    (false, .func "double" [("x", .primitive (.ofScalar .f32))]
      [(false, .operation (.binary .add (.named "x") (.named "x")) (some "sum")),
        (false, .operation (.returnValue (.named "sum")) none)])]

/-- A float is passed to the second of the functions, the first one of the name that accepts it. -/
theorem doubles_selected : ∃ (s : Session) (st : OpenStage) (fn : Function) (nodes : List NodeId)
    (b' : Builder), s.Reachable ∧ s.builder.Supported ∧ s.builder.stage = some st ∧
    st.decls.functions[1]? = some fn ∧ b'.HaveTypes nodes fn.paramTypes ∧
    s.builder.run (Build.call fn.name [.host (.float (.finite false 5 (-1)))]) =
      b'.run (Build.recordCall ⟨1⟩ fn nodes) := by
  obtain ⟨hnew, hscript, hselect⟩ := selections_lowered
  let b := (Builder.new { target := .webGL }).opened .fragment
  let args : List Value := [.host (.float (.finite false 5 (-1)))]
  have hopened : Session.Reachable (Session.after { builder := .new { target := .webGL } } b []) :=
    .opened .fragment (.new { target := .webGL })
  have hsupported : b.Supported := ⟨(hnew { target := .webGL }).types, by decide⟩
  obtain ⟨s, hs, hsupported, hb, -⟩ :=
    hscript _ {} hopened (by simp [Session.KnowsNames]) hsupported false doubles
  obtain ⟨hcalls, -⟩ := hselect s args hs hsupported (by simp [args, Session.Knows, Value.Holds])
  have hfunctions : (s.builder.stage.bind fun st => do
      let first ← st.decls.functions[0]?
      let second ← st.decls.functions[1]?
      return (Build.acceptsAll s.builder first.paramTypes args,
        Build.acceptsAll s.builder second.paramTypes args)) = some (false, true) := by
    rw [hb]
    decide +kernel
  obtain ⟨st, hst, hfunctions⟩ := Option.bind_eq_some_iff.mp hfunctions
  obtain ⟨first, hfirst, hfunctions⟩ := Option.bind_eq_some_iff.mp hfunctions
  obtain ⟨second, hsecond, haccepts⟩ := Option.bind_eq_some_iff.mp hfunctions
  obtain ⟨hrejects, haccepts⟩ := Prod.mk.inj (Option.some.inj haccepts)
  obtain ⟨nodes, b', -, htypes, hcall⟩ :=
    (hcalls st hst).2 1 second hsecond haccepts fun j hj fn' hfn' _ => by
      obtain rfl : j = 0 := by omega
      rwa [← Option.some.inj (hfirst.symm.trans hfn')]
  exact ⟨s, st, second, nodes, b', hs, hsupported, hst, hsecond, htypes, hcall⟩

end Script

end WebShader
