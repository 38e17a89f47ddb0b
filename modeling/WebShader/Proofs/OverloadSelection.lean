import WebShader.Proofs.AcceptedArguments

/-!
# Selected overloads

A call picks the first function of its name whose parameters accept the arguments. Once a function,
a constructor or an overload of a built-in function has been picked, the arguments are lowered to
expressions of the types that it asks for, and the result is recorded.
-/

namespace WebShader

namespace Build

variable {callees : Callees} {b : Builder} {s : OpenStage} {args : List Value}

/-! ## Functions -/

/-- A function is found by its index. -/
theorem run_function_of_some (hs : b.stage = some s) {i : Nat} {fn : Function}
    (hfn : s.decls.functions[i]? = some fn) : b.run (function ⟨i⟩) = (.ok fn, b) := by
  have hfn : s.decls.function? ⟨i⟩ = some fn := hfn
  unfold function
  rw [Builder.run_bind, Builder.run_stage_of_some hs]
  simp only [hfn]
  rfl

/-- The function of a place does not accept the arguments. -/
def Rejects (b : Builder) (s : OpenStage) (args : List Value) (i : Nat) : Prop :=
  ∃ fn, s.decls.functions[i]? = some fn ∧ acceptsAll b fn.paramTypes args = false

/-- Functions that do not accept the arguments are passed over. -/
theorem run_chooseOverload_of_rejects (hs : b.stage = some s) {is : List Nat}
    (his : ∀ i ∈ is, Rejects b s args i) (rest : List FunctionId) :
    b.run (chooseOverload args (is.map FunctionId.mk ++ rest)) =
      b.run (chooseOverload args rest) := by
  induction is with
  | nil => rfl
  | cons i is ih =>
      obtain ⟨⟨fn, hfn, hrejects⟩, his⟩ := List.forall_mem_cons.mp his
      rw [List.map_cons, List.cons_append, chooseOverload, Builder.run_bind,
        run_function_of_some hs hfn]
      dsimp only
      rw [Builder.run_bind, Builder.run_get]
      dsimp only
      rw [if_neg (by simp [hrejects]), ih his]

/-- A function that accepts the arguments is chosen. -/
theorem run_chooseOverload_of_accepts (hs : b.stage = some s) {i : Nat} {fn : Function}
    (hfn : s.decls.functions[i]? = some fn) (haccepts : acceptsAll b fn.paramTypes args = true)
    (rest : List FunctionId) :
    b.run (chooseOverload args (⟨i⟩ :: rest)) = (.ok (some (⟨i⟩, fn)), b) := by
  rw [chooseOverload, Builder.run_bind, run_function_of_some hs hfn]
  dsimp only
  rw [Builder.run_bind, Builder.run_get]
  dsimp only
  rw [if_pos haccepts]
  rfl

/-! ### Functions of one name -/

/-- The overloads of a name are the functions with that name. -/
theorem mem_overloads_iff {d : StageDecls} {name : String} {f : FunctionId} :
    f ∈ d.overloads name ↔ ∃ fn, d.functions[f.index]? = some fn ∧ fn.name = name := by
  obtain ⟨i⟩ := f
  simp only [StageDecls.overloads, List.mem_map, List.mem_filter, List.mem_range,
    Option.any_eq_true, beq_iff_eq, FunctionId.mk.injEq, exists_eq_right]
  constructor
  · exact fun h => h.2
  · rintro ⟨fn, hfn, hname⟩
    exact ⟨(List.getElem?_eq_some_iff.mp hfn).1, fn, hfn, hname⟩

/-- The functions of a name are looked at in the order in which they were defined. -/
theorem overloads_eq_append {d : StageDecls} {name : String} {i : Nat} {fn : Function}
    (hfn : d.functions[i]? = some fn) (hname : fn.name = name) :
    ∃ (earlier : List Nat) (later : List FunctionId),
      d.overloads name = earlier.map FunctionId.mk ++ ⟨i⟩ :: later ∧
      ∀ j ∈ earlier, j < i ∧ ∃ fn', d.functions[j]? = some fn' ∧ fn'.name = name := by
  obtain ⟨k, hk⟩ : ∃ k, d.functions.length = i + (k + 1) :=
    Nat.exists_eq_add_of_lt (List.getElem?_eq_some_iff.mp hfn).1
  have hrange : List.range d.functions.length =
      List.range i ++ i :: (List.range k).map (i + 1 + ·) := by
    rw [hk, List.range_add, List.range_succ_eq_map, List.map_cons, List.map_map]
    simp only [Nat.add_zero, Function.comp_def, Nat.succ_eq_add_one, Nat.add_assoc, Nat.add_comm 1]
  unfold StageDecls.overloads
  rw [hrange, List.filter_append, List.filter_cons_of_pos (by simp [hfn, hname]), List.map_append,
    List.map_cons]
  refine ⟨_, _, rfl, fun j hj => ?_⟩
  obtain ⟨hlt, hany⟩ := List.mem_filter.mp hj
  rw [Option.any_eq_true] at hany
  obtain ⟨fn', hfn', hname'⟩ := hany
  exact ⟨List.mem_range.mp hlt, fn', hfn', beq_iff_eq.mp hname'⟩

/-! ### Calls -/

/-- Record a call of a function. The call of a function without result is a statement. -/
def recordCall (f : FunctionId) (fn : Function) (nodes : List NodeId) : Build Expr := do
  let e ← pushNode fn.result (.call f nodes)
  if (← get).types.isVoid fn.result then emit (.eval e.node)
  return e

/-- The first function of a name whose parameters accept the arguments is called, with the arguments
lowered to the types of its parameters. -/
theorem run_call_of_accepts (hb : b.Typed callees) (hargs : ∀ v ∈ args, b.Knows v)
    (hs : b.stage = some s) {i : Nat} {fn : Function} (hfn : s.decls.functions[i]? = some fn)
    (haccepts : acceptsAll b fn.paramTypes args = true)
    (hfirst : ∀ j < i, ∀ fn', s.decls.functions[j]? = some fn' → fn'.name = fn.name →
      acceptsAll b fn'.paramTypes args = false) :
    ∃ nodes b', b.run (coerceAll fn.name (args.zip fn.paramTypes)) = (.ok nodes, b') ∧
      b'.HaveTypes nodes fn.paramTypes ∧
      b.run (call fn.name args) = b'.run (recordCall ⟨i⟩ fn nodes) := by
  obtain ⟨nodes, b', hrun, htypes⟩ := lowered_coerceAll hb fn.name hargs haccepts
  refine ⟨nodes, b', hrun, htypes, ?_⟩
  obtain ⟨earlier, later, hoverloads, hearlier⟩ := overloads_eq_append hfn rfl
  have hchoose : b.run (chooseOverload args (s.decls.overloads fn.name)) =
      (.ok (some (⟨i⟩, fn)), b) := by
    rw [hoverloads, run_chooseOverload_of_rejects hs fun j hj => ?_]
    · exact run_chooseOverload_of_accepts hs hfn haccepts later
    · obtain ⟨hlt, fn', hfn', hname⟩ := hearlier j hj
      exact ⟨fn', hfn', hfirst j hlt fn' hfn' hname⟩
  have hne : (s.decls.overloads fn.name).isEmpty = false := by simp [hoverloads]
  unfold call
  rw [Builder.run_bind, Builder.run_stage_of_some hs]
  dsimp only
  rw [if_neg (by simp [hne]), Builder.run_bind, hchoose]
  dsimp only
  rw [Builder.run_bind, hrun]
  rfl

/-- A call fails and changes nothing if no function of its name accepts the arguments. -/
theorem run_call_of_rejects (hs : b.stage = some s) {name : String}
    (h : ∀ fn ∈ s.decls.functions, fn.name = name → acceptsAll b fn.paramTypes args = false) :
    b.run (call name args) =
      (.error (if s.decls.functions.any (·.name == name) then
          .type (.noOverload name (b.describeAll args))
        else .internal (.undefinedFunction name)), b) := by
  unfold call
  rw [Builder.run_bind, Builder.run_stage_of_some hs]
  dsimp only
  split
  · rename_i hempty
    -- no function has the name
    have hnone : s.decls.functions.any (·.name == name) = false := by
      rw [List.any_eq_false]
      intro fn hfn hname
      obtain ⟨i, hi⟩ := List.mem_iff_getElem?.mp hfn
      have hmem : (⟨i⟩ : FunctionId) ∈ s.decls.overloads name :=
        mem_overloads_iff.mpr ⟨fn, hi, beq_iff_eq.mp hname⟩
      rw [List.isEmpty_iff.mp hempty] at hmem
      cases hmem
    rw [hnone]
    rfl
  · rename_i hne
    obtain ⟨f, hf⟩ := List.exists_mem_of_ne_nil (s.decls.overloads name)
      fun hnil => hne (by rw [hnil]; rfl)
    obtain ⟨fn, hfn, hname⟩ := mem_overloads_iff.mp hf
    have hany : s.decls.functions.any (·.name == name) = true :=
      List.any_eq_true.mpr ⟨fn, List.mem_of_getElem? hfn, by simp [hname]⟩
    have hchoose : b.run (chooseOverload args (s.decls.overloads name)) = (.ok none, b) := by
      have hindices : s.decls.overloads name =
          ((s.decls.overloads name).map FunctionId.index).map FunctionId.mk ++ [] := by
        rw [List.map_map, List.append_nil]
        exact (List.map_id _).symm
      rw [hindices, run_chooseOverload_of_rejects hs fun i hi => ?_]
      · rfl
      · obtain ⟨f', hf', rfl⟩ := List.mem_map.mp hi
        obtain ⟨fn', hfn', hname'⟩ := mem_overloads_iff.mp hf'
        exact ⟨fn', hfn', h fn' (List.mem_of_getElem? hfn') hname'⟩
    rw [Builder.run_bind, hchoose, hany]
    rfl

/-! ## Constructors -/

/-- The types of the parts that arrays and structs are built from, where they can be built. -/
def partTypes? (b : Builder) (t : TypeId) : Option (List TypeId) :=
  match b.types.kind t with
  | .array element n =>
    if n = 0 || !b.target.supports .arrayConstructor then none else some (List.replicate n element)
  | .struct s => some (s.members.map (·.type))
  | _ => none

/-- Arguments that are accepted are coerced to the members. -/
theorem run_memberArgs_of_accepts (t : TypeId) {types : List TypeId}
    (haccepts : acceptsAll b types args = true) :
    b.run (memberArgs t types.length types args) =
      b.run (coerceAll (b.types.display t) (args.zip types)) := by
  unfold memberArgs
  rw [Builder.run_bind, Builder.run_get]
  dsimp only
  rw [if_neg (by simp [length_of_acceptsAll haccepts]), run_memberParts _ haccepts]

/-- An array or a struct is built from what its parts accept, lowered to the types of the parts. -/
theorem run_construct_of_accepts (hb : b.Typed callees) (hargs : ∀ v ∈ args, b.Knows v)
    {shape : TypeShape} {t : TypeId} {b₁ : Builder} (hshape : b.run (type shape) = (.ok t, b₁))
    {types : List TypeId} (htypes : partTypes? b₁ t = some types)
    (haccepts : acceptsAll b₁ types args = true) :
    ∃ nodes b₂, b₁.run (coerceAll (b₁.types.display t) (args.zip types)) = (.ok nodes, b₂) ∧
      b₂.HaveTypes nodes types ∧
      b.run (construct shape args) = b₂.run (pushNode t (.construct nodes)) := by
  obtain ⟨hext, hb₁, -⟩ := ensures_type hb shape
  rw [hshape] at hext hb₁
  obtain ⟨nodes, b₂, hrun, hnodes⟩ := lowered_coerceAll hb₁ (b₁.types.display t)
    (fun v hv => (hargs v hv).of_extends hext) haccepts
  refine ⟨nodes, b₂, hrun, hnodes, ?_⟩
  rw [← run_memberArgs_of_accepts t haccepts] at hrun
  unfold construct
  rw [Builder.run_bind, hshape]
  dsimp only
  rw [Builder.run_bind, Builder.run_get]
  dsimp only
  -- only arrays and structs are made of parts that have types of their own
  unfold partTypes? at htypes
  split at htypes
  · rename_i element n hkind
    split at htypes
    · cases htypes
    · rename_i hbuilt
      simp only [Bool.or_eq_true, decide_eq_true_eq, Bool.not_eq_true', not_or,
        Bool.not_eq_false] at hbuilt
      obtain ⟨hn, hsupports⟩ := hbuilt
      obtain rfl := Option.some.inj htypes
      have hlength : n = args.length := by
        rw [← length_of_acceptsAll haccepts, List.length_replicate]
      have hrequire : b₁.run (require .arrayConstructor) = (.ok (), b₁) := by
        rw [require, Builder.run_bind, Builder.run_get]
        dsimp only
        rw [Builder.run_liftM, Target.require_eq_ok_iff.mpr hsupports]
      rw [List.length_replicate] at hrun
      simp only [hkind, hn, if_false]
      rw [Builder.run_bind, hrequire]
      dsimp only
      rw [Builder.run_bind, List.map_const', ← hlength, hrun]
  · rename_i st hkind
    obtain rfl := Option.some.inj htypes
    rw [List.length_map] at hrun
    simp only [hkind]
    rw [Builder.run_bind, hrun]
  · cases htypes

/-! ## Built-in functions -/

/-- What is checked before a call of a built-in function is resolved. -/
def checkIntrinsic (f : Intrinsic) : Build Unit := do
  let _ ← stage
  if let some feature := f.feature? then require feature
  if f.isDerivative then checkDerivative f

/-- A call of a built-in function is checked before its arguments are looked at. -/
theorem intrinsic_eq (f : Intrinsic) (args : List Value) : intrinsic f args = (do
    checkIntrinsic f
    if f.isTexture then textureCall f args else overloaded f args) := by
  unfold intrinsic checkIntrinsic
  cases f.feature? <;> cases f.isDerivative <;> simp

theorem ensures_checkIntrinsic (hb : b.Typed callees) (f : Intrinsic) :
    (checkIntrinsic f).Ensures callees b fun _ _ => True := by
  have hderivative : ∀ b', b'.Typed callees → Ensures (do
      if f.isDerivative then checkDerivative f) callees b' fun _ _ => True :=
    fun b' hb' => .ite (fun _ => ensures_checkDerivative hb' f) fun _ => .pure hb' trivial
  refine .reads_bind hb reads_stage fun _ _ => ?_
  cases f.feature? with
  | none => exact hderivative b hb
  | some feature => exact .reads_bind hb (reads_require _) fun _ _ => hderivative b hb

theorem follows_checkIntrinsic (f : Intrinsic) : Follows Builder.Adds (checkIntrinsic f) := by
  unfold checkIntrinsic
  grind

/-- A built-in function on no texture is refused if no overload accepts the arguments. -/
theorem run_overloaded_of_rejects {f : Intrinsic}
    (h : (f.signatures b.target).find? (fun sig => b.acceptsParams sig.params args) = none) :
    b.run (overloaded f args) = (.error (.type (.noIntrinsic f (b.describeAll args))), b) := by
  unfold overloaded
  rw [Builder.run_bind, Builder.run_get]
  simp only [h]
  rfl

/-- The first overload that accepts the arguments is called, with the arguments lowered to the types
of its parameters; the target has their components. -/
theorem run_overloaded_of_accepts (hb : b.Typed callees) (hsupported : b.Supported)
    (hargs : ∀ v ∈ args, b.Knows v) {f : Intrinsic} {sig : Intrinsic.Signature}
    (h : (f.signatures b.target).find? (fun sig => b.acceptsParams sig.params args) = some sig) :
    (∀ p ∈ sig.result :: sig.params, b.target.supportsScalar p.scalar = true) ∧
    ∃ nodes b', b.run (lowerAll (args.zip sig.params)) = (.ok nodes, b') ∧
      b'.HavePrimitives nodes sig.params ∧
      b.run (overloaded f args) = b'.run (do
        pushNode (← intern (Interning.primitive sig.result)) (.intrinsic f nodes)) := by
  obtain ⟨k, hk, hsupports⟩ := hsupported.of_find? h
  have hparams : ∀ p ∈ sig.params, b.target.supportsScalar p.scalar = true := fun p hp => by
    rwa [hk.params p hp]
  refine ⟨List.forall_mem_cons.mpr ⟨by rwa [hk.result], hparams⟩, ?_⟩
  have haccepts : b.acceptsParams sig.params args = true := by simpa using List.find?_some h
  obtain ⟨nodes, b', hrun, hnodes⟩ := lowered_lowerAll hb hargs haccepts hparams
  refine ⟨nodes, b', hrun, hnodes, ?_⟩
  unfold overloaded
  rw [Builder.run_bind, Builder.run_get]
  simp only [h]
  rw [Builder.run_bind, hrun]

/-! ### Textures -/

/-- What a function on a texture asks for has components that every target has. -/
theorem supportsScalar_of_mem_withLayer (target : Target) (f : Intrinsic) (t : TextureType)
    (arity : Nat) {p : PrimitiveType}
    (hp : p ∈ withLayer f t (f.textureSignature target t arity).params) (target' : Target) :
    target'.supportsScalar p.scalar = true := by
  have hkinds : ∀ q ∈ (f.textureSignature target t arity).params,
      target'.supportsScalar q.scalar = true := by
    intro q hq
    unfold Intrinsic.textureSignature at hq
    split at hq
    · rcases List.mem_pair.mp hq with rfl | rfl <;> rfl
    · rcases List.mem_pair.mp hq with rfl | rfl <;> rfl
    · rcases List.mem_pair.mp hq with rfl | rfl <;> rfl
    · split at hq
      · rw [List.mem_singleton.mp hq]
        rfl
      · cases hq
    · rw [List.mem_singleton.mp hq]
      rfl
  unfold withLayer at hp
  split at hp
  · rcases List.mem_append.mp hp with hp | hp
    · rcases List.mem_append.mp hp with hp | hp
      · exact hkinds p (List.mem_of_mem_take hp)
      · rw [List.mem_singleton.mp hp]
        rfl
    · exact hkinds p (List.mem_of_mem_drop hp)
  · exact hkinds p hp

/-- A function on a texture is called with the arguments that it asks for lowered to their types;
the target has their components. -/
theorem run_textureCall_of_accepts (hb : b.Typed callees) (hargs : ∀ v ∈ args, b.Knows v)
    {f : Intrinsic} {texture : Expr} {name : String} {t : TextureType} {sig : Intrinsic.Signature}
    {b₁ b₂ : Builder}
    (htexture : b.run (textureArgument f args.head?) = (.ok (texture, name, t), b₁))
    (hsig : b₁.run (textureSignature f name t args.length) = (.ok sig, b₂))
    (haccepts : b₂.acceptsParams (withLayer f t sig.params) (args.drop 1) = true) :
    (∀ p ∈ sig.result :: withLayer f t sig.params, b₂.target.supportsScalar p.scalar = true) ∧
    ∃ nodes b', b₂.run (lowerAll ((args.drop 1).zip (withLayer f t sig.params))) = (.ok nodes, b') ∧
      b'.HavePrimitives nodes (withLayer f t sig.params) ∧
      b.run (textureCall f args) = b'.run (do
        pushNode (← intern (Interning.primitive sig.result))
          (.intrinsic f (texture.node :: nodes))) := by
  obtain ⟨hext₁, hb₁, -⟩ := ensures_textureArgument hb f args.head?
  rw [htexture] at hext₁ hb₁
  obtain ⟨hext₂, hb₂, hpost⟩ := ensures_textureSignature hb₁ f name t args.length
  have hpure : f.textureSignature b₁.target t args.length = sig := hpost sig b₂ hsig
  have hresult := delivers_textureSignature (C := fun _ => True) f name t args.length b₁ sig b₂
    trivial hsig
  rw [hsig] at hext₂ hb₂
  have hparams : ∀ p ∈ withLayer f t sig.params, b₂.target.supportsScalar p.scalar = true := by
    intro p hp
    rw [← hpure] at hp
    exact supportsScalar_of_mem_withLayer b₁.target f t args.length hp b₂.target
  refine ⟨List.forall_mem_cons.mpr ⟨hresult, hparams⟩, ?_⟩
  have hrest : ∀ v ∈ args.drop 1, b₂.Knows v := fun v hv =>
    (hargs v (List.mem_of_mem_drop hv)).of_extends (hext₁.trans hext₂)
  obtain ⟨nodes, b', hrun, hnodes⟩ := lowered_lowerAll hb₂ hrest haccepts hparams
  refine ⟨nodes, b', hrun, hnodes, ?_⟩
  unfold textureCall
  rw [Builder.run_bind, htexture]
  dsimp only
  rw [Builder.run_bind, hsig]
  dsimp only
  rw [Builder.run_bind, Builder.run_get]
  dsimp only
  rw [if_neg (by rw [haccepts]; decide), Builder.run_bind, hrun]

end Build

end WebShader
