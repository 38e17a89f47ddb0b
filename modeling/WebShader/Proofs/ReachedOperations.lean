import WebShader.Proofs.WithinReach

/-!
# Operations within reach

Constructors, calls, declarations, assignments, returns and tags: each builds on what is within
reach, and gives handles that are. Only the declaration of a constant is left out: it puts the
variable it fails to declare out of reach.
-/

namespace WebShader

namespace Build

variable {r : Reach}

/-! ## Constructors -/

section Constructors

variable {β : Type} {post : β → Prop}

/-- What follows a check of the arguments of a constructor. -/
theorem keepsTo_check {p : PrimitiveType} {args : List Value} {c : Prop} [Decidable c]
    {f : PUnit → Build β} (hf : (f ⟨⟩).KeepsTo r post) :
    KeepsTo (if c then do throw (← constructFailure p args) >>= f else f ⟨⟩) r post :=
  .ite (.conserves_bind (reads_constructFailure _ _).conserves fun _ => .throw_bind _) hf

theorem keepsTo_component (p : PrimitiveType) (args : List Value) {v : Value}
    (hv : v.Holds r.Has) : (component p args v).KeepsTo r r.Has := by
  unfold component
  cases v with
  | expr e => exact .pure hv
  | host h => exact keepsTo_check (keepsTo_lower hv _)

theorem keepsTo_vectorParts (p : PrimitiveType) (args : List Value) (before : Nat)
    {parts : List Value} (hparts : ∀ v ∈ parts, v.Holds r.Has) :
    (vectorParts p args before parts).KeepsTo r fun x => ∀ m ∈ x.1, r.exprs m := by
  induction parts generalizing before with
  | nil => exact .pure (by simp)
  | cons v rest ih =>
      obtain ⟨hv, hrest⟩ := List.forall_mem_cons.mp hparts
      refine (keepsTo_component p args hv).bind fun e he => .get_bind fun b _ => ?_
      split
      · refine keepsTo_check (.ite (.throw_bind _) ((ih _ hrest).bind fun x hx => .pure ?_))
        exact List.forall_mem_cons.mpr ⟨he, hx⟩
      · exact .conserves_bind (reads_constructFailure _ _).conserves fun _ => .throw _

theorem keepsTo_vectorArgs (p : PrimitiveType) {args : List Value}
    (hargs : ∀ v ∈ args, v.Holds r.Has) :
    (vectorArgs p args).KeepsTo r fun ns => ∀ m ∈ ns, r.exprs m := by
  unfold vectorArgs
  split
  · exact .pure (by simp)
  · rename_i e
    have he : r.Has e := hargs (.expr e) List.mem_cons_self
    exact .get_bind fun _ _ => keepsTo_check (.pure (List.forall_mem_singleton.mpr he))
  · rename_i v _
    refine (keepsTo_component p _ (hargs v List.mem_cons_self)).bind fun e he => .pure ?_
    exact List.forall_mem_singleton.mpr he
  · exact (keepsTo_vectorParts p args 0 hargs).bind fun x hx => keepsTo_check (.pure hx)

theorem keepsTo_matrixParts (p part : PrimitiveType) (args : List Value) {parts : List Value}
    (hparts : ∀ v ∈ parts, v.Holds r.Has) :
    (matrixParts p part args parts).KeepsTo r fun ns => ∀ m ∈ ns, r.exprs m := by
  induction parts with
  | nil => exact .pure (by simp)
  | cons v rest ih =>
      obtain ⟨hv, hrest⟩ := List.forall_mem_cons.mp hparts
      refine (keepsTo_component p args hv).bind fun e he => .get_bind fun b _ => ?_
      refine keepsTo_check ((ih hrest).bind fun ns hns => .pure ?_)
      exact List.forall_mem_cons.mpr ⟨he, hns⟩

theorem keepsTo_matrixArgs (p : PrimitiveType) {args : List Value}
    (hargs : ∀ v ∈ args, v.Holds r.Has) :
    (matrixArgs p args).KeepsTo r fun ns => ∀ m ∈ ns, r.exprs m := by
  refine .ite (keepsTo_matrixParts p _ args hargs) (.ite (keepsTo_matrixParts p _ args hargs) ?_)
  refine .ite (.pure (by simp)) ?_
  exact .conserves_bind (reads_constructFailure _ _).conserves fun _ => .throw _

theorem keepsTo_memberParts (what : String) {parts : List (Value × TypeId)}
    (hparts : ∀ x ∈ parts, x.1.Holds r.Has) :
    (memberParts what parts).KeepsTo r fun ns => ∀ m ∈ ns, r.exprs m := by
  induction parts with
  | nil => exact .pure (by simp)
  | cons x rest ih =>
      obtain ⟨v, t⟩ := x
      obtain ⟨hv, hrest⟩ := List.forall_mem_cons.mp hparts
      refine .get_bind fun b _ => .refuse ((keepsTo_coerce hv t what).bind fun e he => ?_)
      exact (ih hrest).bind fun ns hns => .pure (List.forall_mem_cons.mpr ⟨he, hns⟩)

theorem keepsTo_memberArgs (t : TypeId) (count : Nat) (types : List TypeId) {args : List Value}
    (hargs : ∀ v ∈ args, v.Holds r.Has) :
    (memberArgs t count types args).KeepsTo r fun ns => ∀ m ∈ ns, r.exprs m :=
  .get_bind fun _ _ => .refuse
    (keepsTo_memberParts _ fun x hx => hargs x.1 (List.of_mem_zip hx).1)

theorem keepsTo_construct (shape : TypeShape) {args : List Value}
    (hargs : ∀ v ∈ args, v.Holds r.Has) : (construct shape args).KeepsTo r r.Has := by
  refine .conserves_bind (conserves_type shape) fun t => .get_bind fun b _ => ?_
  have hpush : ∀ {act : Build (List NodeId)}, (act.KeepsTo r fun ns => ∀ m ∈ ns, r.exprs m) →
      KeepsTo (do pushNode t (.construct (← act))) r r.Has :=
    fun hact => hact.bind fun ns hns => keepsTo_pushNode t nofun hns
  dsimp only
  split
  · exact .ite (hpush (keepsTo_matrixArgs _ hargs)) (hpush (keepsTo_vectorArgs _ hargs))
  · refine .refuse (.conserves_bind (reads_require _).conserves fun _ => hpush ?_)
    exact keepsTo_memberArgs t _ _ hargs
  · exact hpush (keepsTo_memberArgs t _ _ hargs)
  · exact .throw _

end Constructors

/-! ## Calls -/

section Calls

theorem keepsTo_coerceAll (what : String) {args : List (Value × TypeId)}
    (hargs : ∀ x ∈ args, x.1.Holds r.Has) :
    (coerceAll what args).KeepsTo r fun ns => ∀ m ∈ ns, r.exprs m := by
  induction args with
  | nil => exact .pure (by simp)
  | cons x rest ih =>
      obtain ⟨v, t⟩ := x
      obtain ⟨hv, hrest⟩ := List.forall_mem_cons.mp hargs
      refine (keepsTo_coerce hv t what).bind fun e he => (ih hrest).bind fun ns hns => ?_
      exact .pure (List.forall_mem_cons.mpr ⟨he, hns⟩)

theorem keepsTo_call (name : String) {args : List Value} (hargs : ∀ v ∈ args, v.Holds r.Has) :
    (call name args).KeepsTo r r.Has := by
  refine .stage_bind fun _ s _ _ => .refuse ?_
  refine .conserves_bind (reads_chooseOverload _ _).conserves fun chosen => ?_
  split
  · exact .get_bind fun _ _ => .throw _
  · refine (keepsTo_coerceAll name fun x hx => hargs x.1 (List.of_mem_zip hx).1).bind ?_
    intro ns hns
    refine .bind (keepsTo_pushNode _ nofun hns) fun e he => .get_bind fun _ _ => ?_
    exact .when (conserves_emit _) (.pure he)

theorem keepsTo_lowerAll {args : List (Value × PrimitiveType)}
    (hargs : ∀ x ∈ args, x.1.Holds r.Has) :
    (lowerAll args).KeepsTo r fun ns => ∀ m ∈ ns, r.exprs m := by
  induction args with
  | nil => exact .pure (by simp)
  | cons x rest ih =>
      obtain ⟨v, p⟩ := x
      obtain ⟨hv, hrest⟩ := List.forall_mem_cons.mp hargs
      refine (keepsTo_lower hv _).bind fun e he => (ih hrest).bind fun ns hns => ?_
      exact .pure (List.forall_mem_cons.mpr ⟨he, hns⟩)

theorem keepsTo_overloaded (f : Intrinsic) {args : List Value}
    (hargs : ∀ v ∈ args, v.Holds r.Has) : (overloaded f args).KeepsTo r r.Has := by
  refine .get_bind fun b _ => ?_
  split
  · exact .throw _
  · refine (keepsTo_lowerAll fun x hx => hargs x.1 (List.of_mem_zip hx).1).bind fun ns hns => ?_
    exact .conserves_bind (conserves_intern _) fun t => keepsTo_pushNode t nofun hns

theorem keepsTo_textureArgument (f : Intrinsic) {arg : Option Value}
    (harg : ∀ v, arg = some v → v.Holds r.Has) :
    (textureArgument f arg).KeepsTo r fun x => r.Has x.1 := by
  refine .get_bind fun b _ => ?_
  dsimp only
  split
  · split
    · exact .ite (.pure (harg _ rfl)) (.throw _)
    · exact .throw _
  · exact .throw _

theorem keepsTo_textureCall (f : Intrinsic) {args : List Value}
    (hargs : ∀ v ∈ args, v.Holds r.Has) : (textureCall f args).KeepsTo r r.Has := by
  have hfirst : ∀ v, args.head? = some v → v.Holds r.Has :=
    fun v hv => hargs v (List.mem_of_mem_head? hv)
  refine (keepsTo_textureArgument f hfirst).bind fun (texture, name, t) htexture => ?_
  refine .conserves_bind (conserves_textureSignature _ _ _ _) fun s => ?_
  refine .get_bind fun b _ => .refuse ?_
  have hrest : ∀ x ∈ (args.drop 1).zip (withLayer f t s.params), x.1.Holds r.Has :=
    fun x hx => hargs x.1 (List.mem_of_mem_drop (List.of_mem_zip hx).1)
  refine (keepsTo_lowerAll hrest).bind fun ns hns => ?_
  refine .conserves_bind (conserves_intern _) fun u => ?_
  exact keepsTo_pushNode u nofun (List.forall_mem_cons.mpr ⟨htexture, hns⟩)

theorem keepsTo_intrinsic (f : Intrinsic) {args : List Value}
    (hargs : ∀ v ∈ args, v.Holds r.Has) : (intrinsic f args).KeepsTo r r.Has := by
  have hcall : (if f.isTexture then textureCall f args else overloaded f args).KeepsTo r r.Has :=
    .ite (keepsTo_textureCall f hargs) (keepsTo_overloaded f hargs)
  refine .stage_bind fun _ _ _ _ => ?_
  cases f.feature? with
  | none => exact .when (conserves_checkDerivative f) hcall
  | some feature =>
      exact .conserves_bind (reads_require _).conserves fun _ =>
        .when (conserves_checkDerivative f) hcall

end Calls

/-! ## Declarations -/

section Declarations

/-- The stage may give out what is within reach. -/
theorem keepsTo_modifyStage {g : OpenStage → OpenStage}
    (hhandles : ∀ s, ∀ e ∈ (g s).handles, e ∈ s.handles ∨ r.Has e)
    (hconstants : ∀ s, (g s).decls.constants = s.decls.constants) :
    (modifyStage g).KeepsTo r fun _ => True := by
  refine fun b hb => ⟨?_, fun _ _ => trivial⟩
  cases hs : b.stage with
  | none =>
      rw [Builder.run_modifyStage_of_none hs]
      exact hb
  | some s =>
      rw [Builder.run_modifyStage_of_some hs]
      exact hb.withStage hs (hhandles s) (hconstants s)

theorem keepsTo_declareSymbol (name : String) {e : Expr} (he : r.Has e) :
    (declareSymbol name e).KeepsTo r fun _ => True := by
  intro b hb
  rcases run_declareSymbol_cases b name e with
    ⟨fault, hrun⟩ | ⟨s, f, rest, hs, hframes, -, hrun⟩
  · rw [hrun]
    exact ⟨hb, fun _ _ => trivial⟩
  · rw [hrun]
    refine ⟨hb.withStage hs (fun e' he' => ?_) rfl, fun _ _ => trivial⟩
    exact (OpenStage.mem_handles_of_symbol hframes he').imp_right fun (h : e' = e) => h ▸ he

/-- A variable that is no constant may be declared. -/
theorem keepsTo_newVar (name : String) (t : TypeId) (role : Role) (hrole : role ≠ .constant)
    (init : Option NodeId) : (newVar name t role init).KeepsTo r fun x => r.Has x.2 := by
  refine .conserves_bind (.liftM _) fun _ => .stage_bind fun _ s _ _ b hb => ?_
  -- the variable and its expression are recorded in one go
  have hrecorded := hb.withVar (d := ⟨name, t, role, s.decls.stage, init⟩) hrole
  have hdeclare : KeepsTo (do
      declareSymbol name ⟨⟨b.nodes.size⟩, t⟩
      return ((⟨b.vars.size⟩, ⟨⟨b.nodes.size⟩, t⟩) : VarId × Expr)) r fun x => r.Has x.2 :=
    (keepsTo_declareSymbol name (hb.recent _ le_rfl)).bind fun _ _ => .pure (hb.recent _ le_rfl)
  exact hdeclare _ hrecorded

theorem keepsTo_declareIn (list : DeclList) (hlist : list ≠ .constants) (name : String)
    (t : TypeId) (role : Role) (hrole : role ≠ .constant) (init : Option NodeId) :
    (declareIn list name t role init).KeepsTo r r.Has :=
  (keepsTo_newVar name t role hrole init).bind fun x hx =>
    .conserves_bind (conserves_declare x.1 hlist) fun _ => .pure hx

theorem keepsTo_declare (name : String) (t : TypeId) (init : Option NodeId) :
    (declare name t init).KeepsTo r r.Has :=
  (keepsTo_newVar name t .localVar nofun none).bind fun _ hx =>
    .conserves_bind (conserves_emit _) fun _ => .pure hx

theorem keepsTo_declareLocal (name : String) {init : Value} (hinit : init.Holds r.Has) :
    (declareLocal name init).KeepsTo r r.Has := by
  refine .conserves_bind (reads_requireFunction _).conserves fun _ => ?_
  refine (keepsTo_lower hinit none).bind fun e he => ?_
  exact .conserves_bind (reads_requireSized _ _ _).conserves fun _ => keepsTo_declare name _ _

theorem keepsTo_declareVar (name : String) (shape : TypeShape) :
    (declareVar name shape).KeepsTo r r.Has := by
  refine .conserves_bind (reads_requireFunction _).conserves fun _ => ?_
  refine .conserves_bind (conserves_type shape) fun t => ?_
  exact .conserves_bind (reads_requireSized _ _ _).conserves fun _ => keepsTo_declare name t none

theorem keepsTo_resource (name : String) (t : TypeId) {role : Role} (hrole : role ≠ .constant) :
    (resource name t role).KeepsTo r r.Has :=
  keepsTo_declareIn .resources nofun name t role hrole none

theorem keepsTo_uniformTexture (name : String) (texture : TextureType) (group : UInt32) :
    (uniformTexture name texture group).KeepsTo r r.Has := by
  refine .conserves_bind (reads_requireGlobal _).conserves fun _ => ?_
  refine .conserves_bind (conserves_type _) fun t => .get_bind fun _ _ => ?_
  exact .when (conserves_remark _) (keepsTo_resource name t nofun)

theorem keepsTo_uniformSampler (name : String) (kind : SamplerKind) (group : UInt32) :
    (uniformSampler name kind group).KeepsTo r r.Has := by
  refine .conserves_bind (reads_require _).conserves fun _ => ?_
  refine .conserves_bind (reads_requireGlobal _).conserves fun _ => ?_
  exact .conserves_bind (conserves_type _) fun t => keepsTo_resource name t nofun

theorem keepsTo_uniform (name : String) (shape : TypeShape) (group : UInt32) :
    (uniform name shape group).KeepsTo r r.Has := by
  unfold uniform
  split
  · exact keepsTo_uniformTexture name _ group
  · exact keepsTo_uniformSampler name _ group
  · refine .conserves_bind (reads_requireGlobal _).conserves fun _ => ?_
    refine .conserves_bind (conserves_type shape) fun t => ?_
    refine .conserves_bind (conserves_intern _) fun u => ?_
    refine .conserves_bind (reads_requireSized _ _ _).conserves fun _ => ?_
    exact keepsTo_resource name u nofun

theorem keepsTo_storage (name : String) (shape : TypeShape) (group : UInt32) (readOnly : Bool) :
    (storage name shape group readOnly).KeepsTo r r.Has := by
  refine .conserves_bind (reads_require _).conserves fun _ => ?_
  refine .conserves_bind (reads_requireGlobal _).conserves fun _ => ?_
  refine .conserves_bind (conserves_type shape) fun t => .get_bind fun _ _ => ?_
  exact .refuse (keepsTo_resource name t nofun)

theorem keepsTo_workgroup (name : String) (shape : TypeShape) :
    (workgroup name shape).KeepsTo r r.Has := by
  refine .conserves_bind (reads_require _).conserves fun _ => .stage_bind fun _ s _ _ => .refuse ?_
  refine .conserves_bind (reads_requireGlobal _).conserves fun _ => ?_
  refine .conserves_bind (conserves_type shape) fun t => ?_
  exact .conserves_bind (reads_requireSized _ _ _).conserves fun _ => keepsTo_resource name t nofun

theorem keepsTo_vertexInput (name : String) (shape : TypeShape) (semantic : Semantic) :
    (vertexInput name shape semantic).KeepsTo r r.Has := by
  refine .stage_bind fun _ s _ _ => .refuse ?_
  refine .conserves_bind (reads_requireGlobal _).conserves fun _ => ?_
  refine .conserves_bind (conserves_interfaceType _ name shape) fun (t, p) => ?_
  refine .when (reads_require _).conserves (.get_bind fun _ _ => .stage_bind fun _ _ _ _ => ?_)
  exact .refuse (keepsTo_declareIn .inputs nofun name t (.input _ _) nofun none)

theorem keepsTo_output (name : String) (shape : TypeShape) :
    (output name shape).KeepsTo r r.Has := by
  refine .stage_bind fun _ s _ _ => .refuse ?_
  refine .conserves_bind (reads_requireGlobal _).conserves fun _ => ?_
  refine .conserves_bind (conserves_interfaceType _ name shape) fun (t, p) => ?_
  refine .when (reads_require _).conserves (.stage_bind fun _ _ _ _ => .get_bind fun _ _ => ?_)
  refine .when (conserves_checkColor _ _ _) ?_
  exact keepsTo_declareIn .outputs nofun name t (.output _) nofun none

/-- A built-in gives the handle given before, or a new one. -/
theorem keepsTo_builtin (x : Builtin) : (builtin x).KeepsTo r r.Has := by
  have hfirst : KeepsTo (do
      let target := (← get).target
      let t ← intern (Interning.primitive (x.type target))
      let e ← pushNode t (.builtin x)
      if x = .fragDepth && target = .webGL then enable .fragDepth
      modifyDecls fun d => { d with builtins := d.builtins ++ [(x, e)] }
      return e) r r.Has := by
    refine .get_bind fun _ _ => .conserves_bind (conserves_intern _) fun t => ?_
    refine .bind (keepsTo_pushNode t nofun (by simp [NodeKind.operands])) fun e he => ?_
    have hadd : KeepsTo (modifyDecls fun d => { d with builtins := d.builtins ++ [(x, e)] }) r
        fun _ => True := by
      refine keepsTo_modifyStage (fun s e' he' => ?_) fun _ => rfl
      rcases OpenStage.mem_handles_iff.mp he' with hframes | ⟨y, hy, rfl⟩ | htags
      · exact Or.inl (OpenStage.mem_handles_iff.mpr (Or.inl hframes))
      · rcases List.mem_append.mp hy with hy | hy
        · exact Or.inl (OpenStage.mem_handles_iff.mpr (Or.inr (Or.inl ⟨y, hy, rfl⟩)))
        · rw [List.mem_singleton.mp hy]
          exact Or.inr he
      · exact Or.inl (OpenStage.mem_handles_iff.mpr (Or.inr (Or.inr htags)))
    exact .when (conserves_enable _) (hadd.bind fun _ _ => .pure he)
  refine .stage_bind fun b s hb hs => .refuse ?_
  split
  · rename_i e he
    obtain ⟨y, hy, rfl⟩ := Option.map_eq_some_iff.mp he
    refine .pure (hb.handles _ (Builder.mem_handles_iff.mpr (Or.inr ⟨s, hs, ?_⟩)))
    exact OpenStage.mem_handles_iff.mpr (Or.inr (Or.inl ⟨y, List.mem_of_find?_eq_some hy, rfl⟩))
  · cases x.feature? with
    | none => exact hfirst
    | some feature => exact .conserves_bind (reads_require _).conserves fun _ => hfirst

end Declarations

/-! ## Statements -/

section Statements

/-- What a name stands for is within reach. -/
theorem keepsTo_resolve (name : String) : (resolve name).KeepsTo r r.Has := by
  refine .get_bind fun b hb => ?_
  split
  · exact .pure (hb.handles _ (Builder.mem_handles_of_lookup ‹_›))
  · exact .throw _

theorem keepsTo_assign (target : Expr) {v : Value} (hv : v.Holds r.Has) :
    (assign target v).KeepsTo r fun _ => True := by
  refine .get_bind fun _ _ => .conserves_bind (.liftM _) fun _ => ?_
  exact (keepsTo_coerce hv _ _).bind fun _ _ => .conserves (conserves_emit _)

theorem keepsTo_assignOp (target : Expr) (op : BinaryOp) {v : Value} (hv : v.Holds r.Has) :
    (assignOp target op v).KeepsTo r fun _ => True := by
  refine .refuse (.get_bind fun _ _ => .conserves_bind (.liftM _) fun _ => ?_)
  refine (keepsTo_lowerNear hv _).bind fun e _ => ?_
  refine .conserves_bind (conserves_binaryType _ _ _) fun t => .get_bind fun _ _ => ?_
  exact .refuse (.conserves (conserves_emit _))

theorem keepsTo_assignNamed (name : String) {v : Value} (hv : v.Holds r.Has) :
    (assignNamed name v).KeepsTo r r.Has := by
  refine .get_bind fun b hb => ?_
  split
  · refine (keepsTo_assign _ hv).bind fun _ _ => .pure ?_
    exact hb.handles _ (Builder.mem_handles_of_lookup ‹_›)
  · exact keepsTo_declareLocal name hv

theorem keepsTo_assignBuiltin (x : Builtin) {v : Value} (hv : v.Holds r.Has) :
    (assignBuiltin x v).KeepsTo r fun _ => True :=
  (keepsTo_builtin x).bind fun e _ => keepsTo_assign e hv

theorem keepsTo_returnValue {v : Value} (hv : v.Holds r.Has) :
    (returnValue v).KeepsTo r fun _ => True := by
  have hreturned : ∀ t, (returned v t).KeepsTo r r.Has := by
    intro t
    cases t with
    | none => exact keepsTo_lower hv none
    | some t => exact .tryCatch (keepsTo_coerce hv t _) fun _ => .get_bind fun _ _ => .throw _
  refine .conserves_bind reads_enclosingFunction.conserves fun (isMain, expected) => .refuse ?_
  refine (hreturned expected).bind fun e _ => .get_bind fun _ _ => .refuse (.conserves ?_)
  exact .bind (conserves_setResult _) fun _ => conserves_emit _

theorem keepsTo_tag {e : Expr} (he : r.Has e) (path : String) :
    (tag e path).KeepsTo r fun _ => True := by
  refine .refuse (keepsTo_modifyStage (fun s e' he' => ?_) fun _ => rfl)
  rcases OpenStage.mem_handles_iff.mp he' with hframes | hbuiltins | ⟨x, hx, rfl⟩
  · exact Or.inl (OpenStage.mem_handles_iff.mpr (Or.inl hframes))
  · exact Or.inl (OpenStage.mem_handles_iff.mpr (Or.inr (Or.inl hbuiltins)))
  · rcases mem_putTag hx with hx | rfl
    · exact Or.inl (OpenStage.mem_handles_iff.mpr (Or.inr (Or.inr ⟨x, hx, rfl⟩)))
    · exact Or.inr he

end Statements

end Build

end WebShader
