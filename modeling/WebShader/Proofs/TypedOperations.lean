import WebShader.Proofs.TypedCalls

/-!
# Operations follow the rules

Declarations, assignments, returns and tags: variables are declared with registered types, and every
operation leaves a builder typed and gives a handle that carries the type of its expression.
-/

namespace WebShader

/-! ## Registered types -/

namespace Registry

variable {r : Registry} {t : TypeId}

/-- A type with a kind is registered. -/
theorem lt_size_of_kind_ne_void (h : r.kind t ≠ .void) : t.index < r.size :=
  Nat.lt_of_not_le fun hle => h (kind_eq_void_of_le hle)

/-- A type with a size is registered. -/
theorem lt_size_of_isSized (h : (r.kind t).isSized = true) : t.index < r.size :=
  lt_size_of_kind_ne_void fun hvoid => by
    rw [hvoid] at h
    cases h

end Registry

namespace Builder

variable {b : Builder} {callees : Callees}

/-- The rules dictate registered types, but for what functions return. -/
theorem Dictates.lt_size (hb : b.HasSoundTypes) {n : NodeId} {kind : NodeKind} {t : TypeId}
    (h : b.Dictates callees n kind t) (hcall : ∀ f args, kind ≠ .call f args) :
    t.index < b.types.size := by
  have hprimitive : ∀ {t p}, b.types.kind t = .primitive p → t.index < b.types.size :=
    fun ht => Registry.lt_size_of_kind_ne_void (by simp [ht])
  cases h with
  | literal ht | builtin ht => exact hprimitive ht
  | swizzle _ _ ht | component _ _ ht => exact hprimitive ht
  | unary _ ht => exact hprimitive ht
  | binary _ _ _ ht => exact hprimitive ht
  | overload _ _ ht => exact hprimitive ht
  | texture _ _ _ _ _ ht => exact hprimitive ht
  | var hv => exact hb.vars _ _ hv
  | member _ hu hm =>
      apply hb.sound.part_lt_size
      rw [hu]
      exact List.mem_map_of_mem (List.mem_of_getElem? hm)
  | element _ hu => exact hb.sound.part_lt_size (by rw [hu]; exact List.mem_cons_self)
  | construct _ hbuilds =>
      refine Registry.lt_size_of_kind_ne_void fun hvoid => ?_
      rw [hvoid] at hbuilds
      cases hbuilds
  | call => exact absurd rfl (hcall _ _)
  | addressOf _ ht => exact Registry.lt_size_of_kind_ne_void (by simp [ht])
  | deref _ hu => exact hb.sound.part_lt_size (by rw [hu]; exact List.mem_cons_self)

/-- The type of a constant expression is registered. -/
theorem Typed.lt_size_of_isConstant (hb : b.Typed callees) {e : Expr} (he : b.Carries e)
    (hconstant : b.isConstant e.node = true) : e.type.index < b.types.size := by
  obtain ⟨node, hnode, htype⟩ := Option.map_eq_some_iff.mp he
  rw [isConstant, hnode] at hconstant
  rw [← htype]
  refine (hb.dictated _ node hnode).lt_size hb.toHasSoundTypes fun f args hcall => ?_
  dsimp only at hconstant
  rw [hcall] at hconstant
  cases hconstant

/-- What a name stands for has been given out. -/
theorem mem_handles_of_lookup {name : String} {e : Expr} (h : b.lookup name = some e) :
    e ∈ b.handles := by
  obtain ⟨s, hs, hlookup⟩ := Option.bind_eq_some_iff.mp h
  obtain ⟨f, hf, hfind⟩ := List.exists_of_findSome?_eq_some hlookup
  obtain ⟨x, hx, rfl⟩ := Option.map_eq_some_iff.mp hfind
  refine mem_handles_iff.mpr (Or.inr ⟨s, hs, OpenStage.mem_handles_iff.mpr ?_⟩)
  exact Or.inl ⟨f, hf, x, List.mem_of_find?_eq_some hx, rfl⟩

/-- What a path stands for has been given out. -/
theorem mem_handles_of_tagged {path : String} {e : Expr} (h : b.tagged path = some e) :
    e ∈ b.handles := by
  obtain ⟨s, hs, htag⟩ := Option.bind_eq_some_iff.mp h
  obtain ⟨x, hx, rfl⟩ := Option.map_eq_some_iff.mp htag
  refine mem_handles_iff.mpr (Or.inr ⟨s, hs, OpenStage.mem_handles_iff.mpr ?_⟩)
  exact Or.inr (Or.inr ⟨x, List.mem_of_find?_eq_some hx, rfl⟩)

/-- What a name stands for is a handle that carries its type. -/
theorem Typed.carries_of_lookup (hb : b.Typed callees) {name : String} {e : Expr}
    (h : b.lookup name = some e) : b.Carries e := hb.handles e (mem_handles_of_lookup h)

/-- What a path stands for is a handle that carries its type. -/
theorem Typed.carries_of_tagged (hb : b.Typed callees) {path : String} {e : Expr}
    (h : b.tagged path = some e) : b.Carries e := hb.handles e (mem_handles_of_tagged h)

end Builder

/-- A tag was there before, or is the new one. -/
theorem mem_putTag {tags : List (String × Expr)} {path : String} {e : Expr} {x : String × Expr}
    (h : x ∈ putTag tags path e) : x ∈ tags ∨ x = (path, e) := by
  unfold putTag at h
  split at h
  · obtain ⟨y, hy, hx⟩ := List.mem_map.mp h
    split at hx
    · exact Or.inr hx.symm
    · exact Or.inl (hx ▸ hy)
  · rcases List.mem_append.mp h with h | h
    · exact Or.inl h
    · exact Or.inr (List.mem_singleton.mp h)

namespace Build

variable {α : Type} {callees : Callees} {b : Builder} {e : Expr} {t : TypeId}

/-! ## Declarations -/

section Declarations

/-- What follows a check that a type can be held. -/
theorem Ensures.requireSized_bind (hb : b.Typed callees) {what name : String}
    {f : Unit → Build α} {post : α → Builder → Prop}
    (hf : t.index < b.types.size → (f ()).Ensures callees b post) :
    (requireSized what name t >>= f).Ensures callees b post := by
  refine .reads_bind hb (reads_requireSized _ _ _) fun _ hrun => hf ?_
  rw [requireSized, Builder.run_bind, Builder.run_get] at hrun
  dsimp only at hrun
  split at hrun
  · cases (Prod.mk.inj hrun).1
  · rename_i hsized
    exact Registry.lt_size_of_isSized (by simpa using hsized)

theorem ensures_declare (hb : b.Typed callees) (name : String) (init : Option NodeId)
    (ht : t.index < b.types.size) :
    (declare name t init).Ensures callees b fun e b' => b'.Carries e := by
  refine (ensures_newVar hb name .localVar none ht).bind fun x b₁ _ hb₁ ⟨he, _⟩ => ?_
  exact .rearranges_bind hb₁ (rearranges_emit _) fun _ b₂ hext hb₂ => .pure hb₂ (he.of_extends hext)

theorem ensures_declareIn (hb : b.Typed callees) (list : DeclList) (name : String) (role : Role)
    (init : Option NodeId) (ht : t.index < b.types.size) :
    (declareIn list name t role init).Ensures callees b fun e b' => b'.Carries e := by
  refine (ensures_newVar hb name role init ht).bind fun x b₁ _ hb₁ ⟨he, _⟩ => ?_
  have hlist : Rearranges (modifyDecls (·.declare x.1 list)) :=
    rearranges_modifyDecls fun d => by cases list <;> rfl
  exact .rearranges_bind hb₁ hlist fun _ b₂ hext hb₂ => .pure hb₂ (he.of_extends hext)

theorem ensures_declareLocal (hb : b.Typed callees) (name : String) {init : Value}
    (hinit : b.Knows init) :
    (declareLocal name init).Ensures callees b fun e b' => b'.Carries e := by
  refine .reads_bind hb (reads_requireFunction _) fun _ _ => ?_
  refine (ensures_lower hb hinit none).bind fun e b₁ _ hb₁ _ => ?_
  exact .requireSized_bind hb₁ fun ht => ensures_declare hb₁ name _ ht

theorem ensures_declareVar (hb : b.Typed callees) (name : String) (shape : TypeShape) :
    (declareVar name shape).Ensures callees b fun e b' => b'.Carries e := by
  refine .reads_bind hb (reads_requireFunction _) fun _ _ => ?_
  refine (ensures_type hb shape).bind fun t b₁ _ hb₁ ht => ?_
  exact .requireSized_bind hb₁ fun _ => ensures_declare hb₁ name none ht

theorem ensures_resource (hb : b.Typed callees) (name : String) (role : Role)
    (ht : t.index < b.types.size) :
    (resource name t role).Ensures callees b fun e b' => b'.Carries e :=
  ensures_declareIn hb .resources name role none ht

theorem ensures_uniformTexture (hb : b.Typed callees) (name : String) (texture : TextureType)
    (group : UInt32) :
    (uniformTexture name texture group).Ensures callees b fun e b' => b'.Carries e := by
  refine .reads_bind hb (reads_requireGlobal _) fun _ _ => ?_
  refine (ensures_type hb _).bind fun t b₁ _ hb₁ ht => .get_bind ?_
  refine .when (fun _ => .rearranges hb₁ (rearranges_remark _)) (fun b₂ hext hb₂ => ?_) hb₁
  exact ensures_resource hb₂ name _ (Nat.lt_of_lt_of_le ht hext.types_size_le)

theorem ensures_uniformSampler (hb : b.Typed callees) (name : String) (kind : SamplerKind)
    (group : UInt32) :
    (uniformSampler name kind group).Ensures callees b fun e b' => b'.Carries e := by
  refine .reads_bind hb (reads_require _) fun _ _ => ?_
  refine .reads_bind hb (reads_requireGlobal _) fun _ _ => ?_
  exact (ensures_type hb _).bind fun t b₁ _ hb₁ ht => ensures_resource hb₁ name _ ht

theorem ensures_uniformValue (hb : b.Typed callees) (name : String) (shape : TypeShape)
    (group : UInt32) :
    (uniformValue name shape group).Ensures callees b fun e b' => b'.Carries e := by
  refine .reads_bind hb (reads_requireGlobal _) fun _ _ => ?_
  refine (ensures_type hb shape).bind fun t b₁ _ hb₁ ht => ?_
  have hstd := ensures_intern hb₁ (Interning.ensures_std140 hb₁.sound ht)
  refine hstd.bind fun t' b₂ _ hb₂ _ => ?_
  exact .requireSized_bind hb₂ fun ht => ensures_resource hb₂ name _ ht

theorem ensures_uniform (hb : b.Typed callees) (name : String) (shape : TypeShape)
    (group : UInt32) :
    (uniform name shape group).Ensures callees b fun e b' => b'.Carries e := by
  unfold uniform
  split
  · exact ensures_uniformTexture hb name _ group
  · exact ensures_uniformSampler hb name _ group
  · exact ensures_uniformValue hb name shape group

theorem ensures_storage (hb : b.Typed callees) (name : String) (shape : TypeShape)
    (group : UInt32) (readOnly : Bool) :
    (storage name shape group readOnly).Ensures callees b fun e b' => b'.Carries e := by
  refine .reads_bind hb (reads_require _) fun _ _ => ?_
  refine .reads_bind hb (reads_requireGlobal _) fun _ _ => ?_
  refine (ensures_type hb shape).bind fun t b₁ _ hb₁ ht => .get_bind ?_
  exact .refuse hb₁ fun _ => ensures_resource hb₁ name _ ht

theorem ensures_workgroup (hb : b.Typed callees) (name : String) (shape : TypeShape) :
    (workgroup name shape).Ensures callees b fun e b' => b'.Carries e := by
  refine .reads_bind hb (reads_require _) fun _ _ => .stage_bind hb fun s _ => ?_
  refine .refuse hb fun _ => .reads_bind hb (reads_requireGlobal _) fun _ _ => ?_
  refine (ensures_type hb shape).bind fun t b₁ _ hb₁ ht => ?_
  exact .requireSized_bind hb₁ fun _ => ensures_resource hb₁ name _ ht

theorem ensures_constant (hb : b.Typed callees) (name : String) {v : Value} (hv : b.Knows v) :
    (constant name v).Ensures callees b fun e b' => b'.Carries e := by
  refine .reads_bind hb (reads_requireGlobal _) fun _ _ => ?_
  refine (ensures_lower hb hv none).bind fun e b₁ _ hb₁ ⟨he, _⟩ => .get_bind ?_
  refine .refuse hb₁ fun hconstant => ?_
  have ht := hb₁.lt_size_of_isConstant he (by simpa using hconstant)
  exact ensures_declareIn hb₁ .constants name .constant _ ht

/-! ### Interfaces -/

theorem ensures_interfaceType (hb : b.Typed callees) (what name : String) (shape : TypeShape) :
    (interfaceType what name shape).Ensures callees b fun x b' => x.1.index < b'.types.size := by
  refine (ensures_type hb shape).bind fun t b₁ _ hb₁ ht => .get_bind ?_
  dsimp only
  split
  · exact .ite (fun _ => .throw hb₁ _) fun _ => .pure hb₁ ht
  · exact .throw hb₁ _

theorem ensures_vertexInput (hb : b.Typed callees) (name : String) (shape : TypeShape)
    (semantic : Semantic) :
    (vertexInput name shape semantic).Ensures callees b fun e b' => b'.Carries e := by
  refine .stage_bind hb fun s _ => .refuse hb fun _ => ?_
  refine .reads_bind hb (reads_requireGlobal _) fun _ _ => ?_
  refine (ensures_interfaceType hb _ name shape).bind fun (t, p) b₁ _ hb₁ ht => ?_
  refine .when (fun _ => .rearranges hb₁ (reads_require _).rearranges) (fun b₂ hext hb₂ => ?_) hb₁
  refine .get_bind (.stage_bind hb₂ fun s' _ => .refuse hb₂ fun _ => ?_)
  exact ensures_declareIn hb₂ .inputs name _ none (Nat.lt_of_lt_of_le ht hext.types_size_le)

theorem ensures_output (hb : b.Typed callees) (name : String) (shape : TypeShape) :
    (output name shape).Ensures callees b fun e b' => b'.Carries e := by
  refine .stage_bind hb fun s _ => .refuse hb fun _ => ?_
  refine .reads_bind hb (reads_requireGlobal _) fun _ _ => ?_
  refine (ensures_interfaceType hb _ name shape).bind fun (t, p) b₁ _ hb₁ ht => ?_
  refine .when (fun _ => .rearranges hb₁ (reads_require _).rearranges) (fun b₂ hext hb₂ => ?_) hb₁
  refine .stage_bind hb₂ fun s' _ => .get_bind ?_
  refine .when (fun _ => .rearranges hb₂ (rearranges_checkColor _ _ _)) (fun b₃ hext' hb₃ => ?_) hb₂
  exact ensures_declareIn hb₃ .outputs name _ none
    (Nat.lt_of_lt_of_le ht (hext.trans hext').types_size_le)

theorem ensures_builtin (hb : b.Typed callees) (x : Builtin) :
    (builtin x).Ensures callees b fun e b' => b'.Carries e := by
  -- the first use of a built-in records it
  have hfirst : Ensures (do
      let target := (← get).target
      let t ← intern (Interning.primitive (x.type target))
      let e ← pushNode t (.builtin x)
      if x = .fragDepth && target = .webGL then enable .fragDepth
      modifyDecls fun d => { d with builtins := d.builtins ++ [(x, e)] }
      return e) callees b fun e b' => b'.Carries e := by
    refine .get_bind ((ensures_primitive hb (Builtin.fault_type _ x)).bind ?_)
    intro t b₁ hext hb₁ ht
    rw [← hext.target_eq] at ht
    refine (ensures_pushNode hb₁ (.builtin ht)).bind fun e b₂ _ hb₂ ⟨he, _⟩ => ?_
    refine .when (fun _ => .rearranges hb₂ (rearranges_enable _)) (fun b₃ hext hb₃ => ?_) hb₂
    have he := he.of_extends hext
    refine (ensures_modifyStage hb₃ fun s _ e' he' => ?_).bind fun _ b₄ hext hb₄ _ =>
      .pure hb₄ (he.of_extends hext)
    rcases OpenStage.mem_handles_iff.mp he' with hframes | ⟨y, hy, rfl⟩ | htags
    · exact Or.inl (OpenStage.mem_handles_iff.mpr (Or.inl hframes))
    · rcases List.mem_append.mp hy with hy | hy
      · exact Or.inl (OpenStage.mem_handles_iff.mpr (Or.inr (Or.inl ⟨y, hy, rfl⟩)))
      · rw [List.mem_singleton.mp hy]
        exact Or.inr he
    · exact Or.inl (OpenStage.mem_handles_iff.mpr (Or.inr (Or.inr htags)))
  refine .stage_bind hb fun s hs => .refuse hb fun _ => ?_
  split
  · rename_i e he
    obtain ⟨y, hy, rfl⟩ := Option.map_eq_some_iff.mp he
    refine .pure hb (hb.handles _ (Builder.mem_handles_iff.mpr (Or.inr ⟨s, hs, ?_⟩)))
    exact OpenStage.mem_handles_iff.mpr (Or.inr (Or.inl ⟨y, List.mem_of_find?_eq_some hy, rfl⟩))
  · cases x.feature? with
    | none => exact hfirst
    | some feature => exact .reads_bind hb (reads_require _) fun _ _ => hfirst

end Declarations

/-! ## Statements -/

section Statements

theorem ensures_resolve (hb : b.Typed callees) (name : String) :
    (resolve name).Ensures callees b fun e b' => b'.Carries e := by
  refine .get_bind ?_
  split
  · exact .pure hb (hb.carries_of_lookup ‹_›)
  · exact .throw hb _

theorem ensures_assign (hb : b.Typed callees) (target : Expr) {v : Value} (hv : b.Knows v) :
    (assign target v).Ensures callees b fun _ _ => True := by
  refine .get_bind (.reads_bind hb (Follows.liftM _) fun _ _ => ?_)
  refine (ensures_coerce hb hv _ _).bind fun e b₁ _ hb₁ _ => ?_
  exact .rearranges hb₁ (rearranges_emit _)

theorem ensures_assignOp (hb : b.Typed callees) {target : Expr} (htarget : b.Carries target)
    (op : BinaryOp) {v : Value} (hv : b.Knows v) :
    (assignOp target op v).Ensures callees b fun _ _ => True := by
  refine .refuse hb fun _ => .get_bind (.reads_bind hb (Follows.liftM _) fun _ _ => ?_)
  refine (ensures_lowerNear hb hv _).bind fun e b₁ hext hb₁ he => ?_
  refine (ensures_binaryType hb₁ op (htarget.of_extends hext) he).bind fun t b₂ _ hb₂ _ => ?_
  exact .get_bind (.refuse hb₂ fun _ => .rearranges hb₂ (rearranges_emit _))

theorem ensures_assignNamed (hb : b.Typed callees) (name : String) {v : Value} (hv : b.Knows v) :
    (assignNamed name v).Ensures callees b fun e b' => b'.Carries e := by
  refine .get_bind ?_
  split
  · rename_i target htarget
    refine (ensures_assign hb target hv).bind fun _ b₁ hext hb₁ _ => .pure hb₁ ?_
    exact Builder.Carries.of_extends hext (hb.carries_of_lookup htarget)
  · exact ensures_declareLocal hb name hv

theorem ensures_assignBuiltin (hb : b.Typed callees) (x : Builtin) {v : Value} (hv : b.Knows v) :
    (assignBuiltin x v).Ensures callees b fun _ _ => True := by
  refine (ensures_builtin hb x).bind fun e b₁ hext hb₁ _ => ?_
  exact ensures_assign hb₁ e (hv.of_extends hext)

/-- A value that is returned has the type that has been fixed. -/
theorem ensures_returned (hb : b.Typed callees) {v : Value} (hv : b.Knows v) (t : Option TypeId) :
    (returned v t).Ensures callees b fun e b' => b'.Carries e ∧ ∀ u, t = some u → e.type = u := by
  cases t with
  | none => exact (ensures_lower hb hv none).mono fun _ _ _ he => ⟨he.1, by simp⟩
  | some t =>
      refine .tryCatch ((ensures_coerce hb hv t "return").mono ?_) ?_
      · rintro e b₁ - ⟨he, htype⟩
        exact ⟨he, fun u hu => htype.trans (Option.some.inj hu)⟩
      · exact fun _ b₁ _ hb₁ => .get_bind (.throw hb₁ _)

theorem ensures_returnValue (hb : b.Typed callees) {v : Value} (hv : b.Knows v) :
    (returnValue v).Ensures callees b fun _ _ => True := by
  refine .reads_bind hb reads_enclosingFunction fun (isMain, expected) _ => .refuse hb fun _ => ?_
  refine (ensures_returned hb hv _).bind fun e b₁ _ hb₁ _ => .get_bind (.refuse hb₁ fun _ => ?_)
  refine .rearranges hb₁ ?_
  exact .bind (rearranges_setResult _) fun _ => rearranges_emit _

theorem ensures_tag (hb : b.Typed callees) (he : b.Carries e) (path : String) :
    (tag e path).Ensures callees b fun _ _ => True := by
  refine .refuse hb fun _ => ensures_modifyStage hb fun s _ e' he' => ?_
  rcases OpenStage.mem_handles_iff.mp he' with hframes | hbuiltins | ⟨x, hx, rfl⟩
  · exact Or.inl (OpenStage.mem_handles_iff.mpr (Or.inl hframes))
  · exact Or.inl (OpenStage.mem_handles_iff.mpr (Or.inr (Or.inl hbuiltins)))
  · rcases mem_putTag hx with hx | rfl
    · exact Or.inl (OpenStage.mem_handles_iff.mpr (Or.inr (Or.inr ⟨x, hx, rfl⟩)))
    · exact Or.inr he

end Statements

/-! ## Parameters and bounds -/

/-- The types of parameters are registered. -/
theorem ensures_paramTypes (hb : b.Typed callees) (name : String)
    (params : List (String × TypeShape)) :
    (paramTypes name params).Ensures callees b fun types b' =>
      ∀ t ∈ types, t.index < b'.types.size := by
  induction params generalizing b with
  | nil => exact .pure hb (by simp)
  | cons p params ih =>
      refine (ensures_type hb p.2).bind fun t b₁ _ hb₁ ht => .get_bind (.refuse hb₁ fun _ => ?_)
      refine (ih hb₁).bind fun types b₂ hext hb₂ htypes => .pure hb₂ ?_
      exact List.forall_mem_cons.mpr ⟨Nat.lt_of_lt_of_le ht hext.types_size_le, htypes⟩

/-- Bounds of loops have registered types. -/
theorem lt_size_of_run_requireBounds {first last : Expr} {b' : Builder}
    (h : b.run (requireBounds first last) = (.ok (), b')) : first.type.index < b.types.size :=
  Registry.lt_size_of_isSized (isSized_of_run_requireBounds h)

end Build

end WebShader
