import WebShader.Proofs.GlslNames
import WebShader.Proofs.Upgrade

/-!
# Sources of upgraded stages

Where a stage can be written in GLSL ES 1.00, it can be written in GLSL ES 3.00: what the newer
version spells in a way of its own, or declares in place, it always can.
-/

namespace WebShader

/-! ## Computations that succeed together -/

/-- The second computation succeeds wherever the first one does. -/
def Permits {α β : Type} (x : Except ShaderError α) (y : Except ShaderError β) : Prop :=
  ∀ a, x = .ok a → ∃ b, y = .ok b

namespace Permits

variable {α β γ δ : Type} {x : Except ShaderError α} {y : Except ShaderError β}

/-- A computation permits itself. -/
theorem refl (x : Except ShaderError α) : Permits x x := fun a h => ⟨a, h⟩

/-- A computation that succeeds is always permitted. -/
theorem ok (x : Except ShaderError α) (b : β) : Permits x (.ok b) := fun _ _ => ⟨b, rfl⟩

/-- A computation that fails permits everything. -/
theorem error (e : ShaderError) (y : Except ShaderError β) :
    Permits (.error e : Except ShaderError α) y := fun _ h => by cases h

/-- One after the other. -/
theorem bind {f : α → Except ShaderError γ} {g : β → Except ShaderError δ} (h : Permits x y)
    (hf : ∀ a b, x = .ok a → y = .ok b → Permits (f a) (g b)) : Permits (x >>= f) (y >>= g) := by
  intro c hc
  obtain ⟨a, ha, hc⟩ := bind_eq_ok_iff.mp hc
  obtain ⟨b, hb⟩ := h a ha
  obtain ⟨d, hd⟩ := hf a b ha hb c hc
  exact ⟨d, bind_eq_ok_iff.mpr ⟨b, hb, hd⟩⟩

/-- What follows the same computation on both sides. -/
theorem bind_left {f : α → Except ShaderError γ} {g : α → Except ShaderError δ}
    (hf : ∀ a, x = .ok a → Permits (f a) (g a)) : Permits (x >>= f) (x >>= g) :=
  (refl x).bind fun a b ha hb => by
    rw [ha] at hb
    rw [← Except.ok.inj hb]
    exact hf a ha

/-- What is done to results. -/
theorem map (h : Permits x y) (f : α → γ) (g : β → δ) : Permits (x.map f) (y.map g) := by
  intro c hc
  cases hx : x with
  | error e =>
      rw [hx] at hc
      cases hc
  | ok a =>
      obtain ⟨b, hb⟩ := h a hx
      exact ⟨g b, by rw [hb]; rfl⟩

/-- A list of computations. -/
theorem mapM {f : α → Except ShaderError β} {g : α → Except ShaderError γ} {as : List α}
    (h : ∀ a ∈ as, Permits (f a) (g a)) : Permits (as.mapM f) (as.mapM g) := by
  induction as with
  | nil => exact ok _ _
  | cons a as ih =>
      obtain ⟨ha, has⟩ := List.forall_mem_cons.mp h
      rw [List.mapM_cons, List.mapM_cons]
      exact ha.bind fun _ _ _ _ => (ih has).bind fun _ _ _ _ => ok _ _

end Permits

/-- Each element of a list on which a traversal succeeds is one that it succeeds on. -/
theorem exists_of_mapM_eq_ok {α β : Type} {f : α → Except ShaderError β} {as : List α}
    {bs : List β} (h : as.mapM f = .ok bs) {a : α} (ha : a ∈ as) : ∃ b, f a = .ok b := by
  obtain ⟨b, -, hb⟩ := exists_result_of_forall₂ (mapM_eq_ok_iff.mp h) a ha
  exact ⟨b, hb⟩

/-! ## Types -/

namespace Glsl

theorem permits_samplerName (t : TextureType) :
    Permits (samplerName .webGL t) (samplerName .webGL2 t) := by
  unfold samplerName
  dsimp only
  cases t.dimension <;> first | exact .ok _ _ | exact .error _ _

/-- The types that GLSL ES 1.00 spells are types that GLSL ES 3.00 spells. -/
theorem permits_typeName (r : Registry) (t : TypeId) :
    Permits (typeName r .webGL t) (typeName r .webGL2 t) := by
  rw [typeName, typeName]
  split
  · exact .ok _ _
  · exact .ok _ _
  · exact .ok _ _
  · rename_i element n _
    split
    · exact .error _ _
    · split
      · exact (permits_typeName r element).map _ _
      · exact .error _ _
  · exact (permits_samplerName _).map _ _
  · exact .error _ _
termination_by t.index

end Glsl

/-! ## Stages -/

/-- The stage for WebGL2, without extensions. -/
def ResolvedStage.upgrade (s : ResolvedStage) : ResolvedStage :=
  { s with target := .webGL2, decls := s.decls.upgrade }

/-- A stage is resolved alike. -/
theorem Builder.resolve_upgrade {b : Builder} {plan : Binding.Plan} {st : BuiltStage}
    {s : ResolvedStage} (h : b.resolve plan st = .ok s) :
    b.upgrade.resolve plan st.upgrade = .ok s.upgrade := by
  have hterm : b.upgrade.term = b.term := funext fun n => b.upgrade_term n
  have hconstant : b.upgrade.resolveConstant = b.resolveConstant := funext fun v => by
    rw [resolveConstant, resolveConstant, hterm]
    rfl
  have hfunction : b.upgrade.resolveFunction = b.resolveFunction := funext fun f => by
    rw [resolveFunction, resolveFunction, hterm]
  simp only [resolve, bind_eq_ok_iff] at h
  obtain ⟨constants, hconstants, functions, hfunctions, main, hmain, h⟩ := h
  rw [← Except.ok.inj h]
  simp only [resolve, bind_eq_ok_iff, hterm, hconstant, hfunction]
  exact ⟨constants, hconstants, functions, hfunctions, main, hmain, rfl⟩

namespace Glsl

section Stages

variable {s : ResolvedStage}

theorem permits_typeOf (hs : s.target = .webGL) (t : TypeId) :
    Permits (typeOf s t) (typeOf s.upgrade t) := by
  rw [typeOf, hs]
  exact permits_typeName s.types t

/-! ### Expressions -/

theorem permits_variableExpr (v : VarId) :
    Permits (variableExpr s v) (variableExpr s.upgrade v) := by
  refine .bind_left fun d _ => ?_
  split
  · exact .bind_left fun _ _ => .ok _ _
  · rw [if_neg (by simp [ResolvedStage.upgrade] : ¬ (s.upgrade.target = .webGL && _) = true)]
    exact .ok _ _
  · exact .ok _ _

/-- What is written of a binary operation does not depend on the target. -/
theorem permits_binary (op : BinaryOp) (lhs lhs' rhs rhs' : Expr) (lt rt t : TypeId) :
    Permits (binary s op lhs lt rhs rt t) (binary s.upgrade op lhs' lt rhs' rt t) := by
  rw [binary, binary]
  dsimp only [ResolvedStage.upgrade]
  split
  · split
    · exact .ok _ _
    · split
      · rw [remainder, remainder]
        split
        · exact .ok _ _
        · exact .ok _ _
      · exact .ok _ _
  · exact .error _ _

theorem permits_construct (hs : s.target = .webGL) (t : TypeId) {args args' : List Expr}
    (h : args.length = args'.length) :
    Permits (construct s t args) (construct s.upgrade t args') := by
  have hempty : args.isEmpty = args'.isEmpty := by
    rw [Bool.eq_iff_iff, List.isEmpty_iff_length_eq_zero, List.isEmpty_iff_length_eq_zero, h]
  rw [construct, construct, hempty]
  split
  · exact .refl _
  · exact (permits_typeOf hs t).map _ _

/-- A lookup of GLSL ES 1.00 has a counterpart in GLSL ES 3.00. -/
theorem exists_lookup300 {stage : Stage} {f : Intrinsic} {t : TextureType} {texture e : Expr}
    {args : List Expr} (h : lookup100 stage f t texture args = some e) (texture' : Expr)
    {args' : List Expr} (hlength : args.length = args'.length) :
    ∃ e', lookup300 f t texture' args' = some e' := by
  unfold lookup100 at h
  dsimp only at h
  split at h
  · obtain ⟨c, rfl⟩ := List.length_eq_one_iff.mp hlength.symm
    exact ⟨_, rfl⟩
  · obtain ⟨c, level, rfl⟩ := List.length_eq_two.mp hlength.symm
    exact ⟨_, rfl⟩
  · obtain ⟨c, depth, rfl⟩ := List.length_eq_two.mp hlength.symm
    exact ⟨_, rfl⟩
  · cases h

/-- Each lookup of GLSL ES 1.00 has a counterpart in GLSL ES 3.00. -/
theorem permits_textureCall (hs : s.target = .webGL) (f : Intrinsic) (t : Option TextureType)
    {args args' : List Expr} (h : args.length = args'.length) :
    Permits (textureCall s f t args) (textureCall s.upgrade f t args') := by
  cases args with
  | nil => exact .error _ _
  | cons texture args =>
      obtain ⟨texture', args', rfl⟩ := List.exists_cons_of_length_eq_add_one h.symm
      cases t with
      | none => exact .error _ _
      | some t =>
          rw [textureCall, textureCall]
          rw [if_pos hs, if_neg (show ¬ s.upgrade.target = .webGL by simp [ResolvedStage.upgrade])]
          cases hlookup : lookup100 s.stage f t texture args with
          | none => exact .error _ _
          | some e =>
              obtain ⟨e', he'⟩ := exists_lookup300 hlookup texture' (by simpa using h)
              rw [he']
              exact .ok _ _

mutual

/-- The expressions that GLSL ES 1.00 writes are expressions that GLSL ES 3.00 writes. -/
theorem permits_expr (hs : s.target = .webGL) (e : Term) :
    Permits (expr s e) (expr s.upgrade e) :=
  match e with
  | .literal _ _ | .builtin _ _ => .ok _ _
  | .var _ v => permits_variableExpr v
  | .member _ base _ => .bind_left fun _ _ => (permits_expr hs base).bind fun _ _ _ _ => .ok _ _
  | .swizzle _ base _ => (permits_expr hs base).bind fun _ _ _ _ => .ok _ _
  | .index _ base i => (permits_expr hs base).bind fun _ _ _ _ =>
      (permits_expr hs i).bind fun _ _ _ _ => .ok _ _
  | .unary _ _ operand => (permits_expr hs operand).bind fun _ _ _ _ => .ok _ _
  | .binary _ op lhs rhs => (permits_expr hs lhs).bind fun _ _ _ _ =>
      (permits_expr hs rhs).bind fun _ _ _ _ => permits_binary op _ _ _ _ _ _ _
  | .construct t args => (permits_exprs hs args).bind fun _ _ hxs hys =>
      permits_construct hs t ((length_of_exprs hxs).trans (length_of_exprs hys).symm)
  | .call _ f args => .bind_left fun _ _ => (permits_exprs hs args).bind fun _ _ _ _ => .ok _ _
  | .intrinsic _ f args => (permits_exprs hs args).bind fun _ _ hxs hys => by
      split
      · exact permits_textureCall hs f _ ((length_of_exprs hxs).trans (length_of_exprs hys).symm)
      · exact .ok _ _
  | .addressOf _ _ | .deref _ _ => .error _ _
termination_by structural e

theorem permits_exprs (hs : s.target = .webGL) (es : List Term) :
    Permits (exprs s es) (exprs s.upgrade es) :=
  match es with
  | [] => .ok _ _
  | e :: rest => (permits_expr hs e).bind fun _ _ _ _ =>
      (permits_exprs hs rest).bind fun _ _ _ _ => .ok _ _
termination_by structural es

end

/-! ### Statements -/

theorem permits_assign (hs : s.target = .webGL) (target : Term) (op : Option BinaryOp)
    (value : Term) : Permits (assign s target op value) (assign s.upgrade target op value) := by
  refine (permits_expr hs target).bind fun _ _ _ _ => (permits_expr hs value).bind fun _ _ _ _ => ?_
  cases op with
  | none => exact .ok _ _
  | some op =>
      dsimp only
      split
      · exact (permits_binary op _ _ _ _ _ _ _).bind fun _ _ _ _ => .ok _ _
      · exact .ok _ _

end Stages

end Glsl

namespace Code

/-- The rules of the second lowering succeed wherever those of the first one do. -/
structure Lowering.Permits {τ : Type} (rules rules' : Lowering τ) : Prop where
  var : rules'.var = rules.var
  type : ∀ t, WebShader.Permits (rules.type t) (rules'.type t)
  expr : ∀ e, WebShader.Permits (rules.expr e) (rules'.expr e)
  assign : ∀ target op value,
    WebShader.Permits (rules.assign target op value) (rules'.assign target op value)
  eval : ∀ e, WebShader.Permits (rules.eval e) (rules'.eval e)

namespace Lowering

section Blocks

variable {τ : Type} {rules rules' : Lowering τ}

/-- What may be missing is lowered alike. -/
theorem Permits.optional (h : rules.Permits rules') (e : Option Term) :
    WebShader.Permits (rules.optional e) (rules'.optional e) := by
  cases e with
  | none => exact .ok _ _
  | some e => exact (h.expr e).map _ _

mutual

/-- A statement is lowered, by recursion on it. -/
theorem Permits.stmt (h : rules.Permits rules') (st : WebShader.Stmt Term) :
    WebShader.Permits (rules.stmt st) (rules'.stmt st) :=
  match st with
  | .declare v init => by
      simp only [Lowering.stmt, h.var]
      exact .bind_left fun d _ => (h.type d.type).bind fun _ _ _ _ =>
        (h.optional init).bind fun _ _ _ _ => .ok _ _
  | .assign target op value => h.assign target op value
  | .eval e => h.eval e
  | .conditional cases none => (h.branches cases).bind fun _ _ _ _ => .ok _ _
  | .conditional cases (some otherwise) => (h.branches cases).bind fun _ _ _ _ =>
      (h.block otherwise).bind fun _ _ _ _ => .ok _ _
  | .forRange counter first last body => by
      simp only [Lowering.stmt, h.var]
      exact .bind_left fun d _ => (h.type d.type).bind fun _ _ _ _ =>
        (h.expr first).bind fun _ _ _ _ => (h.expr last).bind fun _ _ _ _ =>
          (h.block body).bind fun _ _ _ _ => .ok _ _
  | .whileDo cond body => (h.expr cond).bind fun _ _ _ _ =>
      (h.block body).bind fun _ _ _ _ => .ok _ _
  | .doWhile body cond => (h.block body).bind fun _ _ _ _ =>
      (h.expr cond).bind fun _ _ _ _ => .ok _ _
  | .block body => (h.block body).bind fun _ _ _ _ => .ok _ _
  | .returnWith value => (h.optional value).bind fun _ _ _ _ => .ok _ _
  | .breakLoop | .continueLoop | .discard => .ok _ _
termination_by structural st

/-- A block is lowered, by recursion on it. -/
theorem Permits.block (h : rules.Permits rules') (body : List (WebShader.Stmt Term)) :
    WebShader.Permits (rules.block body) (rules'.block body) :=
  match body with
  | [] => .ok _ _
  | st :: rest => (h.stmt st).bind fun _ _ _ _ => (h.block rest).bind fun _ _ _ _ => .ok _ _
termination_by structural body

/-- Branches are lowered, by recursion on them. -/
theorem Permits.branches (h : rules.Permits rules')
    (cases : List (Term × List (WebShader.Stmt Term))) :
    WebShader.Permits (rules.branches cases) (rules'.branches cases) :=
  match cases with
  | [] => .ok _ _
  | (cond, body) :: rest => (h.expr cond).bind fun _ _ _ _ => (h.block body).bind fun _ _ _ _ =>
      (h.branches rest).bind fun _ _ _ _ => .ok _ _
termination_by structural cases

end

end Blocks

end Lowering

end Code

/-! ## Structs -/

namespace Registry

variable {r : Registry}

/-- What was found stays at the front. -/
theorem prefix_foldl {f : List TypeId → TypeId → List TypeId} (h : ∀ found t, found <+: f found t)
    (ts found : List TypeId) : found <+: ts.foldl f found := by
  induction ts generalizing found with
  | nil => exact List.prefix_refl _
  | cons t ts ih => exact (h found t).trans (ih _)

/-- The structs of a type come after those found before. -/
theorem prefix_addStructs (r : Registry) (found : List TypeId) (t : TypeId) :
    found <+: r.addStructs found t := by
  have hvisit : ∀ found (part : TypeId),
      found <+: if part.index < t.index then r.addStructs found part else found :=
    fun found part => by
      split
      · exact prefix_addStructs r found part
      · exact List.prefix_refl _
  rw [addStructs]
  split
  · split
    · exact List.prefix_refl _
    · exact (prefix_foldl hvisit _ _).trans (List.prefix_append _ _)
  · exact hvisit _ _
  · exact hvisit _ _
  · exact List.prefix_refl _
termination_by t.index

/-- A struct is among the structs of its type. -/
theorem mem_addStructs {t : TypeId} {s : StructType} (h : r.kind t = .struct s)
    (found : List TypeId) : t ∈ r.addStructs found t := by
  rw [addStructs, h]
  dsimp only
  split
  · rename_i hmem
    simpa using hmem
  · exact List.mem_append_right _ List.mem_cons_self

/-- A struct that is used is found. -/
theorem mem_foldl_addStructs {t : TypeId} {s : StructType} (h : r.kind t = .struct s)
    {ts : List TypeId} (ht : t ∈ ts) (found : List TypeId) : t ∈ ts.foldl r.addStructs found := by
  induction ts generalizing found with
  | nil => cases ht
  | cons u ts ih =>
      rcases List.mem_cons.mp ht with rfl | ht
      · exact (prefix_foldl (prefix_addStructs r) ts _).subset (mem_addStructs h found)
      · exact ih ht _

end Registry

namespace Glsl

section Modules

variable {s : ResolvedStage}

theorem permits_lowering (hs : s.target = .webGL) : (lowering s).Permits (lowering s.upgrade) where
  var := rfl
  type := permits_typeOf hs
  expr := permits_expr hs
  assign := permits_assign hs
  eval e := (permits_expr hs e).map _ _

theorem permits_field (hs : s.target = .webGL) (name : String) (t : TypeId) :
    Permits (field s name t) (field s.upgrade name t) :=
  (permits_typeOf hs t).bind fun _ _ _ _ => .ok _ _

theorem permits_struct (hs : s.target = .webGL) (t : TypeId) :
    Permits (struct s t) (struct s.upgrade t) :=
  .bind_left fun _ _ =>
    (Permits.mapM fun m _ => permits_field hs m.name m.type).bind fun _ _ _ _ => .ok _ _

theorem permits_constant (hs : s.target = .webGL) (c : Variable × Term) :
    Permits (constant s c) (constant s.upgrade c) :=
  (permits_field hs _ _).bind fun _ _ _ _ => (permits_expr hs _).bind fun _ _ _ _ => .ok _ _

theorem permits_input (hs : s.target = .webGL) (v : VarId) :
    Permits (input s v) (input s.upgrade v) := by
  refine .bind_left fun d _ => (permits_field hs d.name d.type).bind fun _ _ _ _ => ?_
  split
  · exact .ok _ _
  · exact .error _ _

theorem permits_output (hs : s.target = .webGL) (v : VarId) :
    Permits (output s v) (output s.upgrade v) := by
  refine .bind_left fun d _ => (permits_field hs d.name d.type).bind fun _ _ _ _ => ?_
  split
  · rw [if_pos hs, if_neg (show ¬ s.upgrade.target = .webGL by simp [ResolvedStage.upgrade])]
    by_cases h : s.upgrade.stage = .vertex
    · rw [if_pos h]
      exact .ok _ _
    · rw [if_neg h]
      exact .ok _ _
  · exact .error _ _

theorem permits_function (hs : s.target = .webGL)
    (f : WebShader.Function × List (WebShader.Stmt Term)) :
    Permits (function s f) (function s.upgrade f) :=
  (permits_typeOf hs _).bind fun _ _ _ _ =>
    (Permits.mapM fun _ _ => .bind_left fun d _ => permits_field hs d.name d.type).bind
      fun _ _ _ _ => ((permits_lowering hs).block f.2).bind fun _ _ _ _ => .ok _ _

/-- GLSL ES 1.00 uses the types that GLSL ES 3.00 uses, and the blocks. -/
theorem usedTypes_eq_append (hs : s.target = .webGL) :
    s.usedTypes = s.upgrade.usedTypes ++ s.records.filterMap (·.content.block?) := by
  have hblocks : s.blockTypes = s.records.filterMap (·.content.block?) := by
    rw [ResolvedStage.blockTypes, if_neg (by simp [hs])]
  have hnone : s.upgrade.blockTypes = [] := rfl
  rw [ResolvedStage.usedTypes, ResolvedStage.usedTypes, hblocks, hnone, List.append_nil]
  rfl

/-- The structs that GLSL ES 3.00 declares are the first ones that GLSL ES 1.00 declares. -/
theorem prefix_structTypes_upgrade (hs : s.target = .webGL) :
    s.upgrade.structTypes <+: s.structTypes := by
  rw [ResolvedStage.structTypes, ResolvedStage.structTypes, usedTypes_eq_append hs,
    List.foldl_append]
  exact Registry.prefix_foldl (Registry.prefix_addStructs _) _ _

/-- A uniform block is declared as a struct in GLSL ES 1.00. -/
theorem mem_structTypes_of_block (hs : s.target = .webGL) {b : Binding.Record}
    (hb : b ∈ s.records) {t : TypeId} (ht : b.content = .uniformBlock t) {st : StructType}
    (hst : s.types.struct? t = some st) : t ∈ s.structTypes := by
  have hkind : s.types.kind t = .struct st := by
    unfold Registry.struct? at hst
    split at hst
    · rename_i st' hk
      rw [hk, Option.some.inj hst]
    · cases hst
  refine Registry.mem_foldl_addStructs hkind ?_ []
  rw [usedTypes_eq_append hs]
  exact List.mem_append_right _ (List.mem_filterMap.mpr ⟨b, hb, by rw [ht]; rfl⟩)

/-- What GLSL ES 1.00 declares as a variable of a struct type, GLSL ES 3.00 declares in place. -/
theorem exists_uniform_upgrade (hs : s.target = .webGL) {structs : List Struct}
    (hstructs : s.structTypes.mapM (struct s) = .ok structs) {b : Binding.Record}
    (hb : b ∈ s.records) : Permits (uniform s b) (uniform s.upgrade b) := by
  intro u hu
  unfold uniform at hu ⊢
  cases hcontent : b.content with
  | uniformBlock t =>
      rw [hcontent] at hu
      dsimp only at hu ⊢
      rw [show s.upgrade.types.struct? t = s.types.struct? t from rfl]
      cases hst : s.types.struct? t with
      | none =>
          rw [hst] at hu
          cases hu
      | some st =>
          -- WebGL declares the struct of the block before, where WebGL 2 writes its fields in place
          obtain ⟨decl, hdecl⟩ :=
            exists_of_mapM_eq_ok hstructs (mem_structTypes_of_block hs hb hcontent hst)
          obtain ⟨decl', hdecl'⟩ := permits_struct hs t decl hdecl
          obtain ⟨st', hst', hfields⟩ := bind_eq_ok_iff.mp hdecl'
          obtain ⟨fields, hfields, -⟩ := bind_eq_ok_iff.mp hfields
          have hsame : s.upgrade.struct t = .ok st := by
            rw [ResolvedStage.struct, show s.upgrade.types.struct? t = s.types.struct? t from rfl,
              hst]
          rw [hsame] at hst'
          rw [← Except.ok.inj hst'] at hfields
          exact ⟨_, bind_eq_ok_iff.mpr ⟨fields, hfields, rfl⟩⟩
  | storageBuffer t readOnly =>
      rw [hcontent] at hu
      cases hu
  | texture t =>
      rw [hcontent] at hu
      obtain ⟨name, hname, -⟩ := bind_eq_ok_iff.mp hu
      obtain ⟨name', hname'⟩ := permits_samplerName t name (hs ▸ hname)
      exact ⟨_, bind_eq_ok_iff.mpr ⟨name', hname', rfl⟩⟩
  | sampler kind =>
      rw [hcontent] at hu
      cases hu

/-- The textures that GLSL ES 1.00 declares have samplers in GLSL ES 3.00. -/
theorem exists_samplers_upgrade {uniforms : List Uniform}
    (h : s.records.mapM (uniform s.upgrade) = .ok uniforms) :
    ∃ names, samplers s.upgrade = .ok names := by
  have hnames : ∀ t ∈ s.records.filterMap (·.content.texture?),
      ∃ name, samplerName .webGL2 t = .ok name := by
    intro t ht
    obtain ⟨b, hb, htexture⟩ := List.mem_filterMap.mp ht
    obtain ⟨u, hu⟩ := exists_of_mapM_eq_ok h hb
    unfold uniform at hu
    cases hcontent : b.content with
    | texture t' =>
        rw [hcontent] at hu htexture
        obtain ⟨name, hname, -⟩ := bind_eq_ok_iff.mp hu
        exact ⟨name, Option.some.inj htexture ▸ hname⟩
    | uniformBlock t | storageBuffer t readOnly | sampler kind =>
        rw [hcontent] at htexture
        cases htexture
  obtain ⟨names, hnames⟩ := exists_forall₂ hnames
  exact ⟨_, bind_eq_ok_iff.mpr ⟨names, mapM_eq_ok_iff.mpr hnames, rfl⟩⟩

/-- A stage that can be written in GLSL ES 1.00 can be written in GLSL ES 3.00. -/
theorem permits_module (hs : s.target = .webGL) : Permits (module s) (module s.upgrade) := by
  intro m hm
  rw [module, if_neg (by simp [hs])] at hm
  simp only [bind_eq_ok_iff] at hm
  obtain ⟨_, -, structs, hstructs, constants, hconstants, inputs, hinputs, outputs, houtputs,
    uniforms, huniforms, functions, hfunctions, main, hmain, -⟩ := hm
  have hstructs' : ∀ t ∈ s.upgrade.structTypes, ∃ st, struct s.upgrade t = .ok st := by
    intro t ht
    obtain ⟨st, hst⟩ :=
      exists_of_mapM_eq_ok hstructs ((prefix_structTypes_upgrade hs).subset ht)
    exact permits_struct hs t st hst
  obtain ⟨structs', hstructs'⟩ := exists_forall₂ hstructs'
  obtain ⟨constants', hconstants'⟩ :=
    (Permits.mapM fun c _ => permits_constant hs c) constants hconstants
  obtain ⟨inputs', hinputs'⟩ := (Permits.mapM fun v _ => permits_input hs v) inputs hinputs
  obtain ⟨outputs', houtputs'⟩ := (Permits.mapM fun v _ => permits_output hs v) outputs houtputs
  obtain ⟨uniforms', huniforms'⟩ :=
    (Permits.mapM fun b hb => exists_uniform_upgrade hs hstructs hb) uniforms huniforms
  obtain ⟨functions', hfunctions'⟩ :=
    (Permits.mapM fun f _ => permits_function hs f) functions hfunctions
  obtain ⟨main', hmain'⟩ := (permits_lowering hs).block s.main main hmain
  obtain ⟨names, hnames⟩ := exists_samplers_upgrade huniforms'
  rw [module, if_pos (show s.upgrade.target = .webGL2 from rfl)]
  simp only [bind_eq_ok_iff]
  exact ⟨_, names, hnames, structs', mapM_eq_ok_iff.mpr hstructs', constants', hconstants', inputs',
    hinputs', outputs', houtputs', uniforms', huniforms', functions', hfunctions', main', hmain',
    rfl⟩

end Modules

end Glsl

/-- A stage that has a source for WebGL has one for WebGL2. -/
theorem ResolvedStage.permits_source {s : ResolvedStage} (hs : s.target = .webGL) :
    Permits s.source s.upgrade.source := by
  have htext : Permits s.text s.upgrade.text := by
    rw [text, text, if_neg (by simp [hs]), if_neg (by simp [upgrade])]
    exact (Glsl.permits_module hs).map _ _
  exact htext.bind fun _ _ _ _ => .ok _ _

end WebShader
