import WebShader.Proofs.DeclaredStructs
import WebShader.Proofs.GlslNames

/-!
# Types in GLSL ES

Every declaration and every statement of the source of a stage that keeps to itself spells types by
structs that the stage declares. GLSL ES 3.00 has the members of blocks declared in place.
-/

namespace WebShader

namespace Glsl

/-! ## Spellings -/

/-- The names of the structs in the spelling of a type. -/
def TypeName.structNames : TypeName → List String
  | struct name => [name]
  | array element _ => element.structNames
  | void | primitive _ | sampler _ => []

/-- A spelling that only uses structs that the stage declares. -/
def IsDeclared (s : ResolvedStage) (name : TypeName) : Prop := name.structNames ⊆ s.structNames

section Spellings

variable {s : ResolvedStage} {name : TypeName}

/-- The empty type is always there. -/
@[simp] theorem isDeclared_void : IsDeclared s .void := List.nil_subset _

/-- A primitive type is always there. -/
@[simp] theorem isDeclared_primitive {p : PrimitiveType} : IsDeclared s (.primitive p) :=
  List.nil_subset _

/-- A sampler type is always there. -/
@[simp] theorem isDeclared_sampler {n : String} : IsDeclared s (.sampler n) := List.nil_subset _

/-- An array is declared if its elements are. -/
@[simp] theorem isDeclared_array {n : Nat} : IsDeclared s (.array name n) ↔ IsDeclared s name :=
  Iff.rfl

/-- A struct is declared if it is one of the structs of the stage. -/
@[simp] theorem isDeclared_struct {n : String} : IsDeclared s (.struct n) ↔ n ∈ s.structNames := by
  simp [IsDeclared, TypeName.structNames]

/-- A type whose structs are declared is spelled by them. -/
theorem isDeclared_typeName {target : Target} {t : TypeId} {name : TypeName} (ht : s.Covers t)
    (h : typeName s.types target t = .ok name) : IsDeclared s name := by
  rw [typeName] at h
  cases hk : s.types.kind t with
  | void =>
      rw [hk] at h
      rw [← Except.ok.inj h]
      exact isDeclared_void
  | primitive q =>
      rw [hk] at h
      rw [← Except.ok.inj h]
      exact isDeclared_primitive
  | struct st =>
      rw [hk] at h
      rw [← Except.ok.inj h]
      exact isDeclared_struct.mpr (ht.name_mem hk)
  | array element n =>
      rw [hk] at h
      dsimp only at h
      split_ifs at h with hn hdown
      obtain ⟨inner, hinner, rfl⟩ := map_eq_ok_iff.mp h
      exact isDeclared_array.mpr (isDeclared_typeName (ht.element hk) hinner)
  | texture texture =>
      rw [hk] at h
      obtain ⟨inner, -, rfl⟩ := map_eq_ok_iff.mp h
      exact isDeclared_sampler
  | pointer | sampler =>
      rw [hk] at h
      cases h
termination_by t.index

/-- A type that is covered is declared. -/
theorem isDeclared_typeOf {t : TypeId} (ht : s.Covers t) (h : typeOf s t = .ok name) :
    IsDeclared s name := isDeclared_typeName ht h

end Spellings

/-! ## Expressions -/

section Terms

variable {s : ResolvedStage}

theorem spells_variableExpr {P : TypeName → Prop} {v : VarId} {code : Expr}
    (h : variableExpr s v = .ok code) : code.Spells P := by
  simp only [variableExpr, bind_eq_ok_iff] at h
  obtain ⟨d, -, h⟩ := h
  split at h
  · obtain ⟨b, -, h⟩ := bind_eq_ok_iff.mp h
    rw [← Except.ok.inj h]
    simp
  · split at h
    · split at h <;> rw [← Except.ok.inj h] <;> simp
    · rw [← Except.ok.inj h]
      simp
  · rw [← Except.ok.inj h]
    simp

theorem spells_literal (value : Literal) {P : TypeName → Prop} : (literal value).Spells P := by
  cases value with
  | i32 i =>
      rw [literal]
      split
      · simp
      · simp
  | bool | u32 | f32 | f16 => simp [literal]

/-- A binary operation spells primitive types only, besides what its operands spell. -/
theorem spells_binary {op : BinaryOp} {lhs rhs code : Expr} {lt rt t : TypeId}
    (hl : lhs.Spells (IsDeclared s)) (hr : rhs.Spells (IsDeclared s))
    (h : binary s op lhs lt rhs rt t = .ok code) : code.Spells (IsDeclared s) := by
  unfold binary at h
  split at h
  · split at h
    · rw [← Except.ok.inj h]
      simpa using ⟨hl, hr⟩
    · split at h
      · unfold remainder at h
        split at h
        · rw [← Except.ok.inj h]
          simpa using ⟨hl, hr⟩
        · split at h
          · split at h
            · rw [← Except.ok.inj h]
              simpa [toFloat] using ⟨hl, hr⟩
            · cases h
          · rw [← Except.ok.inj h]
            simpa using ⟨hl, hr⟩
      · rw [← Except.ok.inj h]
        simpa using ⟨hl, hr⟩
  · cases h

theorem spells_unary {op : UnaryOp} {operand : Expr} {t : TypeId}
    (h : operand.Spells (IsDeclared s)) : (unary s op operand t).Spells (IsDeclared s) := by
  unfold unary
  split
  · simpa using h
  · simpa using h

theorem spells_construct {t : TypeId} {args : List Expr} {code : Expr} (ht : s.Covers t)
    (hargs : ∀ e ∈ args, e.Spells (IsDeclared s)) (h : construct s t args = .ok code) :
    code.Spells (IsDeclared s) := by
  unfold construct at h
  split at h
  · unfold zero at h
    split at h
    · cases h
    · rw [← Except.ok.inj h]
      split
      · simp
      · simp
  · obtain ⟨name, hname, rfl⟩ := map_eq_ok_iff.mp h
    exact Code.Expr.spells_construct.mpr ⟨isDeclared_typeOf ht hname, hargs⟩

/-- A call on a texture in GLSL ES 3.00 spells vectors only, besides what its arguments spell. -/
theorem spells_lookup300 {f : Intrinsic} {t : TextureType} {texture : Expr} {args : List Expr}
    {code : Expr} (htexture : texture.Spells (IsDeclared s))
    (hargs : ∀ e ∈ args, e.Spells (IsDeclared s)) (h : lookup300 f t texture args = some code) :
    code.Spells (IsDeclared s) := by
  unfold lookup300 at h
  split at h
  case h_9 =>
    -- the size of a texture may be asked for without a level
    have hlevel : (args.head?.getD (.literal "0")).Spells (IsDeclared s) := by
      cases args with
      | nil => simp
      | cons e rest => exact hargs e List.mem_cons_self
    rw [← Option.some.inj h]
    split
    · simpa using ⟨htexture, hlevel⟩
    · simpa using ⟨htexture, hlevel⟩
  all_goals
    first
    | rw [← Option.some.inj h]
      simpa [vec, float, htexture, or_imp, forall_and, and_assoc] using hargs
    | cases h

theorem spells_lookup100 {stage : Stage} {f : Intrinsic} {t : TextureType} {texture : Expr}
    {args : List Expr} {code : Expr} {P : TypeName → Prop} (htexture : texture.Spells P)
    (hargs : ∀ e ∈ args, e.Spells P) (h : lookup100 stage f t texture args = some code) :
    code.Spells P := by
  unfold lookup100 at h
  dsimp only at h
  split at h
  all_goals
    first
    | rw [← Option.some.inj h]
      simpa [htexture, or_imp, forall_and, and_comm] using hargs
    | cases h

/-- A call on a texture spells vectors only, besides what its arguments spell. -/
theorem spells_textureCall {f : Intrinsic} {t : Option TextureType} {args : List Expr}
    {code : Expr} (hargs : ∀ e ∈ args, e.Spells (IsDeclared s))
    (h : textureCall s f t args = .ok code) : code.Spells (IsDeclared s) := by
  unfold textureCall at h
  split at h
  · cases h
  · rename_i texture args
    rw [List.forall_mem_cons] at hargs
    split at h
    · cases h
    · rename_i t
      dsimp only at h
      split at h
      · rename_i e hcall
        rw [← Except.ok.inj h]
        split_ifs at hcall
        · exact spells_lookup100 hargs.1 hargs.2 hcall
        · exact spells_lookup300 hargs.1 hargs.2 hcall
      · cases h

mutual

/-- A term spells what its types are spelled by. -/
theorem spells_expr : (e : Term) → {code : Expr} → (∀ t ∈ e.types, s.Covers t) →
    expr s e = .ok code → code.Spells (IsDeclared s)
  | .literal _ value, code, _, h => by
      rw [expr] at h
      rw [← Except.ok.inj h]
      exact spells_literal value
  | .var _ v, code, _, h => by
      rw [expr] at h
      exact spells_variableExpr h
  | .builtin _ b, code, _, h => by
      rw [expr] at h
      rw [← Except.ok.inj h]
      exact Code.Expr.spells_name _
  | .member _ base i, code, he, h => by
      rw [Term.types, List.forall_mem_cons] at he
      simp only [expr, bind_eq_ok_iff] at h
      obtain ⟨m, -, value, hvalue, h⟩ := h
      rw [← Except.ok.inj h, Code.Expr.spells_field]
      exact spells_expr base he.2 hvalue
  | .swizzle _ base mask, code, he, h => by
      rw [Term.types, List.forall_mem_cons] at he
      simp only [expr, bind_eq_ok_iff] at h
      obtain ⟨value, hvalue, h⟩ := h
      rw [← Except.ok.inj h, Code.Expr.spells_field]
      exact spells_expr base he.2 hvalue
  | .index _ base i, code, he, h => by
      rw [Term.types, List.forall_mem_cons, List.forall_mem_append] at he
      simp only [expr, bind_eq_ok_iff] at h
      obtain ⟨value, hvalue, index, hindex, h⟩ := h
      rw [← Except.ok.inj h, Code.Expr.spells_index]
      exact ⟨spells_expr base he.2.1 hvalue, spells_expr i he.2.2 hindex⟩
  | .unary _ op operand, code, he, h => by
      rw [Term.types, List.forall_mem_cons] at he
      simp only [expr, bind_eq_ok_iff] at h
      obtain ⟨value, hvalue, h⟩ := h
      rw [← Except.ok.inj h]
      exact spells_unary (spells_expr operand he.2 hvalue)
  | .binary _ op lhs rhs, code, he, h => by
      rw [Term.types, List.forall_mem_cons, List.forall_mem_append] at he
      simp only [expr, bind_eq_ok_iff] at h
      obtain ⟨l, hl, r, hr, h⟩ := h
      exact spells_binary (spells_expr lhs he.2.1 hl) (spells_expr rhs he.2.2 hr) h
  | .construct t args, code, he, h => by
      rw [Term.types, List.forall_mem_cons] at he
      simp only [expr, bind_eq_ok_iff] at h
      obtain ⟨values, hvalues, h⟩ := h
      exact spells_construct he.1 (spells_exprs args he.2 hvalues) h
  | .call _ f args, code, he, h => by
      rw [Term.types, List.forall_mem_cons] at he
      simp only [expr, bind_eq_ok_iff] at h
      obtain ⟨fn, -, values, hvalues, h⟩ := h
      rw [← Except.ok.inj h, Code.Expr.spells_call]
      exact spells_exprs args he.2 hvalues
  | .intrinsic _ f args, code, he, h => by
      rw [Term.types, List.forall_mem_cons] at he
      simp only [expr, bind_eq_ok_iff] at h
      obtain ⟨lowered, hlowered, h⟩ := h
      have hargs := spells_exprs args he.2 hlowered
      split at h
      · exact spells_textureCall hargs h
      · rw [← Except.ok.inj h, Code.Expr.spells_builtin]
        exact hargs
  | .addressOf _ _, code, _, h | .deref _ _, code, _, h => by
      rw [expr] at h
      cases h

theorem spells_exprs : (es : List Term) → {codes : List Expr} →
    (∀ t ∈ Term.typesOf es, s.Covers t) → exprs s es = .ok codes →
      ∀ code ∈ codes, code.Spells (IsDeclared s)
  | [], codes, _, h => by
      rw [exprs] at h
      rw [← Except.ok.inj h]
      simp
  | e :: rest, codes, he, h => by
      rw [Term.typesOf, List.forall_mem_append] at he
      simp only [exprs, bind_eq_ok_iff] at h
      obtain ⟨value, hvalue, others, hothers, h⟩ := h
      rw [← Except.ok.inj h, List.forall_mem_cons]
      exact ⟨spells_expr e he.1 hvalue, spells_exprs rest he.2 hothers⟩

end

/-- An assignment spells what its target and its value spell. -/
theorem spells_assign {target value : Term} {op : Option BinaryOp} {code : Stmt}
    (htarget : ∀ t ∈ target.types, s.Covers t) (hvalue : ∀ t ∈ value.types, s.Covers t)
    (h : assign s target op value = .ok code) : ∀ name ∈ code.types, IsDeclared s name := by
  simp only [assign, bind_eq_ok_iff] at h
  obtain ⟨t, ht, v, hv, h⟩ := h
  have ht := spells_expr target htarget ht
  have hv := spells_expr value hvalue hv
  cases op with
  | none =>
      rw [← Except.ok.inj h]
      exact List.forall_mem_append.mpr ⟨ht, hv⟩
  | some op =>
      dsimp only at h
      split_ifs at h
      · obtain ⟨combined, hcombined, h⟩ := bind_eq_ok_iff.mp h
        rw [← Except.ok.inj h]
        exact List.forall_mem_append.mpr ⟨ht, spells_binary ht hv hcombined⟩
      · rw [← Except.ok.inj h]
        exact List.forall_mem_append.mpr ⟨ht, hv⟩

/-- The statements of a stage that keeps to itself spell what it declares. -/
theorem spellsTypes_lowering (h : s.IsClosed) : (lowering s).SpellsTypes (IsDeclared s) s.Owns
    s.Covers (·.IsPlace s.types s.vars) where
  var hv hd htype := isDeclared_typeOf (h.covers_var hv hd) htype
  expr he hcode := spells_expr _ he hcode
  assign _ htarget hvalue hcode := spells_assign htarget hvalue hcode
  eval he hcode := by
    obtain ⟨value, hvalue, rfl⟩ := map_eq_ok_iff.mp hcode
    exact spells_expr _ he hvalue
  doWhile hbody hcond := List.forall_mem_append.mpr ⟨hbody, hcond⟩

end Terms

/-! ## Sources -/

/-- The types that a uniform spells; a block is declared in place, and is no struct. -/
def Uniform.types : Uniform → List TypeName
  | block d _ => d.fields.map (·.type)
  | plain f => [f.type]

/-- The types that a function spells. -/
def Function.types (f : Function) : List TypeName :=
  f.result :: f.params.map (·.type) ++ Code.Stmt.blockTypes f.body

/-- The types that a source spells: in its structs, its constants, what enters and leaves the stage,
its uniforms, its functions and the body of its entry point. -/
def Module.types (m : Module) : List TypeName :=
  m.structs.flatMap (·.fields.map (·.type)) ++
    m.constants.flatMap (fun c => c.field.type :: c.value.types) ++
    m.interfaces.map (·.field.type) ++ m.uniforms.flatMap Uniform.types ++
    m.functions.flatMap Function.types ++ Code.Stmt.blockTypes m.main

section Sources

variable {s : ResolvedStage}

/-- A declaration of a covered type has a declared type. -/
theorem type_of_field {name : String} {t : TypeId} {f : Field} (ht : s.Covers t)
    (h : field s name t = .ok f) : IsDeclared s f.type := by
  obtain ⟨type, htype, h⟩ := bind_eq_ok_iff.mp h
  rw [← Except.ok.inj h]
  exact isDeclared_typeOf ht htype

/-- The fields of members whose structs are declared. -/
theorem types_of_members {members : List Member} {fields : List Field}
    (hmembers : ∀ m ∈ members, s.Covers m.type)
    (h : members.mapM (fun m => field s m.name m.type) = .ok fields) :
    ∀ name ∈ fields.map (·.type), IsDeclared s name := by
  refine List.forall_mem_map.mpr (forall_of_mapM h fun m hm f hfield => ?_)
  exact type_of_field (hmembers m hm) hfield

/-- The members of a covered struct have declared types. -/
theorem types_of_struct {t : TypeId} {d : Struct} (ht : s.Covers t) (h : struct s t = .ok d) :
    ∀ name ∈ d.fields.map (·.type), IsDeclared s name := by
  simp only [struct, bind_eq_ok_iff] at h
  obtain ⟨st, hst, fields, hfields, h⟩ := h
  have hk := ResolvedStage.struct_eq_ok_iff.mp hst
  rw [← Except.ok.inj h]
  exact types_of_members (fun m hm => ht.member hk hm) hfields

/-- A constant and its initializer have declared types. -/
theorem types_of_constant (h : s.IsClosed) {c : Variable × Term} {k : Constant}
    (hc : c ∈ s.constants) (hk : constant s c = .ok k) :
    ∀ name ∈ k.field.type :: k.value.types, IsDeclared s name := by
  obtain ⟨htype, hvalue⟩ := h.covers_constant hc
  simp only [constant, bind_eq_ok_iff] at hk
  obtain ⟨f, hf, value, hexpr, hk⟩ := hk
  rw [← Except.ok.inj hk, List.forall_mem_cons]
  exact ⟨type_of_field htype hf, spells_expr _ hvalue hexpr⟩

/-- An input has a declared type. -/
theorem type_of_input (h : s.IsClosed) {v : VarId} {i : Interface} (hv : v ∈ s.decls.inputs)
    (hi : input s v = .ok i) : IsDeclared s i.field.type := by
  simp only [input, bind_eq_ok_iff] at hi
  obtain ⟨d, hd, f, hf, hi⟩ := hi
  have htype := h.covers_var (h.globals v (ResolvedStage.mem_globals_of_inputs hv)) hd
  split at hi
  · rw [← Except.ok.inj hi]
    exact type_of_field htype hf
  · cases hi

/-- An output has a declared type. -/
theorem type_of_output (h : s.IsClosed) {v : VarId} {i : Interface} (hv : v ∈ s.decls.outputs)
    (hi : output s v = .ok (some i)) : IsDeclared s i.field.type := by
  simp only [output, bind_eq_ok_iff] at hi
  obtain ⟨d, hd, f, hf, hi⟩ := hi
  have htype := h.covers_var (h.globals v (ResolvedStage.mem_globals_of_outputs hv)) hd
  have hfield : i.field = f := by
    split at hi
    · split_ifs at hi
      all_goals
        have hi := Except.ok.inj hi
        first
        | rw [← Option.some.inj hi]
        | cases hi
    · cases hi
  rw [hfield]
  exact type_of_field htype hf

/-- What is bound has declared types. -/
theorem types_of_uniform (h : s.IsClosed) {b : Binding.Record} {u : Uniform} (hb : b ∈ s.records)
    (hu : uniform s b = .ok u) : ∀ name ∈ u.types, IsDeclared s name := by
  unfold uniform at hu
  split at hu
  · rename_i t hcontent
    split at hu
    · cases hu
    · rename_i st hst
      have hk := Registry.struct?_eq_some_iff.mp hst
      by_cases htarget : s.target = .webGL2
      · rw [if_pos htarget] at hu
        obtain ⟨fields, hfields, hu⟩ := bind_eq_ok_iff.mp hu
        rw [← Except.ok.inj hu]
        -- the members of a block declared in place are uniforms of the stage
        exact types_of_members
          (fun m hm => h.covers_variable (h.blocks b hb t st hcontent hk m hm)) hfields
      · rw [if_neg htarget] at hu
        rw [← Except.ok.inj hu, Uniform.types, List.forall_mem_singleton]
        exact isDeclared_struct.mpr ((h.covers_block htarget hb hcontent).name_mem hk)
  · obtain ⟨n, -, hu⟩ := bind_eq_ok_iff.mp hu
    rw [← Except.ok.inj hu, Uniform.types, List.forall_mem_singleton]
    exact isDeclared_sampler
  · cases hu

/-- A function has declared types. -/
theorem types_of_function (h : s.IsClosed) {f : WebShader.Function × List (WebShader.Stmt Term)}
    {g : Function} (hf : f ∈ s.functions) (hg : function s f = .ok g) :
    ∀ name ∈ g.types, IsDeclared s name := by
  obtain ⟨hresult, htypes⟩ := h.covers_function hf
  simp only [function, bind_eq_ok_iff] at hg
  obtain ⟨result, hname, params, hparams, body, hbody, hg⟩ := hg
  rw [← Except.ok.inj hg, Function.types, List.forall_mem_append, List.forall_mem_cons]
  refine ⟨⟨isDeclared_typeOf hresult hname, ?_⟩, ?_⟩
  · refine List.forall_mem_map.mpr (forall_of_mapM hparams fun v hv p hfield => ?_)
    obtain ⟨d, hd, hfield⟩ := bind_eq_ok_iff.mp hfield
    exact type_of_field (h.covers_var (h.params f hf v hv) hd) hfield
  · exact Code.Lowering.spells_block (spellsTypes_lowering h) f.2 (h.bodies f hf) htypes hbody

/-- The structs of a source are the declarations of those of its stage. -/
theorem structs_of_module {m : Module} (h : module s = .ok m) :
    List.Forall₂ (fun t d => struct s t = .ok d) s.structTypes m.structs := by
  have hstructs : s.structTypes.mapM (struct s) = .ok m.structs := by
    unfold module at h
    by_cases htarget : s.target = .webGL2
    · simp only [htarget, ↓reduceIte, bind_eq_ok_iff] at h
      obtain ⟨_, -, structs, hstructs, _, -, _, -, _, -, _, -, _, -, _, -, h⟩ := h
      rw [← Except.ok.inj h, hstructs]
    · simp only [htarget, ↓reduceIte, pure_bind, bind_eq_ok_iff] at h
      obtain ⟨structs, hstructs, _, -, _, -, _, -, _, -, _, -, _, -, h⟩ := h
      rw [← Except.ok.inj h, hstructs]
  exact mapM_eq_ok_iff.mp hstructs

/-- A source declares the structs of its stage in order, and wherever it spells types, it only uses
these. -/
structure Module.DeclaresStructs (s : ResolvedStage) (m : Module) : Prop where
  structs : List.Forall₂ (fun t d => struct s t = .ok d) s.structTypes m.structs
  types : ∀ name ∈ m.types, IsDeclared s name

/-- The source of a stage that keeps to itself declares the structs that it spells. -/
theorem declaresStructs_of_module (h : s.IsClosed) {m : Module} (hm : module s = .ok m) :
    m.DeclaresStructs s := by
  have hof := Module.of_module hm
  have hstructs := structs_of_module hm
  obtain ⟨inputs, outputs, hinputs, houtputs, hinterfaces⟩ := hof.interfaces
  refine ⟨hstructs, ?_⟩
  simp only [Module.types, List.forall_mem_append, List.forall_mem_flatMap]
  refine ⟨⟨⟨⟨⟨?_, ?_⟩, ?_⟩, ?_⟩, ?_⟩, ?_⟩
  · intro d hd
    obtain ⟨t, ht, hd⟩ := exists_mem_of_forall₂ hstructs d hd
    exact types_of_struct (ResolvedStage.covers_of_mem h.sound.wellFormed ht) hd
  · intro k hk
    obtain ⟨c, hc, hk⟩ := exists_mem_of_forall₂ hof.constants k hk
    exact types_of_constant h hc hk
  · intro name hname
    rw [hinterfaces] at hname
    obtain ⟨i, hi, rfl⟩ := List.mem_map.mp hname
    rcases List.mem_append.mp hi with hi | hi
    · obtain ⟨v, hv, hi⟩ := exists_mem_of_forall₂ hinputs i hi
      exact type_of_input h hv hi
    · obtain ⟨o, ho, rfl⟩ := List.mem_filterMap.mp hi
      obtain ⟨v, hv, ho⟩ := exists_mem_of_forall₂ houtputs _ ho
      exact type_of_output h hv ho
  · intro u hu
    obtain ⟨b, hb, hu⟩ := exists_mem_of_forall₂ hof.uniforms u hu
    exact types_of_uniform h hb hu
  · intro g hg
    obtain ⟨f, hf, hg⟩ := exists_mem_of_forall₂ hof.functions g hg
    exact types_of_function h hf hg
  · exact Code.Lowering.spells_block (spellsTypes_lowering h) s.main h.main h.covers_main hof.main

end Sources

end Glsl

end WebShader
