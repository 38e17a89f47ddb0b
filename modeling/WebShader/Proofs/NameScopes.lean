import WebShader.Proofs.PrintedScopes
import WebShader.Proofs.ScopeDiscipline
import WebShader.Resolved

/-!
# What names refer to

A name of a source refers to its declaration in the innermost scope that has one. The scopes around
an expression are those of the function it is in, and around them the one of the source, where only
made-up names may be declared twice: those of the blocks of uniforms, of the samplers of textures,
and of the variables that hold what enters and leaves a stage.
-/

namespace WebShader

/-! ## Mentions -/

/-- What the names of an expression are spelled for: a variable, a built-in variable, or the sampler
that a texture is paired with. -/
inductive Mention where
  | var (v : VarId)
  | builtin (b : Builtin)
  | sampler (texture : VarId)
  deriving DecidableEq

namespace Term

/-- The sampler of a texture that comes first among arguments. -/
def samplerOf : List Term → List Mention
  | var _ v :: _ => [.sampler v]
  | _ => []

mutual

/-- What an expression mentions. -/
def mentions : Term → List Mention
  | literal _ _ => []
  | var _ v => [.var v]
  | builtin _ b => [.builtin b]
  | member _ base _ | swizzle _ base _ => base.mentions
  | index _ base i => base.mentions ++ i.mentions
  | unary _ _ operand => operand.mentions
  | binary _ _ lhs rhs => lhs.mentions ++ rhs.mentions
  | construct _ args | call _ _ args => mentionsOf args
  | intrinsic _ _ args => samplerOf args ++ mentionsOf args
  | addressOf _ place => place.mentions
  | deref _ pointer => pointer.mentions

/-- What several expressions mention. -/
def mentionsOf : List Term → List Mention
  | [] => []
  | e :: rest => e.mentions ++ mentionsOf rest

end

mutual

/-- The functions that an expression calls. -/
def callees : Term → List FunctionId
  | literal _ _ | var _ _ | builtin _ _ => []
  | member _ base _ | swizzle _ base _ => base.callees
  | index _ base i => base.callees ++ i.callees
  | unary _ _ operand => operand.callees
  | binary _ _ lhs rhs => lhs.callees ++ rhs.callees
  | construct _ args | intrinsic _ _ args => calleesOf args
  | call _ f args => f :: calleesOf args
  | addressOf _ place => place.callees
  | deref _ pointer => pointer.callees

/-- The functions that several expressions call. -/
def calleesOf : List Term → List FunctionId
  | [] => []
  | e :: rest => e.callees ++ calleesOf rest

end

end Term

/-! ## Calls -/

namespace ResolvedStage

/-- The name that a function is called by in a source. -/
def callName? (s : ResolvedStage) (f : FunctionId) : Option String :=
  (s.decls.function? f).map s.functionName

/-- The names of the functions that an expression calls. -/
def calling (s : ResolvedStage) (e : Term) : List String := e.callees.filterMap s.callName?

/-- What a tree calls is among the names it calls. -/
theorem mem_calling (s : ResolvedStage) {e : Term} {f : FunctionId} (hf : f ∈ e.callees)
    {name : String} (hname : name ∈ (s.callName? f).toList) : name ∈ s.calling e :=
  List.mem_filterMap.mpr ⟨f, hf, Option.mem_toList.mp hname⟩

/-- A function is called by its name in the source. -/
theorem callName?_of_function {s : ResolvedStage} {f : FunctionId} {fn : Function}
    (h : s.function f = .ok fn) : s.callName? f = some (s.functionName fn) := by
  unfold ResolvedStage.function at h
  rw [callName?]
  cases hf : s.decls.function? f with
  | none =>
      rw [hf] at h
      cases h
  | some fn' =>
      rw [hf] at h
      rw [Except.ok.inj h, Option.map_some]

end ResolvedStage

/-! ## Declarations of a source -/

/-- A declaration of a source: its name, the variables of the program that it declares or holds, and
whether the name was made up rather than given by an author. -/
structure Declaration where
  name : String
  holds : List VarId
  isGenerated : Bool := false
  deriving DecidableEq

/-- The declarations that a name refers to among scopes, from the innermost out: those of the name
in the first scope that has one. -/
def referents (name : String) : List (List Declaration) → List Declaration
  | [] => []
  | scope :: outer =>
    if (scope.filter (·.name == name)).isEmpty then referents name outer
    else scope.filter (·.name == name)

/-- A name refers to the declaration of a variable, and to nothing else that an author has named.
But if scopes further in declare the name, it refers to what they declare. -/
structure RefersTo (scopes : List (List Declaration)) (name : String) (v : VarId)
    (inner : List (List Declaration)) (d : Declaration) : Prop where
  declared : ∃ scope outer, scopes = inner ++ scope :: outer ∧ d ∈ scope
  named : d.name = name
  holds : v ∈ d.holds
  found : referents name inner = [] → d ∈ referents name scopes ∧
    ∀ d' ∈ referents name scopes, d' = d ∨ d.isGenerated = true ∨ d'.isGenerated = true
  hidden : referents name inner ≠ [] → referents name scopes = referents name inner

section Referents

variable {name : String} {scope : List Declaration} {inner outer : List (List Declaration)}
  {d : Declaration}

/-- A name refers to the inner scopes first, and then to the outer ones. -/
theorem referents_append (name : String) (inner outer : List (List Declaration)) :
    referents name (inner ++ outer) =
      if (referents name inner).isEmpty then referents name outer else referents name inner := by
  induction inner with
  | nil => rfl
  | cons scope inner ih =>
      rw [List.cons_append, referents, referents, ih]
      by_cases hscope : (scope.filter (·.name == name)).isEmpty = true
      · rw [if_pos hscope, if_pos hscope]
      · rw [if_neg hscope, if_neg hscope, if_neg hscope]

/-- A name refers to nothing exactly when no scope declares it. -/
theorem referents_eq_nil_iff {scopes : List (List Declaration)} :
    referents name scopes = [] ↔ ∀ scope ∈ scopes, ∀ d ∈ scope, d.name ≠ name := by
  induction scopes with
  | nil => simp [referents]
  | cons scope outer ih =>
      have hscope : (scope.filter (·.name == name)).isEmpty = true ↔
          ∀ d ∈ scope, d.name ≠ name := by
        simp [List.filter_eq_nil_iff]
      rw [referents, List.forall_mem_cons]
      by_cases hempty : (scope.filter (·.name == name)).isEmpty = true
      · rw [if_pos hempty, ih]
        exact ⟨fun h => ⟨hscope.mp hempty, h⟩, fun h => h.2⟩
      · rw [if_neg hempty]
        constructor
        · intro hnil
          rw [hnil] at hempty
          exact absurd rfl hempty
        · intro h
          exact absurd (hscope.mpr h.1) hempty

/-- A declaration is what its name refers to, if its scope has no other of the name but generated
ones and no scope further in has one at all. -/
theorem refersTo_of_mem {v : VarId} (hd : d ∈ scope) (hv : v ∈ d.holds)
    (hunique : ∀ d' ∈ scope, d'.name = d.name →
      d' = d ∨ d.isGenerated = true ∨ d'.isGenerated = true) :
    RefersTo (inner ++ scope :: outer) d.name v inner d := by
  refine ⟨⟨scope, outer, rfl, hd⟩, rfl, hv, fun hinner => ?_, fun hinner => ?_⟩
  · have hmem : d ∈ scope.filter (·.name == d.name) := List.mem_filter.mpr ⟨hd, by simp⟩
    have hfilter : ¬(scope.filter (·.name == d.name)).isEmpty = true := by
      rw [List.isEmpty_iff]
      exact List.ne_nil_of_mem hmem
    rw [referents_append, hinner, if_pos List.isEmpty_nil, referents, if_neg hfilter]
    refine ⟨hmem, fun d' hd' => ?_⟩
    obtain ⟨hd', hname⟩ := List.mem_filter.mp hd'
    exact hunique d' hd' (by simpa using hname)
  · rw [referents_append, if_neg]
    rwa [List.isEmpty_iff]

end Referents

/-! ## Texts of a stage -/

/-- A variable of the stage is one of the builder's. -/
theorem ResolvedStage.var_eq_ok_iff {s : ResolvedStage} {v : VarId} {d : Variable} :
    s.var v = .ok d ↔ s.vars[v.index]? = some d := by
  unfold ResolvedStage.var
  cases s.vars[v.index]? with
  | none => simp
  | some d' => simp

/-- The declaration of a variable that is declared by itself. -/
def ownDeclaration (vars : Array Variable) (v : VarId) : Declaration := ⟨nameIn vars v, [v], false⟩

/-- The scopes around a text, the one of the source being the last. -/
def Place.scopes {ε : Type} (vars : Array Variable) (globals : List Declaration) (q : Place ε) :
    List (List Declaration) :=
  q.printed.map (·.map (ownDeclaration vars)) ++ [globals]

namespace ResolvedStage

/-- The texts of a stage, in the order of its source: the values of its constants, its functions and
its entry point. -/
def places (s : ResolvedStage) (testsInside : Bool) : List (Place Term) :=
  s.constants.map (fun c => ⟨[], [], [c.2]⟩) ++
    s.functions.flatMap (fun f => Stmt.blockPlaces testsInside [] f.1.params f.2) ++
    Stmt.blockPlaces testsInside [] [] s.main

/-- Whether a variable is the output of a fragment in GLSL ES 1.00, which has a built-in name. -/
def IsFragmentColor (s : ResolvedStage) (v : VarId) : Prop :=
  s.target = .webGL ∧ s.stage = .fragment ∧ v ∈ s.decls.outputs

/-- What is true of an expression of a source, given what a language spells by which names and what
its source declares. The scopes around the expression are known, as are the mentions it is spelled
for. The variables mentioned while their scope is open are spelled by one name, and it refers to
their declaration; the built-in outputs of a fragment have none, and nothing declares their name. -/
structure Resolves {τ : Type} (s : ResolvedStage) (spelling : Mention → List String)
    (globals : List Declaration) (u : Code.Use τ) (q : Place Term) : Prop where
  scopes : u.scopes = (q.scopes s.vars globals).map (·.map (·.name))
  names : ∀ name ∈ u.expr.names, ∃ e ∈ q.exprs, ∃ m ∈ e.mentions, name ∈ spelling m
  opened : q.opened ⊆ q.printed
  mentioned : ∀ e ∈ q.exprs, ∀ v, .var v ∈ e.mentions →
    (v ∈ s.decls.globals ∨ ∃ scope ∈ q.opened, v ∈ scope) →
      ∃ name, spelling (.var v) = [name] ∧
        ((∃ inner d, RefersTo (q.scopes s.vars globals) name v inner d) ∨
          s.IsFragmentColor v ∧ referents name (q.scopes s.vars globals) = [])

/-- The scopes inside the functions of a stage have names of their own. -/
structure HasLocals (s : ResolvedStage) : Prop where
  functions : ∀ f ∈ s.functions, ∀ scope ∈ Stmt.blockScopes f.1.params f.2, Locals s.vars scope
  main : ∀ scope ∈ Stmt.blockScopes [] s.main, Locals s.vars scope

variable {s : ResolvedStage}

/-- Every text of a stage stands in scopes that have names of their own. -/
theorem HasLocals.within (h : s.HasLocals) (testsInside : Bool) :
    ∀ q ∈ s.places testsInside, q.Within (Locals s.vars) := by
  have hprefix := prefixClosed_locals s.vars
  have hnone : ∀ scope ∈ ([] : List (List VarId)), Locals s.vars scope := by simp
  intro q hq
  rcases List.mem_append.mp hq with hq | hq
  · rcases List.mem_append.mp hq with hq | hq
    · obtain ⟨c, -, rfl⟩ := List.mem_map.mp hq
      exact Place.within_self hnone
    · obtain ⟨f, hf, hq⟩ := List.mem_flatMap.mp hq
      exact Stmt.within_blockPlaces hprefix hnone f.1.params f.2 (h.functions f hf) q hq
  · exact Stmt.within_blockPlaces hprefix hnone [] s.main h.main q hq

/-- A local variable is what its name refers to, if no scope further in has the name. -/
theorem refersTo_of_local (globals : List Declaration) {q : Place Term} {v : VarId}
    (hq : q.Within (Locals s.vars)) {scope : List VarId} (hscope : scope ∈ q.opened)
    (hv : v ∈ scope) :
    ∃ inner, RefersTo (q.scopes s.vars globals) (nameIn s.vars v) v inner
      (ownDeclaration s.vars v) := by
  have hlocals := hq.all scope (hq.subset hscope)
  obtain ⟨before, after, hsplit⟩ := List.append_of_mem (hq.subset hscope)
  refine ⟨before.map (·.map (ownDeclaration s.vars)), ?_⟩
  have hscopes : q.scopes s.vars globals = before.map (·.map (ownDeclaration s.vars)) ++
      scope.map (ownDeclaration s.vars) ::
        (after.map (·.map (ownDeclaration s.vars)) ++ [globals]) := by
    rw [Place.scopes, hsplit]
    simp
  rw [hscopes]
  refine refersTo_of_mem (List.mem_map_of_mem hv) (List.mem_singleton_self v) ?_
  intro d' hd' hname
  left
  obtain ⟨w, hw, rfl⟩ := List.mem_map.mp hd'
  rw [List.inj_on_of_nodup_map hlocals.nodup hw hv hname]

/-- What a language must do for its names to refer to what they should: spell local variables by
their names, spell global ones by the name of a declaration of the source that holds them, and make
up the names of those that share one. -/
structure Declares (s : ResolvedStage) (spelling : Mention → List String)
    (globals : List Declaration) : Prop where
  locals : ∀ v, DeclaredAs s.vars (fun role => role = .localVar ∨ role = .param) v →
    spelling (.var v) = [nameIn s.vars v]
  held : ∀ v ∈ s.decls.globals, (∃ d ∈ globals, spelling (.var v) = [d.name] ∧ v ∈ d.holds) ∨
    s.IsFragmentColor v ∧ ∃ name, spelling (.var v) = [name] ∧ isIdentifier name = false ∧
      ∀ d ∈ globals, d.name ≠ name
  distinct : ∀ d ∈ globals, ∀ d' ∈ globals, d'.name = d.name →
    d' = d ∨ d.isGenerated = true ∨ d'.isGenerated = true

/-- The names of a source refer to what they should. -/
theorem Declares.resolves {τ : Type} {spelling : Mention → List String}
    {calling : Term → List String} {globals : List Declaration} {u : Code.Use τ} {q : Place Term}
    (h : s.Declares spelling globals) (hq : q.Within (Locals s.vars))
    (hprints : Code.Prints (nameIn s.vars) (fun e => e.mentions.flatMap spelling) calling
      [globals.map (·.name)] u q) :
    s.Resolves spelling globals u q := by
  refine ⟨?_, fun name hname => ?_, hq.subset, ?_⟩
  · rw [hprints.scopes, Place.scopes, List.map_append, List.map_map, List.map_singleton]
    congr 1
    apply List.map_congr_left
    intro scope _
    rw [Function.comp_apply, List.map_map]
    rfl
  · obtain ⟨e, he, hspelled⟩ := List.mem_flatMap.mp (hprints.within.names hname)
    obtain ⟨m, hm, hspelled⟩ := List.mem_flatMap.mp hspelled
    exact ⟨e, he, m, hm, hspelled⟩
  -- a variable is declared at the top of the source or in a scope around the place
  · rintro e - v - (hv | ⟨scope, hscope, hv⟩)
    · rcases h.held v hv with ⟨d, hd, hspelled, hholds⟩ | ⟨hcolor, name, hspelled, hname, hfree⟩
      · refine ⟨d.name, hspelled, Or.inl ⟨q.printed.map (·.map (ownDeclaration s.vars)), d, ?_⟩⟩
        exact refersTo_of_mem hd hholds (h.distinct d hd)
      · refine ⟨name, hspelled, Or.inr ⟨hcolor, referents_eq_nil_iff.mpr ?_⟩⟩
        rw [Place.scopes, List.forall_mem_append, List.forall_mem_singleton]
        refine ⟨fun scope hscope d hd heq => ?_, hfree⟩
        -- local variables have identifiers as names
        obtain ⟨vars, hvars, rfl⟩ := List.mem_map.mp hscope
        obtain ⟨w, hw, rfl⟩ := List.mem_map.mp hd
        obtain ⟨x, hx, hidentifier, -⟩ := (hq.all vars hvars).declared w hw
        rw [← heq, show (ownDeclaration s.vars w).name = x.name from nameIn_eq hx,
          hidentifier] at hname
        cases hname
    · have hspelled := h.locals v ((hq.all scope (hq.subset hscope)).declared v hv)
      obtain ⟨inner, hrefers⟩ := refersTo_of_local globals hq hscope hv
      exact ⟨nameIn s.vars v, hspelled, Or.inl ⟨inner, _, hrefers⟩⟩

/-- The names of all the expressions of a source refer to what they should. -/
theorem Declares.forall₂_resolves {τ : Type} {spelling : Mention → List String}
    {calling : Term → List String} {globals : List Declaration} {uses : List (Code.Use τ)}
    {testsInside : Bool} (h : s.Declares spelling globals) (hlocals : s.HasLocals)
    (hprints : List.Forall₂ (Code.Prints (nameIn s.vars) (fun e => e.mentions.flatMap spelling)
      calling [globals.map (·.name)]) uses (s.places testsInside)) :
    List.Forall₂ (s.Resolves spelling globals) uses (s.places testsInside) := by
  have hwithin := hlocals.within testsInside
  generalize s.places testsInside = places at hprints hwithin ⊢
  induction hprints with
  | nil => exact .nil
  | cons hprints _ ih =>
      rw [List.forall_mem_cons] at hwithin
      exact .cons (h.resolves hwithin.1 hprints) (ih hwithin.2)

end ResolvedStage

/-! ## Global declarations -/

/-- The declaration of a bound resource in a source; blocks and generated samplers have made-up
names. -/
def Binding.Record.declaration (b : Binding.Record) : Declaration :=
  ⟨b.name, b.vars, b.isGenerated || b.content.block?.isSome⟩

namespace ResolvedStage

/-- The resources of a stage are bound to records that it sees, each to one of its name unless it is
a uniform; the records with other names are blocks and, in WGSL, generated samplers. -/
structure Bound (s : ResolvedStage) : Prop where
  resources : ∀ v ∈ s.decls.resources, ∀ d, s.vars[v.index]? = some d → d.role ≠ .workgroup →
    ∃ b ∈ s.records, s.plan.recordOf? v = some b ∧ (d.role.isUniform = false → b.name = d.name)
  own : ∀ b ∈ s.records, b.declaration.isGenerated = false →
    ∃ v ∈ s.decls.resources, s.plan.recordOf? v = some b ∧
      ∃ d, s.vars[v.index]? = some d ∧ d.role ≠ .workgroup ∧ b.name = d.name
  blocks : ∀ b ∈ s.records, b.content.block?.isSome = true → ∃ rest, b.name = "ublock_" ++ rest
  samplers : ∀ b ∈ s.records, b.isGenerated = true → s.target = .webGPU

/-- A resolved stage whose declarations are sound, whose constants are those declared and whose
resources are bound. -/
structure IsSound (s : ResolvedStage) : Prop where
  decls : s.decls.Sound s.target s.vars
  locals : s.HasLocals
  constants : List.Forall₂ (fun v c => s.vars[v.index]? = some c.1) s.decls.constants s.constants
  bound : s.Bound

/-- An author's own declaration of a source: a global variable of the stage declared under its name,
by itself or as the record it is bound to. -/
inductive Authored (s : ResolvedStage) (v : VarId) : Declaration → Prop
  | own : v ∈ s.decls.globals → DeclaredAs s.vars (fun role => role.group? = none) v →
      Authored s v (ownDeclaration s.vars v)
  | record {b : Binding.Record} : v ∈ s.decls.globals →
      DeclaredAs s.vars (fun role => role.group?.isSome = true) v →
      s.plan.recordOf? v = some b → b.name = nameIn s.vars v → Authored s v b.declaration

variable {s : ResolvedStage}

/-- What the author has declared is global, and has its own name. -/
theorem Authored.mem {v : VarId} {d : Declaration} (h : s.Authored v d) :
    v ∈ s.decls.globals ∧ d.name = nameIn s.vars v := by
  cases h with
  | own hv _ => exact ⟨hv, rfl⟩
  | record hv _ _ hname => exact ⟨hv, hname⟩

/-- Authors do not declare a name twice. -/
theorem Authored.eq_of_name {v w : VarId} {d d' : Declaration}
    (hnodup : (s.decls.globals.map (nameIn s.vars)).Nodup) (h : s.Authored v d)
    (h' : s.Authored w d') (hname : d'.name = d.name) : d' = d := by
  obtain ⟨hv, hdv⟩ := h.mem
  obtain ⟨hw, hdw⟩ := h'.mem
  obtain rfl := List.inj_on_of_nodup_map hnodup hw hv (by rw [← hdw, ← hdv, hname])
  cases h with
  | own _ hrole =>
      cases h' with
      | own => rfl
      | record _ hrole' _ _ =>
          obtain ⟨x, hx, -, hnone⟩ := hrole
          obtain ⟨y, hy, -, hsome⟩ := hrole'
          rw [← Option.some.inj (hx.symm.trans hy), hnone] at hsome
          cases hsome
  | record _ hrole hb _ =>
      cases h' with
      | own _ hrole' =>
          obtain ⟨x, hx, -, hsome⟩ := hrole
          obtain ⟨y, hy, -, hnone⟩ := hrole'
          rw [Option.some.inj (hx.symm.trans hy), hnone] at hsome
          cases hsome
      | record _ _ hb' _ => rw [Option.some.inj (hb.symm.trans hb')]

/-- Declarations that are all authored or have made-up names are distinct but for these. -/
theorem distinct_of_authored {globals : List Declaration}
    (hnodup : (s.decls.globals.map (nameIn s.vars)).Nodup)
    (h : ∀ d ∈ globals, d.isGenerated = true ∨ ∃ v, s.Authored v d) :
    ∀ d ∈ globals, ∀ d' ∈ globals, d'.name = d.name →
      d' = d ∨ d.isGenerated = true ∨ d'.isGenerated = true := by
  intro d hd d' hd' hname
  rcases h d hd with hgenerated | ⟨v, hauthored⟩
  · exact Or.inr (Or.inl hgenerated)
  · rcases h d' hd' with hgenerated | ⟨w, hauthored'⟩
    · exact Or.inr (Or.inr hgenerated)
    · exact Or.inl (hauthored.eq_of_name hnodup hauthored' hname)

section Globals

variable {v : VarId}

/-- A constant is global. -/
theorem mem_globals_of_constants (h : v ∈ s.decls.constants) : v ∈ s.decls.globals := by
  simp [StageDecls.globals, h]

/-- An input is global. -/
theorem mem_globals_of_inputs (h : v ∈ s.decls.inputs) : v ∈ s.decls.globals := by
  simp [StageDecls.globals, h]

/-- An output is global. -/
theorem mem_globals_of_outputs (h : v ∈ s.decls.outputs) : v ∈ s.decls.globals := by
  simp [StageDecls.globals, h]

/-- A resource is global. -/
theorem mem_globals_of_resources (h : v ∈ s.decls.resources) : v ∈ s.decls.globals := by
  simp [StageDecls.globals, h]

/-- An input is in no group. -/
theorem group?_of_inputLocation? {role : Role} (h : role.inputLocation?.isSome = true) :
    role.group? = none := by
  cases role with
  | input => rfl
  | _ => cases h

/-- An output is in no group. -/
theorem group?_of_outputLocation? {role : Role} (h : role.outputLocation?.isSome = true) :
    role.group? = none := by
  cases role with
  | output => rfl
  | _ => cases h

/-- The constants of a stage are authored. -/
theorem IsSound.authored_constant (h : s.IsSound) (hv : v ∈ s.decls.constants) :
    s.Authored v (ownDeclaration s.vars v) :=
  .own (mem_globals_of_constants hv) ((h.decls.typed.constants v hv).imp fun heq => heq ▸ rfl)

/-- An input is declared by its own name. -/
theorem IsSound.authored_input (h : s.IsSound) (hv : v ∈ s.decls.inputs) :
    s.Authored v (ownDeclaration s.vars v) :=
  .own (mem_globals_of_inputs hv) ((h.decls.typed.inputs v hv).imp group?_of_inputLocation?)

/-- An output is declared by its own name. -/
theorem IsSound.authored_output (h : s.IsSound) (hv : v ∈ s.decls.outputs) :
    s.Authored v (ownDeclaration s.vars v) :=
  .own (mem_globals_of_outputs hv) ((h.decls.typed.outputs v hv).imp group?_of_outputLocation?)

/-- The declaration of a record is authored or made up. -/
theorem IsSound.authored_record (h : s.IsSound) {b : Binding.Record} (hb : b ∈ s.records) :
    b.declaration.isGenerated = true ∨ ∃ v, s.Authored v b.declaration := by
  by_cases hgenerated : b.declaration.isGenerated = true
  · exact Or.inl hgenerated
  · obtain ⟨v, hv, hrecord, d, hd, hrole, hname⟩ := h.bound.own b hb (by simpa using hgenerated)
    refine Or.inr ⟨v, .record (mem_globals_of_resources hv) ?_ hrecord ?_⟩
    · obtain ⟨x, hx, hidentifier, hgroup⟩ := h.decls.typed.resources v hv
      obtain rfl := Option.some.inj (hd.symm.trans hx)
      exact ⟨d, hd, hidentifier, hgroup.resolve_right fun hworkgroup => hrole hworkgroup.1⟩
    · rw [hname, nameIn_eq hd]

/-- A resource is held by the declaration of its record. -/
theorem holds_of_recordOf? {b : Binding.Record} (h : s.plan.recordOf? v = some b) :
    v ∈ b.declaration.holds := (s.plan.owned.mem h).2

end Globals

end ResolvedStage

end WebShader
