import Mathlib.Data.List.Perm.Basic
import WebShader.Proofs.LexicalScopes
import WebShader.Proofs.Scripts

/-!
# Scopes keep their names distinct

A scope never declares a name twice. The invariant of a stage under construction says so of the
scopes of its statements and of its global declarations; it goes along with what each open scope
still promises, whatever is emitted into it.
-/

namespace WebShader

/-! ## Variables -/

/-- The name of a variable. -/
def nameIn (vars : Array Variable) (v : VarId) : String := (vars[v.index]?).elim "" (·.name)

/-- A variable has been declared under an identifier and in a role of some kind. -/
def DeclaredAs (vars : Array Variable) (P : Role → Prop) (v : VarId) : Prop :=
  ∃ d, vars[v.index]? = some d ∧ isIdentifier d.name = true ∧ P d.role

/-- The variables of one array are those of the other, at the same places. -/
def Extends (vars vars' : Array Variable) : Prop :=
  ∀ (i : Nat) (d : Variable), vars[i]? = some d → vars'[i]? = some d

/-- The variables of a scope inside a function have names of their own. -/
structure Locals (vars : Array Variable) (scope : List VarId) : Prop where
  declared : ∀ v ∈ scope, DeclaredAs vars (fun role => role = .localVar ∨ role = .param) v
  nodup : (scope.map (nameIn vars)).Nodup

section Variables

variable {vars vars' vars'' : Array Variable} {v : VarId} {scope : List VarId}

/-- The variables are left alone. -/
theorem Extends.refl (vars : Array Variable) : Extends vars vars := fun _ _ h => h

/-- Variables are added in steps. -/
theorem Extends.trans (h : Extends vars vars') (h' : Extends vars' vars'') :
    Extends vars vars'' := fun i d hd => h' i d (h i d hd)

/-- One more variable is added. -/
theorem extends_push (vars : Array Variable) (d : Variable) : Extends vars (vars.push d) := by
  intro i d' hd
  obtain ⟨hi, rfl⟩ := Array.getElem?_eq_some_iff.mp hd
  rw [Array.getElem?_push_lt hi]

/-- The name of a variable. -/
theorem nameIn_eq {d : Variable} (h : vars[v.index]? = some d) : nameIn vars v = d.name := by
  rw [nameIn, h]
  rfl

/-- A variable stays declared. -/
theorem DeclaredAs.extends {P : Role → Prop} (h : DeclaredAs vars P v)
    (hvars : Extends vars vars') : DeclaredAs vars' P v := by
  obtain ⟨d, hd, hname, hP⟩ := h
  exact ⟨d, hvars _ d hd, hname, hP⟩

/-- What is said of the role may be weakened. -/
theorem DeclaredAs.imp {P Q : Role → Prop} (h : DeclaredAs vars P v)
    (hPQ : ∀ {role}, P role → Q role) : DeclaredAs vars Q v := by
  obtain ⟨d, hd, hname, hP⟩ := h
  exact ⟨d, hd, hname, hPQ hP⟩

/-- A variable keeps its name. -/
theorem DeclaredAs.nameIn_eq {P : Role → Prop} (h : DeclaredAs vars P v)
    (hvars : Extends vars vars') : nameIn vars' v = nameIn vars v := by
  obtain ⟨d, hd, -⟩ := h
  rw [WebShader.nameIn_eq hd, WebShader.nameIn_eq (hvars _ d hd)]

/-- The variables of a scope keep their names. -/
theorem map_nameIn_eq {P : Role → Prop} (h : ∀ v ∈ scope, DeclaredAs vars P v)
    (hvars : Extends vars vars') : scope.map (nameIn vars') = scope.map (nameIn vars) :=
  List.map_congr_left fun v hv => (h v hv).nameIn_eq hvars

/-- The name of the variable that was added last. -/
theorem nameIn_push (vars : Array Variable) (d : Variable) :
    nameIn (vars.push d) ⟨vars.size⟩ = d.name := by
  simp [nameIn]

/-- The variable that was added last is declared. -/
theorem declaredAs_push {P : Role → Prop} {d : Variable} (hname : isIdentifier d.name = true)
    (h : P d.role) : DeclaredAs (vars.push d) P ⟨vars.size⟩ := ⟨d, by simp, hname, h⟩

/-- A scope stays one of local variables. -/
theorem Locals.extends (h : Locals vars scope) (hvars : Extends vars vars') :
    Locals vars' scope := by
  refine ⟨fun v hv => (h.declared v hv).extends hvars, ?_⟩
  rw [map_nameIn_eq h.declared hvars]
  exact h.nodup

/-- An empty scope has no variables. -/
theorem locals_nil (vars : Array Variable) : Locals vars [] := ⟨by simp, List.nodup_nil⟩

/-- A scope may take a variable whose name it has not declared. -/
theorem Locals.concat (h : Locals vars scope)
    (hv : DeclaredAs vars (fun role => role = .localVar ∨ role = .param) v)
    (hname : nameIn vars v ∉ scope.map (nameIn vars)) : Locals vars (scope ++ [v]) := by
  constructor
  · intro w hw
    rcases List.mem_append.mp hw with hw | hw
    · exact h.declared w hw
    · rw [List.mem_singleton.mp hw]
      exact hv
  · rw [List.map_append]
    refine List.nodup_append.mpr ⟨h.nodup, by simp, ?_⟩
    rintro name hn other hother rfl
    rw [List.map_singleton, List.mem_singleton] at hother
    exact hname (hother ▸ hn)

/-- The first variables of a scope are a scope. -/
theorem prefixClosed_locals (vars : Array Variable) : PrefixClosed (Locals vars) := by
  intro before after h
  refine ⟨fun v hv => h.declared v (List.mem_append_left _ hv), ?_⟩
  have hnodup := h.nodup
  rw [List.map_append] at hnodup
  exact (List.nodup_append.mp hnodup).1

end Variables

/-! ## Open scopes -/

/-- A scope that opens with some variables: each scope of its statements has names of its own, and
the scope knows the names of all it declares. -/
structure Frame.Holds (vars : Array Variable) (heads : List VarId) (f : Frame) : Prop where
  scopes : ∀ scope ∈ Stmt.blockScopes heads f.body, Locals vars scope
  found : ∀ v ∈ heads ++ Stmt.declaredBy f.body, (f.find? (nameIn vars v)).isSome = true

/-- A scope goes on to know its names and, whatever it opens with, to keep them distinct. -/
structure Frame.Grows (vars vars' : Array Variable) (f f' : Frame) : Prop where
  names : ∀ name, (f.find? name).isSome = true → (f'.find? name).isSome = true
  holds : ∀ heads, f.Holds vars heads → f'.Holds vars' heads

namespace Frame

variable {vars vars' vars'' : Array Variable} {f f' f'' : Frame} {heads : List VarId} {v : VarId}

/-- A scope and what it declares are local variables. -/
theorem Holds.locals (h : f.Holds vars heads) : Locals vars (heads ++ Stmt.declaredBy f.body) :=
  h.scopes _ List.mem_cons_self

/-- A name is still found after another one has been declared. -/
theorem isSome_find?_cons {name name' : String} {e : Expr} {body : Block} {kind : ScopeKind}
    (h : name' = name ∨ (f.find? name).isSome = true) :
    (Frame.find? ⟨kind, (name', e) :: f.symbols, body⟩ name).isSome = true := by
  unfold Frame.find? at h ⊢
  rw [List.find?_cons]
  split
  · rfl
  · rename_i hne
    rcases h with heq | h
    · simp [heq] at hne
    · exact h

/-- A scope with its names and statements has grown by nothing. -/
theorem Grows.of_symbols_body (hvars : Extends vars vars') (hsymbols : f'.symbols = f.symbols)
    (hbody : f'.body = f.body) : f.Grows vars vars' f' := by
  have hfind : ∀ name, f'.find? name = f.find? name := by
    intro name
    rw [Frame.find?, Frame.find?, hsymbols]
  refine ⟨fun name h => by rw [hfind]; exact h, fun heads h => ?_⟩
  refine ⟨fun scope hscope => (h.scopes scope (hbody ▸ hscope)).extends hvars, fun v hv => ?_⟩
  rw [hbody] at hv
  rw [hfind, (h.locals.declared v hv).nameIn_eq hvars]
  exact h.found v hv

/-- A scope grows in steps. -/
theorem Grows.trans (h : f.Grows vars vars' f') (h' : f'.Grows vars' vars'' f'') :
    f.Grows vars vars'' f'' :=
  ⟨fun name hname => h'.names name (h.names name hname),
    fun heads hholds => h'.holds heads (h.holds heads hholds)⟩

/-- A name is bound in a scope. -/
theorem Grows.bind (hvars : Extends vars vars') (name : String) (e : Expr) :
    f.Grows vars vars' { f with symbols := (name, e) :: f.symbols } := by
  refine ⟨fun other h => isSome_find?_cons (Or.inr h), fun heads h => ?_⟩
  refine ⟨fun scope hscope => (h.scopes scope hscope).extends hvars, fun v hv => ?_⟩
  rw [(h.locals.declared v hv).nameIn_eq hvars]
  exact isSome_find?_cons (Or.inr (h.found v hv))

/-- The statements of a scope change, but not what it declares. -/
theorem Grows.body {body : Block} (hdeclared : Stmt.declaredBy body = Stmt.declaredBy f.body)
    (hscopes : ∀ heads, ∀ scope ∈ Stmt.blockScopes heads body,
      scope ∈ Stmt.blockScopes heads f.body ∨ Locals vars scope) :
    f.Grows vars vars { f with body } := by
  refine ⟨fun name h => h, fun heads h => ⟨fun scope hscope => ?_, fun v hv => ?_⟩⟩
  · rcases hscopes heads scope hscope with hold | hnew
    · exact h.scopes scope hold
    · exact hnew
  · rw [hdeclared] at hv
    exact h.found v hv

/-- A scope declares a new variable under a name it has not bound. -/
theorem Grows.declare {d : Variable} (hname : isIdentifier d.name = true)
    (hnew : f.find? d.name = none) (hrole : d.role = .localVar) (e : Expr)
    (init : Option NodeId) :
    f.Grows vars (vars.push d) { f with
      symbols := (d.name, e) :: f.symbols
      body := f.body ++ [.declare ⟨vars.size⟩ init] } := by
  have hvars := extends_push vars d
  refine ⟨fun other h => isSome_find?_cons (Or.inr h), fun heads h => ?_⟩
  have hold : ∀ v ∈ heads ++ Stmt.declaredBy f.body, nameIn (vars.push d) v = nameIn vars v :=
    fun v hv => (h.locals.declared v hv).nameIn_eq hvars
  constructor
  · intro scope hscope
    rcases Stmt.mem_blockScopes_declare.mp hscope with rfl | hscope
    · apply (h.locals.extends hvars).concat (declaredAs_push hname (Or.inl hrole))
      rw [nameIn_push]
      intro hmem
      obtain ⟨v, hv, hname⟩ := List.mem_map.mp hmem
      have hfound := h.found v hv
      rw [← hold v hv, hname, hnew] at hfound
      cases hfound
    · exact (h.scopes scope (List.mem_cons_of_mem _ hscope)).extends hvars
  · intro v hv
    rw [Stmt.declaredBy_append, ← List.append_assoc] at hv
    apply isSome_find?_cons
    rcases List.mem_append.mp hv with hv | hv
    · right
      rw [hold v hv]
      exact h.found v hv
    · left
      rw [show v = ⟨vars.size⟩ by simpa [Stmt.declaredBy, Stmt.declared] using hv, nameIn_push]

/-- A scope without statements may open with one more variable. -/
theorem Holds.bind {d : Variable} (h : f.Holds vars heads) (hbody : f.body = [])
    (hname : isIdentifier d.name = true) (hnew : f.find? d.name = none)
    (hrole : d.role = .localVar ∨ d.role = .param) (e : Expr) :
    Holds (vars.push d) (heads ++ [⟨vars.size⟩])
      { f with symbols := (d.name, e) :: f.symbols } := by
  have hvars := extends_push vars d
  have hlocals : Locals vars heads := by
    have hall := h.locals
    rwa [hbody, Stmt.declaredBy, List.flatMap_nil, List.append_nil] at hall
  have hold : ∀ v ∈ heads, nameIn (vars.push d) v = nameIn vars v :=
    fun v hv => (hlocals.declared v hv).nameIn_eq hvars
  constructor
  · intro scope hscope
    dsimp only at hscope
    rw [hbody, Stmt.blockScopes, Stmt.nestedScopes, List.mem_singleton, Stmt.declaredBy,
      List.flatMap_nil, List.append_nil] at hscope
    rw [hscope]
    apply (hlocals.extends hvars).concat (declaredAs_push hname hrole)
    rw [nameIn_push]
    intro hmem
    obtain ⟨v, hv, hname⟩ := List.mem_map.mp hmem
    have hfound := h.found v (List.mem_append_left _ hv)
    rw [← hold v hv, hname, hnew] at hfound
    cases hfound
  · intro v hv
    dsimp only at hv
    rw [hbody, Stmt.declaredBy, List.flatMap_nil, List.append_nil] at hv
    apply isSome_find?_cons
    rcases List.mem_append.mp hv with hv | hv
    · right
      rw [hold v hv]
      exact h.found v (List.mem_append_left _ hv)
    · left
      rw [List.mem_singleton.mp hv, nameIn_push]

end Frame

/-! ## Stages under construction -/

/-- The variables a stage declares outside of its functions. -/
def StageDecls.globals (d : StageDecls) : List VarId :=
  d.constants ++ d.inputs ++ d.outputs ++ d.resources

/-- The variables of each kind of global declaration; only WGSL has variables of workgroups. -/
structure StageDecls.Typed (target : Target) (vars : Array Variable) (d : StageDecls) : Prop where
  constants : ∀ v ∈ d.constants, DeclaredAs vars (· = .constant) v
  inputs : ∀ v ∈ d.inputs, DeclaredAs vars (·.inputLocation?.isSome = true) v
  outputs : ∀ v ∈ d.outputs, DeclaredAs vars (·.outputLocation?.isSome = true) v
  resources : ∀ v ∈ d.resources,
    DeclaredAs vars (fun role =>
      role.group?.isSome = true ∨ role = .workgroup ∧ target = .webGPU) v

/-- The global declarations of a stage are of their kinds and have names of their own, and so do
the variables of each scope of its functions. -/
structure StageDecls.Sound (target : Target) (vars : Array Variable) (d : StageDecls) : Prop where
  typed : d.Typed target vars
  nodup : (d.globals.map (nameIn vars)).Nodup
  functions : ∀ f ∈ d.functions, ∀ scope ∈ Stmt.blockScopes f.params f.body, Locals vars scope

/-- The declarations of a stage are sound, as are the scopes of its entry point, and its outermost
scope knows the names of the global declarations. -/
structure OpenStage.Sound (target : Target) (vars : Array Variable) (s : OpenStage) : Prop where
  decls : s.decls.Sound target vars
  main : ∀ body, s.main = some body → ∀ scope ∈ Stmt.blockScopes [] body, Locals vars scope
  found : ∀ v ∈ s.decls.globals, ∃ f, s.frames.getLast? = some f ∧
    (f.find? (nameIn vars v)).isSome = true

/-- A stage stays the same stage with the same open scopes, each of which grows, and stays sound. -/
structure OpenStage.Grows (target : Target) (vars vars' : Array Variable) (s s' : OpenStage) :
    Prop where
  stage : s'.decls.stage = s.decls.stage
  frames : List.Forall₂ (Frame.Grows vars vars') s.frames s'.frames
  sound : s.Sound target vars → s'.Sound target vars'

section Stages

variable {target : Target} {vars vars' vars'' : Array Variable} {s s' s'' : OpenStage}
  {d : StageDecls}

/-- All that a stage declares is declared. -/
theorem StageDecls.Typed.declared (h : d.Typed target vars) :
    ∀ v ∈ d.globals, DeclaredAs vars (fun _ => True) v := by
  intro v hv
  rw [StageDecls.globals, List.mem_append, List.mem_append, List.mem_append] at hv
  rcases hv with ((hv | hv) | hv) | hv
  · exact (h.constants v hv).imp fun _ => trivial
  · exact (h.inputs v hv).imp fun _ => trivial
  · exact (h.outputs v hv).imp fun _ => trivial
  · exact (h.resources v hv).imp fun _ => trivial

/-- Declarations stay typed. -/
theorem StageDecls.Typed.extends (h : d.Typed target vars) (hvars : Extends vars vars') :
    d.Typed target vars' :=
  ⟨fun v hv => (h.constants v hv).extends hvars, fun v hv => (h.inputs v hv).extends hvars,
    fun v hv => (h.outputs v hv).extends hvars, fun v hv => (h.resources v hv).extends hvars⟩

/-- Declarations stay sound. -/
theorem StageDecls.Sound.extends (h : d.Sound target vars) (hvars : Extends vars vars') :
    d.Sound target vars' := by
  refine ⟨h.typed.extends hvars, ?_, fun f hf scope hs => (h.functions f hf scope hs).extends hvars⟩
  rw [map_nameIn_eq h.typed.declared hvars]
  exact h.nodup

/-- Declarations with one outline are the same globals. -/
theorem StageDecls.globals_of_outline {d' : StageDecls} (h : d'.outline = d.outline) :
    d'.globals = d.globals := by
  show d'.outline.globals = d.outline.globals
  rw [h]

/-- Declarations of one outline are sound alike. -/
theorem StageDecls.Sound.of_outline {d' : StageDecls} (h : d.Sound target vars)
    (heq : d'.outline = d.outline) : d'.Sound target vars := by
  have hglobals := StageDecls.globals_of_outline heq
  simp only [StageDecls.outline, StageDecls.mk.injEq] at heq
  obtain ⟨-, hfunctions, hconstants, hinputs, houtputs, hresources, -⟩ := heq
  refine ⟨⟨?_, ?_, ?_, ?_⟩, ?_, ?_⟩
  · exact hconstants ▸ h.typed.constants
  · exact hinputs ▸ h.typed.inputs
  · exact houtputs ▸ h.typed.outputs
  · exact hresources ▸ h.typed.resources
  · exact hglobals ▸ h.nodup
  · exact hfunctions ▸ h.functions

/-- What a stage with the same declarations and the same entry point needs to be sound. -/
theorem OpenStage.Sound.of_frames (h : s.Sound target vars) (hvars : Extends vars vars')
    (hdecls : s'.decls.outline = s.decls.outline) (hmain : s'.main = s.main)
    (hframes : ∀ f, s.frames.getLast? = some f → ∃ f', s'.frames.getLast? = some f' ∧
      ∀ name, (f.find? name).isSome = true → (f'.find? name).isSome = true) :
    s'.Sound target vars' := by
  constructor
  · exact (h.decls.extends hvars).of_outline hdecls
  · rw [hmain]
    exact fun body hbody scope hs => (h.main body hbody scope hs).extends hvars
  · rw [StageDecls.globals_of_outline hdecls]
    intro v hv
    obtain ⟨f, hf, hfound⟩ := h.found v hv
    obtain ⟨f', hf', hnames⟩ := hframes f hf
    refine ⟨f', hf', ?_⟩
    rw [(h.decls.typed.declared v hv).nameIn_eq hvars]
    exact hnames _ hfound

/-- The last items of related lists are related. -/
theorem exists_getLast?_of_forall₂ {α : Type} {R : α → α → Prop} {as bs : List α} {a : α}
    (h : List.Forall₂ R as bs) (ha : as.getLast? = some a) : ∃ b, bs.getLast? = some b ∧ R a b := by
  induction h with
  | nil => cases ha
  | @cons a' b' as bs hab htail ih =>
      cases htail with
      | nil =>
          rw [List.getLast?_singleton] at ha ⊢
          exact ⟨b', rfl, Option.some.inj ha ▸ hab⟩
      | cons hab' htail' =>
          rw [List.getLast?_cons_cons] at ha ⊢
          exact ih ha

/-- A stage whose declarations and entry point stay grows with its scopes. -/
theorem OpenStage.Grows.of_frames (hvars : Extends vars vars')
    (hdecls : s'.decls.outline = s.decls.outline) (hmain : s'.main = s.main)
    (hframes : List.Forall₂ (Frame.Grows vars vars') s.frames s'.frames) :
    s.Grows target vars vars' s' := by
  have hstage : s'.decls.outline.stage = s.decls.outline.stage := by rw [hdecls]
  refine ⟨hstage, hframes, fun h => ?_⟩
  refine h.of_frames hvars hdecls hmain fun f hf => ?_
  obtain ⟨f', hf', hgrows⟩ := exists_getLast?_of_forall₂ hframes hf
  exact ⟨f', hf', hgrows.names⟩

/-- Scopes that are left alone have grown by nothing. -/
theorem forall₂_grows_refl (hvars : Extends vars vars') (frames : List Frame) :
    List.Forall₂ (Frame.Grows vars vars') frames frames :=
  List.forall₂_same.mpr fun _ _ => Frame.Grows.of_symbols_body hvars rfl rfl

/-- A stage whose innermost scope grows. -/
theorem OpenStage.Grows.of_frame {f f' : Frame} {rest : List Frame} (hvars : Extends vars vars')
    (hframes : s.frames = f :: rest) (hgrows : f.Grows vars vars' f') :
    s.Grows target vars vars' { s with frames := f' :: rest } := by
  refine .of_frames hvars rfl rfl ?_
  rw [hframes]
  exact List.Forall₂.cons hgrows (forall₂_grows_refl hvars rest)

/-- Lists are related in steps. -/
theorem forall₂_trans {α : Type} {R S T : α → α → Prop} {as bs cs : List α}
    (h : List.Forall₂ R as bs) (h' : List.Forall₂ S bs cs)
    (hT : ∀ a b c, R a b → S b c → T a c) : List.Forall₂ T as cs := by
  induction h generalizing cs with
  | nil =>
      cases h'
      exact List.Forall₂.nil
  | cons hab _ ih =>
      cases h' with
      | cons hbc htail => exact List.Forall₂.cons (hT _ _ _ hab hbc) (ih htail)

/-- A stage grows in steps. -/
theorem OpenStage.Grows.trans (h : s.Grows target vars vars' s')
    (h' : s'.Grows target vars' vars'' s'') : s.Grows target vars vars'' s'' := by
  refine ⟨h'.stage.trans h.stage, ?_, fun hsound => h'.sound (h.sound hsound)⟩
  exact forall₂_trans h.frames h'.frames fun _ _ _ => Frame.Grows.trans

/-- Stages of one outline grow into each other. -/
theorem OpenStage.Grows.of_outline (h : s'.outline = s.outline) :
    s.Grows target vars vars s' := by
  simp only [OpenStage.outline, OpenStage.mk.injEq] at h
  obtain ⟨hdecls, hframes, hmain, -⟩ := h
  refine .of_frames (Extends.refl vars) hdecls hmain ?_
  rw [← List.forall₂_eq_eq_eq, List.forall₂_map_left_iff, List.forall₂_map_right_iff] at hframes
  refine hframes.flip.imp fun f f' hsame => ?_
  simp only [Frame.outline, Frame.mk.injEq] at hsame
  exact Frame.Grows.of_symbols_body (Extends.refl vars) hsame.2.1 hsame.2.2

/-- A stage that declares a new variable outside of its functions, under a name its only scope has
not bound. -/
theorem OpenStage.Grows.declareGlobal {f : Frame} {x : Variable} {d' : StageDecls}
    (hframes : s.frames = [f]) (hnew : f.find? x.name = none) (e : Expr)
    (hglobals : d'.globals.Perm (⟨vars.size⟩ :: s.decls.globals))
    (hstage : d'.stage = s.decls.stage) (hfunctions : d'.functions = s.decls.functions)
    (htyped : s.decls.Typed target (vars.push x) → d'.Typed target (vars.push x)) :
    s.Grows target vars (vars.push x)
      { s with decls := d', frames := [{ f with symbols := (x.name, e) :: f.symbols }] } := by
  have hvars := extends_push vars x
  have hgrows : f.Grows vars (vars.push x) { f with symbols := (x.name, e) :: f.symbols } :=
    Frame.Grows.bind hvars x.name e
  refine ⟨hstage, ?_, fun h => ?_⟩
  · rw [hframes]
    exact List.Forall₂.cons hgrows List.Forall₂.nil
  · have hdeclared := h.decls.typed.declared
    -- every name of the stage is in the only scope that is open
    have hfound : ∀ v ∈ s.decls.globals, (f.find? (nameIn vars v)).isSome = true := by
      intro v hv
      obtain ⟨f', hf', hfound⟩ := h.found v hv
      rw [hframes, List.getLast?_singleton] at hf'
      exact Option.some.inj hf' ▸ hfound
    refine ⟨⟨htyped (h.decls.typed.extends hvars), ?_, ?_⟩, ?_, ?_⟩
    · -- the new name is not among those the only scope knows
      rw [(hglobals.map _).nodup_iff, List.map_cons, nameIn_push, map_nameIn_eq hdeclared hvars,
        List.nodup_cons]
      refine ⟨fun hmem => ?_, h.decls.nodup⟩
      obtain ⟨v, hv, hname⟩ := List.mem_map.mp hmem
      have hsome := hfound v hv
      rw [hname, hnew] at hsome
      cases hsome
    · rw [hfunctions]
      exact fun g hg scope hs => (h.decls.functions g hg scope hs).extends hvars
    · exact fun body hbody scope hs => (h.main body hbody scope hs).extends hvars
    · intro v hv
      refine ⟨_, rfl, ?_⟩
      rcases List.mem_cons.mp (hglobals.mem_iff.mp hv) with rfl | hv
      · rw [nameIn_push]
        exact Frame.isSome_find?_cons (Or.inl rfl)
      · rw [(hdeclared v hv).nameIn_eq hvars]
        exact hgrows.names _ (hfound v hv)

end Stages

/-! ## Builders -/

/-- A builder keeps its options and, unless it loses its stage for good, its variables and the
promises of its stage. -/
structure Builder.Keeps (b b' : Builder) : Prop where
  config : b'.config = b.config
  lost : b.stage = none → b'.stage = none
  vars : b'.stage = none ∨ Extends b.vars b'.vars
  grows : ∀ s, b.stage = some s → s.frames ≠ [] →
    b'.stage = none ∨ ∃ s', b'.stage = some s' ∧ s.Grows b.target b.vars b'.vars s'

/-- Unless the stage is lost, the variables of some scopes have names of their own. -/
def Builder.Holds (b : Builder) (scopes : List (List VarId)) : Prop :=
  b.stage = none ∨ ∀ scope ∈ scopes, Locals b.vars scope

namespace Builder

variable {b b' b'' : Builder} {s s' : OpenStage}

/-- A builder is kept in steps. -/
theorem Keeps.trans (h : b.Keeps b') (h' : b'.Keeps b'') : b.Keeps b'' := by
  have hlost : b'.stage = none → b''.stage = none := h'.lost
  refine ⟨h'.config.trans h.config, fun hb => hlost (h.lost hb), ?_, fun s hs hframes => ?_⟩
  · rcases h.vars with hb' | hvars
    · exact Or.inl (hlost hb')
    · exact h'.vars.imp_right hvars.trans
  · rcases h.grows s hs hframes with hb' | ⟨s', hs', hgrows⟩
    · exact Or.inl (hlost hb')
    · have hframes' : s'.frames ≠ [] := by
        intro hnil
        have hlength := hgrows.frames.length_eq
        rw [hnil] at hlength
        exact hframes (List.eq_nil_of_length_eq_zero hlength)
      refine (h'.grows s' hs' hframes').imp_right fun ⟨s'', hs'', hgrows'⟩ => ?_
      have htarget : b'.target = b.target := congrArg Config.target h.config
      rw [htarget] at hgrows'
      exact ⟨s'', hs'', hgrows.trans hgrows'⟩

/-- A builder whose stage grows. -/
theorem Keeps.of_grows (hconfig : b'.config = b.config) (hs : b.stage = some s)
    (hs' : b'.stage = some s') (hvars : Extends b.vars b'.vars)
    (hgrows : s.frames ≠ [] → s.Grows b.target b.vars b'.vars s') : b.Keeps b' := by
  refine ⟨hconfig, fun hb => absurd (hs.symm.trans hb) (by simp), Or.inr hvars, ?_⟩
  intro t ht hframes
  obtain rfl := Option.some.inj (hs.symm.trans ht)
  exact Or.inr ⟨s', hs', hgrows hframes⟩

/-- A builder that has lost its stage. -/
theorem Keeps.of_lost (hconfig : b'.config = b.config) (hb' : b'.stage = none) : b.Keeps b' :=
  ⟨hconfig, fun _ => hb', Or.inl hb', fun _ _ _ => Or.inl hb'⟩

theorem keeps_refl (b : Builder) : b.Keeps b := by
  refine ⟨rfl, id, Or.inr (Extends.refl b.vars), fun s hs _ => Or.inr ⟨s, hs, ?_⟩⟩
  exact OpenStage.Grows.of_outline rfl

/-- A builder whose stage has changed, but not its outline. -/
theorem Keeps.of_outline (hconfig : b'.config = b.config) (hs : b.stage = some s)
    (hs' : b'.stage = some s') (hvars : b'.vars = b.vars) (h : s'.outline = s.outline) :
    b.Keeps b' := by
  have hextends : Extends b.vars b'.vars := hvars ▸ Extends.refl b.vars
  refine Keeps.of_grows hconfig hs hs' hextends fun _ => ?_
  rw [hvars]
  exact OpenStage.Grows.of_outline h

instance : IsAdditive Keeps where
  refl := keeps_refl
  trans _ _ _ := Keeps.trans
  of_adds b b' h := by
    have hstage := h.stage
    cases hs : b.stage with
    | none =>
        rw [hs] at hstage
        cases hs' : b'.stage with
        | none => exact Keeps.of_lost h.config hs'
        | some s' => rw [hs'] at hstage; cases hstage
    | some s =>
        rw [hs] at hstage
        cases hs' : b'.stage with
        | none => exact Keeps.of_lost h.config hs'
        | some s' =>
            rw [hs'] at hstage
            cases hstage with
            | some hadds => exact Keeps.of_outline h.config hs hs' h.vars hadds.outline_eq

/-- More variables do not change a stage. -/
theorem Keeps.of_vars (hconfig : b'.config = b.config) (hstage : b'.stage = b.stage)
    (hvars : Extends b.vars b'.vars) : b.Keeps b' := by
  cases hs : b.stage with
  | none => exact Keeps.of_lost hconfig (hstage.trans hs)
  | some s =>
      refine Keeps.of_grows hconfig hs (hstage.trans hs) hvars fun _ => ?_
      exact .of_frames hvars rfl rfl (forall₂_grows_refl hvars s.frames)

/-- What the scopes hold is kept. -/
theorem Holds.of_keeps {scopes : List (List VarId)} (h : b.Holds scopes) (hkeeps : b.Keeps b') :
    b'.Holds scopes := by
  rcases h with hb | h
  · exact Or.inl (hkeeps.lost hb)
  · exact hkeeps.vars.imp_right fun hvars scope hscope => (h scope hscope).extends hvars

end Builder

theorem Builder.keeps_withVar (b : Builder) (d : Variable) : b.Keeps (b.withVar d) :=
  Keeps.of_vars rfl rfl (extends_push b.vars d)

/-! ## Statements and local variables -/

section Local

variable {b b' : Builder} {s : OpenStage} {f f' : Frame} {rest : List Frame}

/-- A builder whose innermost scope grows. -/
theorem Builder.Keeps.of_frame (hs : b.stage = some s) (hframes : s.frames = f :: rest)
    (hconfig : b'.config = b.config) (hvars : Extends b.vars b'.vars)
    (hgrows : f.Grows b.vars b'.vars f') : b.Keeps (b'.withFrame s f' rest) :=
  .of_grows hconfig hs rfl hvars fun _ => .of_frame hvars hframes hgrows

namespace Build

theorem follows_newVar (name : String) (type : TypeId) (role : Role) (init : Option NodeId) :
    Follows Builder.Keeps (newVar name type role init) := by
  intro b
  rcases run_newVar_cases b name type role init with
    ⟨fault, b', hrun, rfl | ⟨d, rfl⟩⟩ | ⟨s, f, rest, e, hs, hframes, -, hrun⟩
  · rw [hrun]
    exact b'.keeps_refl
  · rw [hrun]
    exact b.keeps_withVar d
  · rw [hrun]
    have hvars := extends_push b.vars ⟨name, type, role, s.decls.stage, init⟩
    exact .of_frame hs hframes rfl hvars (Frame.Grows.bind hvars name e)

/-- Emitting a statement that declares nothing, whose scopes have names of their own. -/
theorem keeps_emit (st : Stmt NodeId) (hst : st.declared = []) (h : b.Holds st.scopes) :
    b.Keeps (b.run (emit st)).2 := by
  rcases run_emit_cases b st with ⟨e, hrun⟩ | ⟨s, f, rest, hs, hframes, hrun⟩
  · rw [hrun]
    exact b.keeps_refl
  · rw [hrun]
    have hlocals : ∀ scope ∈ st.scopes, Locals b.vars scope := by
      rcases h with hb | h
      · exact absurd (hs.symm.trans hb) (by simp)
      · exact h
    refine .of_frame hs hframes rfl (Extends.refl b.vars) (Frame.Grows.body ?_ ?_)
    · rw [Stmt.declaredBy_append]
      simpa [Stmt.declaredBy] using hst
    · intro heads scope hscope
      exact ((Stmt.mem_blockScopes_concat hst).mp hscope).imp_right (hlocals scope)

/-- Declaring a local variable. -/
theorem keeps_declare (name : String) (t : TypeId) (init : Option NodeId) :
    Follows Builder.Keeps (declare name t init) := by
  intro b
  unfold declare
  rw [Builder.run_bind]
  have hkeeps := follows_newVar name t .localVar none b
  rcases run_newVar_cases b name t .localVar none with
    ⟨fault, b', hrun, -⟩ | ⟨s, f, rest, e, hs, hframes, hnew, hrun⟩
  · rw [hrun] at hkeeps ⊢
    exact hkeeps
  · have hname := isIdentifier_of_run_newVar hrun
    rw [hrun] at hkeeps ⊢
    dsimp only at hkeeps ⊢
    rw [Builder.run_bind]
    rcases run_emit_cases _ (.declare ⟨b.vars.size⟩ init) with
      ⟨fault, hemit⟩ | ⟨s', f', rest', hs', hframes', hemit⟩
    · rw [hemit]
      exact hkeeps
    · rw [hemit]
      obtain rfl := Option.some.inj hs'
      obtain ⟨rfl, rfl⟩ := List.cons.inj hframes'
      let d : Variable := ⟨name, t, .localVar, s.decls.stage, none⟩
      have hkeeps' : b.Keeps ((b.withVar d).withFrame s { f with
          symbols := (name, e) :: f.symbols
          body := f.body ++ [.declare ⟨b.vars.size⟩ init] } rest) :=
        .of_frame hs hframes rfl (extends_push b.vars d) (Frame.Grows.declare hname hnew rfl e init)
      exact hkeeps'

/-- Changing the last statement of a scope into one that declares the same. -/
theorem keeps_extendLast {failure : InternalFault} {g : Stmt NodeId → Option (Stmt NodeId)}
    {more : List (List VarId)} (hg : ∀ st st', g st = some st' → st'.declared = st.declared ∧
      ∀ scope, scope ∈ st'.scopes ↔ scope ∈ st.scopes ∨ scope ∈ more) (h : b.Holds more) :
    b.Keeps (b.run (extendLast failure g)).2 := by
  unfold extendLast
  rw [Builder.run_bind]
  rcases run_frame_cases b with ⟨e, hrun⟩ | ⟨s, f, rest, hs, hframes, hrun⟩
  · rw [hrun]
    exact b.keeps_refl
  · rw [hrun]
    dsimp only
    cases hbody : replaceLast? g f.body with
    | none => exact b.keeps_refl
    | some body =>
        dsimp only
        rw [run_setFrame_of_cons hs hframes]
        have hlocals : ∀ scope ∈ more, Locals b.vars scope := by
          rcases h with hb | h
          · exact absurd (hs.symm.trans hb) (by simp)
          · exact h
        refine .of_frame hs hframes rfl (Extends.refl b.vars) (Frame.Grows.body ?_ ?_)
        · have hsame : _ ∧ ([] ∈ Stmt.blockScopes [] body ↔ _) :=
            Stmt.mem_blockScopes_replaceLast hg hbody
          exact hsame.1
        · intro heads scope hscope
          exact ((Stmt.mem_blockScopes_replaceLast hg hbody).2.mp hscope).imp_right
            (hlocals scope)

/-- A function whose scopes have names of their own joins those of the stage. -/
theorem keeps_addFunction {fn : Function} (h : b.Holds (Stmt.blockScopes fn.params fn.body)) :
    b.Keeps (b.run (addFunction fn)).2 := by
  unfold addFunction
  rw [Builder.run_bind]
  cases hs : b.stage with
  | none =>
      rw [Builder.run_stage_of_none hs]
      exact b.keeps_refl
  | some s =>
      rw [Builder.run_stage_of_some hs]
      dsimp only
      rw [Builder.run_bind, modifyDecls, Builder.run_modifyStage_of_some hs]
      have hlocals := h.resolve_left (by simp [hs])
      show b.Keeps { b with stage := some { s with
        decls := { s.decls with functions := s.decls.functions ++ [fn] } } }
      refine .of_grows rfl hs rfl (Extends.refl b.vars) fun _ => ?_
      refine ⟨rfl, forall₂_grows_refl (Extends.refl b.vars) s.frames, fun hsound => ?_⟩
      have htyped := hsound.decls.typed
      refine ⟨⟨⟨htyped.constants, htyped.inputs, htyped.outputs, htyped.resources⟩,
        hsound.decls.nodup, ?_⟩, hsound.main, hsound.found⟩
      exact List.forall_mem_append.mpr
        ⟨hsound.decls.functions, List.forall_mem_singleton.mpr hlocals⟩

/-- A body whose scopes have names of their own becomes the entry point of the stage. -/
theorem keeps_setMain {body : Block} (h : b.Holds (Stmt.blockScopes [] body)) :
    b.Keeps (b.run (modifyStage fun s => { s with main := some body })).2 := by
  cases hs : b.stage with
  | none =>
      rw [Builder.run_modifyStage_of_none hs]
      exact b.keeps_refl
  | some s =>
      rw [Builder.run_modifyStage_of_some hs]
      have hlocals := h.resolve_left (by simp [hs])
      refine .of_grows rfl hs rfl (Extends.refl b.vars) fun _ => ?_
      refine ⟨rfl, forall₂_grows_refl (Extends.refl b.vars) s.frames, fun hsound => ?_⟩
      refine ⟨hsound.decls, fun body' hbody' => ?_, hsound.found⟩
      rw [← Option.some.inj hbody']
      exact hlocals

end Build

end Local

/-! ## Global declarations -/

/-- What a builder takes is kept. -/
theorem Builder.Takes.of_keeps {role : Role} {b b' : Builder} (h : b.Takes role)
    (hkeeps : b.Keeps b') : b'.Takes role := by
  constructor
  · intro s' hs'
    cases hs : b.stage with
    | none => exact absurd (hs'.symm.trans (hkeeps.lost hs)) (by simp)
    | some s =>
        have hlength := h.isGlobal s hs
        have hframes : s.frames ≠ [] := by
          intro hnil
          rw [hnil] at hlength
          cases hlength
        rcases hkeeps.grows s hs hframes with hb' | ⟨t, ht, hgrows⟩
        · exact absurd (hs'.symm.trans hb') (by simp)
        · obtain rfl := Option.some.inj (hs'.symm.trans ht)
          rw [← hgrows.frames.length_eq]
          exact hlength
  · intro hrole
    rw [← h.target hrole]
    exact congrArg Config.target hkeeps.config

/-- Adding a variable to a list of declarations adds it to the global declarations. -/
theorem globals_declare (d : StageDecls) (v : VarId) (list : DeclList) :
    (d.declare v list).globals.Perm (v :: d.globals) := by
  refine List.perm_iff_count.mpr fun w => ?_
  rw [List.count_cons]
  cases list
  all_goals
    simp only [StageDecls.declare, StageDecls.globals, List.count_append, List.count_cons,
      List.count_nil]
    omega

/-- A list of declarations takes variables of its roles. -/
theorem StageDecls.Typed.declare {target : Target} {vars : Array Variable} {d : StageDecls}
    {v : VarId} {role : Role} {list : DeclList} (h : d.Typed target vars)
    (hrole : list.Admits role) (htarget : role = .workgroup → target = .webGPU)
    (hv : DeclaredAs vars (· = role) v) : (d.declare v list).Typed target vars := by
  cases list with
  | constants =>
      refine { h with constants := ?_ }
      refine List.forall_mem_append.mpr ⟨h.constants, List.forall_mem_singleton.mpr ?_⟩
      exact hv.imp fun heq => heq ▸ hrole
  | inputs =>
      refine { h with inputs := ?_ }
      refine List.forall_mem_append.mpr ⟨h.inputs, List.forall_mem_singleton.mpr ?_⟩
      exact hv.imp fun heq => heq ▸ hrole
  | outputs =>
      refine { h with outputs := ?_ }
      refine List.forall_mem_append.mpr ⟨h.outputs, List.forall_mem_singleton.mpr ?_⟩
      exact hv.imp fun heq => heq ▸ hrole
  | resources =>
      refine { h with resources := ?_ }
      refine List.forall_mem_append.mpr ⟨h.resources, List.forall_mem_singleton.mpr ?_⟩
      refine hv.imp fun heq => heq ▸ ?_
      exact hrole.imp_right fun hworkgroup => ⟨hworkgroup, htarget hworkgroup⟩

namespace Build

/-- A variable is declared and added to the declarations of its stage. -/
theorem followsGlobally_declareIn {list : DeclList} (name : String) (t : TypeId) {role : Role}
    (init : Option NodeId) (hrole : list.Admits role) :
    FollowsGlobally Builder.Keeps role (declareIn list name t role init) := by
  intro b hb
  unfold declareIn
  rw [Builder.run_bind]
  have hkeeps := follows_newVar name t role init b
  rcases run_newVar_cases b name t role init with
    ⟨fault, b', hrun, -⟩ | ⟨s, f, rest, e, hs, hframes, hnew, hrun⟩
  · rw [hrun] at hkeeps ⊢
    exact hkeeps
  · have hname := isIdentifier_of_run_newVar hrun
    rw [hrun]
    dsimp only
    rw [Builder.run_bind, modifyDecls, Builder.run_modifyStage_of_some rfl]
    obtain rfl : rest = [] := by
      have hlength := hb.isGlobal s hs
      rw [hframes] at hlength
      simpa using hlength
    let x : Variable := ⟨name, t, role, s.decls.stage, init⟩
    let v : VarId := ⟨b.vars.size⟩
    have hsame : (s.decls.declare v list).stage = s.decls.stage ∧
        (s.decls.declare v list).functions = s.decls.functions := by
      cases list <;> exact ⟨rfl, rfl⟩
    have hgrows : s.Grows b.target b.vars (b.vars.push x) { s with
        decls := s.decls.declare v list
        frames := [{ f with symbols := (name, e) :: f.symbols }] } :=
      .declareGlobal hframes hnew e (globals_declare s.decls v list) hsame.1 hsame.2
        fun h => h.declare hrole hb.target (declaredAs_push hname rfl)
    exact .of_grows rfl hs rfl (extends_push _ _) fun _ => hgrows

/-- A change of the stage that does not show in its outline. -/
theorem follows_modifyStage_of_outline {f : OpenStage → OpenStage}
    (hf : ∀ s, (f s).outline = s.outline) : Follows Builder.Keeps (modifyStage f) := by
  intro b
  cases hs : b.stage with
  | none =>
      rw [Builder.run_modifyStage_of_none hs]
      exact b.keeps_refl
  | some s =>
      rw [Builder.run_modifyStage_of_some hs]
      exact .of_outline rfl hs rfl rfl (hf s)

end Build

/-- A plain statement has no scopes and declares nothing. -/
theorem Stmt.of_isPlain {st : Stmt NodeId} (h : st.isPlain = true) :
    st.declared = [] ∧ st.scopes = [] := by
  cases st with
  | declare | conditional | forRange | whileDo | doWhile | block => cases h
  | assign | eval | returnWith | breakLoop | continueLoop | discard => exact ⟨rfl, by simp [scopes]⟩

instance : IsStepwise Builder.Keeps where
  config h := h.config
  of_lost := Builder.Keeps.of_lost
  takes h hb := hb.of_keeps h
  setResult t := Build.follows_modifyStage_of_outline fun s => by
    simp only [OpenStage.outline, map_outline_fixResult]
  setSize _ := Build.follows_modifyStage_of_outline fun _ => rfl
  setTag _ _ := Build.follows_modifyStage_of_outline fun _ => rfl
  emit {st} h _ _ := by
    obtain ⟨hdeclared, hscopes⟩ := Stmt.of_isPlain h
    exact Build.keeps_emit st hdeclared (Or.inr (by simp [hscopes]))
  giveBack value _ := Build.keeps_emit (.returnWith value) rfl (Or.inr (by simp [Stmt.scopes]))
  declare name t init := (Build.keeps_declare name t init).where
  declareIn name t _ init h b hb := Build.followsGlobally_declareIn name t init h b hb.1.toTakes

instance : IsInheriting Builder.Keeps where
  inherit name t _ := Build.followsGlobally_declareIn name t none rfl

end WebShader
