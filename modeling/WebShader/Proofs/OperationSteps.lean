import WebShader.Proofs.Operations
import WebShader.Proofs.Reachable

/-!
# Operations step by step

Every operation adds to the builder, binds names and appends statements in the innermost scope, or
declares something globally. A relation that holds along each of these steps holds along every
operation.
-/

namespace WebShader

/-! ## Changes of the innermost scope -/

/-- The builder whose stage has the given scopes instead of its own. -/
def Builder.withFrame (b : Builder) (s : OpenStage) (f : Frame) (rest : List Frame) : Builder :=
  { b with stage := some { s with frames := f :: rest } }

namespace Build

variable {b : Builder} {s : OpenStage} {f : Frame} {rest : List Frame}

/-- The innermost scope is found. -/
theorem run_frame_of_cons (hs : b.stage = some s) (hframes : s.frames = f :: rest) :
    b.run frame = (.ok f, b) := by
  unfold frame
  rw [Builder.run_bind, Builder.run_stage_of_some hs]
  simp only [hframes]
  rfl

/-- The innermost scope is replaced. -/
theorem run_setFrame_of_cons (hs : b.stage = some s) (hframes : s.frames = f :: rest) (f' : Frame) :
    b.run (setFrame f') = (.ok (), b.withFrame s f' rest) := by
  rw [setFrame, Builder.run_modifyStage_of_some hs, hframes]
  rfl

/-- Looking at the innermost scope fails or gives it, and changes nothing. -/
theorem run_frame_cases (b : Builder) : (∃ e, b.run frame = (.error e, b)) ∨
    ∃ s f rest, b.stage = some s ∧ s.frames = f :: rest ∧ b.run frame = (.ok f, b) := by
  cases hs : b.stage with
  | none =>
      left
      unfold frame
      rw [Builder.run_bind, Builder.run_stage_of_none hs]
      exact ⟨_, rfl⟩
  | some s =>
      cases hframes : s.frames with
      | nil =>
          left
          unfold frame
          rw [Builder.run_bind, Builder.run_stage_of_some hs]
          simp only [hframes]
          exact ⟨_, rfl⟩
      | cons f rest => exact Or.inr ⟨s, f, rest, rfl, hframes, run_frame_of_cons hs hframes⟩

/-- Refusing what only functions hold changes nothing. -/
theorem run_requireFunction_cases (b : Builder) (what : String) :
    (∃ e, b.run (requireFunction what) = (.error e, b)) ∨
      b.run (requireFunction what) = (.ok (), b) := by
  unfold requireFunction inGlobalScope
  cases hs : b.stage with
  | none =>
      left
      rw [Builder.run_bind, Builder.run_bind, Builder.run_stage_of_none hs]
      exact ⟨_, rfl⟩
  | some s =>
      rw [Builder.run_bind, Builder.run_bind, Builder.run_stage_of_some hs]
      dsimp only [Builder.run_pure]
      split
      · exact Or.inl ⟨_, rfl⟩
      · exact Or.inr rfl

/-- Emitting a statement fails and changes nothing, or appends it to the innermost scope. -/
theorem run_emit_cases (b : Builder) (st : Stmt NodeId) :
    (∃ e, b.run (emit st) = (.error e, b)) ∨
      ∃ s f rest, b.stage = some s ∧ s.frames = f :: rest ∧
        b.run (emit st) = (.ok (), b.withFrame s { f with body := f.body ++ [st] } rest) := by
  unfold emit
  rw [Builder.run_bind]
  rcases run_requireFunction_cases b "statements" with ⟨e, hguard⟩ | hguard
  · rw [hguard]
    exact Or.inl ⟨e, rfl⟩
  · rw [hguard]
    dsimp only
    rw [Builder.run_bind]
    rcases run_frame_cases b with ⟨e, hframe⟩ | ⟨s, f, rest, hs, hframes, hframe⟩
    · rw [hframe]
      exact Or.inl ⟨e, rfl⟩
    · rw [hframe]
      exact Or.inr ⟨s, f, rest, hs, hframes, run_setFrame_of_cons hs hframes _⟩

/-- Binding a name fails and changes nothing, or binds a new name in the innermost scope. -/
theorem run_declareSymbol_cases (b : Builder) (name : String) (e : Expr) :
    (∃ fault, b.run (declareSymbol name e) = (.error fault, b)) ∨
      ∃ s f rest, b.stage = some s ∧ s.frames = f :: rest ∧ f.find? name = none ∧
        b.run (declareSymbol name e) =
          (.ok (), b.withFrame s { f with symbols := (name, e) :: f.symbols } rest) := by
  unfold declareSymbol
  rw [Builder.run_bind]
  rcases run_frame_cases b with ⟨fault, hframe⟩ | ⟨s, f, rest, hs, hframes, hframe⟩
  · rw [hframe]
    exact Or.inl ⟨fault, rfl⟩
  · rw [hframe]
    dsimp only
    cases hfind : f.find? name with
    | some e' => exact Or.inl ⟨_, rfl⟩
    | none => exact Or.inr ⟨s, f, rest, hs, hframes, hfind, run_setFrame_of_cons hs hframes _⟩

end Build

/-- The builder with one more variable and the expression that names it, not bound to its name. -/
def Builder.withVar (b : Builder) (d : Variable) : Builder :=
  { b with vars := b.vars.push d, nodes := b.nodes.push ⟨d.type, .var ⟨b.vars.size⟩⟩ }

namespace Build

/-- Declaring a variable fails and at most records it without its name, or adds it under a new name
of the innermost scope. -/
theorem run_newVar_cases (b : Builder) (name : String) (type : TypeId) (role : Role)
    (init : Option NodeId) :
    (∃ fault b', b.run (newVar name type role init) = (.error fault, b') ∧
      (b' = b ∨ ∃ d, b' = b.withVar d)) ∨
      ∃ s f rest e, b.stage = some s ∧ s.frames = f :: rest ∧ f.find? name = none ∧
        b.run (newVar name type role init) = (.ok (⟨b.vars.size⟩, e),
          (b.withVar ⟨name, type, role, s.decls.stage, init⟩).withFrame s
            { f with symbols := (name, e) :: f.symbols } rest) := by
  unfold newVar
  rw [Builder.run_bind, Builder.run_liftM]
  cases checkIdentifier name with
  | error fault => exact Or.inl ⟨fault, b, rfl, Or.inl rfl⟩
  | ok _ =>
      dsimp only
      rw [Builder.run_bind]
      cases hs : b.stage with
      | none =>
          rw [Builder.run_stage_of_none hs]
          exact Or.inl ⟨_, b, rfl, Or.inl rfl⟩
      | some s =>
          rw [Builder.run_stage_of_some hs]
          -- the variable and its expression are recorded before the name is looked for
          have hrun : b.run (do
              let v ← pushVar ⟨name, type, role, s.decls.stage, init⟩
              let e ← pushNode type (.var v)
              declareSymbol name e
              return (v, e)) =
              (b.withVar ⟨name, type, role, s.decls.stage, init⟩).run (do
                declareSymbol name ⟨⟨b.nodes.size⟩, type⟩
                return (⟨b.vars.size⟩, ⟨⟨b.nodes.size⟩, type⟩)) := rfl
          dsimp only at hrun ⊢
          rw [hrun, Builder.run_bind]
          rcases run_declareSymbol_cases (b.withVar ⟨name, type, role, s.decls.stage, init⟩) name
              ⟨⟨b.nodes.size⟩, type⟩ with ⟨fault, hdecl⟩ | ⟨t, f, rest, ht, hframes, hfind, hdecl⟩
          · rw [hdecl]
            exact Or.inl ⟨fault, _, rfl, Or.inr ⟨_, rfl⟩⟩
          · rw [hdecl]
            obtain rfl := Option.some.inj (hs.symm.trans ht)
            exact Or.inr ⟨s, f, rest, _, rfl, hframes, hfind, rfl⟩

/-- Only identifiers are declared. -/
theorem isIdentifier_of_run_newVar {b b' : Builder} {name : String} {type : TypeId} {role : Role}
    {init : Option NodeId} {x : VarId × Expr}
    (h : b.run (newVar name type role init) = (.ok x, b')) : isIdentifier name = true := by
  cases hname : checkIdentifier name with
  | error fault =>
      rw [newVar, Builder.run_bind, Builder.run_liftM, hname] at h
      cases (Prod.mk.inj h).1
  | ok _ => exact checkIdentifier_eq_ok_iff.mp hname

end Build

/-! ## Global declarations -/

/-- The lists of variables that a stage declares outside of its functions. -/
inductive DeclList where
  | constants
  | inputs
  | outputs
  | resources

/-- The variables of a list have one of these roles. -/
def DeclList.Admits : DeclList → Role → Prop
  | constants, role => role = .constant
  | inputs, role => role.inputLocation?.isSome = true
  | outputs, role => role.outputLocation?.isSome = true
  | resources, role => role.group?.isSome = true ∨ role = .workgroup

/-- Add a variable to one of the lists. -/
def StageDecls.declare (d : StageDecls) (v : VarId) : DeclList → StageDecls
  | .constants => { d with constants := d.constants ++ [v] }
  | .inputs => { d with inputs := d.inputs ++ [v] }
  | .outputs => { d with outputs := d.outputs ++ [v] }
  | .resources => { d with resources := d.resources ++ [v] }

/-- The global scope is at hand, and a variable of a workgroup may be declared only in WGSL. -/
structure Builder.Takes (role : Role) (b : Builder) : Prop where
  isGlobal : ∀ s, b.stage = some s → s.frames.length = 1
  target : role = .workgroup → b.target = .webGPU

/-- An attribute is declared in the vertex stage, and an output is numbered by those before it. -/
def StageDecls.Expects (d : StageDecls) : Role → Prop
  | .input _ semantic => semantic.isSome = true ∧ d.stage = .vertex
  | .output location => location = d.outputs.length
  | _ => True

/-- A variable of a role may be declared, and is one that the stage expects. -/
structure Builder.Awaits (role : Role) (b : Builder) : Prop extends b.Takes role where
  expected : ∀ s, b.stage = some s → s.decls.Expects role

/-- What is neither an input nor an output needs no location. -/
theorem Builder.Takes.awaits {role : Role} {b : Builder} (h : b.Takes role)
    (hinput : role.inputLocation? = none) (houtput : role.outputLocation? = none) :
    b.Awaits role := by
  refine { h with expected := fun s _ => ?_ }
  cases role with
  | input => cases hinput
  | output => cases houtput
  | localVar | param | constant | uniform | texture | sampler | storage | workgroup => trivial

/-- What a stage expects does not change while something is added to it. -/
theorem Builder.Awaits.of_adds {role : Role} {b b' : Builder} (h : b.Awaits role)
    (hadds : b.Adds b') : b'.Awaits role := by
  have hstage : ∀ s', b'.stage = some s' → ∃ s, b.stage = some s ∧ s'.stem = s.stem := by
    intro s' hs'
    have hrel := hadds.stage
    rw [hs'] at hrel
    cases hs : b.stage with
    | none => rw [hs] at hrel; cases hrel
    | some s =>
        rw [hs] at hrel
        cases hrel with
        | some hadds => exact ⟨s, rfl, hadds.stem⟩
  refine ⟨⟨fun s' hs' => ?_, fun hrole => ?_⟩, fun s' hs' => ?_⟩
  · obtain ⟨s, hs, hstem⟩ := hstage s' hs'
    have hframes : s'.stem.frames = s.stem.frames := by rw [hstem]
    exact (congrArg List.length hframes).trans (h.isGlobal s hs)
  · rw [← h.target hrole, Builder.target, hadds.config]
    rfl
  · obtain ⟨s, hs, hstem⟩ := hstage s' hs'
    have hdecls : s'.stem.decls = s.stem.decls := by rw [hstem]
    have hexpected : s.stem.decls.Expects role := h.expected s hs
    rw [← hdecls] at hexpected
    exact hexpected

namespace Build

/-- Where a variable of a role may be declared globally, the builder an operation leaves is related
to the one it has run on. -/
def FollowsGlobally {α : Type} (R : Builder → Builder → Prop) (role : Role) (act : Build α) :
    Prop :=
  ∀ b : Builder, b.Takes role → R b (b.run act).2

/-- Declare a variable of one of the lists. -/
def declareIn (list : DeclList) (name : String) (t : TypeId) (role : Role) (init : Option NodeId) :
    Build Expr := do
  let (v, e) ← newVar name t role init
  modifyDecls (·.declare v list)
  return e

/-- Declare a local variable. -/
def declare (name : String) (t : TypeId) (init : Option NodeId) : Build Expr := do
  let (v, e) ← newVar name t .localVar
  emit (.declare v init)
  return e

end Build

/-! ## Outlines -/

/-- The declarations of a stage without built-ins, extensions and the size of its workgroups. -/
def StageDecls.outline (d : StageDecls) : StageDecls :=
  { d with builtins := [], extensions := [], workgroupSize := (1, 1, 1) }

/-- What has opened a scope, without the type that its function returns. -/
def ScopeKind.opening : ScopeKind → ScopeKind
  | .function isMain _ => .function isMain none
  | kind => kind

/-- A scope without the type that its function returns. -/
def Frame.outline (f : Frame) : Frame := { f with kind := f.kind.opening }

/-- A stage without its tags, what only its expressions use and the types its functions return. -/
def OpenStage.outline (s : OpenStage) : OpenStage :=
  { s with decls := s.decls.outline, frames := s.frames.map Frame.outline, tags := [] }

/-- Additions leave the outline of the stage alone. -/
theorem OpenStage.Adds.outline_eq {s s' : OpenStage} (h : s.Adds s') : s'.outline = s.outline := by
  show s'.stem.outline = s.stem.outline
  rw [h.stem]

/-- The type that a function returns does not show in the outline. -/
theorem map_outline_fixResult (t : TypeId) (frames : List Frame) :
    (Build.fixResult t frames).map Frame.outline = frames.map Frame.outline := by
  fun_induction Build.fixResult t frames with
  | case1 => rfl
  | case2 f rest isMain result hkind => simp [Frame.outline, ScopeKind.opening, hkind]
  | case3 f rest hkind ih => rw [List.map_cons, List.map_cons, ih]

/-! ## Places and uniforms -/

/-- What may be assigned to still may be when expressions and variables are added. -/
theorem Builder.checkPlace_of_starts {b b' : Builder} (hconfig : b'.config = b.config)
    (hnodes : b.nodes.toList <+: b'.nodes.toList) (hvars : b.vars.toList <+: b'.vars.toList)
    {n : NodeId} (h : b.checkPlace n = .ok ()) : b'.checkPlace n = .ok () := by
  -- a part of the place comes before it, so that the recursion goes down in both builders
  have hbase : ∀ (m : NodeId) (e : ShaderError),
      (if m.index < n.index then b.checkPlace m else .error e) = .ok () →
        (if m.index < n.index then b'.checkPlace m else .error e) = .ok () := by
    intro m e hm
    by_cases hlt : m.index < n.index
    · rw [if_pos hlt] at hm ⊢
      exact checkPlace_of_starts hconfig hnodes hvars hm
    · rw [if_neg hlt] at hm
      cases hm
  have htarget : b'.target = b.target := congrArg Config.target hconfig
  rw [checkPlace] at h ⊢
  cases hn : b.node? n with
  | none =>
      rw [hn] at h
      cases h
  | some node =>
      obtain ⟨t, kind⟩ := node
      have hn' : b'.node? n = some ⟨t, kind⟩ := getElem?_of_starts hnodes hn
      rw [hn] at h
      rw [hn']
      cases kind with
      | var v =>
          dsimp only at h ⊢
          cases hv : b.var? v with
          | none =>
              rw [hv] at h
              cases h
          | some d =>
              have hv' : b'.var? v = some d := getElem?_of_starts hvars hv
              rw [hv] at h
              rw [hv']
              exact h
      | builtin | deref => exact h
      | member base | index base => exact hbase base _ h
      | swizzle base mask =>
          dsimp only at h ⊢
          rw [htarget]
          cases hmask : checkSwizzlePlace b.target mask with
          | error e =>
              rw [hmask] at h
              cases h
          | ok _ =>
              rw [hmask] at h
              exact hbase base _ h
      | literal | unary | binary | construct | call | intrinsic | addressOf => cases h
termination_by n.index

/-- A statement that may be emitted assigns to a place, if it assigns at all, and jumps only in a
loop. -/
def Builder.Accepts (b : Builder) : Stmt NodeId → Prop
  | .assign target _ _ => b.checkPlace target = .ok ()
  | .breakLoop | .continueLoop => ∀ s, b.stage = some s → Build.loopIsOpen s.frames = true
  | _ => True

/-- Whether variables of a role may be of such a type. What functions, blocks and workgroups hold
is sized, but for the pointers that are passed. -/
def Role.admits (role : Role) (k : TypeKind) : Bool :=
  match role with
  | localVar | uniform _ | workgroup => k.isSized
  | param => Build.isParamType k
  | constant | texture _ | sampler _ | storage _ _ | input _ _ | output _ => true

/-- What a role admits does not change while types are added. -/
theorem Role.admits_of_le {role : Role} {r r' : Registry} {t : TypeId}
    (h : role.admits (r.kind t) = true) (hle : r ≤ r') : role.admits (r'.kind t) = true := by
  by_cases hvoid : r.kind t = .void
  · -- what may be of a type that is not registered may be of any
    rw [hvoid] at h
    cases role <;> first | rfl | cases h
  · rwa [Registry.kind_of_le hle rfl hvoid]

/-- A variable of a type may be declared with a role that admits it, a uniform only if it follows
`std140` rules. -/
structure Builder.LaysOut (role : Role) (t : TypeId) (b : Builder) : Prop where
  admits : role.admits (b.types.kind t) = true
  std140 : ∀ group, role = .uniform group → b.types.Sound → Interning.HoldsStd140 b.types t

/-- A variable that is no uniform may be of a type that its role admits. -/
theorem Builder.laysOut_of_ne {role : Role} {t : TypeId} {b : Builder}
    (hrole : ∀ group, role ≠ .uniform group) (hadmits : role.admits (b.types.kind t) = true) :
    b.LaysOut role t := ⟨hadmits, fun group h => absurd h (hrole group)⟩

/-- Variables of some roles may be of any type. -/
theorem Builder.laysOut_of_admits {role : Role} (hrole : ∀ k, role.admits k = true) (t : TypeId)
    (b : Builder) : b.LaysOut role t := by
  refine laysOut_of_ne (fun group h => ?_) (hrole _)
  have hvoid := hrole .void
  rw [h] at hvoid
  cases hvoid

/-- The rules that a type follows do not change while types are added. -/
theorem Builder.LaysOut.of_le {role : Role} {t : TypeId} {b b' : Builder} (h : b.LaysOut role t)
    (hle : b.types ≤ b'.types) : b'.LaysOut role t := by
  refine ⟨Role.admits_of_le h.admits hle, fun group hrole hsound => ?_⟩
  have hsound := Registry.Sound.of_le hle hsound
  exact (h.std140 group hrole hsound).of_le hsound hle

/-! ## Relations along every step -/

/-- Whether a statement neither declares a variable nor has a body, and returns nothing. -/
def Stmt.isPlain {ν : Type} : Stmt ν → Bool
  | .assign _ _ _ | .eval _ | .breakLoop | .continueLoop | .discard => true
  | _ => false

/-- A relation that holds along each of the steps that operations without statements are made of. -/
class IsDeclarative (R : Builder → Builder → Prop) : Prop extends IsAdditive R where
  takes : ∀ {b b' : Builder} {role}, R b b' → b.Takes role → b'.Takes role
  setSize : ∀ size, Build.Follows R (Build.modifyDecls fun d => { d with workgroupSize := size })
  setTag : ∀ e path,
    Build.Follows R (Build.modifyStage fun s => { s with tags := putTag s.tags path e })
  declareIn : ∀ {list : DeclList} name t {role} init, list.Admits role →
    Build.FollowsWhere R (fun b => b.Awaits role ∧ b.LaysOut role t)
      (Build.declareIn list name t role init)

/-- A relation that holds along each of the steps that operations are made of, but for returns. -/
class IsElementary (R : Builder → Builder → Prop) : Prop extends IsDeclarative R where
  emit : ∀ {st : Stmt NodeId}, st.isPlain = true →
    Build.FollowsWhere R (·.Accepts st) (Build.emit st)
  declare : ∀ name t init,
    Build.FollowsWhere R (·.LaysOut .localVar t) (Build.declare name t init)

/-- A relation that holds along each of the steps that operations are made of. -/
class IsOperational (R : Builder → Builder → Prop) : Prop extends IsElementary R where
  setResult : ∀ t, Build.Follows R (Build.setResult t)
  giveBack : ∀ value, Build.Follows R (Build.emit (.returnWith value))

/-- A relation that also holds whenever the stage is lost. -/
class IsStepwise (R : Builder → Builder → Prop) : Prop extends IsOperational R where
  config : ∀ {b b'}, R b b' → b'.config = b.config
  of_lost : ∀ {b b' : Builder}, b'.config = b.config → b'.stage = none → R b b'

/-- A relation that also holds along the declaration of what a stage inherits from another. -/
class IsInheriting (R : Builder → Builder → Prop) : Prop extends IsStepwise R where
  inherit : ∀ name t location, Build.FollowsGlobally R (.input location none)
    (Build.declareIn .inputs name t (.input location none) none)

namespace Build

variable {R : Builder → Builder → Prop} {α β : Type} {role : Role}

/-! ## Statements and local variables -/

/-- What follows a check that a type can be held. -/
theorem FollowsWhere.requireSized_bind [IsPreorder Builder R] {C : Builder → Prop}
    {what name : String} {t : TypeId} {f : Unit → Build β}
    (hf : FollowsWhere R (fun b => C b ∧ (b.types.kind t).isSized = true) (f ())) :
    FollowsWhere R C (requireSized what name t >>= f) := by
  intro b hb
  unfold requireSized
  rw [Builder.run_bind, Builder.run_bind, Builder.run_get]
  dsimp only
  by_cases hsized : (b.types.kind t).isSized = true
  · rw [if_neg (by simp [hsized])]
    exact hf b ⟨hb, hsized⟩
  · rw [if_pos (by simp [hsized])]
    exact refl_of R b

/-- Bounds of loops are of a type that can be held. -/
theorem isSized_of_run_requireBounds {b b' : Builder} {first last : Expr}
    (h : b.run (requireBounds first last) = (.ok (), b')) :
    (b.types.kind first.type).isSized = true := by
  rw [requireBounds, Builder.run_bind, Builder.run_get] at h
  dsimp only at h
  cases hp : b.types.primitive? first.type with
  | some p =>
      rw [Registry.primitive?_eq_some_iff.mp hp]
      rfl
  | none =>
      rw [hp] at h
      cases (Prod.mk.inj h).1

section Statements

variable [IsElementary R]

/-- A statement that assigns to nothing may always be emitted. -/
theorem follows_emit {st : Stmt NodeId} (h : st.isPlain = true)
    (hst : ∀ b : Builder, b.Accepts st) : Follows R (emit st) :=
  fun b => IsElementary.emit h b (hst b)

/-- A value may be assigned to a place. -/
theorem follows_emit_assign (target value : NodeId) (op : Option BinaryOp) :
    FollowsWhere R (·.checkPlace target = .ok ()) (emit (.assign target op value)) := by
  have hplain : (Stmt.assign target op value).isPlain = true := rfl
  exact IsElementary.emit hplain

/-- What follows a check that an expression is a place. -/
theorem follows_checkPlace_bind {n : NodeId} {f : Builder → Unit → Build β}
    (hf : ∀ b, FollowsWhere R (·.checkPlace n = .ok ()) (f b ())) :
    Follows R (get >>= fun b => liftM (b.checkPlace n) >>= f b) := by
  intro b
  rw [Builder.run_bind, Builder.run_get]
  dsimp only
  rw [Builder.run_bind, Builder.run_liftM]
  cases hplace : b.checkPlace n with
  | error e => exact refl_of R b
  | ok _ => exact hf b b hplace

/-- A place is still one when it has been found out what is assigned to it. -/
theorem FollowsWhere.checkPlace_bind {n : NodeId} {act : Build α} {f : α → Build β}
    (h : Follows Builder.Adds act)
    (hf : ∀ a, FollowsWhere R (·.checkPlace n = .ok ()) (f a)) :
    FollowsWhere R (·.checkPlace n = .ok ()) (act >>= f) :=
  .bind_of_adds (fun _ _ hadds hplace =>
    Builder.checkPlace_of_starts hadds.config hadds.nodes (hadds.vars ▸ List.prefix_refl _) hplace)
    h hf

/-- A local variable of a type that can be held is declared. -/
theorem follows_declare (name : String) (t : TypeId) (init : Option NodeId) :
    FollowsWhere R (fun b => True ∧ (b.types.kind t).isSized = true) (declare name t init) :=
  FollowsWhere.of_imp (IsElementary.declare name t init)
    fun _ h => Builder.laysOut_of_ne (by simp) h.2

@[grind ←]
theorem follows_declareLocal (name : String) (init : Value) :
    Follows R (declareLocal name init) := by
  unfold declareLocal
  refine .bind (follows_requireFunction _) fun _ => .bind (follows_lower _ _) fun e => ?_
  exact FollowsWhere.follows (.requireSized_bind (follows_declare name e.type _))

@[grind ←]
theorem follows_declareVar (name : String) (shape : TypeShape) :
    Follows R (declareVar name shape) := by
  unfold declareVar
  refine .bind (follows_requireFunction _) fun _ => .bind (follows_type _) fun t => ?_
  exact FollowsWhere.follows (.requireSized_bind (follows_declare name t none))

@[grind ←]
theorem follows_assign (target : Expr) (value : Value) :
    Follows R (assign target value) := by
  unfold assign
  refine follows_checkPlace_bind fun b => ?_
  exact .checkPlace_bind (follows_coerce _ _ _) fun e => follows_emit_assign _ _ _

@[grind ←]
theorem follows_assignOp (target : Expr) (op : BinaryOp) (value : Value) :
    Follows R (assignOp target op value) := by
  have hrest : Follows R (do
      let b ← get
      b.checkPlace target.node
      let e ← lowerNear value (b.scalarOf? target.type)
      let t ← binaryType op target e
      let r := (← get).types
      if t ≠ target.type then
        throw (.type (.compound op (r.display target.type) (r.display t)))
      emit (.assign target.node (some op) e.node)) := by
    refine follows_checkPlace_bind fun b => ?_
    refine .checkPlace_bind (follows_lowerNear _ _) fun e => ?_
    refine .checkPlace_bind (follows_binaryType _ _ _) fun t => .checkPlace_bind .get fun b' => ?_
    dsimp only
    split
    · exact .checkPlace_bind (.throw _) fun _ => follows_emit_assign _ _ _
    · exact follows_emit_assign _ _ _
  unfold assignOp
  dsimp only
  split
  · exact .bind (.throw _) fun _ => hrest
  · exact hrest

@[grind ←]
theorem follows_assignNamed (name : String) (value : Value) :
    Follows R (assignNamed name value) := by
  unfold assignNamed
  grind

@[grind ←]
theorem follows_eval (e : Expr) : Follows R (eval e) := follows_emit rfl fun _ => trivial

/-- What follows a check that a loop is open. -/
theorem follows_requireLoop_bind {statement : String} {f : Unit → Build β}
    (hf : FollowsWhere R (fun b => ∀ s, b.stage = some s → loopIsOpen s.frames = true) (f ())) :
    Follows R (requireLoop statement >>= f) := by
  intro b
  unfold requireLoop
  rw [Builder.run_bind, Builder.run_bind]
  cases hs : b.stage with
  | none =>
      rw [Builder.run_stage_of_none hs]
      exact refl_of R b
  | some s =>
      rw [Builder.run_stage_of_some hs]
      dsimp only
      by_cases hopen : loopIsOpen s.frames = true
      · rw [if_neg (by simp [hopen])]
        refine hf b fun s' hs' => ?_
        rwa [← Option.some.inj (hs.symm.trans hs')]
      · rw [if_pos (by simp [hopen])]
        exact refl_of R b

@[grind ←]
theorem follows_breakLoop : Follows R breakLoop := by
  refine follows_requireLoop_bind ?_
  have hplain : (Stmt.breakLoop : Stmt NodeId).isPlain = true := rfl
  exact IsElementary.emit hplain

@[grind ←]
theorem follows_continueLoop : Follows R continueLoop := by
  refine follows_requireLoop_bind ?_
  have hplain : (Stmt.continueLoop : Stmt NodeId).isPlain = true := rfl
  exact IsElementary.emit hplain

@[grind ←]
theorem follows_discard : Follows R discard := by
  have hemit : Follows R (emit .discard) := follows_emit rfl fun _ => trivial
  unfold discard
  grind

@[grind ←]
theorem follows_call (name : String) (args : List Value) :
    Follows R (call name args) := by
  have hemit : ∀ e : Expr, Follows R (emit (.eval e.node)) :=
    fun e => follows_emit rfl fun _ => trivial
  have hcall : ∀ f (fn : Function), FollowsWhere R (·.function? f = some fn) (do
      let nodes ← coerceAll name (args.zip fn.paramTypes)
      let e ← pushNode fn.result (.call f nodes)
      if (← get).types.isVoid fn.result then emit (.eval e.node)
      return e) := by
    intro f fn
    refine .bind_of_adds (fun _ _ hadds hf => (hadds.function?_eq f).trans hf)
      (follows_coerceAll _ _) fun nodes => ?_
    refine .bind_delivers (Q := fun _ _ => True) (follows_pushCall _ f nodes fn)
      (fun _ _ _ _ _ => trivial) fun e => Follows.where ?_
    grind
  unfold call
  refine .bind follows_stage fun s => ?_
  dsimp only
  -- what follows the check is the same whether the check is made or not
  split
  case' isTrue => refine .bind (.throw _) fun _ => ?_
  all_goals
    refine FollowsWhere.follows (.bind_delivers (follows_chooseOverload _ _).where
      (delivers_chooseOverload _ _) fun chosen => ?_)
    cases chosen with
    | none => exact Follows.where (by grind)
    | some choice => exact (hcall choice.1 choice.2).of_imp fun b hb => hb choice.1 choice.2 rfl

@[grind ←]
theorem follows_assignBuiltin (b : Builtin) (value : Value) :
    Follows R (assignBuiltin b value) := by
  unfold assignBuiltin
  grind

end Statements

/-! ## Returns -/

section Returns

variable [IsOperational R]

@[grind ←]
theorem follows_setResult (t : TypeId) : Follows R (setResult t) := IsOperational.setResult t

@[grind ←]
theorem follows_returnWith (value : Option NodeId) : Follows R (emit (.returnWith value)) :=
  IsOperational.giveBack value

@[grind ←]
theorem follows_returnValue (v : Value) : Follows R (returnValue v) := by
  unfold returnValue
  grind

@[grind ←]
theorem follows_returnVoid : Follows R returnVoid := by
  unfold returnVoid
  grind

end Returns

/-! ## Sizes and tags -/

section Declarations

variable [IsDeclarative R]

@[grind ←]
theorem follows_setWorkgroupSize (x y z : UInt32) : Follows R (setWorkgroupSize x y z) := by
  have hset := IsDeclarative.setSize (R := R) (x, y, z)
  unfold setWorkgroupSize
  grind

@[grind ←]
theorem follows_tag (e : Expr) (path : String) : Follows R (tag e path) := by
  have hset := IsDeclarative.setTag (R := R) e path
  unfold tag
  grind

/-! ## Operations of the global scope -/

/-- One after the other, in the global scope. -/
theorem FollowsGlobally.bind {act : Build α} {f : α → Build β} (h : FollowsGlobally R role act)
    (hf : ∀ a, FollowsGlobally R role (f a)) : FollowsGlobally R role (act >>= f) := by
  intro b hb
  have hact := h b hb
  rw [Builder.run_bind]
  rcases hrun : b.run act with ⟨_ | a, b'⟩
  · rw [hrun] at hact
    exact hact
  · rw [hrun] at hact
    exact trans_of R hact (hf a b' (IsDeclarative.takes hact hb))

omit [IsDeclarative R] in
/-- What holds along every run holds along those in the global scope. -/
theorem Follows.globally {act : Build α} (h : Follows R act) : FollowsGlobally R role act :=
  fun b _ => h b

omit [IsDeclarative R] in
/-- Which role is declared makes no difference, but for the variables of a workgroup. -/
theorem FollowsGlobally.of_role {act : Build α} (h : FollowsGlobally R role act)
    (hrole : role ≠ .workgroup) (role' : Role) : FollowsGlobally R role' act :=
  fun b hb => h b ⟨hb.isGlobal, fun h => absurd h hrole⟩

/-- Asking for the global scope fails, or changes nothing and the global scope is at hand. -/
theorem run_requireGlobal_cases (b : Builder) (what : String) :
    (∃ e, b.run (requireGlobal what) = (.error e, b)) ∨
      b.run (requireGlobal what) = (.ok (), b) ∧ ∀ s, b.stage = some s → s.frames.length = 1 := by
  unfold requireGlobal inGlobalScope
  cases hs : b.stage with
  | none =>
      left
      rw [Builder.run_bind, Builder.run_bind, Builder.run_stage_of_none hs]
      exact ⟨_, rfl⟩
  | some s =>
      rw [Builder.run_bind, Builder.run_bind, Builder.run_stage_of_some hs]
      dsimp only [Builder.run_pure]
      by_cases hlength : s.frames.length = 1
      · right
        rw [if_neg (by simp [hlength])]
        refine ⟨rfl, fun s' hs' => ?_⟩
        rw [← Option.some.inj hs']
        exact hlength
      · left
        rw [if_pos (by simp [hlength])]
        exact ⟨_, rfl⟩

/-- A name for functions is refused, or changes nothing and the global scope is at hand. -/
theorem run_checkFunctionName_cases (b : Builder) (name : String) :
    (∃ e, b.run (checkFunctionName name) = (.error e, b)) ∨
      b.run (checkFunctionName name) = (.ok (), b) ∧
        ∀ s, b.stage = some s → s.frames.length = 1 := by
  unfold checkFunctionName
  rw [Builder.run_bind, Builder.run_liftM]
  cases checkIdentifier name with
  | error e => exact Or.inl ⟨e, rfl⟩
  | ok _ =>
      dsimp only
      rw [Builder.run_bind]
      rcases run_requireGlobal_cases b "functions" with ⟨e, hrun⟩ | ⟨hrun, hglobal⟩
      · rw [hrun]
        exact Or.inl ⟨e, rfl⟩
      · rw [hrun]
        dsimp only
        split
        · exact Or.inl ⟨_, rfl⟩
        · split
          · exact Or.inl ⟨_, rfl⟩
          · exact Or.inr ⟨rfl, hglobal⟩

/-- Only identifiers name functions. -/
theorem isIdentifier_of_run_checkFunctionName {b b' : Builder} {name : String}
    (h : b.run (checkFunctionName name) = (.ok (), b')) : isIdentifier name = true := by
  obtain ⟨_, _, hname, -⟩ := Builder.run_bind_eq_ok_iff.mp h
  rw [Builder.run_liftM] at hname
  exact checkIdentifier_eq_ok_iff.mp (Prod.mk.inj hname).1

/-- What follows a check that the global scope is at hand. -/
theorem follows_requireGlobal_bind (role : Role) {what : String} {f : Unit → Build β}
    (hrole : role ≠ .workgroup) (hf : FollowsGlobally R role (f ())) :
    Follows R (requireGlobal what >>= f) := by
  intro b
  rw [Builder.run_bind]
  rcases run_requireGlobal_cases b what with ⟨e, hrun⟩ | ⟨hrun, hglobal⟩
  · rw [hrun]
    exact refl_of R b
  · rw [hrun]
    exact hf b ⟨hglobal, fun h => absurd h hrole⟩

/-- A variable that may be of any type may be declared where the stage expects it. -/
theorem follows_declareIn {list : DeclList} (name : String) (t : TypeId) {role : Role}
    (init : Option NodeId) (hrole : list.Admits role) (hadmits : ∀ k, role.admits k = true) :
    FollowsWhere R (Builder.Awaits role) (declareIn list name t role init) :=
  fun b hb => IsDeclarative.declareIn name t init hrole b ⟨hb, b.laysOut_of_admits hadmits t⟩

/-- A resource may be declared where it is taken and laid out. -/
theorem follows_resource (name : String) (t : TypeId) {role : Role}
    (hrole : role.group?.isSome = true ∨ role = .workgroup) :
    FollowsWhere R (fun b => b.Takes role ∧ b.LaysOut role t) (resource name t role) := by
  have hdeclare : FollowsWhere R (fun b => b.Awaits role ∧ b.LaysOut role t)
      (declareIn .resources name t role none) := IsDeclarative.declareIn name t none hrole
  intro b hb
  refine hdeclare b ⟨hb.1.awaits ?_ ?_, hb.2⟩
  all_goals
    rcases hrole with hrole | rfl
    · cases role <;> first | rfl | cases hrole
    · rfl

theorem followsGlobally_resource (name : String) (t : TypeId) {role : Role}
    (hrole : role.group?.isSome = true ∨ role = .workgroup) (hadmits : ∀ k, role.admits k = true) :
    FollowsGlobally R role (resource name t role) :=
  fun b hb => follows_resource name t hrole b ⟨hb, b.laysOut_of_admits hadmits t⟩

@[grind ←]
theorem follows_uniformTexture (name : String) (texture : TextureType) (group : UInt32) :
    Follows R (uniformTexture name texture group) := by
  have hresource : ∀ t, FollowsGlobally R (.texture group) (resource name t (.texture group)) :=
    fun t => followsGlobally_resource name t (Or.inl rfl) fun _ => rfl
  refine follows_requireGlobal_bind (.texture group) (by simp) ?_
  refine .bind (follows_type _).globally fun t => ?_
  refine .bind (Follows.get (R := R)).globally fun b => ?_
  dsimp only
  split
  · exact .bind (follows_remark _).globally fun _ => hresource t
  · exact hresource t

@[grind ←]
theorem follows_uniformSampler (name : String) (kind : SamplerKind) (group : UInt32) :
    Follows R (uniformSampler name kind group) := by
  refine .bind (follows_require _) fun _ => follows_requireGlobal_bind (.sampler group) (by simp) ?_
  exact .bind (follows_type _).globally fun t =>
    followsGlobally_resource name t (Or.inl rfl) fun _ => rfl

omit [IsDeclarative R] in
/-- A type that is registered and then laid out, from a registry that has turned out sound, follows
`std140` rules. -/
theorem holdsStd140_of_run {b b₁ b₂ : Builder} {shape : TypeShape} {t t' : TypeId}
    (ht : b.run (type shape) = (.ok t, b₁))
    (ht' : b₁.run (intern (Interning.std140 t)) = (.ok t', b₂)) (hsound : b₂.types.Sound) :
    Interning.HoldsStd140 b₂.types t' := by
  have hadds := follows_type (R := Builder.Adds) shape b
  have hadds' := follows_std140 (R := Builder.Adds) t b₁
  rw [ht] at hadds
  rw [ht'] at hadds'
  have hsound₁ : b₁.types.Sound := .of_le hadds'.types hsound
  have hsound₀ : b.types.Sound := .of_le hadds.types hsound₁
  have hlt : t.index < b₁.types.size := by
    unfold type at ht
    rw [Builder.run_bind, Builder.run_get] at ht
    dsimp only at ht
    rw [Builder.run_bind, Builder.run_liftM] at ht
    cases hshape : checkShape b.target shape with
    | error e =>
        rw [hshape] at ht
        cases (Prod.mk.inj ht).1
    | ok _ =>
        rw [hshape] at ht
        dsimp only at ht
        rw [Builder.run_intern] at ht
        obtain ⟨hrun, rfl⟩ := Prod.mk.inj ht
        exact (Interning.ensures_shape hsound₀ shape).2.2 t _ (Prod.ext hrun rfl)
  rw [Builder.run_intern] at ht'
  obtain ⟨hrun, rfl⟩ := Prod.mk.inj ht'
  exact (Interning.ensures_std140 hsound₁ hlt).2.2 t' _ (Prod.ext hrun rfl)

@[grind ←]
theorem follows_uniformValue (name : String) (shape : TypeShape) (group : UInt32) :
    Follows R (uniformValue name shape group) := by
  refine follows_requireGlobal_bind (.uniform group) (by simp) fun b hb => ?_
  have htype := follows_type (R := R) shape b
  rw [Builder.run_bind]
  rcases hrun : b.run (type shape) with ⟨_ | t, b₁⟩
  · rw [hrun] at htype
    exact htype
  · rw [hrun] at htype
    refine trans_of R htype ?_
    have hstd := follows_std140 (R := R) t b₁
    have htakes := IsDeclarative.takes htype hb
    dsimp only
    rw [Builder.run_bind]
    rcases hrun' : b₁.run (intern (Interning.std140 t)) with ⟨_ | t', b₂⟩
    · rw [hrun'] at hstd
      exact hstd
    · rw [hrun'] at hstd
      refine trans_of R hstd ?_
      have hstd140 : b₂.types.Sound → Interning.HoldsStd140 b₂.types t' :=
        holdsStd140_of_run hrun hrun'
      have hresource : FollowsWhere R
          (fun b => b.Takes (.uniform group) ∧ (b.types.Sound → Interning.HoldsStd140 b.types t'))
          (requireSized "uniform" name t' >>= fun _ => resource name t' (.uniform group)) :=
        .requireSized_bind (FollowsWhere.of_imp (follows_resource name t' (Or.inl rfl))
          fun _ h => ⟨h.1.1, h.2, fun _ _ => h.1.2⟩)
      exact hresource b₂ ⟨IsDeclarative.takes hstd htakes, hstd140⟩

@[grind ←]
theorem follows_uniform (name : String) (shape : TypeShape) (group : UInt32) :
    Follows R (uniform name shape group) := by
  unfold uniform
  grind

@[grind ←]
theorem follows_storage (name : String) (shape : TypeShape) (group : UInt32) (readOnly : Bool) :
    Follows R (storage name shape group readOnly) := by
  refine .bind (follows_require _) fun _ => ?_
  refine follows_requireGlobal_bind (.storage group readOnly) (by simp) ?_
  refine .bind (follows_type _).globally fun t => ?_
  refine .bind (Follows.get (R := R)).globally fun b => ?_
  have hresource : FollowsGlobally R (.storage group readOnly) (resource name t _) :=
    followsGlobally_resource name t (Or.inl rfl) fun _ => rfl
  dsimp only
  split
  · exact .bind (Follows.throw (R := R) _).globally fun _ => hresource
  · exact hresource

@[grind ←]
theorem follows_workgroup (name : String) (shape : TypeShape) :
    Follows R (workgroup name shape) := by
  have hdeclare : ∀ b : Builder, b.target = .webGPU → R b (b.run (do
      requireGlobal "workgroup variables"
      let t ← type shape
      requireSized "workgroup variable" name t
      resource name t .workgroup)).2 := by
    intro b htarget
    rw [Builder.run_bind]
    rcases run_requireGlobal_cases b "workgroup variables" with ⟨e, hrun⟩ | ⟨hrun, hglobal⟩
    · rw [hrun]
      exact refl_of R b
    · rw [hrun]
      have hrest : FollowsGlobally R .workgroup (do
          let t ← type shape
          requireSized "workgroup variable" name t
          resource name t .workgroup) := by
        refine .bind (follows_type _).globally fun t => ?_
        have hresource : FollowsWhere R
            (fun b => b.Takes .workgroup ∧ (b.types.kind t).isSized = true)
            (resource name t .workgroup) :=
          FollowsWhere.of_imp (follows_resource name t (Or.inr rfl))
            fun _ h => ⟨h.1, Builder.laysOut_of_ne (by simp) h.2⟩
        exact FollowsWhere.requireSized_bind hresource
      exact hrest b ⟨hglobal, fun _ => htarget⟩
  intro b
  unfold workgroup
  rw [Builder.run_bind]
  -- a target that has workgroups is WGSL
  have hrequire : b.run (require .workgroup) = (b.target.require .workgroup, b) :=
    Builder.run_liftM b _
  cases htarget : b.target with
  | webGL | webGL2 =>
      rw [hrequire, htarget]
      exact refl_of R b
  | webGPU =>
      rw [hrequire, htarget]
      show R b (b.run (stage >>= _)).2
      rw [Builder.run_bind]
      cases hs : b.stage with
      | none =>
          rw [Builder.run_stage_of_none hs]
          exact refl_of R b
      | some s =>
          rw [Builder.run_stage_of_some hs]
          dsimp only
          split
          · exact refl_of R b
          · exact hdeclare b htarget

@[grind ←]
theorem follows_constant (name : String) (value : Value) :
    Follows R (constant name value) := by
  have hdeclare : ∀ e : Expr, FollowsGlobally R .constant
      (declareIn .constants name e.type .constant (some e.node)) :=
    fun e b hb => follows_declareIn name e.type _
      (show DeclList.constants.Admits .constant from rfl) (fun _ => rfl) b (hb.awaits rfl rfl)
  refine follows_requireGlobal_bind .constant (by simp) ?_
  refine .bind (follows_lower _ _).globally fun e => ?_
  refine .bind (Follows.get (R := R)).globally fun b => ?_
  dsimp only
  split
  · exact .bind (Follows.throw (R := R) _).globally fun _ => hdeclare e
  · exact hdeclare e

/-! ### Inputs and outputs -/

section Expected

omit [IsDeclarative R]

variable [IsAdditive R] {C : Builder → Prop}

/-- What is only added does not come between a stage and what it expects. -/
theorem FollowsWhere.bind {act : Build α} {f : α → Build β}
    (h : Follows Builder.Adds act) (hf : ∀ a, FollowsWhere R (Builder.Awaits role) (f a)) :
    FollowsWhere R (Builder.Awaits role) (act >>= f) :=
  .bind_of_adds (fun _ _ hadds hb => hb.of_adds hadds) h hf

/-- What follows a look at the stage. -/
theorem FollowsWhere.stage_bind {f : OpenStage → Build β}
    (hf : ∀ s, FollowsWhere R (fun b => C b ∧ b.stage = some s) (f s)) :
    FollowsWhere R C (stage >>= f) := by
  intro b hb
  rw [Builder.run_bind]
  cases hs : b.stage with
  | none =>
      rw [Builder.run_stage_of_none hs]
      exact refl_of R b
  | some s =>
      rw [Builder.run_stage_of_some hs]
      exact hf s b ⟨hb, hs⟩

/-- What follows a check that the global scope is at hand declares what the stage expects. -/
theorem FollowsWhere.requireGlobal_bind {what : String} {f : Unit → Build β}
    {s : OpenStage} (hexpects : s.decls.Expects role) (hrole : role ≠ .workgroup)
    (hf : FollowsWhere R (Builder.Awaits role) (f ())) :
    FollowsWhere R (fun b => b.stage = some s) (requireGlobal what >>= f) := by
  intro b hs
  rw [Builder.run_bind]
  rcases run_requireGlobal_cases b what with ⟨e, hrun⟩ | ⟨hrun, hglobal⟩
  · rw [hrun]
    exact refl_of R b
  · rw [hrun]
    refine hf b ⟨⟨hglobal, fun h => absurd h hrole⟩, fun s' hs' => ?_⟩
    rwa [← Option.some.inj (hs.symm.trans hs')]

end Expected

@[grind ←]
theorem follows_vertexInput (name : String) (shape : TypeShape) (semantic : Semantic) :
    Follows R (vertexInput name shape semantic) := by
  let role : Role := .input semantic.location (some semantic)
  have hdeclare : ∀ t, FollowsWhere R (Builder.Awaits role) (declareIn .inputs name t role none) :=
    fun t => follows_declareIn name t none rfl fun _ => rfl
  unfold vertexInput
  refine FollowsWhere.follows (.stage_bind fun s => ?_)
  dsimp only
  split
  · exact .throw_bind _ _
  · rename_i hstage
    have hexpects : s.decls.Expects role := ⟨rfl, not_not.mp hstage⟩
    refine FollowsWhere.of_imp (.requireGlobal_bind hexpects (by simp [role]) ?_) fun _ h => h.2
    refine .bind (follows_interfaceType _ _ _) fun x => ?_
    obtain ⟨t, p⟩ := x
    dsimp only
    -- what follows a check is the same whether the check is made or not
    split
    case' isTrue => refine .bind (follows_require _) fun _ => ?_
    all_goals
      refine .bind .get fun b => .bind follows_stage fun s' => ?_
      split
      · exact .bind (.throw _) fun _ => hdeclare t
      · exact hdeclare t

@[grind ←]
theorem follows_output (name : String) (shape : TypeShape) :
    Follows R (output name shape) := by
  have hdeclare : ∀ t location, FollowsWhere R (Builder.Awaits (.output location))
      (declareIn .outputs name t (.output location) none) :=
    fun t location => follows_declareIn name t none rfl fun _ => rfl
  unfold output
  refine FollowsWhere.follows (.stage_bind fun s => ?_)
  let role : Role := .output s.decls.outputs.length
  have hexpects : s.decls.Expects role := rfl
  -- the outputs have not changed when they are counted
  have hcounted : ∀ (t : TypeId) (p : PrimitiveType),
      FollowsWhere R (Builder.Awaits role) (do
        let location := (← stage).decls.outputs.length
        if s.decls.stage = .fragment && (← get).target = .webGL then checkColor name p location
        declareIn .outputs name t (.output location) none) := by
    intro t p
    refine .stage_bind fun s' => ?_
    refine FollowsWhere.of_imp (D := Builder.Awaits (.output s'.decls.outputs.length)) ?_ ?_
    · refine .bind .get fun b => ?_
      split
      · exact .bind (follows_checkColor _ _ _) fun _ => hdeclare t _
      · exact hdeclare t _
    · rintro b ⟨hb, hs'⟩
      have hlocation : s.decls.outputs.length = s'.decls.outputs.length := hb.expected s' hs'
      rwa [← hlocation]
  dsimp only
  split
  · exact .throw_bind _ _
  · refine FollowsWhere.of_imp (.requireGlobal_bind hexpects (by simp [role]) ?_) fun _ h => h.2
    refine .bind (follows_interfaceType _ _ _) fun x => ?_
    obtain ⟨t, p⟩ := x
    dsimp only
    split
    case' isTrue => refine .bind (follows_require _) fun _ => ?_
    all_goals exact hcounted t p

end Declarations

/-- The outputs of a stage become inputs of the one at hand. -/
theorem followsGlobally_inputsFrom {R : Builder → Builder → Prop} [IsInheriting R]
    (vs : List VarId) : FollowsGlobally R (.input 0 none) (inputsFrom vs) := by
  induction vs with
  | nil => exact (Follows.pure (R := R) ()).globally
  | cons out rest ih =>
      unfold inputsFrom
      refine .bind (Follows.get (R := R)).globally fun b => ?_
      split
      · rename_i name t location _ _ _
        have hdeclare := IsInheriting.inherit (R := R) name t location
        have hrest := (hdeclare.of_role (by simp) (.input 0 none)).bind fun _ => ih
        simp only [declareIn, bind_assoc, pure_bind] at hrest
        exact hrest
      · exact (Follows.throw (R := R) _).globally

end Build

end WebShader
