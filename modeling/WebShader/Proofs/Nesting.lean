import WebShader.Proofs.Scripts

/-!
# Nesting

Whatever runs in the scopes of a function leaves everything around the innermost one as it was: the
other scopes, the statements and the declarations of the stage. Only tags, the types that functions
return and the size of workgroups may change there, and the builder only ever grows, unless it is
reset.
-/

namespace WebShader

/-! ## What stays -/

/-- A builder with the options of another, and all of its types, expressions and variables at the
same places. -/
structure Builder.Grows (b b' : Builder) : Prop where
  config : b'.config = b.config
  phase : b'.phase = b.phase
  types : b.types ≤ b'.types
  nodes : b.nodes.toList <+: b'.nodes.toList
  vars : b.vars.toList <+: b'.vars.toList
  accesses : b.accesses <:+ b'.accesses

/-- A builder grows, and its stage stays as told. -/
structure Builder.Kept (P : OpenStage → OpenStage → Prop) (b b' : Builder) : Prop
    extends Builder.Grows b b' where
  stage : Option.Rel P b.stage b'.stage

/-- A builder has no stage any more. -/
structure Builder.Lost (b b' : Builder) : Prop where
  config : b'.config = b.config
  stage : b'.stage = none

/-- A builder grows and its stage stays as told, unless the stage is lost. -/
def Builder.KeptOrLost (P : OpenStage → OpenStage → Prop) (b b' : Builder) : Prop :=
  b.Kept P b' ∨ b.Lost b'

/-- A stage with the scopes, statements and declarations of another. -/
structure OpenStage.Restores (s s' : OpenStage) : Prop where
  outline : s'.outline = s.outline
  builtins : s.decls.builtins <+: s'.decls.builtins
  extensions : s.decls.extensions <:+ s'.decls.extensions

/-- A stage without its innermost scope. -/
def OpenStage.surroundings (s : OpenStage) : OpenStage :=
  { s.outline with frames := s.outline.frames.drop 1 }

/-- A stage with as many open scopes as another. Around the innermost one, if it is inside of a
function, the scopes, statements and declarations are the same. -/
structure OpenStage.Nests (s s' : OpenStage) : Prop where
  openings : s.frames ≠ [] → s'.frames.map (·.kind.opening) = s.frames.map (·.kind.opening)
  builtins : s.decls.builtins <+: s'.decls.builtins
  extensions : s.decls.extensions <:+ s'.decls.extensions
  surroundings : 2 ≤ s.frames.length → s'.surroundings = s.surroundings

/-- A preorder of stages that holds when something is added, and only of stages that are the same
around their innermost scope. -/
class IsStageOrder (P : OpenStage → OpenStage → Prop) : Prop extends IsPreorder OpenStage P where
  of_adds : ∀ s s' : OpenStage, s.Adds s' → P s s'
  nests : ∀ s s' : OpenStage, P s s' → s.Nests s'

/-- A preorder of stages that also holds along whatever changes the innermost scope: statements are
emitted, names are bound that are new there, and the global scope takes declarations. -/
class IsScopeOrder (P : OpenStage → OpenStage → Prop) : Prop extends IsStageOrder P where
  of_restores : ∀ s s' : OpenStage, s.Restores s' → P s s'
  emits : ∀ {s : OpenStage} {f rest} body, s.frames = f :: rest →
    P s { s with frames := { f with body } :: rest }
  binds : ∀ {s : OpenStage} {f rest name} e, s.frames = f :: rest → f.find? name = none →
    P s { s with frames := { f with symbols := (name, e) :: f.symbols } :: rest }
  declares : ∀ {s s' : OpenStage}, s.frames.length = 1 → s'.frames = s.frames →
    s'.decls.builtins = s.decls.builtins → s'.decls.extensions = s.decls.extensions → P s s'

/-- What anything that runs inside of a function leaves. -/
abbrev Builder.Nests : Builder → Builder → Prop := Builder.KeptOrLost OpenStage.Nests

section Stages

variable {s s' s'' : OpenStage}

/-- Scopes with one outline were opened alike. -/
theorem OpenStage.openings_of_outline (h : s'.outline = s.outline) :
    s'.frames.map (·.kind.opening) = s.frames.map (·.kind.opening) := by
  have hframes : s'.frames.map Frame.outline = s.frames.map Frame.outline :=
    congrArg OpenStage.frames h
  have hkinds := congrArg (List.map (·.kind)) hframes
  rwa [List.map_map, List.map_map] at hkinds

/-- Additions leave all scopes alone. -/
theorem OpenStage.Adds.restores (h : s.Adds s') : s.Restores s' :=
  ⟨h.outline_eq, h.builtins, h.extensions⟩

/-- Scopes that are restored were opened alike. -/
theorem OpenStage.Restores.nests (h : s.Restores s') : s.Nests s' := by
  refine ⟨fun _ => OpenStage.openings_of_outline h.outline, h.builtins, h.extensions, fun _ => ?_⟩
  rw [OpenStage.surroundings, OpenStage.surroundings, h.outline]

/-- As many scopes are open as before. -/
theorem OpenStage.Nests.length_eq (h : s.Nests s') (hs : s.frames ≠ []) :
    s'.frames.length = s.frames.length := by
  simpa using congrArg List.length (h.openings hs)

/-- There still is a scope. -/
theorem OpenStage.Nests.frames_ne_nil (h : s.Nests s') (hs : s.frames ≠ []) : s'.frames ≠ [] := by
  intro hnil
  have hlength := h.length_eq hs
  rw [hnil] at hlength
  exact hs (List.eq_nil_of_length_eq_zero hlength.symm)

/-- Scopes stay open in steps. -/
theorem OpenStage.Nests.trans (h : s.Nests s') (h' : s'.Nests s'') : s.Nests s'' where
  openings hs := (h'.openings (h.frames_ne_nil hs)).trans (h.openings hs)
  builtins := h.builtins.trans h'.builtins
  extensions := h.extensions.trans h'.extensions
  surroundings hlength := by
    have hs : s.frames ≠ [] := fun hnil => by simp [hnil] at hlength
    exact (h'.surroundings (h.length_eq hs ▸ hlength)).trans (h.surroundings hlength)

instance : IsStageOrder OpenStage.Adds where
  refl := OpenStage.Adds.refl
  trans _ _ _ := OpenStage.Adds.trans
  of_adds _ _ h := h
  nests _ _ h := h.restores.nests

instance : IsStageOrder OpenStage.Restores where
  refl _ := ⟨rfl, List.prefix_refl _, List.suffix_refl _⟩
  trans _ _ _ h h' := ⟨h'.outline.trans h.outline, h.builtins.trans h'.builtins,
    h.extensions.trans h'.extensions⟩
  of_adds _ _ h := h.restores
  nests _ _ h := h.nests

/-- A change of the innermost scope. -/
theorem OpenStage.Nests.of_frame {f f' : Frame} {rest : List Frame} (hframes : s.frames = f :: rest)
    (hkind : f'.kind = f.kind) : s.Nests { s with frames := f' :: rest } := by
  refine ⟨fun _ => ?_, List.prefix_refl _, List.suffix_refl _, fun _ => ?_⟩
  · rw [hframes, List.map_cons, List.map_cons, hkind]
  · simp [OpenStage.surroundings, OpenStage.outline, hframes]

/-- Where the global scope is at hand, no scope is around the innermost one. -/
theorem OpenStage.Nests.of_global (hlength : s.frames.length = 1) (hframes : s'.frames = s.frames)
    (hbuiltins : s'.decls.builtins = s.decls.builtins)
    (hextensions : s'.decls.extensions = s.decls.extensions) : s.Nests s' where
  openings _ := by rw [hframes]
  builtins := hbuiltins ▸ List.prefix_refl _
  extensions := hextensions ▸ List.suffix_refl _
  surroundings h := by omega

instance : IsScopeOrder OpenStage.Nests where
  refl s := (refl_of OpenStage.Restores s).nests
  trans _ _ _ := OpenStage.Nests.trans
  of_adds _ _ h := h.restores.nests
  nests _ _ h := h
  of_restores _ _ h := h.nests
  emits _ hframes := .of_frame hframes rfl
  binds _ hframes _ := .of_frame hframes rfl
  declares := .of_global

end Stages

/-! ## Builders -/

namespace Builder

variable {P Q : OpenStage → OpenStage → Prop} {b b' b'' : Builder} {s s' : OpenStage}

/-- A builder that is left alone has grown by nothing. -/
theorem grows_refl (b : Builder) : b.Grows b :=
  ⟨rfl, rfl, le_refl _, List.prefix_refl _, List.prefix_refl _, List.suffix_refl _⟩

/-- A builder grows in steps. -/
theorem Grows.trans (h : b.Grows b') (h' : b'.Grows b'') : b.Grows b'' :=
  ⟨h'.config.trans h.config, h'.phase.trans h.phase, le_trans h.types h'.types,
    h.nodes.trans h'.nodes, h.vars.trans h'.vars, h.accesses.trans h'.accesses⟩

/-- Additions make the builder grow. -/
theorem Adds.grows (h : b.Adds b') : b.Grows b' :=
  ⟨h.config, h.phase, h.types, h.nodes, h.vars ▸ List.prefix_refl _, h.accesses⟩

/-- One more variable makes the builder grow. -/
theorem grows_withVar (b : Builder) (d : Variable) : b.Grows (b.withVar d) := by
  refine { b.grows_refl with nodes := ?_, vars := ?_ }
  · show b.nodes.toList <+: (b.nodes.push _).toList
    rw [Array.toList_push]
    exact List.prefix_append _ _
  · show b.vars.toList <+: (b.vars.push d).toList
    rw [Array.toList_push]
    exact List.prefix_append _ _

/-- A stage is related to itself. -/
theorem rel_refl [IsPreorder OpenStage P] (s : Option OpenStage) : Option.Rel P s s := by
  cases s with
  | none => exact .none
  | some s => exact .some (refl_of P s)

/-- Relations of stages are composed. -/
theorem rel_comp {R : OpenStage → OpenStage → Prop} {s s' s'' : Option OpenStage}
    (h : Option.Rel P s s') (h' : Option.Rel Q s' s'')
    (hR : ∀ s s' s'', P s s' → Q s' s'' → R s s'') : Option.Rel R s s'' := by
  cases h with
  | none =>
      cases h' with
      | none => exact .none
  | some h =>
      cases h' with
      | some h' => exact .some (hR _ _ _ h h')

/-- A stage is related in steps. -/
theorem rel_trans [IsPreorder OpenStage P] {s s' s'' : Option OpenStage} (h : Option.Rel P s s')
    (h' : Option.Rel P s' s'') : Option.Rel P s s'' :=
  rel_comp h h' fun _ _ _ => trans_of P

/-- A relation of stages may be weakened. -/
theorem rel_mono (hPQ : ∀ s s', P s s' → Q s s') {s s' : Option OpenStage} (h : Option.Rel P s s') :
    Option.Rel Q s s' := by
  cases h with
  | none => exact .none
  | some h => exact .some (hPQ _ _ h)

/-- What is kept of the stage may be weakened. -/
theorem Kept.mono (hPQ : ∀ s s', P s s' → Q s s') (h : b.Kept P b') : b.Kept Q b' :=
  ⟨h.toGrows, rel_mono hPQ h.stage⟩

/-- An open stage is kept. -/
theorem Kept.of_some (hgrows : b.Grows b') (hs : b.stage = some s) (hs' : b'.stage = some s')
    (h : P s s') : b.Kept P b' := by
  refine ⟨hgrows, ?_⟩
  rw [hs, hs']
  exact .some h

/-- The stage of a builder that has been kept was open before. -/
theorem Kept.exists_of_some (h : b.Kept P b') (hs' : b'.stage = some s') :
    ∃ s, b.stage = some s ∧ P s s' := by
  have hstage := h.stage
  rw [hs'] at hstage
  cases hs : b.stage with
  | none => rw [hs] at hstage; cases hstage
  | some s =>
      rw [hs] at hstage
      cases hstage with
      | some hP => exact ⟨s, rfl, hP⟩

/-- An open stage stays open. -/
theorem Kept.exists_stage (h : b.Kept P b') (hs : b.stage = some s) :
    ∃ s', b'.stage = some s' ∧ P s s' := by
  have hstage := h.stage
  rw [hs] at hstage
  cases hs' : b'.stage with
  | none => rw [hs'] at hstage; cases hstage
  | some s' =>
      rw [hs'] at hstage
      cases hstage with
      | some hP => exact ⟨s', rfl, hP⟩

/-- A stage is not opened by what nests. -/
theorem KeptOrLost.stage_eq_none (h : b.KeptOrLost P b') (hs : b.stage = none) :
    b'.stage = none := by
  rcases h with h | h
  · have hstage := h.stage
    rw [hs] at hstage
    cases hs' : b'.stage with
    | none => rfl
    | some s => rw [hs'] at hstage; cases hstage
  · exact h.stage

section Preorders

variable [IsPreorder OpenStage P]

/-- A builder that is left alone is kept. -/
theorem kept_refl (b : Builder) : b.Kept P b := ⟨b.grows_refl, rel_refl b.stage⟩

/-- A builder is kept in steps. -/
theorem Kept.trans (h : b.Kept P b') (h' : b'.Kept P b'') : b.Kept P b'' :=
  ⟨h.toGrows.trans h'.toGrows, rel_trans h.stage h'.stage⟩

/-- A variable that has been recorded but not named. -/
theorem kept_withVar (b : Builder) (d : Variable) : b.Kept P (b.withVar d) :=
  ⟨b.grows_withVar d, rel_refl b.stage⟩

instance : IsPreorder Builder (Kept P) where
  refl := kept_refl
  trans _ _ _ := Kept.trans

instance : IsPreorder Builder (KeptOrLost P) where
  refl b := Or.inl b.kept_refl
  trans _ _ _ h h' := by
    rcases h with h | h <;> rcases h' with h' | h'
    · exact Or.inl (h.trans h')
    · exact Or.inr ⟨h'.config.trans h.config, h'.stage⟩
    · refine Or.inr ⟨h'.config.trans h.config, ?_⟩
      have hstage := h'.stage
      rw [h.stage] at hstage
      cases hb'' : Builder.stage _ with
      | none => rfl
      | some s => rw [hb''] at hstage; cases hstage
    · exact Or.inr ⟨h'.config.trans h.config, h'.stage⟩

end Preorders

section Additive

variable [IsStageOrder P]

/-- Additions keep the builder. -/
theorem Kept.of_adds (h : b.Adds b') : b.Kept P b' :=
  ⟨h.grows, rel_mono IsStageOrder.of_adds h.stage⟩

instance : IsAdditive (Kept P) where
  of_adds _ _ := Kept.of_adds

instance : IsAdditive (KeptOrLost P) where
  of_adds _ _ h := Or.inl (Kept.of_adds h)

end Additive

end Builder

/-! ## What runs inside of functions -/

section Nested

variable {P : OpenStage → OpenStage → Prop} [IsScopeOrder P]

omit [IsScopeOrder P] in
/-- A stage stays as told, whatever its builder is. -/
theorem kept_modifyStage [IsStageOrder P] {f : OpenStage → OpenStage}
    (hf : ∀ s : OpenStage, P s (f s)) :
    Build.Follows (Builder.Kept P) (Build.modifyStage f) := by
  intro b
  cases hs : b.stage with
  | none =>
      rw [Builder.run_modifyStage_of_none hs]
      exact b.kept_refl
  | some s =>
      rw [Builder.run_modifyStage_of_some hs]
      exact .of_some { b.grows_refl with } hs rfl (hf s)

/-- Declaring a variable binds it in the innermost scope, or leaves it without a name. -/
theorem kept_newVar (name : String) (t : TypeId) (role : Role) (init : Option NodeId) :
    Build.Follows (Builder.Kept P) (Build.newVar name t role init) := by
  intro b
  rcases Build.run_newVar_cases b name t role init with
    ⟨fault, b', hrun, rfl | ⟨d, rfl⟩⟩ | ⟨s, f, rest, e, hs, hframes, hfind, hrun⟩
  · rw [hrun]
    exact b'.kept_refl
  · rw [hrun]
    exact b.kept_withVar d
  · rw [hrun]
    exact .of_some { b.grows_withVar _ with } hs rfl (IsScopeOrder.binds e hframes hfind)

/-- A statement goes to the innermost scope. -/
theorem kept_emit (st : Stmt NodeId) : Build.Follows (Builder.Kept P) (Build.emit st) := by
  intro b
  rcases Build.run_emit_cases b st with ⟨e, hrun⟩ | ⟨s, f, rest, hs, hframes, hrun⟩
  · rw [hrun]
    exact b.kept_refl
  · rw [hrun]
    exact .of_some { b.grows_refl with } hs rfl (IsScopeOrder.emits _ hframes)

/-- A declaration in the global scope. -/
theorem globally_kept_modifyStage {role : Role} {f : OpenStage → OpenStage}
    (hf : ∀ s, (f s).frames = s.frames ∧ (f s).decls.builtins = s.decls.builtins ∧
      (f s).decls.extensions = s.decls.extensions) :
    Build.FollowsGlobally (Builder.Kept P) role (Build.modifyStage f) := by
  intro b hb
  cases hs : b.stage with
  | none =>
      rw [Builder.run_modifyStage_of_none hs]
      exact b.kept_refl
  | some s =>
      rw [Builder.run_modifyStage_of_some hs]
      obtain ⟨hframes, hbuiltins, hextensions⟩ := hf s
      exact .of_some { b.grows_refl with } hs rfl
        (IsScopeOrder.declares (hb.isGlobal s hs) hframes hbuiltins hextensions)

omit [IsScopeOrder P] in
/-- A builder that is kept takes the same declarations. -/
theorem Builder.Kept.takes [IsStageOrder P] {b b' : Builder} {role : Role} (h : b.Kept P b')
    (hb : b.Takes role) : b'.Takes role := by
  refine ⟨fun s' hs' => ?_, fun hrole => (congrArg Config.target h.config).trans (hb.target hrole)⟩
  obtain ⟨s, hs, hsame⟩ := h.exists_of_some hs'
  have hlength := hb.isGlobal s hs
  have hframes : s.frames ≠ [] := fun hnil => by simp [hnil] at hlength
  exact ((IsStageOrder.nests _ _ hsame).length_eq hframes).trans hlength

/-- A variable is declared globally. -/
theorem kept_declareIn {list : DeclList} (name : String) (t : TypeId) {role : Role}
    (init : Option NodeId) : Build.FollowsGlobally (Builder.Kept P) role
      (Build.declareIn list name t role init) := by
  intro b hb
  have hnew := kept_newVar (P := P) name t role init b
  unfold Build.declareIn
  rw [Builder.run_bind]
  rcases hrun : b.run (Build.newVar name t role init) with ⟨_ | x, b'⟩
  · rw [hrun] at hnew
    exact hnew
  · rw [hrun] at hnew
    have hadd : Build.FollowsGlobally (Builder.Kept P) role
        (Build.modifyDecls (·.declare x.1 list)) :=
      globally_kept_modifyStage fun s => by cases list <;> exact ⟨rfl, rfl, rfl⟩
    refine hnew.trans ?_
    dsimp only
    rw [Builder.run_bind]
    have h := hadd b' (hnew.takes hb)
    rcases hrun' : b'.run (Build.modifyDecls (·.declare x.1 list)) with ⟨_ | _, b''⟩
    · rw [hrun'] at h
      exact h
    · rw [hrun'] at h
      exact h

/-- A stage whose scopes look the same is restored. -/
theorem OpenStage.Restores.of_outline {s s' : OpenStage} (h : s'.outline = s.outline)
    (hbuiltins : s'.decls.builtins = s.decls.builtins)
    (hextensions : s'.decls.extensions = s.decls.extensions) : s.Restores s' :=
  ⟨h, hbuiltins ▸ List.prefix_refl _, hextensions ▸ List.suffix_refl _⟩

instance : IsOperational (Builder.Kept P) where
  takes := Builder.Kept.takes
  setResult t := kept_modifyStage fun s => by
    refine IsScopeOrder.of_restores _ _ (.of_outline ?_ rfl rfl)
    simp only [OpenStage.outline, map_outline_fixResult]
  setSize _ := kept_modifyStage fun _ => IsScopeOrder.of_restores _ _ (.of_outline rfl rfl rfl)
  setTag _ _ := kept_modifyStage fun _ => IsScopeOrder.of_restores _ _ (.of_outline rfl rfl rfl)
  emit _ := (kept_emit _).where
  giveBack _ := kept_emit _
  declare _ _ _ := Build.Follows.where
    (.bind (kept_newVar _ _ _ _) fun _ => .bind (kept_emit _) fun _ => .pure _)
  declareIn name t _ init _ b hb := kept_declareIn name t init b hb.1.toTakes

omit [IsScopeOrder P] in
/-- What keeps the builder keeps it or loses the stage. -/
theorem Build.Follows.orLost {α : Type} {act : Build α} (h : Follows (Builder.Kept P) act) :
    Follows (Builder.KeptOrLost P) act :=
  fun b => Or.inl (h b)

theorem nests_newVar (name : String) (t : TypeId) (role : Role) (init : Option NodeId) :
    Build.Follows Builder.Nests (Build.newVar name t role init) :=
  (kept_newVar name t role init).orLost

theorem nests_emit (st : Stmt NodeId) : Build.Follows Builder.Nests (Build.emit st) :=
  (kept_emit st).orLost

/-- A change of the declarations leaves the scopes alone. -/
theorem globally_modifyStage {role : Role} {f : OpenStage → OpenStage}
    (hf : ∀ s, (f s).frames = s.frames ∧ (f s).decls.builtins = s.decls.builtins ∧
      (f s).decls.extensions = s.decls.extensions) :
    Build.FollowsGlobally Builder.Nests role (Build.modifyStage f) :=
  fun b hb => Or.inl (globally_kept_modifyStage hf b hb)

omit [IsScopeOrder P] in
/-- A builder whose stage is kept or lost takes the same declarations. -/
theorem Builder.KeptOrLost.takes [IsStageOrder P] {b b' : Builder} {role : Role}
    (h : b.KeptOrLost P b') (hb : b.Takes role) : b'.Takes role := by
  rcases h with h | h
  · exact h.takes hb
  · refine ⟨fun s' hs' => ?_, fun hrole =>
      (congrArg Config.target h.config).trans (hb.target hrole)⟩
    rw [h.stage] at hs'
    cases hs'

instance : IsStepwise (Builder.KeptOrLost P) where
  config h := h.elim (·.config) (·.config)
  of_lost hconfig hstage := Or.inr ⟨hconfig, hstage⟩
  takes := Builder.KeptOrLost.takes
  setResult t := (IsOperational.setResult (R := Builder.Kept P) t).orLost
  setSize size := (IsDeclarative.setSize (R := Builder.Kept P) size).orLost
  setTag e path := (IsDeclarative.setTag (R := Builder.Kept P) e path).orLost
  emit _ := (kept_emit _).orLost.where
  giveBack _ := (kept_emit _).orLost
  declare name t init b hb := Or.inl (IsElementary.declare (R := Builder.Kept P) name t init b hb)
  declareIn name t _ init _ b hb := Or.inl (kept_declareIn name t init b hb.1.toTakes)

instance : IsInheriting (Builder.KeptOrLost P) where
  inherit name t _ b hb := Or.inl (kept_declareIn name t none b hb)

end Nested

/-! ## Scopes that are left -/

/-- The outermost scope of the stage is the global one. -/
def Builder.IsGrounded (b : Builder) : Prop :=
  ∀ s, b.stage = some s → s.frames.getLast?.map (·.kind.opening) = some .global

/-- A stage that is open has a scope. -/
def Builder.HasScope (b : Builder) : Prop := ∀ s, b.stage = some s → s.frames ≠ []

/-- A builder on the ground has a scope. -/
theorem Builder.IsGrounded.frames_ne_nil {b : Builder} {s : OpenStage} (h : b.IsGrounded)
    (hs : b.stage = some s) : s.frames ≠ [] := by
  intro hnil
  have hlast := h s hs
  rw [hnil] at hlast
  cases hlast

/-- A builder on the ground has a scope. -/
theorem Builder.IsGrounded.hasScope {b : Builder} (h : b.IsGrounded) : b.HasScope :=
  fun _ hs => h.frames_ne_nil hs

/-- A builder that is kept still has a scope. -/
theorem Builder.Kept.hasScope {P : OpenStage → OpenStage → Prop} [IsStageOrder P] {b b' : Builder}
    (h : b.Kept P b') (hb : b.HasScope) : b'.HasScope := by
  intro s' hs'
  obtain ⟨s, hs, hsame⟩ := h.exists_of_some hs'
  exact (IsStageOrder.nests _ _ hsame).frames_ne_nil (hb s hs)

/-- A builder whose stage is kept or lost still has a scope, if it has a stage. -/
theorem Builder.KeptOrLost.hasScope {P : OpenStage → OpenStage → Prop} [IsStageOrder P]
    {b b' : Builder} (h : b.KeptOrLost P b') (hb : b.HasScope) : b'.HasScope := by
  rcases h with h | h
  · exact h.hasScope hb
  · intro s hs
    rw [h.stage] at hs
    cases hs

/-- A builder on the ground stays there. -/
theorem Builder.KeptOrLost.isGrounded {b b' : Builder} (h : b.Nests b')
    (hb : b.IsGrounded) : b'.IsGrounded := by
  intro s' hs'
  rcases h with h | h
  · obtain ⟨s, hs, hnests⟩ := h.exists_of_some hs'
    rw [← List.getLast?_map, hnests.openings (hb.frames_ne_nil hs), List.getLast?_map]
    exact hb s hs
  · rw [h.stage] at hs'
    cases hs'

/-- A scope that is opened and left restores the stage, if what runs in it nests. -/
theorem OpenStage.Nests.left {s t : OpenStage} {kind : ScopeKind} {f : Frame} {rest : List Frame}
    (hs : s.frames ≠ []) (h : OpenStage.Nests { s with frames := { kind } :: s.frames } t)
    (ht : t.frames = f :: rest) : s.Restores { t with frames := rest } := by
  refine ⟨?_, h.builtins, h.extensions⟩
  have hlength : 2 ≤ ({ kind } :: s.frames).length := by
    have hpos := List.length_pos_iff.mpr hs
    simp only [List.length_cons]
    omega
  have hsame := h.surroundings hlength
  simpa [OpenStage.surroundings, OpenStage.outline, ht] using hsame

namespace Authoring

variable {σ α β : Type}

section Leaving

variable {act : Authoring σ α} {body : Authoring σ Unit}

/-- What runs in a new scope keeps the stage around it. -/
theorem run_inScope (kind : ScopeKind) (h : Follows Builder.Nests act)
    (b : Builder) (n : σ) :
    b.KeptOrLost (fun s t => s.Nests t ∧ (s.frames ≠ [] → s.Restores t))
      ((inScope kind act).runFrom (b, n)).2.1 := by
  unfold inScope
  rw [runFrom_bind, runFrom_lift]
  cases hs : b.stage with
  | none =>
      rw [show b.run (Build.pushScope kind) = (.error (.internal .noStage), b) from
        Builder.run_modifyStage_of_none hs _]
      refine Or.inl ⟨b.grows_refl, ?_⟩
      rw [hs]
      exact .none
  | some s =>
      rw [run_pushScope_of_some hs]
      dsimp only
      rw [runFrom_bind, runFrom_attempt]
      have hact := h (b.withFrame s { kind } s.frames, n)
      rcases hrun : act.runFrom (b.withFrame s { kind } s.frames, n) with ⟨result, b₁, n₁⟩
      rw [hrun] at hact
      dsimp only at hact ⊢
      rw [runFrom_bind, runFrom_lift]
      rcases hact with hkept | hlost
      · have hstage := hkept.stage
        have hgrows : b.Grows b₁ := { hkept.toGrows with }
        rcases run_popScope_cases b₁ with ⟨e, hpop, hshort⟩ | ⟨t, f, g, rest, ht, hframes, hpop⟩
        · rw [hpop]
          cases ht : b₁.stage with
          | none => rw [ht] at hstage; cases hstage
          | some t =>
              rw [ht] at hstage
              cases hstage with
              | some hnests =>
                  -- only the new scope is open
                  have hnil : s.frames = [] := by
                    have hlength := hnests.length_eq (by simp)
                    have hle := hshort t ht
                    simp only [List.length_cons] at hlength
                    exact List.eq_nil_of_length_eq_zero (by omega)
                  refine Or.inl (.of_some hgrows hs ht ⟨?_, fun hne => absurd hnil hne⟩)
                  exact ⟨fun hne => absurd hnil hne, hnests.builtins, hnests.extensions,
                    fun hlength => by simp [hnil] at hlength⟩
        · rw [hpop]
          rw [ht] at hstage
          cases hstage with
          | some hnests =>
              have hne : s.frames ≠ [] := by
                intro hnil
                have hlength := hnests.length_eq (by simp)
                simp [hnil, hframes] at hlength
              have hleft := hnests.left hne hframes
              exact Or.inl (.of_some { hgrows with } hs rfl ⟨hleft.nests, fun _ => hleft⟩)
      · rcases run_popScope_cases b₁ with ⟨e, hpop, -⟩ | ⟨t, f, g, rest, ht, -, -⟩
        · rw [hpop]
          exact Or.inr ⟨hlost.config, hlost.stage⟩
        · exact absurd (ht.symm.trans hlost.stage) (by simp)

theorem follows_inScope (kind : ScopeKind)
    (h : Follows Builder.Nests act) :
    Follows Builder.Nests (inScope kind act) :=
  fun (b, n) => (run_inScope kind h b n).imp_left (·.mono fun _ _ h => h.1)

theorem follows_collect (kind : ScopeKind)
    (h : Follows Builder.Nests body) :
    Follows Builder.Nests (collect kind body) := by
  refine .bind (follows_inScope kind h) fun (result, frame) => ?_
  cases result with
  | ok _ => exact .pure _
  | error e => exact .throw e

/-! ## Whatever runs -/

variable {cond : Authoring σ Value}

theorem follows_emit (st : Stmt NodeId) :
    Follows Builder.Nests (Build.emit st : Authoring σ Unit) :=
  .lift (nests_emit st)

theorem nests_ifThen (v : Value) (h : Follows Builder.Nests body) :
    Follows Builder.Nests (ifThen v body) :=
  .bind (.lift (Build.follows_requireFunction _)) fun _ =>
    .bind (.lift (Build.follows_condition v)) fun _ =>
      .bind (follows_collect _ h) fun _ => follows_emit _

theorem nests_extendLast (failure : InternalFault) (f : Stmt NodeId → Option (Stmt NodeId)) :
    Build.Follows Builder.Nests (Build.extendLast failure f) := by
  intro b
  unfold Build.extendLast
  rw [Builder.run_bind]
  rcases Build.run_frame_cases b with ⟨e, hrun⟩ | ⟨s, f', rest, hs, hframes, hrun⟩
  · rw [hrun]
    exact Or.inl b.kept_refl
  · rw [hrun]
    dsimp only
    split
    · rw [Build.run_setFrame_of_cons hs hframes]
      exact Or.inl (.of_some { b.grows_refl with } hs rfl (.of_frame hframes rfl))
    · exact Or.inl b.kept_refl

theorem nests_elseIf (v : Value) (h : Follows Builder.Nests body) :
    Follows Builder.Nests (elseIf v body) :=
  .bind (.lift (Build.follows_condition v)) fun _ =>
    .bind (follows_collect _ h) fun _ => .lift (nests_extendLast _ _)

theorem nests_otherwise (h : Follows Builder.Nests body) :
    Follows Builder.Nests (otherwise body) :=
  .bind (follows_collect _ h) fun _ => .lift (nests_extendLast _ _)

theorem nests_whileDo (v : Value) (h : Follows Builder.Nests body) :
    Follows Builder.Nests (whileDo v body) :=
  .bind (.lift (Build.follows_requireFunction _)) fun _ =>
    .bind (.lift (Build.follows_condition v)) fun _ =>
      .bind (follows_collect _ h) fun _ => follows_emit _

theorem nests_doWhile (h : Follows Builder.Nests body)
    (hcond : Follows Builder.Nests cond) :
    Follows Builder.Nests (doWhile body cond) :=
  .bind (.lift (Build.follows_requireFunction _)) fun _ =>
    .bind (follows_collect _ h) fun _ => .bind hcond fun v =>
      .bind (.lift (Build.follows_condition v)) fun _ => follows_emit _

theorem nests_scope (h : Follows Builder.Nests body) :
    Follows Builder.Nests (scope body) :=
  .bind (.lift (Build.follows_requireFunction _)) fun _ =>
    .bind (follows_collect _ h) fun _ => follows_emit _

/-- The scope of a loop opens with its counter. -/
theorem nests_loop (counter : String) (t : TypeId) {body : Expr → Authoring σ Unit}
    (h : ∀ e, Follows Builder.Nests (body e)) :
    Follows Builder.Nests (do
      let (v, e) ← Build.newVar counter t .localVar
      body e
      return v) :=
  .bind (.lift (nests_newVar _ _ _ _)) fun x => .bind (h x.2) fun _ => .pure _

theorem nests_forRange (counter : String) (first last : Value)
    {body : Expr → Authoring σ Unit}
    (h : ∀ e, Follows Builder.Nests (body e)) :
    Follows Builder.Nests (forRange counter first last body) := by
  refine .bind (.lift (Build.follows_requireFunction _)) fun _ => ?_
  refine .bind (.lift (Build.follows_lowerPair _ _)) fun (first, last) => ?_
  refine .bind (.lift (Build.follows_requireBounds _ _)) fun _ => ?_
  refine .bind (follows_inScope .loop (nests_loop counter first.type h)) ?_
  rintro ⟨_ | v, frame⟩
  · exact .throw _
  · exact follows_emit _

/-- The parameters are declared in the innermost scope. -/
theorem kept_declareParams (params : List (String × TypeId)) :
    Build.Follows (Builder.Kept OpenStage.Nests) (Build.declareParams params) := by
  induction params with
  | nil => exact .pure []
  | cons param params ih =>
      unfold Build.declareParams
      exact .bind (kept_newVar _ _ _ _) fun _ => .bind ih fun _ => .pure _

theorem nests_declareParams (params : List (String × TypeId)) :
    Build.Follows Builder.Nests (Build.declareParams params) := (kept_declareParams params).orLost

/-- The scope of a function opens with its parameters. -/
theorem nests_params (params : List (String × TypeId)) {body : List Expr → Authoring σ Unit}
    (h : ∀ es, Follows Builder.Nests (body es)) :
    Follows Builder.Nests (do
      let declared ← Build.declareParams params
      body (declared.map (·.2))
      return declared.map (·.1)) :=
  .bind (.lift (nests_declareParams _)) fun _ => .bind (h _) fun _ => .pure _

/-- A function that is added leaves the scopes alone. -/
theorem globally_addFunction {role : Role} (f : Function) :
    Build.FollowsGlobally Builder.Nests role (Build.addFunction f) := by
  refine .bind Build.follows_stage.globally fun s => ?_
  exact .bind (globally_modifyStage fun s => ⟨rfl, rfl, rfl⟩) fun _ =>
    (Build.Follows.pure _).globally

theorem nests_func (name : String) (params : List (String × TypeShape))
    {body : List Expr → Authoring σ Unit}
    (h : ∀ es, Follows Builder.Nests (body es)) :
    Follows Builder.Nests (func name params body) := by
  refine follows_guard_bind .param (Build.run_checkFunctionName_cases · name) (by simp) ?_
  refine .bind (Follows.lift (Build.follows_paramTypes _ _)).globally fun types => ?_
  refine .bind (Follows.lift Build.follows_stage).globally fun st => ?_
  refine .bind (Follows.lift (Build.follows_requireNewParams _ _ _)).globally fun _ => ?_
  refine .bind (follows_inScope _ (nests_params _ h)).globally ?_
  rintro ⟨_ | vars, scope⟩
  · exact (Follows.throw _).globally
  · refine .bind (Follows.lift (Build.follows_resultType _ _)).globally fun t => ?_
    exact .lift (globally_addFunction _)

theorem nests_main (h : Follows Builder.Nests body) :
    Follows Builder.Nests (main body) := by
  refine follows_guard_bind .param (Build.run_requireGlobal_cases · "`main`") (by simp) ?_
  refine .bind (Follows.lift Build.follows_stage).globally fun st => ?_
  have hrest : FollowsGlobally Builder.Nests .param (do
      let block ← collect (.function true none) body
      Build.modifyStage fun s => { s with main := some block }) :=
    .bind (follows_collect _ h).globally fun block =>
      .lift (globally_modifyStage fun s => ⟨rfl, rfl, rfl⟩)
  dsimp only
  split
  · exact .bind (Follows.throw _).globally fun _ => hrest
  · exact hrest

end Leaving

end Authoring

/-! ## Scripts -/

namespace Script

open Authoring

/-- Whatever a script runs inside of a function, the stage is the same around it. -/
theorem respected_nests : Respected Builder.Nests where
  func := nests_func
  main := nests_main
  scope := nests_scope
  ifThen v _ h := nests_ifThen v h
  elseIf v _ h := nests_elseIf v h
  otherwise := nests_otherwise
  forRange := nests_forRange
  whileDo v _ h := nests_whileDo v h
  doWhile := nests_doWhile

theorem nests_runAll (tolerant : Bool) (steps : Script) :
    Follows Builder.Nests (runAll tolerant steps) := follows_runAll respected_nests tolerant steps

theorem nests_body (tolerant : Bool) (steps : Script) :
    Follows Builder.Nests (body (runAll tolerant steps)) := follows_body (nests_runAll _ _)

theorem nests_functionBody (names : List String) (tolerant : Bool) (steps : Script)
    (params : List Expr) : Follows Builder.Nests
      (functionBody names (runAll tolerant steps) params) :=
  .bind (follows_modifyNotes _) fun _ => nests_body _ _

theorem nests_loopBody (counter : String) (tolerant : Bool) (steps : Script) (e : Expr) :
    Follows Builder.Nests (loopBody counter (runAll tolerant steps) e) :=
  .bind (follows_modifyNotes _) fun _ => nests_body _ _

end Script

end WebShader
