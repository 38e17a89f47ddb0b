import WebShader.Proofs.Endings
import WebShader.Proofs.TypedOperations

/-!
# What functions return

While a function is under construction, its scopes return nothing before its result type is fixed,
and from then on what has that type; their jumps lie in its loops. Every operation keeps it so, and
a result type that has been fixed stays the one it is.
-/

namespace WebShader

/-! ## Types of results -/

namespace Registry

variable {r r' : Registry} {t : TypeId}

/-- A type is registered, and is `void`. -/
def RegistersVoid (r : Registry) (t : TypeId) : Prop := t.index < r.size ∧ r.isVoid t = true

/-- Whether a type is void depends on its kind only. -/
theorem isVoid_congr (h : r'.kind t = r.kind t) : r'.isVoid t = r.isVoid t := by
  rw [isVoid, isVoid, h]

/-- The void type stays registered. -/
theorem RegistersVoid.of_le (h : r.RegistersVoid t) (hle : r ≤ r') : r'.RegistersVoid t :=
  ⟨Nat.lt_of_lt_of_le h.1 (size_le_of_le hle), (isVoid_congr (kind_eq_of_le hle h.1)).trans h.2⟩

/-- A type with a size is not void. -/
theorem isVoid_of_isSized (h : (r.kind t).isSized = true) : r.isVoid t = false := by
  rw [isVoid]
  split
  · rename_i hvoid
    rw [hvoid] at h
    cases h
  · rfl

/-- A type with a size still has it as the registry grows. -/
theorem isSized_of_le (h : (r.kind t).isSized = true) (hle : r ≤ r') :
    (r'.kind t).isSized = true := by
  rwa [kind_eq_of_le hle (lt_size_of_isSized h)]

/-- A type that functions can have for a result: `void`, or one that can be held. -/
def IsResult (r : Registry) (t : TypeId) : Prop := r.RegistersVoid t ∨ (r.kind t).isSized = true

/-- The type of a result still is one as the registry grows. -/
theorem IsResult.of_le (h : r.IsResult t) (hle : r ≤ r') : r'.IsResult t :=
  h.imp (·.of_le hle) fun hsized => isSized_of_le hsized hle

/-- The type of a result is registered. -/
theorem IsResult.lt_size (h : r.IsResult t) : t.index < r.size :=
  h.elim (·.1) lt_size_of_isSized

end Registry

/-! ## Scopes that settle -/

/-- A scope whose function has got a result type, or that has been opened alike. -/
def Frame.Settles (f f' : Frame) : Prop :=
  f'.kind = f.kind ∨
    ∃ isMain t, f.kind = .function isMain none ∧ f'.kind = .function isMain (some t)

/-- A stage with the same scopes as another, some of whose functions have got result types. -/
def OpenStage.Settles (s s' : OpenStage) : Prop := List.Forall₂ Frame.Settles s.frames s'.frames

/-- A scope settles in steps. -/
theorem Frame.Settles.trans {f f' f'' : Frame} (h : f.Settles f') (h' : f'.Settles f'') :
    f.Settles f'' := by
  rcases h with heq | ⟨isMain, t, hnone, hsome⟩
  · rwa [Frame.Settles, ← heq]
  · rcases h' with heq' | ⟨isMain', t', hnone', -⟩
    · exact Or.inr ⟨isMain, t, hnone, heq'.trans hsome⟩
    · rw [hsome] at hnone'
      cases hnone'

/-- A scope that is left alone has settled. -/
theorem Frame.settles_refl (f : Frame) : f.Settles f := Or.inl rfl

/-- Scopes that are left alone have settled. -/
theorem forall₂_settles_refl (frames : List Frame) : List.Forall₂ Frame.Settles frames frames :=
  List.forall₂_same.mpr fun f _ => f.settles_refl

/-- Scopes settle in steps. -/
theorem forall₂_settles_trans {frames frames' frames'' : List Frame}
    (h : List.Forall₂ Frame.Settles frames frames')
    (h' : List.Forall₂ Frame.Settles frames' frames'') :
    List.Forall₂ Frame.Settles frames frames'' := by
  induction h generalizing frames'' with
  | nil => exact h'
  | cons hf _ ih =>
      cases h' with
      | cons hf' hrest' => exact .cons (hf.trans hf') (ih hrest')

instance : IsPreorder OpenStage OpenStage.Settles where
  refl s := forall₂_settles_refl s.frames
  trans _ _ _ := forall₂_settles_trans

section Settling

variable {frames frames' : List Frame}

/-- A result that has been settled stays. -/
theorem enclosingFunction?_of_settles (h : List.Forall₂ Frame.Settles frames frames')
    {isMain : Bool} {t : TypeId}
    (hfound : Build.enclosingFunction? frames = some (isMain, some t)) :
    Build.enclosingFunction? frames' = some (isMain, some t) := by
  induction h with
  | nil => exact hfound
  | @cons f f' rest rest' hf _ ih =>
      rw [Build.enclosingFunction?] at hfound ⊢
      rcases hf with heq | ⟨isMain', t', hnone, -⟩
      · rw [heq]
        split at hfound
        · exact hfound
        · exact ih hfound
      · rw [hnone] at hfound
        cases hfound

/-- The loops that are open stay open. -/
theorem loopIsOpen_of_settles (h : List.Forall₂ Frame.Settles frames frames') :
    Build.loopIsOpen frames' = Build.loopIsOpen frames := by
  induction h with
  | nil => rfl
  | @cons f f' rest rest' hf _ ih =>
      rw [Build.loopIsOpen, Build.loopIsOpen, ih]
      rcases hf with heq | ⟨isMain, t, hnone, hsome⟩
      · rw [heq]
      · rw [hnone, hsome]

/-- Fixing the result type of the innermost function, which has none or that one. -/
theorem settles_fixResult {t : TypeId} (h : ∀ isMain result,
    Build.enclosingFunction? frames = some (isMain, result) → result = none ∨ result = some t) :
    List.Forall₂ (fun f f' => f.Settles f' ∧ f'.body = f.body) frames
      (Build.fixResult t frames) := by
  fun_induction Build.fixResult t frames with
  | case1 => exact .nil
  | case2 f rest isMain result hkind =>
      refine .cons ⟨?_, rfl⟩ (List.forall₂_same.mpr fun f _ => ⟨f.settles_refl, rfl⟩)
      rw [Build.enclosingFunction?, hkind] at h
      rcases h isMain result rfl with rfl | rfl
      · exact Or.inr ⟨isMain, t, hkind, rfl⟩
      · exact Or.inl hkind.symm
  | case3 f rest hkind ih =>
      refine .cons ⟨f.settles_refl, rfl⟩ (ih fun isMain result hfound => h isMain result ?_)
      rw [Build.enclosingFunction?]
      split
      · exact absurd ‹_› (hkind _ _)
      · exact hfound

/-- Only the scope of a function gets a result type. -/
theorem mem_fixResult {t : TypeId} {f : Frame} (h : f ∈ Build.fixResult t frames) :
    f ∈ frames ∨ ∃ isMain, f.kind = .function isMain (some t) := by
  fun_induction Build.fixResult t frames with
  | case1 => exact Or.inl h
  | case2 g rest isMain result hkind =>
      rcases List.mem_cons.mp h with rfl | hf
      · exact Or.inr ⟨isMain, rfl⟩
      · exact Or.inl (List.mem_cons_of_mem _ hf)
  | case3 g rest hkind ih =>
      rcases List.mem_cons.mp h with rfl | hf
      · exact Or.inl List.mem_cons_self
      · exact (ih hf).imp_left (List.mem_cons_of_mem _)

/-- The result of the innermost function is settled. -/
theorem enclosingFunction?_fixResult (t : TypeId) {isMain : Bool} {result : Option TypeId}
    (h : Build.enclosingFunction? frames = some (isMain, result)) :
    Build.enclosingFunction? (Build.fixResult t frames) = some (isMain, some t) := by
  fun_induction Build.fixResult t frames with
  | case1 => cases h
  | case2 f rest isMain' result' hkind =>
      rw [Build.enclosingFunction?, hkind] at h
      obtain ⟨rfl, -⟩ := Prod.mk.inj (Option.some.inj h)
      rfl
  | case3 f rest hkind ih =>
      rw [Build.enclosingFunction?] at h ⊢
      split at h
      · exact absurd ‹_› (hkind _ _)
      · exact ih h

end Settling

/-! ## Stages whose functions keep to their results -/

namespace Builder

/-- What a function of a result type may return: values of the type, if it can be held, or nothing
if it is `void`. -/
def Returns (b : Builder) (t : TypeId) : Option NodeId → Prop
  | some n => (b.types.kind t).isSized = true ∧ b.typeOf? n = some t
  | none => b.types.RegistersVoid t

/-- What may be returned from scopes: nothing before the result type of their function is fixed. The
entry point of a stage returns no values. -/
def Permits (b : Builder) (frames : List Frame) (value : Option NodeId) : Prop :=
  ∃ isMain t, Build.enclosingFunction? frames = some (isMain, some t) ∧ b.Returns t value ∧
    (isMain = true → value = none)

/-- A statement that may stand in the innermost of some scopes. -/
def Allows (b : Builder) (frames : List Frame) (st : Stmt NodeId) : Prop :=
  st.Conforms (b.Permits frames) (Build.loopIsOpen frames)

/-- Statements that may stand in the innermost of some scopes. -/
def AllowsAll (b : Builder) (frames : List Frame) (body : Block) : Prop :=
  Stmt.BlockConforms (b.Permits frames) (Build.loopIsOpen frames) body

/-- Scopes hold statements that may stand in them. -/
def FramesConform (b : Builder) : List Frame → Prop
  | [] => True
  | f :: rest => b.AllowsAll (f :: rest) f.body ∧ b.FramesConform rest

/-- A body only returns what a function of a result type may return, jumps only in its own loops,
and always returns unless the type is `void`. -/
structure Fulfills (b : Builder) (result : TypeId) (body : Block) : Prop where
  registered : result.index < b.types.size
  isResult : b.types.Sound → b.types.IsResult result
  conforms : Stmt.BlockConforms (b.Returns result) false body
  ends : b.types.isVoid result = true ∨ Stmt.blockReturns body = true

end Builder

/-- A stage under construction whose functions, and whose scopes, keep to the results of their
functions. -/
structure OpenStage.Conforms (b : Builder) (s : OpenStage) : Prop where
  frames_ne_nil : s.frames ≠ []
  results : ∀ f ∈ s.frames, ∀ isMain t, f.kind = .function isMain (some t) → b.types.IsResult t
  frames : b.FramesConform s.frames
  functions : ∀ fn ∈ s.decls.functions, b.Fulfills fn.result fn.body
  main : ∀ body, s.main = some body → Stmt.BlockConforms (· = none) false body

/-- The stage at hand, if there is one, keeps to the results of its functions. -/
def Builder.Conforms (b : Builder) : Prop := ∀ s, b.stage = some s → s.Conforms b

/-- What anything that runs leaves of a builder that conforms: it still does, and the result types
that have been fixed are the same. -/
def Builder.StaysConforming (b b' : Builder) : Prop :=
  b.Conforms → b'.Conforms ∧ b.KeptOrLost OpenStage.Settles b'

namespace Builder

variable {b b' : Builder} {s s' : OpenStage} {frames frames' : List Frame}

/-- A builder that grows extends what it was. -/
theorem Grows.extends (h : b.Grows b') : b.Extends b' := ⟨h.config, h.types, h.nodes, h.vars⟩

/-- A value that may be returned still may be. -/
theorem Returns.of_grows {t : TypeId} {value : Option NodeId} (h : b.Returns t value)
    (hgrows : b.Grows b') : b'.Returns t value := by
  cases value with
  | none => exact Registry.RegistersVoid.of_le h hgrows.types
  | some n => exact ⟨Registry.isSized_of_le h.1 hgrows.types, hgrows.extends.typeOf? h.2⟩

/-- What returns something has a result type. -/
theorem Returns.isResult {t : TypeId} {value : Option NodeId} (h : b.Returns t value) :
    b.types.IsResult t := by
  cases value with
  | none => exact Or.inl h
  | some n => exact Or.inr h.1

/-- What is permitted stays so as scopes settle. -/
theorem Permits.of_settles {value : Option NodeId} (h : b.Permits frames value)
    (hgrows : b.Grows b') (hframes : List.Forall₂ Frame.Settles frames frames') :
    b'.Permits frames' value := by
  obtain ⟨isMain, t, hfound, hreturns, hmain⟩ := h
  exact ⟨isMain, t, enclosingFunction?_of_settles hframes hfound, hreturns.of_grows hgrows, hmain⟩

/-- What is allowed stays so as scopes settle. -/
theorem AllowsAll.of_settles {body : Block} (h : b.AllowsAll frames body) (hgrows : b.Grows b')
    (hframes : List.Forall₂ Frame.Settles frames frames') : b'.AllowsAll frames' body := by
  rw [AllowsAll, loopIsOpen_of_settles hframes]
  exact Stmt.BlockConforms.imp (fun _ hvalue => hvalue.of_settles hgrows hframes) _ body h

/-- Scopes keep conforming as they settle. -/
theorem FramesConform.of_settles (h : b.FramesConform frames) (hgrows : b.Grows b')
    (hframes : List.Forall₂ (fun f f' => f.Settles f' ∧ f'.body = f.body) frames frames') :
    b'.FramesConform frames' := by
  induction hframes with
  | nil => trivial
  | @cons f f' rest rest' hf hrest ih =>
      refine ⟨?_, ih h.2⟩
      rw [hf.2]
      exact h.1.of_settles hgrows (.cons hf.1 (hrest.imp fun _ _ hg => hg.1))

/-- A body keeps fulfilling what its function returns. -/
theorem Fulfills.of_grows {result : TypeId} {body : Block} (h : b.Fulfills result body)
    (hgrows : b.Grows b') : b'.Fulfills result body where
  registered := Nat.lt_of_lt_of_le h.registered (Registry.size_le_of_le hgrows.types)
  isResult hsound := (h.isResult (.of_le hgrows.types hsound)).of_le hgrows.types
  conforms := Stmt.BlockConforms.imp (fun _ hvalue => hvalue.of_grows hgrows) _ body h.conforms
  ends := h.ends.imp_left
    (Registry.isVoid_congr (Registry.kind_eq_of_le hgrows.types h.registered)).trans

end Builder

section Steps

variable {b b' : Builder} {s s' : OpenStage}

/-- A stage that has the functions of another, and the statements of its scopes. -/
theorem OpenStage.Conforms.of_settles (h : s.Conforms b) (hgrows : b.Grows b')
    (hframes : List.Forall₂ (fun f f' => f.Settles f' ∧ f'.body = f.body) s.frames s'.frames)
    (hresults : ∀ f ∈ s'.frames, ∀ isMain t, f.kind = .function isMain (some t) →
      b'.types.IsResult t)
    (hfunctions : s'.decls.functions = s.decls.functions) (hmain : s'.main = s.main) :
    s'.Conforms b' where
  frames_ne_nil hnil := by
    rw [hnil] at hframes
    exact h.frames_ne_nil (List.forall₂_nil_right_iff.mp hframes)
  results := hresults
  frames := h.frames.of_settles hgrows hframes
  functions fn hfn := (h.functions fn (hfunctions ▸ hfn)).of_grows hgrows
  main body hbody := h.main body (hmain ▸ hbody)

/-- A stage with the functions of another, whose scopes have been opened alike and hold the same
statements. -/
structure OpenStage.SameBodies (s s' : OpenStage) : Prop where
  frames : s'.frames.map (fun f => (f.kind, f.body)) = s.frames.map (fun f => (f.kind, f.body))
  functions : s'.decls.functions = s.decls.functions
  main : s'.main = s.main

/-- Scopes with the same statements, one by one. -/
theorem OpenStage.SameBodies.forall₂ (h : s.SameBodies s') :
    List.Forall₂ (fun f f' => f'.kind = f.kind ∧ f'.body = f.body) s.frames s'.frames := by
  have hframes := h.frames.symm
  rw [← List.forall₂_eq_eq_eq, List.forall₂_map_left_iff, List.forall₂_map_right_iff] at hframes
  exact hframes.imp fun _ _ heq => ⟨(Prod.mk.inj heq).1.symm, (Prod.mk.inj heq).2.symm⟩

/-- Scopes whose statements are left alone have settled. -/
theorem OpenStage.SameBodies.settles (h : s.SameBodies s') : s.Settles s' :=
  h.forall₂.imp fun _ _ heq => Or.inl heq.1

/-- A stage keeps conforming while its statements are left alone. -/
theorem OpenStage.Conforms.of_same (h : s.Conforms b) (hgrows : b.Grows b')
    (hsame : s.SameBodies s') : s'.Conforms b' := by
  refine h.of_settles hgrows (hsame.forall₂.imp fun _ _ heq => ⟨Or.inl heq.1, heq.2⟩) ?_
    hsame.functions hsame.main
  intro f' hf' isMain t hkind
  obtain ⟨f, hf, heq, -⟩ := exists_mem_of_forall₂ hsame.forall₂ f' hf'
  exact (h.results f hf isMain t (heq.symm.trans hkind)).of_le hgrows.types

namespace Builder

/-- Without a stage there is nothing to conform. -/
theorem conforms_of_none (hs : b.stage = none) : b.Conforms :=
  fun s hs' => absurd (hs.symm.trans hs') (by simp)

instance : IsPreorder Builder StaysConforming where
  refl b hb := ⟨hb, refl_of (KeptOrLost OpenStage.Settles) b⟩
  trans _ _ _ h h' hb := by
    obtain ⟨hb', hkept⟩ := h hb
    obtain ⟨hb'', hkept'⟩ := h' hb'
    exact ⟨hb'', trans_of (KeptOrLost OpenStage.Settles) hkept hkept'⟩

/-- Where no stage is open, nothing has to be kept to. -/
theorem stays_of_lost (hconfig : b'.config = b.config) (hs : b'.stage = none) :
    b.StaysConforming b' := fun _ => ⟨conforms_of_none hs, Or.inr ⟨hconfig, hs⟩⟩

/-- A change of the stage that keeps to the results of functions. -/
theorem stays_of_some (hgrows : b.Grows b') (hs : b.stage = some s) (hs' : b'.stage = some s')
    (h : s.Conforms b → s'.Conforms b' ∧ s.Settles s') : b.StaysConforming b' := by
  intro hb
  obtain ⟨hconforms, hsettles⟩ := h (hb s hs)
  refine ⟨fun t ht => ?_, Or.inl (.of_some hgrows hs hs' hsettles)⟩
  rwa [← Option.some.inj (hs'.symm.trans ht)]

/-- The stage changes, and nothing else does. -/
theorem stays_withStage (hs : b.stage = some s) (h : s.Conforms b → s'.Conforms b ∧ s.Settles s') :
    b.StaysConforming { b with stage := some s' } := by
  have hgrows : b.Grows { b with stage := some s' } := { b.grows_refl with }
  refine stays_of_some hgrows hs rfl fun hconforms => ?_
  obtain ⟨hconforms', hsettles⟩ := h hconforms
  exact ⟨hconforms'.of_same hgrows ⟨rfl, rfl, rfl⟩, hsettles⟩

/-- A builder that grows, and whose scopes hold what they have held. -/
theorem stays_of_same (hgrows : b.Grows b') (h : Option.Rel OpenStage.SameBodies b.stage b'.stage) :
    b.StaysConforming b' := by
  cases hs : b.stage with
  | none =>
      rw [hs] at h
      cases hs' : b'.stage with
      | none => exact stays_of_lost hgrows.config hs'
      | some s' => rw [hs'] at h; cases h
  | some s =>
      rw [hs] at h
      cases hs' : b'.stage with
      | none => rw [hs'] at h; cases h
      | some s' =>
          rw [hs'] at h
          cases h with
          | some hsame =>
              exact stays_of_some hgrows hs hs' fun hconforms =>
                ⟨hconforms.of_same hgrows hsame, hsame.settles⟩

instance : IsAdditive StaysConforming where
  of_adds b b' h := by
    refine stays_of_same h.grows (rel_mono (fun s s' hadds => ?_) h.stage)
    have hframes : s'.frames = s.frames := (congrArg OpenStage.frames hadds.stem :)
    have hdecls := congrArg OpenStage.decls hadds.stem
    exact ⟨by rw [hframes], (congrArg StageDecls.functions hdecls :),
      (congrArg OpenStage.main hadds.stem :)⟩

/-- The innermost scope holds other statements, which may stand in it. -/
theorem stays_withBody {f : Frame} {rest : List Frame} {body : Block} (hs : b.stage = some s)
    (hframes : s.frames = f :: rest)
    (hbody : b.AllowsAll (f :: rest) f.body → b.AllowsAll (f :: rest) body) :
    b.StaysConforming (b.withFrame s { f with body } rest) := by
  refine stays_withStage hs fun h => ⟨?_, ?_⟩
  · obtain ⟨hf, hrest⟩ : b.AllowsAll (f :: rest) f.body ∧ b.FramesConform rest := by
      have hconform := h.frames
      rwa [hframes] at hconform
    refine { h with frames_ne_nil := by simp, results := ?_, frames := ⟨hbody hf, hrest⟩ }
    intro g hg isMain t hkind
    -- the scope has been opened as before
    rcases List.mem_cons.mp hg with rfl | hg
    · exact h.results f (by simp [hframes]) isMain t hkind
    · exact h.results g (by simp [hframes, hg]) isMain t hkind
  · rw [OpenStage.Settles, hframes]
    exact .cons (Or.inl rfl) (forall₂_settles_refl rest)

end Builder

end Steps

namespace Build

open Builder

variable {b : Builder}

/-- A change of the stage that keeps it conforming. -/
theorem stays_modifyStage {f : OpenStage → OpenStage}
    (hf : ∀ s, b.stage = some s → b.Conforms → s.Conforms b → (f s).Conforms b ∧ s.Settles (f s)) :
    b.StaysConforming (b.run (modifyStage f)).2 := by
  intro hb
  cases hs : b.stage with
  | none =>
      rw [Builder.run_modifyStage_of_none hs]
      exact refl_of StaysConforming b hb
  | some s =>
      rw [Builder.run_modifyStage_of_some hs]
      exact stays_withStage hs (hf s hs hb) hb

/-- A change that leaves all statements alone. -/
theorem stays_modifyStage_of_same {f : OpenStage → OpenStage}
    (hf : ∀ s : OpenStage, s.SameBodies (f s)) : Follows StaysConforming (modifyStage f) :=
  fun b => stays_modifyStage fun s _ _ h => ⟨h.of_same b.grows_refl (hf s), (hf s).settles⟩

/-- A new variable leaves all statements alone. -/
theorem stays_newVar (name : String) (t : TypeId) (role : Role) (init : Option NodeId) :
    Follows StaysConforming (newVar name t role init) := by
  intro b
  rcases run_newVar_cases b name t role init with
    ⟨fault, b', hrun, rfl | ⟨d, rfl⟩⟩ | ⟨s, f, rest, e, hs, hframes, -, hrun⟩
  · rw [hrun]
    exact refl_of StaysConforming _
  · rw [hrun]
    exact stays_of_same (b.grows_withVar d) (rel_mono (fun _ _ h => h ▸ ⟨rfl, rfl, rfl⟩)
      (Builder.rel_refl (P := Eq) b.stage))
  · rw [hrun]
    refine stays_of_same { b.grows_withVar _ with } ?_
    rw [hs]
    exact .some ⟨by simp [hframes], rfl, rfl⟩

/-- A statement that may stand in the innermost scope goes there. -/
theorem stays_emit {st : Stmt NodeId} (hst : ∀ s, b.stage = some s → b.Allows s.frames st) :
    b.StaysConforming (b.run (emit st)).2 := by
  rcases run_emit_cases b st with ⟨e, hrun⟩ | ⟨s, f, rest, hs, hframes, hrun⟩
  · rw [hrun]
    exact refl_of StaysConforming b
  · rw [hrun]
    refine stays_withBody hs hframes fun hbody => hbody.concat ?_
    rw [← hframes]
    exact hst s hs

/-- A branch is added that may return what the function does. -/
theorem stays_extendLast {failure : InternalFault} {g : Stmt NodeId → Option (Stmt NodeId)}
    (hg : ∀ s, b.stage = some s → ∀ st st', g st = some st' → b.Allows s.frames st →
      b.Allows s.frames st') : b.StaysConforming (b.run (extendLast failure g)).2 := by
  unfold extendLast
  rw [Builder.run_bind]
  rcases run_frame_cases b with ⟨e, hrun⟩ | ⟨s, f, rest, hs, hframes, hrun⟩
  · rw [hrun]
    exact refl_of StaysConforming b
  · rw [hrun]
    dsimp only
    cases hbody : replaceLast? g f.body with
    | none => exact refl_of StaysConforming b
    | some body =>
        dsimp only
        rw [run_setFrame_of_cons hs hframes]
        have hg := hg s hs
        rw [hframes] at hg
        exact stays_withBody hs hframes fun hallowed => hallowed.replaceLast hg hbody

/-- The innermost function gets its result type, unless it has another one. -/
theorem stays_setResult {t : TypeId} (ht : b.types.IsResult t)
    (hfound : ∀ s, b.stage = some s → ∀ isMain result,
      enclosingFunction? s.frames = some (isMain, result) → result = none ∨ result = some t) :
    b.StaysConforming (b.run (setResult t)).2 := by
  refine stays_modifyStage fun s hs _ h => ?_
  have hframes := settles_fixResult (hfound s hs)
  refine ⟨h.of_settles b.grows_refl hframes ?_ rfl rfl, hframes.imp fun _ _ hf => hf.1⟩
  intro f hf isMain u hkind
  rcases mem_fixResult hf with hf | ⟨isMain', hkind'⟩
  · exact h.results f hf isMain u hkind
  · rw [hkind] at hkind'
    cases hkind'
    exact ht

/-- A function that keeps to its result joins the others. -/
theorem stays_addFunction {fn : Function}
    (hfn : b.Conforms → ∀ s, b.stage = some s → b.Fulfills fn.result fn.body) :
    b.StaysConforming (b.run (addFunction fn)).2 := by
  unfold addFunction
  rw [Builder.run_bind]
  cases hs : b.stage with
  | none =>
      rw [Builder.run_stage_of_none hs]
      exact refl_of StaysConforming b
  | some s =>
      rw [Builder.run_stage_of_some hs]
      refine related_bind (stays_modifyStage fun s hs hb h => ?_) fun _ b' _ =>
        refl_of StaysConforming b'
      refine ⟨{ h with functions := ?_ }, refl_of OpenStage.Settles s⟩
      exact List.forall_mem_append.mpr ⟨h.functions, List.forall_mem_singleton.mpr (hfn hb s hs)⟩

/-- A body that returns no values, and jumps only in its own loops, becomes the entry point. -/
theorem stays_setMain {body : Block}
    (hbody : b.Conforms → ∀ s, b.stage = some s → Stmt.BlockConforms (· = none) false body) :
    b.StaysConforming (b.run (modifyStage fun s => { s with main := some body })).2 := by
  refine stays_modifyStage fun s hs hb h => ⟨{ h with main := ?_ }, refl_of OpenStage.Settles s⟩
  intro body' hbody'
  rw [← Option.some.inj hbody']
  exact hbody hb s hs

/-! ## Returns -/

/-- The innermost function is looked up. -/
theorem run_enclosingFunction_cases (b : Builder) :
    (∃ e, b.run enclosingFunction = (.error e, b)) ∨
      ∃ s found, b.stage = some s ∧ enclosingFunction? s.frames = some found ∧
        b.run enclosingFunction = (.ok found, b) := by
  unfold enclosingFunction
  rw [Builder.run_bind]
  cases hs : b.stage with
  | none =>
      rw [Builder.run_stage_of_none hs]
      exact Or.inl ⟨_, rfl⟩
  | some s =>
      rw [Builder.run_stage_of_some hs]
      dsimp only
      cases hfound : enclosingFunction? s.frames with
      | none => exact Or.inl ⟨_, rfl⟩
      | some found => exact Or.inr ⟨s, found, rfl, hfound, rfl⟩

/-- The innermost function gets its result type and returns a value of it. -/
theorem stays_setResult_returnWith {s : OpenStage} {isMain : Bool} {result : Option TypeId}
    {t : TypeId} {value : Option NodeId} (hs : b.stage = some s)
    (hfound : enclosingFunction? s.frames = some (isMain, result))
    (hresult : result = none ∨ result = some t) (hvalue : b.Returns t value)
    (hmain : isMain = true → value = none) :
    b.StaysConforming (b.run (do setResult t; emit (.returnWith value))).2 := by
  have hset : b.run (setResult t) =
      (.ok (), { b with stage := some { s with frames := fixResult t s.frames } }) :=
    Builder.run_modifyStage_of_some hs _
  refine related_bind (stays_setResult hvalue.isResult ?_) fun _ b' hrun =>
    stays_emit fun s' hs' => ?_
  · intro s' hs' isMain' result' hfound'
    rw [← Option.some.inj (hs.symm.trans hs'), hfound] at hfound'
    obtain ⟨-, rfl⟩ := Prod.mk.inj (Option.some.inj hfound')
    exact hresult
  · obtain ⟨-, rfl⟩ := Prod.mk.inj (hset.symm.trans hrun)
    rw [← Option.some.inj hs']
    exact ⟨isMain, t, enclosingFunction?_fixResult t hfound, hvalue, hmain⟩

/-- Registering `void` in a sound registry gives it. -/
theorem registersVoid_of_run (hsound : b.types.Sound) {t : TypeId} {b' : Builder}
    (h : b.run (intern Interning.void) = (.ok t, b')) : b'.types.RegistersVoid t := by
  rw [Builder.run_intern] at h
  obtain ⟨ht, rfl⟩ := Prod.mk.inj h
  obtain ⟨-, -, hgives⟩ := Interning.ensures_void hsound
  have hvoid := hgives t _ (Prod.ext ht rfl)
  refine ⟨hvoid.1, ?_⟩
  rw [Registry.isVoid, hvoid.kind_eq (by simp)]

/-- A return without a value settles a result without one. -/
theorem stays_returnVoid (hsound : b.types.Sound) : b.StaysConforming (b.run returnVoid).2 := by
  refine related_bind (follows_void b) ?_
  intro void b₁ hvoid
  rw [Builder.run_bind]
  rcases run_enclosingFunction_cases b₁ with ⟨e, hrun⟩ | ⟨s, ⟨isMain, expected⟩, hs, hfound, hrun⟩
  · rw [hrun]
    exact refl_of StaysConforming b₁
  · rw [hrun]
    dsimp only
    split
    · exact refl_of StaysConforming b₁
    · rename_i hexpected
      refine stays_setResult_returnWith hs hfound ?_ (registersVoid_of_run hsound hvoid)
        fun _ => rfl
      cases expected with
      | none => exact Or.inl rfl
      | some t => exact Or.inr (by simpa using hexpected)

/-- A value that is returned has the type that has been fixed, and is an expression of its type. -/
theorem stays_returnValue {callees : Callees} (hb : b.Typed callees) {v : Value} (hv : b.Knows v) :
    b.StaysConforming (b.run (returnValue v)).2 := by
  unfold returnValue
  rw [Builder.run_bind]
  rcases run_enclosingFunction_cases b with ⟨e, hrun⟩ | ⟨s, ⟨isMain, expected⟩, hs, hfound, hrun⟩
  · rw [hrun]
    exact refl_of StaysConforming b
  · rw [hrun]
    dsimp only
    split
    · exact refl_of StaysConforming b
    · rename_i hmain
      have hreturned := follows_returned (R := Builder.Adds) v expected b
      refine related_bind (IsAdditive.of_adds _ _ hreturned) fun e b₁ hrun₁ => ?_
      obtain ⟨hcarries, htype⟩ := (ensures_returned hb hv expected).2.2 e b₁ hrun₁
      rw [hrun₁] at hreturned
      -- the scopes are the same once the value has been lowered
      obtain ⟨s₁, hs₁, hframes⟩ : ∃ s₁, b₁.stage = some s₁ ∧ s₁.frames = s.frames := by
        have hstage := hreturned.stage
        rw [hs] at hstage
        cases hs₁ : b₁.stage with
        | none => rw [hs₁] at hstage; cases hstage
        | some s₁ =>
            rw [hs₁] at hstage
            cases hstage with
            | some hadds => exact ⟨s₁, rfl, (congrArg OpenStage.frames hadds.stem :)⟩
      rw [← hframes] at hfound
      rw [Builder.run_bind, Builder.run_get]
      dsimp only
      split
      · exact refl_of StaysConforming b₁
      · rename_i hsized
        have hsized : (b₁.types.kind e.type).isSized = true := by simpa using hsized
        refine stays_setResult_returnWith hs₁ hfound ?_ ⟨hsized, hcarries⟩ (by simpa using hmain)
        cases expected with
        | none => exact Or.inl rfl
        | some t => exact Or.inr (by rw [htype t rfl])

end Build

/-! ## Operations that return nothing -/

/-- A builder nests and stays conforming. -/
def Builder.NestsConforming (b b' : Builder) : Prop := b.Nests b' ∧ b.StaysConforming b'

theorem Build.follows_nestsConforming {α : Type} {act : Build α}
    (hnests : Follows Builder.Nests act) (hstays : Follows Builder.StaysConforming act) :
    Follows Builder.NestsConforming act := fun b => ⟨hnests b, hstays b⟩

instance : IsElementary Builder.NestsConforming where
  refl b := ⟨refl_of Builder.Nests b, refl_of Builder.StaysConforming b⟩
  trans _ _ _ h h' := ⟨trans_of Builder.Nests h.1 h'.1, trans_of Builder.StaysConforming h.2 h'.2⟩
  of_adds b b' h := ⟨IsAdditive.of_adds b b' h, IsAdditive.of_adds b b' h⟩
  takes h := IsDeclarative.takes h.1
  setSize size := Build.follows_nestsConforming (IsDeclarative.setSize size)
    (Build.stays_modifyStage_of_same fun _ => ⟨rfl, rfl, rfl⟩)
  setTag e path := Build.follows_nestsConforming (IsDeclarative.setTag e path)
    (Build.stays_modifyStage_of_same fun _ => ⟨rfl, rfl, rfl⟩)
  emit {st} h b haccepts := by
    refine ⟨IsElementary.emit h b haccepts, Build.stays_emit fun s hs => ?_⟩
    cases st with
    | declare | conditional | forRange | whileDo | doWhile | block | returnWith => cases h
    | assign | eval | discard => trivial
    | breakLoop | continueLoop => exact haccepts s hs
  declare name t init b hb := by
    refine ⟨IsElementary.declare name t init b hb, ?_⟩
    refine Build.related_bind (Build.stays_newVar name t .localVar none b) fun x b₁ _ => ?_
    exact Build.related_bind (Build.stays_emit fun _ _ => trivial) fun _ b₂ _ =>
      refl_of Builder.StaysConforming b₂
  declareIn {list} name t role init h b hb := by
    refine ⟨IsDeclarative.declareIn name t init h b hb, ?_⟩
    refine Build.related_bind (Build.stays_newVar name t role init b) fun x b₁ _ => ?_
    refine Build.related_bind (Build.stays_modifyStage_of_same (fun s => ?_) b₁) fun _ b₂ _ =>
      refl_of Builder.StaysConforming b₂
    cases list <;> exact ⟨rfl, rfl, rfl⟩

end WebShader
