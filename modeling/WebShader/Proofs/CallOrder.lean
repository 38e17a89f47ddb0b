import WebShader.Proofs.BlockExpressions
import WebShader.Proofs.TypedOperations

/-!
# The order of calls

While a stage is open, the expressions recorded since some place in the arena only call functions
that the stage has defined, and what the body of a function is made of had been recorded before the
function was defined. So a function only calls earlier ones, however its expressions are shared.
-/

namespace WebShader

/-! ## Calls of earlier functions -/

namespace Builder

/-- The expressions of a block have been recorded. -/
def Records (b : Builder) (body : Block) : Prop :=
  ∀ n ∈ Stmt.blockExprs body, n.index < b.nodes.size

/-- Between two places in the arena, calls are of the first few functions. -/
def CallsBelow (b : Builder) (start stop bound : Nat) : Prop :=
  ∀ n node f, start ≤ n.index → n.index < stop → b.node? n = some node →
    node.kind.callee? = some f → f.index < bound

/-- The expressions of a block come before some place in the arena, and from `start` up to there
only the first few functions are called. -/
def CallsOnly (b : Builder) (start bound : Nat) (body : Block) : Prop :=
  ∃ stop ≤ b.nodes.size, (∀ n ∈ Stmt.blockExprs body, n.index < stop) ∧
    b.CallsBelow start stop bound

end Builder

/-- A stage whose blocks have been recorded, where expressions from a place in the arena on call
functions that have been defined, and the body of each function only those before it. -/
structure OpenStage.CallsBack (start : Nat) (b : Builder) (s : OpenStage) : Prop where
  frames : ∀ f ∈ s.frames, b.Records f.body
  main : ∀ body, s.main = some body → b.Records body
  functions : ∀ k fn, s.decls.functions[k]? = some fn → b.CallsOnly start k fn.body
  calls : b.CallsBelow start b.nodes.size s.decls.functions.length

/-- The stage at hand, if there is one, only calls earlier functions. -/
def Builder.CallsBack (start : Nat) (b : Builder) : Prop :=
  ∀ s, b.stage = some s → s.CallsBack start b

/-- A builder that only calls earlier functions if the one before does. -/
def Builder.StaysOrdered (start : Nat) (b b' : Builder) : Prop :=
  b.CallsBack start → b'.CallsBack start

namespace Builder

variable {b b' : Builder} {s s' : OpenStage} {start stop bound : Nat} {body : Block}

/-- The arena only grows. -/
theorem size_le_of_starts (hnodes : b.nodes.toList <+: b'.nodes.toList) :
    b.nodes.size ≤ b'.nodes.size := by
  simpa using hnodes.length_le

/-- What comes before the end of an arena is the same in one that it begins. -/
theorem node?_of_starts (hnodes : b.nodes.toList <+: b'.nodes.toList) {n : NodeId}
    (hn : n.index < b.nodes.size) : b'.node? n = b.node? n := by
  obtain ⟨node, hnode⟩ : ∃ node, b.node? n = some node := ⟨_, Array.getElem?_eq_getElem hn⟩
  rw [hnode]
  exact getElem?_of_starts hnodes hnode

/-- What is recorded stays recorded. -/
theorem Records.of_starts (h : b.Records body) (hnodes : b.nodes.toList <+: b'.nodes.toList) :
    b'.Records body :=
  fun n hn => Nat.lt_of_lt_of_le (h n hn) (size_le_of_starts hnodes)

/-- Calls stay below their bound as the arena grows. -/
theorem CallsBelow.of_starts (h : b.CallsBelow start stop bound) (hstop : stop ≤ b.nodes.size)
    (hnodes : b.nodes.toList <+: b'.nodes.toList) : b'.CallsBelow start stop bound := by
  intro n node f hn hlt hnode
  rw [node?_of_starts hnodes (Nat.lt_of_lt_of_le hlt hstop)] at hnode
  exact h n node f hn hlt hnode

/-- A body calls the same functions in a longer arena. -/
theorem CallsOnly.of_starts (h : b.CallsOnly start bound body)
    (hnodes : b.nodes.toList <+: b'.nodes.toList) : b'.CallsOnly start bound body := by
  obtain ⟨stop, hstop, hbody, hcalls⟩ := h
  exact ⟨stop, Nat.le_trans hstop (size_le_of_starts hnodes), hbody, hcalls.of_starts hstop hnodes⟩

/-- The expressions of a body are recorded. -/
theorem CallsOnly.records (h : b.CallsOnly start bound body) : b.Records body := by
  obtain ⟨stop, hstop, hbody, -⟩ := h
  exact fun n hn => Nat.lt_of_lt_of_le (hbody n hn) hstop

/-- Nothing is called from an arena that has not grown. -/
theorem callsBelow_self (b : Builder) (start bound : Nat) : b.CallsBelow start start bound := by
  intro n node f hn hlt
  omega

end Builder

namespace OpenStage

variable {b b' : Builder} {s s' : OpenStage} {start : Nat}

/-- A stage with the functions of another, whose blocks have been recorded too. -/
theorem CallsBack.of_starts (h : s.CallsBack start b) (hnodes : b.nodes.toList <+: b'.nodes.toList)
    (hframes : ∀ f ∈ s'.frames, b'.Records f.body)
    (hmain : ∀ body, s'.main = some body → b'.Records body)
    (hfunctions : s'.decls.functions = s.decls.functions)
    (hcalls : b'.CallsBelow start b'.nodes.size s.decls.functions.length) :
    s'.CallsBack start b' where
  frames := hframes
  main := hmain
  functions k fn hfn := (h.functions k fn (hfunctions ▸ hfn)).of_starts hnodes
  calls := by rwa [hfunctions]

/-- A stage that changes while nothing is recorded. -/
theorem CallsBack.of_nodes (h : s.CallsBack start b) (hnodes : b'.nodes = b.nodes)
    (hframes : ∀ f ∈ s'.frames, b.Records f.body)
    (hmain : ∀ body, s'.main = some body → b.Records body)
    (hfunctions : s'.decls.functions = s.decls.functions) : s'.CallsBack start b' := by
  have hstarts : b.nodes.toList <+: b'.nodes.toList := by rw [hnodes]
  refine h.of_starts hstarts (fun f hf => (hframes f hf).of_starts hstarts)
    (fun body hbody => (hmain body hbody).of_starts hstarts) hfunctions ?_
  have hcalls := h.calls.of_starts le_rfl hstarts
  rwa [hnodes]

end OpenStage

namespace Builder

variable {b b' : Builder} {s s' : OpenStage} {start : Nat}

/-- Without a stage nothing is called. -/
theorem callsBack_of_none (hs : b.stage = none) : b.CallsBack start :=
  fun s hs' => absurd (hs.symm.trans hs') (by simp)

/-- Where a stage is opened, nothing has been recorded since. -/
theorem callsBack_opened (b : Builder) (which : Stage) :
    (b.opened which).CallsBack b.nodes.size := by
  intro s hs
  rw [← Option.some.inj hs]
  exact
    { frames := by simp [Records, Stmt.blockExprs]
      main := by simp
      functions := by simp
      calls := callsBelow_self _ _ _ }

/-- The stage changes, and nothing is recorded. -/
theorem ordered_withStage (hs : b.stage = some s) (hnodes : b'.nodes = b.nodes)
    (hs' : b'.stage = some s') (h : s.CallsBack start b →
      (∀ f ∈ s'.frames, b.Records f.body) ∧ (∀ body, s'.main = some body → b.Records body) ∧
        s'.decls.functions = s.decls.functions) : b.StaysOrdered start b' := by
  intro hb t ht
  obtain rfl := Option.some.inj (hs'.symm.trans ht)
  obtain ⟨hframes, hmain, hfunctions⟩ := h (hb s hs)
  exact (hb s hs).of_nodes hnodes hframes hmain hfunctions

/-- Additions keep the order of calls. -/
theorem ordered_of_adds (h : b.Adds b') : b.StaysOrdered start b' := by
  intro hb s' hs'
  obtain ⟨s, hs, hadds⟩ : ∃ s, b.stage = some s ∧ s.Adds s' :=
    Kept.exists_of_some (P := OpenStage.Adds) (Kept.of_adds h) hs'
  have hback := hb s hs
  have hframes : s'.frames = s.frames := (congrArg OpenStage.frames hadds.stem :)
  have hmain : s'.main = s.main := (congrArg OpenStage.main hadds.stem :)
  have hfunctions : s'.decls.functions = s.decls.functions :=
    congrArg (·.decls.functions) hadds.stem
  refine hback.of_starts h.nodes ?_ ?_ hfunctions ?_
  · rw [hframes]
    exact fun f hf => (hback.frames f hf).of_starts h.nodes
  · rw [hmain]
    exact fun body hbody => (hback.main body hbody).of_starts h.nodes
  · -- what is recorded calls nothing, or what the stage has
    have hdefined : b.CallsDefined start := by
      intro n node f hn hnode hf
      have hlt := hback.calls n node f hn (Array.getElem?_eq_some_iff.mp hnode).1 hnode hf
      refine ⟨s.decls.functions[f.index], ?_⟩
      rw [function?, hs]
      exact List.getElem?_eq_getElem hlt
    intro n node f hn _ hnode hf
    obtain ⟨fn, hfn⟩ := h.calls start hdefined n node f hn hnode hf
    rw [h.function?_eq, function?, hs] at hfn
    exact (List.getElem?_eq_some_iff.mp hfn).1

instance : IsAdditive (StaysOrdered start) where
  refl _ hb := hb
  trans _ _ _ h h' hb := h' (h hb)
  of_adds _ _ := ordered_of_adds

/-- A variable calls nothing. -/
theorem CallsBack.withVar (hb : b.CallsBack start) (d : Variable) :
    (b.withVar d).CallsBack start := by
  intro s hs
  have hback : s.CallsBack start b := hb s hs
  have hnodes := (b.grows_withVar d).nodes
  refine hback.of_starts hnodes (fun f hf => (hback.frames f hf).of_starts hnodes)
    (fun body hbody => (hback.main body hbody).of_starts hnodes) rfl ?_
  intro n node f hn _ hnode hf
  rw [node?, Builder.withVar, Array.getElem?_push] at hnode
  split at hnode
  · rw [← Option.some.inj hnode] at hf
    cases hf
  · exact hback.calls n node f hn (Array.getElem?_eq_some_iff.mp hnode).1 hnode hf

end Builder

/-! ## Steps -/

namespace Build

open Builder

variable {b : Builder} {start : Nat}

/-- A new variable calls nothing. -/
theorem ordered_newVar (name : String) (t : TypeId) (role : Role) (init : Option NodeId) :
    Follows (StaysOrdered start) (newVar name t role init) := by
  intro b
  rcases run_newVar_cases b name t role init with
    ⟨fault, b', hrun, rfl | ⟨d, rfl⟩⟩ | ⟨s, f, rest, e, hs, hframes, -, hrun⟩
  · rw [hrun]
    exact refl_of (StaysOrdered start) _
  · rw [hrun]
    exact fun hb => hb.withVar d
  · rw [hrun]
    have hs' : (b.withVar ⟨name, t, role, s.decls.stage, init⟩).stage = some s := hs
    have hnamed : (b.withVar ⟨name, t, role, s.decls.stage, init⟩).StaysOrdered start
        ((b.withVar ⟨name, t, role, s.decls.stage, init⟩).withFrame s
          { f with symbols := (name, e) :: f.symbols } rest) := by
      refine ordered_withStage hs' rfl rfl fun h => ⟨?_, h.main, rfl⟩
      have hrecorded := h.frames
      rw [hframes, List.forall_mem_cons] at hrecorded
      exact List.forall_mem_cons.mpr hrecorded
    exact fun hb => hnamed (hb.withVar _)

/-- A change of the stage that keeps its blocks and functions. -/
theorem ordered_modifyStage {g : OpenStage → OpenStage}
    (hg : ∀ s, (g s).frames = s.frames ∧ (g s).main = s.main ∧
      (g s).decls.functions = s.decls.functions) :
    Follows (StaysOrdered start) (modifyStage g) := by
  intro b
  cases hs : b.stage with
  | none =>
      rw [Builder.run_modifyStage_of_none hs]
      exact refl_of (StaysOrdered start) b
  | some s =>
      rw [Builder.run_modifyStage_of_some hs]
      obtain ⟨hframes, hmain, hfunctions⟩ := hg s
      refine ordered_withStage hs rfl rfl fun h => ⟨?_, ?_, hfunctions⟩
      · rw [hframes]
        exact h.frames
      · rw [hmain]
        exact h.main

/-- The innermost scope holds another block, which has been recorded too. -/
theorem ordered_withBody {s : OpenStage} {f : Frame} {rest : List Frame} {body : Block}
    (hs : b.stage = some s) (hframes : s.frames = f :: rest)
    (hbody : b.Records f.body → b.Records body) :
    b.StaysOrdered start (b.withFrame s { f with body } rest) := by
  refine ordered_withStage hs rfl rfl fun h => ⟨?_, h.main, rfl⟩
  have hrecorded := h.frames
  rw [hframes, List.forall_mem_cons] at hrecorded
  exact List.forall_mem_cons.mpr ⟨hbody hrecorded.1, hrecorded.2⟩

/-- A statement of recorded expressions goes to the innermost scope. -/
theorem ordered_emit {st : Stmt NodeId} (hst : ∀ n ∈ st.exprs, n.index < b.nodes.size) :
    b.StaysOrdered start (b.run (emit st)).2 := by
  rcases run_emit_cases b st with ⟨e, hrun⟩ | ⟨s, f, rest, hs, hframes, hrun⟩
  · rw [hrun]
    exact refl_of (StaysOrdered start) b
  · rw [hrun]
    refine ordered_withBody hs hframes fun hbody => ?_
    rw [Records, Stmt.blockExprs_concat, List.forall_mem_append]
    exact ⟨hbody, hst⟩

/-- A branch is added with expressions that are recorded. -/
theorem ordered_extendLast {failure : InternalFault} {g : Stmt NodeId → Option (Stmt NodeId)}
    (hg : ∀ st st', g st = some st' → ∀ n ∈ st'.exprs, n ∈ st.exprs ∨ n.index < b.nodes.size) :
    b.StaysOrdered start (b.run (extendLast failure g)).2 := by
  unfold extendLast
  rw [Builder.run_bind]
  rcases run_frame_cases b with ⟨e, hrun⟩ | ⟨s, f, rest, hs, hframes, hrun⟩
  · rw [hrun]
    exact refl_of (StaysOrdered start) b
  · rw [hrun]
    dsimp only
    cases hbody : replaceLast? g f.body with
    | none => exact refl_of (StaysOrdered start) b
    | some body =>
        dsimp only
        rw [run_setFrame_of_cons hs hframes]
        refine ordered_withBody hs hframes fun hrecorded n hn => ?_
        rcases Stmt.mem_blockExprs_replaceLast hg hbody n hn with hn | hn
        · exact hrecorded n hn
        · exact hn

/-- A function is defined when its body has been recorded. -/
theorem ordered_addFunction {fn : Function} (hfn : b.Records fn.body) :
    b.StaysOrdered start (b.run (addFunction fn)).2 := by
  unfold addFunction
  rw [Builder.run_bind]
  cases hs : b.stage with
  | none =>
      rw [Builder.run_stage_of_none hs]
      exact refl_of (StaysOrdered start) b
  | some s =>
      rw [Builder.run_stage_of_some hs]
      refine related_bind ?_ fun _ b' _ => refl_of (StaysOrdered start) b'
      rw [modifyDecls, Builder.run_modifyStage_of_some hs]
      intro hb s' hs'
      rw [← Option.some.inj hs']
      have h : s.CallsBack start b := hb s hs
      -- the new function comes last, so that no earlier one calls it
      refine { h with
        functions := fun k fn' hfn' => ?_, calls := fun n node f hn hlt hnode hf => ?_ }
      · change (s.decls.functions ++ [fn])[k]? = some fn' at hfn'
        by_cases hk : k < s.decls.functions.length
        · rw [List.getElem?_append_left hk] at hfn'
          exact h.functions k fn' hfn'
        · -- what has been recorded so far calls the functions before it
          rw [List.getElem?_append_right (by omega), List.getElem?_singleton] at hfn'
          split at hfn'
          · obtain rfl : k = s.decls.functions.length := by omega
            rw [← Option.some.inj hfn']
            exact ⟨b.nodes.size, le_rfl, hfn, h.calls⟩
          · cases hfn'
      · have hbound := h.calls n node f hn hlt hnode hf
        show f.index < (s.decls.functions ++ [fn]).length
        rw [List.length_append]
        omega

/-- The main function may call every function before it. -/
theorem ordered_setMain {body : Block} (hbody : b.Records body) :
    b.StaysOrdered start (b.run (modifyStage fun s => { s with main := some body })).2 := by
  cases hs : b.stage with
  | none =>
      rw [Builder.run_modifyStage_of_none hs]
      exact refl_of (StaysOrdered start) b
  | some s =>
      rw [Builder.run_modifyStage_of_some hs]
      refine ordered_withStage hs rfl rfl fun h => ⟨h.frames, fun body' hbody' => ?_, rfl⟩
      rw [← Option.some.inj hbody']
      exact hbody

/-- Scopes hold the same when a function gets its result type. -/
theorem body_of_mem_fixResult {t : TypeId} {frames : List Frame} {f : Frame}
    (h : f ∈ fixResult t frames) : ∃ g ∈ frames, f.body = g.body := by
  fun_induction fixResult t frames with
  | case1 => cases h
  | case2 g rest isMain result hkind =>
      rcases List.mem_cons.mp h with rfl | hf
      · exact ⟨g, List.mem_cons_self, rfl⟩
      · exact ⟨f, List.mem_cons_of_mem _ hf, rfl⟩
  | case3 g rest hkind ih =>
      rcases List.mem_cons.mp h with rfl | hf
      · exact ⟨f, List.mem_cons_self, rfl⟩
      · obtain ⟨g', hg', hbody⟩ := ih hf
        exact ⟨g', List.mem_cons_of_mem _ hg', hbody⟩

/-- The type of a result calls nothing. -/
theorem ordered_setResult (t : TypeId) : Follows (StaysOrdered start) (setResult t) := by
  intro b
  unfold setResult
  cases hs : b.stage with
  | none =>
      rw [Builder.run_modifyStage_of_none hs]
      exact refl_of (StaysOrdered start) b
  | some s =>
      rw [Builder.run_modifyStage_of_some hs]
      refine ordered_withStage hs rfl rfl fun h => ⟨fun f hf => ?_, h.main, rfl⟩
      obtain ⟨g, hg, hbody⟩ := body_of_mem_fixResult hf
      rw [hbody]
      exact h.frames g hg

end Build

/-! ## Operations without statements -/

/-- A builder nests and stays ordered. -/
def Builder.NestsOrdered (start : Nat) (b b' : Builder) : Prop :=
  b.Nests b' ∧ b.StaysOrdered start b'

theorem Build.follows_nestsOrdered {α : Type} {act : Build α} {start : Nat}
    (hnests : Follows Builder.Nests act) (hordered : Follows (Builder.StaysOrdered start) act) :
    Follows (Builder.NestsOrdered start) act := fun b => ⟨hnests b, hordered b⟩

instance {start : Nat} : IsDeclarative (Builder.NestsOrdered start) where
  refl b := ⟨refl_of Builder.Nests b, refl_of (Builder.StaysOrdered start) b⟩
  trans _ _ _ h h' :=
    ⟨trans_of Builder.Nests h.1 h'.1, trans_of (Builder.StaysOrdered start) h.2 h'.2⟩
  of_adds b b' h := ⟨IsAdditive.of_adds b b' h, IsAdditive.of_adds b b' h⟩
  takes h := IsDeclarative.takes h.1
  setSize size := Build.follows_nestsOrdered (IsDeclarative.setSize size)
    (Build.ordered_modifyStage fun _ => ⟨rfl, rfl, rfl⟩)
  setTag e path := Build.follows_nestsOrdered (IsDeclarative.setTag e path)
    (Build.ordered_modifyStage fun _ => ⟨rfl, rfl, rfl⟩)
  declareIn {list} name t role init h b hb := by
    refine ⟨IsDeclarative.declareIn name t init h b hb, ?_⟩
    refine Build.related_bind (Build.ordered_newVar name t role init b) fun x b₁ _ => ?_
    refine Build.related_bind (Build.ordered_modifyStage (fun s => ?_) b₁) fun _ b₂ _ =>
      refl_of (Builder.StaysOrdered start) b₂
    cases list <;> exact ⟨rfl, rfl, rfl⟩

/-! ## Operations with statements -/

namespace Build

open Builder

variable {b : Builder} {callees : Callees} {start : Nat}

/-- What follows an operation runs from the typed builder that it leaves. -/
theorem Ensures.related_bind {R : Builder → Builder → Prop} [IsPreorder Builder R] {α β : Type}
    {act : Build α} {f : α → Build β} {post : α → Builder → Prop}
    (h : act.Ensures callees b post) (hact : Follows R act)
    (hf : ∀ a b', b.Extends b' → b'.Typed callees → post a b' → R b' (b'.run (f a)).2) :
    R b (b.run (act >>= f)).2 := by
  obtain ⟨hext, hb', hpost⟩ := h
  refine Build.related_bind (hact b) fun a b' hrun => ?_
  rw [hrun] at hext hb'
  exact hf a b' hext hb' (hpost a b' hrun)

/-- A local variable is declared with a recorded value. -/
theorem ordered_declare (name : String) (t : TypeId) {init : Option NodeId}
    (hinit : ∀ n, init = some n → n.index < b.nodes.size) :
    b.StaysOrdered start (b.run (declare name t init)).2 := by
  refine related_bind (ordered_newVar name t .localVar none b) fun x b₁ hrun => ?_
  refine related_bind (ordered_emit fun n hn => ?_) fun _ b₂ _ => refl_of (StaysOrdered start) b₂
  cases init with
  | none =>
      rw [Stmt.exprs] at hn
      cases hn
  | some m =>
      rw [Stmt.exprs, List.mem_singleton] at hn
      have hkept := (kept_newVar (P := OpenStage.Nests) name t .localVar none).of_run hrun
      rw [hn]
      exact Nat.lt_of_lt_of_le (hinit m rfl) (size_le_of_starts hkept.nodes)

/-- The initial value of a local variable is recorded. -/
theorem ordered_declareLocal (hb : b.Typed callees) (name : String) {init : Value}
    (hinit : b.Knows init) : b.StaysOrdered start (b.run (declareLocal name init)).2 := by
  refine related_bind (follows_requireFunction _ b) fun _ b₁ hrun => ?_
  obtain rfl : b = b₁ := (reads_requireFunction _).of_run hrun
  refine (ensures_lower hb hinit none).related_bind (follows_lower _ _) fun e b₁ _ _ he => ?_
  refine related_bind (follows_requireSized _ _ _ b₁) fun _ b₂ hrun => ?_
  obtain rfl : b₁ = b₂ := (reads_requireSized _ _ _).of_run hrun
  refine ordered_declare name _ fun n hn => ?_
  rw [← Option.some.inj hn]
  exact lt_size_of_typeOf? he.1

/-- A local variable without an initial value calls nothing. -/
theorem ordered_declareVar (name : String) (shape : TypeShape) :
    b.StaysOrdered start (b.run (declareVar name shape)).2 := by
  refine related_bind (follows_requireFunction _ b) fun _ b₁ _ => ?_
  refine related_bind (follows_type shape b₁) fun t b₂ _ => ?_
  refine related_bind (follows_requireSized _ _ _ b₂) fun _ b₃ _ => ?_
  exact ordered_declare name t (by simp)

/-- Both sides of an assignment are recorded. -/
theorem ordered_assign (hb : b.Typed callees) {target : Expr} (htarget : b.Carries target)
    {v : Value} (hv : b.Knows v) : b.StaysOrdered start (b.run (assign target v)).2 := by
  rw [assign, Builder.run_get_bind]
  refine related_bind (Follows.liftM _ b) fun _ b₁ hrun => ?_
  obtain rfl : b = b₁ := (Follows.liftM (R := Eq) _).of_run hrun
  refine (ensures_coerce hb hv _ _).related_bind (follows_coerce _ _ _) fun e b₁ hext _ he => ?_
  refine ordered_emit fun n hn => ?_
  rw [Stmt.exprs, List.mem_pair] at hn
  rcases hn with rfl | rfl
  · exact lt_size_of_typeOf? (htarget.of_extends hext)
  · exact lt_size_of_typeOf? he.1

/-- Both sides of an assignment with an operator are recorded. -/
theorem ordered_assignOp (hb : b.Typed callees) {target : Expr} (htarget : b.Carries target)
    (op : BinaryOp) {v : Value} (hv : b.Knows v) :
    b.StaysOrdered start (b.run (assignOp target op v)).2 := by
  unfold assignOp
  split
  · exact refl_of (StaysOrdered start) b
  rw [Builder.run_get_bind]
  refine related_bind (Follows.liftM _ b) fun _ b₁ hrun => ?_
  obtain rfl : b = b₁ := (Follows.liftM (R := Eq) _).of_run hrun
  refine (ensures_lowerNear hb hv _).related_bind (follows_lowerNear _ _) fun e b₁ hext hb₁ he => ?_
  have htarget := htarget.of_extends hext
  refine (ensures_binaryType hb₁ op htarget he).related_bind (follows_binaryType _ _ _) ?_
  intro t b₂ hext' _ _
  rw [Builder.run_get_bind]
  dsimp only
  split
  · exact refl_of (StaysOrdered start) b₂
  refine ordered_emit fun n hn => ?_
  rw [Stmt.exprs, List.mem_pair] at hn
  rcases hn with rfl | rfl
  · exact lt_size_of_typeOf? (htarget.of_extends hext')
  · exact lt_size_of_typeOf? (he.of_extends hext')

/-- The value that is assigned by name is recorded. -/
theorem ordered_assignNamed (hb : b.Typed callees) (name : String) {v : Value} (hv : b.Knows v) :
    b.StaysOrdered start (b.run (assignNamed name v)).2 := by
  rw [assignNamed, Builder.run_get_bind]
  split
  · rename_i target htarget
    exact related_bind (ordered_assign hb (hb.carries_of_lookup htarget) hv) fun _ b₁ _ =>
      refl_of (StaysOrdered start) b₁
  · exact ordered_declareLocal hb name hv

/-- The value of a built-in output is recorded. -/
theorem ordered_assignBuiltin (hb : b.Typed callees) (x : Builtin) {v : Value} (hv : b.Knows v) :
    b.StaysOrdered start (b.run (assignBuiltin x v)).2 :=
  (ensures_builtin hb x).related_bind (follows_builtin x) fun _ _ hext hb₁ he =>
    ordered_assign hb₁ he (hv.of_extends hext)

/-- An expression that is evaluated is recorded. -/
theorem ordered_eval {e : Expr} (he : b.Carries e) :
    b.StaysOrdered start (b.run (eval e)).2 := by
  refine ordered_emit fun n hn => ?_
  rw [Stmt.exprs, List.mem_singleton] at hn
  rw [hn]
  exact lt_size_of_typeOf? he

/-- A call is recorded before the statement that it may be. -/
theorem ordered_call (name : String) (args : List Value) :
    b.StaysOrdered start (b.run (call name args)).2 := by
  unfold call
  refine related_bind (follows_stage b) fun s b₁ _ => ?_
  dsimp only
  split
  · exact refl_of (StaysOrdered start) b₁
  refine related_bind (follows_chooseOverload _ _ b₁) fun chosen b₂ hrun => ?_
  have hchosen := delivers_chooseOverload (C := fun _ => True) _ _ b₁ _ b₂ trivial hrun
  split
  · exact refl_of (StaysOrdered start) b₂
  · rename_i f fn
    refine related_bind (follows_coerceAll _ _ b₂) fun nodes b₃ hrun => ?_
    have hadds : b₂.Adds b₃ := (follows_coerceAll _ _).of_run hrun
    have hfn := (hadds.function?_eq f).trans (hchosen f fn rfl)
    refine related_bind (follows_pushCall _ f nodes fn b₃ hfn) fun e b₄ hrun => ?_
    have hmakes : b₄.Makes e (.call f nodes) := (makes_of_run_pushNode hrun).2
    rw [Builder.run_get_bind]
    split
    · refine related_bind (ordered_emit fun n hn => ?_) fun _ b₅ _ =>
        refl_of (StaysOrdered start) b₅
      rw [Stmt.exprs, List.mem_singleton] at hn
      rw [hn]
      exact (Array.getElem?_eq_some_iff.mp hmakes).1
    · exact refl_of (StaysOrdered start) b₄

/-- Nothing is recorded when a function gets its result type. -/
theorem nodes_of_run_setResult {b b' : Builder} {t : TypeId} {x : Except ShaderError Unit}
    (h : b.run (setResult t) = (x, b')) : b'.nodes = b.nodes := by
  unfold setResult at h
  cases hs : b.stage with
  | none =>
      rw [Builder.run_modifyStage_of_none hs] at h
      rw [(Prod.mk.inj h).2]
  | some s =>
      rw [Builder.run_modifyStage_of_some hs] at h
      rw [← (Prod.mk.inj h).2]

/-- A jump, or the end of a fragment, holds no expressions. -/
theorem ordered_emit_of_exprs {st : Stmt NodeId} (hst : st.exprs = []) :
    Follows (StaysOrdered start) (emit st) :=
  fun b => ordered_emit (by simp [hst])

/-- A jump calls nothing. -/
theorem ordered_jump {statement : String} {st : Stmt NodeId} (hst : st.exprs = []) :
    Follows (StaysOrdered start) (do requireLoop statement; emit st) :=
  .bind (follows_requireLoop _) fun _ => ordered_emit_of_exprs hst

/-- Discarding a fragment calls nothing. -/
theorem ordered_discard : Follows (StaysOrdered start) discard := by
  refine .bind follows_stage fun s b => ?_
  split
  · exact refl_of (StaysOrdered start) b
  · exact ordered_emit_of_exprs rfl b

/-- The value that is returned is recorded. -/
theorem ordered_returnValue (hb : b.Typed callees) {v : Value} (hv : b.Knows v) :
    b.StaysOrdered start (b.run (returnValue v)).2 := by
  unfold returnValue
  refine related_bind (follows_enclosingFunction b) fun ⟨isMain, expected⟩ b₁ hrun => ?_
  obtain rfl : b = b₁ := reads_enclosingFunction.of_run hrun
  dsimp only
  split
  · exact refl_of (StaysOrdered start) b
  refine (ensures_returned hb hv _).related_bind (follows_returned _ _) fun e b₁ _ _ he => ?_
  rw [Builder.run_get_bind]
  split
  · exact refl_of (StaysOrdered start) b₁
  refine related_bind (ordered_setResult _ b₁) fun _ b₂ hrun => ordered_emit fun n hn => ?_
  have hnodes : b₂.nodes = b₁.nodes := nodes_of_run_setResult hrun
  rw [Stmt.exprs, List.mem_singleton] at hn
  rw [hn, hnodes]
  exact lt_size_of_typeOf? he.1

/-- A return without a value calls nothing. -/
theorem ordered_returnVoid : b.StaysOrdered start (b.run returnVoid).2 := by
  unfold returnVoid
  refine related_bind (follows_void b) fun t b₁ _ => ?_
  refine related_bind (follows_enclosingFunction b₁) fun ⟨isMain, expected⟩ b₂ _ => ?_
  dsimp only
  split
  · exact refl_of (StaysOrdered start) b₂
  refine related_bind (ordered_setResult t b₂) fun _ b₃ _ => ?_
  exact ordered_emit_of_exprs rfl b₃

end Build

end WebShader
