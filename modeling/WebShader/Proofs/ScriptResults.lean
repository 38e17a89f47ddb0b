import WebShader.Proofs.FunctionResults
import WebShader.Proofs.ResolvedStages
import WebShader.Proofs.TypedScripts

/-!
# Functions return what they promise

Every function that a script defines returns values of its result type wherever it returns, and its
end is not reached, whichever branches are taken and however often its loops go round. A function
without result returns nothing, and jumps only lead out of loops of the same function.
-/

namespace WebShader

/-! ## Scopes that are left -/

namespace Builder

variable {b b' : Builder} {s : OpenStage} {f : Frame} {frames : List Frame} {kind : ScopeKind}

/-- A new scope is empty, and its function has no result type yet. -/
theorem Conforms.withScope (hb : b.Conforms) (hs : b.stage = some s)
    (hkind : kind.opening = kind) : (b.withFrame s { kind } s.frames).Conforms := by
  have hgrows : b.Grows (b.withFrame s { kind } s.frames) := { b.grows_refl with }
  have h : s.Conforms (b.withFrame s { kind } s.frames) :=
    (hb s hs).of_same hgrows ⟨rfl, rfl, rfl⟩
  intro s' hs'
  rw [← Option.some.inj hs']
  refine { h with frames_ne_nil := by simp, results := ?_, frames := ⟨trivial, h.frames⟩ }
  intro g hg isMain t hfixed
  rcases List.mem_cons.mp hg with rfl | hg
  · -- no result type has been fixed where the scope is opened
    change kind = _ at hfixed
    rw [hfixed] at hkind
    cases hkind
  · exact h.results g hg isMain t hfixed

/-- What may be returned in a scope of a statement may be returned around it. -/
theorem permits_cons (hkind : ∀ isMain result, f.kind ≠ .function isMain result) :
    b.Permits (f :: frames) = b.Permits frames := by
  unfold Permits
  rw [Build.enclosingFunction?]
  split
  · exact absurd ‹_› (hkind _ _)
  · rfl

/-- The statement that a scope is closed by may stand around it. -/
theorem AllowsAll.closes {st : Stmt NodeId} (h : b.AllowsAll (f :: frames) f.body)
    (hst : f.kind.Closes f.body st) : b.Allows frames st := by
  have hpermits : b.Permits (f :: frames) = b.Permits frames :=
    permits_cons fun isMain result hkind => by
      rw [hkind] at hst
      cases hst
  rw [AllowsAll, hpermits, Build.loopIsOpen] at h
  generalize hbody : f.body = body at h hst
  generalize f.kind = kind at h hst
  cases hst with
  | conditional cond => exact ⟨h, trivial⟩
  | forRange | whileDo | doWhile | block => exact h

/-- A scope that is left holds statements that may stand in it, and its function has a result type,
if one has been fixed. -/
structure Releases (kind : ScopeKind) (f : Frame) (b' : Builder) (s' : OpenStage) : Prop where
  stage : b'.stage = some s'
  settles : Frame.Settles { kind } f
  body : b'.AllowsAll (f :: s'.frames) f.body
  result : ∀ isMain t, f.kind = .function isMain (some t) → b'.types.IsResult t

/-- A scope that is left is released with its statements. -/
theorem Leaves.releases (h : b.Leaves StaysConforming kind f b') (hb : b.Conforms) :
    b'.Conforms ∧ b.KeptOrLost OpenStage.Settles b' ∧ ∃ s', Releases kind f b' s' := by
  obtain ⟨hkind, s, b₁, hs, hbody, hpop⟩ := h
  obtain ⟨hb₁, hkept⟩ := hbody (hb.withScope hs hkind)
  rcases Authoring.run_popScope_cases b₁ with ⟨e, hrun, -⟩ | ⟨s₁, f', g, rest, hs₁, hframes, hrun⟩
  · cases (Prod.mk.inj (hrun.symm.trans hpop)).1
  · obtain ⟨hf, rfl⟩ := Prod.mk.inj (hrun.symm.trans hpop)
    obtain rfl := Except.ok.inj hf
    have hkept := hkept.resolve_right fun hlost => by
      rw [hlost.stage] at hs₁
      cases hs₁
    obtain ⟨s₀, hs₀, hsettles⟩ := hkept.exists_of_some hs₁
    obtain rfl := Option.some.inj hs₀
    rw [OpenStage.Settles, hframes] at hsettles
    obtain ⟨hsettled, hrest⟩ := List.forall₂_cons.mp hsettles
    have h₁ := hb₁ s₁ hs₁
    have hconforms := h₁.frames
    rw [hframes] at hconforms
    have hmem : ∀ x ∈ g :: rest, x ∈ s₁.frames := fun x hx => hframes ▸ List.mem_cons_of_mem _ hx
    have hgrows : b₁.Grows (b₁.withFrame s₁ g rest) := { b₁.grows_refl with }
    have hleft : OpenStage.Conforms b₁ { s₁ with frames := g :: rest } :=
      { h₁ with
        frames_ne_nil := by simp
        results := fun x hx => h₁.results x (hmem x hx)
        frames := hconforms.2 }
    have hgrown : b.Grows (b₁.withFrame s₁ g rest) := { hkept.toGrows with }
    refine ⟨fun s' hs' => ?_, Or.inl (.of_some hgrown hs rfl hrest), _, rfl, hsettled, ?_, ?_⟩
    · rw [← Option.some.inj hs']
      exact hleft.of_same hgrows ⟨rfl, rfl, rfl⟩
    · exact hconforms.1.of_settles hgrows (forall₂_settles_refl _)
    · exact h₁.results f' (by simp [hframes])

/-- A scope cannot fail to be left while its stage is open. -/
theorem stays_of_stuck {b₁ : Builder} {e : ShaderError} (hkind : kind.opening = kind)
    (hs : b.stage = some s) (hbody : (b.withFrame s { kind } s.frames).StaysConforming b₁)
    (hpop : b₁.run Build.popScope = (.error e, b₁)) : b.StaysConforming b₁ := by
  intro hb
  obtain ⟨hb₁, hkept | hlost⟩ := hbody (hb.withScope hs hkind)
  · rcases Authoring.run_popScope_cases b₁ with ⟨e', -, hshort⟩ | ⟨s₁, f', g, rest, -, -, hrun⟩
    · exfalso
      cases hs₁ : b₁.stage with
      | none =>
          have hstage := hkept.stage
          rw [hs₁] at hstage
          cases hstage
      | some s₁ =>
          obtain ⟨s₀, hs₀, hsettles⟩ := hkept.exists_of_some hs₁
          obtain rfl := Option.some.inj hs₀
          have hlength : s.frames.length + 1 = s₁.frames.length := hsettles.length_eq
          have hpos := List.length_pos_iff.mpr (hb s hs).frames_ne_nil
          have hle := hshort s₁ hs₁
          omega
    · rw [hrun] at hpop
      cases (Prod.mk.inj hpop).1
  · exact ⟨hb₁, Or.inr ⟨hlost.config, hlost.stage⟩⟩

/-! ## What is made of scopes -/

variable {b₁ b₂ : Builder}

/-- What leaves a scope keeps conforming. -/
theorem Leaves.stays (h : b.Leaves StaysConforming kind f b') : b.StaysConforming b' := by
  intro hb
  obtain ⟨hb', hkept, -⟩ := h.releases hb
  exact ⟨hb', hkept⟩

/-- What a scope holds may still stand in it when the stage has gone on. -/
theorem Releases.later {s₁ s₂ : OpenStage} (h : Releases kind f b₁ s₁)
    (hkept : b₁.KeptOrLost OpenStage.Settles b₂) (hs₂ : b₂.stage = some s₂) :
    b₁.Grows b₂ ∧ b₂.AllowsAll (f :: s₂.frames) f.body := by
  have hkept := hkept.resolve_right fun hlost => by
    rw [hlost.stage] at hs₂
    cases hs₂
  obtain ⟨s₀, hs₀, hsettles⟩ := hkept.exists_of_some hs₂
  obtain rfl := Option.some.inj (h.stage.symm.trans hs₀)
  exact ⟨hkept.toGrows, h.body.of_settles hkept.toGrows (.cons f.settles_refl hsettles)⟩

/-- Scopes of statements never get result types. -/
theorem Releases.kind_eq {s₁ : OpenStage} (h : Releases kind f b₁ s₁)
    (hkind : ∀ isMain result, kind ≠ .function isMain result) : f.kind = kind := by
  rcases h.settles with heq | ⟨isMain, t, hnone, -⟩
  · exact heq
  · exact absurd hnone (hkind isMain none)

/-- The statement that closes a scope goes to the scope around it. -/
theorem stays_construct {st : Stmt NodeId} (hleaves : b.Leaves StaysConforming kind f b₁)
    (h : b₁.StaysConforming b₂) (hst : kind.Closes f.body st) :
    b.StaysConforming (b₂.run (Build.emit st)).2 := by
  intro hb
  obtain ⟨hb₁, hkept, s₁, hreleases⟩ := hleaves.releases hb
  obtain ⟨hb₂, hkept'⟩ := h hb₁
  have hkind : f.kind = kind := hreleases.kind_eq fun isMain result hkind => by
    rw [hkind] at hst
    cases hst
  have hallows : ∀ s₂, b₂.stage = some s₂ → b₂.Allows s₂.frames st := fun s₂ hs₂ =>
    (hreleases.later hkept' hs₂).2.closes (hkind.symm ▸ hst)
  have hemit := trans_of StaysConforming h (Build.stays_emit hallows) hb₁
  exact ⟨hemit.1, trans_of (KeptOrLost OpenStage.Settles) hkept hemit.2⟩

/-- A branch joins the conditional before it. -/
theorem stays_join {g : Stmt NodeId → Option (Stmt NodeId)} (failure : InternalFault)
    (hleaves : b.Leaves StaysConforming .branch f b₁) (hg : Stmt.Joins f.body g) :
    b.StaysConforming (b₁.run (Build.extendLast failure g)).2 := by
  intro hb
  obtain ⟨hb₁, hkept, s₁, hreleases⟩ := hleaves.releases hb
  have hkind : f.kind = .branch := hreleases.kind_eq (by simp)
  have hbody := hreleases.body
  rw [AllowsAll, permits_cons (by simp [hkind]), Build.loopIsOpen, hkind] at hbody
  have hextend : b₁.StaysConforming (b₁.run (Build.extendLast failure g)).2 := by
    refine Build.stays_extendLast fun s hs st st' hst hallows => ?_
    obtain rfl := Option.some.inj (hreleases.stage.symm.trans hs)
    generalize f.body = body at hg hbody
    cases hg with
    | branch cond => exact hallows.addBranch hst hbody
    | otherwise => exact hallows.addElse hst hbody
  exact ⟨(hextend hb₁).1, trans_of (KeptOrLost OpenStage.Settles) hkept (hextend hb₁).2⟩

/-- The body of an entry point returns no values. -/
theorem Releases.main {s₁ : OpenStage} (h : Releases (.function true none) f b₁ s₁) :
    Stmt.BlockConforms (· = none) false f.body := by
  obtain ⟨result, hkind⟩ : ∃ result, f.kind = .function true result := by
    rcases h.settles with heq | ⟨isMain, t, hnone, hsome⟩
    · exact ⟨none, heq⟩
    · cases hnone
      exact ⟨some t, hsome⟩
  have hbody := h.body
  rw [AllowsAll, Build.loopIsOpen, hkind] at hbody
  refine Stmt.BlockConforms.imp (fun value hvalue => ?_) false f.body hbody
  obtain ⟨isMain, t, hfound, -, hmain⟩ := hvalue
  rw [Build.enclosingFunction?, hkind] at hfound
  cases hfound
  exact hmain rfl

end Builder

/-! ## Functions that are accepted -/

namespace Build

open Builder

variable {b b' : Builder} {f : Frame} {frames : List Frame} {name : String} {t : TypeId}

/-- The void type is registered. -/
theorem lt_size_of_run_void (h : b.run (intern Interning.void) = (.ok t, b')) :
    t.index < b'.types.size := by
  rw [Builder.run_intern] at h
  obtain ⟨ht, rfl⟩ := Prod.mk.inj h
  dsimp only
  unfold Interning.void Interning.insert at ht ⊢
  rw [Registry.run_bind, Registry.run_get] at ht ⊢
  dsimp only at ht ⊢
  cases hkey : b.types.withKey? "void" with
  | some u =>
      rw [hkey] at ht
      rw [← Except.ok.inj ht]
      exact (Registry.withKey?_eq_some hkey).1
  | none =>
      rw [hkey] at ht
      rw [← Except.ok.inj ht]
      show b.types.size < (b.types.push "void" .void).size
      simp

/-- A function is only accepted if it returns, unless its result type is `void`. The type is the one
that has been fixed, or else `void`. -/
theorem resultType_eq_ok (h : b.run (resultType name f) = (.ok t, b')) :
    (b'.types.isVoid t = true ∨ Stmt.blockReturns f.body = true) ∧
      ((∃ isMain, f.kind = .function isMain (some t)) ∨
        (∀ isMain u, f.kind ≠ .function isMain (some u)) ∧ t.index < b'.types.size ∧
          (b'.types.Sound → b'.types.RegistersVoid t)) := by
  -- whichever type it is, a path without a return is looked for
  have hcheck : ∀ (u : TypeId) (b₁ : Builder), b₁.run (do
      if !(← get).types.isVoid u && !Stmt.blockReturns f.body then
        throw (ShaderError.declaration (.missingReturn name))
      return u) = (.ok t, b') →
        t = u ∧ b' = b₁ ∧ (b₁.types.isVoid u = true ∨ Stmt.blockReturns f.body = true) := by
    intro u b₁ hrun
    rw [Builder.run_bind, Builder.run_get] at hrun
    dsimp only at hrun
    split at hrun
    · cases (Prod.mk.inj hrun).1
    · rename_i hreturns
      obtain ⟨ht, hb⟩ := Prod.mk.inj hrun
      refine ⟨(Except.ok.inj ht).symm, hb.symm, ?_⟩
      cases hvoid : b₁.types.isVoid u with
      | true => exact Or.inl rfl
      | false => exact Or.inr (by simpa [hvoid] using hreturns)
  unfold resultType at h
  dsimp only at h
  split at h
  · rename_i isMain u hkind
    obtain ⟨rfl, rfl, hreturns⟩ := hcheck _ _ h
    exact ⟨hreturns, Or.inl ⟨isMain, hkind⟩⟩
  · rename_i hkind
    rw [Builder.run_bind] at h
    rcases hvoid : b.run (intern Interning.void) with ⟨e | u, b₁⟩
    · rw [hvoid] at h
      cases (Prod.mk.inj h).1
    · rw [hvoid] at h
      obtain ⟨rfl, rfl, hreturns⟩ := hcheck _ _ h
      have hadds : b.Adds b' := follows_void.of_run hvoid
      exact ⟨hreturns, Or.inr ⟨fun isMain u => hkind isMain u, lt_size_of_run_void hvoid,
        fun hsound => registersVoid_of_run (.of_le hadds.types hsound) hvoid⟩⟩

/-- The scope of a function that is accepted keeps to its result. -/
theorem fulfills_of_resultType {s : OpenStage}
    (hreleases : Releases (.function false none) f b s)
    (hrun : b.run (resultType name f) = (.ok t, b')) : b'.Fulfills t f.body := by
  have hgrows : b.Grows b' := by
    have hadds := follows_resultType (R := Builder.Adds) name f b
    rw [hrun] at hadds
    exact hadds.grows
  obtain ⟨hreturns, hfixed⟩ := resultType_eq_ok hrun
  have hbody := hreleases.body
  obtain ⟨result, hkind⟩ : ∃ result, f.kind = .function false result := by
    rcases hreleases.settles with heq | ⟨isMain, u, hnone, hsome⟩
    · exact ⟨none, heq⟩
    · cases hnone
      exact ⟨some u, hsome⟩
  rw [AllowsAll, loopIsOpen, hkind] at hbody
  have hresult : t.index < b'.types.size ∧ (b'.types.Sound → b'.types.IsResult t) := by
    rcases hfixed with ⟨isMain, hfixed⟩ | ⟨-, hlt, hvoid⟩
    · have hresult := (hreleases.result isMain t hfixed).of_le hgrows.types
      exact ⟨hresult.lt_size, fun _ => hresult⟩
    · exact ⟨hlt, fun hsound => Or.inl (hvoid hsound)⟩
  refine ⟨hresult.1, hresult.2, ?_, hreturns⟩
  refine Stmt.BlockConforms.imp (fun value hvalue => ?_) false f.body hbody
  obtain ⟨isMain, u, hfound, hvalue, -⟩ := hvalue
  rw [enclosingFunction?, hkind] at hfound
  cases hfound
  -- a value has been returned, so the result type has been fixed
  rcases hfixed with ⟨isMain, hfixed⟩ | ⟨hnone, -⟩
  · rw [hkind] at hfixed
    cases hfixed
    exact hvalue.of_grows hgrows
  · exact absurd hkind (hnone _ _)

end Build

/-! ## Whatever runs -/

/-- An operation without a result leaves the builder to itself. -/
theorem Script.builder_runFrom_quietly (act : Build Unit) (s : Builder × Notes) :
    ((quietly act).runFrom s).2.1 = (s.1.run act).2 := by
  unfold quietly
  rw [Authoring.runFrom_bind, Authoring.runFrom_lift]
  rcases s.1.run act with ⟨_ | _, b⟩ <;> rfl

namespace Builder

/-- A stage that has just been opened conforms. -/
theorem conforms_opened (b : Builder) (which : Stage) : (b.opened which).Conforms := by
  intro s hs
  rw [← Option.some.inj hs]
  refine ⟨by simp, fun f hf isMain t hkind => ?_, ⟨trivial, trivial⟩, by simp, by simp⟩
  rw [List.mem_singleton.mp hf] at hkind
  cases hkind

/-- Whatever a script does, functions keep to their results. -/
instance : IsTraced StaysConforming where
  newVar := Build.stays_newVar
  inherit _ := Build.stays_modifyStage_of_same fun _ => ⟨rfl, rfl, rfl⟩
  operation {s n n' op act} hs hn hop h := by
    cases op with
    | returnValue value =>
        obtain ⟨v, hv, h⟩ := bind_eq_ok_iff.mp h
        rw [← Except.ok.inj h, Script.builder_runFrom_quietly]
        have hknows := hs.typed.knows (Script.holds_of_value hn hv)
        exact Build.stays_returnValue hs.typed.builder hknows
    | returnVoid =>
        rw [← Except.ok.inj h, Script.builder_runFrom_quietly]
        exact Build.stays_returnVoid hs.typed.builder.sound
    | _ =>
        exact (Script.follows_operation_of_not_isReturn (R := NestsConforming) hop rfl h (_, n')).2
  reset b := stays_of_lost rfl rfl
  leave h := h.stays
  stuck hkind hs hbody hpop := stays_of_stuck hkind hs hbody hpop
  construct hleaves h hst _ _ := stays_construct hleaves h hst
  extend failure hleaves hg _ := stays_join failure hleaves hg
  func {name b f b₁ b₂ t} fn hleaves hrun hresult hbody hb := by
    obtain ⟨hb₁, hkept, s₁, hreleases⟩ := hleaves.releases hb
    have hstays := Build.follows_resultType (R := StaysConforming) name f b₁
    rw [hrun] at hstays
    have hfulfills : b₂.Fulfills fn.result fn.body := by
      rw [hresult, hbody]
      exact Build.fulfills_of_resultType hreleases hrun
    have hadd := trans_of StaysConforming hstays
      (Build.stays_addFunction fun _ _ _ => hfulfills) hb₁
    exact ⟨hadd.1, trans_of (KeptOrLost OpenStage.Settles) hkept hadd.2⟩
  main {b f b₁} hleaves hb := by
    obtain ⟨hb₁, hkept, s₁, hreleases⟩ := hleaves.releases hb
    have hmain := Build.stays_setMain (b := b₁) (fun _ _ _ => hreleases.main) hb₁
    exact ⟨hmain.1, trans_of (KeptOrLost OpenStage.Settles) hkept hmain.2⟩
  finish b := stays_of_lost rfl rfl
  stage {b b' which} _ h := by
    refine stays_of_lost ?_ rfl
    exact (h (b.conforms_opened which)).2.elim (·.config) (·.config)

/-! ## Promises -/

/-- What the result type of a function promises. Unless it is `void`, every return in the body, at
any depth, gives a value of the type, and whatever the body can end with is such a value, or the
fragment is discarded. Where it is `void`, every return is empty. Jumps lie in loops of the body. -/
structure KeepsPromise (b : Builder) (fn : Function) : Prop where
  gives : b.types.isVoid fn.result = false → Stmt.BlockConforms
    (fun value => ∃ n, value = some n ∧ b.typeOf? n = some fn.result) false fn.body
  ends : b.types.isVoid fn.result = false → ∀ x, Stmt.Ends (.block fn.body) x →
    x = .discarded ∨ ∃ n, x = .returned (some n) ∧ b.typeOf? n = some fn.result
  empty : b.types.isVoid fn.result = true → Stmt.BlockConforms (· = none) false fn.body

variable {b : Builder} {fn : Function}

/-- A value of the right type is returned. -/
theorem Returns.value {t : TypeId} {value : Option NodeId} (h : b.Returns t value)
    (ht : b.types.isVoid t = false) : ∃ n, value = some n ∧ b.typeOf? n = some t := by
  cases value with
  | none => exact absurd (ht.symm.trans h.2) (by simp)
  | some n => exact ⟨n, rfl, h.2⟩

/-- No value is returned. -/
theorem Returns.eq_none {t : TypeId} {value : Option NodeId} (h : b.Returns t value)
    (ht : b.types.isVoid t = true) : value = none := by
  cases value with
  | none => rfl
  | some n => exact absurd ((Registry.isVoid_of_isSized h.1).symm.trans ht) (by simp)

/-- A body that fulfills what its function returns keeps its promise. -/
theorem Fulfills.keepsPromise (h : b.Fulfills fn.result fn.body) : b.KeepsPromise fn where
  gives ht := Stmt.BlockConforms.imp (fun _ hvalue => hvalue.value ht) false fn.body h.conforms
  ends ht x hx := by
    have hreturns : Stmt.blockReturns fn.body = true := by
      rcases h.ends with hvoid | hreturns
      · exact absurd (ht.symm.trans hvoid) (by simp)
      · exact hreturns
    have hthrough : x ≠ .through := hx.ne_through hreturns
    have hconforms : x.Conforms (b.Returns fn.result) false := hx.conforms h.conforms
    cases x with
    | through => exact absurd rfl hthrough
    | broke | continued => cases hconforms
    | discarded => exact Or.inl rfl
    | returned value =>
        obtain ⟨n, rfl, hn⟩ := Returns.value hconforms ht
        exact Or.inr ⟨n, rfl, hn⟩
  empty ht := Stmt.BlockConforms.imp (fun _ hvalue => hvalue.eq_none ht) false fn.body h.conforms

/-- A stage keeps the promises of its functions, and its entry point returns no value. -/
structure KeepsPromises (b : Builder) (functions : List Function) (main : Option Block) :
    Prop where
  functions : ∀ fn ∈ functions, b.KeepsPromise fn
  main : ∀ body, main = some body → Stmt.BlockConforms (· = none) false body

/-- What values have for types does not depend on the stage. -/
theorem KeepsPromises.closed {functions : List Function} {main : Option Block}
    (h : b.KeepsPromises functions main) :
    KeepsPromises { b with stage := none } functions main where
  functions fn hfn := { h.functions fn hfn with }
  main := h.main

/-- The functions of a stage that conforms keep their promises. -/
theorem Conforms.keepsPromises {s : OpenStage} (hb : b.Conforms) (hs : b.stage = some s) :
    b.KeepsPromises s.decls.functions s.main where
  functions fn hfn := ((hb s hs).functions fn hfn).keepsPromise
  main := (hb s hs).main

end Builder

namespace Script

open Authoring Session

/-- In every stage that is opened in a session, whatever a script does there and whichever of its
steps fail, the functions that have been defined keep their promises, and so does the stage that is
built if it is closed. -/
theorem promises_kept (s : Session) (n : Notes) (hs : s.Reachable) (hn : s.KnowsNames n)
    (which : Stage) (earlier : List VarId) (tolerant : Bool) (steps : Script) :
    (∀ result b n' st,
      (do Build.inputsFrom earlier; body (runAll tolerant steps) : Run Unit).runFrom
          (s.builder.opened which, n) = (result, (b, n')) →
      b.stage = some st →
      b.KeepsPromises st.decls.functions st.main) ∧
    ∀ built b n', (stage which earlier (body (runAll tolerant steps))).runFrom (s.builder, n) =
        (.ok built, (b, n')) →
      b.KeepsPromises built.decls.functions (some built.main) := by
  have hbody : Traces Builder.StaysConforming (body (runAll tolerant steps)) :=
    traces_body (traces_runAll tolerant steps)
  constructor
  · intro result b n' st hrun hst
    obtain ⟨s', -, hleads, hb', -⟩ := plays_authored hs hn which earlier hbody
    have hconforms : s'.builder.Conforms := (hleads.2 (s.builder.conforms_opened which)).1
    change s'.builder = (runFrom _ (s.builder.opened which, n)).2.1 at hb'
    rw [hrun] at hb'
    obtain rfl : s'.builder = b := hb'
    exact hconforms.keepsPromises hst
  · intro built b n' hrun
    -- the builder is closed where the session of the body has left it
    obtain ⟨authored, st, main, -, hleads, hst, hmain, rfl, hclosed, -⟩ :=
      exists_session_of_stage hs hn hbody hrun
    obtain rfl : b = { authored.builder with stage := none } := hclosed
    have hconforms : authored.builder.Conforms := (hleads.2 (s.builder.conforms_opened which)).1
    have hpromises := hconforms.keepsPromises hst
    rw [hmain] at hpromises
    exact hpromises.closed

/-- A function that looks for an index and one that returns nothing. Of the first, a conditional
that fails has fixed the result type, and a jump is refused where no loop is open. -/
def searching : Script :=
  [(false, .func "search" [("n", .scalar .i32)] [
      (false, .operation (.binary .lt (.named "n") (.host (.int 0))) (some "negative")),
      (true, .conditional (.named "negative") [
        (false, .operation (.returnValue (.named "n")) none),
        (false, .operation (.returnValue (.named "negative")) none)] [] none),
      (false, .forRange "i" (.host (.int 0)) (.named "n") [
        (false, .conditional (.named "negative") [(false, .operation .breakLoop none)]
          [(.named "negative", [(false, .operation .continueLoop none)])]
          (some [(false, .operation (.returnValue (.named "i")) none)]))]),
      (true, .operation .breakLoop none),
      (false, .conditional (.named "negative")
        [(false, .operation (.returnValue (.named "n")) none)] []
        (some [(false, .operation (.returnValue (.host (.int 0))) none)]))]),
    (false, .func "rest" [] [(false, .operation .returnVoid none)]),
    (false, .main [(false, .operation (.call "search" [.host (.int 3)]) none)])]

/-- A stage of a new builder that searches. -/
def searchingStage : Except ShaderError BuiltStage × (Builder × Notes) :=
  (stage .fragment [] (body (runAll false searching))).runFrom
    (Builder.new { target := .webGPU }, {})

/-- The stage with the search is built. -/
theorem isOk_searchingStage : searchingStage.1.isOk = true := by decide +kernel

/-- Both functions are defined, and keep their promises. -/
theorem searching_keepsPromises : ∃ built s', searchingStage = (.ok built, s') ∧
    built.decls.functions.map (·.name) = ["search", "rest"] ∧
    built.decls.functions.map (fun fn => s'.1.types.isVoid fn.result) = [false, true] ∧
    s'.1.KeepsPromises built.decls.functions (some built.main) := by
  obtain ⟨built, s', hstage⟩ := exists_of_isOk isOk_searchingStage
  have hfunctions : (searchingStage.1.toOption.map fun built =>
      (built.decls.functions.map (·.name),
        built.decls.functions.map fun fn => searchingStage.2.1.types.isVoid fn.result)) =
      some (["search", "rest"], [false, true]) := by
    decide +kernel
  rw [hstage] at hfunctions
  obtain ⟨hnames, hvoid⟩ := Prod.mk.inj (Option.some.inj hfunctions)
  have hkept := promises_kept { builder := .new { target := .webGPU } } {}
    (.new { target := .webGPU }) (by simp [KnowsNames]) .fragment [] false searching
  exact ⟨built, s', hstage, hnames, hvoid, hkept.2 built s'.1 s'.2 hstage⟩

end Script

end WebShader
