import WebShader.Proofs.SourceOutlines

/-!
# Control flow of printed code

A block printed in GLSL ES and in WGSL runs alike. The bodies of functions are read from the two
texts; what they are read as is spelled for the block that was recorded, part by part, and two
sources of one block can do the same actions.
-/

namespace WebShader

namespace Code

namespace Lowering

section Spelling

variable {τ : Type} (rules : Lowering τ) (d : Dialect τ)

/-- How the actions of a block are spelled. Where a loop names the condition to leave, its test is
the negated one. -/
inductive Spells : Event VarId Term → Deed → Prop where
  | declare {v : VarId} {init : Option Term} {x : Variable} {type : τ} {value : Option (Expr τ)}
      (hx : rules.var v = .ok x) (htype : rules.type x.type = .ok type)
      (hvalue : rules.optional init = .ok value) :
      Spells (.declare v init) (.act (tokens (Stmt.action d (.declare type x.name value))))
  | assign {target value : Term} {op op' : Option BinaryOp} {place v : Expr τ}
      (h : rules.assign target op value = .ok (.assign place op' v)) :
      Spells (.assign target op value) (.act (tokens (Stmt.action d (.assign place op' v))))
  | eval {e : Term} {v : Expr τ} (h : rules.eval e = .ok (.eval v)) :
      Spells (.eval e) (.act (tokens (v.text d)))
  | discardValue {e : Term} {v : Expr τ} (h : rules.eval e = .ok (.discardValue v)) :
      Spells (.eval e) (.act (tokens ("_ = " ++ v.text d)))
  | test {cond : Term} {c : Expr τ} (h : rules.expr cond = .ok c) (holds : Bool) :
      Spells (.test cond holds) (.test (tokens (d.condition (c.text d))) holds)
  | negated {cond : Term} {c : Expr τ} (h : rules.expr cond = .ok c) (holds : Bool) :
      Spells (.test cond holds) (.test (tokens ((Expr.unary .not c).text d)) (!holds))
  | bound {counter : VarId} {last : Term} {x : Variable} {l : Expr τ}
      (hx : rules.var counter = .ok x) (hlast : rules.expr last = .ok l) (holds : Bool) :
      Spells (.bound counter last holds) (.test (tokens (d.bound x.name (l.text d))) holds)
  | step {counter : VarId} {x : Variable} (hx : rules.var counter = .ok x) :
      Spells (.step counter) (.act (tokens (x.name ++ "++")))
  | give {value : Option Term} {v : Option (Expr τ)} (h : rules.optional value = .ok v) :
      Spells (.give value) (.give (tokens (Stmt.optional d "" v)))

/-- How the parts of a block are spelled, in terms of its actions. -/
inductive Spelled : Part (WebShader.Stmt Term) VarId Term → Flow.Part → Prop where
  -- statements
  | declare {v : VarId} {init : Option Term} {text : List Token}
      (h : rules.Spells d (.declare v init) (.act text)) :
      Spelled (.stmt (.declare v init)) (.stmt (.act text))
  | assign {target value : Term} {op : Option BinaryOp} {text : List Token}
      (h : rules.Spells d (.assign target op value) (.act text)) :
      Spelled (.stmt (.assign target op value)) (.stmt (.act text))
  | eval {e : Term} {text : List Token} (h : rules.Spells d (.eval e) (.act text)) :
      Spelled (.stmt (.eval e)) (.stmt (.act text))
  | conditional {cases : List (Term × List (WebShader.Stmt Term))}
      {otherwise : Option (List (WebShader.Stmt Term))} {cases' : List (List Token × List Flow)}
      {otherwise' : Option (List Flow)}
      (h : Spelled (.branches cases otherwise) (.branches cases' otherwise')) :
      Spelled (.stmt (.conditional cases otherwise)) (.stmt (.conditional cases' otherwise'))
  | forRange {counter : VarId} {first last : Term} {body : List (WebShader.Stmt Term)}
      {start bound step : List Token} {body' : List Flow}
      (hfirst : rules.Spells d (.declare counter (some first)) (.act start))
      (h : Spelled (.counting counter last body) (.counting step bound body')) :
      Spelled (.stmt (.forRange counter first last body)) (.stmt (.counting start bound step body'))
  | whileDo {cond : Term} {body : List (WebShader.Stmt Term)} {c : List Token} {body' : List Flow}
      (hcond : ∀ holds, rules.Spells d (.test cond holds) (.test c holds))
      (hbody : Spelled (.block body) (.block body')) :
      Spelled (.stmt (.whileDo cond body)) (.stmt (.whileDo c body'))
  | doWhile {body : List (WebShader.Stmt Term)} {cond : Term} {body' : List Flow} {c : List Token}
      (h : Spelled (.repeating body cond false) (.repeating body' c false)) :
      Spelled (.stmt (.doWhile body cond)) (.stmt (.doWhile body' c))
  | loop {body : List (WebShader.Stmt Term)} {cond : Term} {body' : List Flow} {c : List Token}
      (h : Spelled (.repeating body cond false) (.repeating body' c true)) :
      Spelled (.stmt (.doWhile body cond)) (.stmt (.loop body' c))
  | block {body : List (WebShader.Stmt Term)} {body' : List Flow}
      (h : Spelled (.block body) (.block body')) :
      Spelled (.stmt (.block body)) (.stmt (.block body'))
  | returnWith {value : Option Term} {v : List Token} (h : rules.Spells d (.give value) (.give v)) :
      Spelled (.stmt (.returnWith value)) (.stmt (.give v))
  | breakLoop : Spelled (.stmt .breakLoop) (.stmt .breakLoop)
  | continueLoop : Spelled (.stmt .continueLoop) (.stmt .continueLoop)
  | discard : Spelled (.stmt .discard) (.stmt .discard)
  -- blocks
  | nil : Spelled (.block []) (.block [])
  | cons {s : WebShader.Stmt Term} {rest : List (WebShader.Stmt Term)} {s' : Flow}
      {rest' : List Flow} (hs : Spelled (.stmt s) (.stmt s'))
      (hrest : Spelled (.block rest) (.block rest')) :
      Spelled (.block (s :: rest)) (.block (s' :: rest'))
  -- conditionals
  | noBranch : Spelled (.branches [] none) (.branches [] none)
  | otherwise {body : List (WebShader.Stmt Term)} {body' : List Flow}
      (h : Spelled (.block body) (.block body')) :
      Spelled (.branches [] (some body)) (.branches [] (some body'))
  | branch {cond : Term} {body : List (WebShader.Stmt Term)}
      {rest : List (Term × List (WebShader.Stmt Term))}
      {otherwise : Option (List (WebShader.Stmt Term))} {c : List Token} {body' : List Flow}
      {rest' : List (List Token × List Flow)} {otherwise' : Option (List Flow)}
      (hcond : ∀ holds, rules.Spells d (.test cond holds) (.test c holds))
      (hbody : Spelled (.block body) (.block body'))
      (hrest : Spelled (.branches rest otherwise) (.branches rest' otherwise')) :
      Spelled (.branches ((cond, body) :: rest) otherwise)
        (.branches ((c, body') :: rest') otherwise')
  -- loops
  | counting {counter : VarId} {last : Term} {body : List (WebShader.Stmt Term)}
      {step bound : List Token} {body' : List Flow}
      (hbound : ∀ holds, rules.Spells d (.bound counter last holds) (.test bound holds))
      (hstep : rules.Spells d (.step counter) (.act step))
      (hbody : Spelled (.block body) (.block body')) :
      Spelled (.counting counter last body) (.counting step bound body')
  | repeating {body : List (WebShader.Stmt Term)} {cond : Term} {body' : List Flow}
      {c : List Token} {stop : Bool} (hdone : rules.Spells d (.test cond false) (.test c stop))
      (hnext : rules.Spells d (.test cond true) (.test c (!stop)))
      (hbody : Spelled (.block body) (.block body')) :
      Spelled (.repeating body cond false) (.repeating body' c stop)

end Spelling

/-! ## Two sources of one block -/

section Same

variable {τ τ' : Type} (rules : Lowering τ) (d : Dialect τ) (rules' : Lowering τ') (d' : Dialect τ')

/-- Two actions are spelled for one action of a block. -/
def Same (e e' : Deed) : Prop := ∃ a, rules.Spells d a e ∧ rules'.Spells d' a e'

variable {rules d rules' d'}

/-- What two sources say alike, each says like the other. -/
theorem Same.symm {e e' : Deed} (h : rules.Same d rules' d' e e') :
    rules'.Same d' rules d e' e := by
  obtain ⟨a, ha, ha'⟩ := h
  exact ⟨a, ha', ha⟩

/-- What one source of a block can do, the other can do as well. -/
theorem runs_of_spelled {p : Flow.Part} {t : List Deed} {x : Exit} (h : Flow.Runs p t x) :
    ∀ {a q}, rules.Spelled d a p → rules'.Spelled d' a q →
      ∃ t', Flow.Runs q t' x ∧ List.Forall₂ (rules.Same d rules' d') t t' := by
  induction h with
  | cut p =>
      intro a q _ _
      exact ⟨[], .cut q, .nil⟩
  | act text =>
      intro a q hp hq
      cases hp with
      | declare hp =>
          cases hq with
          | declare hq => exact ⟨_, .act _, .cons ⟨_, hp, hq⟩ .nil⟩
      | assign hp =>
          cases hq with
          | assign hq => exact ⟨_, .act _, .cons ⟨_, hp, hq⟩ .nil⟩
      | eval hp =>
          cases hq with
          | eval hq => exact ⟨_, .act _, .cons ⟨_, hp, hq⟩ .nil⟩
  | conditional _ ih =>
      intro a q hp hq
      cases hp with
      | conditional hp =>
          cases hq with
          | conditional hq =>
              obtain ⟨t', ht, hsame⟩ := ih hp hq
              exact ⟨t', .conditional ht, hsame⟩
  | counting _ ih =>
      intro a q hp hq
      cases hp with
      | forRange hfirst hp =>
          cases hq with
          | forRange hfirst' hq =>
              obtain ⟨t', ht, hsame⟩ := ih hp hq
              exact ⟨_, .counting ht, .cons ⟨_, hfirst, hfirst'⟩ hsame⟩
  | whileDone cond body =>
      intro a q hp hq
      cases hp with
      | whileDo hcond _ =>
          cases hq with
          | whileDo hcond' _ =>
              exact ⟨_, .whileDone _ _, .cons ⟨_, hcond false, hcond' false⟩ .nil⟩
  | whileLeft _ hx ih =>
      intro a q hp hq
      cases hp with
      | whileDo hcond hbody =>
          cases hq with
          | whileDo hcond' hbody' =>
              obtain ⟨t', ht, hsame⟩ := ih hbody hbody'
              exact ⟨_, .whileLeft ht hx, .cons ⟨_, hcond true, hcond' true⟩ hsame⟩
  | whileNext _ hx _ ih ih' =>
      intro a q hp hq
      obtain ⟨t', ht', hsame'⟩ := ih' hp hq
      cases hp with
      | whileDo hcond hbody =>
          cases hq with
          | whileDo hcond' hbody' =>
              obtain ⟨t, ht, hsame⟩ := ih hbody hbody'
              exact ⟨_, .whileNext ht hx ht',
                .cons ⟨_, hcond true, hcond' true⟩ (List.rel_append hsame hsame')⟩
  -- a loop that tests at its end is the one statement that the two sources may write differently
  | doWhile _ ih =>
      intro a q hp hq
      cases hp with
      | doWhile hp =>
          cases hq with
          | doWhile hq =>
              obtain ⟨t', ht, hsame⟩ := ih hp hq
              exact ⟨t', .doWhile ht, hsame⟩
          | loop hq =>
              obtain ⟨t', ht, hsame⟩ := ih hp hq
              exact ⟨t', .loop ht, hsame⟩
  | loop _ ih =>
      intro a q hp hq
      cases hp with
      | loop hp =>
          cases hq with
          | doWhile hq =>
              obtain ⟨t', ht, hsame⟩ := ih hp hq
              exact ⟨t', .doWhile ht, hsame⟩
          | loop hq =>
              obtain ⟨t', ht, hsame⟩ := ih hp hq
              exact ⟨t', .loop ht, hsame⟩
  | block _ ih =>
      intro a q hp hq
      cases hp with
      | block hp =>
          cases hq with
          | block hq =>
              obtain ⟨t', ht, hsame⟩ := ih hp hq
              exact ⟨t', .block ht, hsame⟩
  | give value =>
      intro a q hp hq
      cases hp with
      | returnWith hp =>
          cases hq with
          | returnWith hq => exact ⟨_, .give _, .cons ⟨_, hp, hq⟩ .nil⟩
  | breakLoop =>
      intro a q hp hq
      cases hp
      cases hq
      exact ⟨[], .breakLoop, .nil⟩
  | continueLoop =>
      intro a q hp hq
      cases hp
      cases hq
      exact ⟨[], .continueLoop, .nil⟩
  | nil =>
      intro a q hp hq
      cases hp
      cases hq
      exact ⟨[], .nil, .nil⟩
  | left _ hx ih =>
      intro a q hp hq
      cases hp with
      | cons hs _ =>
          cases hq with
          | cons hs' _ =>
              obtain ⟨t', ht, hsame⟩ := ih hs hs'
              exact ⟨t', .left ht hx, hsame⟩
  | next _ _ ih ih' =>
      intro a q hp hq
      cases hp with
      | cons hs hrest =>
          cases hq with
          | cons hs' hrest' =>
              obtain ⟨t, ht, hsame⟩ := ih hs hs'
              obtain ⟨t', ht', hsame'⟩ := ih' hrest hrest'
              exact ⟨t ++ t', .next ht ht', List.rel_append hsame hsame'⟩
  | noBranch =>
      intro a q hp hq
      cases hp
      cases hq
      exact ⟨[], .noBranch, .nil⟩
  | otherwise _ ih =>
      intro a q hp hq
      cases hp with
      | otherwise hp =>
          cases hq with
          | otherwise hq =>
              obtain ⟨t', ht, hsame⟩ := ih hp hq
              exact ⟨t', .otherwise ht, hsame⟩
  | taken _ ih =>
      intro a q hp hq
      cases hp with
      | branch hcond hbody _ =>
          cases hq with
          | branch hcond' hbody' _ =>
              obtain ⟨t', ht, hsame⟩ := ih hbody hbody'
              exact ⟨_, .taken ht, .cons ⟨_, hcond true, hcond' true⟩ hsame⟩
  | skipped _ ih =>
      intro a q hp hq
      cases hp with
      | branch hcond _ hrest =>
          cases hq with
          | branch hcond' _ hrest' =>
              obtain ⟨t', ht, hsame⟩ := ih hrest hrest'
              exact ⟨_, .skipped ht, .cons ⟨_, hcond false, hcond' false⟩ hsame⟩
  | counted counter last body =>
      intro a q hp hq
      cases hp with
      | counting hbound _ _ =>
          cases hq with
          | counting hbound' _ _ =>
              exact ⟨_, .counted _ _ _, .cons ⟨_, hbound false, hbound' false⟩ .nil⟩
  | countLeft _ hx ih =>
      intro a q hp hq
      cases hp with
      | counting hbound _ hbody =>
          cases hq with
          | counting hbound' _ hbody' =>
              obtain ⟨t', ht, hsame⟩ := ih hbody hbody'
              exact ⟨_, .countLeft ht hx, .cons ⟨_, hbound true, hbound' true⟩ hsame⟩
  | countNext _ hx _ ih ih' =>
      intro a q hp hq
      obtain ⟨t', ht', hsame'⟩ := ih' hp hq
      cases hp with
      | counting hbound hstep hbody =>
          cases hq with
          | counting hbound' hstep' hbody' =>
              obtain ⟨t, ht, hsame⟩ := ih hbody hbody'
              exact ⟨_, .countNext ht hx ht', .cons ⟨_, hbound true, hbound' true⟩
                (List.rel_append hsame (.cons ⟨_, hstep, hstep'⟩ hsame'))⟩
  | repeatLeft _ hx ih =>
      intro a q hp hq
      cases hp with
      | repeating _ _ hbody =>
          cases hq with
          | repeating _ _ hbody' =>
              obtain ⟨t', ht, hsame⟩ := ih hbody hbody'
              exact ⟨t', .repeatLeft ht hx, hsame⟩
  | repeatDone _ hx ih =>
      intro a q hp hq
      cases hp with
      | repeating hdone _ hbody =>
          cases hq with
          | repeating hdone' _ hbody' =>
              obtain ⟨t', ht, hsame⟩ := ih hbody hbody'
              exact ⟨_, .repeatDone ht hx, List.rel_append hsame (.cons ⟨_, hdone, hdone'⟩ .nil)⟩
  | repeatNext _ hx _ ih ih' =>
      intro a q hp hq
      obtain ⟨t', ht', hsame'⟩ := ih' hp hq
      cases hp with
      | repeating _ hnext hbody =>
          cases hq with
          | repeating _ hnext' hbody' =>
              obtain ⟨t, ht, hsame⟩ := ih hbody hbody'
              exact ⟨_, .repeatNext ht hx ht',
                List.rel_append hsame (.cons ⟨_, hnext, hnext'⟩ hsame')⟩

end Same

/-! ## Lowered blocks -/

/-- Rules that keep assignments and evaluations single statements, and spell a loop that tests its
condition at the end in one of two ways. -/
structure KeepsFlow {τ : Type} (rules : Lowering τ) : Prop where
  assign : ∀ {target op value s}, rules.assign target op value = .ok s →
    ∃ place op' v, s = .assign place op' v
  eval : ∀ {e s}, rules.eval e = .ok s → ∃ v, s = .eval v ∨ s = .discardValue v
  doWhile : ∀ body cond, rules.doWhile body cond = .doWhile body cond ∨
    rules.doWhile body cond = .loop body (.unary .not cond)

/-- Rules that keep scopes keep the flow of control, where their loops do. -/
theorem KeepsScopes.keepsFlow {τ : Type} {rules : Lowering τ} {nameOf : VarId → String}
    {spelling calling : Term → List String} {testsInside : Bool}
    (h : rules.KeepsScopes nameOf spelling calling testsInside)
    (hloop : ∀ body cond, rules.doWhile body cond = .doWhile body cond ∨
      rules.doWhile body cond = .loop body (.unary .not cond)) : rules.KeepsFlow where
  assign hcode := by
    obtain ⟨place, op', v, hshape, -⟩ := h.assign hcode
    exact ⟨place, op', v, hshape⟩
  eval hcode := by
    obtain ⟨v, hshape, -⟩ := h.eval hcode
    exact ⟨v, hshape⟩
  doWhile := hloop

section Lowered

variable {τ : Type} {rules : Lowering τ} {d : Dialect τ}

mutual

/-- A statement is spelled as its flow, by recursion on the statement. -/
theorem spelled_stmt (h : rules.KeepsFlow) :
    (s : WebShader.Stmt Term) → {code : Stmt τ} → rules.stmt s = .ok code →
      rules.Spelled d (.stmt s) (.stmt (code.flow d))
  | .declare v init, code, hcode => by
      simp only [stmt, bind_eq_ok_iff] at hcode
      obtain ⟨x, hx, type, htype, value, hvalue, hcode⟩ := hcode
      rw [← Except.ok.inj hcode]
      exact .declare (.declare hx htype hvalue)
  | .assign target op value, code, hcode => by
      obtain ⟨place, op', v, rfl⟩ := h.assign hcode
      exact .assign (.assign hcode)
  | .eval e, code, hcode => by
      obtain ⟨v, rfl | rfl⟩ := h.eval hcode
      · exact .eval (.eval hcode)
      · exact .eval (.discardValue hcode)
  | .conditional cases none, code, hcode => by
      simp only [stmt, bind_eq_ok_iff] at hcode
      obtain ⟨cases', hcases, hcode⟩ := hcode
      rw [← Except.ok.inj hcode]
      exact .conditional (spelled_branches h .noBranch cases hcases)
  | .conditional cases (some otherwise), code, hcode => by
      simp only [stmt, bind_eq_ok_iff] at hcode
      obtain ⟨cases', hcases, otherwise', hotherwise, hcode⟩ := hcode
      rw [← Except.ok.inj hcode]
      have hlast := spelled_block h otherwise hotherwise
      exact .conditional (spelled_branches h (.otherwise hlast) cases hcases)
  | .forRange counter first last body, code, hcode => by
      simp only [stmt, bind_eq_ok_iff] at hcode
      obtain ⟨x, hx, type, htype, first', hfirst, last', hlast, body', hbody, hcode⟩ := hcode
      rw [← Except.ok.inj hcode]
      have hinit : rules.optional (some first) = .ok (some first') := by
        rw [optional, hfirst]
        rfl
      exact .forRange (.declare hx htype hinit)
        (.counting (.bound hx hlast) (.step hx) (spelled_block h body hbody))
  | .whileDo cond body, code, hcode => by
      simp only [stmt, bind_eq_ok_iff] at hcode
      obtain ⟨cond', hcond, body', hbody, hcode⟩ := hcode
      rw [← Except.ok.inj hcode]
      exact .whileDo (.test hcond) (spelled_block h body hbody)
  | .doWhile body cond, code, hcode => by
      simp only [stmt, bind_eq_ok_iff] at hcode
      obtain ⟨body', hbody, cond', hcond, hcode⟩ := hcode
      have hblock := spelled_block h body hbody
      rw [← Except.ok.inj hcode]
      rcases h.doWhile body' cond' with hloop | hloop
      · rw [hloop]
        exact .doWhile (.repeating (.test hcond false) (.test hcond true) hblock)
      · rw [hloop]
        exact .loop (.repeating (.negated hcond false) (.negated hcond true) hblock)
  | .block body, code, hcode => by
      simp only [stmt, bind_eq_ok_iff] at hcode
      obtain ⟨body', hbody, hcode⟩ := hcode
      rw [← Except.ok.inj hcode]
      exact .block (spelled_block h body hbody)
  | .returnWith value, code, hcode => by
      simp only [stmt, bind_eq_ok_iff] at hcode
      obtain ⟨value', hvalue, hcode⟩ := hcode
      rw [← Except.ok.inj hcode]
      exact .returnWith (.give hvalue)
  | .breakLoop, code, hcode => by
      rw [← Except.ok.inj hcode]
      exact .breakLoop
  | .continueLoop, code, hcode => by
      rw [← Except.ok.inj hcode]
      exact .continueLoop
  | .discard, code, hcode => by
      rw [← Except.ok.inj hcode]
      exact .discard
termination_by structural s => s

/-- A lowered block is spelled action by action. -/
theorem spelled_block (h : rules.KeepsFlow) :
    (body : List (WebShader.Stmt Term)) → {code : List (Stmt τ)} → rules.block body = .ok code →
      rules.Spelled d (.block body) (.block (Stmt.blockFlows d code))
  | [], code, hcode => by
      rw [← Except.ok.inj hcode]
      exact .nil
  | s :: rest, code, hcode => by
      simp only [block, bind_eq_ok_iff] at hcode
      obtain ⟨s', hs, rest', hrest, hcode⟩ := hcode
      rw [← Except.ok.inj hcode]
      exact .cons (spelled_stmt h s hs) (spelled_block h rest hrest)
termination_by structural body => body

/-- The branches of a conditional are spelled as nested choices, by recursion on them. -/
theorem spelled_branches (h : rules.KeepsFlow) {otherwise : Option (List (WebShader.Stmt Term))}
    {otherwise' : Option (List Flow)}
    (hotherwise : rules.Spelled d (.branches [] otherwise) (.branches [] otherwise')) :
    (cases : List (Term × List (WebShader.Stmt Term))) → {code : List (Expr τ × List (Stmt τ))} →
      rules.branches cases = .ok code →
        rules.Spelled d (.branches cases otherwise)
          (.branches (Stmt.branchFlows d code) otherwise')
  | [], code, hcode => by
      rw [← Except.ok.inj hcode]
      exact hotherwise
  | (cond, body) :: rest, code, hcode => by
      simp only [branches, bind_eq_ok_iff] at hcode
      obtain ⟨cond', hcond, body', hbody, rest', hrest, hcode⟩ := hcode
      rw [← Except.ok.inj hcode]
      exact .branch (.test hcond) (spelled_block h body hbody)
        (spelled_branches h hotherwise rest hrest)
termination_by structural cases => cases

end

end Lowered

end Lowering

end Code

/-! ## Functions of sources -/

/-- Whether a block is the body of a function that the author wrote, as told by its head: in WGSL
the entry point has attributes, and in GLSL ES parameters stand before no other blocks. -/
def Target.isFunction (target : Target) (head : List Token) : Bool :=
  if target = .webGPU then head.head? == some (.word "fn") else head.getLast? == some (.sign ")")

/-- The items of the body of a function. -/
def Item.body? (target : Target) : Item → Option (List Item)
  | .block head items _ => if target.isFunction head then some items else none
  | .line _ => none

/-- The bodies of the functions of a source, in order. -/
def Target.readBodies? (target : Target) (source : String) : Option (List (List Flow)) :=
  (Outline.ofText? source).bind fun items => (items.filterMap (Item.body? target)).mapM flows?

/-- The bodies of the functions of a stage and that of its entry point. -/
def ResolvedStage.bodies (s : ResolvedStage) : List (List (Stmt Term)) :=
  s.functions.map (·.2) ++ [s.main]

section Bodies

variable {s : ResolvedStage} {source : String}

/-- Bodies that are legible are read as what they are printed for. -/
theorem mapM_flows? {τ : Type} {d : Code.Dialect τ} {ok : String → Prop} {okType : τ → Prop}
    (hd : d.IsReadable ok okType) {bodies : List (List (Code.Stmt τ))}
    (h : ∀ body ∈ bodies, ∀ s ∈ body, s.Legible ok okType) :
    (bodies.map (Code.Stmt.blockItems d)).mapM flows? =
      some (bodies.map (Code.Stmt.blockFlows d)) := by
  induction bodies with
  | nil => rfl
  | cons body rest ih =>
      rw [List.forall_mem_cons] at h
      rw [List.map_cons, List.mapM_cons, Code.Stmt.flows?_block hd h.1, ih h.2]
      rfl

end Bodies

/-! ## The two languages -/

namespace Glsl

/-- The lowering to GLSL ES keeps the flow of each statement. -/
theorem keepsFlow_lowering (s : ResolvedStage) : (lowering s).KeepsFlow :=
  (keepsScopes_lowering s).keepsFlow fun _ _ => Or.inl rfl

section Bodies

variable {target : Target} (htarget : target ≠ .webGPU)
include htarget

/-- What ends with a name is not the head of a function. -/
theorem body?_of_word {text n : String} (before : String) (htext : text = before ++ " ")
    (hn : isName n = true)
    (items : List Item) (last : List Char) :
    Item.body? target (.block (tokens (text ++ n)) items last) = none := by
  rw [Item.body?, htext, tokens_spaced, tokens_isName hn, Target.isFunction, if_neg htarget,
    List.getLast?_concat]
  rfl

/-- The body of a function is found in its block. -/
theorem body?_function (f : Function) :
    f.item.body? target = some (Code.Stmt.blockItems dialect f.body) := by
  obtain ⟨before, hhead⟩ := f.exists_tokens_head
  rw [Function.item, Item.body?, hhead, Target.isFunction, if_neg htarget, List.getLast?_concat]
  rfl

/-- The bodies of a source are those of its functions, the entry point being the last one. -/
theorem Module.IsLegible.bodies {m : Module} (h : m.IsLegible IsFreeName) :
    m.items.filterMap (Item.body? target) =
      ((m.functions ++ [m.entry]).map (·.body)).map (Code.Stmt.blockItems dialect) := by
  have hstructs : (m.structs.flatMap Struct.items).filterMap (Item.body? target) = [] := by
    rw [List.filterMap_eq_nil_iff]
    intro i hi
    obtain ⟨d, hd, hi⟩ := List.mem_flatMap.mp hi
    rw [Struct.items, List.mem_pair] at hi
    rcases hi with rfl | rfl
    · exact body?_of_word htarget "struct" rfl (h.structs d hd).name.1 _ _
    · rfl
  have huniforms : (m.uniforms.flatMap Uniform.items).filterMap (Item.body? target) = [] := by
    rw [List.filterMap_eq_nil_iff]
    intro i hi
    obtain ⟨u, hu, hi⟩ := List.mem_flatMap.mp hi
    have hlegible := h.uniforms u hu
    cases u with
    | block d name =>
        rw [Uniform.items, List.mem_pair] at hi
        rcases hi with rfl | rfl
        · exact body?_of_word htarget "layout(std140) uniform" rfl hlegible.1.name.1 _ _
        · rfl
    | plain f =>
        rw [Uniform.items, List.mem_singleton] at hi
        rw [hi]
        rfl
  have hfunctions : ((m.functions ++ [m.entry]).map Function.item).filterMap (Item.body? target) =
      ((m.functions ++ [m.entry]).map (·.body)).map (Code.Stmt.blockItems dialect) := by
    rw [List.filterMap_map, List.map_map, ← List.filterMap_eq_map]
    exact List.filterMap_congr fun f _ => body?_function htarget f
  have hlines : ∀ {α : Type} (f : α → Item) (xs : List α), (∀ x, (f x).body? target = none) →
      (xs.map f).filterMap (Item.body? target) = [] := by
    intro α f xs hf
    rw [List.filterMap_eq_nil_iff, List.forall_mem_map]
    exact fun x _ => hf x
  simp only [items, headerItems, List.filterMap_append, hstructs, huniforms, hfunctions]
  rw [hlines _ _ fun _ => rfl, hlines _ _ fun _ => rfl, hlines _ _ fun _ => rfl]
  rfl

end Bodies

/-- The bodies that are read from a source in GLSL ES are spelled for those of its stage. -/
theorem exists_bodies {s : ResolvedStage} {source : String} (htarget : s.target ≠ .webGPU)
    (hs : s.HasNames IsFreeName) (hb : s.HasBranches) (h : s.text = .ok source) :
    ∃ flows, s.target.readBodies? source = some flows ∧
      List.Forall₂ (fun body flow => (lowering s).Spelled dialect (.block body) (.block flow))
        s.bodies flows := by
  obtain ⟨m, hm, hlegible, houtline⟩ := exists_outline admits_isFreeName hs hb htarget h
  have hof := Module.of_module hm
  refine ⟨((m.functions ++ [m.entry]).map (·.body)).map (Code.Stmt.blockFlows dialect), ?_, ?_⟩
  · rw [Target.readBodies?, houtline, Option.bind_some, hlegible.bodies htarget]
    exact mapM_flows? (isReadable_dialect fun _ hn => IsFreeName.phrase hn)
      (List.forall_mem_map.mpr fun f hf => (hlegible.functions f hf).body)
  · rw [ResolvedStage.bodies, List.map_append, List.map_append]
    refine List.rel_append ?_ (.cons ?_ .nil)
    · rw [List.forall₂_map_left_iff, List.forall₂_map_right_iff, List.forall₂_map_right_iff]
      refine hof.functions.imp fun f g hg => ?_
      simp only [function, bind_eq_ok_iff] at hg
      obtain ⟨_, -, _, -, body, hbody, hg⟩ := hg
      rw [← Except.ok.inj hg]
      exact Code.Lowering.spelled_block (keepsFlow_lowering s) f.2 hbody
    · exact Code.Lowering.spelled_block (keepsFlow_lowering s) s.main hof.main

end Glsl

namespace Wgsl

/-- The lowering to WGSL keeps the flow of each statement. -/
theorem keepsFlow_lowering (s : ResolvedStage) : (lowering s).KeepsFlow :=
  (keepsScopes_lowering s).keepsFlow fun _ _ => Or.inr rfl

/-- A struct has no body. -/
theorem body?_struct (width : Nat) (d : Struct) : (d.item width).body? .webGPU = none := by
  rw [Struct.item, Item.body?, tokens_struct]
  rfl

/-- The body of a function is found in its block. -/
theorem body?_function (f : Function) :
    (f.item "").body? .webGPU = some (Code.Stmt.blockItems dialect f.body) := by
  obtain ⟨more, hhead⟩ := f.exists_tokens_head
  rw [Function.item, Item.body?, String.empty_append, hhead]
  rfl

/-- The entry point has attributes. -/
theorem body?_entry (m : Module) :
    (m.entry.item (entryAttributes m.stage m.workgroupSize ++ "\n")).body? .webGPU = none := by
  obtain ⟨more, hhead⟩ := m.exists_tokens_entry
  rw [Function.item, Item.body?, hhead]
  rfl

/-- The bodies of a source are those of its functions and the one that its author wrote for the
entry point. -/
theorem Module.bodies_items (width : Nat) (m : Module) :
    (m.items width).filterMap (Item.body? .webGPU) =
      ((m.functions ++ [m.authored]).map (·.body)).map (Code.Stmt.blockItems dialect) := by
  have hnone : ∀ {α : Type} (f : α → Item) (xs : List α), (∀ x, (f x).body? .webGPU = none) →
      (xs.map f).filterMap (Item.body? .webGPU) = [] := by
    intro α f xs hf
    rw [List.filterMap_eq_nil_iff, List.forall_mem_map]
    exact fun x _ => hf x
  have hhalf : (if m.usesHalf then [Item.line (tokens "enable f16")] else []).filterMap
      (Item.body? .webGPU) = [] := by
    split <;> rfl
  have hfunctions : ((m.functions ++ [m.authored]).map (Function.item "")).filterMap
      (Item.body? .webGPU) =
        ((m.functions ++ [m.authored]).map (·.body)).map (Code.Stmt.blockItems dialect) := by
    rw [List.filterMap_map, List.map_map, ← List.filterMap_eq_map]
    exact List.filterMap_congr fun f _ => body?_function f
  have hentry : [m.entry.item (entryAttributes m.stage m.workgroupSize ++ "\n")].filterMap
      (Item.body? .webGPU) = [] := by
    rw [List.filterMap_cons_none (body?_entry m), List.filterMap_nil]
  simp only [items, List.filterMap_append, hhalf, hfunctions, hentry]
  rw [hnone _ _ (body?_struct width), hnone _ _ (body?_struct 2), hnone _ _ fun _ => rfl,
    hnone _ _ fun _ => rfl]
  simp

/-- The bodies that are read from a source in WGSL are spelled for those of its stage. -/
theorem exists_bodies {s : ResolvedStage} {source : String} (htarget : s.target = .webGPU)
    (hs : s.HasNames IsFreeName) (hb : s.HasBranches) (h : s.text = .ok source) :
    ∃ flows, s.target.readBodies? source = some flows ∧
      List.Forall₂ (fun body flow => (lowering s).Spelled dialect (.block body) (.block flow))
        s.bodies flows := by
  obtain ⟨m, hm, hlegible, houtline⟩ := exists_outline admits_isFreeName hs hb htarget h
  have hof := Module.of_module hm
  refine ⟨((m.functions ++ [m.authored]).map (·.body)).map (Code.Stmt.blockFlows dialect), ?_, ?_⟩
  · rw [Target.readBodies?, houtline, Option.bind_some, htarget, Module.bodies_items]
    exact mapM_flows? (isReadable_dialect fun _ hn => IsFreeName.phrase hn)
      (List.forall_mem_map.mpr fun f hf => (hlegible.functions f hf).body)
  · rw [ResolvedStage.bodies, List.map_append, List.map_append]
    refine List.rel_append ?_ (.cons ?_ .nil)
    · rw [List.forall₂_map_left_iff, List.forall₂_map_right_iff, List.forall₂_map_right_iff]
      exact hof.functions.imp fun f g hg =>
        Code.Lowering.spelled_block (keepsFlow_lowering s) f.2 (function_eq_ok hg).2.2
    · exact Code.Lowering.spelled_block (keepsFlow_lowering s) s.main hof.main

end Wgsl

/-! ## Agreement -/

/-- Whatever one block can do, up to any point and with whatever outcomes of its tests, the other
can do as well. -/
def Flow.RunsAlike (same : Deed → Deed → Prop) (body body' : List Flow) : Prop :=
  ∀ x : Exit,
    (∀ t, Runs (.block body) t x → ∃ t', Runs (.block body') t' x ∧ List.Forall₂ same t t') ∧
    ∀ t', Runs (.block body') t' x → ∃ t, Runs (.block body) t x ∧ List.Forall₂ same t t'

/-- Two actions of a source in GLSL ES and of one in WGSL are spelled for one recorded action. -/
abbrev ResolvedStage.SameDeed (s s' : ResolvedStage) : Deed → Deed → Prop :=
  (Glsl.lowering s).Same Glsl.dialect (Wgsl.lowering s') Wgsl.dialect

/-- The bodies of a source in GLSL ES and of one in WGSL can be read from their texts: one for every
function of the stage, and the one of the entry point. Two that have been printed for one recorded
block run alike. Names are asked not to be words that start statements. -/
theorem executions_agree {s s' : ResolvedStage} {source source' : String}
    (hglsl : s.target ≠ .webGPU) (hwgsl : s'.target = .webGPU) (hs : s.HasNames IsFreeName)
    (hs' : s'.HasNames IsFreeName) (hb : s.HasBranches) (hb' : s'.HasBranches)
    (h : s.text = .ok source) (h' : s'.text = .ok source') :
    ∃ flows flows', s.target.readBodies? source = some flows ∧
      s'.target.readBodies? source' = some flows' ∧ flows.length = s.bodies.length ∧
      flows'.length = s'.bodies.length ∧
      ∀ (i j : Nat) (body : List (Stmt Term)) (g w : List Flow), s.bodies[i]? = some body →
        s'.bodies[j]? = some body → flows[i]? = some g → flows'[j]? = some w →
          Flow.RunsAlike (s.SameDeed s') g w := by
  obtain ⟨flows, hread, hspelled⟩ := Glsl.exists_bodies hglsl hs hb h
  obtain ⟨flows', hread', hspelled'⟩ := Wgsl.exists_bodies hwgsl hs' hb' h'
  refine ⟨flows, flows', hread, hread', hspelled.length_eq.symm, hspelled'.length_eq.symm, ?_⟩
  -- both readings are of the same block, the one at `i` in one source and at `j` in the other
  intro i j body g w hi hj hg hw x
  obtain ⟨body₁, hbody₁, hg⟩ := getElem?_of_forall₂ hspelled hg
  obtain rfl := Option.some.inj (hi.symm.trans hbody₁)
  obtain ⟨body₂, hbody₂, hw⟩ := getElem?_of_forall₂ hspelled' hw
  obtain rfl := Option.some.inj (hj.symm.trans hbody₂)
  constructor
  · intro t ht
    exact Code.Lowering.runs_of_spelled ht hg hw
  · intro t' ht'
    obtain ⟨t, ht, hsame⟩ := Code.Lowering.runs_of_spelled ht' hw hg
    exact ⟨t, ht, (hsame.imp fun _ _ h => h.symm).flip⟩

/-! ### A loop that goes on -/

/-- A vertex stage whose entry point has a loop: its body goes on to the test at the end, or leaves
the loop. -/
def goingOn (target : Target) : ResolvedStage where
  target := target
  indentWidth := 2
  types := ⟨#[⟨"bool", .primitive ⟨.bool, 1, 1⟩⟩], 0⟩
  vars := #[]
  plan := {}
  decls := { stage := .vertex }
  constants := []
  functions := []
  main := [.doWhile [.conditional [(.literal ⟨0⟩ (.bool true), [.continueLoop])] none, .breakLoop]
    (.literal ⟨0⟩ (.bool false))]

/-- The source of the loop in GLSL ES. -/
def goingOnGlsl : String :=
  "#version 300 es\nprecision highp float;\nprecision highp int;\n\n\nvoid main() \x7b\n" ++
    "  do \x7b\n    if (true) \x7b\n      continue;\n    \x7d\n    break;\n" ++
      "  \x7d while (false);\n\x7d\n"

/-- The source of the loop in WGSL. -/
def goingOnWgsl : String :=
  "struct VertexOutput \x7b\n  @builtin(position) builtin_position: vec4<f32>,\n\x7d\n\n" ++
    "var<private> stage_out: VertexOutput;\n\nfn stage_main() \x7b\n" ++
      "  loop \x7b\n    if true \x7b\n      continue;\n    \x7d\n    break;\n" ++
        "    continuing \x7b\n      break if !(false);\n    \x7d\n  \x7d\n\x7d\n\n" ++
          "@vertex\nfn main() -> VertexOutput \x7b\n  stage_main();\n  return stage_out;\n\x7d\n"

/-- The names of the stage with the loop. -/
theorem hasNames_goingOn (target : Target) : (goingOn target).HasNames IsFreeName where
  vars d hd := absurd hd (Array.not_mem_empty d)
  constants := List.forall_mem_nil _
  structs t st hst := by
    have hkind : ∀ i, (goingOn target).types.kind ⟨i⟩ ≠ .struct st := by
      intro i
      match i with
      | 0 => simp [goingOn, Registry.kind]
      | i + 1 => simp [goingOn, Registry.kind]
    exact absurd hst (hkind t.index)
  functions := List.forall_mem_nil _
  defined := List.forall_mem_nil _
  records := List.forall_mem_nil _

/-- The conditionals of the stage with the loop. -/
theorem hasBranches_goingOn (target : Target) : (goingOn target).HasBranches where
  bodies := List.forall_mem_nil _
  main := by simp [goingOn, Stmt.BlockMeets, Stmt.Meets, Stmt.BranchesMeet]

/-- The two sources of the stage with the loop. -/
theorem text_goingOn : (goingOn .webGL2).text = .ok goingOnGlsl ∧
    (goingOn .webGPU).text = .ok goingOnWgsl := by
  have hok : ∀ {s : ResolvedStage} {source : String}, s.text.toOption = some source →
      s.text = .ok source := by
    intro s source h
    cases htext : s.text with
    | error fault =>
        rw [htext] at h
        cases h
    | ok text =>
        rw [htext] at h
        rw [Option.some.inj h]
  have hglsl : (goingOn .webGL2).text.toOption = some goingOnGlsl := by decide +kernel
  have hwgsl : (goingOn .webGPU).text.toOption = some goingOnWgsl := by decide +kernel
  exact ⟨hok hglsl, hok hwgsl⟩

/-- The two loops run alike. -/
theorem executions_agree_goingOn : ∃ g w, Target.webGL2.readBodies? goingOnGlsl = some [g] ∧
    Target.webGPU.readBodies? goingOnWgsl = some [w] ∧
    Flow.RunsAlike ((goingOn .webGL2).SameDeed (goingOn .webGPU)) g w := by
  obtain ⟨flows, flows', hread, hread', hlength, hlength', hsame⟩ :=
    executions_agree (by decide) (show (goingOn .webGPU).target = .webGPU from rfl)
      (hasNames_goingOn .webGL2) (hasNames_goingOn .webGPU) (hasBranches_goingOn .webGL2)
      (hasBranches_goingOn .webGPU)
      text_goingOn.1 text_goingOn.2
  obtain ⟨g, rfl⟩ := List.length_eq_one_iff.mp hlength
  obtain ⟨w, rfl⟩ := List.length_eq_one_iff.mp hlength'
  exact ⟨g, w, hread, hread', hsame 0 0 _ g w rfl rfl rfl rfl⟩

/-- What follows `continue` in the body is skipped, but not the test. -/
example (cond breakIf : List Token) :
    Flow.Runs (.block [.loop [.conditional [(cond, [.continueLoop])] none, .breakLoop] breakIf])
      [.test cond true, .test breakIf true] .through :=
  have hbody : Flow.Runs (.block [.conditional [(cond, [.continueLoop])] none, .breakLoop])
      [.test cond true] .continued :=
    .left (.conditional (.taken (.left .continueLoop (by decide)))) (by decide)
  .next (.loop (.repeatDone hbody rfl)) .nil

end WebShader
