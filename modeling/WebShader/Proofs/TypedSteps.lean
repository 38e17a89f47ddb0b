import WebShader.Proofs.Rearrangements

/-!
# Steps that keep builders typed

What operations are made of: types are registered, variables and expressions are recorded, and the
stage changes. An operation on a typed builder leaves a typed builder that extends it, failed or
not.
-/

namespace WebShader

/-! ## Changes of a typed builder -/

namespace Builder

variable {b b' : Builder} {callees : Callees}

/-- What a builder records stays as it is if only its types, its stage and its handles change. -/
theorem Typed.of_shares (hb : b.Typed callees) (h : b.Shares b')
    (hhandles : ∀ e ∈ b'.handles, b.Carries e) : b'.Typed callees where
  toHasSoundTypes := h.hasSoundTypes hb.toHasSoundTypes
  dictated n node hn := by
    rw [Builder.node?, h.nodes] at hn
    exact (hb.dictated n node hn).of_extends h.extends
  descends n node hn := by
    rw [Builder.node?, h.nodes] at hn
    exact hb.descends n node hn
  handles e he := (hhandles e he).of_extends h.extends

/-- What rearranges a typed builder leaves it typed. -/
theorem Typed.of_rearranges (hb : b.Typed callees) (h : b.Rearranges b') : b'.Typed callees :=
  hb.of_shares h.toShares fun e he => hb.handles e (h.handles e he)

/-- A stage may give out the handles given out before and those that carry their types. -/
theorem Typed.withStage (hb : b.Typed callees) {s s' : OpenStage} (hs : b.stage = some s)
    (h : ∀ e ∈ s'.handles, e ∈ s.handles ∨ b.Carries e) :
    Typed callees { b with stage := some s' } := by
  refine hb.of_shares (.of_eq rfl rfl rfl rfl) fun e he => ?_
  rcases mem_handles_iff.mp he with haccess | ⟨s'', hs'', he⟩
  · exact hb.handles e (mem_handles_iff.mpr (Or.inl haccess))
  · obtain rfl := Option.some.inj hs''
    rcases h e he with he | he
    · exact hb.handles e (mem_handles_iff.mpr (Or.inr ⟨s, hs, he⟩))
    · exact he

/-- An expression with a type is recorded. -/
theorem lt_size_of_typeOf? {n : NodeId} {t : TypeId} (h : b.typeOf? n = some t) :
    n.index < b.nodes.size := by
  obtain ⟨node, hnode, -⟩ := Option.map_eq_some_iff.mp h
  exact (Array.getElem?_eq_some_iff.mp hnode).1

/-- An expression with a primitive type is recorded. -/
theorem lt_size_of_primitiveOf? {n : NodeId} {p : PrimitiveType} (h : b.primitiveOf? n = some p) :
    n.index < b.nodes.size := by
  obtain ⟨t, ht, -⟩ := Option.bind_eq_some_iff.mp h
  exact lt_size_of_typeOf? ht

/-- The rules only speak of operands that have been recorded. -/
theorem Dictates.operand_lt_size {n : NodeId} {kind : NodeKind} {t : TypeId}
    (h : b.Dictates callees n kind t) : ∀ m ∈ kind.operands, m.index < b.nodes.size := by
  have htypes : ∀ {ms ts}, b.HaveTypes ms ts →
      ∀ m ∈ ms, m.index < b.nodes.size := by
    intro ms ts hms m hm
    obtain ⟨u, -, hu⟩ := exists_result_of_forall₂ hms m hm
    exact lt_size_of_typeOf? hu
  have hprimitives : ∀ {ms ps}, b.HavePrimitives ms ps →
      ∀ m ∈ ms, m.index < b.nodes.size := by
    intro ms ps hms m hm
    obtain ⟨p, -, hp⟩ := exists_result_of_forall₂ hms m hm
    exact lt_size_of_primitiveOf? hp
  intro m hm
  -- an operand has a type, so it has been recorded
  cases h with
  | literal | var | builtin => cases hm
  | member hbase | unary hbase | addressOf hbase | deref hbase =>
      rw [List.mem_singleton.mp hm]
      exact lt_size_of_typeOf? hbase
  | swizzle hbase =>
      rw [List.mem_singleton.mp hm]
      exact lt_size_of_primitiveOf? hbase
  | element hbase _ hi =>
      rcases List.mem_pair.mp hm with rfl | rfl
      · exact lt_size_of_typeOf? hbase
      · exact lt_size_of_primitiveOf? hi
  | component hbase _ _ hi =>
      rcases List.mem_pair.mp hm with rfl | rfl
      · exact lt_size_of_primitiveOf? hbase
      · exact lt_size_of_primitiveOf? hi
  | binary hl hr =>
      rcases List.mem_pair.mp hm with rfl | rfl
      · exact lt_size_of_primitiveOf? hl
      · exact lt_size_of_primitiveOf? hr
  | construct hargs => exact htypes hargs m hm
  | call _ hargs => exact htypes hargs m hm
  | overload _ hargs => exact hprimitives hargs m hm
  | texture _ htex _ _ hargs =>
      rcases List.mem_cons.mp hm with rfl | hm
      · exact lt_size_of_typeOf? htex
      · exact hprimitives hargs m hm

/-- One more expression extends the builder. -/
theorem extends_pushNode (b : Builder) (node : Node) :
    b.Extends { b with nodes := b.nodes.push node } := by
  refine { Extends.refl b with nodes := ?_ }
  rw [Array.toList_push]
  exact List.prefix_append _ _

/-- An expression that follows the rules is recorded after its operands. -/
theorem Typed.pushNode (hb : b.Typed callees) {kind : NodeKind} {t : TypeId}
    (hd : b.Dictates callees ⟨b.nodes.size⟩ kind t) :
    Typed callees { b with nodes := b.nodes.push ⟨t, kind⟩ } := by
  have hext := b.extends_pushNode ⟨t, kind⟩
  have hcases : ∀ {n : NodeId} {node : Node},
      Builder.node? { b with nodes := b.nodes.push ⟨t, kind⟩ } n = some node →
        b.node? n = some node ∨ n = ⟨b.nodes.size⟩ ∧ node = ⟨t, kind⟩ := by
    intro n node hn
    rw [Builder.node?, Array.getElem?_push] at hn
    split at hn
    · rename_i heq
      exact Or.inr ⟨by rcases n with ⟨i⟩; exact congrArg NodeId.mk heq, (Option.some.inj hn).symm⟩
    · exact Or.inl hn
  refine ⟨⟨hb.sound, hb.vars⟩, fun n node hn => ?_, fun n node hn => ?_, fun e he =>
    (hb.handles e he).of_extends hext⟩
  · rcases hcases hn with hn | ⟨rfl, rfl⟩
    · exact (hb.dictated n node hn).of_extends hext
    · exact hd.of_extends hext
  · rcases hcases hn with hn | ⟨rfl, rfl⟩
    · exact hb.descends n node hn
    · exact hd.operand_lt_size

/-- The handle of the expression that was recorded last has its type. -/
theorem carries_pushNode (b : Builder) (t : TypeId) (kind : NodeKind) :
    Carries { b with nodes := b.nodes.push ⟨t, kind⟩ } ⟨⟨b.nodes.size⟩, t⟩ := by
  simp [Carries, typeOf?, node?]

/-- One more variable extends the builder. -/
theorem extends_pushVar (b : Builder) (d : Variable) :
    b.Extends { b with vars := b.vars.push d } := by
  refine { Extends.refl b with vars := ?_ }
  rw [Array.toList_push]
  exact List.prefix_append _ _

/-- A variable of a registered type may be recorded. -/
theorem Typed.pushVar (hb : b.Typed callees) {d : Variable} (hd : d.type.index < b.types.size) :
    Typed callees { b with vars := b.vars.push d } := by
  have hext := b.extends_pushVar d
  refine ⟨⟨hb.sound, fun v d' hv => ?_⟩, fun n node hn => (hb.dictated n node hn).of_extends hext,
    hb.descends, fun e he => (hb.handles e he).of_extends hext⟩
  rw [Builder.var?, Array.getElem?_push] at hv
  split at hv
  · rw [← Option.some.inj hv]
    exact hd
  · exact hb.vars v d' hv

end Builder

/-! ## Runs -/

namespace Build

variable {α β : Type} {callees : Callees} {b : Builder}

/-- From a typed builder, an operation leaves a typed builder that extends it, failed or not, and
what it gives is as told. -/
def Ensures (act : Build α) (callees : Callees) (b : Builder) (post : α → Builder → Prop) : Prop :=
  b.Extends (b.run act).2 ∧ (b.run act).2.Typed callees ∧
    ∀ a b', b.run act = (.ok a, b') → post a b'

namespace Ensures

variable {act : Build α} {post : α → Builder → Prop} {f : α → Build β} {last : β → Builder → Prop}

/-- A run that succeeds ensures what is true of its result. -/
theorem of_run {a : α} {b' : Builder} (hrun : b.run act = (.ok a, b')) (hext : b.Extends b')
    (hb' : b'.Typed callees) (h : post a b') : act.Ensures callees b post := by
  unfold Ensures
  rw [hrun]
  refine ⟨hext, hb', fun a' b'' hrun' => ?_⟩
  obtain ⟨ha, rfl⟩ := Prod.mk.inj hrun'
  rw [← Except.ok.inj ha]
  exact h

/-- A run that fails at once ensures what is asked. -/
theorem of_error {e : ShaderError} (hrun : b.run act = (.error e, b)) (hb : b.Typed callees) :
    act.Ensures callees b post := by
  unfold Ensures
  rw [hrun]
  exact ⟨.refl b, hb, fun _ _ h => by cases (Prod.mk.inj h).1⟩

/-- What is ensured may be weakened. -/
theorem mono {post' : α → Builder → Prop} (h : act.Ensures callees b post)
    (himp : ∀ a b', b.Extends b' → post a b' → post' a b') : act.Ensures callees b post' := by
  obtain ⟨hext, hb', hpost⟩ := h
  refine ⟨hext, hb', fun a b' hrun => ?_⟩
  rw [hrun] at hext
  exact himp a b' hext (hpost a b' hrun)

/-- Nothing is done. -/
protected theorem pure (hb : b.Typed callees) {a : α} (h : post a b) :
    (pure a : Build α).Ensures callees b post := of_run rfl (.refl b) hb h

/-- An error leaves the builder typed. -/
theorem throw (hb : b.Typed callees) (e : ShaderError) :
    (throw e : Build α).Ensures callees b post := of_error rfl hb

/-- What follows an operation runs from the typed builder it leaves. -/
theorem bind (h : act.Ensures callees b post)
    (hf : ∀ a b', b.Extends b' → b'.Typed callees → post a b' → (f a).Ensures callees b' last) :
    (act >>= f).Ensures callees b last := by
  obtain ⟨hext, hb', hpost⟩ := h
  unfold Ensures
  rw [Builder.run_bind]
  rcases hrun : b.run act with ⟨e | a, b'⟩
  · rw [hrun] at hext hb'
    exact ⟨hext, hb', fun _ _ h => by cases (Prod.mk.inj h).1⟩
  · rw [hrun] at hext hb'
    obtain ⟨hext', hb'', hlast⟩ := hf a b' hext hb' (hpost a b' hrun)
    exact ⟨hext.trans hext', hb'', hlast⟩

/-- What handles a failure runs from the typed builder that the failure leaves. -/
theorem tryCatch {handler : ShaderError → Build α} (h : act.Ensures callees b post)
    (hhandler : ∀ e b', b.Extends b' → b'.Typed callees → (handler e).Ensures callees b' post) :
    (tryCatch act handler).Ensures callees b post := by
  obtain ⟨hext, hb', hpost⟩ := h
  unfold Ensures
  rw [Builder.run_tryCatch]
  rcases hrun : b.run act with ⟨e | a, b'⟩
  · rw [hrun] at hext hb'
    obtain ⟨hext', hb'', hlast⟩ := hhandler e b' hext hb'
    exact ⟨hext.trans hext', hb'', hlast⟩
  · rw [hrun] at hext hb' hpost
    exact ⟨hext, hb', hpost⟩

/-- What follows goes on from the builder at hand. -/
theorem get_bind {f : Builder → Build β} (h : (f b).Ensures callees b last) :
    (get >>= f).Ensures callees b last := h

/-- What follows a look at the builder runs from the same builder. -/
theorem reads_bind (hb : b.Typed callees) (hact : Reads act)
    (hf : ∀ a, b.run act = (.ok a, b) → (f a).Ensures callees b last) :
    (act >>= f).Ensures callees b last := by
  have hsame := hact b
  rcases hrun : b.run act with ⟨e | a, b'⟩
  · rw [hrun] at hsame
    obtain rfl : b = b' := hsame
    exact of_error (show b.run (act >>= f) = (.error e, b) by rw [Builder.run_bind, hrun]) hb
  · rw [hrun] at hsame
    obtain rfl : b = b' := hsame
    have h := hf a hrun
    unfold Ensures at h ⊢
    rw [Builder.run_bind, hrun]
    exact h

/-- What rearranges a typed builder leaves it typed. -/
theorem rearranges (hb : b.Typed callees) (hact : Rearranges act) :
    act.Ensures callees b fun _ _ => True :=
  ⟨(hact b).extends, hb.of_rearranges (hact b), fun _ _ _ => True.intro⟩

/-- What follows a rearrangement. -/
theorem rearranges_bind (hb : b.Typed callees) (hact : Rearranges act)
    (hf : ∀ a b', b.Extends b' → b'.Typed callees → (f a).Ensures callees b' last) :
    (act >>= f).Ensures callees b last :=
  (rearranges hb hact).bind fun a b' hext hb' _ => hf a b' hext hb'

/-- What follows goes on from the stage at hand. -/
theorem stage_bind {f : OpenStage → Build β} (hb : b.Typed callees)
    (hf : ∀ s, b.stage = some s → (f s).Ensures callees b last) :
    (stage >>= f).Ensures callees b last := by
  cases hs : b.stage with
  | none =>
      have hrun : b.run (stage >>= f) = (.error (.internal .noStage), b) := by
        rw [Builder.run_bind, Builder.run_stage_of_none hs]
      exact of_error hrun hb
  | some s =>
      have h := hf s hs
      unfold Ensures at h ⊢
      rw [Builder.run_bind, Builder.run_stage_of_some hs]
      exact h

/-- Both branches ensure it. -/
theorem ite {c : Prop} [Decidable c] {other : Build α} (h : c → act.Ensures callees b post)
    (h' : ¬c → other.Ensures callees b post) :
    (if c then act else other).Ensures callees b post := by
  split
  · exact h ‹_›
  · exact h' ‹_›

/-- What follows a check that may not be made. -/
theorem when {c : Prop} [Decidable c] {check : Build PUnit} {f : PUnit → Build β}
    (hcheck : c → check.Ensures callees b fun _ _ => True)
    (hf : ∀ b', b.Extends b' → b'.Typed callees → (f ⟨⟩).Ensures callees b' last)
    (hb : b.Typed callees) : (if c then check >>= f else f ⟨⟩).Ensures callees b last :=
  .ite (fun hc => (hcheck hc).bind fun _ b' hext hb' _ => hf b' hext hb') fun _ =>
    hf b (.refl b) hb

/-- What follows a failure is not run. -/
theorem throw_bind (hb : b.Typed callees) (e : ShaderError) {f : PUnit → Build β} :
    (MonadExcept.throw e >>= f).Ensures callees b last := of_error rfl hb

/-- What follows a refusal is only run if nothing is refused. -/
theorem refuse (hb : b.Typed callees) {c : Prop} [Decidable c] {e : ShaderError}
    {f : PUnit → Build β} (hf : ¬c → (f ⟨⟩).Ensures callees b last) :
    (if c then MonadExcept.throw e >>= f else f ⟨⟩).Ensures callees b last :=
  .ite (fun _ => .throw_bind hb e) hf

end Ensures

/-! ## Registrations and records -/

section Records

/-- A registration that keeps registries sound keeps builders typed. -/
theorem ensures_intern (hb : b.Typed callees) {act : Interning α} {P : α → Registry → Prop}
    (h : act.Ensures b.types P) : (intern act).Ensures callees b fun a b' => P a b'.types := by
  obtain ⟨hsound, hle, hpost⟩ := h
  unfold Ensures
  rw [Builder.run_intern]
  have hshares : b.Shares { b with types := (b.types.run act).2 } :=
    ⟨rfl, rfl, rfl, hle, fun _ => hsound⟩
  refine ⟨hshares.extends, hb.of_shares hshares hb.handles, ?_⟩
  intro a b' hrun
  obtain ⟨hact, rfl⟩ := Prod.mk.inj hrun
  exact hpost a _ (Prod.ext hact rfl)

/-- A primitive type of a valid shape. -/
theorem ensures_primitive (hb : b.Typed callees) {p : PrimitiveType} (hp : p.fault = none) :
    (intern (Interning.primitive p)).Ensures callees b fun t b' => b'.types.kind t = .primitive p :=
  (ensures_intern hb (Interning.ensures_primitive hb.sound hp)).mono fun _ _ _ h =>
    h.kind_eq (by simp)

theorem ensures_type (hb : b.Typed callees) (shape : TypeShape) :
    (type shape).Ensures callees b fun t b' => t.index < b'.types.size := by
  refine .get_bind (.reads_bind hb ?_ fun _ _ => ?_)
  · exact Follows.liftM _
  · exact ensures_intern hb (Interning.ensures_shape hb.sound shape)

theorem ensures_pushNode (hb : b.Typed callees) {kind : NodeKind} {t : TypeId}
    (hd : b.Dictates callees ⟨b.nodes.size⟩ kind t) :
    (pushNode t kind).Ensures callees b fun e b' => b'.Carries e ∧ e.type = t :=
  .of_run rfl (b.extends_pushNode _) (hb.pushNode hd) ⟨b.carries_pushNode t kind, rfl⟩

theorem ensures_pushVar (hb : b.Typed callees) {d : Variable} (hd : d.type.index < b.types.size) :
    (pushVar d).Ensures callees b fun v b' => b'.var? v = some d := by
  refine .of_run rfl (b.extends_pushVar _) (hb.pushVar hd) ?_
  simp [Builder.var?]

/-! ## Names -/

theorem ensures_modifyStage (hb : b.Typed callees) {g : OpenStage → OpenStage}
    (hg : ∀ s, b.stage = some s → ∀ e ∈ (g s).handles, e ∈ s.handles ∨ b.Carries e) :
    (modifyStage g).Ensures callees b fun _ _ => True := by
  cases hs : b.stage with
  | none => exact .of_error (Builder.run_modifyStage_of_none hs g) hb
  | some s =>
      have hshares : b.Shares { b with stage := some (g s) } := .of_eq rfl rfl rfl rfl
      exact .of_run (Builder.run_modifyStage_of_some hs g) hshares.extends
        (hb.withStage hs (hg s hs)) trivial

/-- A name may be bound to a handle that carries its type. -/
theorem ensures_declareSymbol (hb : b.Typed callees) (name : String) {e : Expr}
    (he : b.Carries e) : (declareSymbol name e).Ensures callees b fun _ _ => True := by
  rcases run_declareSymbol_cases b name e with
    ⟨fault, hrun⟩ | ⟨s, f, rest, hs, hframes, -, hrun⟩
  · exact .of_error hrun hb
  · have hshares : b.Shares
        (b.withFrame s { f with symbols := (name, e) :: f.symbols } rest) :=
      .of_eq rfl rfl rfl rfl
    refine .of_run hrun hshares.extends (hb.withStage hs fun e' he' => ?_) trivial
    rcases OpenStage.mem_handles_iff.mp he' with ⟨g, hg, x, hx, rfl⟩ | hrest
    · rcases List.mem_cons.mp hg with rfl | hg
      · rcases List.mem_cons.mp hx with rfl | hx
        · exact Or.inr he
        · exact Or.inl (OpenStage.mem_handles_iff.mpr
            (Or.inl ⟨f, hframes ▸ List.mem_cons_self, x, hx, rfl⟩))
      · exact Or.inl (OpenStage.mem_handles_iff.mpr
          (Or.inl ⟨g, hframes ▸ List.mem_cons_of_mem _ hg, x, hx, rfl⟩))
    · exact Or.inl (OpenStage.mem_handles_iff.mpr (Or.inr hrest))

/-- A variable of a registered type is declared under a handle that carries its type. -/
theorem ensures_newVar (hb : b.Typed callees) (name : String) {t : TypeId} (role : Role)
    (init : Option NodeId) (ht : t.index < b.types.size) :
    (newVar name t role init).Ensures callees b fun x b' => b'.Carries x.2 ∧ x.2.type = t := by
  refine .reads_bind hb (Follows.liftM _) fun _ _ => .stage_bind hb fun s _ => ?_
  refine (ensures_pushVar hb ht).bind fun v b₁ _ hb₁ hv => ?_
  refine (ensures_pushNode hb₁ (.var hv)).bind fun e b₂ _ hb₂ ⟨he, htype⟩ => ?_
  refine (ensures_declareSymbol hb₂ name he).bind fun _ b₃ hext hb₃ _ => ?_
  exact .pure hb₃ ⟨he.of_extends hext, htype⟩

end Records

end Build

end WebShader
