import WebShader.Proofs.TypedCalls

/-!
# Arguments that are accepted

Whether a parameter accepts an argument is looked at before the argument is lowered, and not in the
same way. What is accepted is lowered all the same: a host value that fits a component type has a
literal of this type, and registered types of equal components are the same.
-/

namespace WebShader

/-! ## Registered types -/

/-- A type that can be stored is registered once. -/
theorem Registry.Sound.eq_of_kind {r : Registry} (hr : r.Sound) {t u : TypeId} {k : TypeKind}
    (hk : k.isStorable = true) (ht : r.kind t = k) (hu : r.kind u = k) : t = u := by
  have htlt : t.index < r.size := lt_size_of_isStorable (by rwa [ht])
  have hult : u.index < r.size := lt_size_of_isStorable (by rwa [hu])
  refine hr.key_inj t u htlt hult ?_
  rw [hr.key_eq t htlt, hr.key_eq u hult, ht, hu]

/-! ## Operations that succeed -/

namespace Build

variable {α β : Type} {callees : Callees} {b : Builder}

/-- An operation gives something. -/
def Succeeds (act : Build α) (b : Builder) : Prop := ∃ a b', b.run act = (.ok a, b')

/-- An operation that does nothing succeeds. -/
theorem succeeds_pure (a : α) : Succeeds (pure a) b := ⟨a, b, rfl⟩

/-- What follows a success starts from the builder that it leaves. -/
theorem Succeeds.bind {act : Build α} {f : α → Build β} (h : act.Succeeds b)
    (hf : ∀ a b', b.run act = (.ok a, b') → (f a).Succeeds b') : (act >>= f).Succeeds b := by
  obtain ⟨a, b', hrun⟩ := h
  obtain ⟨c, b'', hrest⟩ := hf a b' hrun
  refine ⟨c, b'', ?_⟩
  rw [Builder.run_bind, hrun]
  exact hrest

/-- What goes on from the builder at hand succeeds if it does from that builder. -/
theorem Succeeds.get_bind {f : Builder → Build β} (h : (f b).Succeeds b) :
    Succeeds (MonadState.get >>= f) b := h

/-- A feature of the target may be used. -/
theorem succeeds_require {f : Feature} (h : b.target.supports f = true) :
    (require f).Succeeds b :=
  ⟨(), b, run_require_eq_ok_iff.mpr ⟨h, rfl⟩⟩

/-- A primitive type can always be registered. -/
theorem succeeds_primitive (p : PrimitiveType) : (intern (Interning.primitive p)).Succeeds b := by
  have hinsert : ∃ t, (b.types.run (Interning.primitive p)).1 = .ok t := by
    rw [Interning.primitive, Interning.insert, Registry.run_bind, Registry.run_get]
    dsimp only
    cases b.types.withKey? p.text <;> exact ⟨_, rfl⟩
  obtain ⟨t, ht⟩ := hinsert
  refine ⟨t, { b with types := (b.types.run (Interning.primitive p)).2 }, ?_⟩
  rw [Builder.run_intern, ht]

/-- An expression can always be recorded. -/
theorem succeeds_pushNode (t : TypeId) (kind : NodeKind) : (pushNode t kind).Succeeds b :=
  ⟨⟨⟨b.nodes.size⟩, t⟩, _, rfl⟩

/-! ## Operands -/

/-- A literal whose kind the target has can be made. -/
theorem succeeds_literal {l : Literal} (h : b.target.supportsScalar l.scalar = true) :
    (literal l).Succeeds b := by
  obtain ⟨e, b', hrun⟩ : Succeeds (do
      pushNode (← intern (Interning.scalar l.scalar)) (.literal l)) b :=
    (succeeds_primitive _).bind fun t b' _ => succeeds_pushNode t _
  exact ⟨e, b', run_literal_eq_ok_iff.mpr ⟨h, hrun⟩⟩

/-- An operand that fits a component type of the target is lowered. -/
theorem succeeds_lower {v : Value} {k : ScalarKind}
    (hv : ∀ h, v = .host h → h.fits k = true ∧ b.target.supportsScalar k = true) :
    (lower v (some k)).Succeeds b := by
  cases v with
  | expr e => exact succeeds_pure e
  | host h =>
      obtain ⟨hfits, hsupports⟩ := hv h rfl
      obtain ⟨l, hl⟩ := HostValue.exists_toLiteral_of_fits hfits
      unfold lower
      simp only [hl]
      refine succeeds_literal ?_
      rwa [HostValue.scalar_of_toLiteral hl]

/-- An expression is lowered to itself. -/
theorem lowerNear_expr (e : Expr) (hint : Option ScalarKind) :
    lowerNear (.expr e) hint = pure e := by
  unfold lowerNear
  cases hint <;> rfl

/-- An operand that is accepted where a type is expected is lowered to an expression of this
type. -/
theorem succeeds_coerce (hb : b.Typed callees) {v : Value} (hv : b.Knows v) {t : TypeId}
    (haccepts : b.accepts t v = true) (what : String) : (coerce v t what).Succeeds b := by
  -- a host value is lowered to the scalar that is asked for, and to no other
  have hlower : (lowerNear v (b.scalarOf? t)).Succeeds b ∧
      ∀ e b', b.run (lowerNear v (b.scalarOf? t)) = (.ok e, b') → e.type = t := by
    cases v with
    | expr e =>
        have htype : e.type = t := beq_iff_eq.mp haccepts
        rw [lowerNear_expr]
        refine ⟨succeeds_pure e, fun e' b' hrun => ?_⟩
        rw [← Except.ok.inj (Prod.mk.inj hrun).1, htype]
    | host h =>
        unfold Builder.accepts at haccepts
        cases hp : b.types.primitive? t with
        | none =>
            simp only [hp] at haccepts
            cases haccepts
        | some p =>
            simp only [hp, Bool.and_eq_true] at haccepts
            obtain ⟨⟨hscalar, hfits⟩, hsupports⟩ := haccepts
            have hhint : b.scalarOf? t = some p.scalar := by
              rw [Builder.scalarOf?, hp, Option.map_some]
            have hnear : lowerNear (.host h) (b.scalarOf? t) = lower (.host h) (some p.scalar) := by
              rw [hhint]
              exact if_pos hfits
            rw [hnear]
            refine ⟨succeeds_lower fun h' hh => ?_, fun e b' hrun => ?_⟩
            · obtain rfl := Value.host.inj hh
              exact ⟨hfits, hsupports⟩
            · -- both types are the scalar of this component type
              obtain ⟨hext, hb', hpost⟩ := ensures_lower hb hv (some p.scalar)
              rw [hrun] at hext hb'
              have hkind := (hpost e b' hrun).2 p.scalar rfl
              have hkind₀ := Registry.primitive?_eq_some_iff.mp hp
              have ht := Registry.kind_of_le hext.types hkind₀ (by simp)
              rw [PrimitiveType.eq_ofScalar_of_isScalar hscalar] at ht
              exact hb'.sound.eq_of_kind rfl hkind ht
  obtain ⟨⟨e, b', hrun⟩, htype⟩ := hlower
  refine ⟨e, b', ?_⟩
  rw [coerce, Builder.run_bind, Builder.run_get]
  dsimp only
  rw [Builder.run_bind, hrun]
  dsimp only
  rw [Builder.run_bind, Builder.run_get]
  dsimp only
  rw [if_neg (by simp [htype e b' hrun])]
  rfl

/-- What is accepted still is when something is added. -/
theorem accepts_of_adds {b' : Builder} (h : b.Adds b') {t : TypeId} {v : Value}
    (haccepts : b.accepts t v = true) : b'.accepts t v = true := by
  cases v with
  | expr e => exact haccepts
  | host v =>
      unfold Builder.accepts at haccepts ⊢
      cases hp : b.types.primitive? t with
      | none =>
          simp only [hp] at haccepts
          cases haccepts
      | some p =>
          simp only [hp] at haccepts
          simp only [Registry.primitive?_of_le h.types hp, h.target_eq]
          exact haccepts

/-- What is accepted still is after additions. -/
theorem acceptsAll_of_adds {b' : Builder} (h : b.Adds b') {types : List TypeId} {args : List Value}
    (haccepts : acceptsAll b types args = true) : acceptsAll b' types args = true := by
  induction types generalizing args with
  | nil => cases args <;> exact haccepts
  | cons t types ih =>
      cases args with
      | nil => cases haccepts
      | cons v args =>
          rw [acceptsAll, Bool.and_eq_true] at haccepts ⊢
          exact ⟨accepts_of_adds h haccepts.1, ih haccepts.2⟩

/-! ## Lists of operands -/

/-- Operands that are all accepted are lowered to expressions of the types expected. -/
theorem lowered_coerceAll (hb : b.Typed callees) (what : String) {types : List TypeId}
    {args : List Value} (hargs : ∀ v ∈ args, b.Knows v)
    (haccepts : acceptsAll b types args = true) :
    ∃ nodes b', b.run (coerceAll what (args.zip types)) = (.ok nodes, b') ∧
      b'.HaveTypes nodes types := by
  have hsucceeds : (coerceAll what (args.zip types)).Succeeds b := by
    induction types generalizing args b with
    | nil => cases args <;> exact succeeds_pure []
    | cons t types ih =>
        cases args with
        | nil => cases haccepts
        | cons v args =>
            obtain ⟨hv, hargs⟩ := List.forall_mem_cons.mp hargs
            obtain ⟨hfirst, hrest⟩ := Bool.and_eq_true_iff.mp haccepts
            refine (succeeds_coerce hb hv hfirst what).bind fun e b₁ hrun => ?_
            obtain ⟨hext, hb₁, -⟩ := ensures_coerce hb hv t what
            have hadds := follows_coerce (R := Builder.Adds) v t what b
            rw [hrun] at hext hb₁ hadds
            have hnodes := ih hb₁ (fun v hv => (hargs v hv).of_extends hext)
              (acceptsAll_of_adds hadds hrest)
            exact hnodes.bind fun nodes b₂ _ => succeeds_pure _
  obtain ⟨nodes, b', hrun⟩ := hsucceeds
  have hparts : ∀ x ∈ args.zip types, b.Knows x.1 := fun x hx => hargs x.1 (List.of_mem_zip hx).1
  have htypes := (ensures_coerceAll hb what hparts).2.2 nodes b' hrun
  rw [List.map_snd_zip (length_of_acceptsAll haccepts).le] at htypes
  exact ⟨nodes, b', hrun, htypes⟩

/-- The parts of a value are checked one by one, which refuses nothing if they are all accepted. -/
theorem run_memberParts (what : String) {types : List TypeId} {args : List Value}
    (haccepts : acceptsAll b types args = true) :
    b.run (memberParts what (args.zip types)) = b.run (coerceAll what (args.zip types)) := by
  induction types generalizing args b with
  | nil => cases args <;> rfl
  | cons t types ih =>
      cases args with
      | nil => cases haccepts
      | cons v args =>
          obtain ⟨hfirst, hrest⟩ := Bool.and_eq_true_iff.mp haccepts
          have hadds := follows_coerce (R := Builder.Adds) v t what b
          rw [List.zip_cons_cons, memberParts, coerceAll, Builder.run_bind, Builder.run_get]
          dsimp only
          rw [if_neg (by simp [hfirst]), Builder.run_bind, Builder.run_bind]
          rcases hrun : b.run (coerce v t what) with ⟨_ | e, b₁⟩
          · rfl
          · rw [hrun] at hadds
            dsimp only
            rw [Builder.run_bind, Builder.run_bind, ih (acceptsAll_of_adds hadds hrest)]

/-- Parts of a value are only refused if one of them is not accepted: what is accepted is
lowered. -/
theorem refused_of_memberParts (hb : b.Typed callees) {what : String}
    {parts : List (Value × TypeId)} (hparts : ∀ x ∈ parts, b.Knows x.1) {e : ShaderError}
    {b' : Builder} (h : b.run (memberParts what parts) = (.error e, b')) :
    ∃ v t, (v, t) ∈ parts ∧ b'.accepts t v = false ∧
      e = .parameter (.memberValue what (b'.types.display t) (b'.describe v)) := by
  induction parts generalizing b with
  | nil => cases (Prod.mk.inj h).1
  | cons x rest ih =>
      obtain ⟨v, t⟩ := x
      obtain ⟨hv, hrest⟩ := List.forall_mem_cons.mp hparts
      rw [memberParts, Builder.run_bind, Builder.run_get] at h
      dsimp only at h
      cases haccepts : b.accepts t v with
      | false =>
          rw [if_pos (by simp [haccepts])] at h
          obtain ⟨he, rfl⟩ := Prod.mk.inj h
          exact ⟨v, t, List.mem_cons_self, haccepts, (Except.error.inj he).symm⟩
      | true =>
          rw [if_neg (by simp [haccepts]), Builder.run_bind] at h
          obtain ⟨a, b₁, hrun⟩ := succeeds_coerce hb hv haccepts what
          obtain ⟨hext, hb₁, -⟩ := ensures_coerce hb hv t what
          rw [hrun] at h hext hb₁
          dsimp only at h
          rw [Builder.run_bind] at h
          rcases hparts : b₁.run (memberParts what rest) with ⟨e' | nodes, b₂⟩
          · rw [hparts] at h
            obtain ⟨he, rfl⟩ := Prod.mk.inj h
            obtain rfl := Except.error.inj he
            obtain ⟨v', t', hmem, hrefused⟩ :=
              ih hb₁ (fun x hx => (hrest x hx).of_extends hext) hparts
            exact ⟨v', t', List.mem_cons_of_mem _ hmem, hrefused⟩
          · rw [hparts] at h
            cases (Prod.mk.inj h).1

/-- Arguments that the parameters of a built-in function accept are lowered to expressions of the
types of the parameters, if the target has their components. -/
theorem lowered_lowerAll (hb : b.Typed callees) {params : List PrimitiveType} {args : List Value}
    (hargs : ∀ v ∈ args, b.Knows v) (haccepts : b.acceptsParams params args = true)
    (hsupports : ∀ p ∈ params, b.target.supportsScalar p.scalar = true) :
    ∃ nodes b', b.run (lowerAll (args.zip params)) = (.ok nodes, b') ∧
      b'.HavePrimitives nodes params := by
  have hsucceeds : (lowerAll (args.zip params)).Succeeds b := by
    induction params generalizing args b with
    | nil => cases args <;> exact succeeds_pure []
    | cons p params ih =>
        cases args with
        | nil => cases haccepts
        | cons v args =>
            obtain ⟨hv, hargs⟩ := List.forall_mem_cons.mp hargs
            obtain ⟨hp, hsupports⟩ := List.forall_mem_cons.mp hsupports
            obtain ⟨hfirst, hrest⟩ := Bool.and_eq_true_iff.mp haccepts
            have hlower : (lower v (some p.scalar)).Succeeds b := by
              refine succeeds_lower fun h hh => ⟨?_, hp⟩
              rw [hh] at hfirst
              exact (Bool.and_eq_true_iff.mp hfirst).2
            refine hlower.bind fun e b₁ hrun => ?_
            obtain ⟨hext, hb₁, -⟩ := ensures_lower hb hv (some p.scalar)
            rw [hrun] at hext hb₁
            have hnodes := ih hb₁ (fun v hv => (hargs v hv).of_extends hext)
              (acceptsParams_of_extends hext hrest) (by rwa [hext.target_eq])
            exact hnodes.bind fun nodes b₂ _ => succeeds_pure _
  obtain ⟨nodes, b', hrun⟩ := hsucceeds
  exact ⟨nodes, b', hrun, (ensures_lowerAll hb hargs haccepts).2.2 nodes b' hrun⟩

end Build

end WebShader
