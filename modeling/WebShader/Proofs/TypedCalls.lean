import WebShader.Proofs.TypedExpressions

/-!
# Constructors and calls follow the rules

A constructor takes what values of its type are built from, a call what the parameters of the
function it is resolved to accept, and a call of a built-in function what one of its overloads or
its texture asks for.
-/

namespace WebShader

namespace Build

variable {callees : Callees} {b : Builder}

/-! ## Constructors -/

section Constructors

variable {β : Type} {post : β → Builder → Prop}

/-- The arguments that are refused are only read. -/
@[grind ←]
theorem reads_constructFailure (p : PrimitiveType) (args : List Value) :
    Reads (constructFailure p args) := by
  unfold constructFailure
  grind

/-- What follows a check of the arguments of a constructor. -/
theorem ensures_check (hb : b.Typed callees) {p : PrimitiveType} {args : List Value} {c : Prop}
    [Decidable c] {f : PUnit → Build β} (hf : ¬c → (f ⟨⟩).Ensures callees b post) :
    Ensures (if c then do throw (← constructFailure p args) >>= f else f ⟨⟩) callees b post :=
  .ite (fun _ => .reads_bind hb (reads_constructFailure _ _) fun _ _ => .throw_bind hb _) hf

/-- What follows a check of the arguments of a constructor succeeds only if they pass. -/
theorem run_check_eq_ok_iff {p : PrimitiveType} {args : List Value} {c : Prop} [Decidable c]
    {f : PUnit → Build β} {x : β} {b' : Builder} :
    b.run (if c then do throw (← constructFailure p args) >>= f else f ⟨⟩) = (.ok x, b') ↔
      ¬c ∧ b.run (f ⟨⟩) = (.ok x, b') := by
  by_cases hc : c
  · rw [if_pos hc]
    constructor
    · intro h
      cases (Prod.mk.inj h).1
    · exact fun h => absurd hc h.1
  · rw [if_neg hc]
    exact (and_iff_right hc).symm

theorem ensures_component (hb : b.Typed callees) (p : PrimitiveType) (args : List Value) {v : Value}
    (hv : b.Knows v) :
    (component p args v).Ensures callees b fun e b' =>
      b'.Carries e ∧ b'.Lowers (some p.scalar) v e := by
  unfold component
  cases v with
  | expr e => exact .pure hb ⟨hv, rfl⟩
  | host h => exact ensures_check hb fun _ => ensures_lower hb hv _

theorem ensures_vectorParts (hb : b.Typed callees) (p : PrimitiveType) (args : List Value)
    (before : Nat) {parts : List Value} (hparts : ∀ v ∈ parts, b.Knows v) :
    (vectorParts p args before parts).Ensures callees b fun x b' => ∃ ts qs, b'.HaveTypes x.1 ts ∧
      List.Forall₂ (fun t q => b'.types.primitive? t = some q) ts qs ∧
      (∀ q ∈ qs, q.isMatrix = false ∧ q.scalar = p.scalar) ∧
      before + (qs.map (·.components.toNat)).sum = x.2 := by
  induction parts generalizing b before with
  | nil => exact .pure hb ⟨[], [], .nil, .nil, by simp, rfl⟩
  | cons v rest ih =>
      obtain ⟨hv, hrest⟩ := List.forall_mem_cons.mp hparts
      refine (ensures_component hb p args hv).bind fun e b₁ hext hb₁ ⟨he, _⟩ => .get_bind ?_
      split
      · rename_i q hq
        refine ensures_check hb₁ fun hfits => ?_
        simp only [Bool.or_eq_true, decide_eq_true_eq, not_or, Bool.not_eq_true, not_not] at hfits
        refine .refuse hb₁ fun _ => ?_
        have hrest := ih hb₁ (before + q.components.toNat) fun v hv => (hrest v hv).of_extends hext
        refine hrest.bind fun x b₂ hext' hb₂ hparts => .pure hb₂ ?_
        obtain ⟨ts, qs, hts, hqs, hfit, hcount⟩ := hparts
        refine ⟨e.type :: ts, q :: qs, .cons (he.of_extends hext') hts,
          .cons (Registry.primitive?_of_le hext'.types hq) hqs, ?_, ?_⟩
        · exact List.forall_mem_cons.mpr ⟨hfits, hfit⟩
        · rw [List.map_cons, List.sum_cons, ← Nat.add_assoc, hcount]
      · exact .reads_bind hb₁ (reads_constructFailure _ _) fun _ _ => .throw hb₁ _

theorem ensures_vectorArgs (hb : b.Typed callees) {p : PrimitiveType} (hp : p.isMatrix = false)
    {args : List Value} (hargs : ∀ v ∈ args, b.Knows v) :
    (vectorArgs p args).Ensures callees b fun nodes b' =>
      ∃ ts, b'.HaveTypes nodes ts ∧ b'.types.Builds (.primitive p) ts := by
  unfold vectorArgs
  split
  · exact .pure hb ⟨[], .nil, .nothing⟩
  · rename_i e
    have he : b.Carries e := hargs (.expr e) List.mem_cons_self
    refine .get_bind (ensures_check hb fun hconverts => .pure hb ?_)
    exact ⟨[e.type], .cons he .nil, .converted hp (by simpa using hconverts)⟩
  · rename_i v hhost
    refine (ensures_component hb p _ (hargs v List.mem_cons_self)).bind ?_
    intro e b₁ _ hb₁ ⟨he, hlowers⟩
    refine .pure hb₁ ⟨[e.type], .cons he .nil, .converted hp ?_⟩
    cases v with
    | expr e' => exact absurd rfl (hhost e')
    | host h =>
        rw [Registry.primitive?_eq_some_iff.mpr (hlowers p.scalar rfl)]
        simp [converts, PrimitiveType.isScalar, PrimitiveType.ofScalar]
  · refine (ensures_vectorParts hb p args 0 hargs).bind fun x b₁ _ hb₁ => ?_
    rintro ⟨ts, qs, hts, hqs, hfit, hcount⟩
    rw [Nat.zero_add] at hcount
    refine ensures_check hb₁ fun hcomponents => .pure hb₁ ⟨ts, hts, ?_⟩
    exact .parts hp hqs hfit (hcount.trans (by simpa using hcomponents))

theorem ensures_matrixParts (hb : b.Typed callees) (p part : PrimitiveType) (args : List Value)
    {parts : List Value} (hparts : ∀ v ∈ parts, b.Knows v) :
    (matrixParts p part args parts).Ensures callees b fun nodes b' => ∃ ts, b'.HaveTypes nodes ts ∧
      ts.length = parts.length ∧ ∀ t ∈ ts, b'.types.primitive? t = some part := by
  induction parts generalizing b with
  | nil => exact .pure hb ⟨[], .nil, rfl, by simp⟩
  | cons v rest ih =>
      obtain ⟨hv, hrest⟩ := List.forall_mem_cons.mp hparts
      refine (ensures_component hb p args hv).bind fun e b₁ hext hb₁ ⟨he, _⟩ => .get_bind ?_
      refine ensures_check hb₁ fun hpart => ?_
      have hrest := ih hb₁ fun v hv => (hrest v hv).of_extends hext
      refine hrest.bind fun nodes b₂ hext' hb₂ ⟨ts, hts, hlength, hprimitive⟩ => .pure hb₂ ?_
      refine ⟨e.type :: ts, .cons (he.of_extends hext') hts, by simp [hlength], ?_⟩
      refine List.forall_mem_cons.mpr ⟨?_, hprimitive⟩
      exact Registry.primitive?_of_le hext'.types (by simpa using hpart)

theorem ensures_matrixArgs (hb : b.Typed callees) {p : PrimitiveType} (hp : p.isMatrix = true)
    {args : List Value} (hargs : ∀ v ∈ args, b.Knows v) :
    (matrixArgs p args).Ensures callees b fun nodes b' =>
      ∃ ts, b'.HaveTypes nodes ts ∧ b'.types.Builds (.primitive p) ts := by
  refine .ite (fun hcount => ?_) fun _ => .ite (fun hcount => ?_) fun _ => .ite (fun _ => ?_) ?_
  · refine (ensures_matrixParts hb p p.element args hargs).mono fun nodes b' _ => ?_
    rintro ⟨ts, hts, hlength, hcolumns⟩
    exact ⟨ts, hts, .columns hp (hlength.trans hcount) hcolumns⟩
  · refine (ensures_matrixParts hb p (.ofScalar p.scalar) args hargs).mono fun nodes b' _ => ?_
    rintro ⟨ts, hts, hlength, hcomponents⟩
    exact ⟨ts, hts, .components hp (hlength.trans hcount) hcomponents⟩
  · exact .pure hb ⟨[], .nil, .nothing⟩
  · exact fun _ => .reads_bind hb (reads_constructFailure _ _) fun _ _ => .throw hb _

theorem ensures_memberParts (hb : b.Typed callees) (what : String)
    {parts : List (Value × TypeId)} (hparts : ∀ x ∈ parts, b.Knows x.1) :
    (memberParts what parts).Ensures callees b fun nodes b' =>
      b'.HaveTypes nodes (parts.map (·.2)) := by
  induction parts generalizing b with
  | nil => exact .pure hb .nil
  | cons x rest ih =>
      obtain ⟨v, t⟩ := x
      obtain ⟨hv, hrest⟩ := List.forall_mem_cons.mp hparts
      refine .get_bind (.refuse hb fun _ => ?_)
      refine (ensures_coerce hb hv t what).bind fun e b₁ hext hb₁ ⟨he, htype⟩ => ?_
      refine (ih hb₁ fun x hx => (hrest x hx).of_extends hext).bind ?_
      intro nodes b₂ hext' hb₂ hnodes
      refine .pure hb₂ (.cons ?_ hnodes)
      rw [← htype]
      exact he.of_extends hext'

theorem ensures_memberArgs (hb : b.Typed callees) (t : TypeId) (count : Nat) (types : List TypeId)
    {args : List Value} (hargs : ∀ v ∈ args, b.Knows v) :
    (memberArgs t count types args).Ensures callees b fun nodes b' =>
      count = args.length ∧ b'.HaveTypes nodes ((args.zip types).map (·.2)) := by
  refine .get_bind (.refuse hb fun hcount => ?_)
  refine (ensures_memberParts hb _ fun x hx => hargs x.1 (List.of_mem_zip hx).1).mono ?_
  exact fun nodes b' _ hnodes => ⟨by simpa using hcount, hnodes⟩

theorem ensures_construct (hb : b.Typed callees) (shape : TypeShape) {args : List Value}
    (hargs : ∀ v ∈ args, b.Knows v) :
    (construct shape args).Ensures callees b fun e b' => b'.Carries e := by
  refine (ensures_type hb shape).bind fun t b₁ hext hb₁ ht => .get_bind ?_
  have hargs : ∀ v ∈ args, b₁.Knows v := fun v hv => (hargs v hv).of_extends hext
  -- what is built keeps its type while its parts are lowered
  have hpush : ∀ {act : Build (List NodeId)}, (act.Ensures callees b₁ fun nodes b' =>
      ∃ ts, b'.HaveTypes nodes ts ∧ b'.types.Builds (b₁.types.kind t) ts) →
      Ensures (do pushNode t (.construct (← act))) callees b₁ fun e b' => b'.Carries e := by
    intro act hact
    refine hact.bind fun nodes b₂ hext hb₂ ⟨ts, hts, hbuilds⟩ => ?_
    rw [← Registry.kind_eq_of_le hext.types ht] at hbuilds
    exact (ensures_pushNode hb₂ (.construct hts hbuilds)).mono fun _ _ _ h => h.1
  dsimp only
  split
  · rename_i p hkind
    refine .ite (fun hmatrix => hpush ?_) fun hmatrix => hpush ?_
    · rw [hkind]
      exact ensures_matrixArgs hb₁ hmatrix hargs
    · rw [hkind]
      exact ensures_vectorArgs hb₁ (by simpa using hmatrix) hargs
  · rename_i element n hkind
    refine .refuse hb₁ fun hn => .reads_bind hb₁ (reads_require _) fun _ _ => hpush ?_
    refine (ensures_memberArgs hb₁ t n _ hargs).mono fun nodes b₂ _ hmembers => ?_
    obtain ⟨hcount, hnodes⟩ := hmembers
    refine ⟨_, hnodes, ?_⟩
    rw [hkind, List.map_snd_zip (by simp), List.map_const', ← hcount]
    exact .elements (Nat.pos_of_ne_zero hn)
  · rename_i s hkind
    refine hpush ((ensures_memberArgs hb₁ t _ _ hargs).mono ?_)
    rintro nodes b₂ - ⟨hcount, hnodes⟩
    refine ⟨_, hnodes, ?_⟩
    rw [hkind, List.map_snd_zip (by simp [hcount])]
    exact .members
  · exact .throw hb₁ _

end Constructors

/-! ## Calls -/

section Calls

/-- The function that is found is the one with the index. -/
theorem function?_of_run_function {f : FunctionId} {fn : Function}
    (h : b.run (function f) = (.ok fn, b)) : b.function? f = some fn := by
  unfold function at h
  rw [Builder.run_bind] at h
  cases hs : b.stage with
  | none =>
      rw [Builder.run_stage_of_none hs] at h
      cases (Prod.mk.inj h).1
  | some s =>
      rw [Builder.run_stage_of_some hs] at h
      dsimp only at h
      rw [Builder.function?, hs, Option.bind_some]
      split at h
      · rename_i fn' hfn
        rw [← Except.ok.inj (Prod.mk.inj h).1]
        exact hfn
      · cases (Prod.mk.inj h).1

/-- The overload that is chosen is a function of the stage whose parameters accept the arguments. -/
theorem of_run_chooseOverload {args : List Value} {fs : List FunctionId} {f : FunctionId}
    {fn : Function} (h : b.run (chooseOverload args fs) = (.ok (some (f, fn)), b)) :
    b.function? f = some fn ∧ acceptsAll b fn.paramTypes args = true := by
  induction fs with
  | nil => cases Except.ok.inj (Prod.mk.inj h).1
  | cons f' fs ih =>
      rw [chooseOverload, Builder.run_bind] at h
      have hsame := reads_function f' b
      rcases hrun : b.run (function f') with ⟨e | fn', b'⟩
      · rw [hrun] at h
        cases (Prod.mk.inj h).1
      · rw [hrun] at h hsame
        obtain rfl : b = b' := hsame
        dsimp only at h
        rw [Builder.run_bind, Builder.run_get] at h
        dsimp only at h
        split at h
        · rename_i haccepts
          obtain ⟨rfl, rfl⟩ := Prod.mk.inj (Option.some.inj (Except.ok.inj (Prod.mk.inj h).1))
          exact ⟨function?_of_run_function hrun, haccepts⟩
        · exact ih h

/-- As many arguments are accepted as there are parameters. -/
theorem length_of_acceptsAll {types : List TypeId} {args : List Value}
    (h : acceptsAll b types args = true) : types.length = args.length := by
  induction types generalizing args with
  | nil =>
      cases args with
      | nil => rfl
      | cons v args => cases h
  | cons t types ih =>
      cases args with
      | nil => cases h
      | cons v args =>
          rw [acceptsAll, Bool.and_eq_true] at h
          rw [List.length_cons, List.length_cons, ih h.2]

theorem ensures_coerceAll (hb : b.Typed callees) (what : String) {args : List (Value × TypeId)}
    (hargs : ∀ x ∈ args, b.Knows x.1) :
    (coerceAll what args).Ensures callees b fun nodes b' =>
      b'.HaveTypes nodes (args.map (·.2)) := by
  induction args generalizing b with
  | nil => exact .pure hb .nil
  | cons x rest ih =>
      obtain ⟨v, t⟩ := x
      obtain ⟨hv, hrest⟩ := List.forall_mem_cons.mp hargs
      refine (ensures_coerce hb hv t what).bind fun e b₁ hext hb₁ ⟨he, htype⟩ => ?_
      refine (ih hb₁ fun x hx => (hrest x hx).of_extends hext).bind ?_
      intro nodes b₂ hext' hb₂ hnodes
      refine .pure hb₂ (.cons ?_ hnodes)
      rw [← htype]
      exact he.of_extends hext'

/-- A call is recorded with the function that the stage has in its place. -/
theorem ensures_call (hb : b.Typed callees)
    (hcallees : ∀ n f, b.nodes.size ≤ n.index → callees n f = b.function? f) (name : String)
    {args : List Value} (hargs : ∀ v ∈ args, b.Knows v) :
    (call name args).Ensures callees b fun e b' => b'.Carries e := by
  refine .stage_bind hb fun s _ => .refuse hb fun _ => ?_
  refine .reads_bind hb (reads_chooseOverload _ _) fun chosen hchosen => ?_
  split
  · exact .get_bind (.throw hb _)
  · rename_i f fn
    obtain ⟨hfn, haccepts⟩ := of_run_chooseOverload hchosen
    refine (ensures_coerceAll hb name fun x hx => hargs x.1 (List.of_mem_zip hx).1).bind ?_
    intro nodes b₁ hext hb₁ hnodes
    rw [List.map_snd_zip (length_of_acceptsAll haccepts).le] at hnodes
    have hcallee := (hcallees ⟨b₁.nodes.size⟩ f hext.nodes_size_le).trans hfn
    refine (ensures_pushNode hb₁ (.call hcallee hnodes)).bind fun e b₂ _ hb₂ ⟨he, _⟩ => ?_
    refine .get_bind (.when (fun _ => .rearranges hb₂ (rearranges_emit _))
      (fun b₃ hext hb₃ => ?_) hb₂)
    exact .pure hb₃ (he.of_extends hext)

end Calls

/-! ## Built-in functions -/

section Intrinsics

/-- What is accepted still is. -/
theorem acceptsParams_of_extends {b' : Builder} (h : b.Extends b') {params : List PrimitiveType}
    {args : List Value} (haccepts : b.acceptsParams params args = true) :
    b'.acceptsParams params args = true := by
  induction params generalizing args with
  | nil => cases args <;> exact haccepts
  | cons p params ih =>
      cases args with
      | nil => cases haccepts
      | cons v args =>
          rw [Builder.acceptsParams, Bool.and_eq_true] at haccepts ⊢
          refine ⟨?_, ih haccepts.2⟩
          cases v with
          | expr e =>
              exact beq_iff_eq.mpr (Registry.primitive?_of_le h.types (beq_iff_eq.mp haccepts.1))
          | host v => exact haccepts.1

/-- As many arguments are accepted as there are parameters. -/
theorem length_of_acceptsParams {params : List PrimitiveType} {args : List Value}
    (h : b.acceptsParams params args = true) : params.length = args.length := by
  induction params generalizing args with
  | nil =>
      cases args with
      | nil => rfl
      | cons v args => cases h
  | cons p params ih =>
      cases args with
      | nil => cases h
      | cons v args =>
          rw [Builder.acceptsParams, Bool.and_eq_true] at h
          rw [List.length_cons, List.length_cons, ih h.2]

/-- Arguments that parameters accept have the types of the parameters once lowered. -/
theorem ensures_lowerAll (hb : b.Typed callees) {params : List PrimitiveType} {args : List Value}
    (hargs : ∀ v ∈ args, b.Knows v) (haccepts : b.acceptsParams params args = true) :
    (lowerAll (args.zip params)).Ensures callees b fun nodes b' =>
      b'.HavePrimitives nodes params := by
  induction params generalizing args b with
  | nil =>
      cases args with
      | nil => exact .pure hb .nil
      | cons v args => cases haccepts
  | cons p params ih =>
      cases args with
      | nil => cases haccepts
      | cons v args =>
          rw [Builder.acceptsParams, Bool.and_eq_true] at haccepts
          obtain ⟨hv, hargs⟩ := List.forall_mem_cons.mp hargs
          refine (ensures_lower hb hv (some p.scalar)).bind ?_
          intro e b₁ hext hb₁ ⟨he, hlowers⟩
          have hp : b₁.types.primitive? e.type = some p := by
            cases v with
            | expr e' =>
                obtain rfl : e = e' := hlowers
                exact Registry.primitive?_of_le hext.types (beq_iff_eq.mp haccepts.1)
            | host h =>
                have hscalar := (Bool.and_eq_true_iff.mp haccepts.1).1
                rw [Registry.primitive?_eq_some_iff, hlowers p.scalar rfl]
                rw [← PrimitiveType.eq_ofScalar_of_isScalar hscalar]
          have hrest := ih hb₁ (fun v hv => (hargs v hv).of_extends hext)
            (acceptsParams_of_extends hext haccepts.2)
          refine hrest.bind fun nodes b₂ hext' hb₂ hnodes => .pure hb₂ ?_
          exact .cons (hext'.primitiveOf? (he.primitiveOf? hp)) hnodes

theorem ensures_overloaded (hb : b.Typed callees) (f : Intrinsic) {args : List Value}
    (hargs : ∀ v ∈ args, b.Knows v) :
    (overloaded f args).Ensures callees b fun e b' => b'.Carries e := by
  refine .get_bind ?_
  split
  · exact .throw hb _
  · rename_i s hs
    have hmem := List.mem_of_find?_eq_some hs
    have haccepts : b.acceptsParams s.params args = true := by simpa using List.find?_some hs
    refine (ensures_lowerAll hb hargs haccepts).bind fun nodes b₁ hext hb₁ hnodes => ?_
    refine (ensures_primitive hb₁ (Intrinsic.fault_of_mem_signatures hmem)).bind ?_
    intro t b₂ hext' hb₂ ht
    rw [← (hext.trans hext').target_eq] at hmem
    exact (ensures_pushNode hb₂ (.overload hmem (hnodes.of_extends hext') ht)).mono
      fun _ _ _ h => h.1

/-! ### Textures -/

/-- The argument that a texture is taken from is a handle of a texture. -/
theorem ensures_textureArgument (hb : b.Typed callees) (f : Intrinsic) (arg : Option Value) :
    (textureArgument f arg).Ensures callees b fun x b' =>
      arg = some (.expr x.1) ∧ b'.types.kind x.1.type = .texture x.2.2 := by
  refine .get_bind ?_
  dsimp only
  split
  · rename_i e
    split
    · rename_i v t _ ht
      refine .ite (fun _ => .pure hb ⟨rfl, ?_⟩) fun _ => .throw hb _
      unfold Registry.texture? at ht
      split at ht
      · rw [← Option.some.inj ht]
        assumption
      · cases ht
    · exact .throw hb _
  · exact .throw hb _

theorem ensures_fetchSignature (hb : b.Typed callees) (name : String) (t : TextureType)
    (target : Target) (arity : Nat) :
    (fetchSignature name t).Ensures callees b fun s _ =>
      Intrinsic.textureLoad.textureSignature target t arity = s := by
  refine .reads_bind hb (reads_require _) fun _ _ => .refuse hb fun _ => ?_
  exact .when (fun _ => .rearranges hb (reads_require _).rearranges)
    (fun b₁ _ hb₁ => .pure hb₁ rfl) hb

/-- What a function on a texture asks for, if it works on such a texture. -/
theorem ensures_textureSignature (hb : b.Typed callees) (f : Intrinsic) (name : String)
    (t : TextureType) (arity : Nat) :
    (textureSignature f name t arity).Ensures callees b fun s _ =>
      f.textureSignature b.target t arity = s := by
  refine .get_bind ?_
  dsimp only
  split
  · refine .refuse hb fun _ => .when (fun _ => .rearranges hb (rearranges_remark _))
      (fun b₁ _ hb₁ => ?_) hb
    exact .pure hb₁ rfl
  · exact ensures_fetchSignature hb name t _ _
  · exact .reads_bind hb (reads_require _) fun _ _ => .pure hb rfl
  · rename_i hcompare hload hdimensions
    refine .refuse hb fun _ => .ite (fun hlevel => ?_) fun hlevel => .pure hb ?_
    · subst hlevel
      refine .stage_bind hb fun s _ => ?_
      exact .when (fun _ => .rearranges hb (rearranges_enable _)) (fun b₁ _ hb₁ => .pure hb₁ rfl) hb
    · unfold Intrinsic.textureSignature
      split <;> first | contradiction | rfl

theorem ensures_textureCall (hb : b.Typed callees) {f : Intrinsic} (hf : f.isTexture = true)
    {args : List Value} (hargs : ∀ v ∈ args, b.Knows v) :
    (textureCall f args).Ensures callees b fun e b' => b'.Carries e := by
  refine (ensures_textureArgument hb f _).bind fun (e, name, t) b₁ hext hb₁ ⟨harg, hkind⟩ => ?_
  dsimp only at harg hkind
  -- the texture is the first argument
  obtain ⟨rest, rfl⟩ : ∃ rest, args = .expr e :: rest := List.head?_eq_some_iff.mp harg
  obtain ⟨he, hrest⟩ := List.forall_mem_cons.mp fun v hv => (hargs v hv).of_extends hext
  refine (ensures_textureSignature hb₁ f name t _).bind fun s b₂ hext₂ hb₂ hs => .get_bind ?_
  refine .refuse hb₂ fun haccepts => ?_
  have hrest : ∀ v ∈ rest, b₂.Knows v := fun v hv => (hrest v hv).of_extends hext₂
  refine (ensures_lowerAll hb₂ hrest (by simpa using haccepts)).bind ?_
  intro nodes b₃ hext₃ hb₃ hnodes
  have hfault : s.result.fault = none := hs ▸ Intrinsic.fault_textureSignature _ _ _ _
  refine (ensures_primitive hb₃ hfault).bind fun u b₄ hext₄ hb₄ hu => ?_
  have hall := hext₂.trans (hext₃.trans hext₄)
  have hnodes := hnodes.of_extends hext₄
  have hlength : rest.length = nodes.length :=
    (length_of_acceptsParams (by simpa using haccepts)).symm.trans hnodes.length_eq.symm
  rw [← hall.target_eq, List.length_cons, hlength] at hs
  have hd : b₄.Dictates callees ⟨b₄.nodes.size⟩ (.intrinsic f (e.node :: nodes)) u :=
    .texture hf (hall.typeOf? he) (Registry.kind_of_le hall.types hkind (by simp)) hs hnodes hu
  exact (ensures_pushNode hb₄ hd).mono fun _ _ _ h => h.1

/-! ### Calls -/

theorem ensures_checkDerivative (hb : b.Typed callees) (f : Intrinsic) :
    (checkDerivative f).Ensures callees b fun _ _ => True := by
  refine .stage_bind hb fun s _ => .refuse hb fun _ => .get_bind ?_
  exact .ite (fun _ => .rearranges hb (rearranges_enable _)) fun _ => .pure hb trivial

theorem ensures_intrinsic (hb : b.Typed callees) (f : Intrinsic) {args : List Value}
    (hargs : ∀ v ∈ args, b.Knows v) :
    (intrinsic f args).Ensures callees b fun e b' => b'.Carries e := by
  have hcall : ∀ b', b.Extends b' → b'.Typed callees →
      (if f.isTexture then textureCall f args else overloaded f args).Ensures callees b'
        fun e b'' => b''.Carries e := by
    intro b' hext hb'
    have hargs : ∀ v ∈ args, b'.Knows v := fun v hv => (hargs v hv).of_extends hext
    exact .ite (fun hf => ensures_textureCall hb' hf hargs) fun _ => ensures_overloaded hb' f hargs
  refine .reads_bind hb reads_stage fun _ _ => ?_
  cases f.feature? with
  | none => exact .when (fun _ => ensures_checkDerivative hb f) hcall hb
  | some feature =>
      refine .reads_bind hb (reads_require _) fun _ _ => ?_
      exact .when (fun _ => ensures_checkDerivative hb f) hcall hb

end Intrinsics

end Build

end WebShader
