import WebShader.Proofs.ClosedStages

/-!
# Printed targets

What is assigned to is printed as a place in WGSL: a name or what a pointer points to, and fields
and elements of such. The only exception are matrices whose columns are padded. If a column of one
is chosen by an expression that is no literal, the matrix is rebuilt from its columns first, where
it is assigned to no less than where it is read.
-/

namespace WebShader

/-! ## Places of sources -/

/-- Whether an expression of a source can stand on the left of an assignment. -/
def Code.Expr.isPlace {τ : Type} : Code.Expr τ → Bool
  | name _ | deref _ => true
  | field base _ | index base _ => base.isPlace
  | literal _ | unary _ _ | binary _ _ _ | apply _ _ | floored _ _ | addressOf _ => false

/-- Whether a matrix is rebuilt on the way to a part: its columns are padded, and one of them is
chosen by what is no literal. -/
def Wgsl.rebuilds (s : ResolvedStage) : Term → Bool
  | .member _ base _ | .swizzle _ base _ => rebuilds s base
  | .index _ base i =>
    rebuilds s base || isPaddedPlace s base && (s.types.primitive? base.type).isSome &&
      (literalIndex? i).isNone
  | .literal _ _ | .var _ _ | .builtin _ _ | .unary _ _ _ | .binary _ _ _ _ | .construct _ _
  | .call _ _ _ | .intrinsic _ _ _ | .addressOf _ _ | .deref _ _ => false

/-! ## Masks -/

/-- What components are selected of is a vector. -/
def Term.SelectsOfVector (r : Registry) : Term → Prop
  | swizzle _ base _ => ∃ p, r.kind base.type = .primitive p ∧ p.isVector = true
  | _ => True

/-- Typed expressions only select of vectors. -/
theorem Builder.Typed.selectsOfVectors {b : Builder} {callees : Callees} (hb : b.Typed callees)
    {n : NodeId} {e : Term} (h : b.term n = .ok e) : e.Every (Term.SelectsOfVector b.types) := by
  refine hb.every (fun {m node e} hroots hdictated => ?_) h
  cases hroots with
  | swizzle _ _ hbase =>
      cases hdictated with
      | swizzle hp hvector =>
          rw [primitiveOf?, typeOf?_of_term hbase, Option.bind_some,
            Registry.primitive?_eq_some_iff] at hp
          exact ⟨_, hp, hvector⟩
  | _ => trivial

/-! ## Lowered places -/

namespace Wgsl

variable {s : ResolvedStage}

/-- A struct and a vector are spelled without wrappers. -/
theorem converted_of_wrapped? {e : Term} (h : wrapped? s.types e.type = none) (c : Expr) :
    converted s e c = .ok c := by
  rw [converted, isPaddedPlace, isPadded, h, Option.isSome_none, Bool.and_false]
  rfl

/-- No struct is wrapped. -/
theorem wrapped?_of_struct {r : Registry} {t : TypeId} {st : StructType}
    (h : r.kind t = .struct st) : wrapped? r t = none := by
  rw [wrapped?, h]

/-- No vector is wrapped. -/
theorem wrapped?_of_vector {r : Registry} {t : TypeId} {p : PrimitiveType}
    (h : r.kind t = .primitive p) (hp : p.isVector = true) : wrapped? r t = none := by
  have hcols : p.cols = 1 := beq_iff_eq.mp (Bool.and_eq_true_iff.mp hp).1
  rw [wrapped?, h]
  dsimp only
  rw [isPaddedMatrix, PrimitiveType.isMatrix, hcols]
  rfl

/-- A variable is a place. -/
theorem isPlace_variableExpr {v : VarId} {c : Expr} (h : variableExpr s v = .ok c) :
    c.isPlace = true := by
  simp only [variableExpr, bind_eq_ok_iff] at h
  obtain ⟨d, -, h⟩ := h
  split at h
  all_goals
    first
    | rw [← Except.ok.inj h]
      rfl
    | obtain ⟨_, -, h⟩ := bind_eq_ok_iff.mp h
      rw [← Except.ok.inj h]
      rfl

/-- A part of something padded is a place if it is no column that what is no literal chooses. -/
theorem isPlace_wrappedElement {r : Registry} {t : TypeId} {b c index : Expr} {known : Option Nat}
    (hpadded : isPadded r t = true) (h : wrappedElement r t b known index = .ok c) :
    c.isPlace = (b.isPlace && !((r.primitive? t).isSome && known.isNone)) := by
  unfold wrappedElement at h
  split at h
  · rename_i p hkind
    rw [Registry.primitive?_eq_some_iff.mpr hkind]
    split at h
    · rw [← Except.ok.inj h]
      simp [Code.Expr.isPlace]
    · -- the matrix is built anew from its columns
      have hmatrix : isPaddedMatrix p = true := by
        rw [isPadded, wrapped?, hkind] at hpadded
        by_contra hnot
        dsimp only at hpadded
        rw [if_neg hnot] at hpadded
        cases hpadded
      rw [load, hkind] at h
      dsimp only at h
      rw [if_pos hmatrix] at h
      rw [← Except.ok.inj h]
      exact (Bool.and_false _).symm
  · rename_i element n hkind
    have hnone : r.primitive? t = none := by
      rw [Registry.primitive?, hkind]
    rw [hnone]
    split at h
    · rw [← Except.ok.inj h]
      simp [Code.Expr.isPlace]
    · rw [← Except.ok.inj h]
      simp [Code.Expr.isPlace]
  · cases h

/-- What may be assigned to is spelled as a place, unless a matrix is rebuilt on the way to it. -/
theorem isPlace_place : (e : Term) → {c : Expr} → e.IsPlace s.types s.vars →
    e.Every (Term.SelectsOfVector s.types) → place s e = .ok c → c.isPlace = !rebuilds s e
  | .var _ v, c, _, _, h => by
      rw [place] at h
      rw [isPlace_variableExpr h, rebuilds]
      rfl
  | .builtin _ x, c, _, _, h => by
      rw [place] at h
      rw [← Except.ok.inj h, rebuilds]
      cases x.isOutput <;> rfl
  | .member _ base i, c, hplace, hselects, h => by
      have hbelow := hselects.operand rfl
      simp only [place, bind_eq_ok_iff] at h
      obtain ⟨m, -, p, hp, value, hvalue, h⟩ := h
      cases hplace with
      | member hbase hstruct hm =>
          rw [converted_of_wrapped? (wrapped?_of_struct hstruct)] at hvalue
          rw [← Except.ok.inj hvalue] at h
          rw [← Except.ok.inj h, rebuilds, ← isPlace_place base hbase hbelow hp]
          rfl
  | .swizzle _ base mask, c, hplace, hselects, h => by
      obtain ⟨v, hkind, hvector⟩ := hselects.self
      have hbelow := hselects.operand rfl
      simp only [place, bind_eq_ok_iff] at h
      obtain ⟨p, hp, value, hvalue, h⟩ := h
      cases hplace with
      | swizzle _ _ hbase =>
          rw [converted_of_wrapped? (wrapped?_of_vector hkind hvector)] at hvalue
          rw [← Except.ok.inj hvalue] at h
          rw [← Except.ok.inj h, rebuilds, ← isPlace_place base hbase hbelow hp]
          rfl
  | .index _ base i, c, hplace, hselects, h => by
      have hbelow := (hselects.pair rfl).1
      simp only [place, bind_eq_ok_iff] at h
      obtain ⟨b, hb, p, -, index, -, h⟩ := h
      have hbase : base.IsPlace s.types s.vars := by
        cases hplace with
        | element _ hbase _ => exact hbase
        | component _ hbase _ _ => exact hbase
      have hplace := isPlace_place base hbase hbelow hb
      rw [rebuilds, Bool.not_or, ← hplace]
      by_cases hpadded : isPaddedPlace s base = true
      · rw [if_pos hpadded] at h
        rw [hpadded, Bool.true_and]
        exact isPlace_wrappedElement (Bool.and_eq_true_iff.mp hpadded).2 h
      · rw [if_neg hpadded] at h
        rw [← Except.ok.inj h, Bool.eq_false_iff.mpr hpadded]
        simp [Code.Expr.isPlace]
  | .deref _ pointer, c, _, _, h => by
      simp only [place, bind_eq_ok_iff] at h
      obtain ⟨p, -, value, -, h⟩ := h
      rw [← Except.ok.inj h, rebuilds]
      rfl

/-! ## Assignments -/

/-- What an assignment of WGSL assigns to. -/
theorem assign_eq_ok {target value : Term} {op : Option BinaryOp} {code : Stmt}
    (h : assign s target op value = .ok code) :
    ∃ t op' v, code = .assign t op' v ∧ place s target = .ok t := by
  unfold assign at h
  split at h
  · simp only [assignWrapped, bind_eq_ok_iff] at h
    obtain ⟨t, ht, v, -, h⟩ := h
    cases op with
    | none | some =>
        simp only [bind_eq_ok_iff] at h
        obtain ⟨combined, -, stored, -, h⟩ := h
        exact ⟨t, none, stored, (Except.ok.inj h).symm, ht⟩
  · rename_i hpadded
    simp only [assignPlain, bind_eq_ok_iff] at h
    obtain ⟨t, ht, v, -, h⟩ := h
    obtain ⟨p, hp, ht⟩ := bind_eq_ok_iff.mp ht
    rw [converted, if_neg hpadded] at ht
    obtain rfl := Except.ok.inj ht
    split at h
    · exact ⟨p, none, v, (Except.ok.inj h).symm, hp⟩
    · split at h
      · exact ⟨p, none, _, (Except.ok.inj h).symm, hp⟩
      · split at h
        · exact ⟨p, _, _, (Except.ok.inj h).symm, hp⟩
        · exact ⟨p, _, v, (Except.ok.inj h).symm, hp⟩

/-- However a term is assigned to, the left side that is printed is a place, unless a matrix is
rebuilt on the way to it. -/
def AssignsPlaces (s : ResolvedStage) (target : Term) : Prop :=
  ∀ op value code, assign s target op value = .ok code →
    ∃ t op' v, code = .assign t op' v ∧ t.isPlace = !rebuilds s target

/-- What is a place is assigned as one. -/
theorem assignsPlaces_of_isPlace {target : Term} (hplace : target.IsPlace s.types s.vars)
    (hselects : target.Every (Term.SelectsOfVector s.types)) : AssignsPlaces s target := by
  intro op value code h
  obtain ⟨t, op', v, rfl, ht⟩ := assign_eq_ok h
  exact ⟨t, op', v, rfl, isPlace_place target hplace hselects ht⟩

end Wgsl

/-! ## Stages -/

section Stages

variable {b : Builder} {callees : Callees} {plan : Binding.Plan} {st : BuiltStage}
  {s : ResolvedStage}

/-- All assignments of the functions and of the entry point are printed with places on the left,
unless a matrix is rebuilt on the way to what is assigned to. -/
structure ResolvedStage.AssignsPlaces (s : ResolvedStage) : Prop where
  bodies : ∀ f ∈ s.functions, Stmt.BlockMeets (fun _ => True) (Wgsl.AssignsPlaces s) f.2
  main : Stmt.BlockMeets (fun _ => True) (Wgsl.AssignsPlaces s) s.main

/-- What the builder lets an author assign to is printed as a place or rebuilt. -/
theorem Builder.Typed.assignsPlaces (hb : b.Typed callees) (hs : b.resolve plan st = .ok s)
    {n : NodeId} {e : Term} (hplace : b.checkPlace n = .ok ()) (hterm : b.term n = .ok e) :
    Wgsl.AssignsPlaces s e := by
  have htypes := Builder.types_of_resolve hs
  have hvars := (Builder.resolve_eq_ok hs).2.1
  refine Wgsl.assignsPlaces_of_isPlace ?_ ?_
  · rw [htypes, hvars]
    exact hb.isPlace hplace hterm
  · rw [htypes]
    exact hb.selectsOfVectors hterm

/-- What a stage admits assigns places. -/
theorem Builder.Admits.assignsPlaces {which : Stage} {body : Block} {body' : List (Stmt Term)}
    (h : b.Admits which body) (hb : b.Typed callees) (hs : b.resolve plan st = .ok s)
    (hbody : Stmt.traverseBlock b.term body = .ok body') :
    Stmt.BlockMeets (fun _ => True) (Wgsl.AssignsPlaces s) body' :=
  Stmt.BlockMeets.imp (fun _ _ => trivial)
    (fun _ ⟨_, hplace, hterm⟩ => hb.assignsPlaces hs hplace hterm) body'
    (Stmt.BlockMeets.traverse body hbody h)

/-- A stage that is built assigns places. -/
theorem BuiltStage.IsOwn.assignsPlaces (h : st.IsOwn b) (hb : b.Typed callees)
    (hs : b.resolve plan st = .ok s) : s.AssignsPlaces := by
  obtain ⟨-, -, -, -, -, hfunctions, hmain⟩ := Builder.resolve_eq_ok hs
  constructor
  · intro g hg
    obtain ⟨f, hf, hresolved⟩ := exists_mem_of_forall₂ hfunctions g hg
    exact (h.functions f hf).2.assignsPlaces hb hs (Builder.resolveFunction_eq_ok hresolved).2
  · exact h.main.assignsPlaces hb hs hmain

end Stages

namespace Script

open Authoring

/-- In every stage that a script builds, whichever of its steps fail, and whatever has been recorded
when it is resolved, what is assigned to is printed as a place exactly if no padded matrix is
indexed, on the way to it, by what is no literal. -/
theorem stage_assignsPlaces {s s' : Builder × Notes} {which : Stage} {earlier : List VarId}
    {tolerant : Bool} {steps : Script} {built : BuiltStage}
    (hrun : (stage which earlier (body (runAll tolerant steps))).runFrom s = (.ok built, s'))
    {b : Builder} {callees : Callees} (hgrows : s'.1.Grows b) (hb : b.Typed callees)
    {plan : Binding.Plan} {resolved : ResolvedStage}
    (hresolved : b.resolve plan built = .ok resolved) : resolved.AssignsPlaces := by
  obtain ⟨-, -, hown⟩ := stage_isOwn (retains_body tolerant steps) hrun
  exact (hown.grows hgrows).assignsPlaces hb hresolved

/-- Whether matrices are rebuilt on the way to what the entry point of a stage assigns to. -/
def rebuiltTargets (steps : Script) : Except ShaderError (List Bool) := do
  let run := (stage .compute [] (body (runAll false steps))).runFrom
    (Builder.new { target := .webGPU }, {})
  let resolved ← run.2.1.resolve {} (← run.1)
  return resolved.main.filterMap fun
    | .assign target _ _ => some (Wgsl.rebuilds resolved target)
    | _ => none

/-- A column of a padded matrix is set, chosen by a literal or by a variable. -/
def columnSteps (index : Operand) : Script :=
  [(false, .main [
    (false, .operation (.declareVar "s" (.struct (some "S") .std140 [("m", .matrix 2 2)])) none),
    (false, .operation (.declareLocal "i" (.host (.int 1))) none),
    (false, .operation (.member "s" "m") (some "m")),
    (false, .operation (.element "m" index) (some "c")),
    (false, .operation (.assign "c" (.named "c")) none)])]

example : (rebuiltTargets (columnSteps (.host (.int 1)))).toOption = some [false] := by
  decide +kernel

example : (rebuiltTargets (columnSteps (.named "i"))).toOption = some [true] := by
  decide +kernel

end Script

end WebShader
