import WebShader.Proofs.AcceptedArguments
import WebShader.Proofs.AssignedMemory
import WebShader.Proofs.TypedScripts

/-!
# Addressed places

The variable that an address is taken of is looked for past members, elements and swizzles. The
check of an assignment goes the same way back and asks more: in WGSL every swizzle on the way must
select a single component. What a pointer points to is not asked anything, so that an assignment
through the address of a wide swizzle is recorded where the direct one is refused.
-/

namespace WebShader

/-! ## The way back -/

namespace Builder

/-- The masks that are selected between an expression and the variable it is a part of, the last one
first. -/
def masks (b : Builder) (n : NodeId) : List Swizzle :=
  match b.node? n with
  | some ⟨_, .swizzle base s⟩ => s :: if base.index < n.index then b.masks base else []
  | some ⟨_, .member base _⟩ | some ⟨_, .index base _⟩ =>
    if base.index < n.index then b.masks base else []
  | _ => []
termination_by n.index

/-- Refuse masks that cannot be assigned through. -/
def checkMasks (target : Target) : List Swizzle → Except ShaderError Unit
  | [] => .ok ()
  | s :: rest => do
    checkSwizzlePlace target s
    checkMasks target rest

variable {b : Builder}

/-- A part of a variable is a place if every mask on the way back and then the variable pass. -/
theorem checkPlace_of_root? {n : NodeId} {v : VarId} {d : Variable} (hv : b.var? v = some d)
    (h : b.root? n = some v) :
    b.checkPlace n = checkMasks b.target (b.masks n) >>= fun _ => checkVarPlace d := by
  rw [root?] at h
  split at h
  · rename_i t w hn
    rw [Option.some.inj h] at hn
    rw [checkPlace, masks, hn]
    simp only [hv]
    rfl
  · rename_i base i hn
    split at h
    · rename_i hlt
      rw [checkPlace, masks, hn]
      simp only [hlt, if_true]
      exact checkPlace_of_root? hv h
    · cases h
  · rename_i base s hn
    split at h
    · rename_i hlt
      rw [checkPlace, masks, hn]
      simp only [hlt, if_true, checkMasks]
      rw [checkPlace_of_root? hv h]
      cases checkSwizzlePlace b.target s <;> rfl
    · cases h
  · rename_i base i hn
    split at h
    · rename_i hlt
      rw [checkPlace, masks, hn]
      simp only [hlt, if_true]
      exact checkPlace_of_root? hv h
    · cases h
  · cases h
termination_by n.index

/-- In WGSL a mask of several components cannot be assigned through. -/
theorem checkSwizzlePlace_webGPU {s : Swizzle} :
    checkSwizzlePlace .webGPU s = .ok () ↔ s.length ≤ 1 := by
  have hunique : s.length ≤ 1 → s.isUnique = true := by
    intro h
    rcases s with ⟨components, letters⟩
    cases components with
    | nil => rfl
    | cons c rest =>
        cases rest with
        | nil => rfl
        | cons c' rest => simp [Swizzle.length] at h
  unfold checkSwizzlePlace
  by_cases h : s.length ≤ 1
  · simp [h, hunique h]
  · simp only [h, iff_false]
    split
    · simp
    · rw [if_pos (by simpa using h)]
      simp

/-- A place passes the check of its masks exactly if each of them picks one component. -/
theorem checkMasks_eq_ok_iff {masks : List Swizzle} :
    checkMasks .webGPU masks = .ok () ↔ ∀ s ∈ masks, s.length ≤ 1 := by
  induction masks with
  | nil => simp [checkMasks]
  | cons s rest ih =>
      rw [List.forall_mem_cons, ← checkSwizzlePlace_webGPU, ← ih, checkMasks]
      cases checkSwizzlePlace .webGPU s with
      | error e => exact ⟨fun h => (by cases h), fun h => (by cases h.1)⟩
      | ok _ => exact ⟨fun h => ⟨rfl, h⟩, fun h => h.2⟩

end Builder

/-! ## Assignments -/

namespace Build

open Builder (run_bind_eq_ok_iff run_get_bind)

variable {b b' : Builder} {callees : Callees} {place a value : Expr}

/-- An address is only taken in WGSL, and of a variable that can be written to. -/
theorem root_of_run_addressOf (h : b.run (addressOf place) = (.ok a, b')) :
    b.target = .webGPU ∧ ∃ v d, b.root? place.node = some v ∧ b.var? v = some d ∧
      d.role.isWritable = true := by
  obtain ⟨_, b₁, hrequire, hrest⟩ := run_bind_eq_ok_iff.mp h
  obtain ⟨hsupports, rfl⟩ := run_require_eq_ok_iff.mp hrequire
  refine ⟨beq_iff_eq.mp hsupports, ?_⟩
  rw [run_get_bind] at hrest
  split at hrest
  · cases (Prod.mk.inj hrest).1
  · rename_i d hd
    obtain ⟨v, hroot, hv⟩ := Option.bind_eq_some_iff.mp hd
    split at hrest
    · cases (Prod.mk.inj hrest).1
    · rename_i space hspace
      exact ⟨v, d, hroot, hv, (isWritable_of_addressSpace? hspace).1⟩

/-- In WGSL a part of a variable has an address if its memory has addresses. -/
theorem succeeds_addressOf {v : VarId} {d : Variable} {space : AddressSpace}
    (htarget : b.target = .webGPU) (hroot : b.root? place.node = some v) (hv : b.var? v = some d)
    (hspace : addressSpace? d.role = some space)
    (hstorable : (b.types.kind place.type).isStorable = true) : (addressOf place).Succeeds b := by
  have hintern : (intern (Interning.pointer place.type space)).Succeeds b := by
    have hinsert : ∃ t, (b.types.run (Interning.pointer place.type space)).1 = .ok t := by
      rw [Interning.pointer, Registry.run_bind, Registry.run_get]
      dsimp only
      rw [if_neg (by simp [hstorable]), Interning.insert, Registry.run_bind, Registry.run_get]
      dsimp only
      cases b.types.withKey? _ <;> exact ⟨_, rfl⟩
    obtain ⟨t, ht⟩ := hinsert
    refine ⟨t, { b with types := (b.types.run (Interning.pointer place.type space)).2 }, ?_⟩
    rw [Builder.run_intern, ht]
  refine (succeeds_require (f := .pointer) (by rw [htarget]; rfl)).bind fun _ b₁ hrequire => ?_
  obtain ⟨-, rfl⟩ := run_require_eq_ok_iff.mp hrequire
  refine .get_bind ?_
  simp only [hroot, Option.bind_some, hv, hspace]
  exact hintern.bind fun t b' _ => succeeds_pushNode t _

/-- What has an address is refused as a place for the masks on its way alone. -/
theorem checkPlace_of_addressed (h : b.run (addressOf place) = (.ok a, b')) :
    b.checkPlace place.node = Builder.checkMasks .webGPU (b.masks place.node) := by
  obtain ⟨htarget, v, d, hroot, hv, hwritable⟩ := root_of_run_addressOf h
  rw [Builder.checkPlace_of_root? hv hroot, htarget, Builder.checkVarPlace, if_pos hwritable]
  cases Builder.checkMasks .webGPU (b.masks place.node) <;> rfl

/-- The value of an assignment that has the type of the place is left as it is. -/
theorem run_assign_of_type (place : Expr) (hvalue : value.type = place.type) :
    b.run (assign place (.expr value)) = b.run (do
      b.checkPlace place.node
      emit (.assign place.node none value.node)) := by
  have hlower : b.run (coerce (.expr value) place.type "assignment") = (.ok value, b) := by
    rw [coerce, run_get_bind, lowerNear_expr, pure_bind, run_get_bind, if_neg (by simp [hvalue])]
    rfl
  rw [assign, run_get_bind, Builder.run_bind, Builder.run_bind, Builder.run_liftM]
  cases b.checkPlace place.node with
  | error e => rfl
  | ok _ =>
      dsimp only
      rw [Builder.run_bind, hlower]

/-- What has an address can be assigned to if every mask on the way selects a single component, and
is refused otherwise. What its address points to can always be assigned to. -/
theorem assign_addressed (hb : b.Typed callees) (hplace : b.Carries place)
    (h : b.run (addressOf place) = (.ok a, b')) :
    (b.checkPlace place.node = .ok () ↔ ∀ s ∈ b.masks place.node, s.length ≤ 1) ∧
    ∃ d b'', b'.run (deref a) = (.ok d, b'') ∧ d.type = place.type ∧
      ∀ value : Expr, value.type = place.type →
        b''.run (assign d (.expr value)) = b''.run (emit (.assign d.node none value.node)) := by
  constructor
  · rw [checkPlace_of_addressed h]
    exact Builder.checkMasks_eq_ok_iff
  · -- the check of a place ends at a dereference, whatever the pointer was made from
    obtain ⟨-, -, hpost⟩ := ensures_addressOf_space hb hplace
    obtain ⟨v, space, -, -, -, hkind⟩ := hpost a b' h
    have hrun : b'.run (deref a) = b'.run (pushNode place.type (.deref a.node)) := by
      rw [deref, run_get_bind]
      dsimp only
      rw [hkind]
    refine ⟨⟨⟨b'.nodes.size⟩, place.type⟩,
      { b' with nodes := b'.nodes.push ⟨place.type, .deref a.node⟩ }, hrun, rfl,
      fun value hvalue => ?_⟩
    have hpointee : Builder.checkPlace
        { b' with nodes := b'.nodes.push ⟨place.type, .deref a.node⟩ } ⟨b'.nodes.size⟩ =
          .ok () := by
      rw [Builder.checkPlace]
      simp [Builder.node?]
    rw [run_assign_of_type ⟨⟨b'.nodes.size⟩, place.type⟩ hvalue, Builder.run_bind,
      Builder.run_liftM, hpointee]

end Build

/-! ## A pair of components -/

namespace Script

/-- Two components of a local variable. -/
def pairs : Script :=
  [(false, .main
    [(false, .operation (.declareVar "v" (.primitive (.vector .f32 3))) none),
      (false, .operation (.swizzle "v" "xy") (some "pair"))])]

/-- Two components of a variable cannot be assigned to together, but they have an address. -/
theorem pair_addressed : ∃ s : Session, s.Reachable ∧ ∃ place ∈ s.known,
    (Build.addressOf place).Succeeds s.builder ∧ s.builder.checkPlace place.node ≠ .ok () := by
  have hnew : Session.Reachable { builder := .new { target := .webGPU } } := .new _
  have hopened := hnew.opened .compute
  obtain ⟨s, hs, hb, hknown⟩ :=
    sessions_follow_rules.2 _ {} hopened (by simp [Session.KnowsNames]) false pairs
  let place : Expr := ⟨⟨1⟩, ⟨1⟩⟩
  have hplace : place ∈ s.known := hknown ("pair", place) (by decide +kernel)
  have hvar : s.builder.node? ⟨0⟩ = some ⟨⟨0⟩, .var ⟨0⟩⟩ := by
    rw [hb]
    decide +kernel
  have hpair : s.builder.node? ⟨1⟩ = some ⟨⟨1⟩, .swizzle ⟨0⟩ ⟨[.x, .y], .position⟩⟩ := by
    rw [hb]
    decide +kernel
  have hlocal : (s.builder.var? ⟨0⟩).map (·.role) = some .localVar := by
    rw [hb]
    decide +kernel
  obtain ⟨d, hd, hrole⟩ := Option.map_eq_some_iff.mp hlocal
  -- the address is that of the vector, through the swizzle
  have hroot : s.builder.root? place.node = some ⟨0⟩ := by
    rw [Builder.root?, hpair]
    simp only [show (0 : Nat) < place.node.index from Nat.one_pos, if_true]
    rw [Builder.root?, hvar]
  have hmasks : s.builder.masks place.node = [⟨[.x, .y], .position⟩] := by
    rw [Builder.masks, hpair]
    simp only [show (0 : Nat) < place.node.index from Nat.one_pos, if_true]
    rw [Builder.masks, hvar]
  have hsucceeds : (Build.addressOf place).Succeeds s.builder := by
    have hspace : Build.addressSpace? d.role = some .function := by rw [hrole]; rfl
    refine Build.succeeds_addressOf ?_ hroot hd hspace ?_
    · rw [hb]
      decide +kernel
    · rw [hb]
      decide +kernel
  refine ⟨s, hs, place, hplace, hsucceeds, ?_⟩
  obtain ⟨a, b', hrun⟩ := hsucceeds
  rw [Build.checkPlace_of_addressed hrun, hmasks, ne_eq, Builder.checkMasks_eq_ok_iff]
  simp [Swizzle.length]

end Script

end WebShader
