import WebShader.Intrinsic.Call
import WebShader.Proofs.ScalarTypes

/-!
# Overloads of built-in functions

Each overload of a built-in function is on components of one type. Whether the target has that type
is not looked at when an overload is chosen: those on half-precision floats come after the same ones
on single-precision floats, which accept the same host values, so they are only chosen for
expressions of half precision.
-/

namespace WebShader

/-- What fits a half-precision float fits a single-precision one. -/
theorem HostValue.fits_f32_of_f16 {v : HostValue} (h : v.fits .f16 = true) :
    v.fits .f32 = true := by
  cases v with
  | bool b => cases h
  | int i =>
      have hexact : oddPart i.natAbs < Nat.pow 2 11 := by
        simpa [isExactIn] using (Bool.and_eq_true_iff.mp h).1
      have hpow : Nat.pow 2 11 ≤ Nat.pow 2 24 := by decide
      simpa [fits, isExactIn] using Nat.lt_of_lt_of_le hexact hpow
  | float x =>
      have hmax : Binary.maxHalf ≤ Binary.maxSingle := by decide
      cases x with
      | finite sign m e =>
          simp only [fits, Binary.isWithin, decide_eq_true_eq] at h ⊢
          exact Nat.le_trans h (Nat.mul_le_mul_right _ hmax)
      | _ => cases h

namespace Intrinsic

/-! ## Overloads of one component type -/

/-- The parameters and the result of an overload have components of one type. -/
structure Signature.IsOf (k : ScalarKind) (s : Signature) : Prop where
  params : ∀ p ∈ s.params, p.scalar = k
  result : s.result.scalar = k

/-- The same overload for another component type. -/
def Signature.withScalar (s : Signature) (k : ScalarKind) : Signature :=
  ⟨s.params.map (·.withScalar k), s.result.withScalar k⟩

/-- An overload whose arguments and result are all of one type. -/
theorem isOf_uniformly (arity : Nat) (k : ScalarKind) (n : UInt8) : (uniformly arity k n).IsOf k :=
  ⟨fun p hp => by rw [List.eq_of_mem_replicate hp]; rfl, rfl⟩

/-- An overload that gives one component. -/
theorem isOf_toScalar (arity : Nat) (k : ScalarKind) (n : UInt8) : (toScalar arity k n).IsOf k :=
  ⟨fun p hp => by rw [List.eq_of_mem_replicate hp]; rfl, rfl⟩

/-- An overload whose last argument is one component. -/
theorem isOf_withScalarLast (arity : Nat) (k : ScalarKind) (n : UInt8) :
    (withScalarLast arity k n).IsOf k := by
  refine ⟨fun p hp => ?_, rfl⟩
  rcases List.mem_append.mp hp with hp | hp
  · rw [List.eq_of_mem_replicate hp]
    rfl
  · rw [List.mem_singleton.mp hp]
    rfl

/-! ## The order of overloads -/

/-- Every overload of a list is on components of one type, which the target has unless they are
half-precision floats: then the same overload on single-precision floats comes before. -/
def Ranked (target : Target) (l : List Signature) : Prop :=
  ∀ (i : Nat) (s : Signature), l[i]? = some s → ∃ k, s.IsOf k ∧ (target.supportsScalar k = true ∨
    k = .f16 ∧ ∃ j < i, l[j]? = some (s.withScalar .f32))

variable {target : Target} {l l' : List Signature}

/-- Two ranked lists of overloads in a row are ranked. -/
theorem Ranked.append (h : Ranked target l) (h' : Ranked target l') : Ranked target (l ++ l') := by
  intro i s hs
  rcases Nat.lt_or_ge i l.length with hlt | hle
  · rw [List.getElem?_append_left hlt] at hs
    obtain ⟨k, hk, hsupports | ⟨hhalf, j, hj, hfull⟩⟩ := h i s hs
    · exact ⟨k, hk, Or.inl hsupports⟩
    · refine ⟨k, hk, Or.inr ⟨hhalf, j, hj, ?_⟩⟩
      rwa [List.getElem?_append_left (Nat.lt_trans hj hlt)]
  · rw [List.getElem?_append_right hle] at hs
    obtain ⟨k, hk, hsupports | ⟨hhalf, j, hj, hfull⟩⟩ := h' _ s hs
    · exact ⟨k, hk, Or.inl hsupports⟩
    · refine ⟨k, hk, Or.inr ⟨hhalf, l.length + j, by omega, ?_⟩⟩
      rwa [List.getElem?_append_right (Nat.le_add_right _ _), Nat.add_sub_cancel_left]

/-- Overloads of kinds that the target has are ranked. -/
theorem ranked_of_supported (h : ∀ s ∈ l, ∃ k, s.IsOf k ∧ target.supportsScalar k = true) :
    Ranked target l := by
  intro i s hs
  obtain ⟨k, hk, hsupports⟩ := h s (List.mem_of_getElem? hs)
  exact ⟨k, hk, Or.inl hsupports⟩

/-- The overloads on half-precision floats follow those on single-precision floats. -/
theorem ranked_floats {g : ScalarKind → List Signature} (hg : ∀ k, ∀ s ∈ g k, s.IsOf k)
    (hhalf : (g .f16).map (·.withScalar .f32) = g .f32) : Ranked target (floats.flatMap g) := by
  have hlength : (g .f16).length = (g .f32).length := by rw [← hhalf, List.length_map]
  intro i s hs
  rw [floats, List.flatMap_cons, List.flatMap_cons, List.flatMap_nil, List.append_nil] at hs ⊢
  rcases Nat.lt_or_ge i (g .f32).length with hlt | hle
  · rw [List.getElem?_append_left hlt] at hs
    exact ⟨.f32, hg _ s (List.mem_of_getElem? hs), Or.inl rfl⟩
  · rw [List.getElem?_append_right hle] at hs
    have hlt := (List.getElem?_eq_some_iff.mp hs).1
    have hfull : (g .f32)[i - (g .f32).length]? = some (s.withScalar .f32) := by
      conv_lhs => rw [← hhalf]
      rw [List.getElem?_map, List.length_map, hlength, hs, Option.map_some]
    refine ⟨.f16, hg _ s (List.mem_of_getElem? hs), Or.inr ⟨rfl, i - (g .f32).length, by omega, ?_⟩⟩
    rw [List.getElem?_append_left (by omega), hfull]

/-- Overloads for each of the sizes, on either kind of floats. -/
theorem ranked_overloads_floats (sizes : List UInt8) {f : ScalarKind → UInt8 → Signature}
    (hf : ∀ k n, (f k n).IsOf k) (hhalf : ∀ n, (f .f16 n).withScalar .f32 = f .f32 n) :
    Ranked target (overloads floats sizes f) := by
  refine ranked_floats (fun k s hs => ?_) ?_
  · obtain ⟨n, -, rfl⟩ := List.mem_map.mp hs
    exact hf k n
  · rw [List.map_map]
    exact List.map_congr_left fun n _ => hhalf n

/-- The kinds of integers of a target are those it has. -/
theorem supportsScalar_of_mem_integers {k : ScalarKind} (h : k ∈ integers target) :
    target.supportsScalar k = true := by
  cases target with
  | webGL => cases h
  | webGL2 | webGPU => rcases List.mem_pair.mp h with rfl | rfl <;> rfl

/-- Overloads on components that the target has. -/
theorem ranked_overloads_of_supported {kinds : List ScalarKind}
    (hkinds : ∀ k ∈ kinds, target.supportsScalar k = true) (sizes : List UInt8)
    {f : ScalarKind → UInt8 → Signature} (hf : ∀ k n, (f k n).IsOf k) :
    Ranked target (overloads kinds sizes f) := by
  refine ranked_of_supported fun s hs => ?_
  obtain ⟨k, hk, hs⟩ := List.mem_flatMap.mp hs
  obtain ⟨n, -, rfl⟩ := List.mem_map.mp hs
  exact ⟨k, hf k n, hkinds k hk⟩

/-- The overloads of a built-in function are ranked. -/
theorem ranked_signatures (target : Target) (f : Intrinsic) :
    Ranked target (f.signatures target) := by
  have huniform : ∀ arity sizes, Ranked target (overloads floats sizes (uniformly arity)) :=
    fun arity sizes => ranked_overloads_floats sizes (isOf_uniformly arity) fun n => by
      simp [Signature.withScalar, uniformly, PrimitiveType.withScalar, PrimitiveType.vector]
  have hlast : ∀ arity sizes, Ranked target (overloads floats sizes (withScalarLast arity)) :=
    fun arity sizes => ranked_overloads_floats sizes (isOf_withScalarLast arity) fun n => by
      simp [Signature.withScalar, withScalarLast, PrimitiveType.withScalar, PrimitiveType.vector,
        PrimitiveType.ofScalar]
  have hscalar : ∀ arity sizes, Ranked target (overloads floats sizes (toScalar arity)) :=
    fun arity sizes => ranked_overloads_floats sizes (isOf_toScalar arity) fun n => by
      simp [Signature.withScalar, toScalar, PrimitiveType.withScalar, PrimitiveType.vector,
        PrimitiveType.ofScalar]
  have hintegers : ∀ arity sizes,
      Ranked target (overloads (integers target) sizes (uniformly arity)) :=
    fun arity sizes => ranked_overloads_of_supported (fun _ => supportsScalar_of_mem_integers) sizes
      (isOf_uniformly arity)
  have hsigned : ∀ arity sizes,
      Ranked target (overloads ((integers target).take 1) sizes (uniformly arity)) :=
    fun arity sizes => ranked_overloads_of_supported
      (fun _ hk => supportsScalar_of_mem_integers (List.mem_of_mem_take hk)) sizes
      (isOf_uniformly arity)
  -- each function takes its overloads from these lists
  cases f with
  | radians | degrees | sin | cos | tan | asin | acos | atan | exp | exp2 | log | log2 | sqrt
  | inverseSqrt | floor | ceil | fract | trunc | round | dpdx | dpdy | fwidth | normalize =>
      exact huniform 1 _
  | atan2 | pow | step | cross | reflect => exact huniform 2 _
  | smoothstep | faceForward => exact huniform 3 _
  | abs | sign => exact (huniform 1 _).append (hsigned 1 _)
  | mod => exact (huniform 2 _).append (hlast 1 _)
  | min | max => exact (huniform 2 _).append (hintegers 2 _)
  | clamp => exact (huniform 3 _).append (hintegers 3 _)
  | mix => exact (huniform 3 _).append (hlast 2 _)
  | length => exact hscalar 1 _
  | distance | dot => exact hscalar 2 _
  | refract => exact hlast 2 _
  | transpose =>
      refine ranked_floats (fun k s hs => ?_) rfl
      obtain ⟨cols, -, hs⟩ := List.mem_flatMap.mp hs
      obtain ⟨rows, -, rfl⟩ := List.mem_map.mp hs
      exact ⟨fun p hp => by rw [List.mem_singleton.mp hp]; rfl, rfl⟩
  | determinant =>
      exact ranked_overloads_floats _
        (fun k n => ⟨fun p hp => by rw [List.mem_singleton.mp hp]; rfl, rfl⟩) fun _ => rfl
  | all | any =>
      exact ranked_overloads_of_supported (by simp [Target.supportsScalar]) _ (isOf_toScalar 1)
  | textureSample | textureSampleLevel | textureSampleCompare | textureLoad | textureDimensions =>
      exact ranked_of_supported (by simp [signatures])

end Intrinsic

/-! ## The overload that is chosen -/

namespace Builder

variable {b : Builder}

/-- Parameters of half precision that accept arguments, none of which is of that precision itself,
accept them at single precision. -/
theorem acceptsParams_withScalar (hb : b.Supported) (hhalf : b.target.supportsScalar .f16 = false)
    {params : List PrimitiveType} {args : List Value} (hparams : ∀ p ∈ params, p.scalar = .f16)
    (h : b.acceptsParams params args = true) :
    b.acceptsParams (params.map (·.withScalar .f32)) args = true := by
  induction params generalizing args with
  | nil => exact h
  | cons p params ih =>
      cases args with
      | nil => cases h
      | cons v args =>
          obtain ⟨hp, hparams⟩ := List.forall_mem_cons.mp hparams
          obtain ⟨haccepts, hrest⟩ := Bool.and_eq_true_iff.mp h
          refine Bool.and_eq_true_iff.mpr ⟨?_, ih hparams hrest⟩
          cases v with
          | expr e =>
              have hsupports := hb.types e.type p (beq_iff_eq.mp haccepts)
              rw [hp, hhalf] at hsupports
              cases hsupports
          | host v =>
              obtain ⟨hscalar, hfits⟩ := Bool.and_eq_true_iff.mp haccepts
              rw [hp] at hfits
              exact Bool.and_eq_true_iff.mpr ⟨hscalar, HostValue.fits_f32_of_f16 hfits⟩

/-- The overload of a built-in function that is chosen needs no component type that the target
lacks. -/
theorem Supported.of_find? (hb : b.Supported) {f : Intrinsic} {args : List Value}
    {s : Intrinsic.Signature}
    (h : (f.signatures b.target).find? (fun s => b.acceptsParams s.params args) = some s) :
    ∃ k, s.IsOf k ∧ b.target.supportsScalar k = true := by
  obtain ⟨haccepts, i, hi, rfl, hbefore⟩ := List.find?_eq_some_iff_getElem.mp h
  obtain ⟨k, hk, hsupports | ⟨rfl, j, hj, hfull⟩⟩ :=
    Intrinsic.ranked_signatures b.target f i _ (List.getElem?_eq_getElem hi)
  · exact ⟨k, hk, hsupports⟩
  · -- the overload on single-precision floats would have been chosen instead
    refine ⟨.f16, hk, ?_⟩
    by_contra hhalf
    have hrejected := hbefore j hj
    rw [(List.getElem?_eq_some_iff.mp hfull).2] at hrejected
    have hfull := acceptsParams_withScalar hb (by simpa using hhalf) hk.params haccepts
    simp [Intrinsic.Signature.withScalar, hfull] at hrejected

end Builder

end WebShader
