import Mathlib.Data.Nat.Prime.Basic
import WebShader.Proofs.UnboundedLayout

/-!
# Sound struct layouts

Where the layout of a struct puts its members: each at a multiple of its alignment, one after the
other, and all of them within the struct. Under `std140` rules the elements of the arrays and the
columns of the matrices that a struct contains, at any depth, are moreover multiples of 16 bytes
apart.
-/

namespace WebShader

namespace Layout

/-! ## Alignments -/

/-- The alignments of the target languages are powers of two. -/
theorem isPowerOfTwo_of_dvd_sixteen {n : Nat} (h : n ∣ 16) : n.isPowerOfTwo := by
  obtain ⟨k, -, rfl⟩ := (Nat.dvd_prime_pow Nat.prime_two (m := 4)).mp h
  exact ⟨k, rfl⟩

/-- Of two powers of two, the larger one is a multiple of the smaller one. -/
theorem dvd_of_le_of_dvd_sixteen {m n : Nat} (hm : m ∣ 16) (hn : n ∣ 16) (hle : m ≤ n) :
    m ∣ n := by
  obtain ⟨i, -, rfl⟩ := (Nat.dvd_prime_pow Nat.prime_two (m := 4)).mp hm
  obtain ⟨j, -, rfl⟩ := (Nat.dvd_prime_pow Nat.prime_two (m := 4)).mp hn
  exact pow_dvd_pow 2 ((Nat.pow_le_pow_iff_right (by decide)).mp hle)

variable {members : List Extent}

/-- The strictest alignment of the members is a multiple of every one of them. -/
theorem dvd_strictest (h : ∀ e ∈ members, e.alignment ∣ 16) :
    ∀ e ∈ members, e.alignment ∣ strictest members := by
  induction members with
  | nil => simp
  | cons e rest ih =>
      have hrest : ∀ e' ∈ rest, e'.alignment ∣ 16 := fun e' he' => h e' (List.mem_cons_of_mem _ he')
      have hstrict := strictest_dvd_sixteen hrest
      have hmax := max_dvd_sixteen (h e List.mem_cons_self) hstrict
      rw [strictest_cons]
      intro e' he'
      rcases List.mem_cons.mp he' with rfl | he'
      · exact dvd_of_le_of_dvd_sixteen (h e' List.mem_cons_self) hmax (Nat.le_max_left _ _)
      · exact (ih hrest e' he').trans
          (dvd_of_le_of_dvd_sixteen hstrict hmax (Nat.le_max_right _ _))

/-! ## Members in order -/

/-- Every member starts at a multiple of its alignment. -/
theorem dvd_offsets (members : List Extent) (address : Nat) :
    List.Forall₂ (fun offset e => e.alignment ∣ offset) (offsets members address) members := by
  induction members generalizing address with
  | nil => exact List.Forall₂.nil
  | cons e rest ih => exact List.Forall₂.cons (dvd_roundUp address e.alignment) (ih _)

/-- No member starts before the address that they are placed from. -/
theorem le_of_mem_offsets (h : ∀ e ∈ members, 0 < e.alignment) {address offset : Nat}
    (hoffset : offset ∈ offsets members address) : address ≤ offset := by
  induction members generalizing address with
  | nil => cases hoffset
  | cons e rest ih =>
      have hstart := le_roundUp address (h e List.mem_cons_self)
      rcases List.mem_cons.mp hoffset with rfl | hoffset
      · exact hstart
      · have hle := ih (fun e' he' => h e' (List.mem_cons_of_mem _ he')) hoffset
        omega

/-- A member that comes before another one ends before it starts. -/
theorem pairwise_offsets (h : ∀ e ∈ members, 0 < e.alignment) (address : Nat) :
    ((offsets members address).zip members).Pairwise fun a b => a.1 + a.2.size ≤ b.1 := by
  induction members generalizing address with
  | nil => exact List.Pairwise.nil
  | cons e rest ih =>
      have hrest : ∀ e' ∈ rest, 0 < e'.alignment := fun e' he' => h e' (List.mem_cons_of_mem _ he')
      refine List.Pairwise.cons (fun x hx => ?_) (ih hrest _)
      exact le_of_mem_offsets hrest (List.of_mem_zip hx).1

/-- The members end behind their start. -/
theorem le_ending (h : ∀ e ∈ members, 0 < e.alignment) (address : Nat) :
    address ≤ ending members address := by
  induction members generalizing address with
  | nil => exact Nat.le_refl address
  | cons e rest ih =>
      have hstart := le_roundUp address (h e List.mem_cons_self)
      have hrest := ih (fun e' he' => h e' (List.mem_cons_of_mem _ he'))
        (roundUp address e.alignment + e.size)
      rw [ending]
      omega

/-- Every member ends before the end of the last one. -/
theorem stop_le_ending (h : ∀ e ∈ members, 0 < e.alignment) {address : Nat} {x : Nat × Extent}
    (hx : x ∈ (offsets members address).zip members) :
    x.1 + x.2.size ≤ ending members address := by
  induction members generalizing address with
  | nil => cases hx
  | cons e rest ih =>
      have hrest : ∀ e' ∈ rest, 0 < e'.alignment := fun e' he' => h e' (List.mem_cons_of_mem _ he')
      rcases List.mem_cons.mp hx with rfl | hx
      · exact le_ending hrest _
      · exact ih hrest hx

end Layout

open Layout

/-- The layout has a place for each of the members: their alignments divide that of the struct, a
power of two; each starts at a multiple of its own, after the end of those before it, and ends
within the struct, whose size is a multiple of its alignment. -/
structure StructLayout.Places (layout : StructLayout) (members : List Extent) : Prop where
  powerOfTwo : layout.alignment.isPowerOfTwo
  dvd_alignment : ∀ e ∈ members, e.alignment ∣ layout.alignment
  aligned : List.Forall₂ (fun offset e => e.alignment ∣ offset) layout.offsets members
  disjoint : (layout.offsets.zip members).Pairwise fun a b => a.1 + a.2.size ≤ b.1
  within : ∀ x ∈ layout.offsets.zip members, x.1 + x.2.size ≤ layout.size
  dvd_size : layout.alignment ∣ layout.size

/-- Members are placed one after the other. -/
theorem places_ofExtents {members : List Extent} (h : ∀ e ∈ members, e.alignment ∣ 16)
    (policy : LayoutPolicy) : (ofExtents policy members).Places members := by
  have hpos : ∀ e ∈ members, 0 < e.alignment := fun e he => pos_of_dvd_sixteen (h e he)
  have hstrict := strictest_dvd_sixteen h
  have halign := ofExtents_dvd_sixteen h policy
  have hraised : strictest members ∣ (ofExtents policy members).alignment := by
    cases policy with
    | packed => exact dvd_refl _
    | std140 => exact dvd_of_le_of_dvd_sixteen hstrict halign (Nat.le_max_left _ _)
  refine ⟨isPowerOfTwo_of_dvd_sixteen halign,
    fun e he => (dvd_strictest h e he).trans hraised, dvd_offsets members 0,
    pairwise_offsets hpos 0, fun x hx => ?_, dvd_roundUp _ _⟩
  exact le_trans (stop_le_ending hpos hx)
    (le_roundUp _ (pos_of_dvd_sixteen halign))

namespace Registry

/-! ## Strides -/

/-- Under `std140` rules the type takes room for the given number of elements, a multiple of 16
bytes apart, or for its columns likewise. -/
structure HasPaddedStrides (r : Registry) (t : TypeId) : Prop where
  array : ∀ element n, r.kind t = .array element n → ∃ inner stride,
    r.extent element .std140 = .ok inner ∧ elementExtent .std140 inner = some stride ∧
      16 ∣ stride.size ∧ r.extent t .std140 = .ok ⟨stride.size * n, stride.alignment⟩
  matrix : ∀ p, r.kind t = .primitive p → p.isMatrix = true →
    16 ∣ (p.columnExtent .std140).size ∧
      r.extent t .std140 = .ok ⟨p.cols.toNat * (p.columnExtent .std140).size, 16⟩

namespace Sound

variable {r : Registry}

/-- The members of a laid out struct have places in it. -/
theorem places_of_structLayout (hr : r.Sound) {policy : LayoutPolicy} {members : List Member}
    {layout : StructLayout} (h : r.structLayout members policy = .ok layout) :
    ∃ es, r.MemberExtents policy members es ∧ layout.Places es ∧
      (policy = .std140 → 16 ∣ layout.alignment) := by
  obtain ⟨es, hes, rfl⟩ := hr.exists_memberExtents h
  have hdvd := hr.memberExtents_dvd_sixteen hes
  refine ⟨es, hes, places_ofExtents hdvd policy, fun hpolicy => ?_⟩
  rw [hpolicy, ofExtents_std140 hdvd]

/-- What a struct under `std140` rules contains can be held, and has an extent under these rules. -/
theorem std140_extent_of_contains (hr : r.Sound) {t u : TypeId} {s : StructType}
    (hk : r.kind t = .struct s) (hpolicy : s.policy = .std140) (hu : r.Contains t u) :
    (r.kind u).isStorable = true ∧ ∃ e, r.extent u .std140 = .ok e := by
  have hstd := hr.isStd140_of_policy hk hpolicy
  induction hu with
  | refl => exact ⟨by rw [hk]; rfl, _, extent_struct hk _⟩
  | @tail v u hv hpart ih =>
      obtain ⟨hstorable, e, he⟩ := ih
      have hvalid := hr.valid v
      cases hkv : r.kind v with
      | array element n =>
          rw [hkv] at hpart hvalid
          obtain ⟨inner, -, -, hinner, -⟩ := (hr.wellFormed.extent_array_eq_ok_iff hkv).mp he
          rw [List.mem_singleton.mp hpart]
          exact ⟨hvalid.1, inner, hinner⟩
      | struct s' =>
          rw [hkv] at hpart hvalid
          obtain ⟨m, hm, rfl⟩ := List.mem_map.mp hpart
          -- the members have extents under the rules of their struct, and these are `std140`
          obtain ⟨es, hes, -⟩ := hr.layout_eq hkv
          obtain ⟨inner, -, hinner⟩ := exists_result_of_forall₂ hes m hm
          rw [hstd v s' hv hkv] at hinner
          exact ⟨((of_checkMembers hvalid.2.1).1 m hm).2.2, inner, hinner⟩
      | primitive p =>
          rw [hkv] at hpart
          simp [TypeKind.parts] at hpart
      | void | pointer | texture | sampler =>
          rw [hkv] at hstorable
          simp [TypeKind.isStorable] at hstorable

/-- A type with an extent under the rules of uniforms has padded strides. -/
theorem hasPaddedStrides_of_extent (hr : r.Sound) {t : TypeId} {e : Extent}
    (h : r.extent t .std140 = .ok e) : r.HasPaddedStrides t := by
  refine ⟨fun element n hk => ?_, fun p hk hmatrix => ?_⟩
  · obtain ⟨inner, stride, size, hinner, hstride, hsize, rfl⟩ :=
      (hr.wellFormed.extent_array_eq_ok_iff hk).mp h
    obtain ⟨rfl, -⟩ := (elementExtent_eq_some_iff (hr.extent_dvd_sixteen hinner)).mp hstride
    rw [(checked_eq_some_iff.mp hsize).1] at h
    exact ⟨inner, _, hinner, hstride, dvd_roundUp _ _, h⟩
  · rw [extent_primitive hk, PrimitiveType.extent, if_pos hmatrix]
    exact ⟨dvd_roundUp _ _, rfl⟩

end Sound

/-! ## Registered structs -/

/-- Under either set of rules, the layout of every registered struct has a place for each of its
members, and `std140` rules align it to 16 bytes; the layout it was registered with is the one under
its own rules. If these are `std140`, all the arrays and matrices it contains have strides of
multiples of 16 bytes. -/
theorem struct_layout_sound {r : Registry} (hr : r.Reachable) {t : TypeId} {s : StructType}
    (hs : r.kind t = .struct s) :
    r.structLayout s.members s.policy = .ok s.layout ∧
    (∀ policy layout, r.structLayout s.members policy = .ok layout →
      ∃ es, r.MemberExtents policy s.members es ∧ layout.Places es ∧
        (policy = .std140 → 16 ∣ layout.alignment)) ∧
    (s.policy = .std140 → ∀ u, r.Contains t u → r.HasPaddedStrides u) := by
  have hvalid := hr.sound.valid_of_kind hs
  refine ⟨hvalid.2.2.1, fun policy layout h => hr.sound.places_of_structLayout h, ?_⟩
  intro hpolicy u hu
  -- what a struct under `std140` rules holds has an extent under these rules, at whatever depth
  obtain ⟨-, e, he⟩ := hr.sound.std140_extent_of_contains hs hpolicy hu
  exact hr.sound.hasPaddedStrides_of_extent he

/-! ## A block of terrain -/

/-- A block with a packed struct inside, whose copy it holds, and a runtime-sized tail. -/
def terrainBlock : TypeShape :=
  .struct (some "Terrain") .std140
    [("scale", .scalar .f32), ("normal", .matrix 3 3),
      ("patch", .struct (some "Patch") .packed [("heights", .array (.scalar .f32) 3)]),
      ("layers", .array (.vector .f32 3) 0)]

/-- The registry of the block and of its parts. -/
def terrainTypes : Registry := (empty.run (Interning.shape terrainBlock)).2

/-- The block as it is registered. -/
def terrain : StructType where
  name := "Terrain"
  policy := .std140
  members := [⟨"scale", ⟨0⟩⟩, ⟨"normal", ⟨1⟩⟩, ⟨"patch", ⟨6⟩⟩, ⟨"layers", ⟨5⟩⟩]
  layout := ⟨[0, 16, 64, 112], 16, 112⟩

/-- The terrain is registered. -/
theorem kind_terrainTypes : terrainTypes.kind ⟨7⟩ = .struct terrain := by
  decide +kernel

/-- The heights of the patch are an array that the block contains two levels down. -/
theorem terrain_contains_heights : terrainTypes.Contains ⟨7⟩ ⟨2⟩ :=
  Relation.ReflTransGen.head (b := ⟨6⟩) (by decide +kernel)
    (Relation.ReflTransGen.single (by decide +kernel))

/-- The members of the block have places in its 112 bytes, and the heights are padded. -/
theorem terrain_layout_sound :
    terrainTypes.structLayout terrain.members .std140 = .ok ⟨[0, 16, 64, 112], 16, 112⟩ ∧
    (∃ es, terrainTypes.MemberExtents .std140 terrain.members es ∧
      terrain.layout.Places es ∧ 16 ∣ terrain.layout.alignment) ∧
    terrainTypes.HasPaddedStrides ⟨2⟩ := by
  obtain ⟨hlayout, hplaces, hstrides⟩ :=
    struct_layout_sound (.shape terrainBlock .empty) kind_terrainTypes
  obtain ⟨es, hes, hplaces, hraised⟩ := hplaces .std140 terrain.layout hlayout
  exact ⟨hlayout, ⟨es, hes, hplaces, hraised rfl⟩, hstrides rfl ⟨2⟩ terrain_contains_heights⟩

end Registry

end WebShader
