import WebShader.Proofs.ListTraversal
import WebShader.Proofs.Reachable

/-!
# Layouts without bounds

The members of a struct follow each other, each at the next multiple of its alignment. The layout
that a type would have if there were no last address, with all the numbers that come up on the way,
is the layout that is computed, which is refused exactly when one of the numbers is no address.
-/

namespace WebShader

namespace Layout

/-! ## Rounding -/

/-- A multiple is not rounded up. -/
theorem roundUp_eq_self {value alignment : Nat} (hpos : 0 < alignment) (h : alignment ∣ value) :
    roundUp value alignment = value := by
  obtain ⟨k, rfl⟩ := h
  unfold roundUp
  rw [Nat.mul_add_div hpos, Nat.div_eq_of_lt (by omega), Nat.add_zero, Nat.mul_comm]

/-- Rounding up gives the least multiple of the alignment. -/
theorem roundUp_le {value alignment bound : Nat} (hpos : 0 < alignment) (h : value ≤ bound)
    (hdvd : alignment ∣ bound) : roundUp value alignment ≤ bound := by
  obtain ⟨k, rfl⟩ := hdvd
  unfold roundUp
  have hquot : (value + (alignment - 1)) / alignment ≤ k := by
    have hlt : value + (alignment - 1) < (k + 1) * alignment := by
      rw [Nat.add_mul, Nat.mul_comm k]
      omega
    exact Nat.le_of_lt_succ (Nat.div_lt_of_lt_mul (by rwa [Nat.mul_comm] at hlt))
  rw [Nat.mul_comm alignment]
  exact Nat.mul_le_mul_right alignment hquot

/-- Rounding up to a multiple of the alignment makes rounding up to the alignment superfluous. -/
theorem roundUp_roundUp {value alignment outer : Nat} (hpos : 0 < outer)
    (hdvd : alignment ∣ outer) :
    roundUp (roundUp value alignment) outer = roundUp value outer := by
  have hpos' : 0 < alignment := Nat.pos_of_dvd_of_pos hdvd hpos
  apply Nat.le_antisymm
  · refine roundUp_le hpos ?_ (dvd_roundUp value outer)
    exact roundUp_le hpos' (le_roundUp value hpos) (hdvd.trans (dvd_roundUp value outer))
  · refine roundUp_le hpos ?_ (dvd_roundUp _ outer)
    exact le_trans (le_roundUp value hpos') (le_roundUp _ hpos)

/-- Zero is not rounded up. -/
theorem roundUp_zero {alignment : Nat} (hpos : 0 < alignment) : roundUp 0 alignment = 0 :=
  roundUp_eq_self hpos (Nat.dvd_zero alignment)

/-- A number passes the check if it is an address. -/
theorem checked_eq_some_iff {n m : Nat} : checked n = some m ↔ m = n ∧ n < addressSpace := by
  unfold checked
  split
  · rw [Option.some.injEq, eq_comm]
    simp [*]
  · simp [*]

/-- The alignments of the target languages are the divisors of 16. -/
theorem pos_of_dvd_sixteen {n : Nat} (h : n ∣ 16) : 0 < n :=
  Nat.pos_of_dvd_of_pos h (by decide)

/-- Rounded up to 16, every alignment is 16. -/
theorem roundUp_sixteen {n : Nat} (h : n ∣ 16) : roundUp n 16 = 16 := by
  apply Nat.le_antisymm
  · exact roundUp_le (by decide) (Nat.le_of_dvd (by decide) h) (dvd_refl 16)
  · refine Nat.le_of_dvd ?_ (dvd_roundUp n 16)
    have hle := le_roundUp n (show 0 < 16 by decide)
    have hpos := pos_of_dvd_sixteen h
    omega

/-- The larger of two divisors of sixteen is one of them. -/
theorem max_dvd_sixteen {m n : Nat} (hm : m ∣ 16) (hn : n ∣ 16) : max m n ∣ 16 := by
  rcases Nat.le_total m n with h | h
  · rw [Nat.max_eq_right h]
    exact hn
  · rw [Nat.max_eq_left h]
    exact hm

/-! ## Members in order -/

/-- The offsets of members that follow each other from an address on. -/
def offsets : List Extent → Nat → List Nat
  | [], _ => []
  | e :: rest, address =>
    let start := roundUp address e.alignment
    start :: offsets rest (start + e.size)

/-- Where the last of the members ends. -/
def ending : List Extent → Nat → Nat
  | [], address => address
  | e :: rest, address => ending rest (roundUp address e.alignment + e.size)

/-- The strictest alignment of the members. -/
def strictest (members : List Extent) : Nat := (members.map (·.alignment)).foldr max 1

/-- The layout of a struct whose alignment is the strictest one of its members. -/
def ofMembers (members : List Extent) : StructLayout :=
  ⟨offsets members 0, strictest members, roundUp (ending members 0) (strictest members)⟩

/-- The strictest alignment of a longer list. -/
theorem strictest_cons (e : Extent) (rest : List Extent) :
    strictest (e :: rest) = max e.alignment (strictest rest) := rfl

/-- The strictest alignment divides sixteen if all of them do. -/
theorem strictest_dvd_sixteen {members : List Extent} (h : ∀ e ∈ members, e.alignment ∣ 16) :
    strictest members ∣ 16 := by
  induction members with
  | nil => decide
  | cons e rest ih =>
      rw [strictest_cons]
      exact max_dvd_sixteen (h e List.mem_cons_self)
        (ih fun e' he' => h e' (List.mem_cons_of_mem _ he'))

/-! ## Checked arithmetic -/

/-- Every one of the numbers is an address. -/
def Addressable (numbers : List Nat) : Prop := ∀ n ∈ numbers, n < addressSpace

instance (numbers : List Nat) : Decidable (Addressable numbers) :=
  inferInstanceAs (Decidable (∀ n ∈ numbers, n < addressSpace))

/-- No numbers are addresses. -/
@[simp]
theorem addressable_nil : Addressable [] := by simp [Addressable]

/-- All numbers of a longer list are addresses. -/
@[simp]
theorem addressable_cons {n : Nat} {rest : List Nat} :
    Addressable (n :: rest) ↔ n < addressSpace ∧ Addressable rest := List.forall_mem_cons

/-- All numbers of two lists are addresses. -/
@[simp]
theorem addressable_append {ms ns : List Nat} :
    Addressable (ms ++ ns) ↔ Addressable ms ∧ Addressable ns := List.forall_mem_append

/-- The sum that rounding up starts from is an address exactly when its result is one: between a
number and the multiple of the alignment above it, no multiple of the alignment is skipped, and
there are as many addresses as fill whole alignments. -/
theorem roundUp_lt_addressSpace_iff {value alignment : Nat} (h : alignment ∣ 16) :
    roundUp value alignment < addressSpace ↔ value + (alignment - 1) < addressSpace := by
  have hpos := pos_of_dvd_sixteen h
  have hle := le_roundUp value hpos
  constructor
  · intro hlt
    -- the multiples below the number of addresses are at most the last one before it
    obtain ⟨k, hk⟩ := dvd_roundUp value alignment
    obtain ⟨last, hlast⟩ : alignment ∣ addressSpace := h.trans (by decide)
    rw [hk] at hle hlt
    rw [hlast] at hlt ⊢
    have hstep : alignment * (k + 1) ≤ alignment * last :=
      Nat.mul_le_mul_left _ (Nat.lt_of_mul_lt_mul_left hlt)
    rw [Nat.mul_succ] at hstep
    omega
  · intro hlt
    exact Nat.lt_of_le_of_lt (Nat.div_mul_le_self _ _) hlt

/-- A number is rounded up if the result is an address. -/
theorem roundUp?_eq_some_iff {value alignment n : Nat} (h : alignment ∣ 16) :
    roundUp? value alignment = some n ↔ n = roundUp value alignment ∧ n < addressSpace := by
  have hpos := pos_of_dvd_sixteen h
  unfold roundUp?
  rw [if_neg (by omega), Option.map_eq_some_iff]
  constructor
  · rintro ⟨m, hm, rfl⟩
    obtain ⟨rfl, hlt⟩ := checked_eq_some_iff.mp hm
    exact ⟨rfl, (roundUp_lt_addressSpace_iff h).mpr hlt⟩
  · rintro ⟨rfl, hlt⟩
    exact ⟨_, checked_eq_some_iff.mpr ⟨rfl, (roundUp_lt_addressSpace_iff h).mp hlt⟩, rfl⟩

/-! ## Elements and members -/

/-- The alignment of a struct, given the strictest one of its members. -/
def structAlignment (policy : LayoutPolicy) (strictest : Nat) : Nat :=
  match policy with
  | .packed => strictest
  | .std140 => max strictest 16

/-- The alignment of a struct divides sixteen. -/
theorem structAlignment_dvd_sixteen {policy : LayoutPolicy} {n : Nat} (h : n ∣ 16) :
    structAlignment policy n ∣ 16 := by
  cases policy with
  | packed => exact h
  | std140 => exact max_dvd_sixteen h (dvd_refl 16)

/-- The place that an element of an array takes: how far the next element is, and its alignment. -/
def elementSlot (policy : LayoutPolicy) (element : Extent) : Extent :=
  match policy with
  | .packed => ⟨roundUp element.size element.alignment, element.alignment⟩
  | .std140 =>
    ⟨roundUp (roundUp element.size element.alignment) 16, max element.alignment 16⟩

/-- The alignment of an element divides sixteen. -/
theorem elementSlot_dvd_sixteen {policy : LayoutPolicy} {element : Extent}
    (h : element.alignment ∣ 16) : (elementSlot policy element).alignment ∣ 16 := by
  cases policy with
  | packed => exact h
  | std140 => exact max_dvd_sixteen h (dvd_refl 16)

/-- The place of an element is refused exactly when it is too far to the next one. -/
theorem elementExtent_eq_some_iff {policy : LayoutPolicy} {element slot : Extent}
    (h : element.alignment ∣ 16) : Registry.elementExtent policy element = some slot ↔
      slot = elementSlot policy element ∧ slot.size < addressSpace := by
  cases policy with
  | packed =>
      simp only [Registry.elementExtent, Option.map_eq_some_iff, roundUp?_eq_some_iff h]
      constructor
      · rintro ⟨_, ⟨rfl, hlt⟩, rfl⟩
        exact ⟨rfl, hlt⟩
      · rintro ⟨rfl, hlt⟩
        exact ⟨_, ⟨rfl, hlt⟩, rfl⟩
  | std140 =>
      simp only [Registry.elementExtent, Option.map_eq_some_iff, Option.bind_eq_some_iff,
        roundUp?_eq_some_iff h, roundUp?_eq_some_iff (dvd_refl 16)]
      constructor
      · rintro ⟨_, ⟨_, ⟨rfl, -⟩, rfl, hlt⟩, rfl⟩
        exact ⟨rfl, hlt⟩
      · rintro ⟨rfl, hlt⟩
        have hinner := Nat.lt_of_le_of_lt
          (le_roundUp (roundUp element.size element.alignment) (by decide)) hlt
        exact ⟨_, ⟨_, ⟨rfl, hinner⟩, rfl, hlt⟩, rfl⟩

/-- Where each of the members that follow each other from an address on ends. -/
def ends : List Extent → Nat → List Nat
  | [], _ => []
  | e :: rest, address =>
    let stop := roundUp address e.alignment + e.size
    stop :: ends rest stop

/-- The layout of a struct whose members have the given extents. -/
def ofExtents (policy : LayoutPolicy) (members : List Extent) : StructLayout :=
  let alignment := structAlignment policy (strictest members)
  ⟨offsets members 0, alignment, roundUp (ending members 0) alignment⟩

/-- The alignment of members in order divides sixteen. -/
theorem ofExtents_dvd_sixteen {members : List Extent} (h : ∀ e ∈ members, e.alignment ∣ 16)
    (policy : LayoutPolicy) : (ofExtents policy members).alignment ∣ 16 :=
  structAlignment_dvd_sixteen (strictest_dvd_sixteen h)

/-- Under `std140` rules every struct is aligned to 16 bytes. -/
theorem ofExtents_std140 {members : List Extent} (h : ∀ e ∈ members, e.alignment ∣ 16) :
    ofExtents .std140 members = ⟨offsets members 0, 16, roundUp (ending members 0) 16⟩ := by
  have hraised : structAlignment .std140 (strictest members) = 16 :=
    Nat.max_eq_right (Nat.le_of_dvd (by decide) (strictest_dvd_sixteen h))
  rw [ofExtents, hraised]

end Layout

namespace Registry

open Layout

/-! ## Types -/

/-- The extent of a type when addresses have no bound. -/
def unbounded (r : Registry) (t : TypeId) (policy : LayoutPolicy) : Extent :=
  match r.kind t with
  | .primitive p => p.extent policy
  | .array element n =>
    let inner := if element.index < t.index then r.unbounded element policy else ⟨0, 1⟩
    ⟨(elementSlot policy inner).size * n, (elementSlot policy inner).alignment⟩
  | .struct s =>
    let layout := ofExtents s.policy (s.members.map fun m =>
      if m.type.index < t.index then r.unbounded m.type s.policy else ⟨0, 1⟩)
    ⟨layout.size, layout.alignment⟩
  | _ => ⟨0, 1⟩
termination_by t.index

/-- The layout of a struct when addresses have no bound. -/
def unboundedStruct (r : Registry) (policy : LayoutPolicy) (members : List Member) :
    StructLayout :=
  ofExtents policy (members.map fun m => r.unbounded m.type policy)

/-- The numbers that come up where the members of a struct are placed: where each of them ends,
and the size of the whole. -/
def placements (r : Registry) (policy : LayoutPolicy) (members : List Member) : List Nat :=
  ends (members.map fun m => r.unbounded m.type policy) 0 ++
    [(r.unboundedStruct policy members).size]

/-- The numbers that come up in the layout of a type and of its parts: the strides and sizes of the
arrays, and where the members of the structs end, with the sizes of these. A struct follows its own
rules. -/
def extentNumbers (r : Registry) (t : TypeId) (policy : LayoutPolicy) : List Nat :=
  match r.kind t with
  | .array element n =>
    let slot := elementSlot policy (r.unbounded element policy)
    (if element.index < t.index then r.extentNumbers element policy else []) ++
      [slot.size, slot.size * n]
  | .struct s =>
    (s.members.flatMap fun m =>
      if m.type.index < t.index then r.extentNumbers m.type s.policy else []) ++
      r.placements s.policy s.members
  | _ => []
termination_by t.index

/-- The numbers that come up in the layout of a struct and of the types of its members. -/
def structNumbers (r : Registry) (policy : LayoutPolicy) (members : List Member) : List Nat :=
  (members.flatMap fun m => r.extentNumbers m.type policy) ++ r.placements policy members

section Equations

variable {r : Registry} {t : TypeId}

/-- The unbounded extent of a primitive type. -/
theorem unbounded_primitive {p : PrimitiveType} (hk : r.kind t = .primitive p)
    (policy : LayoutPolicy) : r.unbounded t policy = p.extent policy := by
  rw [unbounded, hk]

/-- The unbounded extent of an array. -/
theorem WellFormed.unbounded_array (hr : r.WellFormed) {element : TypeId} {n : Nat}
    (hk : r.kind t = .array element n) (policy : LayoutPolicy) :
    r.unbounded t policy = ⟨(elementSlot policy (r.unbounded element policy)).size * n,
      (elementSlot policy (r.unbounded element policy)).alignment⟩ := by
  have hdown := hr t element (by rw [hk]; exact List.mem_cons_self)
  rw [unbounded, hk]
  simp only [hdown, if_true]

/-- The unbounded extent of a struct. -/
theorem WellFormed.unbounded_struct (hr : r.WellFormed) {s : StructType}
    (hk : r.kind t = .struct s) (policy : LayoutPolicy) :
    r.unbounded t policy = ⟨(r.unboundedStruct s.policy s.members).size,
      (r.unboundedStruct s.policy s.members).alignment⟩ := by
  have hmembers : (s.members.map fun m =>
      if m.type.index < t.index then r.unbounded m.type s.policy else ⟨0, 1⟩) =
      s.members.map fun m => r.unbounded m.type s.policy :=
    List.map_congr_left fun m hm =>
      if_pos (hr t m.type (by rw [hk]; exact List.mem_map_of_mem hm))
  rw [unbounded, hk]
  simp only [hmembers]
  rfl

/-- The numbers that the extent of an array goes through. -/
theorem WellFormed.extentNumbers_array (hr : r.WellFormed) {element : TypeId} {n : Nat}
    (hk : r.kind t = .array element n) (policy : LayoutPolicy) :
    r.extentNumbers t policy = r.extentNumbers element policy ++
      [(elementSlot policy (r.unbounded element policy)).size,
        (elementSlot policy (r.unbounded element policy)).size * n] := by
  have hdown := hr t element (by rw [hk]; exact List.mem_cons_self)
  rw [extentNumbers, hk]
  simp only [hdown, if_true]

/-- The numbers that the extent of a struct goes through. -/
theorem WellFormed.extentNumbers_struct (hr : r.WellFormed) {s : StructType}
    (hk : r.kind t = .struct s) (policy : LayoutPolicy) :
    r.extentNumbers t policy = r.structNumbers s.policy s.members := by
  have hmembers : (s.members.map fun m =>
      if m.type.index < t.index then r.extentNumbers m.type s.policy else []) =
      s.members.map fun m => r.extentNumbers m.type s.policy :=
    List.map_congr_left fun m hm =>
      if_pos (hr t m.type (by rw [hk]; exact List.mem_map_of_mem hm))
  rw [extentNumbers, hk]
  simp only [structNumbers, List.flatMap_def, hmembers]

end Equations

/-! ## Exactness -/

/-- The extent computed for a type is the one without bounds, and it is refused exactly when some
number that comes up is no address. -/
def IsExact (r : Registry) (t : TypeId) (policy : LayoutPolicy) : Prop :=
  ∀ e, r.extent t policy = .ok e ↔
    e = r.unbounded t policy ∧ Addressable (r.extentNumbers t policy)

section Members

variable {r : Registry} {policy : LayoutPolicy} {members : List Member}

/-- Members are placed one after the other as they are without bounds, or refused when one of them
is too large or ends too far. -/
theorem layoutMembers_eq_ok_iff (hexact : ∀ m ∈ members, r.IsExact m.type policy)
    (hdvd : ∀ m ∈ members, (r.unbounded m.type policy).alignment ∣ 16) {address alignment : Nat}
    {found : List Nat × Nat × Nat} (halign : 1 ≤ alignment) :
    r.layoutMembers policy members address alignment = .ok found ↔
      found = (offsets (members.map fun m => r.unbounded m.type policy) address,
        ending (members.map fun m => r.unbounded m.type policy) address,
        max alignment (strictest (members.map fun m => r.unbounded m.type policy))) ∧
      Addressable (members.flatMap fun m => r.extentNumbers m.type policy) ∧
      Addressable (ends (members.map fun m => r.unbounded m.type policy) address) := by
  induction members generalizing address alignment found with
  | nil =>
      simp [layoutMembers, offsets, ending, ends, strictest, Nat.max_eq_left halign, eq_comm]
  | cons m rest ih =>
      have hm := hexact m List.mem_cons_self
      have hdvd_m := hdvd m List.mem_cons_self
      have ih := @ih (fun m' hm' => hexact m' (List.mem_cons_of_mem _ hm'))
        (fun m' hm' => hdvd m' (List.mem_cons_of_mem _ hm'))
      simp only [List.map_cons, List.flatMap_cons, offsets, ending, ends, strictest_cons,
        addressable_cons, addressable_append]
      constructor
      · -- each of the steps has succeeded, so each number is an address
        intro h
        simp only [layoutMembers, bind_eq_ok_iff] at h
        obtain ⟨e, he, h⟩ := h
        obtain ⟨rfl, hfits⟩ := (hm e).mp he
        cases hstart : roundUp? address (r.unbounded m.type policy).alignment with
        | none => simp [hstart] at h
        | some start =>
            obtain ⟨rfl, -⟩ := (roundUp?_eq_some_iff hdvd_m).mp hstart
            simp only [hstart] at h
            cases hnext : checked (roundUp address (r.unbounded m.type policy).alignment +
                (r.unbounded m.type policy).size) with
            | none => simp [hnext] at h
            | some next =>
                obtain ⟨rfl, hstop⟩ := checked_eq_some_iff.mp hnext
                simp only [hnext, bind_eq_ok_iff] at h
                obtain ⟨tail, htail, h⟩ := h
                obtain ⟨rfl, hrest, hends⟩ :=
                  (ih (le_trans halign (Nat.le_max_left _ _))).mp htail
                rw [Nat.max_assoc] at h
                exact ⟨(Except.ok.inj h).symm, ⟨hfits, hrest⟩, hstop, hends⟩
      · rintro ⟨rfl, ⟨hfits, hrest⟩, hstop, hends⟩
        have he := (hm _).mpr ⟨rfl, hfits⟩
        -- a member starts before it ends, so its start needs no condition of its own
        have hstart := (roundUp?_eq_some_iff hdvd_m).mpr
          ⟨rfl, Nat.lt_of_le_of_lt (Nat.le_add_right _ _) hstop⟩
        have hnext := checked_eq_some_iff.mpr ⟨rfl, hstop⟩
        have htail := (ih (le_trans halign (Nat.le_max_left alignment
          (r.unbounded m.type policy).alignment))).mpr ⟨rfl, hrest, hends⟩
        simp only [layoutMembers, bind, Except.bind, he, hstart, hnext, htail, Nat.max_assoc]

/-- The layout of a struct ends with its rounded size. -/
theorem structLayout_eq (r : Registry) (members : List Member) (policy : LayoutPolicy) :
    r.structLayout members policy = (do
      let found ← r.layoutMembers policy members 0 1
      match roundUp? found.2.1 (structAlignment policy found.2.2) with
      | some size => .ok ⟨found.1, structAlignment policy found.2.2, size⟩
      | none => .error (tooLarge "struct")) := rfl

/-- A struct has the layout it has without bounds, or is refused when some number that comes up is
no address. -/
theorem structLayout_eq_ok_iff (hexact : ∀ m ∈ members, r.IsExact m.type policy)
    (hdvd : ∀ m ∈ members, (r.unbounded m.type policy).alignment ∣ 16) {layout : StructLayout} :
    r.structLayout members policy = .ok layout ↔
      layout = r.unboundedStruct policy members ∧
        Addressable (r.structNumbers policy members) := by
  have hdvds : ∀ e ∈ members.map fun m => r.unbounded m.type policy, e.alignment ∣ 16 := by
    intro e he
    obtain ⟨m, hm, rfl⟩ := List.mem_map.mp he
    exact hdvd m hm
  have hmax : max 1 (strictest (members.map fun m => r.unbounded m.type policy)) =
      strictest (members.map fun m => r.unbounded m.type policy) :=
    Nat.max_eq_right (pos_of_dvd_sixteen (strictest_dvd_sixteen hdvds))
  have halign := ofExtents_dvd_sixteen hdvds policy
  simp only [structNumbers, placements, addressable_append, addressable_cons, addressable_nil,
    and_true]
  rw [structLayout_eq, bind_eq_ok_iff]
  constructor
  · rintro ⟨found, hfound, h⟩
    obtain ⟨rfl, hfits, hends⟩ :=
      (layoutMembers_eq_ok_iff hexact hdvd (le_refl 1)).mp hfound
    rw [hmax] at h
    split at h
    · rename_i size hsize
      obtain ⟨rfl, hsize⟩ := (roundUp?_eq_some_iff halign).mp hsize
      exact ⟨(Except.ok.inj h).symm, hfits, hends, hsize⟩
    · cases h
  · rintro ⟨rfl, hfits, hends, hsize⟩
    refine ⟨_, (layoutMembers_eq_ok_iff hexact hdvd (le_refl 1)).mpr ⟨rfl, hfits, hends⟩, ?_⟩
    have hround : roundUp? (ending (members.map fun m => r.unbounded m.type policy) 0)
        (structAlignment policy (strictest (members.map fun m => r.unbounded m.type policy))) =
          some (r.unboundedStruct policy members).size :=
      (roundUp?_eq_some_iff halign).mpr ⟨rfl, hsize⟩
    rw [hmax]
    dsimp only
    rw [hround]
    rfl

end Members

/-! ## Registered types -/

/-- The alignment of a primitive type divides sixteen. -/
theorem extent_valid_dvd_sixteen :
    ∀ p ∈ PrimitiveType.valid, ∀ policy ∈ LayoutPolicy.all,
      (p.extent policy).alignment ∣ 16 := by
  decide

/-- There are no other policies. -/
theorem mem_all_policies (policy : LayoutPolicy) : policy ∈ LayoutPolicy.all := by
  cases policy <;> decide

/-- The extents of the types of a list of members. -/
def MemberExtents (r : Registry) (policy : LayoutPolicy) : List Member → List Extent → Prop :=
  List.Forall₂ fun m e => r.extent m.type policy = .ok e

namespace Sound

variable {r : Registry}

/-- Every type is aligned to a divisor of 16 bytes, also without bounds. -/
theorem unbounded_dvd_sixteen (hr : r.Sound) (t : TypeId) (policy : LayoutPolicy) :
    (r.unbounded t policy).alignment ∣ 16 := by
  have hvalid := hr.valid t
  have hdown := hr.wellFormed t
  cases hk : r.kind t with
  | primitive p =>
      rw [hk] at hvalid
      rw [unbounded_primitive hk]
      exact extent_valid_dvd_sixteen p (PrimitiveType.mem_valid hvalid) policy
        (mem_all_policies policy)
  | array element n =>
      have hlt := hdown element (by rw [hk]; exact List.mem_cons_self)
      rw [hr.wellFormed.unbounded_array hk]
      exact elementSlot_dvd_sixteen (unbounded_dvd_sixteen hr element policy)
  | struct s =>
      rw [hr.wellFormed.unbounded_struct hk]
      refine ofExtents_dvd_sixteen (fun e he => ?_) s.policy
      obtain ⟨m, hm, rfl⟩ := List.mem_map.mp he
      have hlt := hdown m.type (by rw [hk]; exact List.mem_map_of_mem hm)
      exact unbounded_dvd_sixteen hr m.type s.policy
  | void | pointer | texture | sampler =>
      rw [unbounded, hk]
      exact one_dvd 16
termination_by t.index

/-- The layout of every registered type is exact: an induction on the types that the type is made
of, where a struct was laid out by its own rules when it was registered. -/
theorem isExact (hr : r.Sound) (t : TypeId) (policy : LayoutPolicy) : r.IsExact t policy := by
  intro e
  have hvalid := hr.valid t
  have hdown := hr.wellFormed t
  cases hk : r.kind t with
  | primitive p =>
      rw [extent_primitive hk, unbounded_primitive hk, extentNumbers, hk]
      simp [eq_comm]
  | array element n =>
      have hlt := hdown element (by rw [hk]; exact List.mem_cons_self)
      -- the stride is rounded up from the extent of the elements, and the size is a product
      have hinner := isExact hr element policy
      rw [hr.wellFormed.extent_array_eq_ok_iff hk, hr.wellFormed.unbounded_array hk,
        hr.wellFormed.extentNumbers_array hk]
      simp only [addressable_append, addressable_cons, addressable_nil, and_true]
      constructor
      · rintro ⟨inner, slot, size, he, hslot, hsize, rfl⟩
        obtain ⟨rfl, hfits⟩ := (hinner inner).mp he
        obtain ⟨rfl, hstride⟩ :=
          (elementExtent_eq_some_iff (hr.unbounded_dvd_sixteen element policy)).mp hslot
        obtain ⟨rfl, hwhole⟩ := checked_eq_some_iff.mp hsize
        exact ⟨rfl, hfits, hstride, hwhole⟩
      · rintro ⟨rfl, hfits, hstride, hwhole⟩
        exact ⟨_, _, _, (hinner _).mpr ⟨rfl, hfits⟩,
          (elementExtent_eq_some_iff (hr.unbounded_dvd_sixteen element policy)).mpr
            ⟨rfl, hstride⟩, checked_eq_some_iff.mpr ⟨rfl, hwhole⟩, rfl⟩
  | struct s =>
      have hexact : ∀ m ∈ s.members, r.IsExact m.type s.policy := by
        intro m hm
        have hlt := hdown m.type (by rw [hk]; exact List.mem_map_of_mem hm)
        exact isExact hr m.type s.policy
      rw [hk] at hvalid
      obtain ⟨hlayout, hfits⟩ := (structLayout_eq_ok_iff hexact
        fun m _ => hr.unbounded_dvd_sixteen m.type s.policy).mp hvalid.2.2.1
      rw [extent_struct hk, hr.wellFormed.unbounded_struct hk,
        hr.wellFormed.extentNumbers_struct hk, hlayout]
      simp [hfits, eq_comm]
  | void | pointer | texture | sampler =>
      rw [extent, unbounded, extentNumbers, hk]
      simp [eq_comm]
termination_by t.index

/-- Every type is aligned to a divisor of 16 bytes. -/
theorem extent_dvd_sixteen (hr : r.Sound) {t : TypeId} {policy : LayoutPolicy} {e : Extent}
    (h : r.extent t policy = .ok e) : e.alignment ∣ 16 := by
  rw [((hr.isExact t policy e).mp h).1]
  exact hr.unbounded_dvd_sixteen t policy

/-- The alignments of registered members divide sixteen. -/
theorem memberExtents_dvd_sixteen (hr : r.Sound) {policy : LayoutPolicy} {members : List Member}
    {es : List Extent} (h : r.MemberExtents policy members es) : ∀ e ∈ es, e.alignment ∣ 16 := by
  intro e he
  obtain ⟨m, -, hext⟩ := exists_mem_of_forall₂ h e he
  exact hr.extent_dvd_sixteen hext

/-- A struct of registered types is laid out as without bounds, unless some number that comes up is
no address. -/
theorem structLayout_iff (hr : r.Sound) {policy : LayoutPolicy} {members : List Member}
    {layout : StructLayout} : r.structLayout members policy = .ok layout ↔
      layout = r.unboundedStruct policy members ∧ Addressable (r.structNumbers policy members) :=
  structLayout_eq_ok_iff (fun m _ => hr.isExact m.type policy)
    fun m _ => hr.unbounded_dvd_sixteen m.type policy

/-- A struct that is laid out has the layout that the extents of its members give it. -/
theorem exists_memberExtents (hr : r.Sound) {policy : LayoutPolicy} {members : List Member}
    {layout : StructLayout} (h : r.structLayout members policy = .ok layout) :
    ∃ es, r.MemberExtents policy members es ∧ layout = ofExtents policy es := by
  obtain ⟨rfl, hfits⟩ := hr.structLayout_iff.mp h
  obtain ⟨hfits, -⟩ := addressable_append.mp hfits
  refine ⟨_, ?_, rfl⟩
  unfold MemberExtents
  rw [List.forall₂_map_right_iff, List.forall₂_same]
  intro m hm
  exact (hr.isExact m.type policy _).mpr
    ⟨rfl, fun n hn => hfits n (List.mem_flatMap.mpr ⟨m, hm, hn⟩)⟩

/-- A struct has the layout its members give it. -/
theorem layout_eq (hr : r.Sound) {t : TypeId} {s : StructType} (hs : r.kind t = .struct s) :
    ∃ es, r.MemberExtents s.policy s.members es ∧ s.layout = ofExtents s.policy es := by
  have hvalid := hr.valid_of_kind hs
  exact hr.exists_memberExtents hvalid.2.2.1

/-- Structs under `std140` rules are aligned to 16 bytes, and their size is a multiple of 16. -/
theorem std140_layout (hr : r.Sound) {t : TypeId} {s : StructType} (hs : r.kind t = .struct s)
    (hpolicy : s.policy = .std140) : s.layout.alignment = 16 ∧ 16 ∣ s.layout.size := by
  obtain ⟨es, hes, hlayout⟩ := hr.layout_eq hs
  rw [hlayout, hpolicy, ofExtents_std140 (hr.memberExtents_dvd_sixteen hes)]
  exact ⟨rfl, dvd_roundUp _ _⟩

/-- Every type that can be held has an extent under packed rules. -/
theorem exists_packed_extent (hr : r.Sound) (t : TypeId) :
    ∃ e, r.extent t .packed = .ok e := by
  cases hk : r.kind t with
  | primitive p => exact ⟨_, extent_primitive hk _⟩
  | array element n =>
      have hvalid := hr.valid_of_kind hk
      obtain ⟨-, -, inner, stride, size, hinner, hstride, hsize⟩ := hvalid
      refine ⟨⟨size, inner.alignment⟩, (hr.wellFormed.extent_array_eq_ok_iff hk).mpr
        ⟨inner, ⟨stride, inner.alignment⟩, size, hinner, ?_, hsize, rfl⟩⟩
      rw [elementExtent, hstride]
      rfl
  | struct s => exact ⟨_, extent_struct hk _⟩
  | void | pointer | texture | sampler => exact ⟨⟨0, 1⟩, by rw [extent, hk]⟩

end Sound

end Registry

end WebShader
