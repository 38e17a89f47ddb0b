import WebShader.Proofs.DeclarationReading
import WebShader.Wgsl.Module

/-!
# The layout WGSL gives to declared structs

WGSL lays out a struct by the rules of `packed` from what its declaration says: the types of its
members, wrappers included, and their attributes. The declarations of a source are read in order;
what comes out is the layout that each struct was registered with.
-/

namespace WebShader

namespace Wgsl

open Layout

/-! ## Reading declarations -/

/-- The extent WGSL gives to a type. A runtime-sized array counts as empty. -/
def TypeName.natural (known : Known TypeName) : TypeName → Option Extent
  | primitive p => some (p.extent .packed)
  | array element n =>
    (element.natural known).map fun e => ⟨roundUp e.size e.alignment * n, e.alignment⟩
  | padded p => known.extent (padded p)
  | struct name => known.extent (struct name)
  | pointer _ _ | texture _ | sampler _ => none

/-- What an attribute makes of the extent of a member: one raises the alignment, another one
replaces the size. -/
def Attribute.apply (e : Extent) : Attribute → Extent
  | align n => { e with alignment := max e.alignment n }
  | size n => { e with size := n }
  | builtin _ | location _ | flat => e

/-- The extent WGSL gives to a member. -/
def Field.natural (known : Known TypeName) (f : Field) : Option Extent :=
  (f.type.natural known).map fun e => f.attributes.foldl Attribute.apply e

/-- The layout WGSL gives to a struct. -/
def Struct.natural (known : Known TypeName) (d : Struct) : Option StructLayout :=
  (d.fields.mapM (Field.natural known)).map ofMembers

/-- The structs that a source declares for some types: the wrappers they need, then their own. -/
def declarations (s : ResolvedStage) (ts : List TypeId) :
    Except ShaderError (List (TypeName × Struct)) := do
  let structs ← ts.mapM fun t => do
    let d ← struct s t
    return (TypeName.struct d.name, d)
  let wrapped := wrappers s.types (ts.filterMap s.types.struct?)
  return wrapped.map (fun p => (.padded p, wrapper p)) ++ structs

/-! ## Wrappers -/

/-- The extent of a wrapper: 16 bytes for the value or for each of its columns, aligned like the
value. -/
def wrapperExtent (p : PrimitiveType) : Extent :=
  ⟨if p.isMatrix then 16 * p.cols.toNat else 16, (p.extent .packed).alignment⟩

/-- The members of a wrapper have primitive types, whatever has been declared. -/
theorem wrapper_natural (known : Known TypeName) (p : PrimitiveType) :
    (wrapper p).natural known = (wrapper p).natural [] := by
  have hfields : ∀ f ∈ (wrapper p).fields, f.natural known = f.natural [] := by
    intro f hf
    simp only [wrapper] at hf
    split at hf
    · obtain ⟨c, -, rfl⟩ := List.mem_map.mp hf
      rfl
    · rw [List.mem_singleton.mp hf]
      rfl
  unfold Struct.natural
  rw [mapM_congr_left hfields]

/-- The struct that wraps a primitive type has the extent of the wrapped type. -/
theorem wrapper_natural_valid :
    ∀ p ∈ PrimitiveType.valid,
      ((wrapper p).natural []).map (fun l => Extent.mk l.size l.alignment) =
      some (wrapperExtent p) := by
  decide +kernel

/-! ## Agreement -/

/-- The extent WGSL gives to the spelling of a type has the size that `std140` rules give to the
type and its natural alignment, which those rules may only raise to 16. -/
structure Agrees (spelled laid natural : Extent) : Prop where
  size : spelled.size = laid.size
  natural : spelled.alignment = natural.alignment
  dvd : spelled.alignment ∣ 16
  raised : laid.alignment = 16 ∨ laid.alignment = spelled.alignment

instance (spelled laid natural : Extent) : Decidable (Agrees spelled laid natural) :=
  decidable_of_iff
    (spelled.size = laid.size ∧ spelled.alignment = natural.alignment ∧ spelled.alignment ∣ 16 ∧
      (laid.alignment = 16 ∨ laid.alignment = spelled.alignment))
    ⟨fun h => ⟨h.1, h.2.1, h.2.2.1, h.2.2.2⟩, fun h => ⟨h.1, h.2, h.3, h.4⟩⟩

/-- Matrices agree when the padded ones are spelled by their wrappers, and so do scalars and
vectors as they are. -/
theorem agrees_primitive :
    ∀ p ∈ PrimitiveType.valid,
      Agrees (if isPaddedMatrix p then wrapperExtent p else p.extent .packed) (p.extent .std140)
        (p.extent .packed) := by
  decide

/-- The extent of a scalar or vector as an element of an array under `std140` rules. -/
def elementSpelling (p : PrimitiveType) : Extent :=
  if isPaddedElement p then wrapperExtent p else p.extent .packed

/-- Scalars and vectors follow each other every 16 bytes in arrays, wrapped if need be. -/
theorem elementSpelling_valid :
    ∀ p ∈ PrimitiveType.valid, p.isMatrix = false →
      (elementSpelling p).alignment = (p.extent .packed).alignment ∧
      Registry.elementExtent .std140 (p.extent .std140) =
        some ⟨roundUp (elementSpelling p).size (elementSpelling p).alignment, 16⟩ := by
  decide

/-! ## Spellings of registered types -/

section Spellings

variable {r : Registry} {known : Known TypeName}

/-- The structs that a type contains have been declared, and read as they were laid out. -/
def Knows (known : Known TypeName) (r : Registry) (t : TypeId) : Prop :=
  ∀ u s, r.Contains t u → r.kind u = .struct s →
    known.extent (.struct s.name) = some ⟨s.layout.size, s.layout.alignment⟩

/-- Of what a type is made of, all is known. -/
theorem Knows.part {t u : TypeId} (h : Knows known r t) (hu : u ∈ (r.kind t).parts) :
    Knows known r u :=
  fun v s hv hs => h v s (Relation.ReflTransGen.head hu hv) hs

/-- WGSL gives to the name of a type the extent of the type under packed rules. -/
theorem natural_typeName (hr : r.Sound) {t : TypeId} (hstorable : (r.kind t).isStorable = true)
    (hknows : Knows known r t) :
    ∃ name e, typeName r t = .ok name ∧ r.extent t .packed = .ok e ∧
      name.natural known = some e := by
  have hvalid := hr.valid t
  cases hk : r.kind t with
  | primitive p =>
      refine ⟨.primitive p, p.extent .packed, ?_, Registry.extent_primitive hk _, rfl⟩
      rw [typeName, hk]
  | array element n =>
      rw [hk] at hvalid
      obtain ⟨helement, -, inner, stride, size, hinner, hstride, hsize⟩ := hvalid
      have hpart : element ∈ (r.kind t).parts := by rw [hk]; exact List.mem_cons_self
      have hdown := hr.wellFormed t element hpart
      obtain ⟨name, e, hname, he, hnatural⟩ := natural_typeName hr helement (hknows.part hpart)
      rw [hinner] at he
      obtain rfl := Except.ok.inj he
      have hpos := pos_of_dvd_sixteen (hr.extent_dvd_sixteen hinner)
      have hextent : r.extent t .packed = .ok ⟨size, inner.alignment⟩ :=
        (hr.wellFormed.extent_array_eq_ok_iff hk).mpr
          ⟨inner, ⟨stride, inner.alignment⟩, size, hinner, by
            rw [Registry.elementExtent, hstride]; rfl, hsize, rfl⟩
      refine ⟨.array name n, _, ?_, hextent, ?_⟩
      · rw [typeName, hk]
        simp only [hdown, if_true, hname, Except.map]
      · rw [TypeName.natural, hnatural, Option.map_some, (checked_eq_some_iff.mp hsize).1,
          roundUp?_eq_some hpos hstride]
  | struct s =>
      refine ⟨.struct s.name, _, ?_, Registry.extent_struct hk _, ?_⟩
      · rw [typeName, hk]
      · exact hknows t s Relation.ReflTransGen.refl hk
  | void | pointer | texture | sampler =>
      rw [hk] at hstorable
      simp [TypeKind.isStorable] at hstorable
termination_by t.index

/-- Anything but scalars and vectors takes a multiple of 16 bytes, aligned to 16, under `std140`
rules. -/
theorem std140_extent_of_not_plain (hr : r.Sound) {t : TypeId} (hstd : r.IsStd140 t)
    (hstorable : (r.kind t).isStorable = true) (hplain : scalarElement? r t = none)
    {laid : Extent} (hlaid : r.extent t .std140 = .ok laid) :
    16 ∣ laid.size ∧ laid.alignment = 16 := by
  cases hk : r.kind t with
  | primitive p =>
      have hmatrix : p.isMatrix = true := by
        simpa [scalarElement?, Registry.primitive?, hk, Option.filter] using hplain
      rw [Registry.extent_primitive hk] at hlaid
      rw [← Except.ok.inj hlaid]
      simp only [PrimitiveType.extent, hmatrix, if_true, PrimitiveType.columnExtent]
      exact ⟨Nat.dvd_mul_left_of_dvd (dvd_roundUp _ _) _, trivial⟩
  | array element n =>
      obtain ⟨inner, stride, size, hinner, hstride, hsize, rfl⟩ :=
        (hr.wellFormed.extent_array_eq_ok_iff hk).mp hlaid
      obtain ⟨bytes, hbytes, rfl⟩ := Option.map_eq_some_iff.mp hstride
      obtain ⟨m, -, hm⟩ := Option.bind_eq_some_iff.mp hbytes
      have hround := roundUp?_eq_some (by decide) hm
      have halign := Nat.le_of_dvd (by decide) (hr.extent_dvd_sixteen hinner)
      refine ⟨?_, Nat.max_eq_right halign⟩
      rw [(checked_eq_some_iff.mp hsize).1, hround]
      exact Nat.dvd_mul_right_of_dvd (dvd_roundUp _ _) _
  | struct s =>
      rw [Registry.extent_struct hk] at hlaid
      rw [← Except.ok.inj hlaid]
      have hlayout := hr.std140_layout hk (hstd t s Relation.ReflTransGen.refl hk)
      exact ⟨hlayout.2, hlayout.1⟩
  | void | pointer | texture | sampler =>
      rw [hk] at hstorable
      simp [TypeKind.isStorable] at hstorable

/-- The scalar or vector that the elements of an array are is registered as such. -/
theorem kind_eq_of_scalarElement? {element : TypeId} {p : PrimitiveType}
    (h : scalarElement? r element = some p) :
    r.kind element = .primitive p ∧ p.isMatrix = false := by
  obtain ⟨hp, hm⟩ := Option.filter_eq_some_iff.mp h
  refine ⟨?_, by simpa using hm⟩
  unfold Registry.primitive? at hp
  split at hp
  · rename_i q hq
    rw [hq, Option.some.inj hp]
  · simp at hp

/-- Elements of 16 bytes or a multiple of them follow each other without padding. -/
theorem elementExtent_of_dvd {inner stride : Extent} (hsize : 16 ∣ inner.size)
    (halign : inner.alignment = 16) (h : Registry.elementExtent .std140 inner = some stride) :
    stride = inner := by
  obtain ⟨bytes, hbytes, rfl⟩ := Option.map_eq_some_iff.mp h
  obtain ⟨m, hm, hm'⟩ := Option.bind_eq_some_iff.mp hbytes
  rw [halign] at hm ⊢
  have hround := roundUp?_eq_some (by decide) hm
  have hround' := roundUp?_eq_some (by decide) hm'
  rw [roundUp_eq_self (by decide) hsize] at hround
  rw [hround, roundUp_eq_self (by decide) hsize] at hround'
  rw [hround', Nat.max_self, ← halign]

/-- The wrapper that the elements of an array need is the one that the array needs. -/
theorem wrapped?_array (hr : r.Sound) {t element : TypeId} {n : Nat}
    (hk : r.kind t = .array element n) :
    wrapped? r t = match scalarElement? r element with
      | some p => if isPaddedElement p then some p else none
      | none => wrapped? r element := by
  have hdown := hr.wellFormed t element (by rw [hk]; exact List.mem_cons_self)
  rw [wrapped?, hk]
  dsimp only
  cases scalarElement? r element with
  | some p => rfl
  | none => exact if_pos hdown

/-- The name of an array under the rules of uniforms. -/
theorem std140TypeName_array (hr : r.Sound) {t element : TypeId} {n : Nat}
    (hk : r.kind t = .array element n) :
    std140TypeName r t = match scalarElement? r element with
      | some p => .ok (.array (if isPaddedElement p then .padded p else .primitive p) n)
      | none => (std140TypeName r element).map fun name => .array name n := by
  have hdown := hr.wellFormed t element (by rw [hk]; exact List.mem_cons_self)
  rw [std140TypeName, hk]
  dsimp only
  cases scalarElement? r element with
  | some p => rfl
  | none => exact if_pos hdown

/-- The wrapper of a type, if it needs one, has been declared. -/
def KnowsWrapper (known : Known TypeName) (r : Registry) (t : TypeId) : Prop :=
  ∀ p, wrapped? r t = some p → known.extent (.padded p) = some (wrapperExtent p)

/-- What WGSL gives to the spelling of a type under `std140` rules agrees with them. -/
theorem natural_std140TypeName (hr : r.Sound) {t : TypeId} (hstd : r.IsStd140 t)
    (hstorable : (r.kind t).isStorable = true) (hknows : Knows known r t)
    (hwrapper : KnowsWrapper known r t) {laid natural : Extent}
    (hlaid : r.extent t .std140 = .ok laid) (hnatural : r.extent t .packed = .ok natural) :
    ∃ name spelled, std140TypeName r t = .ok name ∧ name.natural known = some spelled ∧
      Agrees spelled laid natural := by
  have hvalid := hr.valid t
  cases hk : r.kind t with
  | primitive p =>
      rw [hk] at hvalid
      rw [Registry.extent_primitive hk] at hlaid hnatural
      rw [← Except.ok.inj hlaid, ← Except.ok.inj hnatural]
      refine ⟨if isPaddedMatrix p then .padded p else .primitive p, _, ?_, ?_,
        agrees_primitive p (PrimitiveType.mem_valid hvalid)⟩
      · rw [std140TypeName, hk]
      · cases hpadded : isPaddedMatrix p with
        | false => rfl
        | true =>
            exact hwrapper p (by rw [wrapped?, hk]; simp [hpadded])
  -- only the elements decide whether an array is spelled with wrappers
  | array element n =>
      rw [hk] at hvalid
      have hpart : element ∈ (r.kind t).parts := by rw [hk]; exact List.mem_cons_self
      have hdown := hr.wellFormed t element hpart
      obtain ⟨inner, stride, size, hinner, hstride, hsize, rfl⟩ :=
        (hr.wellFormed.extent_array_eq_ok_iff hk).mp hlaid
      obtain ⟨inner', stride', size', hinner', hstride', -, rfl⟩ :=
        (hr.wellFormed.extent_array_eq_ok_iff hk).mp hnatural
      have halign' : stride'.alignment = inner'.alignment := by
        obtain ⟨bytes, -, rfl⟩ := Option.map_eq_some_iff.mp hstride'
        rfl
      rw [std140TypeName_array hr hk]
      unfold KnowsWrapper at hwrapper
      rw [wrapped?_array hr hk] at hwrapper
      cases hs : scalarElement? r element with
      | some p =>
          obtain ⟨hkind, hmatrix⟩ := kind_eq_of_scalarElement? hs
          have hfault := hr.valid_of_kind hkind
          obtain ⟨halign, hextent⟩ :=
            elementSpelling_valid p (PrimitiveType.mem_valid hfault) hmatrix
          rw [Registry.extent_primitive hkind] at hinner hinner'
          rw [← Except.ok.inj hinner, hextent] at hstride
          rw [← Except.ok.inj hinner'] at halign'
          have hspelled : (if isPaddedElement p then TypeName.padded p
              else .primitive p).natural known = some (elementSpelling p) := by
            unfold elementSpelling
            cases hpadded : isPaddedElement p with
            | false => rfl
            | true => exact hwrapper p (by rw [hs]; simp [hpadded])
          refine ⟨_, _, rfl, by rw [TypeName.natural, hspelled, Option.map_some], ?_⟩
          rw [(checked_eq_some_iff.mp hsize).1, ← Option.some.inj hstride]
          refine ⟨rfl, by rw [halign, halign'], ?_, Or.inl rfl⟩
          rw [halign]
          exact hr.extent_dvd_sixteen (Registry.extent_primitive hkind .packed)
      -- an element that is spelled as it is has a size that its alignment divides already
      | none =>
          rw [hs] at hwrapper
          have hstd' := hstd.part hpart
          obtain ⟨name, spelled, hname, hspelled, hagrees⟩ :=
            natural_std140TypeName hr hstd' hvalid.1 (hknows.part hpart) hwrapper hinner hinner'
          obtain ⟨hdvd, halign⟩ := std140_extent_of_not_plain hr hstd' hvalid.1 hs hinner
          have hround : roundUp spelled.size spelled.alignment = inner.size := by
            rw [hagrees.size]
            exact roundUp_eq_self (pos_of_dvd_sixteen hagrees.dvd) (hagrees.dvd.trans hdvd)
          refine ⟨.array name n, _, by rw [hname]; rfl,
            by rw [TypeName.natural, hspelled, Option.map_some], ?_⟩
          rw [(checked_eq_some_iff.mp hsize).1, elementExtent_of_dvd hdvd halign hstride, hround]
          exact ⟨rfl, by rw [hagrees.natural, halign'], hagrees.dvd, Or.inl halign⟩
  | struct s =>
      rw [Registry.extent_struct hk] at hlaid hnatural
      rw [← Except.ok.inj hlaid, ← Except.ok.inj hnatural]
      have halign := (hr.std140_layout hk (hstd t s Relation.ReflTransGen.refl hk)).1
      refine ⟨.struct s.name, ⟨s.layout.size, s.layout.alignment⟩, ?_,
        hknows t s Relation.ReflTransGen.refl hk, rfl, rfl, ?_, Or.inr rfl⟩
      · rw [std140TypeName, hk]
        simp only
        rw [typeName, hk]
      · rw [halign]
  | void | pointer | texture | sampler =>
      rw [hk] at hstorable
      simp [TypeKind.isStorable] at hstorable
termination_by t.index

end Spellings

/-! ## Structs under `std140` rules -/

section Structs

variable {r : Registry} {known : Known TypeName}

/-- A member is aligned like its type under `std140` rules, or to 16 bytes if it is the first. -/
theorem alignment_raised {spelled laid natural : Extent} (hagrees : Agrees spelled laid natural)
    (isFirst : Bool) :
    ((if (laid.alignment = 16 || isFirst) && natural.alignment < 16 then [Attribute.align 16]
      else []).foldl Attribute.apply spelled) =
      ⟨spelled.size, if isFirst then 16 else laid.alignment⟩ := by
  have hle := Nat.le_of_dvd (by decide) hagrees.dvd
  have hsame := hagrees.natural
  have hraised := hagrees.raised
  obtain ⟨size, alignment⟩ := spelled
  dsimp only at hle hsame hraised
  rcases hraised with hraised | hraised
  · by_cases hlt : natural.alignment < 16
    · simp [hraised, hlt, Attribute.apply, Nat.max_eq_right hle]
    · have h16 : alignment = 16 := by omega
      simp [hraised, hlt, h16]
  · by_cases hlt : natural.alignment < 16
    · have h16 : alignment ≠ 16 := by omega
      cases isFirst <;> simp [h16, hlt, Attribute.apply, Nat.max_eq_right hle, hraised]
    · have h16 : alignment = 16 := by omega
      simp [hraised, hlt, h16]

/-- The attributes of a member give it the alignment that `std140` rules give to its type, or 16 if
it is the first one, and its size, or all the bytes that are left if it is the last one. -/
theorem foldl_memberAttributes (st : StructType) {m : Member} (start : Nat)
    (isFirst isLast : Bool) {spelled laid natural : Extent}
    (hlaid : r.extent m.type .std140 = .ok laid) (hnatural : r.extent m.type .packed = .ok natural)
    (hagrees : Agrees spelled laid natural) :
    ∃ attributes size, memberAttributes r st m start isFirst isLast = .ok attributes ∧
      attributes.foldl Attribute.apply spelled =
        ⟨size, if isFirst then 16 else laid.alignment⟩ ∧
      (size = laid.size ∨ isLast = true ∧ size = st.layout.size - start) := by
  unfold memberAttributes
  simp only [hlaid, hnatural, bind, Except.bind, pure, Except.pure, Except.ok.injEq,
    exists_and_left, exists_eq_left', List.foldl_append, alignment_raised hagrees]
  by_cases hlast : (isLast && !r.isRuntimeSized m.type &&
      decide (st.layout.size - start ≠ laid.size)) = true
  · rw [if_pos hlast]
    simp only [Bool.and_eq_true] at hlast
    exact ⟨st.layout.size - start, rfl, Or.inr ⟨hlast.1.1, rfl⟩⟩
  · rw [if_neg hlast]
    exact ⟨laid.size, by rw [← hagrees.size]; rfl, Or.inl rfl⟩

/-- A member of a struct whose type has been declared, with all that it contains. -/
structure Readable (known : Known TypeName) (r : Registry) (m : Member) : Prop where
  storable : (r.kind m.type).isStorable = true
  std140 : r.IsStd140 m.type
  knows : Knows known r m.type
  wrapper : KnowsWrapper known r m.type

/-- The members of a struct under `std140` rules are declared with extents that put them where
these rules put them, and that make the struct end where they end it. -/
theorem natural_std140Fields (hr : r.Sound) (st : StructType) {members : List Member}
    {es : List Extent} (hes : r.MemberExtents .std140 members es)
    (hmembers : ∀ m ∈ members, Readable known r m) {isFirst : Bool} {address : Nat}
    (hfirst : isFirst = true → address = 0)
    (hsize : st.layout.size = roundUp (ending es address) 16) :
    ∃ fields fs, std140Fields r st isFirst (members.zip (offsets es address)) = .ok fields ∧
      fields.map (·.name) = members.map (·.name) ∧
      List.Forall₂ (fun f e => f.natural known = some e) fields fs ∧
      offsets fs address = offsets es address ∧
      roundUp (ending fs address) 16 = st.layout.size ∧
      (∀ e ∈ fs, e.alignment ∣ 16) ∧
      (isFirst = true → members ≠ [] → strictest fs = 16) := by
  induction hes generalizing isFirst address with
  | nil =>
      exact ⟨[], [], rfl, rfl, List.Forall₂.nil, rfl, hsize.symm, by simp, by simp⟩
  | @cons m e rest es he hes ih =>
      obtain ⟨hstorable, hstd, hknows, hwrapper⟩ := hmembers m List.mem_cons_self
      obtain ⟨natural, hnatural⟩ := hr.exists_packed_extent m.type
      obtain ⟨name, spelled, hname, hspelled, hagrees⟩ :=
        natural_std140TypeName hr hstd hstorable hknows hwrapper he hnatural
      have hdvd := hr.extent_dvd_sixteen he
      have hrest := ih (fun m' hm' => hmembers m' (List.mem_cons_of_mem _ hm'))
        (show false = true → roundUp address e.alignment + e.size = 0 by simp) hsize
      obtain ⟨fields, fs, hfields, hnames, hnaturals, hoffsets, hending, hfs, -⟩ := hrest
      obtain ⟨attributes, size, hattributes, hfold, hbytes⟩ :=
        foldl_memberAttributes st (roundUp address e.alignment) isFirst
          (rest.zip (offsets es (roundUp address e.alignment + e.size))).isEmpty
          he hnatural hagrees
      -- the alignment of the first field is raised, where it makes no difference to the address
      have hstart : roundUp address (if isFirst then 16 else e.alignment) =
          roundUp address e.alignment := by
        cases isFirst with
        | false => rfl
        | true =>
            rw [hfirst rfl, roundUp_zero (pos_of_dvd_sixteen hdvd)]
            exact roundUp_zero (by simp)
      -- a size that is written is the one of the member, except at the end of the struct
      have hlast : size = e.size ∨
          es = [] ∧ fs = [] ∧ size = st.layout.size - roundUp address e.alignment := by
        rcases hbytes with hbytes | ⟨hempty, hbytes⟩
        · exact Or.inl hbytes
        · cases hes with
          | cons _ _ => simp [offsets] at hempty
          | nil =>
              obtain rfl := List.map_eq_nil_iff.mp hnames
              cases hnaturals
              exact Or.inr ⟨rfl, rfl, hbytes⟩
      refine ⟨⟨attributes, m.name, name⟩ :: fields,
        ⟨size, if isFirst then 16 else e.alignment⟩ :: fs, ?_, ?_, ?_, ?_, ?_, ?_, ?_⟩
      · rw [offsets, List.zip_cons_cons, std140Fields]
        simp only [hattributes, hname, hfields, bind, Except.bind, pure, Except.pure]
      · rw [List.map_cons, List.map_cons, hnames]
      · refine List.Forall₂.cons ?_ hnaturals
        rw [Field.natural, hspelled, Option.map_some, hfold]
      · rw [offsets, offsets, hstart]
        rcases hlast with rfl | ⟨rfl, rfl, -⟩
        · rw [hoffsets]
        · rfl
      · rw [ending, hstart]
        rcases hlast with rfl | ⟨rfl, rfl, rfl⟩
        · exact hending
        · -- the last member is declared to take all that is left
          have hle := le_roundUp (roundUp address e.alignment + e.size)
            (show 0 < 16 by decide)
          have hdvd16 := dvd_roundUp (roundUp address e.alignment + e.size) 16
          rw [ending, ending] at hsize
          rw [← hsize] at hle hdvd16
          rw [ending, Nat.add_sub_cancel' (by omega)]
          exact roundUp_eq_self (by decide) hdvd16
      · intro e' he'
        rcases List.mem_cons.mp he' with rfl | he'
        · cases isFirst with
          | false => exact hdvd
          | true => exact dvd_refl 16
        · exact hfs e' he'
      · intro hf _
        rw [hf, strictest_cons]
        exact Nat.max_eq_left (Nat.le_of_dvd (by simp) (strictest_dvd_sixteen hfs))

/-- The members of a packed struct are declared with their extents. -/
theorem natural_packedFields (hr : r.Sound) {members : List Member} {es : List Extent}
    (hes : r.MemberExtents .packed members es)
    (hmembers : ∀ m ∈ members, (r.kind m.type).isStorable = true ∧ Knows known r m.type) :
    ∃ fields, (members.mapM fun m => do
        return (⟨[], m.name, ← typeName r m.type⟩ : Field) : Except ShaderError _) = .ok fields ∧
      fields.map (·.name) = members.map (·.name) ∧
      List.Forall₂ (fun f e => f.natural known = some e) fields es := by
  induction hes with
  | nil => exact ⟨[], rfl, rfl, List.Forall₂.nil⟩
  | @cons m e rest es he hes ih =>
      obtain ⟨hstorable, hknows⟩ := hmembers m List.mem_cons_self
      obtain ⟨name, e', hname, he', hnatural⟩ := natural_typeName hr hstorable hknows
      rw [he] at he'
      obtain rfl := Except.ok.inj he'
      obtain ⟨fields, hfields, hnames, hnaturals⟩ :=
        ih fun m' hm' => hmembers m' (List.mem_cons_of_mem _ hm')
      refine ⟨⟨[], m.name, name⟩ :: fields, ?_, ?_, List.Forall₂.cons ?_ hnaturals⟩
      · rw [List.mapM_cons, hfields, hname]
        rfl
      · rw [List.map_cons, List.map_cons, hnames]
      · rw [Field.natural, hnatural]
        rfl

/-- WGSL gives to the declaration of a struct the layout the struct was registered with, when the
types of its members have been declared. -/
theorem natural_struct {s : ResolvedStage} (hr : s.types.Sound) {t : TypeId} {st : StructType}
    (hk : s.types.kind t = .struct st) (hknows : ∀ m ∈ st.members, Knows known s.types m.type)
    (hwrapper : st.policy = .std140 → ∀ m ∈ st.members, KnowsWrapper known s.types m.type) :
    ∃ d, struct s t = .ok d ∧ d.name = st.name ∧
      d.fields.map (·.name) = st.members.map (·.name) ∧ d.natural known = some st.layout := by
  have hvalid := hr.valid_of_kind hk
  obtain ⟨hne, hchecked, -, hstd⟩ := hvalid
  have hm := (Registry.of_checkMembers hchecked).1
  obtain ⟨es, hes, hlayout⟩ := hr.layout_eq hk
  have hstruct : s.struct t = .ok st := by
    unfold ResolvedStage.struct Registry.struct?
    rw [hk]
  unfold struct
  simp only [hstruct, bind, Except.bind]
  -- a packed struct needs no attributes, and any other has them on every field
  cases hpolicy : st.policy with
  | packed =>
      rw [hpolicy] at hes hlayout
      obtain ⟨fields, hfields, hnames, hnaturals⟩ :=
        natural_packedFields hr hes fun m hmem => ⟨(hm m hmem).2.2, hknows m hmem⟩
      refine ⟨⟨st.name, fields⟩, ?_, rfl, hnames, ?_⟩
      · simp only [bind, Except.bind] at hfields
        simp only [hfields]
        rfl
      · rw [Struct.natural, mapM_eq_some_iff.mpr hnaturals, Option.map_some, hlayout]
        rfl
  | std140 =>
      rw [hpolicy] at hes hlayout
      rw [ofExtents_std140 (hr.memberExtents_dvd_sixteen hes)] at hlayout
      obtain ⟨fields, fs, hfields, hnames, hnaturals, hoffsets, hending, -, hstrictest⟩ :=
        natural_std140Fields hr st hes
          (fun m hmem => ⟨(hm m hmem).2.2, hstd hpolicy m hmem, hknows m hmem,
            hwrapper hpolicy m hmem⟩) (fun _ : true = true => rfl) (by rw [hlayout])
      refine ⟨⟨st.name, fields⟩, ?_, rfl, hnames, ?_⟩
      · rw [hlayout]
        simp only [hfields]
        rfl
      · rw [Struct.natural, mapM_eq_some_iff.mpr hnaturals, Option.map_some, ofMembers,
          hstrictest rfl hne, hoffsets, hending, hlayout]

end Structs

end Wgsl

end WebShader
