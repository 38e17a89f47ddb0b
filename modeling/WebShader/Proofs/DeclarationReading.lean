import WebShader.Proofs.UnboundedLayout
import WebShader.Proofs.StructOrder

/-!
# Reading struct declarations

A compiler reads the structs of a source one after the other, and lays each out from the structs
read before it. This is the part of the reading that does not depend on the language: when every
declaration gives its struct the recorded layout, once those before it do, all of them do.
-/

namespace WebShader

section Reading

variable {Name Decl : Type}

/-- The extents of the types declared so far. -/
abbrev Known (Name : Type) := List (Name × Extent)

/-- The extent of a declared type. -/
def Known.extent [DecidableEq Name] (known : Known Name) (name : Name) : Option Extent :=
  (known.find? (·.1 == name)).map (·.2)

/-- Read declarations in order, given those before them. -/
def readStructs (layout : Known Name → Decl → Option StructLayout) :
    Known Name → List (Name × Decl) → Option (Known Name)
  | known, [] => some known
  | known, (name, d) :: rest => do
    let found ← layout known d
    readStructs layout ((name, ⟨found.size, found.alignment⟩) :: known) rest

/-- What is known last is found first. -/
theorem extent_cons [DecidableEq Name] (name : Name) (e : Extent) (known : Known Name)
    (other : Name) :
    Known.extent ((name, e) :: known) other =
      if name = other then some e else known.extent other := by
  unfold Known.extent
  rw [List.find?_cons]
  by_cases h : name = other
  · simp [h]
  · have hb : (name == other) = false := by simpa using h
    simp [hb, h]

/-- Structs are read with those before them known. -/
theorem readStructs_append (layout : Known Name → Decl → Option StructLayout)
    (known : Known Name) (ds ds' : List (Name × Decl)) :
    readStructs layout known (ds ++ ds') =
      (readStructs layout known ds).bind fun known => readStructs layout known ds' := by
  induction ds generalizing known with
  | nil => rfl
  | cons d rest ih =>
      obtain ⟨name, d⟩ := d
      simp only [List.cons_append, readStructs, Option.bind_eq_bind]
      cases layout known d with
      | none => rfl
      | some found => exact ih _

/-! ## Structs read as they were laid out -/

variable [DecidableEq Name]

/-- The structs of a list have been read as they were laid out, under names made from theirs. -/
def Reads (known : Known Name) (r : Registry) (name : String → Name) (ts : List TypeId) : Prop :=
  ∀ t ∈ ts, ∀ st, r.kind t = .struct st →
    known.extent (name st.name) = some ⟨st.layout.size, st.layout.alignment⟩

variable {r : Registry} {known : Known Name} {name : String → Name} {ts : List TypeId}

/-- Reading one more struct keeps what was read: no other struct has its name. -/
theorem Reads.append_struct (h : Reads known r name ts) (hr : r.Sound)
    (hname : Function.Injective name) {t : TypeId} {st : StructType} (hk : r.kind t = .struct st) :
    Reads ((name st.name, ⟨st.layout.size, st.layout.alignment⟩) :: known) r name
      (ts ++ [t]) := by
  intro u hu su hsu
  rw [extent_cons]
  by_cases heq : st.name = su.name
  · have hut := hr.name_inj t u st su hk hsu heq
    rw [← hut, hk] at hsu
    simp [TypeKind.struct.inj hsu]
  · have hmem : u ∈ ts := by
      rcases List.mem_append.mp hu with hu | hu
      · exact hu
      · rw [List.mem_singleton.mp hu, hk] at hsu
        exact absurd (congrArg StructType.name (TypeKind.struct.inj hsu)) heq
    rw [if_neg (fun h => heq (hname h))]
    exact h u hmem su hsu

/-- Structs in order are all declared, and reading the declarations reads them all, when each one
is declared and reads well after those before it. What else is known must not depend on the names
of structs. -/
theorem readStructs_ordered (layout : Known Name → Decl → Option StructLayout)
    (name : String → Name) (good : Known Name → Prop)
    (declare : TypeId → Except ShaderError (Name × Decl)) (pre : List TypeId)
    {post : List TypeId} (hr : r.Sound) (hname : Function.Injective name)
    (hgood : ∀ known n e, good known → good ((name n, e) :: known))
    (hordered : r.Ordered (pre ++ post))
    (hstructs : ∀ t ∈ post, ∃ st, r.kind t = .struct st)
    (hstep : ∀ t ∈ post, ∀ st before known, r.kind t = .struct st →
      (∀ u su, r.Contains t u → u ≠ t → r.kind u = .struct su → u ∈ before) →
      Reads known r name before → good known →
        ∃ d, declare t = .ok (name st.name, d) ∧ layout known d = some st.layout)
    (hreads : Reads known r name pre) (hknown : good known) :
    ∃ ds known', post.mapM declare = .ok ds ∧ readStructs layout known ds = some known' ∧
      Reads known' r name (pre ++ post) ∧ good known' := by
  induction post generalizing pre known with
  | nil => exact ⟨[], known, rfl, rfl, by simpa using hreads, hknown⟩
  | cons t rest ih =>
      obtain ⟨st, hk⟩ := hstructs t List.mem_cons_self
      obtain ⟨d, hd, hlayout⟩ := hstep t List.mem_cons_self st pre known hk
        (fun u su hu hne hsu => hordered pre t rest rfl u su hu hne hsu) hreads hknown
      rw [List.append_cons] at hordered ⊢
      obtain ⟨ds, known', hds, hread, hreads', hknown'⟩ := ih _ hordered
        (fun t' ht' => hstructs t' (List.mem_cons_of_mem _ ht'))
        (fun t' ht' => hstep t' (List.mem_cons_of_mem _ ht'))
        (hreads.append_struct hr hname hk) (hgood known _ _ hknown)
      refine ⟨(name st.name, d) :: ds, known', ?_, ?_, hreads', hknown'⟩
      · rw [List.mapM_cons, hds, hd]
        rfl
      · rw [readStructs, hlayout]
        exact hread

end Reading

end WebShader
