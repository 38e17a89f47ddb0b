import WebShader.Proofs.DeclaredLayout
import WebShader.Proofs.DeclaredStructs
import WebShader.Proofs.Places
import WebShader.Proofs.SpelledTypes
import WebShader.Proofs.WgslNames

/-!
# Types in WGSL

The structs and wrappers that WGSL spells types by: those of what a stage uses are declared. Values
are wrapped where they are stored in a member of a declared struct, whose wrapper is declared.
-/

namespace WebShader

namespace Wgsl

/-! ## Spellings -/

namespace TypeName

/-- The names of the structs in the spelling of a type. -/
def structNames : TypeName → List String
  | struct name => [name]
  | array element _ => element.structNames
  | pointer pointee _ => pointee.structNames
  | primitive _ | padded _ | texture _ | sampler _ => []

/-- The primitive types whose wrappers are in the spelling of a type. -/
def wrapped : TypeName → List PrimitiveType
  | padded p => [p]
  | array element _ => element.wrapped
  | pointer pointee _ => pointee.wrapped
  | primitive _ | struct _ | texture _ | sampler _ => []

end TypeName

/-- The primitive types whose wrappers a stage declares, in order. -/
def declaredWrappers (s : ResolvedStage) : List PrimitiveType :=
  wrappers s.types (s.structTypes.filterMap s.types.struct?)

/-- Collecting what is new finds nothing twice. -/
theorem nodup_foldl_new {ps found : List PrimitiveType} (h : found.Nodup) :
    (ps.foldl (fun found p => if found.contains p then found else found ++ [p]) found).Nodup := by
  induction ps generalizing found with
  | nil => exact h
  | cons p rest ih =>
      rw [List.foldl_cons]
      by_cases hp : p ∈ found
      · simpa [hp] using ih h
      · have hconcat : (found ++ [p]).Nodup := by
          rw [← List.concat_eq_append]
          exact h.concat hp
        simpa [hp] using ih hconcat

/-- A wrapper is declared once, however many members need it. -/
theorem nodup_wrappers {r : Registry} {structs : List StructType} : (wrappers r structs).Nodup :=
  nodup_foldl_new List.nodup_nil

/-- A spelling that only uses structs and wrappers that the stage declares. -/
structure IsDeclared (s : ResolvedStage) (name : TypeName) : Prop where
  structs : name.structNames ⊆ s.structNames
  wrappers : name.wrapped ⊆ declaredWrappers s

section Spellings

variable {s : ResolvedStage} {p : PrimitiveType} {name : TypeName}

/-- A primitive type is always there. -/
@[simp] theorem isDeclared_primitive : IsDeclared s (.primitive p) :=
  ⟨by simp [TypeName.structNames], by simp [TypeName.wrapped]⟩

/-- A wrapped type is declared if its wrapper is. -/
@[simp] theorem isDeclared_padded : IsDeclared s (.padded p) ↔ p ∈ declaredWrappers s :=
  ⟨fun h => h.wrappers (List.mem_singleton_self p),
    fun h => ⟨by simp [TypeName.structNames], by simpa [TypeName.wrapped] using h⟩⟩

/-- An array is declared if its elements are. -/
@[simp] theorem isDeclared_array {n : Nat} : IsDeclared s (.array name n) ↔ IsDeclared s name :=
  ⟨fun h => ⟨h.structs, h.wrappers⟩, fun h => ⟨h.structs, h.wrappers⟩⟩

/-- A pointer is declared if what it points to is. -/
@[simp] theorem isDeclared_pointer {space : AddressSpace} :
    IsDeclared s (.pointer name space) ↔ IsDeclared s name :=
  ⟨fun h => ⟨h.structs, h.wrappers⟩, fun h => ⟨h.structs, h.wrappers⟩⟩

/-- A struct is declared if it is one of the structs of the stage. -/
@[simp] theorem isDeclared_struct {n : String} : IsDeclared s (.struct n) ↔ n ∈ s.structNames :=
  ⟨fun h => h.structs (List.mem_singleton_self n),
    fun h => ⟨by simpa [TypeName.structNames] using h, by simp [TypeName.wrapped]⟩⟩

/-- A texture type is always there. -/
@[simp] theorem isDeclared_texture {t : TextureType} : IsDeclared s (.texture t) :=
  ⟨by simp [TypeName.structNames], by simp [TypeName.wrapped]⟩

/-- A sampler type is always there. -/
@[simp] theorem isDeclared_sampler {kind : SamplerKind} : IsDeclared s (.sampler kind) :=
  ⟨by simp [TypeName.structNames], by simp [TypeName.wrapped]⟩

/-- A part that comes before the whole is spelled on its own. -/
theorem typeName_of_part {r : Registry} {t part : TypeId}
    (h : (if part.index < t.index then typeName r part
      else .error (.internal .voidSpelling)) = .ok name) :
    part.index < t.index ∧ typeName r part = .ok name := by
  by_cases hlt : part.index < t.index
  · rw [if_pos hlt] at h
    exact ⟨hlt, h⟩
  · rw [if_neg hlt] at h
    cases h

/-- A type whose structs are declared is spelled by them, and without wrappers. -/
theorem isDeclared_typeName {t : TypeId} {name : TypeName} (ht : s.Covers t)
    (h : typeName s.types t = .ok name) : IsDeclared s name := by
  rw [typeName] at h
  cases hk : s.types.kind t with
  | void =>
      rw [hk] at h
      cases h
  | primitive q =>
      rw [hk] at h
      rw [← Except.ok.inj h]
      exact isDeclared_primitive
  | array element n =>
      rw [hk] at h
      obtain ⟨inner, hinner, rfl⟩ := map_eq_ok_iff.mp h
      obtain ⟨hdown, hinner⟩ := typeName_of_part hinner
      exact isDeclared_array.mpr (isDeclared_typeName (ht.element hk) hinner)
  | struct st =>
      rw [hk] at h
      rw [← Except.ok.inj h]
      exact isDeclared_struct.mpr (ht.name_mem hk)
  | pointer pointee space =>
      rw [hk] at h
      obtain ⟨inner, hinner, rfl⟩ := map_eq_ok_iff.mp h
      obtain ⟨hdown, hinner⟩ := typeName_of_part hinner
      exact isDeclared_pointer.mpr (isDeclared_typeName (ht.pointee hk) hinner)
  | texture texture =>
      rw [hk] at h
      rw [← Except.ok.inj h]
      exact isDeclared_texture
  | sampler kind =>
      rw [hk] at h
      rw [← Except.ok.inj h]
      exact isDeclared_sampler
termination_by t.index

/-- The stage declares the wrapper of a type, if it needs one. -/
def CoversWrapper (s : ResolvedStage) (t : TypeId) : Prop :=
  ∀ p, wrapped? s.types t = some p → p ∈ declaredWrappers s

/-- A stage declares the wrappers that the members of its structs need. -/
theorem coversWrapper_of_member {t : TypeId} {st : StructType} {m : Member} (ht : s.Covers t)
    (hk : s.types.kind t = .struct st) (hpolicy : st.policy = .std140) (hm : m ∈ st.members) :
    CoversWrapper s m.type :=
  fun _ hp => mem_wrappers_iff.mpr
    ⟨st, mem_filterMap_struct? (ht.mem hk) hk, hpolicy, m, hm, hp⟩

/-- A type whose structs and wrapper are declared is spelled by them under `std140` rules. -/
theorem isDeclared_std140TypeName (hr : s.types.Sound) {t : TypeId} {name : TypeName}
    (ht : s.Covers t) (hwrapper : CoversWrapper s t) (h : std140TypeName s.types t = .ok name) :
    IsDeclared s name := by
  cases hk : s.types.kind t with
  | primitive q =>
      rw [std140TypeName, hk] at h
      rw [← Except.ok.inj h]
      cases hpadded : isPaddedMatrix q with
      | false => exact isDeclared_primitive
      | true => exact isDeclared_padded.mpr (hwrapper q (by rw [wrapped?, hk]; simp [hpadded]))
  | array element n =>
      have hdown := hr.wellFormed t element (by rw [hk]; exact List.mem_cons_self)
      unfold CoversWrapper at hwrapper
      rw [wrapped?_array hr hk] at hwrapper
      rw [std140TypeName_array hr hk] at h
      cases hs : scalarElement? s.types element with
      | some q =>
          rw [hs] at h hwrapper
          rw [← Except.ok.inj h, isDeclared_array]
          cases hpadded : isPaddedElement q with
          | false => exact isDeclared_primitive
          | true => exact isDeclared_padded.mpr (hwrapper q (by simp [hpadded]))
      | none =>
          rw [hs] at h hwrapper
          obtain ⟨inner, hinner, rfl⟩ := map_eq_ok_iff.mp h
          exact isDeclared_array.mpr
            (isDeclared_std140TypeName hr (ht.element hk) hwrapper hinner)
  | void | struct | pointer | texture | sampler =>
      rw [std140TypeName, hk] at h
      exact isDeclared_typeName ht h
termination_by t.index

end Spellings

/-! ## Wrapping -/

section Wrapping

variable {s : ResolvedStage} {t : TypeId}

/-- Loading a wrapped value spells its type. -/
theorem spells_load {t : TypeId} (ht : s.Covers t) {place code : Expr}
    (hplace : place.Spells (IsDeclared s)) (h : load s.types t place = .ok code) :
    code.Spells (IsDeclared s) := by
  have hitem : ∀ k, (Code.Expr.index place (.number k)).Spells (IsDeclared s) := by
    intro k
    simpa using hplace
  rw [load] at h
  split at h
  · split at h
    · rw [← Except.ok.inj h]
      simpa using fun _ _ => hplace
    · rwa [← Except.ok.inj h]
  · rename_i element n hkind
    by_cases hn : n = 0
    · rw [if_pos hn] at h
      cases h
    · rw [if_neg hn] at h
      simp only [bind_eq_ok_iff] at h
      obtain ⟨items, hitems, name, hname, h⟩ := h
      rw [← Except.ok.inj h, Code.Expr.spells_construct]
      refine ⟨isDeclared_typeName ht hname, forall_of_mapM hitems fun k _ e hk => ?_⟩
      split at hk
      · rw [← Except.ok.inj hk, Code.Expr.spells_field]
        exact hitem k
      · split at hk
        · exact spells_load (ht.element hkind) (hitem k) hk
        · rw [← Except.ok.inj hk]
          exact hitem k
  · rwa [← Except.ok.inj h]
termination_by t.index

/-- Wrapping a value spells the wrapper of its type. -/
theorem spells_store (hr : s.types.Sound) {t : TypeId} (ht : s.Covers t) {p : PrimitiveType}
    (hp : wrapped? s.types t = some p) (hmem : p ∈ declaredWrappers s) {value code : Expr}
    (hvalue : value.Spells (IsDeclared s)) (h : store s.types t value = .ok code) :
    code.Spells (IsDeclared s) := by
  have hitem : ∀ k, (Code.Expr.index value (.number k)).Spells (IsDeclared s) := by
    intro k
    simpa using hvalue
  rw [store] at h
  split at h
  · rename_i q hkind
    rw [wrapped?, hkind] at hp
    dsimp only at hp
    split at h
    · rename_i hpadded
      rw [if_pos hpadded] at hp
      obtain rfl := Option.some.inj hp
      rw [← Except.ok.inj h]
      simpa [hmem] using fun _ _ => hvalue
    · rwa [← Except.ok.inj h]
  · rename_i element n hkind
    by_cases hn : n = 0
    · rw [if_pos hn] at h
      cases h
    · have hwrapper : CoversWrapper s t := by
        intro q hq
        rw [← Option.some.inj (hp.symm.trans hq)]
        exact hmem
      rw [if_neg hn] at h
      rw [wrapped?_array hr hkind] at hp
      simp only [bind_eq_ok_iff] at h
      obtain ⟨items, hitems, name, hname, h⟩ := h
      rw [← Except.ok.inj h, Code.Expr.spells_construct]
      refine ⟨isDeclared_std140TypeName hr ht hwrapper hname,
        forall_of_mapM hitems fun k _ e hk => ?_⟩
      split at hk
      · rename_i q hs
        rw [hs] at hp
        dsimp only at hp
        -- an array of scalars is only wrapped where its elements are
        obtain ⟨-, hq⟩ := Option.ite_none_right_eq_some.mp hp
        obtain rfl := Option.some.inj hq
        rw [← Except.ok.inj hk]
        simpa [hmem] using hitem k
      · rename_i hs
        rw [hs] at hp
        split at hk
        · exact spells_store hr (ht.element hkind) hp hmem (hitem k) hk
        · rw [← Except.ok.inj hk]
          exact hitem k
  · rwa [← Except.ok.inj h]
termination_by t.index

theorem spells_converted {e : Term} (he : s.Covers e.type) {place code : Expr}
    (hplace : place.Spells (IsDeclared s)) (h : converted s e place = .ok code) :
    code.Spells (IsDeclared s) := by
  unfold converted at h
  split at h
  · exact spells_load he hplace h
  · rwa [← Except.ok.inj h]

theorem spells_wrappedElement (ht : s.Covers t) {place index code : Expr} {known : Option Nat}
    (hplace : place.Spells (IsDeclared s)) (hindex : index.Spells (IsDeclared s))
    (h : wrappedElement s.types t place known index = .ok code) : code.Spells (IsDeclared s) := by
  unfold wrappedElement at h
  split at h
  · split at h
    · rwa [← Except.ok.inj h, Code.Expr.spells_field]
    · obtain ⟨value, hvalue, rfl⟩ := map_eq_ok_iff.mp h
      exact Code.Expr.spells_index.mpr ⟨spells_load ht hplace hvalue, hindex⟩
  · split at h
    · rw [← Except.ok.inj h, Code.Expr.spells_field, Code.Expr.spells_index]
      exact ⟨hplace, hindex⟩
    · rw [← Except.ok.inj h, Code.Expr.spells_index]
      exact ⟨hplace, hindex⟩
  · cases h

theorem spells_shiftAmount {P : TypeName → Prop} (hP : ∀ p, P (.primitive p)) (r : Registry)
    (t : TypeId) {e : Expr} (he : e.Spells P) : (shiftAmount r t e).Spells P := by
  unfold shiftAmount
  split
  · split
    · simpa using ⟨hP _, he⟩
    · exact he
  · exact he

theorem spells_storeMembers (hr : s.types.Sound) {args : List (Expr × Member)}
    {values : List Expr} (hargs : ∀ x ∈ args, x.1.Spells (IsDeclared s))
    (hmembers : ∀ x ∈ args, s.Covers x.2.type ∧ CoversWrapper s x.2.type)
    (h : storeMembers s.types args = .ok values) : ∀ e ∈ values, e.Spells (IsDeclared s) := by
  induction args generalizing values with
  | nil =>
      rw [← Except.ok.inj h]
      simp
  | cons x rest ih =>
      obtain ⟨value, m⟩ := x
      rw [List.forall_mem_cons] at hargs hmembers
      rw [storeMembers] at h
      by_cases hpadded : isPadded s.types m.type = true
      · simp only [hpadded, ↓reduceIte, bind_eq_ok_iff] at h
        obtain ⟨stored, hstored, others, hothers, h⟩ := h
        obtain ⟨p, hp⟩ := Option.isSome_iff_exists.mp hpadded
        obtain ⟨hcovers, hwrapper⟩ := hmembers.1
        rw [← Except.ok.inj h, List.forall_mem_cons]
        exact ⟨spells_store hr hcovers hp (hwrapper p hp) hargs.1 hstored,
          ih hargs.2 hmembers.2 hothers⟩
      · simp only [hpadded, Bool.false_eq_true, ↓reduceIte, pure_bind, bind_eq_ok_iff] at h
        obtain ⟨others, hothers, h⟩ := h
        rw [← Except.ok.inj h, List.forall_mem_cons]
        exact ⟨hargs.1, ih hargs.2 hmembers.2 hothers⟩

/-- A value of a struct spells the struct, and the wrappers of the members that are stored. -/
theorem spells_construct (hr : s.types.Sound) (ht : s.Covers t) {args : List Expr} {code : Expr}
    (hargs : ∀ e ∈ args, e.Spells (IsDeclared s)) (h : construct s t args = .ok code) :
    code.Spells (IsDeclared s) := by
  unfold construct at h
  split at h
  · rename_i st hst
    have hk := Registry.struct?_eq_some_iff.mp hst
    have hname := isDeclared_struct.mpr (ht.name_mem hk)
    split at h
    · rename_i hpolicy
      obtain ⟨values, hvalues, rfl⟩ := map_eq_ok_iff.mp h
      refine Code.Expr.spells_construct.mpr ⟨hname, ?_⟩
      refine spells_storeMembers hr (fun x hx => hargs x.1 (List.of_mem_zip hx).1) ?_ hvalues
      intro x hx
      have hm := (List.of_mem_zip hx).2
      exact ⟨ht.member hk hm, coversWrapper_of_member ht hk hpolicy hm⟩
    · rw [← Except.ok.inj h, Code.Expr.spells_construct]
      exact ⟨hname, hargs⟩
  · obtain ⟨name, hname, rfl⟩ := map_eq_ok_iff.mp h
    exact Code.Expr.spells_construct.mpr ⟨isDeclared_typeName ht hname, hargs⟩

end Wrapping

/-! ## Terms -/

section Terms

variable {s : ResolvedStage}

theorem spells_variableExpr {P : TypeName → Prop} {v : VarId} {code : Expr}
    (h : variableExpr s v = .ok code) : code.Spells P := by
  simp only [variableExpr, bind_eq_ok_iff] at h
  obtain ⟨d, -, h⟩ := h
  split at h
  all_goals
    first
    | rw [← Except.ok.inj h]
      simp [stageIn, stageOut]
    | obtain ⟨b, -, h⟩ := bind_eq_ok_iff.mp h
      rw [← Except.ok.inj h]
      simp

theorem spells_textureCall {P : TypeName → Prop} {f : Intrinsic} {texture : Option Term}
    {args : List Expr} {code : Expr} (hargs : ∀ e ∈ args, e.Spells P)
    (h : textureCall s f texture args = .ok code) : code.Spells P := by
  unfold textureCall at h
  split at h
  · cases h
  · rename_i t rest
    rw [List.forall_mem_cons] at hargs
    split at h
    · rw [← Except.ok.inj h, Code.Expr.spells_builtin, List.forall_mem_cons]
      exact hargs
    · split at h
      · simp only [bind_eq_ok_iff] at h
        obtain ⟨d, -, h⟩ := h
        split at h
        · rw [← Except.ok.inj h]
          unfold sampling
          split
          all_goals simpa [or_imp, forall_and] using hargs
        · cases h
      · cases h

theorem spells_builtinCall {P : TypeName → Prop} {f : Intrinsic} {args : List Expr} {code : Expr}
    (hargs : ∀ e ∈ args, e.Spells P) (h : builtinCall f args = .ok code) : code.Spells P := by
  unfold builtinCall at h
  split at h
  · rw [← Except.ok.inj h]
    simpa using hargs
  · cases h
  · rw [← Except.ok.inj h]
    simpa using hargs

theorem spells_literal (value : Literal) : (literal value).Spells (IsDeclared s) := by
  cases value with
  | i32 i =>
      rw [literal]
      split
      · simp
      · simp
  | bool | u32 | f32 | f16 => simp [literal]

mutual

/-- A term spells what its types are spelled by. -/
theorem spells_place (hr : s.types.Sound) : (e : Term) → {code : Expr} →
    (∀ t ∈ e.types, s.Covers t) → place s e = .ok code → code.Spells (IsDeclared s)
  | .literal _ value, code, _, h => by
      rw [place] at h
      rw [← Except.ok.inj h]
      exact spells_literal value
  | .var _ v, code, _, h => by
      rw [place] at h
      exact spells_variableExpr h
  | .builtin _ b, code, _, h => by
      rw [place] at h
      rw [← Except.ok.inj h]
      split
      · simp [stageOut]
      · simp [stageIn]
  | .member _ base i, code, he, h => by
      rw [Term.types, List.forall_mem_cons] at he
      simp only [place, bind_eq_ok_iff] at h
      obtain ⟨m, -, p, hp, value, hvalue, h⟩ := h
      rw [← Except.ok.inj h, Code.Expr.spells_field]
      exact spells_operand hr base he.2 hp hvalue
  | .swizzle _ base mask, code, he, h => by
      rw [Term.types, List.forall_mem_cons] at he
      simp only [place, bind_eq_ok_iff] at h
      obtain ⟨p, hp, value, hvalue, h⟩ := h
      rw [← Except.ok.inj h, Code.Expr.spells_field]
      exact spells_operand hr base he.2 hp hvalue
  | .index _ base i, code, he, h => by
      rw [Term.types, List.forall_mem_cons, List.forall_mem_append] at he
      simp only [place, bind_eq_ok_iff] at h
      obtain ⟨b, hb, p, hp, index, hindex, h⟩ := h
      have hbase := spells_place hr base he.2.1 hb
      have hi := spells_operand hr i he.2.2 hp hindex
      -- an element of a wrapped value is taken out of its wrapper
      split at h
      · exact spells_wrappedElement (he.2.1 _ base.type_mem_types) hbase hi h
      · rw [← Except.ok.inj h, Code.Expr.spells_index]
        exact ⟨hbase, hi⟩
  | .unary _ op operand, code, he, h => by
      rw [Term.types, List.forall_mem_cons] at he
      simp only [place, bind_eq_ok_iff] at h
      obtain ⟨p, hp, value, hvalue, h⟩ := h
      rw [← Except.ok.inj h, Code.Expr.spells_unary]
      exact spells_operand hr operand he.2 hp hvalue
  | .binary _ op lhs rhs, code, he, h => by
      rw [Term.types, List.forall_mem_cons, List.forall_mem_append] at he
      simp only [place, bind_eq_ok_iff] at h
      obtain ⟨p, hp, l, hl, q, hq, r, hr', h⟩ := h
      have hleft := spells_operand hr lhs he.2.1 hp hl
      have hright := spells_operand hr rhs he.2.2 hq hr'
      rw [← Except.ok.inj h, Code.Expr.spells_binary]
      refine ⟨hleft, ?_⟩
      split
      · exact spells_shiftAmount (fun _ => isDeclared_primitive) _ _ hright
      · exact hright
  | .construct t args, code, he, h => by
      rw [Term.types, List.forall_mem_cons] at he
      simp only [place, bind_eq_ok_iff] at h
      obtain ⟨values, hvalues, h⟩ := h
      exact spells_construct hr he.1 (spells_values hr args he.2 hvalues) h
  | .call _ f args, code, he, h => by
      rw [Term.types, List.forall_mem_cons] at he
      simp only [place, bind_eq_ok_iff] at h
      obtain ⟨fn, -, values, hvalues, h⟩ := h
      rw [← Except.ok.inj h, Code.Expr.spells_call]
      exact spells_values hr args he.2 hvalues
  | .intrinsic _ f args, code, he, h => by
      rw [Term.types, List.forall_mem_cons] at he
      simp only [place, bind_eq_ok_iff] at h
      obtain ⟨lowered, hlowered, h⟩ := h
      have hargs := spells_values hr args he.2 hlowered
      split at h
      · exact spells_textureCall hargs h
      · exact spells_builtinCall hargs h
  | .addressOf _ e, code, he, h => by
      rw [Term.types, List.forall_mem_cons] at he
      rw [place] at h
      by_cases hpadded : isPaddedPlace s e = true
      · rw [if_pos hpadded] at h
        cases h
      · rw [if_neg hpadded] at h
        simp only [bind_eq_ok_iff] at h
        obtain ⟨p, hp, h⟩ := h
        rw [← Except.ok.inj h, Code.Expr.spells_addressOf]
        exact spells_place hr e he.2 hp
  | .deref _ pointer, code, he, h => by
      rw [Term.types, List.forall_mem_cons] at he
      simp only [place, bind_eq_ok_iff] at h
      obtain ⟨p, hp, value, hvalue, h⟩ := h
      rw [← Except.ok.inj h, Code.Expr.spells_deref]
      exact spells_operand hr pointer he.2 hp hvalue

theorem spells_operand (hr : s.types.Sound) (e : Term) {p value : Expr}
    (he : ∀ t ∈ e.types, s.Covers t) (hp : place s e = .ok p)
    (hvalue : converted s e p = .ok value) : value.Spells (IsDeclared s) :=
  spells_converted (he _ e.type_mem_types) (spells_place hr e he hp) hvalue

theorem spells_values (hr : s.types.Sound) : (es : List Term) → {codes : List Expr} →
    (∀ t ∈ Term.typesOf es, s.Covers t) → values s es = .ok codes →
      ∀ code ∈ codes, code.Spells (IsDeclared s)
  | [], codes, _, h => by
      rw [values] at h
      rw [← Except.ok.inj h]
      simp
  | e :: rest, codes, he, h => by
      rw [Term.typesOf, List.forall_mem_append] at he
      simp only [values, bind_eq_ok_iff] at h
      obtain ⟨p, hp, value, hvalue, others, hothers, h⟩ := h
      rw [← Except.ok.inj h, List.forall_mem_cons]
      exact ⟨spells_operand hr e he.1 hp hvalue, spells_values hr rest he.2 hothers⟩

end

theorem spells_expr (hr : s.types.Sound) {e : Term} {code : Expr}
    (he : ∀ t ∈ e.types, s.Covers t) (h : expr s e = .ok code) : code.Spells (IsDeclared s) := by
  simp only [expr, bind_eq_ok_iff] at h
  obtain ⟨p, hp, h⟩ := h
  exact spells_operand hr e he hp h

/-! ## Statements -/

/-- What a part of a declared struct is wrapped by, where it can be assigned to, is declared. -/
theorem mem_declaredWrappers_of_isPlace (hr : s.types.Sound) {e : Term} {p : PrimitiveType}
    (hplace : e.IsPlace s.types s.vars) (he : ∀ t ∈ e.types, s.Covers t)
    (hstd : isStd140Place s e = true) (hp : wrapped? s.types e.type = some p) :
    p ∈ declaredWrappers s := by
  induction hplace with
  | @var t v d hd hwritable =>
      -- uniforms are not written
      rw [isStd140Place, hd, Option.any_some] at hstd
      cases hrole : d.role with
      | uniform group =>
          rw [hrole] at hwritable
          cases hwritable
      | _ =>
          rw [hrole] at hstd
          cases hstd
  | builtin | swizzle | deref => cases hstd
  | @member base i st m _ hk hm _ =>
      rw [Term.types, List.forall_mem_cons] at he
      rw [isStd140Place, Registry.struct?, hk, Option.any_some, beq_iff_eq] at hstd
      exact coversWrapper_of_member (he.2 _ base.type_mem_types) hk hstd
        (List.mem_of_getElem? hm) p hp
  | @element t base n i _ hk ih =>
      rw [Term.types, List.forall_mem_cons, List.forall_mem_append] at he
      rw [isStd140Place, Bool.and_eq_true] at hstd
      refine ih he.2.1 hstd.1 ?_
      rw [wrapped?_array hr hk]
      cases hs : scalarElement? s.types t with
      | some q =>
          -- an element that is a scalar or a vector is not wrapped itself
          obtain ⟨hkind, hmatrix⟩ := kind_eq_of_scalarElement? hs
          rw [Term.type, wrapped?, hkind] at hp
          simp [isPaddedMatrix, hmatrix] at hp
      | none => exact hp
  | @component t base q i _ _ hk _ =>
      have hmatrix : q.element.isMatrix = false := by
        unfold PrimitiveType.element
        split
        · rfl
        · rfl
      rw [Term.type, wrapped?, hk] at hp
      simp [isPaddedMatrix, hmatrix] at hp

/-- An assignment to a place wraps the value by what the stage declares. -/
theorem spells_assign (hr : s.types.Sound) {target value : Term} {op : Option BinaryOp}
    {code : Stmt} (hplace : target.IsPlace s.types s.vars)
    (htarget : ∀ t ∈ target.types, s.Covers t) (hvalue : ∀ t ∈ value.types, s.Covers t)
    (h : assign s target op value = .ok code) :
    ∀ name ∈ code.types, IsDeclared s name := by
  unfold assign at h
  split at h
  · rename_i hpadded
    -- the target is a part of a declared struct, whose wrapper the struct has asked for
    rw [isPaddedPlace, Bool.and_eq_true] at hpadded
    obtain ⟨p, hp⟩ := Option.isSome_iff_exists.mp hpadded.2
    have hmem := mem_declaredWrappers_of_isPlace hr hplace htarget hpadded.1 hp
    have htype := htarget _ target.type_mem_types
    have hstored : ∀ {t v stored : Expr}, t.Spells (IsDeclared s) → v.Spells (IsDeclared s) →
        store s.types target.type v = .ok stored →
          ∀ name ∈ (Code.Stmt.assign t none stored).types, IsDeclared s name :=
      fun ht hv h => List.forall_mem_append.mpr ⟨ht, spells_store hr htype hp hmem hv h⟩
    simp only [assignWrapped, bind_eq_ok_iff] at h
    obtain ⟨t, ht, v, hv, h⟩ := h
    have ht := spells_place hr target htarget ht
    have hv := spells_expr hr hvalue hv
    cases op with
    | none =>
        simp only [pure_bind, bind_eq_ok_iff] at h
        obtain ⟨stored, hstore, h⟩ := h
        rw [← Except.ok.inj h]
        exact hstored ht hv hstore
    | some op =>
        simp only [bind_eq_ok_iff] at h
        obtain ⟨combined, hcombined, stored, hstore, h⟩ := h
        -- the value before is loaded from its wrapper, and the one after is wrapped again
        obtain ⟨before, hbefore, rfl⟩ := map_eq_ok_iff.mp hcombined
        rw [← Except.ok.inj h]
        exact hstored ht (Code.Expr.spells_binary.mpr ⟨spells_load htype ht hbefore, hv⟩) hstore
  · simp only [assignPlain, bind_eq_ok_iff] at h
    obtain ⟨t, ht, v, hv, h⟩ := h
    have ht := spells_expr hr htarget ht
    have hv := spells_expr hr hvalue hv
    cases op with
    | none =>
        rw [← Except.ok.inj h]
        exact List.forall_mem_append.mpr ⟨ht, hv⟩
    | some op =>
        dsimp only at h
        split_ifs at h
        · rw [← Except.ok.inj h]
          exact List.forall_mem_append.mpr ⟨ht, Code.Expr.spells_binary.mpr ⟨ht, hv⟩⟩
        · rw [← Except.ok.inj h]
          exact List.forall_mem_append.mpr
            ⟨ht, spells_shiftAmount (fun _ => isDeclared_primitive) _ _ hv⟩
        · rw [← Except.ok.inj h]
          exact List.forall_mem_append.mpr ⟨ht, hv⟩

/-- The statements of a stage that keeps to itself spell what it declares. -/
theorem spellsTypes_lowering (h : s.IsClosed) : (lowering s).SpellsTypes (IsDeclared s) s.Owns
    s.Covers (·.IsPlace s.types s.vars) where
  var hv hd htype := isDeclared_typeName (h.covers_var hv hd) htype
  expr he hcode := spells_expr h.sound he hcode
  assign hplace htarget hvalue hcode := spells_assign h.sound hplace htarget hvalue hcode
  eval {e code} he hcode := by
    simp only [lowering, eval, bind_eq_ok_iff] at hcode
    obtain ⟨v, hv, hcode⟩ := hcode
    rw [← Except.ok.inj hcode]
    split
    · exact spells_expr h.sound he hv
    · exact spells_expr h.sound he hv
  doWhile hbody hcond := List.forall_mem_append.mpr ⟨hbody, hcond⟩

end Terms

end Wgsl

end WebShader
