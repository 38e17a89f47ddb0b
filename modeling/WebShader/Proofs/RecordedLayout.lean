import WebShader.Proofs.BlockLayout
import WebShader.Proofs.DeclarationTexts
import WebShader.Proofs.DeclaredLayout
import WebShader.Proofs.StructDeclarations
import WebShader.Proofs.TextMeaning
import WebShader.Proofs.WgslDeclarations

/-!
# Recorded layouts

The layout that a struct is registered with is the one its declaration has in the sources. The
declarations are read from their texts, one after the other, and laid out by the rules of the
language: what counts is the type, the attributes and the name that a member is printed with.
-/

namespace WebShader

/-! ## Registries -/

/-- No part of the type, at any depth, has 16-bit components. -/
def Registry.IsHalfFree (r : Registry) (t : TypeId) : Prop :=
  ∀ u p, r.Contains t u → r.kind u = .primitive p → p.scalar ≠ .f16

/-- Where no type has 16-bit components, none contains any. -/
theorem Registry.isHalfFree_of_hasScalar {r : Registry} (h : r.hasScalar .f16 = false)
    (t : TypeId) : r.IsHalfFree t := by
  intro u p _ hk hhalf
  unfold kind at hk
  split at hk
  · rename_i entry hentry
    have hnone := Array.any_eq_false.mp h u.index
      (Array.getElem?_eq_some_iff.mp hentry).choose
    rw [(Array.getElem?_eq_some_iff.mp hentry).choose_spec, hk] at hnone
    simp [hhalf] at hnone
  · simp at hk

/-- The structs of a reachable registry are named by identifiers, as are their members. -/
theorem Registry.Reachable.namesStructs {r : Registry} (h : r.Reachable) : r.NamesStructs := by
  induction h with
  | empty => exact namesStructs_empty
  | shape d _ ih => exact (Interning.grows_shape d _).names ih
  | void _ ih => exact (Interning.follows_void (R := Grows) _).names ih
  | primitive _ _ ih => exact (Interning.grows_primitive _ _).names ih
  | pointer t space _ ih => exact (Interning.follows_pointer (R := Grows) t space _).names ih
  | std140 _ _ ih => exact (Interning.follows_std140 (R := Grows) _ _).names ih
  | struct name policy _ _ ih =>
      exact (Interning.follows_struct (R := Grows) name policy _ _).names ih

/-- The names of the structs that a type contains are left to them. -/
def Registry.Spares (free : String → Prop) (r : Registry) (t : TypeId) : Prop :=
  ∀ u st, r.Contains t u → r.kind u = .struct st → free st.name

section Spares

variable {free : String → Prop} {r : Registry} {t u : TypeId}

/-- What a type contains spares the names that the type spares. -/
theorem Registry.Spares.of_contains (h : r.Spares free t) (hu : r.Contains t u) : r.Spares free u :=
  fun v st hv hst => h v st (hu.trans hv) hst

/-- The parts of a type spare the names that the type spares. -/
theorem Registry.Spares.part (h : r.Spares free t) (hu : u ∈ (r.kind t).parts) :
    r.Spares free u := h.of_contains (.single hu)

/-- The structs that some types contain are spared with them. -/
theorem Registry.spares_structsOf (hr : r.WellFormed) {ts : List TypeId}
    (h : ∀ t ∈ ts, r.Spares free t) : ∀ u ∈ r.structsOf ts, r.Spares free u := by
  intro u hu
  rcases (r.collects_structsOf hr ts).only u hu with hnil | ⟨⟨t, ht, hcontains⟩, -⟩
  · cases hnil
  · exact (h t ht).of_contains hcontains

/-- Where every struct is, those of any type are. -/
theorem Registry.spares_of_all [DecidablePred free]
    (h : (r.entries.all fun e => match e.kind with
      | .struct st => decide (free st.name)
      | _ => true) = true) (t : TypeId) : r.Spares free t := by
  intro u st _ hst
  unfold kind at hst
  split at hst
  · rename_i entry hentry
    have hall := Array.all_eq_true_iff_forall_mem.mp h entry (Array.mem_of_getElem? hentry)
    rw [hst] at hall
    exact of_decide_eq_true hall
  · cases hst

end Spares

/-! ## Reading in two ways -/

/-- Declarations that are read in two ways have the same layouts in both, when each has after the
same ones before it. -/
theorem readStructs_map {Name Name' Decl Decl' : Type}
    {layout : Known Name → Decl → Option StructLayout}
    {layout' : Known Name' → Decl' → Option StructLayout}
    {R : Known Name → Known Name' → Prop} {f : Name × Decl → Name' × Decl'}
    {ds : List (Name × Decl)}
    (hcons : ∀ d ∈ ds, ∀ known known' e, R known known' →
      R ((d.1, e) :: known) (((f d).1, e) :: known'))
    (hlayout : ∀ d ∈ ds, ∀ known known' found, R known known' →
      layout known d.2 = some found → layout' known' (f d).2 = some found)
    {known last : Known Name} {known' : Known Name'} (h : R known known')
    (hread : readStructs layout known ds = some last) :
    ∃ last', readStructs layout' known' (ds.map f) = some last' ∧ R last last' := by
  induction ds generalizing known known' with
  | nil =>
      rw [← Option.some.inj hread]
      exact ⟨known', rfl, h⟩
  | cons d rest ih =>
      rw [List.forall_mem_cons] at hcons hlayout
      obtain ⟨found, hfound, hrest⟩ := Option.bind_eq_some_iff.mp hread
      obtain ⟨last', hlast, hagree⟩ := ih hcons.2 hlayout.2 (hcons.1 _ _ _ h) hrest
      refine ⟨last', ?_, hagree⟩
      rw [List.map_cons, readStructs, hlayout.1 _ _ _ h hfound]
      exact hlast

/-- What is read of each element is what is read of what stands for it. -/
theorem mapM_map_eq_some {α β γ : Type} {f : α → Option γ} {g : β → Option γ} {φ : α → β}
    {as : List α} {cs : List γ} (h : as.mapM f = some cs)
    (hg : ∀ a ∈ as, ∀ c, f a = some c → g (φ a) = some c) : (as.map φ).mapM g = some cs := by
  rw [mapM_eq_some_iff] at h ⊢
  induction h with
  | nil => exact .nil
  | cons hc _ ih =>
      rw [List.forall_mem_cons] at hg
      exact .cons (hg.1 _ hc) (ih hg.2)

/-! ## WGSL -/

namespace Wgsl

open Layout Token

/-- The component type of a word. -/
def scalarNamed? : String → Option ScalarKind
  | "bool" => some .bool
  | "i32" => some .i32
  | "u32" => some .u32
  | "f32" => some .f32
  | "f16" => some .f16
  | _ => none

/-- The rows and columns of the vectors or matrices of a word. -/
def shapeNamed? : String → Option (UInt8 × UInt8)
  | "vec2" => some (2, 1)
  | "vec3" => some (3, 1)
  | "vec4" => some (4, 1)
  | "mat2x2" => some (2, 2)
  | "mat2x3" => some (3, 2)
  | "mat2x4" => some (4, 2)
  | "mat3x2" => some (2, 3)
  | "mat3x3" => some (3, 3)
  | "mat3x4" => some (4, 3)
  | "mat4x2" => some (2, 4)
  | "mat4x3" => some (3, 4)
  | "mat4x4" => some (4, 4)
  | _ => none

/-- The primitive type that a tree is. -/
def primitiveOf? : TextTree → Option PrimitiveType
  | .word w => (scalarNamed? w).map .ofScalar
  | .template w [.word k] =>
    (shapeNamed? w).bind fun shape => (scalarNamed? k).map fun k => ⟨k, shape.1, shape.2⟩
  | _ => none

/-- The extent WGSL gives to a type. A runtime-sized array counts as empty. -/
def extentOf? (known : Known String) : TextTree → Option Extent
  | .template "array" [t] => (extentOf? known t).map fun e => ⟨0, e.alignment⟩
  | .template "array" [t, .number n] =>
    (extentOf? known t).bind fun e =>
      (decimal? n.toList).map fun n => ⟨roundUp e.size e.alignment * n, e.alignment⟩
  | .word w => ((scalarNamed? w).map fun k => (PrimitiveType.ofScalar k).extent .packed).or
    (known.extent w)
  | t => (primitiveOf? t).map (·.extent .packed)

/-- What an attribute makes of the extent of a member: one raises the alignment, another one
replaces the size. -/
def attribute? (e : Extent) : String × Token → Option Extent
  | ("align", .number n) =>
    (decimal? n.toList).map fun n => { e with alignment := max e.alignment n }
  | ("size", .number n) => (decimal? n.toList).map fun n => { e with size := n }
  | _ => some e

/-- The extent WGSL gives to a member. -/
def ReadMember.extent? (known : Known String) (m : ReadMember) : Option Extent :=
  (extentOf? known m.type).bind fun e => m.attributes.foldlM attribute? e

/-- The layout WGSL gives to a struct. -/
def layoutOf? (known : Known String) (d : ReadStruct ReadMember) : Option StructLayout :=
  (d.members.mapM (ReadMember.extent? known)).map ofMembers

/-- The name is the one of neither a type of the language nor a wrapper. -/
def IsUnreserved (name : String) : Prop :=
  scalarNamed? name = none ∧ ∀ p ∈ PrimitiveType.valid, wrapperName p ≠ name

instance (name : String) : Decidable (IsUnreserved name) :=
  inferInstanceAs (Decidable (scalarNamed? name = none ∧ _))

/-! ### Types -/

/-- A primitive type is told from its tree. -/
theorem primitiveOf?_tree : ∀ p ∈ PrimitiveType.valid, primitiveOf? (primitiveTree p) = some p := by
  decide +kernel

/-- No wrapper is named like a scalar type. -/
theorem scalarNamed?_wrapperName :
    ∀ p ∈ PrimitiveType.valid, scalarNamed? (wrapperName p) = none := by
  decide +kernel

section Types

variable {known : Known TypeName} {known' : Known String} {t : TextTree} {name : String}

/-- A type that is read as a primitive type has its packed extent. -/
theorem extentOf?_of_primitive {p : PrimitiveType} (h : primitiveOf? t = some p) :
    extentOf? known' t = some (p.extent .packed) := by
  unfold extentOf?
  split
  · rename_i element
    cases element <;> simp [primitiveOf?, shapeNamed?] at h
  · simp [primitiveOf?] at h
  · rename_i w
    obtain ⟨k, hk, rfl⟩ := Option.map_eq_some_iff.mp (show (scalarNamed? w).map _ = some p from h)
    rw [hk]
    rfl
  · rw [h]
    rfl

/-- A name that is no scalar type has the extent that is known of it. -/
theorem extentOf?_word (h : scalarNamed? name = none) :
    extentOf? known' (.word name) = known'.extent name := by
  rw [extentOf?, h]
  rfl

/-- What has been read under words is what has been read under the names of types. -/
structure Agree (known : Known TypeName) (known' : Known String) : Prop where
  padded : ∀ p ∈ PrimitiveType.valid, known'.extent (wrapperName p) = known.extent (.padded p)
  struct : ∀ name, IsUnreserved name → known'.extent name = known.extent (.struct name)

/-- Nothing has been read under either. -/
theorem Agree.nil : Agree [] [] := ⟨fun _ _ => rfl, fun _ _ => rfl⟩

/-- Wrappers are told apart by their names. -/
theorem Agree.cons_padded (h : Agree known known') {p : PrimitiveType}
    (hp : p ∈ PrimitiveType.valid) (e : Extent) :
    Agree ((.padded p, e) :: known) ((wrapperName p, e) :: known') := by
  refine ⟨fun q hq => ?_, fun name hname => ?_⟩
  · have hinj : wrapperName p = wrapperName q ↔ TypeName.padded p = .padded q :=
      ⟨fun heq => congrArg _ (List.inj_on_of_nodup_map wrapperName_valid hp hq heq),
        fun heq => congrArg _ (TypeName.padded.inj heq)⟩
    rw [extent_cons, extent_cons, h.padded q hq]
    exact if_congr hinj rfl rfl
  · rw [extent_cons, extent_cons, if_neg (hname.2 p hp), if_neg (by simp), h.struct name hname]

/-- Structs are told apart by their names, and from wrappers. -/
theorem Agree.cons_struct (h : Agree known known') (hname : IsUnreserved name) (e : Extent) :
    Agree ((.struct name, e) :: known) ((name, e) :: known') := by
  refine ⟨fun p hp => ?_, fun other hother => ?_⟩
  · rw [extent_cons, extent_cons, if_neg fun heq => hname.2 p hp heq.symm, if_neg (by simp),
      h.padded p hp]
  · rw [extent_cons, extent_cons, h.struct other hother]
    exact if_congr (by simp) rfl rfl

/-- A type made of valid primitive types, and of structs whose names are left to them. -/
def TypeName.IsProper : TypeName → Prop
  | primitive p | padded p => p.fault = none
  | array element _ => element.IsProper
  | struct name => IsUnreserved name
  | pointer _ _ | texture _ | sampler _ => True

/-- A type has the extent that its text is read to have. -/
theorem extentOf?_tree (h : Agree known known') {t : TypeName} (ht : t.IsProper) {e : Extent}
    (he : t.natural known = some e) : extentOf? known' t.tree = some e := by
  induction t generalizing e with
  | primitive p =>
      rw [← Option.some.inj he]
      exact extentOf?_of_primitive (primitiveOf?_tree p (PrimitiveType.mem_valid ht))
  | padded p =>
      have hp := PrimitiveType.mem_valid ht
      rw [TypeName.tree, extentOf?_word (scalarNamed?_wrapperName p hp), h.padded p hp]
      exact he
  | struct name =>
      rw [TypeName.tree, extentOf?_word ht.1, h.struct name ht]
      exact he
  | array element n ih =>
      obtain ⟨inner, hinner, rfl⟩ := Option.map_eq_some_iff.mp he
      have hread := ih ht hinner
      rw [TypeName.tree]
      by_cases hn : n = 0
      · rw [if_pos hn, extentOf?, hread, hn]
        rfl
      · rw [if_neg hn, extentOf?, hread, Option.bind_some, decimal?_toString]
        rfl
  | pointer | texture | sampler => cases he

/-- An attribute makes of an extent what its text is read to make of it. -/
theorem attribute?_read (e : Extent) (a : Attribute) : attribute? e a.read = some (a.apply e) := by
  cases a with
  | align n | size n =>
      rw [Attribute.read, attribute?, decimal?_toString]
      rfl
  | builtin | location | flat => rfl

/-- The attributes are applied one after the other. -/
theorem foldlM_attributes (attributes : List Attribute) (e : Extent) :
    (attributes.map Attribute.read).foldlM attribute? e =
      some (attributes.foldl Attribute.apply e) := by
  induction attributes generalizing e with
  | nil => rfl
  | cons a rest ih =>
      rw [List.map_cons, List.foldlM_cons, attribute?_read]
      exact ih (a.apply e)

/-- A member has the extent that its text is read to have. -/
theorem extent?_read (h : Agree known known') {f : Field} (hf : f.type.IsProper) {e : Extent}
    (he : f.natural known = some e) : f.read.extent? known' = some e := by
  obtain ⟨plain, hplain, rfl⟩ := Option.map_eq_some_iff.mp he
  rw [ReadMember.extent?, Field.read, extentOf?_tree h hf hplain, Option.bind_some,
    foldlM_attributes]

/-- A struct has the layout that its text is read to have. -/
theorem layoutOf?_read (h : Agree known known') {d : Struct} (hd : ∀ f ∈ d.fields, f.type.IsProper)
    {found : StructLayout} (hfound : d.natural known = some found) :
    layoutOf? known' d.read = some found := by
  obtain ⟨es, hes, rfl⟩ := Option.map_eq_some_iff.mp hfound
  have hread : d.read.members.mapM (ReadMember.extent? known') = some es :=
    mapM_map_eq_some hes fun f hf e he => extent?_read h (hd f hf) he
  rw [layoutOf?, hread]
  rfl

end Types

/-! ### Declared structs -/

section Registered

variable {r : Registry}

/-- Registered types are spelled by valid primitive types and the names of structs. -/
theorem isProper_typeName (hr : r.Sound) {t : TypeId} {name : TypeName}
    (hfree : r.Spares IsUnreserved t) (h : typeName r t = .ok name) : name.IsProper := by
  have hvalid := hr.valid t
  rw [typeName] at h
  cases hk : r.kind t with
  | void =>
      rw [hk] at h
      cases h
  | primitive p =>
      rw [hk] at h hvalid
      rw [← Except.ok.inj h]
      exact hvalid
  | texture | sampler =>
      rw [hk] at h
      rw [← Except.ok.inj h]
      trivial
  | struct st =>
      rw [hk] at h
      rw [← Except.ok.inj h]
      exact hfree t st Relation.ReflTransGen.refl hk
  | pointer =>
      rw [hk] at h
      obtain ⟨inner, -, rfl⟩ := map_eq_ok_iff.mp h
      trivial
  | array element =>
      rw [hk] at h
      obtain ⟨inner, hinner, rfl⟩ := map_eq_ok_iff.mp h
      dsimp only at hinner
      by_cases hdown : element.index < t.index
      · rw [if_pos hdown] at hinner
        show inner.IsProper
        exact isProper_typeName hr (hfree.part (by rw [hk]; exact List.mem_cons_self)) hinner
      · rw [if_neg hdown] at hinner
        cases hinner
termination_by t.index

/-- Members of structs are as well, wrapped or not. -/
theorem isProper_std140TypeName (hr : r.Sound) {t : TypeId} {name : TypeName}
    (hfree : r.Spares IsUnreserved t) (h : std140TypeName r t = .ok name) : name.IsProper := by
  have hvalid := hr.valid t
  rw [std140TypeName] at h
  split at h
  · rename_i p hk
    rw [hk] at hvalid
    rw [← Except.ok.inj h]
    split <;> exact hvalid
  · rename_i element n hk
    split at h
    · rename_i p hp
      have hfault := hr.valid_of_kind (kind_eq_of_scalarElement? hp).1
      rw [← Except.ok.inj h]
      show TypeName.IsProper (if _ then _ else _)
      split <;> exact hfault
    · split at h
      · obtain ⟨inner, hinner, rfl⟩ := map_eq_ok_iff.mp h
        show inner.IsProper
        exact isProper_std140TypeName hr (hfree.part (by rw [hk]; exact List.mem_cons_self)) hinner
      · cases h
  · exact isProper_typeName hr hfree h
termination_by t.index

end Registered

section Declared

variable {s : ResolvedStage} {t : TypeId} {d : Struct}

/-- The members of a struct of uniforms have proper types. -/
theorem isProper_std140Fields (hr : s.types.Sound) {st : StructType} {isFirst : Bool}
    {members : List (Member × Nat)} (hfree : ∀ m ∈ members, s.types.Spares IsUnreserved m.1.type)
    {fields : List Field} (h : std140Fields s.types st isFirst members = .ok fields) :
    ∀ f ∈ fields, f.type.IsProper := by
  induction members generalizing isFirst fields with
  | nil =>
      rw [← Except.ok.inj h]
      exact List.forall_mem_nil _
  | cons m rest ih =>
      rw [List.forall_mem_cons] at hfree
      simp only [std140Fields, bind_eq_ok_iff] at h
      obtain ⟨attributes, -, type, htype, others, hothers, h⟩ := h
      rw [← Except.ok.inj h, List.forall_mem_cons]
      exact ⟨isProper_std140TypeName hr hfree.1 htype, ih hfree.2 hothers⟩

/-- The members of a declared struct have such types. -/
theorem isProper_struct (hr : s.types.Sound) (hfree : s.types.Spares IsUnreserved t)
    (h : struct s t = .ok d) : ∀ f ∈ d.fields, f.type.IsProper := by
  simp only [struct, bind_eq_ok_iff] at h
  obtain ⟨st, hst, h⟩ := h
  have hpart : ∀ m ∈ st.members, s.types.Spares IsUnreserved m.type := fun m hm =>
    hfree.part (by rw [ResolvedStage.struct_eq_ok_iff.mp hst]; exact List.mem_map_of_mem hm)
  split at h
  · obtain ⟨fields, hfields, h⟩ := bind_eq_ok_iff.mp h
    rw [← Except.ok.inj h]
    refine forall_of_mapM hfields fun m hm f hfield => ?_
    obtain ⟨type, htype, hfield⟩ := bind_eq_ok_iff.mp hfield
    rw [← Except.ok.inj hfield]
    exact isProper_typeName hr (hpart m hm) htype
  · obtain ⟨fields, hfields, h⟩ := bind_eq_ok_iff.mp h
    rw [← Except.ok.inj h]
    exact isProper_std140Fields hr (fun m hm => hpart m.1 (List.of_mem_zip hm).1) hfields

/-- The struct that wraps a primitive type has members of proper types. -/
theorem isProper_wrapper {p : PrimitiveType} (hp : p.fault = none) :
    ∀ f ∈ (wrapper p).fields, f.type.IsProper := by
  have hvalid : ∀ q ∈ PrimitiveType.valid, q.element.fault = none := by decide
  unfold wrapper
  dsimp only
  split
  · exact List.forall_mem_map.mpr fun c _ => hvalid p (PrimitiveType.mem_valid hp)
  · exact List.forall_mem_singleton.mpr hp

/-- Declarations are those of wrappers and of structs. -/
theorem of_mem_declarations (hr : s.types.Sound) {ts : List TypeId} {ds : List (TypeName × Struct)}
    (h : declarations s ts = .ok ds) {x : TypeName × Struct} (hx : x ∈ ds) :
    (∃ p : PrimitiveType, p.fault = none ∧ x = (.padded p, wrapper p)) ∨
      ∃ t ∈ ts, ∃ d, struct s t = .ok d ∧ x = (.struct d.name, d) := by
  obtain ⟨structs, hstructs, h⟩ := bind_eq_ok_iff.mp h
  rw [← Except.ok.inj h] at hx
  rcases List.mem_append.mp hx with hx | hx
  · obtain ⟨p, hp, rfl⟩ := List.mem_map.mp hx
    obtain ⟨-, -, -, m, -, hm⟩ := mem_wrappers_iff.mp hp
    exact Or.inl ⟨p, fault_of_wrapped? hr hm, rfl⟩
  · obtain ⟨t, ht, hd⟩ := exists_mem_of_forall₂ (mapM_eq_ok_iff.mp hstructs) x hx
    obtain ⟨d, hd, hx⟩ := bind_eq_ok_iff.mp hd
    exact Or.inr ⟨t, ht, d, hd, (Except.ok.inj hx).symm⟩

/-- A struct is among those that are read, and what has its name has its members and its layout. -/
def Declares (read : List (ReadStruct ReadMember)) (st : StructType) : Prop :=
  ∃ known, readStructs layoutOf? [] (read.map fun d => (d.name, d)) = some known ∧
    (∃ d ∈ read, d.name = st.name) ∧
    ∀ d ∈ read, d.name = st.name →
      d.members.map (·.name) = st.members.map (·.name) ∧ layoutOf? known d = some st.layout

section Reading

variable (hr : s.types.Sound) {used : List TypeId} {ds : List (TypeName × Struct)}
  (hds : declarations s (s.types.structsOf used) = .ok ds)
include hr hds

/-- The texts of the declarations for some types are read as the declarations are. -/
theorem readStructs?_declarations (hnames : s.types.HasNames (WebShader.isName · = true))
    (width : Nat) :
    readStructs? (String.join (ds.map (·.2.text width))) = some (ds.map (·.2.read)) := by
  have hlegible : ∀ x ∈ ds, x.2.IsLegible (WebShader.isName · = true) := by
    intro x hx
    rcases of_mem_declarations hr hds hx with ⟨p, -, rfl⟩ | ⟨t, -, d, hd, rfl⟩
    · exact isLegible_wrapper p
    · exact isLegible_struct admits_isName hnames hd
  have houtline := (Adds.join_map (g := (·.2.item width)) fun x hx =>
    (hlegible x hx).adds (fun _ hn => .of_isName hn) width).ofText?
  rw [readStructs?, houtline, Option.bind_some]
  exact structs?_map fun x hx => structs?_item (hlegible x hx) width

/-- A struct that has been laid out from the declarations is read as it was laid out. -/
theorem declares_read (hused : ∀ t ∈ used, s.types.Spares IsUnreserved t) {known : Known TypeName}
    (hread : readStructs Struct.natural [] ds = some known) (ht : t ∈ s.types.structsOf used)
    {st : StructType} (hst : s.types.kind t = .struct st) (hd : struct s t = .ok d)
    (hmem : (TypeName.struct st.name, d) ∈ ds)
    (hmembers : d.fields.map (·.name) = st.members.map (·.name))
    (hlayout : d.natural known = some st.layout) : Declares (ds.map (·.2.read)) st := by
  -- no struct in use has the name of a wrapper, so that names tell the declared types apart
  have hfree := Registry.spares_structsOf hr.wellFormed hused
  have hproper : ∀ x ∈ ds, ∀ f ∈ x.2.fields, f.type.IsProper := by
    intro x hx
    rcases of_mem_declarations hr hds hx with ⟨p, hp, rfl⟩ | ⟨u, hu, d, hd, rfl⟩
    · exact isProper_wrapper hp
    · exact isProper_struct hr (hfree u hu) hd
  have hname : ∀ x ∈ ds, ∀ known known' e, Agree known known' →
      Agree ((x.1, e) :: known) ((x.2.name, e) :: known') := by
    intro x hx known known' e hagree
    rcases of_mem_declarations hr hds hx with ⟨p, hp, rfl⟩ | ⟨u, hu, d, hd, rfl⟩
    · exact hagree.cons_padded (PrimitiveType.mem_valid hp) e
    · obtain ⟨su, hsu, hname⟩ := name_of_struct hd
      refine hagree.cons_struct ?_ e
      rw [hname]
      exact hfree u hu u su Relation.ReflTransGen.refl (ResolvedStage.struct_eq_ok_iff.mp hsu)
  obtain ⟨known', hread', hagree⟩ := readStructs_map
    (f := fun x : TypeName × Struct => (x.2.read.name, x.2.read)) hname
    (fun x hx known known' found hagree hfound => layoutOf?_read hagree (hproper x hx) hfound)
    Agree.nil hread
  refine ⟨known', ?_, ?_, ?_⟩
  · rw [List.map_map]
    exact hread'
  · obtain ⟨st', hst', hdname⟩ := name_of_struct hd
    obtain rfl := TypeKind.struct.inj (hst.symm.trans (ResolvedStage.struct_eq_ok_iff.mp hst'))
    exact ⟨d.read, List.mem_map_of_mem (f := fun x : TypeName × Struct => x.2.read) hmem, hdname⟩
  · refine List.forall_mem_map.mpr fun x hx hsame => ?_
    have hunreserved := hfree t ht t st Relation.ReflTransGen.refl hst
    rcases of_mem_declarations hr hds hx with ⟨p, hp, rfl⟩ | ⟨u, hu, d', hd', rfl⟩
    · exact absurd hsame (hunreserved.2 p (PrimitiveType.mem_valid hp))
    · -- no other struct has the name
      obtain ⟨su, hsu, hdname⟩ := name_of_struct hd'
      have hsu := ResolvedStage.struct_eq_ok_iff.mp hsu
      obtain rfl := hr.name_inj t u st su hst hsu (hsame.symm.trans hdname)
      obtain rfl := Except.ok.inj (hd.symm.trans hd')
      refine ⟨?_, layoutOf?_read hagree (hproper _ hx) hlayout⟩
      rw [← hmembers]
      exact List.map_map ..

end Reading

end Declared

end Wgsl

/-! ## GLSL ES -/

namespace Glsl

open Layout Token

/-- The extent GLSL ES gives to the primitive type of a word. -/
def extentNamed? : String → Option Extent
  | "bool" | "int" | "uint" | "float" => some (componentsExtent 1)
  | "bvec2" | "ivec2" | "uvec2" | "vec2" => some (componentsExtent 2)
  | "bvec3" | "ivec3" | "uvec3" | "vec3" => some (componentsExtent 3)
  | "bvec4" | "ivec4" | "uvec4" | "vec4" => some (componentsExtent 4)
  | "mat2" => some (arrayExtent (componentsExtent 2) 2)
  | "mat2x3" => some (arrayExtent (componentsExtent 3) 2)
  | "mat2x4" => some (arrayExtent (componentsExtent 4) 2)
  | "mat3x2" => some (arrayExtent (componentsExtent 2) 3)
  | "mat3" => some (arrayExtent (componentsExtent 3) 3)
  | "mat3x4" => some (arrayExtent (componentsExtent 4) 3)
  | "mat4x2" => some (arrayExtent (componentsExtent 2) 4)
  | "mat4x3" => some (arrayExtent (componentsExtent 3) 4)
  | "mat4" => some (arrayExtent (componentsExtent 4) 4)
  | _ => none

/-- The extent GLSL ES gives to a member of a block or of a struct: that of the type of the
innermost parts, repeated as often as the lengths say. -/
def ReadField.extent? (known : Known String) (f : ReadField) : Option Extent :=
  ((extentNamed? f.base).or (known.extent f.base)).bind fun e =>
    f.lengths.foldrM (fun n e => (decimal? n.toList).map (arrayExtent e)) e

/-- The layout GLSL ES gives to a struct in a block, or to the block itself. -/
def layoutOf? (known : Known String) (d : ReadStruct ReadField) : Option StructLayout :=
  (d.members.mapM (ReadField.extent? known)).map blockLayout

/-- The name is not the one of a type of the language. -/
def IsUnreserved (name : String) : Prop := extentNamed? name = none

instance (name : String) : Decidable (IsUnreserved name) :=
  inferInstanceAs (Decidable (extentNamed? name = none))

/-! ### Types -/

/-- The block layout of a primitive type from its name. -/
theorem extentNamed?_primitiveName :
    ∀ p ∈ PrimitiveType.valid, extentNamed? (primitiveName p) =
      (TypeName.primitive p).block [] := by
  decide +kernel

/-- A type made of valid primitive types, and of structs whose names are left to them. -/
def TypeName.IsProper : TypeName → Prop
  | primitive p => p.fault = none
  | array element _ => element.IsProper
  | struct name => IsUnreserved name
  | void | sampler _ => True

/-- The lengths of an array, from the outside in. -/
def TypeName.counts : TypeName → List Nat
  | array element n => n :: element.counts
  | _ => []

/-- It does not matter which of two lengths an array has on the outside. -/
theorem arrayExtent_comm (e : Extent) (n m : Nat) :
    arrayExtent (arrayExtent e n) m = arrayExtent (arrayExtent e m) n := by
  have halign : roundUp (roundUp e.alignment 16) 16 = roundUp e.alignment 16 :=
    roundUp_eq_self (by decide) (dvd_roundUp e.alignment 16)
  -- whole elements need no padding between them
  have hsize : ∀ k, roundUp (roundUp e.size (roundUp e.alignment 16) * k) (roundUp e.alignment 16) =
      roundUp e.size (roundUp e.alignment 16) * k := by
    intro k
    rcases Nat.eq_zero_or_pos (roundUp e.alignment 16) with hzero | hpos
    · rw [hzero]
      simp [roundUp]
    · exact roundUp_eq_self hpos (Nat.dvd_mul_right_of_dvd (dvd_roundUp _ _) k)
  simp only [arrayExtent, halign, hsize, Nat.mul_right_comm _ n m]

section Types

variable {known : Known String}

/-- The extent of a type is the one of its innermost parts, repeated. -/
theorem block_eq_foldr {t : TypeName} (ht : t.IsProper) {e : Extent} (he : t.block known = some e) :
    ∃ inner, (extentNamed? t.base).or (known.extent t.base) = some inner ∧
      e = t.counts.foldr (fun n e => arrayExtent e n) inner := by
  induction t generalizing e with
  | primitive p =>
      rw [TypeName.base, extentNamed?_primitiveName p (PrimitiveType.mem_valid ht)]
      exact ⟨e, by rw [← he]; rfl, rfl⟩
  | struct name =>
      rw [TypeName.base, show extentNamed? name = none from ht]
      exact ⟨e, he, rfl⟩
  | array element n ih =>
      obtain ⟨part, hpart, rfl⟩ := Option.map_eq_some_iff.mp he
      obtain ⟨inner, hinner, rfl⟩ := ih ht hpart
      exact ⟨inner, hinner, rfl⟩
  | void | sampler => cases he

/-- The lengths that are read from a declaration are those of the type, in some order. -/
theorem exists_lengths (t : TypeName) :
    ∃ counts : List Nat, counts.Perm t.counts ∧ t.lengths = counts.map toString := by
  have hinner : ∀ t : TypeName, t.inner = t.counts.reverse.map toString := by
    intro t
    induction t with
    | array element n ih => simp [TypeName.inner, TypeName.counts, ih]
    | void | primitive | struct | sampler => rfl
  cases t with
  | array element n =>
      exact ⟨n :: element.counts.reverse, (List.reverse_perm _).cons n,
        congrArg _ (hinner element)⟩
  | void | primitive | struct | sampler => exact ⟨[], .nil, rfl⟩

/-- The lengths of an array are applied from the innermost. -/
theorem foldrM_lengths (counts : List Nat) (e : Extent) :
    (counts.map toString).foldrM (fun n e => (decimal? n.toList).map (arrayExtent e)) e =
      some (counts.foldr (fun n e => arrayExtent e n) e) := by
  induction counts with
  | nil => rfl
  | cons n rest ih =>
      rw [List.map_cons, List.foldrM_cons, ih]
      show (decimal? (toString n).toList).map _ = _
      rw [decimal?_toString]
      rfl

/-- A member has the extent that its text is read to have. -/
theorem extent?_read {f : Field} (hf : f.type.IsProper) {e : Extent}
    (he : f.type.block known = some e) : f.read.extent? known = some e := by
  obtain ⟨inner, hinner, rfl⟩ := block_eq_foldr hf he
  obtain ⟨counts, hperm, hlengths⟩ := exists_lengths f.type
  rw [ReadField.extent?, Field.read, hinner, Option.bind_some, hlengths, foldrM_lengths]
  exact congrArg some (hperm.foldr_eq' (fun n _ m _ e => arrayExtent_comm e n m) inner)

/-- A struct has the layout that its text is read to have. -/
theorem layoutOf?_read {d : Struct} (hd : ∀ f ∈ d.fields, f.type.IsProper) {found : StructLayout}
    (hfound : d.block known = some found) : layoutOf? known d.read = some found := by
  obtain ⟨es, hes, rfl⟩ := Option.map_eq_some_iff.mp hfound
  have hread : d.read.members.mapM (ReadField.extent? known) = some es :=
    mapM_map_eq_some hes fun f hf e he => extent?_read (hd f hf) he
  rw [layoutOf?, hread]
  rfl

end Types

/-! ### Declared blocks -/

section Declared

variable {s : ResolvedStage} {t : TypeId} {st : StructType}

/-- Registered types are spelled by valid primitive types and the names of structs. -/
theorem isProper_typeName {r : Registry} (hr : r.Sound) {target : Target} {t : TypeId}
    {name : TypeName} (hfree : r.Spares IsUnreserved t) (h : typeName r target t = .ok name) :
    name.IsProper := by
  have hvalid := hr.valid t
  rw [typeName] at h
  cases hk : r.kind t with
  | void =>
      rw [hk] at h
      rw [← Except.ok.inj h]
      trivial
  | primitive p =>
      rw [hk] at h hvalid
      rw [← Except.ok.inj h]
      exact hvalid
  | struct st =>
      rw [hk] at h
      rw [← Except.ok.inj h]
      exact hfree t st Relation.ReflTransGen.refl hk
  | texture =>
      rw [hk] at h
      obtain ⟨name, -, rfl⟩ := map_eq_ok_iff.mp h
      trivial
  | array element n =>
      rw [hk] at h
      dsimp only at h
      split at h
      · cases h
      · split at h
        · obtain ⟨inner, hinner, rfl⟩ := map_eq_ok_iff.mp h
          show inner.IsProper
          exact isProper_typeName hr (hfree.part (by rw [hk]; exact List.mem_cons_self)) hinner
        · cases h
  | pointer | sampler =>
      rw [hk] at h
      cases h
termination_by t.index

/-- The members of a struct or of a block have such types. -/
theorem isProper_members (hr : s.types.Sound)
    (hfree : ∀ m ∈ st.members, s.types.Spares IsUnreserved m.type) {fields : List Field}
    (h : (st.members.mapM fun m => field s m.name m.type) = .ok fields) :
    ∀ f ∈ fields, f.type.IsProper := by
  refine forall_of_mapM h fun m hm f hfield => ?_
  obtain ⟨type, htype, hfield⟩ := bind_eq_ok_iff.mp hfield
  rw [← Except.ok.inj hfield]
  exact isProper_typeName hr (hfree m hm) htype

/-- A block is read as it was laid out, after the structs that are read before it. -/
def Declares (read : List (ReadStruct ReadField)) (block : ReadStruct ReadField) (st : StructType) :
    Prop :=
  ∃ known, readStructs layoutOf? [] (read.map fun d => (d.name, d)) = some known ∧
    block.name = st.name ∧ block.members.map (·.name) = st.members.map (·.name) ∧
    layoutOf? known block = some st.layout

section Reading

variable {ds : List (String × Struct)} (hds : blockStructs s st = .ok ds)
include hds

/-- The declarations of the structs that a block contains are those of structs that its members
contain. -/
theorem of_mem_blockStructs {x : String × Struct} (hx : x ∈ ds) :
    ∃ u ∈ s.types.structsOf (st.members.map (·.type)), struct s u = .ok x.2 ∧ x.1 = x.2.name := by
  obtain ⟨u, hu, hd⟩ := exists_mem_of_forall₂ (mapM_eq_ok_iff.mp hds) x hx
  obtain ⟨d, hd, hx⟩ := bind_eq_ok_iff.mp hd
  rw [← Except.ok.inj hx]
  exact ⟨u, hu, hd, rfl⟩

/-- The texts of the structs that a block contains are read as the structs are. -/
theorem readStructs?_blockStructs (hnames : s.types.HasNames (isName · = true)) (width : Nat) :
    readStructs? (String.join (ds.map (·.2.text width))) = some (ds.map (·.2.read)) := by
  have hlegible : ∀ x ∈ ds, x.2.IsLegible (isName · = true) := by
    intro x hx
    obtain ⟨u, -, hd, -⟩ := of_mem_blockStructs hds hx
    exact isLegible_struct hnames hd
  have houtline := (Adds.join fun x hx =>
    (hlegible x hx).adds (fun _ hn => .of_isName hn) width).ofText?
  rw [readStructs?, houtline, Option.bind_some]
  exact structs?_flatMap fun x hx => structs?_items (hlegible x hx)

/-- A block that has been laid out from the declarations is read as it was laid out. -/
theorem declares_read (hr : s.types.Sound)
    (hfree : ∀ m ∈ st.members, s.types.Spares IsUnreserved m.type) {known : Known String}
    (hread : readStructs Struct.block [] ds = some known) {fields : List Field}
    (hfields : (st.members.mapM fun m => field s m.name m.type) = .ok fields)
    (hmembers : fields.map (·.name) = st.members.map (·.name))
    (hlayout : Struct.block known ⟨st.name, fields⟩ = some st.layout) :
    Declares (ds.map (·.2.read)) (Struct.read ⟨st.name, fields⟩) st := by
  have hspared := Registry.spares_structsOf hr.wellFormed (List.forall_mem_map.mpr hfree)
  have hproper : ∀ x ∈ ds, ∀ f ∈ x.2.fields, f.type.IsProper := by
    intro x hx
    obtain ⟨u, hu, hd, -⟩ := of_mem_blockStructs hds hx
    obtain ⟨su, hsu, hd⟩ := bind_eq_ok_iff.mp hd
    obtain ⟨fields', hfields', hd⟩ := bind_eq_ok_iff.mp hd
    rw [← Except.ok.inj hd]
    refine isProper_members hr (fun m hm => (hspared u hu).part ?_) hfields'
    rw [ResolvedStage.struct_eq_ok_iff.mp hsu]
    exact List.mem_map_of_mem hm
  obtain ⟨known', hread', rfl⟩ := readStructs_map (R := Eq)
    (f := fun x : String × Struct => (x.2.read.name, x.2.read))
    (fun x hx known known' e heq => by
      obtain ⟨-, -, -, hname⟩ := of_mem_blockStructs hds hx
      rw [heq, hname]
      rfl)
    (fun x hx known known' found heq hfound => by
      rw [← heq]
      exact layoutOf?_read (hproper x hx) hfound) rfl hread
  refine ⟨known, ?_, rfl, ?_, layoutOf?_read (isProper_members hr hfree hfields) hlayout⟩
  · rw [List.map_map]
    exact hread'
  · rw [← hmembers]
    exact List.map_map ..

end Reading

end Declared

end Glsl

/-! ## Layouts -/

/-- Whatever types a source uses, the WGSL declarations of the structs they contain, wrappers
included, give each struct the layout it was registered with: the offset of every member, the
alignment and the size, a runtime-sized tail counting as empty. GLSL ES 3.00 gives the same layout
to the block declared for a struct that follows `std140` rules and has no 16-bit component; such a
block is declared unless it has a runtime-sized tail. The texts of the declarations are read as the
declarations, and their words are enough to lay them out, unless a struct has taken the name of
another type of the language. -/
theorem declared_layout_eq_recorded (s : ResolvedStage) (hr : s.types.Reachable) (width : Nat)
    {used : List TypeId} {t : TypeId} (ht : t ∈ used) {st : StructType}
    (hst : s.types.struct? t = some st) :
    (∃ ds known d, Wgsl.declarations s (s.types.structsOf used) = .ok ds ∧
      readStructs Wgsl.Struct.natural [] ds = some known ∧
      Wgsl.struct s t = .ok d ∧ (Wgsl.TypeName.struct st.name, d) ∈ ds ∧
      d.fields.map (·.name) = st.members.map (·.name) ∧
      d.natural known = some st.layout ∧
      Wgsl.readStructs? (String.join (ds.map (·.2.text width))) = some (ds.map (·.2.read)) ∧
      ((∀ u ∈ used, s.types.Spares Wgsl.IsUnreserved u) →
        Wgsl.Declares (ds.map (·.2.read)) st)) ∧
    ∀ b : Binding.Record, s.target = .webGL2 → b.content = .uniformBlock t →
      st.policy = .std140 → s.types.IsHalfFree t →
      (s.types.isRuntimeSized t = false →
        ∃ ds u, Glsl.blockStructs s st = .ok ds ∧ Glsl.uniform s b = .ok u) ∧
      ∀ ds u, Glsl.blockStructs s st = .ok ds → Glsl.uniform s b = .ok u →
        ∃ known fields, u = .block ⟨st.name, fields⟩ b.name ∧
          readStructs Glsl.Struct.block [] ds = some known ∧
          fields.map (·.name) = st.members.map (·.name) ∧
          Glsl.Struct.block known ⟨st.name, fields⟩ = some st.layout ∧
          Glsl.readStructs? (String.join (ds.map (·.2.text width))) = some (ds.map (·.2.read)) ∧
          (isName b.name = true →
            Glsl.readBlock? (u.text width) = some (Glsl.Struct.read ⟨st.name, fields⟩, b.name)) ∧
          ((∀ m ∈ st.members, s.types.Spares Glsl.IsUnreserved m.type) →
            Glsl.Declares (ds.map (·.2.read)) (Glsl.Struct.read ⟨st.name, fields⟩) st) := by
  have hsound := hr.sound
  have hnames := hr.namesStructs.hasNames
  have hk := Registry.struct?_eq_some_iff.mp hst
  constructor
  -- WGSL: the structs in use are declared in order, each after those that its members name
  · obtain ⟨ds, known, hds, hread, hstructs⟩ := Wgsl.exists_declarations (s := s) hsound used
    have hin := (Registry.collects_structsOf hsound.wellFormed used).new t ht t st
      Relation.ReflTransGen.refl hk
    obtain ⟨d, hd, hmem, hmembers, hlayout⟩ := hstructs t hin st hk
    exact ⟨ds, known, d, hds, hread, hd, hmem, hmembers, hlayout,
      Wgsl.readStructs?_declarations hsound hds hnames width, fun hused =>
        Wgsl.declares_read hsound hds hused hread hin hk hd hmem hmembers hlayout⟩
  -- GLSL: the rules of the block are the ones that the struct has been laid out under
  · intro b htarget hb hpolicy hhalf
    have hstd : s.types.IsStd140 t := by
      have hvalid := hsound.valid_of_kind hk
      refine Registry.isStd140_of_parts (fun u hu => ?_) fun su hsu => ?_
      · rw [hk] at hu
        obtain ⟨m, hm, rfl⟩ := List.mem_map.mp hu
        exact hvalid.2.2.2 hpolicy m hm
      · rw [hk] at hsu
        rw [← TypeKind.struct.inj hsu]
        exact hpolicy
    have hlayout : s.types.isRuntimeSized t = false → _ := fun hsized =>
      Glsl.block_layout hsound hk ⟨hstd, hhalf, by rw [hk]; rfl, hsized⟩ htarget hb
    -- a block with a tail of unknown length cannot be declared, so that what has been declared is
    -- sized
    refine ⟨fun hsized => ?_, fun ds u hds hu => ?_⟩
    · obtain ⟨ds, known, fields, hds, -, hu, -⟩ := hlayout hsized
      exact ⟨ds, _, hds, hu⟩
    · have hsized := Glsl.isRuntimeSized_eq_false_of_declared hsound hk htarget hb hds hu
      obtain ⟨ds', known, fields, hds', hread, hu', hmembers, hblock⟩ := hlayout hsized
      obtain rfl := Except.ok.inj (hds.symm.trans hds')
      obtain rfl := Except.ok.inj (hu.symm.trans hu')
      have hfields : (st.members.mapM fun m => Glsl.field s m.name m.type) = .ok fields := by
        rw [Glsl.uniform_eq htarget hk hb] at hu
        obtain ⟨fields', hfields', heq⟩ := map_eq_ok_iff.mp hu
        rw [hfields', (Glsl.Struct.mk.inj (Glsl.Uniform.block.inj heq).1).2]
      exact ⟨known, fields, rfl, hread, hmembers, hblock,
        Glsl.readStructs?_blockStructs hds hnames width,
        fun hname => Glsl.readBlock?_text
          ⟨(hnames t st hk).1, Glsl.isLegible_members hnames hk hfields⟩ hname width,
        fun hfree => Glsl.declares_read hds hsound hfree hread hfields hmembers hblock⟩

/-- The structs that are read from a source of WGSL are first those that its types contain, each
with the layout it was registered with. -/
theorem Wgsl.exists_declares_source {s : ResolvedStage} (hr : s.types.Sound)
    (htarget : s.target = .webGPU) (hs : s.HasNames (isName · = true)) (hb : s.HasBranches)
    (hused : ∀ t ∈ s.usedTypes, s.types.Spares IsUnreserved t) {source : String}
    (h : s.text = .ok source) :
    ∃ read rest, readStructs? source = some (read ++ rest) ∧
      ∀ t ∈ s.structTypes, ∀ st, s.types.kind t = .struct st → Declares read st := by
  obtain ⟨m, hm, hread⟩ := exists_structs htarget hs hb h
  obtain ⟨ds, known, hds, hlaid, hstructs⟩ := exists_declarations (s := s) hr s.usedTypes
  obtain ⟨ds', hds', hmodule⟩ := structs_of_module hm
  obtain rfl := Except.ok.inj (hds.symm.trans hds')
  rw [List.map_append, hmodule, List.map_map] at hread
  refine ⟨_, _, hread, fun t ht st hst => ?_⟩
  rw [ResolvedStage.structTypes_eq] at ht
  obtain ⟨d, hd, hmem, hmembers, hlayout⟩ := hstructs t ht st hst
  exact declares_read hr hds hused hlaid ht hst hd hmem hmembers hlayout

/-! ## A block of lights -/

/-- The registry of a single struct: three weights, padded to 16 bytes each, and a power. -/
def lightTypes : Registry :=
  (Registry.empty.run (Interning.shape (.struct (some "Light") .std140
    [("weights", .array (.scalar .f32) 3), ("power", .scalar .f32)]))).2

/-- The struct of a light, as it is registered. -/
def light : StructType where
  name := "Light"
  policy := .std140
  members := [⟨"weights", ⟨1⟩⟩, ⟨"power", ⟨0⟩⟩]
  layout := ⟨[0, 48], 16, 64⟩

/-- A fragment stage that knows of lights. -/
def lightStage : ResolvedStage where
  target := .webGL2
  indentWidth := 2
  types := lightTypes
  vars := #[]
  plan := {}
  decls := { stage := .fragment }
  constants := []
  functions := []
  main := []

/-- The block of a light. -/
def lightBlock : Binding.Record where
  name := "ublock_f_0"
  group := 0
  index := 0
  visibility := .ofStage .fragment
  content := .uniformBlock ⟨2⟩
  vars := []

/-- The struct of the light is registered. -/
theorem struct?_lightTypes : lightTypes.struct? ⟨2⟩ = some light := by
  decide +kernel

/-- Nothing about the light is of half precision. -/
theorem hasScalar_lightTypes : lightTypes.hasScalar .f16 = false := by
  decide +kernel

/-- The light has a size. -/
theorem isRuntimeSized_lightTypes : lightTypes.isRuntimeSized ⟨2⟩ = false := by
  decide +kernel

/-- The light leaves the reserved names alone. -/
theorem spares_lightTypes (t : TypeId) :
    lightTypes.Spares Wgsl.IsUnreserved t ∧ lightTypes.Spares Glsl.IsUnreserved t :=
  ⟨Registry.spares_of_all (by decide +kernel) t, Registry.spares_of_all (by decide +kernel) t⟩

/-- Both languages put the power of a light at byte 48 of its 64, as the texts say. -/
theorem light_declared_as_recorded :
    (∃ ds known d, Wgsl.declarations lightStage (lightTypes.structsOf [⟨2⟩]) = .ok ds ∧
      Wgsl.readStructs? (String.join (ds.map (·.2.text 2))) = some (ds.map (·.2.read)) ∧
      d ∈ ds.map (·.2.read) ∧ d.name = "Light" ∧
      d.members.map (·.name) = ["weights", "power"] ∧
      Wgsl.layoutOf? known d = some ⟨[0, 48], 16, 64⟩) ∧
    ∃ u known block, Glsl.uniform lightStage lightBlock = .ok u ∧
      Glsl.readBlock? (u.text 2) = some (block, "ublock_f_0") ∧ block.name = "Light" ∧
      block.members.map (·.name) = ["weights", "power"] ∧
      Glsl.layoutOf? known block = some ⟨[0, 48], 16, 64⟩ := by
  obtain ⟨⟨ds, -, -, hds, -, -, -, -, -, hread, hdeclares⟩, hblock⟩ :=
    declared_layout_eq_recorded lightStage (.shape _ .empty) 2
      (List.mem_singleton_self (⟨2⟩ : TypeId)) struct?_lightTypes
  obtain ⟨known, -, ⟨d, hd, hname⟩, hall⟩ := hdeclares fun u _ => (spares_lightTypes u).1
  obtain ⟨hmembers, hlayout⟩ := hall d hd hname
  obtain ⟨hdeclared, htexts⟩ := hblock lightBlock rfl rfl rfl
    (Registry.isHalfFree_of_hasScalar hasScalar_lightTypes ⟨2⟩)
  obtain ⟨ds', u, hds', hu⟩ := hdeclared isRuntimeSized_lightTypes
  obtain ⟨-, fields, -, -, -, -, -, htext, hdeclares'⟩ := htexts ds' u hds' hu
  obtain ⟨known', -, hname', hmembers', hlayout'⟩ :=
    hdeclares' fun m _ => (spares_lightTypes m.type).2
  exact ⟨⟨ds, known, d, hds, hread, hd, hname, hmembers, hlayout⟩,
    u, known', _, hu, htext (by decide), hname', hmembers', hlayout'⟩

end WebShader
