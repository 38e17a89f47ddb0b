import WebShader.Proofs.WrappedTypes

/-!
# Wrapped values

A value whose type is spelled with wrappers is wrapped where it is stored and unwrapped where it is
used. Either way the new value is built from the components of the old one, each put where it
belongs, and what is loaded is what was stored.
-/

namespace WebShader

namespace Wgsl

/-! ## Values of expressions -/

/-- A value, as far as it is taken apart: `α` holds the scalars and vectors, and what else is held
whole. -/
inductive Content (α : Type) where
  | whole (a : α)
  | sequence (parts : List (Content α))
  | record (parts : List (String × Content α))

namespace Content

variable {α : Type}

/-- A part of a value. -/
def part? : Content α → Access → Option (Content α)
  | sequence parts, .element k => parts[k]?
  | record parts, .field name => (parts.find? (·.1 == name)).map (·.2)
  | _, _ => none

/-- The value of a wrapper with some fields. -/
def wrapped (p : PrimitiveType) (parts : List (Content α)) : Content α :=
  record (((wrapper p).fields.map (·.name)).zip parts)

/-- Whether a value has a type. Matrices are made of their columns. -/
def IsOf : TypeName → Content α → Prop
  | .array element n, v => ∃ vs, v = sequence vs ∧ vs.length = n ∧ ∀ x ∈ vs, IsOf element x
  | .primitive p, v =>
    if p.isMatrix then ∃ as : List α, v = sequence (as.map whole) ∧ as.length = p.cols.toNat
    else ∃ a, v = whole a
  | .padded p, v =>
    ∃ as : List α, v = wrapped p (as.map whole) ∧ as.length = (wrapper p).fields.length
  | _, v => ∃ a, v = whole a

/-- A field of a wrapper, by the place of its name. -/
theorem part?_wrapped {p : PrimitiveType} {vs : List (Content α)} {k : Nat} {f : Field}
    {v : Content α} (hlength : vs.length = (wrapper p).fields.length)
    (hf : (wrapper p).fields[k]? = some f) (hv : vs[k]? = some v) :
    (wrapped p vs).part? (.field f.name) = some v := by
  have hkeys : ((((wrapper p).fields.map (·.name)).zip vs).map (·.1)).Nodup := by
    rw [List.map_fst_zip (by rw [List.length_map, hlength])]
    exact nodup_names_wrapper p
  have hmem : (f.name, v) ∈ ((wrapper p).fields.map (·.name)).zip vs := by
    refine List.mem_of_getElem? (i := k) ?_
    rw [List.getElem?_zip_eq_some, List.getElem?_map, hf]
    exact ⟨rfl, hv⟩
  have hfind := find?_key hkeys hmem
  show Option.map _ (List.find? _ _) = _
  rw [hfind]
  rfl

end Content

/-- The value of an expression. -/
def evaluation {α : Type} (given : Expr → Option (Content α)) : Interpretation (Content α) where
  access := Content.part?
  build t args :=
    if args = [] ∨ args.length ≠ t.accesses.length then none
    else
      match t with
      | .padded p => some (.wrapped p args)
      | _ => some (.sequence args)
  given := given

section Evaluation

variable {α : Type} {given : Expr → Option (Content α)} {p : PrimitiveType}

/-- The values of expressions that are numbered. -/
theorem forall₂_range {X : Type} {I : Interpretation X} {n : Nat} {f : Nat → Expr} {xs : List X}
    (hlength : xs.length = n) (h : ∀ k x, xs[k]? = some x → I.of (f k) = some x) :
    List.Forall₂ (fun e x => I.of e = some x) ((List.range n).map f) xs := by
  rw [List.forall₂_iff_get]
  refine ⟨by rw [List.length_map, List.length_range, hlength], fun k _ hk => ?_⟩
  have hx := h k xs[k] (List.getElem?_eq_getElem hk)
  simpa using hx

/-- An array or a matrix built from the values of its parts. -/
theorem of_sequence {t : TypeName} {args : List Expr} {vs : List (Content α)}
    (ht : ∀ p, t ≠ .padded p) (hlength : vs.length = t.accesses.length) (hne : vs ≠ [])
    (h : List.Forall₂ (fun e v => (evaluation given).of e = some v) args vs) :
    (evaluation given).of (.construct t args) = some (.sequence vs) := by
  refine Interpretation.of_construct h ?_
  show (if _ then _ else _) = _
  rw [if_neg (by simp [hne, hlength])]
  cases t with
  | padded p => exact absurd rfl (ht p)
  | primitive | array | struct | pointer | texture | sampler => rfl

/-- A wrapper built from the values of its fields. -/
theorem of_wrapped {args : List Expr} {vs : List (Content α)}
    (hlength : vs.length = (wrapper p).fields.length) (hne : vs ≠ [])
    (h : List.Forall₂ (fun e v => (evaluation given).of e = some v) args vs) :
    (evaluation given).of (.construct (.padded p) args) = some (.wrapped p vs) := by
  refine Interpretation.of_construct h (if_neg ?_)
  simp [hne, hlength, TypeName.accesses]

/-- A valid matrix is wrapped by its columns, and unwrapped from them. -/
theorem wraps_matrix (hp : p.isMatrix = true) {as : List α} (hlength : as.length = p.cols.toNat)
    {e : Expr} :
    ((evaluation given).of e = some (.sequence (as.map .whole)) →
      (evaluation given).of ((TypeName.padded p).wrap e) = some (.wrapped p (as.map .whole))) ∧
    ((evaluation given).of e = some (.wrapped p (as.map .whole)) →
      (evaluation given).of ((TypeName.padded p).unwrap e) = some (.sequence (as.map .whole))) := by
  have hcols := cols_pos hp
  have hlength' : (as.map Content.whole).length = p.cols.toNat := by rw [List.length_map, hlength]
  have hne : as.map Content.whole ≠ [] := List.ne_nil_of_length_pos (hlength' ▸ hcols)
  have hfields : (as.map Content.whole).length = (wrapper p).fields.length := by
    rw [hlength', fields_wrapper_matrix hp, List.length_map, List.length_range]
  constructor
  · intro he
    rw [TypeName.wrap, if_pos hp]
    refine of_wrapped hfields hne (forall₂_range hlength' fun c v hv => ?_)
    exact Interpretation.of_access (a := .element c) he hv
  · intro he
    rw [TypeName.unwrap, if_pos hp]
    refine of_sequence (by simp) ?_ hne (forall₂_range hlength' fun c v hv => ?_)
    · rw [hlength', accesses_matrix hp, List.length_map, List.length_range]
    · have hc : c < p.cols.toNat := hlength' ▸ (List.getElem?_eq_some_iff.mp hv).choose
      have hf : (wrapper p).fields[c]? =
          some ⟨[.size 16], "c" ++ toString c, .primitive p.element⟩ := by
        rw [fields_wrapper_matrix hp, List.getElem?_map, List.getElem?_range hc]
        rfl
      exact Interpretation.of_access (a := .field ("c" ++ toString c)) he
        (Content.part?_wrapped hfields hf hv)

/-- A scalar or vector is the only field of its wrapper. -/
theorem wraps_plain (hp : p.isMatrix = false) {a : α} {e : Expr} :
    ((evaluation given).of e = some (.whole a) →
      (evaluation given).of ((TypeName.padded p).wrap e) = some (.wrapped p [.whole a])) ∧
    ((evaluation given).of e = some (.wrapped p [.whole a]) →
      (evaluation given).of ((TypeName.padded p).unwrap e) = some (.whole a)) := by
  have hfields : [Content.whole a].length = (wrapper p).fields.length := by
    rw [fields_wrapper_plain hp]
    rfl
  constructor
  · intro he
    rw [TypeName.wrap, if_neg (by simp [hp])]
    exact of_wrapped hfields (List.cons_ne_nil _ _) (.cons he .nil)
  · intro he
    rw [TypeName.unwrap, if_neg (by simp [hp])]
    have hf : (wrapper p).fields[0]? = some ⟨[.size 16], "v", .primitive p⟩ := by
      rw [fields_wrapper_plain hp]
      rfl
    exact Interpretation.of_access (a := .field "v") he (Content.part?_wrapped hfields hf rfl)

/-- Each value of the plain type has a value with wrappers: wrapping gives it, and unwrapping takes
it back. -/
theorem exists_wrapped {w : TypeName} (hw : w.IsWrapped) {v : Content α} (hv : v.IsOf w.plain) :
    ∃ c : Content α, c.IsOf w ∧
      (∀ e, (evaluation given).of e = some v → (evaluation given).of (w.wrap e) = some c) ∧
      ∀ e, (evaluation given).of e = some c → (evaluation given).of (w.unwrap e) = some v := by
  induction w generalizing v with
  | padded p =>
      rw [TypeName.plain, Content.IsOf] at hv
      cases hp : p.isMatrix with
      | true =>
          rw [if_pos hp] at hv
          obtain ⟨as, rfl, hlength⟩ := hv
          have hfields : as.length = (wrapper p).fields.length := by
            rw [hlength, fields_wrapper_matrix hp, List.length_map, List.length_range]
          exact ⟨.wrapped p (as.map .whole), ⟨as, rfl, hfields⟩,
            fun e he => (wraps_matrix hp hlength).1 he, fun e he => (wraps_matrix hp hlength).2 he⟩
      | false =>
          rw [if_neg (by simp [hp])] at hv
          obtain ⟨a, rfl⟩ := hv
          have hfields : [a].length = (wrapper p).fields.length := by
            rw [fields_wrapper_plain hp]
            rfl
          exact ⟨.wrapped p [.whole a], ⟨[a], rfl, hfields⟩,
            fun e he => (wraps_plain hp).1 he, fun e he => (wraps_plain hp).2 he⟩
  | array element n ih =>
      obtain ⟨vs, rfl, hlength, hvs⟩ := hv
      obtain ⟨hn, helement⟩ := hw
      -- the values with wrappers, element by element
      choose! wrapped hwrapped using fun x => ih helement (v := x)
      have hlength' : (vs.map wrapped).length = n := by rw [List.length_map, hlength]
      have haccesses : (TypeName.array element n).accesses.length = n := by
        rw [TypeName.accesses, List.length_map, List.length_range]
      have hne : vs ≠ [] := List.ne_nil_of_length_pos (hlength ▸ hn)
      refine ⟨.sequence (vs.map wrapped), ⟨_, rfl, hlength', ?_⟩, fun e he => ?_, fun e he => ?_⟩
      · rintro c hc
        obtain ⟨x, hx, rfl⟩ := List.mem_map.mp hc
        exact (hwrapped x (hvs x hx)).1
      · refine of_sequence (by simp) (by rw [hlength', haccesses])
          (by simpa using hne) (forall₂_range hlength' fun k c hc => ?_)
        rw [List.getElem?_map, Option.map_eq_some_iff] at hc
        obtain ⟨x, hx, rfl⟩ := hc
        refine (hwrapped x (hvs x (List.mem_of_getElem? hx))).2.1 _ ?_
        exact Interpretation.of_access (a := .element k) he hx
      · refine of_sequence (by simp) ?_ hne (forall₂_range hlength fun k x hx => ?_)
        · rw [hlength, TypeName.accesses, List.length_map, List.length_range]
        · refine (hwrapped x (hvs x (List.mem_of_getElem? hx))).2.2 _ ?_
          refine Interpretation.of_access (a := .element k) he ?_
          show (vs.map wrapped)[k]? = _
          rw [List.getElem?_map, hx]
          rfl
  | primitive | struct | pointer | texture | sampler => exact hw.elim

end Evaluation

/-! ## Components -/

/-- An expression built by constructors from parts of another one: for each part, in the order they
are written, where it is put and where it is taken from. -/
inductive Copies (root : Expr) : Expr → List (Path × Path) → Prop
  | access (path : Path) : Copies root (path.foldl Access.of root) [([], path)]
  | construct {t : TypeName} {args : List Expr} {parts : List (List (Path × Path))} :
      args.length = t.accesses.length → List.Forall₂ (fun e cs => Copies root e cs) args parts →
        Copies root (.construct t args)
          (List.zipWith (fun a cs => cs.map fun c => (a :: c.1, c.2)) t.accesses parts).flatten

/-- The components of a wrapped value, each by its path in the plain value and by its path in the
value with wrappers. -/
def TypeName.pairs : TypeName → List (Path × Path)
  | .padded p =>
    if p.isMatrix then
      (List.range p.cols.toNat).map fun c => ([.element c], [.field ("c" ++ toString c)])
    else [([], [.field "v"])]
  | .array element n =>
    (List.range n).flatMap fun k =>
      element.pairs.map fun c => (.element k :: c.1, .element k :: c.2)
  | _ => []

section Components

variable {w : TypeName} {p : PrimitiveType}

/-- The components of a type whose parts are not taken apart. -/
theorem components_eq {t : TypeName} (ht : ∀ element n, t ≠ .array element n) {n : Nat}
    {f : Nat → Access} (hn : 0 < n) (haccesses : t.accesses = (List.range n).map f) :
    t.components = (List.range n).map fun k => [f k] := by
  have hne : t.accesses ≠ [] := by
    rw [haccesses, Ne, List.map_eq_nil_iff, List.range_eq_nil]
    omega
  cases t with
  | array element m => exact absurd rfl (ht element m)
  | primitive | padded | struct | pointer | texture | sampler =>
      rw [TypeName.components, if_neg hne, haccesses, List.map_map]
      · rfl
      · exact ht

/-- The components are those of the plain type. -/
theorem map_fst_pairs (hw : w.IsWrapped) : w.pairs.map Prod.fst = w.plain.components := by
  induction w with
  | padded p =>
      cases hp : p.isMatrix with
      | true =>
          rw [TypeName.pairs, if_pos hp, List.map_map, TypeName.plain,
            components_eq (by nofun) (cols_pos hp) (accesses_matrix hp)]
          rfl
      | false =>
          rw [TypeName.pairs, if_neg (by simp [hp]), TypeName.plain, TypeName.components,
            accesses_plain hp]
          · rfl
          · exact fun _ _ h => nomatch h
  | array element n ih =>
      rw [TypeName.pairs, TypeName.plain, TypeName.components, List.map_flatMap, ← ih hw.2]
      refine List.flatMap_congr fun k _ => ?_
      rw [List.map_map, List.map_map]
      rfl
  | primitive | struct | pointer | texture | sampler => exact hw.elim

/-- The components are those of the type with wrappers. -/
theorem map_snd_pairs (hw : w.IsWrapped) : w.pairs.map Prod.snd = w.components := by
  induction w with
  | padded p =>
      cases hp : p.isMatrix with
      | true =>
          rw [TypeName.pairs, if_pos hp, List.map_map,
            components_eq (by nofun) (cols_pos hp) (accesses_padded_matrix hp)]
          rfl
      | false =>
          rw [TypeName.pairs, if_neg (by simp [hp]), TypeName.components, accesses_padded_plain hp]
          · rfl
          · exact fun _ _ h => nomatch h
  | array element n ih =>
      rw [TypeName.pairs, TypeName.components, List.map_flatMap, ← ih hw.2]
      refine List.flatMap_congr fun k _ => ?_
      rw [List.map_map, List.map_map]
      rfl
  | primitive | struct | pointer | texture | sampler => exact hw.elim

/-- No two parts of a value are reached by one step. -/
theorem nodup_accesses (t : TypeName) : t.accesses.Nodup := by
  cases t with
  | array element n => exact List.nodup_range.map fun _ _ h => Access.element.inj h
  | primitive p =>
      rw [TypeName.accesses]
      split_ifs
      · exact List.nodup_range.map fun _ _ h => Access.element.inj h
      · exact List.nodup_nil
  | padded p =>
      have hnames := (nodup_names_wrapper p).map (f := Access.field) fun _ _ h => Access.field.inj h
      rwa [List.map_map] at hnames
  | struct | pointer | texture | sampler => exact List.nodup_nil

/-- No two components are reached by one path. -/
theorem nodup_components (t : TypeName) : t.components.Nodup := by
  have hflat : ∀ t : TypeName, (if t.accesses = [] then [[]] else t.accesses.map ([·]) :
      List Path).Nodup := by
    intro t
    split_ifs
    · exact List.nodup_singleton _
    · exact (nodup_accesses t).map fun _ _ h => List.head_eq_of_cons_eq h
  induction t with
  | array element n ih =>
      rw [TypeName.components, List.nodup_flatMap]
      refine ⟨fun k _ => ih.map fun _ _ h => List.tail_eq_of_cons_eq h, ?_⟩
      refine List.nodup_range.imp fun {j k} hne => ?_
      -- paths into different elements differ in their first step
      rintro path hj hk
      obtain ⟨_, -, rfl⟩ := List.mem_map.mp hj
      obtain ⟨_, -, h⟩ := List.mem_map.mp hk
      exact hne (Access.element.inj (List.head_eq_of_cons_eq h)).symm
  | primitive | padded | struct | pointer | texture | sampler =>
      rw [TypeName.components]
      · exact hflat _
      · exact fun _ _ h => nomatch h

/-- Conversions part by part copy what the conversions of the parts do. -/
theorem copies_construct {root : Expr} {t : TypeName} {n : Nat} {f : Nat → Expr}
    {g : Nat → Access} {h : Nat → List (Path × Path)}
    (haccesses : t.accesses = (List.range n).map g) (hf : ∀ k, Copies root (f k) (h k)) :
    Copies root (.construct t ((List.range n).map f))
      ((List.range n).flatMap fun k => (h k).map fun c => (g k :: c.1, c.2)) := by
  have hargs : List.Forall₂ (fun e cs => Copies root e cs) ((List.range n).map f)
      ((List.range n).map h) := by
    rw [List.forall₂_map_left_iff, List.forall₂_map_right_iff, List.forall₂_same]
    exact fun k _ => hf k
  have hlength : ((List.range n).map f).length = t.accesses.length := by
    rw [haccesses, List.length_map, List.length_map]
  have hcopies := Copies.construct hlength hargs
  rw [haccesses, List.zipWith_map, List.zipWith_self] at hcopies
  exact hcopies

/-- A longer path is followed to its last access. -/
theorem foldl_of_append (root : Expr) (path : Path) (a : Access) :
    (path ++ [a]).foldl Access.of root = a.of (path.foldl Access.of root) := by
  rw [List.foldl_append]
  rfl

/-- Wrapping takes each component from its path in the plain value. -/
theorem copies_wrap (hw : w.IsWrapped) (root : Expr) (path : Path) :
    Copies root (w.wrap (path.foldl Access.of root))
      (w.pairs.map fun c => (c.2, path ++ c.1)) := by
  induction w generalizing path with
  | padded p =>
      cases hp : p.isMatrix with
      | true =>
          have hcopies := copies_construct (accesses_padded_matrix hp) fun c =>
            (Copies.access (path ++ [.element c]) : Copies root _ _)
          rw [TypeName.wrap, if_pos hp, TypeName.pairs, if_pos hp, List.map_map]
          simpa [foldl_of_append, Access.of, Function.comp_def, ← List.map_eq_flatMap]
            using hcopies
      | false =>
          have hcopies := copies_construct (n := 1) (g := fun _ => .field "v")
            (accesses_padded_plain hp) fun _ => (Copies.access path : Copies root _ _)
          rw [TypeName.wrap, if_neg (by simp [hp]), TypeName.pairs, if_neg (by simp [hp])]
          simpa using hcopies
  | array element n ih =>
      have hcopies := copies_construct (t := .array element n) rfl fun k =>
        ih hw.2 (path ++ [.element k])
      rw [TypeName.wrap, TypeName.pairs, List.map_flatMap]
      simpa [foldl_of_append, Access.of, Function.comp_def] using hcopies
  | primitive | struct | pointer | texture | sampler => exact hw.elim

/-- Unwrapping takes each component from its path in the value with wrappers. -/
theorem copies_unwrap (hw : w.IsWrapped) (root : Expr) (path : Path) :
    Copies root (w.unwrap (path.foldl Access.of root))
      (w.pairs.map fun c => (c.1, path ++ c.2)) := by
  induction w generalizing path with
  | padded p =>
      cases hp : p.isMatrix with
      | true =>
          have hcopies := copies_construct (accesses_matrix hp) fun c =>
            (Copies.access (path ++ [.field ("c" ++ toString c)]) : Copies root _ _)
          rw [TypeName.unwrap, if_pos hp, TypeName.pairs, if_pos hp, List.map_map]
          simpa [foldl_of_append, Access.of, Function.comp_def, ← List.map_eq_flatMap]
            using hcopies
      | false =>
          have hcopies : Copies root _ _ := .access (path ++ [.field "v"])
          rw [foldl_of_append] at hcopies
          rw [TypeName.unwrap, if_neg (by simp [hp]), TypeName.pairs, if_neg (by simp [hp])]
          exact hcopies
  | array element n ih =>
      have hcopies := copies_construct (t := .array element.plain n) rfl fun k =>
        ih hw.2 (path ++ [.element k])
      rw [TypeName.unwrap, TypeName.pairs, List.map_flatMap]
      simpa [foldl_of_append, Access.of, Function.comp_def] using hcopies
  | primitive | struct | pointer | texture | sampler => exact hw.elim

end Components

/-! ## Conversions -/

/-- A sized type that is padded is spelled with wrappers under `std140` rules. From the plain value,
storing builds a value of the type with wrappers, and from that value loading builds a plain one;
both take every component once and put it where it belongs. What is loaded from a place that holds
what was stored is the value that was stored. -/
theorem wrapping_round_trips {r : Registry} (hr : r.Sound) {t : TypeId}
    (hpadded : isPadded r t = true) (hsized : r.isRuntimeSized t = false) :
    ∃ (plain spelled : TypeName) (pairs : List (Path × Path)),
      typeName r t = .ok plain ∧ std140TypeName r t = .ok spelled ∧
      (pairs.map Prod.fst = plain.components ∧ plain.components.Nodup) ∧
      (pairs.map Prod.snd = spelled.components ∧ spelled.components.Nodup) ∧
      ∀ e, ∃ stored loaded, store r t e = .ok stored ∧ load r t e = .ok loaded ∧
        (∀ known, ((typing known).of e = some plain → (typing known).of stored = some spelled) ∧
          ((typing known).of e = some spelled → (typing known).of loaded = some plain)) ∧
        Copies e stored (pairs.map Prod.swap) ∧ Copies e loaded pairs ∧
        ∀ (α : Type) (given : Expr → Option (Content α)) (v : Content α), v.IsOf plain →
          (evaluation given).of e = some v →
            ∃ c, c.IsOf spelled ∧ (evaluation given).of stored = some c ∧
              ∀ place, (evaluation given).of place = some c →
                ∃ value, load r t place = .ok value ∧ (evaluation given).of value = some v := by
  -- the spelling with wrappers tells both conversions, so that all is said of it
  obtain ⟨w, hw⟩ := exists_spells hr hpadded hsized
  refine ⟨w.plain, w, w.pairs, hw.natural, hw.std140,
    ⟨map_fst_pairs hw.isWrapped, nodup_components _⟩,
    ⟨map_snd_pairs hw.isWrapped, nodup_components _⟩,
    fun e => ⟨w.wrap e, w.unwrap e, hw.store e, hw.load e, fun known => ?_, ?_, ?_, ?_⟩⟩
  · exact ⟨typing_wrap hw.isWrapped, typing_unwrap hw.isWrapped⟩
  · exact copies_wrap hw.isWrapped e []
  · simpa using copies_unwrap hw.isWrapped e []
  · intro α given v hv he
    obtain ⟨c, hc, hwrap, hunwrap⟩ := exists_wrapped hw.isWrapped hv
    exact ⟨c, hc, hwrap e he,
      fun place hplace => ⟨w.unwrap place, hw.load place, hunwrap place hplace⟩⟩

/-! ## Rotations of the plane -/

/-- Two rows of three matrices whose columns take 8 bytes. -/
def rotations : TypeShape := .array (.array (.primitive (.matrix .f32 2 2)) 3) 2

/-- The registry of the rotations. -/
def rotationTypes : Registry := (Registry.empty.run (Interning.shape rotations)).2

/-- The type of the rotations. -/
def rotationName : TypeName := .array (.array (.primitive (.matrix .f32 2 2)) 3) 2

/-- The types of the rotation are sound. -/
theorem sound_rotationTypes : rotationTypes.Sound :=
  (Registry.Reachable.shape rotations .empty).sound

/-- The name of the rotation. -/
theorem typeName_rotationTypes : typeName rotationTypes ⟨2⟩ = .ok rotationName := by
  have hsound := sound_rotationTypes
  have hrow : rotationTypes.kind ⟨2⟩ = .array ⟨1⟩ 2 := by decide +kernel
  have hrotation : rotationTypes.kind ⟨1⟩ = .array ⟨0⟩ 3 := by decide +kernel
  have hmatrix : rotationTypes.kind ⟨0⟩ = .primitive (.matrix .f32 2 2) := by decide +kernel
  rw [typeName_array hsound hrow, typeName_array hsound hrotation, typeName, hmatrix]
  rfl

/-- Rotations that are stored and loaded again are the same, and there are twelve columns. -/
theorem rotations_round_trip :
    isPadded rotationTypes ⟨2⟩ = true ∧ rotationTypes.isRuntimeSized ⟨2⟩ = false ∧
      ∃ stored loaded, store rotationTypes ⟨2⟩ (.name "r") = .ok stored ∧
        load rotationTypes ⟨2⟩ stored = .ok loaded ∧
        (∃ pairs : List (Path × Path), pairs.length = 12 ∧
          Copies (.name "r") stored (pairs.map Prod.swap)) ∧
        ∀ (α : Type) (given : Expr → Option (Content α)) (v : Content α), v.IsOf rotationName →
          given (.name "r") = some v → (evaluation given).of loaded = some v := by
  have hpadded : isPadded rotationTypes ⟨2⟩ = true := by decide +kernel
  have hsized : rotationTypes.isRuntimeSized ⟨2⟩ = false := by decide +kernel
  obtain ⟨plain, spelled, pairs, hplain, -, ⟨hfst, -⟩, -, hconversions⟩ :=
    wrapping_round_trips sound_rotationTypes hpadded hsized
  obtain rfl : rotationName = plain := Except.ok.inj (typeName_rotationTypes.symm.trans hplain)
  obtain ⟨stored, -, hstored, -, -, hcopies, -, hround⟩ := hconversions (.name "r")
  obtain ⟨-, loaded, -, hloaded, -⟩ := hconversions stored
  have hlength : pairs.length = 12 := by
    have hcount := congrArg List.length hfst
    rw [List.length_map] at hcount
    exact hcount
  refine ⟨hpadded, hsized, stored, loaded, hstored, hloaded, ⟨pairs, hlength, hcopies⟩, ?_⟩
  intro α given v hv he
  obtain ⟨c, -, hc, hplace⟩ := hround α given v hv he
  obtain ⟨value, hvalue, hgives⟩ := hplace stored hc
  rw [hloaded] at hvalue
  rw [Except.ok.inj hvalue]
  exact hgives

end Wgsl

end WebShader
