import WebShader.Proofs.LegibleStages
import WebShader.Proofs.StatementReading
import WebShader.Proofs.WrappedTypes
import WebShader.Wgsl.Module

/-!
# Legible WGSL

The types and expressions of WGSL sources are legible where the names of the stage are.
-/

namespace WebShader

open Code.Expr (Legible)

namespace Wgsl

/-! ## Types -/

/-- The structs that a type is spelled with have names that will do. -/
def TypeName.Legible (ok : String → Prop) : TypeName → Prop
  | array element _ => element.Legible ok
  | pointer pointee _ => pointee.Legible ok
  | struct name => ok name
  | _ => True

section Types

variable {ok : String → Prop} {r : Registry}

/-- The name of a scalar type is plain. -/
theorem isPlain_scalar (k : ScalarKind) : IsPlain k.name := by cases k <;> decide

/-- The text of a primitive type is plain. -/
theorem isPlain_primitive (p : PrimitiveType) : IsPlain p.text := by
  have hscalar := isPlain_scalar p.scalar
  unfold PrimitiveType.text
  split
  · exact (((((IsPlain.append (by decide) (.nat _)).append (by decide)).append (.nat _)).append
      (by decide)).append hscalar).append (by decide)
  · split
    · exact (((IsPlain.append (by decide) (.nat _)).append (by decide)).append hscalar).append
        (by decide)
    · exact hscalar

/-- A name can go on with that of a scalar type. -/
theorem isNameRest_scalar (k : ScalarKind) : k.name.toList.all isNameRest = true := by
  cases k <;> decide

/-- Wrappers are named after what they wrap. -/
theorem isName_wrapperName (p : PrimitiveType) : isName (wrapperName p) = true := by
  have hscalar := isNameRest_scalar p.scalar
  refine isName_append (by decide) ?_
  unfold wrapperSuffix
  split
  · exact all_isNameRest_append (all_isNameRest_append (all_isNameRest_append
      (all_isNameRest_append (all_isNameRest_append (by decide) (isNameRest_toString _))
        (by decide)) (isNameRest_toString _)) (by decide)) hscalar
  · split
    · exact all_isNameRest_append (all_isNameRest_append (all_isNameRest_append (by decide)
        (isNameRest_toString _)) (by decide)) hscalar
    · exact hscalar

/-- The name of a texture type is plain. -/
theorem isPlain_textureName (t : TextureType) : IsPlain (textureName t) := by
  have hdimension : IsPlain (dimensionName t) := by
    unfold dimensionName
    split
    · split <;> decide
    all_goals decide
  unfold textureName
  split
  · exact IsPlain.append (by decide) hdimension
  · exact (((IsPlain.append (by decide) hdimension).append (by decide)).append
      (isPlain_scalar _)).append (by decide)

/-- The text of a legible type is plain. -/
theorem TypeName.Legible.plain (hok : ∀ n, ok n → IsPlain n) {t : TypeName} (h : t.Legible ok) :
    IsPlain t.text := by
  induction t with
  | primitive p => exact isPlain_primitive p
  | padded p => exact .of_isName (isName_wrapperName p)
  | array element n ih =>
      have helement := ih h
      rw [text]
      split
      · exact (IsPlain.append (by decide) helement).append (by decide)
      · exact (((IsPlain.append (by decide) helement).append (by decide)).append (.nat _)).append
          (by decide)
  | struct name => exact hok name h
  | pointer pointee space ih =>
      have hspace : IsPlain space.name := by cases space <;> decide
      have haccess : IsPlain (if space = .storage then ", read_write" else "") := by
        split <;> decide
      exact ((((IsPlain.append (by decide) hspace).append (by decide)).append (ih h)).append
        haccess).append (by decide)
  | texture t => exact isPlain_textureName t
  | sampler kind => cases kind <;> decide

/-- The text of a legible type starts no statement. -/
theorem TypeName.Legible.starts (hok : ∀ n, ok n → StartsPhrase n) {t : TypeName}
    (h : t.Legible ok) : StartsPhrase t.text := by
  cases t with
  | primitive p =>
      rw [text, PrimitiveType.text]
      split
      · simp only [String.append_assoc]
        exact .of_start (w := "mat") (by decide) (by decide) _
      · split
        · simp only [String.append_assoc]
          exact .of_start (w := "vec") (by decide) (by decide) _
        · cases p.scalar <;>
            exact (IsPhrase.of_isName (by decide) (by decide)).toStartsPhrase
  | padded p => exact .of_start (w := "Std140_") (by decide) (by decide) _
  | array element n =>
      rw [text]
      split
      · rw [String.append_assoc]
        exact .of_start (w := "array") (by decide) (by decide) ("<" ++ _)
      · simp only [String.append_assoc]
        exact .of_start (w := "array") (by decide) (by decide) ("<" ++ _)
  | struct name => exact hok name h
  | pointer pointee space =>
      simp only [text, String.append_assoc]
      exact .of_start (w := "ptr") (by decide) (by decide) ("<" ++ _)
  | texture t =>
      rw [text, textureName]
      split
      · exact .of_start (w := "texture_depth_") (by decide) (by decide) _
      · simp only [String.append_assoc]
        exact .of_start (w := "texture_") (by decide) (by decide) _
  | sampler kind =>
      cases kind <;> exact (IsPhrase.of_isName (by decide) (by decide)).toStartsPhrase

/-- Registered types are spelled by the names of their structs. -/
theorem legible_typeName (hr : r.HasNames ok) {t : TypeId}
    {name : TypeName} (h : typeName r t = .ok name) : name.Legible ok := by
  rw [typeName] at h
  cases hk : r.kind t with
  | void =>
      rw [hk] at h
      cases h
  | primitive | texture | sampler =>
      rw [hk] at h
      rw [← Except.ok.inj h]
      trivial
  | struct st =>
      rw [hk] at h
      rw [← Except.ok.inj h]
      exact (hr t st hk).1
  | array part | pointer part =>
      rw [hk] at h
      obtain ⟨inner, hinner, rfl⟩ := map_eq_ok_iff.mp h
      dsimp only at hinner
      by_cases hdown : part.index < t.index
      · rw [if_pos hdown] at hinner
        show inner.Legible ok
        exact legible_typeName hr hinner
      · rw [if_neg hdown] at hinner
        cases hinner
termination_by t.index

/-- Wrapped types are as well. -/
theorem legible_std140TypeName (hr : r.HasNames ok) {t : TypeId}
    {name : TypeName} (h : std140TypeName r t = .ok name) : name.Legible ok := by
  rw [std140TypeName] at h
  split at h
  · rw [← Except.ok.inj h]
    split <;> trivial
  · split at h
    · rw [← Except.ok.inj h]
      show TypeName.Legible ok (if _ then _ else _)
      split <;> trivial
    · split at h
      · obtain ⟨inner, hinner, rfl⟩ := map_eq_ok_iff.mp h
        show inner.Legible ok
        exact legible_std140TypeName hr hinner
      · cases h
  · exact legible_typeName hr h
termination_by t.index

end Types

/-! ## Wrapping -/

section Wrapping

variable {ok : String → Prop} {s : ResolvedStage}

/-- An expression of WGSL whose names and types will do. -/
abbrev Expr.Legible (ok : String → Prop) : Expr → Prop := Code.Expr.Legible ok (TypeName.Legible ok)

/-- A number is legible. -/
theorem legible_number (n : Nat) : Expr.Legible ok (.number n) := by
  have h := IsPhrase.nat n "" (by decide)
  rw [String.append_empty] at h
  exact .literal h

/-- The name of a column is plain. -/
theorem isPlain_column (c : Nat) : IsPlain ("c" ++ toString c) :=
  IsPlain.append (by decide) (.nat c)

/-- Loading a wrapped value keeps its place legible. -/
theorem legible_load (hs : s.HasNames ok) {t : TypeId} {place code : Expr}
    (hplace : Expr.Legible ok place) (h : load s.types t place = .ok code) :
    Expr.Legible ok code := by
  have hitem : ∀ k, Expr.Legible ok (.index place (.number k)) :=
    fun k => .index hplace (legible_number k)
  rw [load] at h
  split at h
  · split at h
    · rw [← Except.ok.inj h]
      refine .construct trivial fun e he => ?_
      obtain ⟨c, -, rfl⟩ := List.mem_map.mp he
      exact .field hplace (isPlain_column c)
    · rwa [← Except.ok.inj h]
  · rename_i element n hkind
    by_cases hn : n = 0
    · rw [if_pos hn] at h
      cases h
    · rw [if_neg hn] at h
      simp only [bind_eq_ok_iff] at h
      obtain ⟨items, hitems, name, hname, h⟩ := h
      rw [← Except.ok.inj h]
      refine .construct (legible_typeName hs.structs hname)
        (forall_of_mapM hitems fun k _ e hk => ?_)
      split at hk
      · rw [← Except.ok.inj hk]
        exact .field (hitem k) (by decide)
      · split at hk
        · exact legible_load hs (hitem k) hk
        · rw [← Except.ok.inj hk]
          exact hitem k
  · rwa [← Except.ok.inj h]
termination_by t.index

/-- Wrapping a value keeps it legible. -/
theorem legible_store (hs : s.HasNames ok) {t : TypeId} {value code : Expr}
    (hvalue : Expr.Legible ok value) (h : store s.types t value = .ok code) :
    Expr.Legible ok code := by
  have hitem : ∀ k, Expr.Legible ok (.index value (.number k)) :=
    fun k => .index hvalue (legible_number k)
  rw [store] at h
  split at h
  · split at h
    · rw [← Except.ok.inj h]
      refine .construct trivial fun e he => ?_
      obtain ⟨c, -, rfl⟩ := List.mem_map.mp he
      exact hitem c
    · rwa [← Except.ok.inj h]
  · rename_i element n hkind
    by_cases hn : n = 0
    · rw [if_pos hn] at h
      cases h
    · rw [if_neg hn] at h
      simp only [bind_eq_ok_iff] at h
      obtain ⟨items, hitems, name, hname, h⟩ := h
      rw [← Except.ok.inj h]
      refine .construct (legible_std140TypeName hs.structs hname)
        (forall_of_mapM hitems fun k _ e hk => ?_)
      split at hk
      · rw [← Except.ok.inj hk]
        exact .construct trivial (List.forall_mem_singleton.mpr (hitem k))
      · split at hk
        · exact legible_store hs (hitem k) hk
        · rw [← Except.ok.inj hk]
          exact hitem k
  · rwa [← Except.ok.inj h]
termination_by t.index

/-- A boolean that is held as a number is read legibly. -/
theorem legible_converted (hs : s.HasNames ok) {e : Term} {place code : Expr}
    (hplace : Expr.Legible ok place) (h : converted s e place = .ok code) :
    Expr.Legible ok code := by
  unfold converted at h
  split at h
  · exact legible_load hs hplace h
  · rwa [← Except.ok.inj h]

/-- An element behind a wrapper is legible. -/
theorem legible_wrappedElement (hs : s.HasNames ok) {t : TypeId} {place index code : Expr}
    {known : Option Nat} (hplace : Expr.Legible ok place) (hindex : Expr.Legible ok index)
    (h : wrappedElement s.types t place known index = .ok code) : Expr.Legible ok code := by
  unfold wrappedElement at h
  split at h
  · split at h
    · rw [← Except.ok.inj h]
      exact .field hplace (isPlain_column _)
    · obtain ⟨value, hload, rfl⟩ := map_eq_ok_iff.mp h
      exact .index (legible_load hs hplace hload) hindex
  · split at h
    · rw [← Except.ok.inj h]
      exact .field (.index hplace hindex) (by decide)
    · rw [← Except.ok.inj h]
      exact .index hplace hindex
  · cases h

/-- The amount of a shift is legible. -/
theorem legible_shiftAmount (t : TypeId) {e : Expr} (he : Expr.Legible ok e) :
    Expr.Legible ok (shiftAmount s.types t e) := by
  unfold shiftAmount
  split
  · split
    · exact .construct trivial (List.forall_mem_singleton.mpr he)
    · exact he
  · exact he

/-- What is stored in each member is legible. -/
theorem legible_storeMembers (hs : s.HasNames ok) {args : List (Expr × Member)}
    {values : List Expr} (hargs : ∀ x ∈ args, Expr.Legible ok x.1)
    (h : storeMembers s.types args = .ok values) : ∀ e ∈ values, Expr.Legible ok e := by
  induction args generalizing values with
  | nil =>
      rw [← Except.ok.inj h]
      simp
  | cons x rest ih =>
      obtain ⟨value, m⟩ := x
      rw [List.forall_mem_cons] at hargs
      rw [storeMembers] at h
      by_cases hpadded : isPadded s.types m.type = true
      · simp only [hpadded, ↓reduceIte, bind_eq_ok_iff] at h
        obtain ⟨stored, hstored, others, hothers, h⟩ := h
        rw [← Except.ok.inj h, List.forall_mem_cons]
        exact ⟨legible_store hs hargs.1 hstored, ih hargs.2 hothers⟩
      · simp only [hpadded, Bool.false_eq_true, ↓reduceIte, pure_bind, bind_eq_ok_iff] at h
        obtain ⟨others, hothers, h⟩ := h
        rw [← Except.ok.inj h, List.forall_mem_cons]
        exact ⟨hargs.1, ih hargs.2 hothers⟩

/-- What is built from legible parts is legible. -/
theorem legible_construct (hs : s.HasNames ok) {t : TypeId} {args : List Expr} {code : Expr}
    (hargs : ∀ e ∈ args, Expr.Legible ok e) (h : construct s t args = .ok code) :
    Expr.Legible ok code := by
  unfold construct at h
  split at h
  · rename_i struct hstruct
    have hname := (hs.structs t struct (Registry.struct?_eq_some_iff.mp hstruct)).1
    split at h
    · obtain ⟨values, hvalues, rfl⟩ := map_eq_ok_iff.mp h
      refine .construct hname (legible_storeMembers hs (fun x hx => hargs x.1 ?_) hvalues)
      exact (List.of_mem_zip hx).1
    · rw [← Except.ok.inj h]
      exact .construct hname hargs
  · obtain ⟨name, hname, rfl⟩ := map_eq_ok_iff.mp h
    exact .construct (legible_typeName hs.structs hname) hargs

end Wrapping

/-! ## Terms -/

section Terms

variable {ok : String → Prop} {s : ResolvedStage}

/-- A built-in function has a name that starts no statement. -/
theorem isName_wgslName (f : Intrinsic) : isName f.wgslName = true ∧ f.wgslName ∉ controlWords := by
  cases f <;> decide

/-- A built-in value has a name as a member of the inputs or outputs. -/
theorem isName_memberName (b : Builtin) : isName b.memberName = true := by cases b <;> decide

/-- A literal is legible. -/
theorem legible_literal (value : Literal) : Expr.Legible ok (literal value) := by
  cases value with
  | bool b => cases b <;> exact .literal (.of_isName (by decide) (by decide))
  | i32 i =>
      have hplain := IsPhrase.int i "" (by decide)
      rw [String.append_empty] at hplain
      rw [literal]
      split
      · exact .construct trivial (List.forall_mem_singleton.mpr (.literal hplain))
      · exact .literal (.int i _ (by decide))
  | u32 n => exact .literal (.nat n _ (by decide))
  | f32 x =>
      have h := Binary.isPhrase_literalText .single x "" (by decide)
      rw [String.append_empty] at h
      exact .literal h
  | f16 x => exact .literal (Binary.isPhrase_literalText .single x _ (by decide))

/-- A variable is legible. -/
theorem legible_variableExpr (hok : AdmitsNames ok) (hs : s.HasNames ok) {v : VarId} {code : Expr}
    (h : variableExpr s v = .ok code) : Expr.Legible ok code := by
  simp only [variableExpr, bind_eq_ok_iff] at h
  obtain ⟨d, hd, h⟩ := h
  have hname := hs.var hd
  have hfixed : ∀ n : String, isName n = true → n ∉ controlWords → Expr.Legible ok (.name n) :=
    fun n hn hc => .name (hok.name n hn hc)
  split at h
  case h_1 =>
    simp only [bind_eq_ok_iff] at h
    obtain ⟨b, hb, h⟩ := h
    rw [← Except.ok.inj h]
    exact .field (.name (hs.record hb)) (hok.plain _ hname)
  case h_2 | h_3 =>
    rw [← Except.ok.inj h]
    exact .field (hfixed _ (by decide) (by decide)) (hok.plain _ hname)
  case h_4 | h_5 | h_6 =>
    simp only [bind_eq_ok_iff] at h
    obtain ⟨b, hb, h⟩ := h
    rw [← Except.ok.inj h]
    exact .name (hs.record hb)
  case h_7 =>
    rw [← Except.ok.inj h]
    exact .name hname

/-- Taking a sample is legible, whether or not the level has to be given. -/
theorem legible_sampling (stage : Stage) (f : Intrinsic) {args : List Expr}
    (hargs : ∀ e ∈ args, Expr.Legible ok e) : Expr.Legible ok (sampling stage f args) := by
  have hlevel : ∀ e ∈ args ++ [.literal "0.0"], Expr.Legible ok e :=
    List.forall_mem_append.mpr ⟨hargs, List.forall_mem_singleton.mpr
      (.literal (IsPhrase.nat 0 ".0" (by decide)))⟩
  unfold sampling
  split
  · exact .builtin (by decide) hargs
  · exact .builtin (by decide) hlevel
  · exact .builtin (by decide) hargs
  · exact .builtin (by decide) hargs
  · exact .builtin (isName_wgslName f) hargs

/-- A call that reads a texture is legible. -/
theorem legible_textureCall (hs : s.HasNames ok) {f : Intrinsic} {texture : Option Term}
    {lowered : List Expr} {code : Expr} (hlowered : ∀ e ∈ lowered, Expr.Legible ok e)
    (h : textureCall s f texture lowered = .ok code) : Expr.Legible ok code := by
  unfold textureCall at h
  split at h
  · cases h
  · split at h
    · rw [← Except.ok.inj h]
      exact .builtin (isName_wgslName f) hlowered
    · split at h
      · simp only [bind_eq_ok_iff] at h
        obtain ⟨d, -, h⟩ := h
        split at h
        · rename_i b hb
          rw [← Except.ok.inj h]
          rw [List.forall_mem_cons] at hlowered
          exact legible_sampling _ f (List.forall_mem_cons.mpr
            ⟨hlowered.1, List.forall_mem_cons.mpr ⟨.name (hs.sampler hb), hlowered.2⟩⟩)
        · cases h
      · cases h

/-- A call of a built-in function is legible. -/
theorem legible_builtinCall {f : Intrinsic} {args : List Expr} {code : Expr}
    (hargs : ∀ e ∈ args, Expr.Legible ok e) (h : builtinCall f args = .ok code) :
    Expr.Legible ok code := by
  unfold builtinCall at h
  split at h
  · rw [← Except.ok.inj h]
    rw [List.forall_mem_cons, List.forall_mem_singleton] at hargs
    exact .floored hargs.1 hargs.2
  · cases h
  · rw [← Except.ok.inj h]
    exact .builtin (isName_wgslName f) hargs

mutual

/-- The spelling of a term is legible. -/
theorem legible_place (hok : AdmitsNames ok) (hs : s.HasNames ok) : (e : Term) → {code : Expr} →
    place s e = .ok code → Expr.Legible ok code
  | .literal _ value, code, h => by
      rw [place] at h
      rw [← Except.ok.inj h]
      exact legible_literal value
  | .var _ v, code, h => by
      rw [place] at h
      exact legible_variableExpr hok hs h
  | .builtin _ b, code, h => by
      rw [place] at h
      rw [← Except.ok.inj h]
      refine .field ?_ (.of_isName (isName_memberName b))
      split
      · exact .name (hok.name _ (by decide) (by decide))
      · exact .name (hok.name _ (by decide) (by decide))
  | .member _ base i, code, h => by
      simp only [place, bind_eq_ok_iff] at h
      obtain ⟨m, hm, p, hp, value, hvalue, h⟩ := h
      rw [← Except.ok.inj h]
      exact .field (legible_converted hs (legible_place hok hs base hp) hvalue) (hs.member hm)
  | .swizzle _ base mask, code, h => by
      simp only [place, bind_eq_ok_iff] at h
      obtain ⟨p, hp, value, hvalue, h⟩ := h
      rw [← Except.ok.inj h]
      exact .field (legible_converted hs (legible_place hok hs base hp) hvalue)
        (isPlain_swizzle mask)
  | .index _ base i, code, h => by
      simp only [place, bind_eq_ok_iff] at h
      obtain ⟨b, hb, p, hp, index, hindex, h⟩ := h
      have hbase := legible_place hok hs base hb
      have hi := legible_converted hs (legible_place hok hs i hp) hindex
      split at h
      · exact legible_wrappedElement hs hbase hi h
      · rw [← Except.ok.inj h]
        exact .index hbase hi
  | .unary _ op operand, code, h => by
      simp only [place, bind_eq_ok_iff] at h
      obtain ⟨p, hp, value, hvalue, h⟩ := h
      rw [← Except.ok.inj h]
      exact .unary (legible_converted hs (legible_place hok hs operand hp) hvalue)
  | .binary _ op lhs rhs, code, h => by
      simp only [place, bind_eq_ok_iff] at h
      obtain ⟨p, hp, l, hl, q, hq, r, hr, h⟩ := h
      have hright := legible_converted hs (legible_place hok hs rhs hq) hr
      rw [← Except.ok.inj h]
      refine .binary (legible_converted hs (legible_place hok hs lhs hp) hl) ?_
      split
      · exact legible_shiftAmount _ hright
      · exact hright
  | .construct t args, code, h => by
      simp only [place, bind_eq_ok_iff] at h
      obtain ⟨codes, hcodes, h⟩ := h
      exact legible_construct hs (legible_values hok hs args hcodes) h
  | .call _ f args, code, h => by
      simp only [place, bind_eq_ok_iff] at h
      obtain ⟨fn, hfn, codes, hcodes, h⟩ := h
      rw [← Except.ok.inj h]
      exact .call (hs.function hfn) (legible_values hok hs args hcodes)
  | .intrinsic _ f args, code, h => by
      simp only [place, bind_eq_ok_iff] at h
      obtain ⟨lowered, hlowered, h⟩ := h
      have hargs := legible_values hok hs args hlowered
      split at h
      · exact legible_textureCall hs hargs h
      · exact legible_builtinCall hargs h
  | .addressOf _ e, code, h => by
      rw [place] at h
      by_cases hpadded : isPaddedPlace s e = true
      · rw [if_pos hpadded] at h
        cases h
      · rw [if_neg hpadded] at h
        simp only [bind_eq_ok_iff] at h
        obtain ⟨p, hp, h⟩ := h
        rw [← Except.ok.inj h]
        exact .addressOf (legible_place hok hs e hp)
  | .deref _ pointer, code, h => by
      simp only [place, bind_eq_ok_iff] at h
      obtain ⟨p, hp, value, hvalue, h⟩ := h
      rw [← Except.ok.inj h]
      exact .deref (legible_converted hs (legible_place hok hs pointer hp) hvalue)

/-- The values of arguments are legible, by recursion on the list. -/
theorem legible_values (hok : AdmitsNames ok) (hs : s.HasNames ok) : (es : List Term) →
    {codes : List Expr} → values s es = .ok codes → ∀ code ∈ codes, Expr.Legible ok code
  | [], codes, h => by
      rw [values] at h
      rw [← Except.ok.inj h]
      simp
  | e :: rest, codes, h => by
      simp only [values, bind_eq_ok_iff] at h
      obtain ⟨p, hp, value, hvalue, others, hothers, h⟩ := h
      rw [← Except.ok.inj h, List.forall_mem_cons]
      exact ⟨legible_converted hs (legible_place hok hs e hp) hvalue,
        legible_values hok hs rest hothers⟩

end

/-- The value of a term is legible. -/
theorem legible_expr (hok : AdmitsNames ok) (hs : s.HasNames ok) {e : Term} {code : Expr}
    (h : expr s e = .ok code) : Expr.Legible ok code := by
  simp only [expr, bind_eq_ok_iff] at h
  obtain ⟨p, hp, h⟩ := h
  exact legible_converted hs (legible_place hok hs e hp) h

end Terms

/-! ## Statements -/

section Statements

variable {ok : String → Prop} {s : ResolvedStage}

/-- The dialect prints legible parts plainly. -/
theorem isPlain_dialect (hok : ∀ n, ok n → IsPlain n) :
    dialect.IsPlain ok (TypeName.Legible ok) where
  name := hok
  type _ h := h.plain hok
  declaration _ n ht hn :=
    ((IsPlain.append (by decide) (hok n hn)).append (by decide)).append (ht.plain hok)
  condition _ h := h
  bound n _ hn hc := (((IsPlain.append (by decide) (hok n hn)).append (by decide)).append hc).append
    (by decide)

/-- Declarations start with `var`. -/
theorem isReadable_dialect (hok : ∀ n, ok n → IsPhrase n) :
    dialect.IsReadable ok (TypeName.Legible ok) where
  toIsPlain := isPlain_dialect fun n hn => (hok n hn).plain
  startsName n hn := (hok n hn).toStartsPhrase
  startsType _ ht := ht.starts fun n hn => (hok n hn).toStartsPhrase
  startsDeclaration t n _ _ := by
    have hvar : StartsPhrase "var" := (IsPhrase.of_isName (by decide) (by decide)).toStartsPhrase
    have htext : StartsPhrase ("var" ++ " " ++ (n ++ ": " ++ t.text)) := hvar.append_sign rfl _
    rwa [show "var" ++ " " ++ (n ++ ": " ++ t.text) = "var " ++ n ++ ": " ++ t.text by
      simp only [String.append_assoc]; rfl] at htext

/-- An assignment is legible. -/
theorem legible_assign (hok : AdmitsNames ok) (hs : s.HasNames ok) {target value : Term}
    {op : Option BinaryOp} {code : Stmt} (h : assign s target op value = .ok code) :
    code.Legible ok (TypeName.Legible ok) := by
  unfold assign at h
  split at h
  · simp only [assignWrapped, bind_eq_ok_iff] at h
    obtain ⟨t, ht, v, hv, h⟩ := h
    have hplace := legible_place hok hs target ht
    have hvalue := legible_expr hok hs hv
    cases op with
    | none =>
        obtain ⟨_, hcombined, h⟩ := bind_eq_ok_iff.mp h
        obtain rfl := Except.ok.inj hcombined
        obtain ⟨stored, hstored, h⟩ := bind_eq_ok_iff.mp h
        rw [← Except.ok.inj h]
        exact .assign hplace (legible_store hs hvalue hstored)
    | some op =>
        obtain ⟨_, hcombined, h⟩ := bind_eq_ok_iff.mp h
        obtain ⟨before, hbefore, rfl⟩ := map_eq_ok_iff.mp hcombined
        obtain ⟨stored, hstored, h⟩ := bind_eq_ok_iff.mp h
        rw [← Except.ok.inj h]
        exact .assign hplace
          (legible_store hs (.binary (legible_load hs hplace hbefore) hvalue) hstored)
  · simp only [assignPlain, bind_eq_ok_iff] at h
    obtain ⟨t, ht, v, hv, h⟩ := h
    have htarget := legible_expr hok hs ht
    have hvalue := legible_expr hok hs hv
    cases op with
    | none =>
        rw [← Except.ok.inj h]
        exact .assign htarget hvalue
    | some op =>
        dsimp only at h
        split_ifs at h
        · rw [← Except.ok.inj h]
          exact .assign htarget (.binary htarget hvalue)
        · rw [← Except.ok.inj h]
          exact .assign htarget (legible_shiftAmount _ hvalue)
        · rw [← Except.ok.inj h]
          exact .assign htarget hvalue

/-- Whatever WGSL lowers is legible where the names of the stage will do. -/
theorem isLegible_lowering (hok : AdmitsNames ok) (hs : s.HasNames ok) :
    (lowering s).IsLegible ok (TypeName.Legible ok) where
  var h := hs.var h
  type h := legible_typeName hs.structs h
  expr h := legible_expr hok hs h
  assign h := legible_assign hok hs h
  eval {e code} h := by
    simp only [lowering, eval, bind_eq_ok_iff] at h
    obtain ⟨value, hvalue, h⟩ := h
    rw [← Except.ok.inj h]
    have hlegible := legible_expr hok hs hvalue
    split
    · exact .eval hlegible
    · exact .discardValue hlegible
  doWhile hbody hcond := .loop hbody (.unary hcond)

end Statements

end Wgsl

end WebShader
