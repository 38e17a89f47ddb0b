import Mathlib.Data.List.Basic
import WebShader.Proofs.Registration

/-!
# Keys of types

Types are told apart by their keys. A key can be read off from the left: no key of a registered
type starts with the key of another one, whatever follows, so types with the same key are made of
the same parts.
-/

namespace WebShader

/-! ## Words -/

/-- A word up to a mark it does not contain can be read off. -/
theorem append_cons_inj {c : Char} {a b x y : List Char} (ha : c ∉ a) (hb : c ∉ b)
    (h : a ++ c :: x = b ++ c :: y) : a = b ∧ x = y := by
  induction a generalizing b with
  | nil =>
      cases b with
      | nil => simpa using h
      | cons d b =>
          simp only [List.nil_append, List.cons_append, List.cons.injEq] at h
          exact absurd List.mem_cons_self (h.1 ▸ hb)
  | cons d a ih =>
      cases b with
      | nil =>
          simp only [List.nil_append, List.cons_append, List.cons.injEq] at h
          exact absurd List.mem_cons_self (h.1 ▸ ha)
      | cons e b =>
          simp only [List.cons_append, List.cons.injEq] at h
          obtain ⟨rfl, htail⟩ := h
          obtain ⟨rfl, hxy⟩ :=
            ih (fun hc => ha (List.mem_cons_of_mem _ hc)) (fun hc => hb (List.mem_cons_of_mem _ hc))
              htail
          exact ⟨rfl, hxy⟩

/-- A number is written with digits only. -/
theorem not_mem_toList_toString {c : Char} (hc : c.isDigit = false) (n : Nat) :
    c ∉ (toString n).toList := by
  intro hmem
  rw [Nat.toString_eq_repr, Nat.toList_repr] at hmem
  rw [Nat.isDigit_of_mem_toDigits (by decide) (by decide) hmem] at hc
  exact absurd hc (by decide)

/-- Different numbers are written differently. -/
theorem toString_nat_inj {m n : Nat} (h : (toString m).toList = (toString n).toList) : m = n := by
  rw [Nat.toString_eq_repr, Nat.toString_eq_repr, Nat.toList_repr, Nat.toList_repr] at h
  rw [← Nat.ofDigitChars_toDigits (b := 10) (n := m) (by decide) (by decide), h,
    Nat.ofDigitChars_toDigits (by decide) (by decide)]

/-- An identifier contains no mark. -/
theorem not_mem_of_isIdentifier {name : String} (h : isIdentifier name = true) {c : Char}
    (hc : isNameRest c = false) : c ∉ name.toList := by
  unfold isIdentifier at h
  intro hmem
  cases hl : name.toList with
  | nil => simp [hl] at h
  | cons d rest =>
      rw [hl] at hmem
      simp only [hl, Bool.and_eq_true, List.all_eq_true] at h
      rcases List.mem_cons.mp hmem with rfl | hrest
      · have hstart := h.1.1.1
        simp only [isNameStart, isNameRest, Char.isAlphanum, Bool.or_eq_true,
          Bool.or_eq_false_iff] at hstart hc
        rcases hstart with ha | hu
        · rw [ha] at hc
          exact absurd hc.1.1 (by decide)
        · rw [hu] at hc
          exact absurd hc.2 (by decide)
      · have hr := h.1.1.2 c hrest
        rw [hc] at hr
        exact absurd hr (by decide)

/-- An identifier starts with a letter. -/
theorem exists_cons_of_isIdentifier {name : String} (h : isIdentifier name = true) :
    ∃ c rest, name.toList = c :: rest := by
  cases hl : name.toList with
  | nil => simp [isIdentifier, hl] at h
  | cons c rest => exact ⟨c, rest, rfl⟩

/-! ## Primitive types -/

/-- A count from one to four is one of the four numbers. -/
theorem eq_of_not_lt_one {n : UInt8} (h : ¬n < 1) (h' : ¬n > 4) :
    n = 1 ∨ n = 2 ∨ n = 3 ∨ n = 4 := by
  simp only [UInt8.lt_iff_toNat_lt, UInt8.reduceToNat, gt_iff_lt] at h h'
  simp only [← UInt8.toNat_inj, UInt8.reduceToNat]
  omega

namespace PrimitiveType

/-- Every primitive type of a valid shape. -/
def valid : List PrimitiveType :=
  (ScalarKind.all.flatMap fun k => [⟨k, 1, 1⟩, ⟨k, 2, 1⟩, ⟨k, 3, 1⟩, ⟨k, 4, 1⟩]) ++
    [ScalarKind.f32, .f16].flatMap fun k =>
      [2, 3, 4].flatMap fun cols => [⟨k, 2, cols⟩, ⟨k, 3, cols⟩, ⟨k, 4, cols⟩]

/-- The counts of rows and columns of a shape without fault go from one to four. -/
theorem counts_of_fault_eq_none {p : PrimitiveType} (h : p.fault = none) :
    (¬p.rows < 1 ∧ ¬p.rows > 4) ∧ (¬p.cols < 1 ∧ ¬p.cols > 4) := by
  cases hm : p.isMatrix with
  | true =>
      have hcols : 1 < p.cols := by simpa [isMatrix] using hm
      simp only [fault, hm, if_true] at h
      split at h
      · simp at h
      · rename_i hb
        simp only [Bool.or_eq_true, decide_eq_true_eq, not_or] at hb
        refine ⟨⟨fun hlt => hb.1.2 ?_, hb.2⟩, fun hlt => ?_, hb.1.1⟩
        · exact UInt8.lt_trans hlt (by decide)
        · exact absurd hlt (UInt8.lt_asymm hcols)
  | false =>
      simp only [fault, hm, Bool.false_eq_true, if_false] at h
      split at h
      · simp at h
      · rename_i hb
        simp only [Bool.or_eq_true, bne_iff_ne, decide_eq_true_eq, not_or, not_not] at hb
        refine ⟨⟨hb.1.2, hb.2⟩, ?_⟩
        rw [hb.1.1]
        decide

/-- A shape without fault is one of the valid ones. -/
theorem mem_valid {p : PrimitiveType} (h : p.fault = none) : p ∈ valid := by
  obtain ⟨⟨hrow, hrow'⟩, hcol, hcol'⟩ := counts_of_fault_eq_none h
  obtain ⟨k, rows, cols⟩ := p
  have hrows : rows ∈ ([1, 2, 3, 4] : List UInt8) := by
    simpa using eq_of_not_lt_one hrow hrow'
  have hcols : cols ∈ ([1, 2, 3, 4] : List UInt8) := by
    simpa using eq_of_not_lt_one hcol hcol'
  have hall : ∀ k ∈ ScalarKind.all, ∀ rows ∈ ([1, 2, 3, 4] : List UInt8),
      ∀ cols ∈ ([1, 2, 3, 4] : List UInt8),
        (fault ⟨k, rows, cols⟩).isNone = true → (⟨k, rows, cols⟩ : PrimitiveType) ∈ valid := by
    decide +kernel
  exact hall k (by cases k <;> decide) rows hrows cols hcols (by rw [h]; rfl)

/-- No valid primitive type is spelled with the beginning of another one. -/
theorem text_prefix_free :
    ∀ p ∈ valid, ∀ q ∈ valid, p.text.toList <+: q.text.toList → p = q := by
  decide +kernel

/-- The spelling of a valid primitive type can be read off. -/
theorem text_append_inj {p q : PrimitiveType} (hp : p.fault = none) (hq : q.fault = none)
    {x y : List Char} (h : p.text.toList ++ x = q.text.toList ++ y) : p = q ∧ x = y := by
  have heq : p = q := by
    have hpx : p.text.toList <+: p.text.toList ++ x := List.prefix_append _ _
    have hqy : q.text.toList <+: p.text.toList ++ x := h ▸ List.prefix_append _ _
    rcases List.prefix_or_prefix_of_prefix hpx hqy with hpq | hqp
    · exact text_prefix_free p (mem_valid hp) q (mem_valid hq) hpq
    · exact (text_prefix_free q (mem_valid hq) p (mem_valid hp) hqp).symm
  subst heq
  exact ⟨rfl, List.append_cancel_left h⟩

end PrimitiveType

/-! ## Keys -/

namespace TypeKind

/-- What a type is made of, the name and the layout of a struct left out. -/
def form : TypeKind → TypeKind
  | struct s => struct ⟨"", s.policy, s.members, ⟨[], 1, 0⟩⟩
  | kind => kind

/-- The names and the shape in the key of a type are valid, so that its parts can be told apart. -/
def Spelled : TypeKind → Prop
  | primitive p => p.fault = none
  | struct s => ∀ m ∈ s.members, isIdentifier m.name = true
  | _ => True

end TypeKind

namespace Registry

open Interning

/-- The key of a type made of registered parts. -/
def keyOf (r : Registry) : TypeKind → String
  | .void => "void"
  | .primitive p => p.text
  | .array element n => "array<" ++ r.key element ++ "," ++ toString n ++ ">"
  | .struct s => structKey r s.policy s.members
  | .pointer pointee space => "ptr<" ++ space.name ++ "," ++ r.key pointee ++ ">"
  | .texture t =>
    "texture<" ++ t.dimension.name ++ "," ++ t.sample.name ++ "," ++ toString t.multisampled ++ ">"
  | .sampler kind => "sampler<" ++ kind.name ++ ">"

attribute [local simp] keyOf

/-- The constructor a key was made for: its first two letters tell. -/
def constructorOf (key : List Char) : Nat :=
  match key.take 2 with
  | ['v', 'o'] => 0
  | ['a', 'r'] => 2
  | ['s', 't'] => 3
  | ['p', 't'] => 4
  | ['t', 'e'] => 5
  | ['s', 'a'] => 6
  | _ => 1

/-- The text of a primitive type is told from the other constructors. -/
theorem constructorOf_text :
    ∀ p ∈ PrimitiveType.valid,
      2 ≤ p.text.toList.length ∧ constructorOf p.text.toList = 1 := by
  decide +kernel

/-- The first two letters of a key tell what kind of type it belongs to. -/
theorem constructorOf_keyOf (r : Registry) {k : TypeKind} (hk : k.Spelled) (x : List Char) :
    constructorOf ((r.keyOf k).toList ++ x) = k.ctorIdx := by
  cases k with
  | primitive p =>
      obtain ⟨hlen, hone⟩ := constructorOf_text p (PrimitiveType.mem_valid hk)
      unfold constructorOf at hone ⊢
      rw [keyOf, List.take_append_of_le_length hlen]
      exact hone
  | void => simp; rfl
  | array | struct | pointer | texture | sampler => simp [structKey]; rfl

section Parts

variable {r : Registry} {x y : List Char}

/-- The key of a texture type can be read off. -/
theorem texture_append_inj {t t' : TextureType}
    (h : (r.keyOf (.texture t)).toList ++ x = (r.keyOf (.texture t')).toList ++ y) :
    t = t' ∧ x = y := by
  obtain ⟨dimension, sample, multisampled⟩ := t
  obtain ⟨dimension', sample', multisampled'⟩ := t'
  simp only [keyOf, String.toList_append, List.append_assoc] at h
  obtain ⟨hdimension, hrest⟩ := append_cons_inj (c := ',') (by cases dimension <;> decide)
    (by cases dimension' <;> decide) (List.append_cancel_left h)
  obtain ⟨hsample, hrest⟩ := append_cons_inj (c := ',') (by cases sample <;> decide)
    (by cases sample' <;> decide) hrest
  obtain ⟨hmulti, hxy⟩ := append_cons_inj (c := '>') (by cases multisampled <;> decide)
    (by cases multisampled' <;> decide) hrest
  have hd : dimension = dimension' := by
    cases dimension <;> cases dimension' <;> first | rfl | exact absurd hdimension (by decide)
  have hs : sample = sample' := by
    cases sample <;> cases sample' <;> first | rfl | exact absurd hsample (by decide)
  have hm : multisampled = multisampled' := by
    cases multisampled <;> cases multisampled' <;> first | rfl | exact absurd hmulti (by decide)
  exact ⟨by rw [hd, hs, hm], hxy⟩

/-- The key of a sampler type can be read off. -/
theorem sampler_append_inj {kind kind' : SamplerKind}
    (h : (r.keyOf (.sampler kind)).toList ++ x = (r.keyOf (.sampler kind')).toList ++ y) :
    kind = kind' ∧ x = y := by
  simp only [keyOf, String.toList_append, List.append_assoc] at h
  obtain ⟨hname, hxy⟩ := append_cons_inj (c := '>') (by cases kind <;> decide)
    (by cases kind' <;> decide) (List.append_cancel_left h)
  refine ⟨?_, hxy⟩
  cases kind <;> cases kind' <;> first | rfl | exact absurd hname (by decide)

/-- The key of one type cannot be read as the key of another, whatever follows. -/
def Separates (r : Registry) (a b : TypeId) : Prop :=
  ∀ x y, (r.key a).toList ++ x = (r.key b).toList ++ y → a = b

/-- The key of an array can be read off when the one of its elements can. -/
theorem array_append_inj {a b : TypeId} {n n' : Nat} (hab : r.Separates a b)
    (h : (r.keyOf (.array a n)).toList ++ x = (r.keyOf (.array b n')).toList ++ y) :
    a = b ∧ n = n' ∧ x = y := by
  simp only [keyOf, String.toList_append, List.append_assoc] at h
  have hkeys := List.append_cancel_left h
  have heq := hab _ _ hkeys
  subst heq
  have hlength := List.append_cancel_left (List.append_cancel_left hkeys)
  obtain ⟨hn, hxy⟩ := append_cons_inj (c := '>') (not_mem_toList_toString (by decide) n)
    (not_mem_toList_toString (by decide) n') hlength
  exact ⟨rfl, toString_nat_inj hn, hxy⟩

/-- The key of a pointer type can be read off when the one of what it points to can. -/
theorem pointer_append_inj {a b : TypeId} {space space' : AddressSpace} (hab : r.Separates a b)
    (h : (r.keyOf (.pointer a space)).toList ++ x = (r.keyOf (.pointer b space')).toList ++ y) :
    a = b ∧ space = space' ∧ x = y := by
  simp only [keyOf, String.toList_append, List.append_assoc] at h
  obtain ⟨hspace, hkeys⟩ := append_cons_inj (c := ',') (by cases space <;> decide)
    (by cases space' <;> decide) (List.append_cancel_left h)
  have heq := hab _ _ hkeys
  subst heq
  have hs : space = space' := by
    cases space <;> cases space' <;> first | rfl | exact absurd hspace (by decide)
  exact ⟨rfl, hs, List.append_cancel_left (List.append_cancel_left hkeys)⟩

/-- The text of the members in the key of a struct. -/
def memberKeys (r : Registry) (members : List Member) : List Char :=
  members.flatMap fun m => m.name.toList ++ ':' :: ((r.key m.type).toList ++ [';'])

/-- The characters of the key of a struct. -/
theorem toList_structKey (r : Registry) (policy : LayoutPolicy) (members : List Member) :
    (structKey r policy members).toList =
      "struct<".toList ++ (policy.name.toList ++ '>' :: '\x7b' ::
        (r.memberKeys members ++ ['\x7d'])) := by
  simp [structKey, memberKeys, String.toList_append, String.toList_join, List.flatMap_map,
    List.append_assoc]

/-- The keys of the members, one after the other. -/
theorem memberKeys_cons (r : Registry) (m : Member) (members : List Member) (x : List Char) :
    r.memberKeys (m :: members) ++ x =
      m.name.toList ++ ':' :: ((r.key m.type).toList ++ ';' :: (r.memberKeys members ++ x)) := by
  simp [memberKeys, List.append_assoc]

/-- What follows the members in a key is not the beginning of a member. -/
theorem brace_ne_memberKeys_cons {m : Member} {members : List Member}
    (hm : isIdentifier m.name = true) :
    '\x7d' :: x ≠ r.memberKeys (m :: members) ++ y := by
  intro h
  obtain ⟨c, rest, hname⟩ := exists_cons_of_isIdentifier hm
  rw [memberKeys_cons, hname, List.cons_append] at h
  have hc : c = '\x7d' := (List.cons.inj h).1.symm
  have hnot := not_mem_of_isIdentifier hm (c := '\x7d') (by decide)
  rw [hname, hc] at hnot
  exact hnot List.mem_cons_self

/-- The members in the key of a struct can be read off when the keys of their types can. -/
theorem memberKeys_append_inj {members members' : List Member}
    (hm : ∀ m ∈ members, isIdentifier m.name = true)
    (hm' : ∀ m ∈ members', isIdentifier m.name = true)
    (hparts : ∀ m ∈ members, ∀ m' ∈ members', r.Separates m.type m'.type)
    (h : r.memberKeys members ++ '\x7d' :: x = r.memberKeys members' ++ '\x7d' :: y) :
    members = members' ∧ x = y := by
  induction members generalizing members' with
  | nil =>
      cases members' with
      | nil => exact ⟨rfl, (List.cons.inj h).2⟩
      | cons m' rest' => exact absurd h (brace_ne_memberKeys_cons (hm' m' List.mem_cons_self))
  | cons m rest ih =>
      cases members' with
      | nil => exact absurd h.symm (brace_ne_memberKeys_cons (hm m List.mem_cons_self))
      | cons m' rest' =>
          rw [memberKeys_cons, memberKeys_cons] at h
          obtain ⟨hname, hkeys⟩ := append_cons_inj
            (not_mem_of_isIdentifier (hm m List.mem_cons_self) (by decide))
            (not_mem_of_isIdentifier (hm' m' List.mem_cons_self) (by decide)) h
          have htype := hparts m List.mem_cons_self m' List.mem_cons_self _ _ hkeys
          rw [htype] at hkeys
          have hrest := (List.cons.inj (List.append_cancel_left hkeys)).2
          obtain ⟨rfl, hxy⟩ := ih (fun n hn => hm n (List.mem_cons_of_mem _ hn))
            (fun n hn => hm' n (List.mem_cons_of_mem _ hn))
            (fun n hn n' hn' => hparts n (List.mem_cons_of_mem _ hn) n'
              (List.mem_cons_of_mem _ hn')) hrest
          have heq : m = m' := by
            cases m
            cases m'
            exact congrArg₂ Member.mk (String.toList_inj.mp hname) htype
          exact ⟨by rw [heq], hxy⟩

/-- The key of a struct can be read off when the keys of the types of its members can. -/
theorem struct_append_inj {s s' : StructType} (hs : (TypeKind.struct s).Spelled)
    (hs' : (TypeKind.struct s').Spelled)
    (hparts : ∀ m ∈ s.members, ∀ m' ∈ s'.members, r.Separates m.type m'.type)
    (h : (r.keyOf (.struct s)).toList ++ x = (r.keyOf (.struct s')).toList ++ y) :
    s.policy = s'.policy ∧ s.members = s'.members ∧ x = y := by
  simp only [keyOf, toList_structKey, List.append_assoc, List.cons_append, List.nil_append] at h
  obtain ⟨hpolicy, hmembers⟩ := append_cons_inj (c := '>') (by cases s.policy <;> decide)
    (by cases s'.policy <;> decide) (List.append_cancel_left h)
  have hp : s.policy = s'.policy := by
    cases hs : s.policy <;> cases hs' : s'.policy <;> rw [hs, hs'] at hpolicy <;>
      first | rfl | exact absurd hpolicy (by decide)
  exact ⟨hp, memberKeys_append_inj hs hs' hparts (List.cons.inj hmembers).2⟩

/-- Two keys can be told apart, whatever follows, when those of the parts can. -/
theorem keyOf_append_inj {k k' : TypeKind} (hk : k.Spelled) (hk' : k'.Spelled)
    (hparts : ∀ a ∈ k.parts, ∀ b ∈ k'.parts, r.Separates a b)
    (h : (r.keyOf k).toList ++ x = (r.keyOf k').toList ++ y) : k.form = k'.form ∧ x = y := by
  -- the first letters of a key tell the kind of the type
  have hc : k.ctorIdx = k'.ctorIdx := by
    rw [← constructorOf_keyOf r hk x, h, constructorOf_keyOf r hk' y]
  cases k with
  | void =>
      cases k' with
      | void => exact ⟨rfl, List.append_cancel_left h⟩
      | _ => cases hc
  | primitive p =>
      cases k' with
      | primitive q =>
          obtain ⟨rfl, hxy⟩ := PrimitiveType.text_append_inj hk hk' h
          exact ⟨rfl, hxy⟩
      | _ => cases hc
  | array a n =>
      cases k' with
      | array b n' =>
          have hab := hparts a List.mem_cons_self b List.mem_cons_self
          obtain ⟨rfl, rfl, hxy⟩ := array_append_inj hab h
          exact ⟨rfl, hxy⟩
      | _ => cases hc
  | struct s =>
      cases k' with
      | struct s' =>
          have hm : ∀ m ∈ s.members, ∀ m' ∈ s'.members, r.Separates m.type m'.type :=
            fun m hm m' hm' => hparts _ (List.mem_map_of_mem hm) _ (List.mem_map_of_mem hm')
          obtain ⟨hpolicy, hmembers, hxy⟩ := struct_append_inj hk hk' hm h
          exact ⟨by rw [TypeKind.form, TypeKind.form, hpolicy, hmembers], hxy⟩
      | _ => cases hc
  | pointer a space =>
      cases k' with
      | pointer b space' =>
          have hab := hparts a List.mem_cons_self b List.mem_cons_self
          obtain ⟨rfl, rfl, hxy⟩ := pointer_append_inj hab h
          exact ⟨rfl, hxy⟩
      | _ => cases hc
  | texture t =>
      cases k' with
      | texture t' =>
          obtain ⟨rfl, hxy⟩ := texture_append_inj h
          exact ⟨rfl, hxy⟩
      | _ => cases hc
  | sampler kind =>
      cases k' with
      | sampler kind' =>
          obtain ⟨rfl, hxy⟩ := sampler_append_inj h
          exact ⟨rfl, hxy⟩
      | _ => cases hc

end Parts

end Registry

end WebShader
