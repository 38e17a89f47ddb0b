import WebShader.Proofs.LiteralValues
import WebShader.Proofs.RecalledAccesses
import WebShader.Proofs.SwizzleMasks
import WebShader.Proofs.TypedScripts

/-!
# Memoized accesses

A member, a swizzle and the element of an index known to the host program are each recorded once for
an expression. An element of any other index is recorded every time. So the expressions of
two accesses are the same exactly when the accesses are, and an expression is always what the access
asks for, whatever has happened in between.
-/

namespace WebShader

/-! ## Parts -/

/-- What is accessed of an expression: a member, the components of a mask, or the element of an
index that the host program knows or that is an expression. -/
inductive Selector where
  | member (name : String)
  | swizzle (mask : String)
  | element (i : Int)
  | elementAt (index : Expr)
  deriving DecidableEq

namespace Selector

/-- Access a part of an expression. -/
def on : Selector → Expr → Build Expr
  | member name, base => Build.member base name
  | swizzle mask, base => Build.swizzle base mask
  | element i, base => Build.at base (.host (.int i))
  | elementAt index, base => Build.at base (.expr index)

/-- Whether the host program knows which part it is. -/
def isStatic : Selector → Bool
  | member _ | swizzle _ | element _ => true
  | elementAt _ => false

/-- The access by which a part of a type is remembered. -/
inductive Denotes (r : Registry) (t : TypeId) : Selector → Access → Prop
  | member {name : String} {s : StructType} {i : Nat} {m : Member} :
      r.kind t = .struct s → s.member? name = some (i, m) → Denotes r t (.member name) (.member i)
  | swizzle {mask : String} {p : PrimitiveType} {s : Swizzle} :
      r.primitive? t = some p → Swizzle.parse mask p.rows = .ok s →
      Denotes r t (.swizzle mask) (.swizzle s)
  | element {i : Int} : isU32 i = true → Denotes r t (.element i) (.index i.toNat)

end Selector

/-- A member that is found has the name that is looked for. -/
theorem StructType.member?_eq_some {s : StructType} {name : String} {i : Nat} {m : Member}
    (h : s.member? name = some (i, m)) : s.members[i]? = some m ∧ m.name = name := by
  obtain ⟨j, hj, h⟩ := Option.bind_eq_some_iff.mp h
  obtain ⟨m', hm', h⟩ := Option.bind_eq_some_iff.mp h
  obtain ⟨rfl, rfl⟩ := Prod.mk.inj (Option.some.inj h)
  refine ⟨hm', ?_⟩
  obtain ⟨hlt, hname, -⟩ := List.findIdx?_eq_some_iff_getElem.mp hj
  rw [List.getElem?_eq_getElem hlt] at hm'
  rw [← Option.some.inj hm']
  exact beq_iff_eq.mp hname

namespace Selector.Denotes

variable {r r' : Registry} {t : TypeId} {p p' : Selector} {part part' : Access}

/-- What a part denotes does not change while types are added. -/
theorem of_le (h : r ≤ r') (hp : p.Denotes r t part) : p.Denotes r' t part := by
  cases hp with
  | member hk hm => exact .member (Registry.kind_of_le h hk (by simp)) hm
  | swizzle hq hs => exact .swizzle (Registry.primitive?_of_le h hq) hs
  | element hi => exact .element hi

/-- A part denotes one access of a type. -/
theorem unique (hp : p.Denotes r t part) (hp' : p.Denotes r t part') : part' = part := by
  cases hp with
  | member hk hm =>
      cases hp' with
      | member hk' hm' =>
          obtain rfl := TypeKind.struct.inj (hk'.symm.trans hk)
          exact congrArg _ (Prod.mk.inj (Option.some.inj (hm'.symm.trans hm))).1
  | swizzle hq hs =>
      cases hp' with
      | swizzle hq' hs' =>
          obtain rfl := Option.some.inj (hq'.symm.trans hq)
          exact congrArg _ (Except.ok.inj (hs'.symm.trans hs))
  | element hi =>
      cases hp' with
      | element => rfl

/-- An access of a type is denoted by one part. -/
theorem injective (hp : p.Denotes r t part) (hp' : p'.Denotes r t part) : p' = p := by
  cases hp with
  | member hk hm =>
      cases hp' with
      | member hk' hm' =>
          obtain rfl := TypeKind.struct.inj (hk'.symm.trans hk)
          obtain ⟨hat, hname⟩ := StructType.member?_eq_some hm
          obtain ⟨hat', hname'⟩ := StructType.member?_eq_some hm'
          rw [← hname, ← hname', Option.some.inj (hat'.symm.trans hat)]
  | swizzle hq hs =>
      cases hp' with
      | swizzle hq' hs' =>
          rw [← (Swizzle.parse_eq_ok_iff.mp hs).1, ← (Swizzle.parse_eq_ok_iff.mp hs').1]
  | element hi =>
      generalize hpart : Access.index _ = part at hp'
      cases hp' with
      | member | swizzle => cases hpart
      | element hi' =>
          have hsame := Access.index.inj hpart
          simp only [isU32, Bool.and_eq_true, decide_eq_true_eq] at hi hi'
          exact congrArg _ (by omega)

end Selector.Denotes

/-! ## Runs -/

namespace Build

open Builder (run_bind_eq_ok_iff run_pure_eq_ok_iff run_get_bind run_refuse_eq_ok_iff)

variable {base e : Expr} {b b' : Builder} {p : Selector}

theorem follows_on {R : Builder → Builder → Prop} [IsAdditive R] (p : Selector) (base : Expr) :
    Follows R (p.on base) := by
  cases p with
  | member name => exact follows_member base name
  | swizzle mask => exact follows_swizzle base mask
  | element i => exact follows_at base _
  | elementAt index => exact follows_at base _

/-- The expression of an access is given for it from then on. -/
theorem given_of_run_access {part : Access} {t : TypeId} {kind : NodeKind}
    (h : b.run (access base part t kind) = (.ok e, b')) :
    b'.arena.given? base.node part = some e := by
  rw [run_access] at h
  cases hgiven : b.arena.given? base.node part with
  | some e' =>
      rw [hgiven] at h
      obtain ⟨he, rfl⟩ := Prod.mk.inj h
      rw [hgiven, Except.ok.inj he]
  | none =>
      rw [hgiven] at h
      obtain ⟨he, rfl⟩ := Prod.mk.inj h
      rw [← Except.ok.inj he, Arena.given?, Builder.arena, List.find?_cons_of_pos (by simp)]
      rfl

/-- The element of an index in range is given for it from then on. -/
theorem given_of_run_element {t : TypeId} {bound : Option Nat} {i : Int}
    (h : b.run (element base t bound i) = (.ok e, b')) :
    isU32 i = true ∧ b'.arena.given? base.node (.index i.toNat) = some e := by
  unfold element at h
  dsimp only at h
  split at h
  · cases (Prod.mk.inj h).1
  · rename_i hrange
    refine ⟨by simp_all, ?_⟩
    rw [run_get_bind] at h
    split at h
    · rename_i e' he'
      obtain ⟨rfl, rfl⟩ := run_pure_eq_ok_iff.mp h
      exact he'
    · obtain ⟨index, b₁, -, haccess⟩ := run_bind_eq_ok_iff.mp h
      exact given_of_run_access haccess

/-- The expression of a part that the host program knows is given from then on for the access that
the part denotes. -/
theorem given_of_run_on (hp : p.isStatic = true) (h : b.run (p.on base) = (.ok e, b')) :
    ∃ part, p.Denotes b.types base.type part ∧ b'.arena.given? base.node part = some e := by
  cases p with
  | member name =>
      rw [Selector.on, member, run_get_bind] at h
      dsimp only at h
      split at h
      · cases (Prod.mk.inj h).1
      · rename_i s hs
        split at h
        · cases (Prod.mk.inj h).1
        · rename_i i m hm
          exact ⟨_, .member (Registry.struct?_eq_some_iff.mp hs) hm, given_of_run_access h⟩
  | swizzle mask =>
      rw [Selector.on, swizzle, run_get_bind] at h
      dsimp only at h
      split at h
      · cases (Prod.mk.inj h).1
      · rename_i q hq
        obtain ⟨-, h⟩ := run_refuse_eq_ok_iff.mp h
        obtain ⟨s, b₁, hs, h⟩ := run_bind_eq_ok_iff.mp h
        obtain ⟨t, b₂, -, h⟩ := run_bind_eq_ok_iff.mp h
        rw [Builder.run_liftM] at hs
        exact ⟨_, .swizzle hq (Prod.mk.inj hs).1, given_of_run_access h⟩
  | element i =>
      obtain ⟨⟨t, bound⟩, b₁, -, h⟩ := run_bind_eq_ok_iff.mp h
      obtain ⟨hi, hgiven⟩ := given_of_run_element h
      exact ⟨_, .element hi, hgiven⟩
  | elementAt index => cases hp

/-- An element of any other index is recorded anew, and not remembered. -/
theorem fresh_of_run_elementAt {callees : Callees} (hb : b.Typed callees) {index : Expr}
    (h : b.run ((Selector.elementAt index).on base) = (.ok e, b')) :
    e.node.index = b.nodes.size ∧ b'.accesses = b.accesses ∧
      b'.Makes e (.index base.node index.node) ∧ b'.types.HasElements base.type e.type := by
  obtain ⟨⟨t, bound⟩, b₁, helements, h⟩ := run_bind_eq_ok_iff.mp h
  have harena : b₁.arena = b.arena := arena_of_run_elements helements
  have htype := (ensures_elements hb base.type).2.2 _ _ helements
  dsimp only at h
  rw [run_get_bind] at h
  split at h
  · obtain ⟨-, hpush⟩ := run_refuse_eq_ok_iff.mp h
    have hmakes := (makes_of_run_pushNode hpush).2
    obtain ⟨he, rfl⟩ := Prod.mk.inj hpush
    obtain rfl := Except.ok.inj he
    have hnodes : b₁.nodes = b.nodes := congrArg Arena.nodes harena
    exact ⟨by rw [hnodes], congrArg Arena.accesses harena, hmakes, htype⟩
  · cases (Prod.mk.inj h).1

theorem ensures_on {callees : Callees} (hb : b.Typed callees) (hbase : b.Carries base)
    (hp : p.isStatic = true) : (p.on base).Ensures callees b fun e b' => b'.Carries e := by
  cases p with
  | member name => exact ensures_member hb hbase name
  | swizzle mask => exact ensures_swizzle hb hbase mask
  | element i => exact ensures_at hb hbase trivial
  | elementAt index => cases hp

end Build

/-! ## What an access is -/

/-- An expression is exactly a part of its base: it is made as this part, and has its type. -/
inductive Builder.IsPart (b : Builder) (base e : Expr) : Selector → Prop
  | member {name : String} {s : StructType} {i : Nat} {m : Member} :
      b.types.kind base.type = .struct s → s.member? name = some (i, m) → e.type = m.type →
      b.Makes e (.member base.node i) → b.IsPart base e (.member name)
  | swizzle {mask : String} {p : PrimitiveType} {s : Swizzle} :
      b.types.primitive? base.type = some p → Swizzle.parse mask p.rows = .ok s →
      b.types.kind e.type = .primitive (.vector p.scalar (UInt8.ofNat s.length)) →
      b.Makes e (.swizzle base.node s) → b.IsPart base e (.swizzle mask)
  | element {i : Int} {n : NodeId} {t : TypeId} :
      isU32 i = true → b.node? n = some ⟨t, .literal (.ofIndex i.toNat)⟩ →
      b.types.HasElements base.type e.type →
      b.Makes e (.index base.node n) → b.IsPart base e (.element i)
  | elementAt {index : Expr} : b.types.HasElements base.type e.type →
      b.Makes e (.index base.node index.node) → b.IsPart base e (.elementAt index)

namespace Builder

variable {b b' : Builder} {base base' e e' : Expr} {p p' : Selector} {part part' : Access}
  {callees : Callees}

/-- An expression is made of the same parts later. -/
theorem Makes.of_recalls (h : b.Recalls b') {kind : NodeKind} (he : b.Makes e kind) :
    b'.Makes e kind := getElem?_of_starts h.arena.nodes he

/-- An expression has the same type later. -/
theorem Carries.of_recalls (h : b.Recalls b') (he : b.Carries e) : b'.Carries e := by
  obtain ⟨node, hnode, ht⟩ := Option.map_eq_some_iff.mp he
  exact Option.map_eq_some_iff.mpr ⟨node, getElem?_of_starts h.arena.nodes hnode, ht⟩

/-- A handle is told by its expression. -/
theorem Carries.unique (he : b.Carries e) (he' : b.Carries e') (h : e'.node = e.node) : e' = e := by
  obtain ⟨node, t⟩ := e
  obtain ⟨node', t'⟩ := e'
  obtain rfl : node' = node := h
  obtain rfl : t' = t := Option.some.inj (he'.symm.trans he)
  rfl

/-- A part is an expression. -/
theorem IsPart.exists_makes (h : b.IsPart base e p) : ∃ kind, b.Makes e kind := by
  cases h with
  | member _ _ _ he | swizzle _ _ _ he | element _ _ _ he | elementAt _ he => exact ⟨_, he⟩

/-- What an expression is stays the same. -/
theorem IsPart.of_recalls (h : b.Recalls b') (hp : b.IsPart base e p) : b'.IsPart base e p := by
  cases hp with
  | member hk hm ht he =>
      exact .member (Registry.kind_of_le h.types hk (by simp)) hm ht (he.of_recalls h)
  | swizzle hq hs hk he =>
      exact .swizzle (Registry.primitive?_of_le h.types hq) hs
        (Registry.kind_of_le h.types hk (by simp)) (he.of_recalls h)
  | element hi hn ht he =>
      exact .element hi (getElem?_of_starts h.arena.nodes hn) (ht.of_le h.types) (he.of_recalls h)
  | elementAt ht he => exact .elementAt (ht.of_le h.types) (he.of_recalls h)

/-- An access that is remembered is in the list of accesses. -/
theorem mem_accesses_of_given (h : b.arena.given? base.node part = some e) :
    ((base.node, part), e) ∈ b.accesses := by
  obtain ⟨x, hx, rfl⟩ := Option.map_eq_some_iff.mp h
  have hkey := List.find?_some hx
  rw [← beq_iff_eq.mp hkey]
  exact List.mem_of_find?_eq_some hx

section Dictated

variable {n : NodeId} {t : TypeId} (hbase : b.Carries base)

include hbase

/-- The type of a member is that of its declaration. -/
theorem type_of_dictates_member {s : StructType} {name : String} {i : Nat} {m : Member}
    (hk : b.types.kind base.type = .struct s) (hm : s.member? name = some (i, m))
    (h : b.Dictates callees n (.member base.node i) t) : t = m.type := by
  cases h with
  | member hu hk' hm' =>
      obtain rfl := Option.some.inj (hu.symm.trans hbase)
      obtain rfl := TypeKind.struct.inj (hk'.symm.trans hk)
      rw [Option.some.inj (hm'.symm.trans (StructType.member?_eq_some hm).1)]

/-- The type of a swizzle is that of its components. -/
theorem kind_of_dictates_swizzle {p : PrimitiveType} {s : Swizzle}
    (hp : b.types.primitive? base.type = some p)
    (h : b.Dictates callees n (.swizzle base.node s) t) :
    b.types.kind t = .primitive (.vector p.scalar (UInt8.ofNat s.length)) := by
  cases h with
  | swizzle hp' _ hk =>
      rw [primitiveOf?, hbase] at hp'
      rw [← Option.some.inj (hp'.symm.trans hp)]
      exact hk

/-- An index has the type of the elements. -/
theorem hasElements_of_dictates {i : NodeId} (h : b.Dictates callees n (.index base.node i) t) :
    b.types.HasElements base.type t := by
  cases h with
  | element hu hk =>
      obtain rfl := Option.some.inj (hu.symm.trans hbase)
      exact Or.inl ⟨_, hk⟩
  | component hp hmany hk =>
      rw [primitiveOf?, hbase] at hp
      exact Or.inr ⟨_, hp, hmany, hk⟩

end Dictated

/-- What is given for an access is exactly the part that denotes the access. -/
theorem isPart_of_given (hb : b.Typed callees) (hexact : b.arena.IsExact) (hbase : b.Carries base)
    (hp : p.Denotes b.types base.type part) (h : b.arena.given? base.node part = some e) :
    b.IsPart base e p := by
  obtain ⟨kind, hmakes, hyields⟩ := hexact _ (mem_accesses_of_given h)
  have hdictated := hb.dictated e.node _ hmakes
  cases hp with
  | member hk hm =>
      cases hyields
      exact .member hk hm (type_of_dictates_member hbase hk hm hdictated) hmakes
  | swizzle hq hs =>
      cases hyields
      exact .swizzle hq hs (kind_of_dictates_swizzle hbase hq hdictated) hmakes
  | element hi =>
      cases hyields with
      | index hn => exact .element hi hn (hasElements_of_dictates hbase hdictated) hmakes

/-- One expression is given for one access. -/
theorem eq_of_given (hexact : b.arena.IsExact) (h : b.arena.given? base.node part = some e)
    (h' : b.arena.given? base'.node part' = some e') (hnode : e'.node = e.node) :
    base'.node = base.node ∧ part' = part := by
  obtain ⟨kind, hmakes, hyields⟩ := hexact _ (mem_accesses_of_given h)
  obtain ⟨kind', hmakes', hyields'⟩ := hexact _ (mem_accesses_of_given h')
  dsimp only at hmakes hmakes'
  rw [hnode] at hmakes'
  obtain ⟨-, rfl⟩ := Node.mk.inj (Option.some.inj (hmakes'.symm.trans hmakes))
  exact hyields.unique hyields'

/-- What is made is recorded. -/
theorem Makes.lt_size {kind : NodeKind} (h : b.Makes e kind) : e.node.index < b.nodes.size :=
  (Array.getElem?_eq_some_iff.mp h).1

/-- The arena only grows. -/
theorem Recalls.size_le (h : b.Recalls b') : b.nodes.size ≤ b'.nodes.size := by
  have hle := h.arena.nodes.length_le
  rwa [Array.length_toList, Array.length_toList] at hle

end Builder

namespace Build

variable {b b' c c' : Builder} {base base' e e' : Expr} {p p' : Selector}
variable {callees callees' : Callees}

/-- Whatever is accessed is exactly the part that was asked for. -/
theorem isPart_of_run_on (hb : b.Typed callees) (hexact : b.arena.IsExact) (hbase : b.Carries base)
    (h : b.run (p.on base) = (.ok e, b')) : b'.IsPart base e p := by
  cases hp : p.isStatic with
  | true =>
      obtain ⟨part, hdenotes, hgiven⟩ := given_of_run_on hp h
      obtain ⟨hext, hb', -⟩ := ensures_on hb hbase hp
      rw [h] at hext hb'
      have hrecalls : b.Recalls b' := (follows_on p base).of_run h
      exact Builder.isPart_of_given hb' (hrecalls.arena.exact hexact) (hbase.of_extends hext)
        (hdenotes.of_le hrecalls.types) hgiven
  | false =>
      cases p with
      | elementAt index =>
          obtain ⟨-, -, hmakes, helements⟩ := fresh_of_run_elementAt hb h
          exact .elementAt helements hmakes
      | member | swizzle | element => cases hp

/-- A part that the host program knows is accessed once. -/
theorem eq_of_run_on (hp : p.isStatic = true) (h : b.run (p.on base) = (.ok e, b'))
    (hrecalls : b'.Recalls c) (h' : c.run (p.on base) = (.ok e', c')) : e' = e := by
  obtain ⟨part, hdenotes, hgiven⟩ := given_of_run_on hp h
  obtain ⟨part', hdenotes', hgiven'⟩ := given_of_run_on hp h'
  have hbefore : b.Recalls c := trans_of Builder.Recalls ((follows_on p base).of_run h) hrecalls
  have hafter : b'.Recalls c' := trans_of Builder.Recalls hrecalls ((follows_on p base).of_run h')
  obtain rfl := (hdenotes.of_le hbefore.types).unique hdenotes'
  exact Option.some.inj (hgiven'.symm.trans (hafter.arena.given hgiven))

/-- Different accesses are different expressions, and an element of an index that is an expression
is a different one each time. -/
theorem node_ne_of_run_on (hb : b.Typed callees) (hexact : b.arena.IsExact)
    (hbase : b.Carries base) (h : b.run (p.on base) = (.ok e, b')) (hrecalls : b'.Recalls c)
    (hc : c.Typed callees') (hbase' : c.Carries base') (h' : c.run (p'.on base') = (.ok e', c'))
    (hne : ¬(p.isStatic = true ∧ base' = base ∧ p' = p)) : e'.node ≠ e.node := by
  have hfirst : b.Recalls b' := (follows_on p base).of_run h
  have hsecond : c.Recalls c' := (follows_on p' base').of_run h'
  have hafter : b'.Recalls c' := trans_of Builder.Recalls hrecalls hsecond
  obtain ⟨kind, hmakes⟩ := (isPart_of_run_on hb hexact hbase h).exists_makes
  have hmade : e.node.index < b'.nodes.size := hmakes.lt_size
  intro hnode
  cases hp' : p'.isStatic with
  | false =>
      -- the second access records a new expression
      cases p' with
      | elementAt index =>
          have hfresh := (fresh_of_run_elementAt hc h').1
          have hle := hrecalls.size_le
          rw [hnode] at hfresh
          omega
      | member | swizzle | element => cases hp'
  | true =>
      obtain ⟨part', hdenotes', hgiven'⟩ := given_of_run_on hp' h'
      cases hp : p.isStatic with
      | false =>
          -- the first access has recorded a new expression, which is given for no access
          cases p with
          | elementAt index =>
              obtain ⟨hfresh, hsame, -⟩ := fresh_of_run_elementAt hb h
              rcases hafter.arena.fresh _ (Builder.mem_accesses_of_given hgiven') with hold | hnew
              · have hgivenBefore : ((base'.node, part'), e') ∈ b.accesses := hsame ▸ hold
                obtain ⟨kind', hmakes', -⟩ := hexact _ hgivenBefore
                have hlt : e'.node.index < b.nodes.size := Builder.Makes.lt_size hmakes'
                rw [hnode] at hlt
                omega
              · rw [hnode] at hnew
                exact absurd hmade (Nat.not_lt.mpr hnew)
          | member | swizzle | element => cases hp
      | true =>
          -- the two accesses are remembered, and one expression is given for one access
          obtain ⟨part, hdenotes, hgiven⟩ := given_of_run_on hp h
          have hbefore : b.Recalls c := trans_of Builder.Recalls hfirst hrecalls
          have hexact' := (trans_of Builder.Recalls hfirst hafter).arena.exact hexact
          obtain ⟨hsame, rfl⟩ :=
            Builder.eq_of_given hexact' (hafter.arena.given hgiven) hgiven' hnode
          obtain rfl := (hbase.of_recalls hbefore).unique hbase' hsame
          exact hne ⟨hp, rfl, (hdenotes.of_le hbefore.types).injective hdenotes'⟩

end Build

/-! ## Sequences -/

namespace Session

variable {s s' : Session}

/-- A script without a reset leads a session on, whichever of its steps fail. -/
theorem leadsTo_of_script {n : Script.Notes} (hs : s.Reachable) (hn : s.KnowsNames n)
    {steps : Script} (hsteps : ¬Script.Has .reset steps) (tolerant : Bool) :
    ∃ s' : Session, s'.Reachable ∧ s.builder.LeadsTo s'.builder ∧
      s'.builder = ((Script.runAll tolerant steps).runFrom (s.builder, n)).2.1 ∧
      s'.KnowsNames ((Script.runAll tolerant steps).runFrom (s.builder, n)).2.2 := by
  obtain ⟨s', hs', -, hb, hn', -⟩ := Script.simulates_runAll tolerant steps s n hs hn
  refine ⟨s', hs', ?_, hb, hn'⟩
  rw [hb]
  exact .single (.script hsteps tolerant n)

/-- **Accesses are memoized.** A builder that has given no expression for an access, a new one or
one that has been reset, leads by any steps without a reset to a first access and then to a second
one. If both are of the same part of the same expression, and the host program knows the part, the
second gives the expression of the first. All other accesses give different expressions. And
each is exactly the part of its base that was asked for, with the type of this part. -/
theorem accesses_memoized {start b b' : Builder} {base base' e e' : Expr} {p p' : Selector}
    (hstart : start.accesses = []) (hbefore : start.LeadsTo s.builder)
    (hs : s.Reachable) (hbase : base ∈ s.known) (hfirst : s.builder.run (p.on base) = (.ok e, b))
    (hbetween : b.LeadsTo s'.builder) (hs' : s'.Reachable) (hbase' : base' ∈ s'.known)
    (hsecond : s'.builder.run (p'.on base') = (.ok e', b')) :
    (p.isStatic = true ∧ base' = base ∧ p' = p → e' = e) ∧
      (¬(p.isStatic = true ∧ base' = base ∧ p' = p) → e'.node ≠ e.node) ∧
      b'.IsPart base e p ∧ b'.IsPart base' e' p' := by
  -- a cache that is exact once stays exact, and an empty one is
  have hexact : s.builder.arena.IsExact := by
    refine hbefore.recalls.arena.exact fun x hx => ?_
    rw [Builder.arena, hstart] at hx
    cases hx
  have hrecalls : b.Recalls s'.builder := hbetween.recalls
  have hagain : s'.builder.Recalls b' := (Build.follows_on p' base').of_run hsecond
  have hexact' : s'.builder.arena.IsExact := by
    have hmade : s.builder.Recalls b := (Build.follows_on p base).of_run hfirst
    exact hrecalls.arena.exact (hmade.arena.exact hexact)
  have hpart := Build.isPart_of_run_on hs.typed.builder hexact (hs.typed.known base hbase) hfirst
  have hpart' :=
    Build.isPart_of_run_on hs'.typed.builder hexact' (hs'.typed.known base' hbase') hsecond
  refine ⟨?_, fun hne => ?_, hpart.of_recalls (trans_of Builder.Recalls hrecalls hagain), hpart'⟩
  · rintro ⟨hp, rfl, rfl⟩
    exact Build.eq_of_run_on hp hfirst hrecalls hsecond
  · exact Build.node_ne_of_run_on hs.typed.builder hexact (hs.typed.known base hbase) hfirst
      hrecalls hs'.typed.builder (hs'.typed.known base' hbase') hsecond hne

/-- An operation that shows an expression leads a session to the builder that has made it. -/
theorem reachable_of_showResult {n : Script.Notes} {op : Script.Operation} {act : Build Expr}
    {b : Builder} {e : Expr} (hs : s.Reachable) (hn : s.KnowsNames n) (hop : op ≠ .reset)
    (hact : op.action n = .ok (Script.showResult act)) (h : s.builder.run act = (.ok e, b)) :
    ∃ handles, (s.after b handles).Reachable := by
  have hrun : ((Script.showResult act).runFrom (s.builder, n)).2.1 = b := by
    rw [Script.showResult, Authoring.runFrom_bind, Authoring.runFrom_lift, h]
    rfl
  have hlater : (s.after ((Script.showResult act).runFrom (s.builder, n)).2.1 _).Reachable :=
    .operation hs hn hop hact
  rw [hrun] at hlater
  exact ⟨_, hlater⟩

/-- A vector is made. -/
def makesVector : Script :=
  [(false, .operation (.construct (.primitive (.vector .f32 2))
    [.host (.float (.finite false 1 0)), .host (.float (.finite false 2 0))]) (some "v"))]

/-- A program is begun and fails for want of an entry point, after another access of the vector and
one that is refused. -/
def failsInStage : Script :=
  [(true, .compute false "p"
    [(false, .operation (.swizzle "v" "yx") none), (true, .operation (.swizzle "v" "q") none)] [])]

/-- The script does not reset the builder. -/
theorem not_has_reset_makesVector : ¬Script.Has .reset makesVector := by
  rintro ⟨step, hstep, hreset⟩
  rw [List.mem_singleton.mp hstep] at hreset
  cases hreset with
  | inside hbody => cases hbody

/-- The script does not reset the builder. -/
theorem not_has_reset_failsInStage : ¬Script.Has .reset failsInStage := by
  rintro ⟨step, hstep, hreset⟩
  rw [List.mem_singleton.mp hstep] at hreset
  cases hreset with
  | inside hbody hstep hreset =>
      rw [List.mem_singleton.mp hbody] at hstep
      rcases List.mem_pair.mp hstep with rfl | rfl
      all_goals
        cases hreset with
        | inside hbody => cases hbody

/-- The second access of the vector, after the program that has failed, gives what the first has
given. -/
theorem vector_memoized : ∃ (s s' : Session) (base e : Expr) (b b' : Builder),
    s.Reachable ∧ base ∈ s.known ∧ s.builder.run ((Selector.swizzle "xy").on base) = (.ok e, b) ∧
    b.LeadsTo s'.builder ∧ b.nodes.size < s'.builder.nodes.size ∧
    s'.builder.run ((Selector.swizzle "xy").on base) = (.ok e, b') ∧
    b'.IsPart base e (.swizzle "xy") := by
  let start : Builder := .new { target := .webGPU }
  let base : Expr := ⟨⟨2⟩, ⟨0⟩⟩
  -- the vector is made
  have hnew : Session.Reachable { builder := start } := .new _
  obtain ⟨s, hs, hbefore, hb, hn⟩ :=
    leadsTo_of_script (n := {}) hnew (by simp [KnowsNames]) not_has_reset_makesVector false
  dsimp only at hb hn
  have hbase : base ∈ s.known := hn ("v", base) (by decide +kernel)
  have hvalue : Script.exprOf ((Script.runAll false makesVector).runFrom (start, {})).2.2 "v" =
      .ok base := by
    have hfind : ((Script.runAll false makesVector).runFrom (start, {})).2.2.find? "v" =
        some base := by decide +kernel
    rw [Script.exprOf, hfind]
  -- it is accessed
  obtain ⟨e, b, hfirst⟩ : ∃ e b, s.builder.run ((Selector.swizzle "xy").on base) = (.ok e, b) := by
    refine exists_of_isOk ?_
    rw [hb]
    decide +kernel
  have hact : (Script.Operation.swizzle "v" "xy").action
      ((Script.runAll false makesVector).runFrom (start, {})).2.2 =
        .ok (Script.showResult (Build.swizzle base "xy")) := by
    rw [Script.Operation.action, hvalue]
    rfl
  obtain ⟨handles, hs₁⟩ := reachable_of_showResult hs hn (by simp) hact hfirst
  -- a program fails, and it is accessed again
  obtain ⟨s', hs', hbetween, hb', hn'⟩ := leadsTo_of_script hs₁
    (fun x hx => List.mem_append_right _ (hn x hx)) not_has_reset_failsInStage true
  dsimp only [after] at hbetween hb' hn'
  obtain rfl : (s.builder.run ((Selector.swizzle "xy").on base)).2 = b := congrArg Prod.snd hfirst
  rw [hb] at hb' hn'
  have hbase' : base ∈ s'.known := hn' ("v", base) (by decide +kernel)
  obtain ⟨e', b', hsecond⟩ :
      ∃ e' b', s'.builder.run ((Selector.swizzle "xy").on base) = (.ok e', b') := by
    refine exists_of_isOk ?_
    rw [hb']
    decide +kernel
  have hsize : (s.builder.run ((Selector.swizzle "xy").on base)).2.nodes.size <
      s'.builder.nodes.size := by
    rw [hb', hb]
    decide +kernel
  obtain ⟨hsame, -, hpart, -⟩ :=
    accesses_memoized rfl hbefore hs hbase hfirst hbetween hs' hbase' hsecond
  obtain rfl := hsame ⟨rfl, rfl, rfl⟩
  exact ⟨s, s', base, _, _, b', hs, hbase, hfirst, hbetween, hsize, hsecond, hpart⟩

end Session

end WebShader
