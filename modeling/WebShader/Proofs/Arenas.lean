import Mathlib.Order.Defs.Unbundled
import WebShader.Place

/-!
# Arenas

The expressions that a builder has recorded, and the accesses that it has given for them. An arena
recalls another one if it begins with its expressions, still gives the same expression for each
access, gives only new expressions for others, and stays exact: the expression given for an access
is what the access yields.
-/

namespace WebShader

/-- What stays of an array in one that it begins. -/
theorem getElem?_of_starts {α : Type} {xs ys : Array α} (h : xs.toList <+: ys.toList) {i : Nat}
    {x : α} (hx : xs[i]? = some x) : ys[i]? = some x := by
  obtain ⟨rest, hrest⟩ := h
  rw [← Array.getElem?_toList] at hx ⊢
  rw [← hrest, List.getElem?_append_left (List.getElem?_eq_some_iff.mp hx).1]
  exact hx

/-- The expressions recorded, and those given for accesses. -/
structure Arena where
  nodes : Array Node
  accesses : List ((NodeId × Access) × Expr)

/-- The expressions that a builder has recorded, and those it has given for accesses. -/
def Builder.arena (b : Builder) : Arena := ⟨b.nodes, b.accesses⟩

/-- The literal of an index known to the host program. -/
def Literal.ofIndex (i : Nat) : Literal := if isI32 i then .i32 i else .u32 i

/-- Different indices are different literals. -/
theorem Literal.ofIndex_injective : Function.Injective Literal.ofIndex := by
  intro i j h
  unfold ofIndex at h
  split at h <;> split at h <;> cases h <;> rfl

/-- An index in range is told by its literal. -/
theorem Literal.ofIndex_toNat {i : Int} (h : isU32 i = true) :
    ofIndex i.toNat = if isI32 i then .i32 i else .u32 i.toNat := by
  have hi : (i.toNat : Int) = i := by
    simp only [isU32, Bool.and_eq_true, decide_eq_true_eq] at h
    omega
  rw [ofIndex, hi]

namespace Arena

/-- The expression given for an access. -/
def given? (a : Arena) (base : NodeId) (part : Access) : Option Expr :=
  (a.accesses.find? (·.1 == (base, part))).map (·.2)

/-- What an access yields of its base: the index of an element is a literal. -/
inductive Yields (a : Arena) (base : NodeId) : Access → NodeKind → Prop
  | member (i : Nat) : a.Yields base (.member i) (.member base i)
  | swizzle (mask : Swizzle) : a.Yields base (.swizzle mask) (.swizzle base mask)
  | index {i : Nat} {n : NodeId} {t : TypeId} :
      a.nodes[n.index]? = some ⟨t, .literal (.ofIndex i)⟩ → a.Yields base (.index i) (.index base n)

/-- Every expression given for an access is what the access yields. -/
def IsExact (a : Arena) : Prop :=
  ∀ x ∈ a.accesses, ∃ kind, a.nodes[x.2.node.index]? = some ⟨x.2.type, kind⟩ ∧
    a.Yields x.1.1 x.1.2 kind

/-- An arena that begins with the expressions of another, gives the same expressions for the same
accesses and expressions of its own for others, and stays exact. -/
structure Recalls (a a' : Arena) : Prop where
  nodes : a.nodes.toList <+: a'.nodes.toList
  given : ∀ {base part e}, a.given? base part = some e → a'.given? base part = some e
  fresh : ∀ x ∈ a'.accesses, x ∈ a.accesses ∨ a.nodes.size ≤ x.2.node.index
  exact : a.IsExact → a'.IsExact

variable {a a' a'' : Arena} {base : NodeId} {part : Access} {kind : NodeKind}

/-- An access yields the same in an arena with more expressions. -/
theorem Yields.of_starts (hnodes : a.nodes.toList <+: a'.nodes.toList)
    (h : a.Yields base part kind) : a'.Yields base part kind := by
  cases h with
  | member i => exact .member i
  | swizzle mask => exact .swizzle mask
  | index hn => exact .index (getElem?_of_starts hnodes hn)

/-- What an access yields tells the access. -/
theorem Yields.unique {base' : NodeId} {part' : Access} (h : a.Yields base part kind)
    (h' : a.Yields base' part' kind) : base' = base ∧ part' = part := by
  cases h with
  | member i =>
      cases h'
      exact ⟨rfl, rfl⟩
  | swizzle mask =>
      cases h'
      exact ⟨rfl, rfl⟩
  | @index i n t hn =>
      cases h' with
      | @index i' _ t' hn' =>
          obtain ⟨-, hliteral⟩ := Node.mk.inj (Option.some.inj (hn'.symm.trans hn))
          exact ⟨rfl, congrArg _ (Literal.ofIndex_injective (NodeKind.literal.inj hliteral))⟩

/-- Expressions are recorded, and no access. -/
theorem recalls_of_starts (hnodes : a.nodes.toList <+: a'.nodes.toList)
    (haccesses : a'.accesses = a.accesses) : a.Recalls a' where
  nodes := hnodes
  given h := by rwa [given?, haccesses]
  fresh x hx := Or.inl (haccesses ▸ hx)
  exact h x hx := by
    obtain ⟨kind, hnode, hyields⟩ := h x (haccesses ▸ hx)
    exact ⟨kind, getElem?_of_starts hnodes hnode, hyields.of_starts hnodes⟩

instance : IsPreorder Arena Recalls where
  refl a := recalls_of_starts (List.prefix_refl _) rfl
  trans a a' a'' h h' := by
    refine ⟨h.nodes.trans h'.nodes, fun hgiven => h'.given (h.given hgiven), fun x hx => ?_,
      fun hexact => h'.exact (h.exact hexact)⟩
    have hsize : a.nodes.size ≤ a'.nodes.size := by simpa using h.nodes.length_le
    rcases h'.fresh x hx with hold | hnew
    · exact h.fresh x hold
    · exact Or.inr (Nat.le_trans hsize hnew)

/-- What an access yields is recorded, and given for it from now on. -/
theorem recalls_access (hnone : a.given? base part = none) (hkind : a.Yields base part kind)
    (type : TypeId) :
    a.Recalls ⟨a.nodes.push ⟨type, kind⟩,
      ((base, part), ⟨⟨a.nodes.size⟩, type⟩) :: a.accesses⟩ := by
  have hnodes : a.nodes.toList <+: (a.nodes.push ⟨type, kind⟩).toList := by
    rw [Array.toList_push]
    exact List.prefix_append _ _
  refine ⟨hnodes, fun {base' part' e} hgiven => ?_, fun x hx => ?_, fun hexact x hx => ?_⟩
  · have hne : ((base, part) == (base', part')) = false := by
      rw [beq_eq_false_iff_ne]
      rintro heq
      obtain ⟨rfl, rfl⟩ := Prod.mk.inj heq
      rw [hnone] at hgiven
      cases hgiven
    rw [given?, List.find?_cons_of_neg (by simp [hne])]
    exact hgiven
  · rcases List.mem_cons.mp hx with rfl | hx
    · exact Or.inr (Nat.le_refl _)
    · exact Or.inl hx
  · rcases List.mem_cons.mp hx with rfl | hx
    · exact ⟨kind, by simp, hkind.of_starts hnodes⟩
    · obtain ⟨kind', hnode, hyields⟩ := hexact x hx
      exact ⟨kind', getElem?_of_starts hnodes hnode, hyields.of_starts hnodes⟩

end Arena

end WebShader
