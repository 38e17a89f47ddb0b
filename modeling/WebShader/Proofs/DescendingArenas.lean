import WebShader.Proofs.ExpressionFaults
import WebShader.Proofs.TypedScripts
import WebShader.Proofs.UncheckedTraversals

/-!
# Arenas descend

The expressions and the types of a builder are made of earlier ones, whatever has happened in its
session. So every traversal of them ends and finds all that it asks for, and gives the same whether
it checks that it goes down or not.
-/

namespace WebShader

/-! ## Arenas -/

/-- The operands of every expression, and the parts of every type, exist and come before it. -/
structure Builder.Descends (b : Builder) : Prop where
  operands : ∀ n node, b.node? n = some node → ∀ m ∈ node.kind.operands,
    m.index < n.index ∧ ∃ operand, b.node? m = some operand
  parts : ∀ t entry, Unchecked.entry b.types t = some entry → ∀ part ∈ entry.kind.parts,
    part.index < t.index ∧ ∃ entry', Unchecked.entry b.types part = some entry'

/-- Each traversal of the types of a registry gives without checks what it gives with them: it goes
down no further than the index of the type that it starts from, and finds all types that it asks
for. -/
structure Registry.IsTraversed (r : Registry) : Prop where
  display : ∀ t depth, t.index < r.size → t.index < depth →
    Unchecked.display r depth t = some (r.display t)
  isRuntimeSized : ∀ t depth, t.index < r.size → t.index < depth →
    Unchecked.isRuntimeSized r depth t = some (r.isRuntimeSized t)
  extent : ∀ t policy depth, t.index < r.size → t.index < depth →
    (Unchecked.extent r policy depth t).run = some (r.extent t policy)
  addStructs : ∀ t found depth, t.index < r.size → t.index < depth →
    Unchecked.addStructs r depth found t = some (r.addStructs found t)
  std140 : ∀ t depth, t.index < r.size → t.index < depth →
    r.runUnchecked (Unchecked.std140 depth t) = some (r.run (Interning.std140 t))

/-- Each traversal of the expressions of a builder gives without checks what it gives with them: it
goes down no further than the index of the expression that it starts from, and finds all expressions
and variables that it asks for. The types of the expressions visited are those of the tree, and
writing the tree finds all variables too. -/
structure Builder.IsTraversed (b : Builder) : Prop where
  root : ∀ n depth, n.index < b.nodes.size → n.index < depth →
    Unchecked.root b depth n = some (b.root? n)
  checkPlace : ∀ n depth, n.index < b.nodes.size → n.index < depth →
    (Unchecked.checkPlace b depth n).run = some (b.checkPlace n)
  isConstant : ∀ n depth, n.index < b.nodes.size → n.index < depth →
    Unchecked.isConstant b depth n = some (b.isConstant n)
  visit : ∀ n depth, n.index < b.nodes.size → n.index < depth →
    ∃ ids e, Unchecked.visit b depth n = some ids ∧ b.term n = .ok e ∧
      ids.map b.typeOf? = e.types.map some
  write : ∀ n depth, n.index < b.nodes.size → n.index < depth →
    ∃ e, Unchecked.term b depth n = some e ∧ b.term n = .ok e ∧
      ∀ s : ResolvedStage, s.vars = b.vars → Finds (Glsl.expr s e) ∧ Finds (Wgsl.expr s e)

/-- The parts of a type are registered before it. -/
theorem Registry.WellFormed.parts_exist {r : Registry} (hr : r.WellFormed) {t : TypeId}
    {entry : TypeEntry} (hentry : Unchecked.entry r t = some entry) :
    ∀ part ∈ entry.kind.parts,
      part.index < t.index ∧ ∃ entry', Unchecked.entry r part = some entry' := by
  intro part hpart
  have ht : t.index < r.size := (Array.getElem?_eq_some_iff.mp hentry).1
  obtain ⟨entry', hentry', hkind, -⟩ := Unchecked.entry_of_lt_size ht
  obtain rfl := Option.some.inj (hentry'.symm.trans hentry)
  rw [hkind] at hpart
  obtain ⟨e, he, -⟩ := Unchecked.entry_of_lt_size (hr.part_lt_size hpart)
  exact ⟨hr t part hpart, e, he⟩

/-- A sound registry can be gone through without checks. -/
theorem Registry.Sound.isTraversed {r : Registry} (hr : r.Sound) : r.IsTraversed where
  display _ _ ht hdepth := Unchecked.display_eq hr.wellFormed ht hdepth
  isRuntimeSized _ _ ht hdepth := Unchecked.isRuntimeSized_eq hr.wellFormed ht hdepth
  extent _ policy _ ht hdepth := Unchecked.extent_eq hr.wellFormed policy ht hdepth
  addStructs _ found _ ht hdepth := Unchecked.addStructs_eq hr.wellFormed ht found hdepth
  std140 _ _ ht hdepth := Unchecked.std140_matches hr ht hdepth

namespace Builder

variable {b : Builder} {callees : Callees}

/-- The operands of an expression are recorded before it. -/
theorem Typed.operands_exist (hb : b.Typed callees) : b.Descends where
  operands n node hnode m hm := by
    obtain ⟨hlt, hm⟩ := Unchecked.operand_lt hb hnode hm
    exact ⟨hlt, Unchecked.exists_node_of_lt_size hm⟩
  parts _ _ hentry := hb.sound.wellFormed.parts_exist hentry

/-- The arena of a typed builder can be gone through without checks. -/
theorem Typed.isTraversed (hb : b.Typed callees) : b.IsTraversed where
  root _ _ hn hdepth := Unchecked.root_eq hb hn hdepth
  checkPlace _ _ hn hdepth := Unchecked.checkPlace_eq hb hn hdepth
  isConstant _ _ hn hdepth := Unchecked.isConstant_eq hb hn hdepth
  visit n _ hn hdepth := by
    obtain ⟨e, he⟩ := Unchecked.exists_reads hb hn hdepth
    obtain ⟨ids, hids, htypes⟩ := he.visited
    exact ⟨ids, e, hids, he.checked, htypes⟩
  write n _ hn hdepth := by
    obtain ⟨e, he⟩ := Unchecked.exists_reads hb hn hdepth
    refine ⟨e, he.unchecked, he.checked, fun s hs => ?_⟩
    have hvars : s.HasVars e.mentions := by
      intro v hv
      rw [hs]
      exact he.declared v hv
    exact ⟨(Glsl.avoids_expr e hvars.avoidsAt).finds, (Wgsl.avoids_expr e hvars.avoidsAt).finds⟩

end Builder

/-! ## Sessions -/

namespace Script

open Session

/-- In every reachable session the expressions and types of the builder are made of earlier ones,
which exist, and so all traversals of them end and find what they ask for. They may start at every
handle that the author knows. The same is true of the builder that a script leaves, whichever of its
steps fail. -/
theorem arenas_descend :
    (∀ s : Session, s.Reachable →
      s.builder.Descends ∧ s.builder.types.IsTraversed ∧ s.builder.IsTraversed ∧
        ∀ e ∈ s.known, e.node.index < s.builder.nodes.size) ∧
    ∀ (s : Session) (n : Notes), s.Reachable → s.KnowsNames n →
      ∀ (tolerant : Bool) (steps : Script) (b : Builder),
        b = (runAll tolerant steps (s.builder, n)).2.1 →
        b.Descends ∧ b.types.IsTraversed ∧ b.IsTraversed := by
  -- all is a matter of the invariant of sessions
  have htyped : ∀ {b : Builder} {callees : Callees}, b.Typed callees →
      b.Descends ∧ b.types.IsTraversed ∧ b.IsTraversed := fun hb =>
    ⟨hb.operands_exist, hb.sound.isTraversed, hb.isTraversed⟩
  constructor
  · intro s hs
    obtain ⟨hdescends, htypes, htraversed⟩ := htyped hs.typed.builder
    refine ⟨hdescends, htypes, htraversed, fun e he => ?_⟩
    exact Builder.lt_size_of_typeOf? (hs.typed.known e he)
  · rintro s n hs hn tolerant steps b rfl
    obtain ⟨s', hs', -, hb, -⟩ := simulates_runAll tolerant steps s n hs hn
    change s'.builder = (runAll tolerant steps (s.builder, n)).2.1 at hb
    rw [← hb]
    exact htyped hs'.typed.builder

/-- A lamp as a uniform, which registers a copy of its type, and the same element of it twice. -/
def lamps : Script :=
  [(false, .compute true "lamps"
    [(false, .operation (.uniform "lamp" (.struct (some "Lamp") .packed
        [("on", .scalar .bool), ("weights", .array (.scalar .f32) 3)]) 0) none),
      (false, .main
        [(false, .operation (.member "lamp" "weights") (some "weights")),
          (false, .operation (.element "weights" (.host (.int 2))) (some "last")),
          (false, .operation (.element "weights" (.host (.int 2))) (some "again")),
          (false, .operation (.binary .mul (.named "last") (.named "again")) (some "square"))])]
    [])]

/-- What is multiplied is one expression, an element of a member of the uniform. -/
theorem lamps_descend : ∃ b : Builder,
    b = (runAll false lamps (Builder.new { target := .webGPU }, {})).2.1 ∧
    b.node? ⟨4⟩ = some ⟨⟨1⟩, .binary .mul ⟨3⟩ ⟨3⟩⟩ ∧
    b.node? ⟨3⟩ = some ⟨⟨1⟩, .index ⟨1⟩ ⟨2⟩⟩ ∧
    b.Descends ∧ b.types.IsTraversed ∧ b.IsTraversed ∧
    Unchecked.root b 4 ⟨3⟩ = some (some ⟨0⟩) := by
  have hnew : Session.Reachable { builder := .new { target := .webGPU } } := .new _
  obtain ⟨hdescends, htypes, htraversed⟩ :=
    arenas_descend.2 _ {} hnew (by simp [KnowsNames]) false lamps _ rfl
  refine ⟨_, rfl, by decide +kernel, by decide +kernel, hdescends, htypes, htraversed, ?_⟩
  rw [htraversed.root ⟨3⟩ 4 (by decide +kernel) (by decide)]
  decide +kernel

end Script

end WebShader
