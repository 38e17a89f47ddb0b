import WebShader.Proofs.ReadTrees

/-!
# Places

What can be assigned to, as a tree: parts of variables that can be written, of built-in variables
and of what pointers point to, each part of the type that its place in the whole gives it.
-/

namespace WebShader

/-- A tree that can be assigned to, given the types and the variables of a program. -/
inductive Term.IsPlace (r : Registry) (vars : Array Variable) : Term → Prop
  | var {t : TypeId} {v : VarId} {d : Variable} :
      vars[v.index]? = some d → d.role.isWritable = true → IsPlace r vars (.var t v)
  | builtin (t : TypeId) (x : Builtin) : IsPlace r vars (.builtin t x)
  | member {base : Term} {i : Nat} {s : StructType} {m : Member} :
      base.IsPlace r vars → r.kind base.type = .struct s → s.members[i]? = some m →
      IsPlace r vars (.member m.type base i)
  | swizzle {base : Term} (t : TypeId) (mask : Swizzle) :
      base.IsPlace r vars → IsPlace r vars (.swizzle t base mask)
  | element {t : TypeId} {base : Term} {length : Nat} (i : Term) :
      base.IsPlace r vars → r.kind base.type = .array t length →
      IsPlace r vars (.index t base i)
  | component {t : TypeId} {base : Term} {p : PrimitiveType} (i : Term) :
      base.IsPlace r vars → r.kind base.type = .primitive p → r.kind t = .primitive p.element →
      IsPlace r vars (.index t base i)
  | deref (t : TypeId) (pointer : Term) : IsPlace r vars (.deref t pointer)

namespace Builder

variable {b : Builder} {callees : Callees}

/-- What may be assigned to is read back as a place. -/
theorem Typed.isPlace (hb : b.Typed callees) {n : NodeId} {e : Term}
    (hplace : b.checkPlace n = .ok ()) (hterm : b.term n = .ok e) : e.IsPlace b.types b.vars := by
  obtain ⟨node, hnode, hroots, hdown⟩ := roots_of_term hterm
  have hdictated := hb.dictated n node hnode
  rw [checkPlace, hnode] at hplace
  cases hroots with
  | var t v =>
      dsimp only at hplace
      cases hv : b.var? v with
      | none =>
          rw [hv] at hplace
          cases hplace
      | some d =>
          rw [hv] at hplace
          dsimp only at hplace
          unfold checkVarPlace at hplace
          split at hplace
          · rename_i hwritable
            exact .var hv hwritable
          · split at hplace <;> cases hplace
  | builtin t x => exact .builtin t x
  | deref t hpointer => exact .deref t _
  | member t i hbase =>
      dsimp only at hplace
      have hlt := hdown _ List.mem_cons_self
      rw [if_pos hlt] at hplace
      cases hdictated with
      | member hu hs hm =>
          obtain rfl := Option.some.inj ((typeOf?_of_term hbase).symm.trans hu)
          exact .member (hb.isPlace hplace hbase) hs hm
  | swizzle t mask hbase =>
      dsimp only at hplace
      have hlt := hdown _ List.mem_cons_self
      rw [if_pos hlt] at hplace
      split at hplace
      · cases hplace
      · exact .swizzle t mask (hb.isPlace hplace hbase)
  -- an element of an array, a column of a matrix or a component of a vector
  | @index t _ _ base i hbase hi =>
      dsimp only at hplace
      have hlt := hdown _ List.mem_cons_self
      rw [if_pos hlt] at hplace
      have htype := typeOf?_of_term hbase
      have hplace' := hb.isPlace hplace hbase
      cases hdictated with
      | element hu hk =>
          obtain rfl := Option.some.inj (htype.symm.trans hu)
          exact .element i hplace' hk
      | component hp _ hk =>
          rw [primitiveOf?, htype, Option.bind_some, Registry.primitive?_eq_some_iff] at hp
          exact .component i hplace' hp hk
  | literal | unary | binary | construct | call | intrinsic | addressOf => cases hplace
termination_by n.index

end Builder

end WebShader
