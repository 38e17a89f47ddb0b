import WebShader.Proofs.TypedExpressions

/-!
# Assigned memory

Where members, elements and swizzles lead back to: a variable, a built-in variable or what a pointer
points to. An assignment only reaches what can be written to, as far as variables go, and the
address of a variable points into memory that can be written to. The pointers themselves are not
asked where they point to.
-/

namespace WebShader

/-! ## Origins -/

/-- What an expression is a part of. -/
inductive Origin where
  | var (d : Variable)
  | builtin (x : Builtin)
  | pointee (space : AddressSpace)

/-- Whether assignments reach the parts, whatever memory a pointer points into. -/
def Origin.isWritable : Origin → Bool
  | var d => d.role.isWritable
  | builtin x => x.isOutput
  | pointee _ => true

namespace Builder

/-- Members, elements and swizzles lead from the expression back to the origin. -/
inductive IsPartOf (b : Builder) : NodeId → Origin → Prop
  | var {n : NodeId} {t : TypeId} {v : VarId} {d : Variable} :
      b.node? n = some ⟨t, .var v⟩ → b.var? v = some d → b.IsPartOf n (.var d)
  | builtin {n : NodeId} {t : TypeId} {x : Builtin} :
      b.node? n = some ⟨t, .builtin x⟩ → b.IsPartOf n (.builtin x)
  | pointee {n pointer : NodeId} {t u : TypeId} {space : AddressSpace} :
      b.node? n = some ⟨t, .deref pointer⟩ → b.typeOf? pointer = some u →
      b.types.kind u = .pointer t space → b.IsPartOf n (.pointee space)
  | member {n base : NodeId} {t : TypeId} {i : Nat} {o : Origin} :
      b.node? n = some ⟨t, .member base i⟩ → b.IsPartOf base o → b.IsPartOf n o
  | swizzle {n base : NodeId} {t : TypeId} {mask : Swizzle} {o : Origin} :
      b.node? n = some ⟨t, .swizzle base mask⟩ → b.IsPartOf base o → b.IsPartOf n o
  | index {n base i : NodeId} {t : TypeId} {o : Origin} :
      b.node? n = some ⟨t, .index base i⟩ → b.IsPartOf base o → b.IsPartOf n o

variable {b : Builder} {callees : Callees}

/-- An expression is a part of one origin. -/
theorem IsPartOf.unique {n : NodeId} {o o' : Origin} (h : b.IsPartOf n o) (h' : b.IsPartOf n o') :
    o' = o := by
  induction h with
  | var hn hv =>
      cases h' <;> simp_all
  | builtin hn =>
      cases h' <;> simp_all
  | pointee hn hu hk =>
      cases h' <;> simp_all
  | member hn _ ih | swizzle hn _ ih | index hn _ ih =>
      cases h' <;> simp_all

/-- The variable that an address is taken of is where the expression leads back to. -/
theorem isPartOf_of_root? {n : NodeId} {v : VarId} {d : Variable} (hv : b.var? v = some d)
    (h : b.root? n = some v) : b.IsPartOf n (.var d) := by
  rw [root?] at h
  split at h
  · rename_i t w hn
    rw [Option.some.inj h] at hn
    exact .var hn hv
  · rename_i base i hn
    split at h
    · exact .member hn (isPartOf_of_root? hv h)
    · cases h
  · rename_i base mask hn
    split at h
    · exact .swizzle hn (isPartOf_of_root? hv h)
    · cases h
  · rename_i base i hn
    split at h
    · exact .index hn (isPartOf_of_root? hv h)
    · cases h
  · cases h
termination_by n.index

/-- What may be assigned to leads back to something that can be written to. -/
theorem Typed.isPartOf_of_checkPlace (hb : b.Typed callees) {n : NodeId}
    (h : b.checkPlace n = .ok ()) :
    ∃ o, b.IsPartOf n o ∧ o.isWritable = true := by
  rw [checkPlace] at h
  cases hn : b.node? n with
  | none =>
      rw [hn] at h
      cases h
  | some node =>
      obtain ⟨t, kind⟩ := node
      have hdictated := hb.dictated n _ hn
      have hdown := hb.descends n _ hn
      rw [hn] at h
      cases kind with
      | var v =>
          dsimp only at h
          cases hv : b.var? v with
          | none =>
              rw [hv] at h
              cases h
          | some d =>
              rw [hv] at h
              dsimp only at h
              unfold checkVarPlace at h
              split at h
              · exact ⟨.var d, .var hn hv, ‹_›⟩
              · split at h <;> cases h
      | builtin x =>
          dsimp only at h
          split at h
          · exact ⟨.builtin x, .builtin hn, ‹_›⟩
          · cases h
      | deref pointer =>
          -- the check ends here, whatever the space of the pointer
          cases hdictated with
          | @deref _ u _ space hu hk => exact ⟨.pointee space, .pointee hn hu hk, rfl⟩
      | member base i =>
          have hlt := hdown base List.mem_cons_self
          dsimp only at h
          rw [if_pos hlt] at h
          obtain ⟨o, ho, hwritable⟩ := hb.isPartOf_of_checkPlace h
          exact ⟨o, .member hn ho, hwritable⟩
      | index base i =>
          have hlt := hdown base List.mem_cons_self
          dsimp only at h
          rw [if_pos hlt] at h
          obtain ⟨o, ho, hwritable⟩ := hb.isPartOf_of_checkPlace h
          exact ⟨o, .index hn ho, hwritable⟩
      | swizzle base mask =>
          have hlt := hdown base List.mem_cons_self
          dsimp only at h
          rw [if_pos hlt] at h
          split at h
          · cases h
          · obtain ⟨o, ho, hwritable⟩ := hb.isPartOf_of_checkPlace h
            exact ⟨o, .swizzle hn ho, hwritable⟩
      | literal | unary | binary | construct | call | intrinsic | addressOf => cases h
termination_by n.index

end Builder

/-! ## Assignments -/

namespace Build

variable {b b' : Builder} {callees : Callees} {α : Type}

/-- What follows a check of a place only runs if the place passes. -/
theorem checkPlace_of_run {n : NodeId} {f : Unit → Build α} {a : α}
    (h : b.run (liftM (b.checkPlace n) >>= f) = (.ok a, b')) : b.checkPlace n = .ok () := by
  rw [Builder.run_bind, Builder.run_liftM] at h
  cases hplace : b.checkPlace n with
  | error e =>
      rw [hplace] at h
      cases (Prod.mk.inj h).1
  | ok _ => rfl

/-- An assignment that succeeds has checked its target. -/
theorem checkPlace_of_assign {target : Expr} {value : Value}
    (h : b.run (assign target value) = (.ok (), b')) : b.checkPlace target.node = .ok () := by
  unfold assign at h
  rw [Builder.run_bind, Builder.run_get] at h
  exact checkPlace_of_run h

/-- An assignment with an operator has checked its target if it succeeds. -/
theorem checkPlace_of_assignOp {target : Expr} {op : BinaryOp} {value : Value}
    (h : b.run (assignOp target op value) = (.ok (), b')) :
    b.checkPlace target.node = .ok () := by
  unfold assignOp at h
  extract_lets rest at h
  split at h
  · rw [Builder.run_bind, Builder.run_throw] at h
    cases (Prod.mk.inj h).1
  · simp only [rest] at h
    rw [Builder.run_bind, Builder.run_get] at h
    exact checkPlace_of_run h

/-- Every assignment that is recorded, plain or compound, reaches a part of a local variable, of a
variable of the workgroup, of an output or of a buffer that is not read-only, of a built-in output,
or of what a pointer points to; and no part of anything else. -/
theorem isPartOf_of_assignment (hb : b.Typed callees) {target : Expr} {value : Value}
    (h : b.run (assign target value) = (.ok (), b') ∨
      ∃ op, b.run (assignOp target op value) = (.ok (), b')) :
    ∃ o, b.IsPartOf target.node o ∧ o.isWritable = true ∧
      ∀ o', b.IsPartOf target.node o' → o' = o := by
  have hplace : b.checkPlace target.node = .ok () := by
    rcases h with h | ⟨op, h⟩
    · exact checkPlace_of_assign h
    · exact checkPlace_of_assignOp h
  obtain ⟨o, ho, hwritable⟩ := hb.isPartOf_of_checkPlace hplace
  exact ⟨o, ho, hwritable, fun o' ho' => ho.unique ho'⟩

/-! ## Addresses -/

/-- Only variables that can be written have an address. -/
theorem isWritable_of_addressSpace? {role : Role} {space : AddressSpace}
    (h : addressSpace? role = some space) : role.isWritable = true ∧
      (space = .function ∨ space = .workgroup ∨ space = .storage) := by
  cases role with
  | localVar | workgroup =>
      rw [← Option.some.inj h]
      exact ⟨rfl, by simp⟩
  | storage g readOnly =>
      cases readOnly with
      | true => cases h
      | false =>
          rw [← Option.some.inj h]
          exact ⟨rfl, by simp⟩
  | param | constant | uniform | texture | sampler | input | output => cases h

/-- An address points into the memory of a variable that can be written to, which the expression is
a part of. -/
theorem ensures_addressOf_space (hb : b.Typed callees) {place : Expr} (hplace : b.Carries place) :
    (addressOf place).Ensures callees b fun e b' => ∃ d space,
      b.IsPartOf place.node (.var d) ∧ d.role.isWritable = true ∧
        (space = .function ∨ space = .workgroup ∨ space = .storage) ∧
          b'.types.kind e.type = .pointer place.type space := by
  refine .reads_bind hb (reads_require _) fun _ _ => .get_bind ?_
  split
  · exact .throw hb _
  · rename_i d hd
    obtain ⟨v, hroot, hv⟩ := Option.bind_eq_some_iff.mp hd
    split
    · exact .throw hb _
    · rename_i space hspace
      obtain ⟨hwritable, hspaces⟩ := isWritable_of_addressSpace? hspace
      have hpointer := ensures_intern hb (Interning.ensures_pointer hb.sound place.type space)
      refine hpointer.bind fun t b₁ hext hb₁ ht => ?_
      have hkind := Interning.Gives.kind_eq ht (by simp)
      refine (ensures_pushNode hb₁ (.addressOf (hext.typeOf? hplace) hkind)).mono ?_
      rintro e b₂ hext₂ ⟨-, rfl⟩
      exact ⟨d, space, Builder.isPartOf_of_root? hv hroot, hwritable, hspaces,
        Registry.kind_of_le hext₂.types hkind (by simp)⟩

end Build

end WebShader
