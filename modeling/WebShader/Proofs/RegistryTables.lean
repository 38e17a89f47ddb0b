import WebShader.Proofs.ConsistentRegistries

/-!
# Tables of a registry

A registry need not be searched: tables that lead from keys to types and from names to structs, and
that are extended whenever a type is registered, give the answers of the searches through the
entries.
-/

namespace WebShader

/-- The name of the struct of an entry. -/
def TypeEntry.structName? (e : TypeEntry) : Option String :=
  match e.kind with
  | .struct s => some s.name
  | _ => none

namespace Registry

variable {name? : TypeEntry → Option String} {entries : List TypeEntry} {r : Registry}

/-! ## Tables -/

/-- A table with one more type, if it has a name. A later entry stands in front of an earlier
one. -/
def extendTable (name? : TypeEntry → Option String) (table : List (String × TypeId))
    (x : TypeEntry × Nat) : List (String × TypeId) :=
  match name? x.1 with
  | some name => (name, ⟨x.2⟩) :: table
  | none => table

/-- The table of types registered in a row. -/
def tableOf (name? : TypeEntry → Option String) (entries : List TypeEntry) :
    List (String × TypeId) :=
  entries.zipIdx.foldl (extendTable name?) []

/-- The table that leads from keys to types. -/
def byKey (r : Registry) : List (String × TypeId) := tableOf (some ·.key) r.entries.toList

/-- The table that leads from names to structs. -/
def byName (r : Registry) : List (String × TypeId) := tableOf (·.structName?) r.entries.toList

/-- The table of a longer list has one more entry. -/
theorem tableOf_concat (e : TypeEntry) :
    tableOf name? (entries ++ [e]) =
      extendTable name? (tableOf name? entries) (e, entries.length) := by
  rw [tableOf, List.zipIdx_append, List.foldl_append, tableOf]
  simp

/-- To register a type is to put it in front of the table of keys. -/
theorem byKey_push (r : Registry) (key : String) (kind : TypeKind) :
    (r.push key kind).byKey = (key, ⟨r.size⟩) :: r.byKey := by
  rw [byKey, push, Array.toList_push, tableOf_concat]
  rfl

/-- To register a struct is to put it in front of the table of names. -/
theorem byName_push (r : Registry) (key : String) (s : StructType) :
    (r.push key (.struct s)).byName = (s.name, ⟨r.size⟩) :: r.byName := by
  rw [byName, push, Array.toList_push, tableOf_concat]
  rfl

/-! ## Answers -/

/-- A table leads from a name to an entry of the name. -/
theorem exists_entry_of_lookup {name : String} {t : TypeId}
    (h : (tableOf name? entries).lookup name = some t) :
    ∃ e, entries[t.index]? = some e ∧ name? e = some name := by
  induction entries using List.reverseRecOn with
  | nil => cases h
  | append_singleton entries e ih =>
      have hold : (tableOf name? entries).lookup name = some t →
          ∃ e', (entries ++ [e])[t.index]? = some e' ∧ name? e' = some name := by
        intro h
        obtain ⟨e', he', hname⟩ := ih h
        have hlt := (List.getElem?_eq_some_iff.mp he').1
        exact ⟨e', by rw [List.getElem?_append_left hlt, he'], hname⟩
      rw [tableOf_concat, extendTable] at h
      split at h
      · rename_i name' hname'
        by_cases heq : name = name'
        · rw [← heq, List.lookup_cons_self] at h
          rw [← Option.some.inj h]
          exact ⟨e, by simp, heq ▸ hname'⟩
        · rw [List.lookup_cons, beq_false_of_ne heq] at h
          exact hold h
      · exact hold h

/-- A table leads somewhere from the name of each entry. -/
theorem exists_lookup_of_mem {name : String} {e : TypeEntry} (he : e ∈ entries)
    (hname : name? e = some name) : ∃ t, (tableOf name? entries).lookup name = some t := by
  induction entries using List.reverseRecOn with
  | nil => cases he
  | append_singleton entries e' ih =>
      rw [tableOf_concat, extendTable]
      rcases List.mem_append.mp he with he | he
      · obtain ⟨t, ht⟩ := ih he
        split
        · rename_i name' _
          by_cases heq : name = name'
          · exact ⟨_, by rw [heq, List.lookup_cons_self]⟩
          · exact ⟨t, by rw [List.lookup_cons, beq_false_of_ne heq, ht]⟩
        · exact ⟨t, ht⟩
      · rw [List.mem_singleton.mp he] at hname
        exact ⟨_, by rw [hname, List.lookup_cons_self]⟩

/-- The kind of a registered type. -/
theorem kind_eq_of_getElem? {t : TypeId} {e : TypeEntry}
    (h : r.entries.toList[t.index]? = some e) : r.kind t = e.kind := by
  rw [kind, ← Array.getElem?_toList, h]

/-- The table of keys gives the answers of the search for keys. -/
theorem Collected.byKey_eq (h : r.Collected) (key : String) :
    r.byKey.lookup key = r.withKey? key := by
  cases hlookup : r.byKey.lookup key with
  | some t =>
      obtain ⟨e, he, hkey⟩ := exists_entry_of_lookup hlookup
      have ht : t.index < r.size := by simpa [size] using (List.getElem?_eq_some_iff.mp he).1
      have hkey' : r.key t = key := by
        rw [Registry.key, ← Array.getElem?_toList, he]
        exact Option.some.inj hkey
      rw [← hkey', h.sound.withKey?_key ht]
  | none =>
      cases hfound : r.withKey? key with
      | none => rfl
      | some u =>
          obtain ⟨hu, hkey⟩ := withKey?_eq_some hfound
          have hmem : r.entries[u.index] ∈ r.entries.toList :=
            Array.mem_toList_iff.mpr (Array.getElem_mem hu)
          obtain ⟨t, ht⟩ := @exists_lookup_of_mem (some ·.key) _ _ _ hmem rfl
          rw [Registry.key, Array.getElem?_eq_getElem hu] at hkey
          rw [← hkey, byKey, ht] at hlookup
          cases hlookup

/-- The table of names gives the answers of the search for structs. -/
theorem Collected.byName_eq (h : r.Collected) (name : String) :
    r.byName.lookup name = r.structNamed? name := by
  cases hlookup : r.byName.lookup name with
  | some t =>
      obtain ⟨e, he, hname⟩ := exists_entry_of_lookup hlookup
      have hkind := kind_eq_of_getElem? he
      unfold TypeEntry.structName? at hname
      cases hk : e.kind with
      | struct s =>
          rw [hk] at hname hkind
          rw [← Option.some.inj hname, h.sound.structNamed?_name hkind]
      | void | primitive | array | pointer | texture | sampler =>
          rw [hk] at hname
          cases hname
  | none =>
      cases hfound : r.structNamed? name with
      | none => rfl
      | some u =>
          obtain ⟨s, hs, hname⟩ := exists_struct_of_structNamed? hfound
          have hu : u.index < r.size := lt_size_of_isStorable (by rw [hs]; rfl)
          have hmem : r.entries[u.index] ∈ r.entries.toList :=
            Array.mem_toList_iff.mpr (Array.getElem_mem hu)
          have hkind : r.entries[u.index].kind = .struct s := by
            rw [← hs, kind, Array.getElem?_eq_getElem hu]
          have hself : r.entries[u.index].structName? = some name := by
            rw [TypeEntry.structName?, hkind, ← hname]
          obtain ⟨t, ht⟩ := exists_lookup_of_mem hmem hself
          rw [byName, ht] at hlookup
          cases hlookup

end Registry

end WebShader
