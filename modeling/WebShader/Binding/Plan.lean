import WebShader.Builder

/-!
# Binding plans

The resources of a program are first gathered by name across its stages; a name has one type and
one role. The uniforms seen from the same stages in the same group then form one block, and each
group numbers its blocks, textures, samplers and buffers from zero on, a block standing where its
first member was declared. In WGSL each texture is followed by a sampler.
-/

namespace WebShader

namespace Binding

/-! ## Shared resources -/

/-- A resource of a program: the stages that see it, and its declaration in each. -/
structure Shared where
  name : String
  type : TypeId
  role : Role
  visibility : Visibility
  vars : List VarId

/-- The resources with one more declaration, which must agree with the earlier ones of its name. -/
def gather (r : Registry) (v : VarId) (d : Variable) :
    List Shared → Except ShaderError (List Shared)
  | [] => .ok [⟨d.name, d.type, d.role, .ofStage d.stage, [v]⟩]
  | s :: rest =>
    if s.name ≠ d.name then (gather r v d rest).map (s :: ·)
    else if s.type ≠ d.type || s.role ≠ d.role then
      .error (.declaration (.conflict d.name (r.display s.type) s.role (r.display d.type) d.role))
    else
      .ok ({ s with visibility := s.visibility.union (.ofStage d.stage), vars := s.vars ++ [v] }
        :: rest)

/-- The resources of all declarations. -/
def gatherAll (r : Registry) : List (VarId × Variable) → List Shared →
    Except ShaderError (List Shared)
  | [], found => .ok found
  | (v, d) :: rest, found => do gatherAll r rest (← gather r v d found)

/-- The declarations of the resources that the stages share, in order, each seen from the stage that
makes it. -/
def declarations (vars : Array Variable) (stages : List BuiltStage) : List (VarId × Variable) :=
  stages.flatMap fun s => s.decls.resources.filterMap fun v =>
    match vars[v.index]? with
    | some d => if d.role = .workgroup then none else some (v, { d with stage := s.decls.stage })
    | none => none

/-! ## Records -/

/-- What a binding holds. -/
inductive Content where
  | uniformBlock (type : TypeId)
  | storageBuffer (type : TypeId) (readOnly : Bool)
  | texture (type : TextureType)
  | sampler (kind : SamplerKind)
  deriving DecidableEq

/-- The texture a binding holds. -/
def Content.texture? : Content → Option TextureType
  | texture t => some t
  | _ => none

/-- The type of the uniform block a binding holds. -/
def Content.block? : Content → Option TypeId
  | uniformBlock t => some t
  | _ => none

/-- A bound resource. Its declarations are those of the members of a block; a sampler that was
generated has none, and knows the declarations of its texture. -/
structure Record where
  name : String
  group : UInt32
  index : Nat
  visibility : Visibility
  content : Content
  vars : List VarId
  texture : Option (List VarId) := none
  deriving DecidableEq

namespace Record

/-- Whether the record is the block of the uniforms of a group seen from a set of stages. -/
def isBlock (b : Record) (visibility : Visibility) (group : UInt32) : Bool :=
  b.content.block?.isSome && b.visibility == visibility && b.group == group

/-- Whether the record was generated. -/
def isGenerated (b : Record) : Bool := b.texture.isSome

/-- Whether a record comes before another in the order of groups and indices, or is level. -/
def precedes (a b : Record) : Bool :=
  a.group < b.group || (a.group == b.group && a.index ≤ b.index)

end Record

/-! ## Plans -/

/-- The declarations of the texture a generated sampler is for. -/
def Record.textureVars (b : Record) : List VarId := b.texture.getD []

/-- A table of places leads from declarations to records that know them, and leads to a record from
each declaration that some record knows. -/
structure Locates (table : List (VarId × Nat)) (records : List Record)
    (known : Record → List VarId) : Prop where
  leads : ∀ v i, table.lookup v = some i → ∃ b, records[i]? = some b ∧ v ∈ known b
  finds : ∀ b ∈ records, ∀ v ∈ known b, ∃ i, table.lookup v = some i

/-- A table leads from all of some declarations to a place. -/
theorem lookup_map_pair (vars : List VarId) (v : VarId) (i : Nat) :
    (vars.map fun u => (u, i)).lookup v = if v ∈ vars then some i else none := by
  induction vars with
  | nil => rfl
  | cons u rest ih =>
      rw [List.map_cons, List.lookup_cons, ih]
      by_cases h : v = u
      · simp [h]
      · simp [h, beq_false_of_ne h]

section Locates

variable {table : List (VarId × Nat)} {records : List Record} {known : Record → List VarId}

theorem Locates.nil (known : Record → List VarId) : Locates [] [] known where
  leads _ _ h := by cases h
  finds _ h := by cases h

/-- A record that is added last is found from the declarations it knows. -/
theorem Locates.add (h : Locates table records known) (b : Record) :
    Locates ((known b).map (fun v => (v, records.length)) ++ table) (records ++ [b]) known where
  leads v i hv := by
    rw [List.lookup_append, lookup_map_pair] at hv
    by_cases hb : v ∈ known b
    · rw [if_pos hb] at hv
      obtain rfl : records.length = i := by simpa using hv
      exact ⟨b, by simp, hb⟩
    · rw [if_neg hb] at hv
      obtain ⟨c, hc, hvc⟩ := h.leads v i (by simpa using hv)
      have hlt := (List.getElem?_eq_some_iff.mp hc).1
      exact ⟨c, by rw [List.getElem?_append_left hlt, hc], hvc⟩
  finds c hc v hv := by
    rw [List.lookup_append, lookup_map_pair]
    by_cases hb : v ∈ known b
    · exact ⟨records.length, by simp [hb]⟩
    · rcases List.mem_append.mp hc with hc | hc
      · obtain ⟨i, hi⟩ := h.finds c hc v hv
        exact ⟨i, by simp [hb, hi]⟩
      · rw [List.mem_singleton.mp hc] at hv
        exact absurd hv hb

/-- A record that a table leads to knows the declaration. -/
theorem Locates.mem (h : Locates table records known) {v : VarId} {b : Record}
    (hb : (table.lookup v).bind (records[·]?) = some b) : b ∈ records ∧ v ∈ known b := by
  obtain ⟨i, hi, hb⟩ := Option.bind_eq_some_iff.mp hb
  obtain ⟨c, hc, hv⟩ := h.leads v i hi
  obtain rfl : c = b := Option.some.inj (hc.symm.trans hb)
  exact ⟨List.mem_of_getElem? hc, hv⟩

/-- A table leads to the only record that knows a declaration. -/
theorem Locates.eq_some (h : Locates table records known) {v : VarId} {b : Record}
    (hb : b ∈ records) (hv : v ∈ known b) (hunique : ∀ c ∈ records, v ∈ known c → c = b) :
    (table.lookup v).bind (records[·]?) = some b := by
  obtain ⟨i, hi⟩ := h.finds b hb v hv
  obtain ⟨c, hc, hvc⟩ := h.leads v i hi
  rw [hi, Option.bind_some, hc, hunique c (List.mem_of_getElem? hc) hvc]

/-- A table leads nowhere from a declaration that no record knows. -/
theorem Locates.eq_none (h : Locates table records known) {v : VarId}
    (hv : ∀ b ∈ records, v ∉ known b) : (table.lookup v).bind (records[·]?) = none := by
  cases hb : (table.lookup v).bind (records[·]?) with
  | none => rfl
  | some b => exact absurd (h.mem hb).2 (hv b (h.mem hb).1)

end Locates

/-- With no record, the next index of every group is the first. -/
theorem lookup_nil_getD (g : UInt32) : (([] : List (UInt32 × Nat)).lookup g).getD 0 =
    ([] : List Record).countP (·.group == g) := rfl

/-- The bindings of a program, in the order they were made, with the next index of each group in
use, and the places of the records that declarations are bound to and of the samplers generated for
textures. A later entry of a table stands in front of an earlier one. -/
structure Plan where
  records : List Record := []
  next : List (UInt32 × Nat) := []
  owners : List (VarId × Nat) := []
  samplers : List (VarId × Nat) := []
  counted : ∀ g, (next.lookup g).getD 0 = records.countP (·.group == g) := by
    exact WebShader.Binding.lookup_nil_getD
  owned : Locates owners records Record.vars := by
    exact WebShader.Binding.Locates.nil WebShader.Binding.Record.vars
  sampled : Locates samplers records Record.textureVars := by
    exact WebShader.Binding.Locates.nil WebShader.Binding.Record.textureVars

namespace Plan

/-- The next index of a group. -/
def nextIndex (p : Plan) (group : UInt32) : Nat := (p.next.lookup group).getD 0

/-- The next index of a group is the number of its records. -/
theorem nextIndex_eq (p : Plan) (group : UInt32) :
    p.nextIndex group = p.records.countP (·.group == group) := p.counted group

/-- The plan with one more record, at the next index of its group. -/
def add (p : Plan) (name : String) (group : UInt32) (visibility : Visibility) (content : Content)
    (vars : List VarId) (texture : Option (List VarId) := none) : Plan :=
  let b : Record := ⟨name, group, p.nextIndex group, visibility, content, vars, texture⟩
  { records := p.records ++ [b]
    next := (group, p.nextIndex group + 1) :: p.next
    owners := b.vars.map (fun v => (v, p.records.length)) ++ p.owners
    samplers := b.textureVars.map (fun v => (v, p.records.length)) ++ p.samplers
    counted := fun g => by
      rw [List.lookup_cons, List.countP_append, ← p.counted g]
      by_cases h : g = group
      · subst h
        simp [b, nextIndex]
      · simp [b, beq_false_of_ne h, Ne.symm h]
    owned := p.owned.add b
    sampled := p.sampled.add b }

/-- The record a declaration is bound to. -/
def recordOf? (p : Plan) (v : VarId) : Option Record :=
  (p.owners.lookup v).bind (p.records[·]?)

/-- The generated sampler of a texture. -/
def samplerOf? (p : Plan) (texture : VarId) : Option Record :=
  (p.samplers.lookup texture).bind (p.records[·]?)

/-- The names of the generated samplers. -/
def generatedSamplers (p : Plan) : List String := (p.records.filter (·.isGenerated)).map (·.name)

/-- Put a record in front of the first one it precedes. -/
def insertSorted (a : Record) : List Record → List Record
  | [] => [a]
  | b :: rest => if a.precedes b then a :: b :: rest else b :: insertSorted a rest

/-- The records a stage sees, in the order of groups and indices. -/
def visibleFrom (p : Plan) (stage : Stage) : List Record :=
  (p.records.filter (·.visibility.has stage)).foldr insertSorted []

end Plan

/-! ## Numbering -/

/-- The members of the block of the uniforms of a group seen from a set of stages. -/
def blockMembers (all : List Shared) (visibility : Visibility) (group : UInt32) : List Shared :=
  all.filter fun s => s.role == .uniform group && s.visibility == visibility

/-- The part of the names of a block that tells it from the other blocks. -/
def blockSuffix (visibility : Visibility) (group : UInt32) : String :=
  visibility.shortName ++ "_" ++ toString group.toNat

/-- Bind the block that a uniform belongs to, if it is not bound yet. -/
def bindUniform (all : List Shared) (p : Plan) (s : Shared) (group : UInt32) : Interning Plan := do
  if p.records.any (·.isBlock s.visibility group) then return p
  let members := blockMembers all s.visibility group
  let suffix := blockSuffix s.visibility group
  let type ← Interning.struct (some ("UBlock_" ++ suffix)) .std140
    (members.map fun m => ⟨m.name, m.type⟩)
  return p.add ("ublock_" ++ suffix) group s.visibility (.uniformBlock type)
    (members.flatMap (·.vars))

/-- Bind a texture and, in WGSL, the sampler it is paired with. -/
def bindTexture (target : Target) (all : List Shared) (p : Plan) (s : Shared) (group : UInt32) :
    Interning Plan := do
  match (← get).texture? s.type with
  | none => throw (.internal (.textureType s.name))
  | some t =>
    let p := p.add s.name group s.visibility (.texture t) s.vars
    if target ≠ .webGPU then return p
    let sampler := s.name ++ "_sampler"
    if all.any (·.name == sampler) then throw (.declaration (.samplerClash sampler s.name))
    return p.add sampler group s.visibility (.sampler (.pairedWith t)) [] (some s.vars)

/-- Bind a resource. -/
def bind (target : Target) (all : List Shared) (p : Plan) (s : Shared) : Interning Plan := do
  match s.role with
  | .uniform group => bindUniform all p s group
  | .texture group => bindTexture target all p s group
  | .sampler group =>
    match (← get).kind s.type with
    | .sampler kind => return p.add s.name group s.visibility (.sampler kind) s.vars
    | _ => throw (.internal (.samplerType s.name))
  | .storage group readOnly =>
    return p.add s.name group s.visibility (.storageBuffer s.type readOnly) s.vars
  | role => throw (.internal (.notBindable s.name role))

/-- Bind the resources in order. -/
def bindAll (target : Target) (all : List Shared) : List Shared → Plan → Interning Plan
  | [], p => return p
  | s :: rest, p => do bindAll target all rest (← bind target all p s)

/-- The bindings of a program made of stages. The types of the blocks are registered. -/
def plan (target : Target) (vars : Array Variable) (stages : List BuiltStage) :
    Interning Plan := do
  let shared ← gatherAll (← get) (declarations vars stages) []
  bindAll target shared shared {}

/-! ## Orders -/

theorem nextIndex_add (p : Plan) (name : String) (group : UInt32) (visibility : Visibility)
    (content : Content) (vars : List VarId) (texture : Option (List VarId)) :
    (p.add name group visibility content vars texture).nextIndex group = p.nextIndex group + 1 := by
  simp [Plan.nextIndex, Plan.add]

theorem mem_insertSorted {a b : Record} {l : List Record} :
    b ∈ Plan.insertSorted a l ↔ b = a ∨ b ∈ l := by
  induction l with
  | nil => simp [Plan.insertSorted]
  | cons c rest ih =>
    unfold Plan.insertSorted
    split
    · simp
    · simp [ih, or_left_comm]

theorem mem_foldr_insertSorted {b : Record} {l : List Record} :
    b ∈ l.foldr Plan.insertSorted [] ↔ b ∈ l := by
  induction l with
  | nil => simp
  | cons c rest ih => simp [mem_insertSorted, ih]

theorem mem_visibleFrom {p : Plan} {stage : Stage} {b : Record} :
    b ∈ p.visibleFrom stage ↔ b ∈ p.records ∧ b.visibility.has stage = true := by
  simp [Plan.visibleFrom, mem_foldr_insertSorted]

end Binding

end WebShader
