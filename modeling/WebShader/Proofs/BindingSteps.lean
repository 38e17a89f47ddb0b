import Mathlib.Data.List.Pairwise
import WebShader.Proofs.Gathering
import WebShader.Proofs.Registration

/-!
# Steps of a binding plan

Binding a resource makes at most one record, followed in WGSL by the sampler of a texture. What
the records of a plan are follows by induction on the resources bound so far.
-/

namespace WebShader

open Registry (run_bind_eq_ok_iff)

namespace Binding

/-! ## Records -/

namespace Record

/-- The sampler generated for a record: in WGSL, each texture has one. -/
def sampler? (target : Target) (b : Record) : Option Record :=
  if target = .webGPU then
    b.content.texture?.map fun t =>
      { name := b.name ++ "_sampler", group := b.group, index := b.index + 1,
        visibility := b.visibility, content := .sampler (.pairedWith t), vars := [],
        texture := some b.vars }
  else none

/-- Whether a resource is bound to a record: a uniform to the block of its group seen from the
stages that see it, another resource to a record that has its name. -/
def Owns (b : Record) (s : Shared) : Prop :=
  b.texture = none ∧
    ((∃ g, s.role = .uniform g ∧ b.isBlock s.visibility g = true) ∨
      (s.role.isUniform = false ∧ b.content.block? = none ∧ b.name = s.name))

variable {target : Target} {b c : Record} {s : Shared}

/-- The block of a visibility and a group. -/
theorem isBlock_iff {visibility : Visibility} {g : UInt32} :
    b.isBlock visibility g = true ↔
      b.content.block?.isSome = true ∧ b.visibility = visibility ∧ b.group = g := by
  simp [isBlock, and_assoc]

/-- A sampler is generated for a texture in WGSL, at the next index. -/
theorem sampler?_eq_some (h : b.sampler? target = some c) : target = .webGPU ∧
    ∃ t, b.content = .texture t ∧
      c = ⟨b.name ++ "_sampler", b.group, b.index + 1, b.visibility,
        .sampler (.pairedWith t), [], some b.vars⟩ := by
  unfold sampler? at h
  split_ifs at h with htarget
  refine ⟨htarget, ?_⟩
  cases hb : b.content with
  | texture t =>
      rw [hb] at h
      exact ⟨t, rfl, (Option.some.inj h).symm⟩
  | uniformBlock | storageBuffer | sampler =>
      rw [hb] at h
      simp [Content.texture?] at h

/-- The sampler of a record is a generated one. -/
theorem isGenerated_of_sampler? (h : b.sampler? target = some c) : c.isGenerated = true := by
  obtain ⟨-, t, -, rfl⟩ := sampler?_eq_some h
  rfl

/-- No resource is bound to a generated sampler. -/
theorem not_owns_of_sampler? (h : b.sampler? target = some c) : ¬c.Owns s := by
  rintro ⟨htexture, -⟩
  obtain ⟨-, t, -, rfl⟩ := sampler?_eq_some h
  cases htexture

end Record

/-! ## Steps -/

/-- What a resource that has a record of its own can hold, and the group it is bound in. -/
inductive Fits (s : Shared) : UInt32 → Content → Prop
  | texture {g : UInt32} (t : TextureType) : s.role = .texture g → Fits s g (.texture t)
  | sampler {g : UInt32} (kind : SamplerKind) : s.role = .sampler g → Fits s g (.sampler kind)
  | storage {g : UInt32} {readOnly : Bool} :
      s.role = .storage g readOnly → Fits s g (.storageBuffer s.type readOnly)

/-- A record made to bind a resource, up to its index. -/
inductive Makes (all : List Shared) (s : Shared) : Record → Prop
  | block {g : UInt32} (index : Nat) (type : TypeId) : s.role = .uniform g →
      Makes all s ⟨"ublock_" ++ blockSuffix s.visibility g, g, index, s.visibility,
        .uniformBlock type, (blockMembers all s.visibility g).flatMap (·.vars), none⟩
  | own {g : UInt32} (index : Nat) {content : Content} : Fits s g content →
      Makes all s ⟨s.name, g, index, s.visibility, content, s.vars, none⟩

/-- The records made by binding resources in order. A uniform joins the block it belongs to if
there is one already; else a record is made, at the next index of its group. -/
inductive Built (target : Target) (all : List Shared) : List Shared → List Record → Prop
  | nil : Built target all [] []
  | joined {done : List Shared} {rs : List Record} {s : Shared} {g : UInt32} :
      Built target all done rs → s.role = .uniform g →
        rs.any (·.isBlock s.visibility g) = true → Built target all (done ++ [s]) rs
  | made {done : List Shared} {rs : List Record} {s : Shared} {b : Record} :
      Built target all done rs → Makes all s b →
        (∀ g, s.role = .uniform g → rs.any (·.isBlock s.visibility g) = false) →
        b.index = rs.countP (·.group == b.group) →
        (∀ c, b.sampler? target = some c → ∀ s' ∈ all, s'.name ≠ c.name) →
        Built target all (done ++ [s]) (rs ++ b :: (b.sampler? target).toList)

section Steps

variable {target : Target} {all done : List Shared} {s : Shared} {p p' : Plan}
  {r r' : Registry}

/-- What is bound on its own is no block. -/
theorem Fits.block? {g : UInt32} {content : Content} (h : Fits s g content) :
    content.block? = none := by
  cases h <;> rfl

/-- What is bound on its own is no uniform. -/
theorem Fits.isUniform {g : UInt32} {content : Content} (h : Fits s g content) :
    s.role.isUniform = false := by
  cases h with
  | texture t hrole | sampler kind hrole | storage hrole => rw [hrole]; rfl

/-- What is bound on its own is no uniform of any group. -/
theorem Fits.role_ne {g : UInt32} {content : Content} (h : Fits s g content) (g' : UInt32) :
    s.role ≠ .uniform g' := by
  intro hrole
  have huniform := h.isUniform
  rw [hrole] at huniform
  cases huniform

/-- A record of its own that has no generated sampler. -/
theorem Built.made_own (hbuilt : Built target all done p.records) {g : UInt32}
    {content : Content} (hfits : Fits s g content)
    (hsampler : target = .webGPU → content.texture? = none) :
    Built target all (done ++ [s]) (p.add s.name g s.visibility content s.vars).records := by
  have hnone : Record.sampler? target
      ⟨s.name, g, p.nextIndex g, s.visibility, content, s.vars, none⟩ = none := by
    unfold Record.sampler?
    split_ifs with htarget
    · rw [hsampler htarget]
      rfl
    · rfl
  have hmade := hbuilt.made (.own (p.nextIndex g) hfits)
    (fun g' hrole => absurd hrole (hfits.role_ne g')) (p.nextIndex_eq g) (by rw [hnone]; simp)
  rw [hnone] at hmade
  exact hmade

/-- A uniform joins the block of its part, or makes it. -/
theorem built_bindUniform (hbuilt : Built target all done p.records) {g : UInt32}
    (hrole : s.role = .uniform g) (h : r.run (bindUniform all p s g) = (.ok p', r')) :
    Built target all (done ++ [s]) p'.records := by
  unfold bindUniform at h
  by_cases hany : p.records.any (·.isBlock s.visibility g) = true
  · rw [if_pos hany] at h
    obtain ⟨hp, -⟩ := Prod.mk.inj h
    rw [← Except.ok.inj hp]
    exact hbuilt.joined hrole hany
  · rw [if_neg hany] at h
    obtain ⟨type, r₁, -, hadd⟩ := run_bind_eq_ok_iff.mp h
    obtain ⟨hp, -⟩ := Prod.mk.inj hadd
    rw [← Except.ok.inj hp]
    have hmakes : Makes all s _ := .block (p.nextIndex g) type hrole
    have hnone : Record.sampler? target
        ⟨"ublock_" ++ blockSuffix s.visibility g, g, p.nextIndex g, s.visibility,
          .uniformBlock type, (blockMembers all s.visibility g).flatMap (·.vars), none⟩ = none := by
      simp [Record.sampler?, Content.texture?]
    have hmade := hbuilt.made hmakes
      (fun g' hrole' => by
        rw [hrole] at hrole'
        obtain rfl := Role.uniform.inj hrole'
        simpa using hany) (p.nextIndex_eq g) (by rw [hnone]; simp)
    rw [hnone] at hmade
    exact hmade

/-- A texture is bound with its generated sampler behind it. -/
theorem built_bindTexture (hbuilt : Built target all done p.records) {g : UInt32}
    (hrole : s.role = .texture g) (h : r.run (bindTexture target all p s g) = (.ok p', r')) :
    Built target all (done ++ [s]) p'.records := by
  unfold bindTexture at h
  obtain ⟨r₁, r₂, hget, h⟩ := run_bind_eq_ok_iff.mp h
  obtain ⟨hr₁, rfl⟩ := Prod.mk.inj hget
  obtain rfl := Except.ok.inj hr₁
  cases ht : r.texture? s.type with
  | none =>
      rw [ht] at h
      exact absurd (Prod.mk.inj h).1 (by simp)
  | some t =>
      rw [ht] at h
      dsimp only at h
      have hfits : Fits s g (.texture t) := .texture t hrole
      -- a sampler follows the texture in WGSL only
      by_cases htarget : target = .webGPU
      · rw [if_neg (not_not.mpr htarget)] at h
        by_cases hclash : (all.any fun s' => s'.name == s.name ++ "_sampler") = true
        · rw [if_pos hclash] at h
          exact absurd (Prod.mk.inj h).1 (by simp)
        · rw [if_neg hclash] at h
          obtain ⟨hp, -⟩ := Prod.mk.inj h
          rw [← Except.ok.inj hp]
          have hsampler : Record.sampler? target
              ⟨s.name, g, p.nextIndex g, s.visibility, .texture t, s.vars, none⟩ =
                some ⟨s.name ++ "_sampler", g, p.nextIndex g + 1, s.visibility,
                  .sampler (.pairedWith t), [], some s.vars⟩ := by
            rw [Record.sampler?, if_pos htarget]
            rfl
          have hmade := hbuilt.made (.own (p.nextIndex g) hfits)
            (fun g' hrole' => absurd hrole' (hfits.role_ne g')) (p.nextIndex_eq g)
            (by
              intro c hc s' hs' hname
              rw [hsampler] at hc
              rw [← Option.some.inj hc] at hname
              exact hclash (List.any_eq_true.mpr ⟨s', hs', by simpa using hname⟩))
          rw [hsampler] at hmade
          -- the second index is the one after the first
          show Built target all _ (p.records ++ [_] ++ [_])
          rw [nextIndex_add, List.append_assoc]
          exact hmade
      · rw [if_pos htarget] at h
        obtain ⟨hp, -⟩ := Prod.mk.inj h
        rw [← Except.ok.inj hp]
        exact hbuilt.made_own hfits fun h => absurd h htarget

/-- Binding one more resource makes the records it should. -/
theorem built_bind (hbuilt : Built target all done p.records)
    (h : r.run (bind target all p s) = (.ok p', r')) :
    Built target all (done ++ [s]) p'.records := by
  unfold bind at h
  cases hrole : s.role with
  | uniform g =>
      rw [hrole] at h
      exact built_bindUniform hbuilt hrole h
  | texture g =>
      rw [hrole] at h
      exact built_bindTexture hbuilt hrole h
  | sampler g =>
      rw [hrole] at h
      obtain ⟨r₁, r₂, hget, h⟩ := run_bind_eq_ok_iff.mp h
      obtain ⟨hr₁, rfl⟩ := Prod.mk.inj hget
      obtain rfl := Except.ok.inj hr₁
      cases hk : r.kind s.type with
      | sampler kind =>
          rw [hk] at h
          obtain ⟨hp, -⟩ := Prod.mk.inj h
          rw [← Except.ok.inj hp]
          exact hbuilt.made_own (.sampler kind hrole) fun _ => rfl
      | void | primitive | array | struct | pointer | texture =>
          rw [hk] at h
          exact absurd (Prod.mk.inj h).1 (by simp)
  | storage g readOnly =>
      rw [hrole] at h
      obtain ⟨hp, -⟩ := Prod.mk.inj h
      rw [← Except.ok.inj hp]
      exact hbuilt.made_own (.storage hrole) fun _ => rfl
  | localVar | param | constant | workgroup | input | output =>
      rw [hrole] at h
      exact absurd (Prod.mk.inj h).1 (by simp)

/-- Declarations are bound one after the other. -/
theorem built_bindAll {rest : List Shared} (hbuilt : Built target all done p.records)
    (h : r.run (bindAll target all rest p) = (.ok p', r')) :
    Built target all (done ++ rest) p'.records := by
  induction rest generalizing r p done with
  | nil =>
      obtain ⟨hp, -⟩ := Prod.mk.inj h
      rw [List.append_nil, ← Except.ok.inj hp]
      exact hbuilt
  | cons s rest ih =>
      rw [bindAll] at h
      obtain ⟨p₁, r₁, hone, hrest⟩ := run_bind_eq_ok_iff.mp h
      rw [List.append_cons]
      exact ih (built_bind hbuilt hone) hrest

/-- A plan binds the gathered resources in order. -/
theorem plan_eq_ok {vars : Array Variable} {stages : List BuiltStage}
    (h : r.run (plan target vars stages) = (.ok p, r')) :
    ∃ all, Gathers (declarations vars stages) all ∧
      r.run (bindAll target all all {}) = (.ok p, r') := by
  unfold plan at h
  obtain ⟨r₁, r₂, hget, h⟩ := run_bind_eq_ok_iff.mp h
  obtain ⟨hr₁, rfl⟩ := Prod.mk.inj hget
  obtain rfl := Except.ok.inj hr₁
  obtain ⟨all, r₃, hgather, h⟩ := run_bind_eq_ok_iff.mp h
  rw [Registry.run_liftM] at hgather
  obtain ⟨hall, rfl⟩ := Prod.mk.inj hgather
  exact ⟨all, gathers_gatherAll hall, h⟩

end Steps

/-! ## Owners -/

section Owners

variable {target : Target} {all done : List Shared} {rs : List Record} {s s' : Shared}
  {b c : Record} {v : VarId}

/-- What is made for a declaration is no generated sampler. -/
theorem Makes.texture (h : Makes all s b) : b.texture = none := by
  cases h <;> rfl

/-- A resource is bound to the record made for it. -/
theorem Makes.owns (h : Makes all s b) : b.Owns s := by
  refine ⟨h.texture, ?_⟩
  cases h with
  | block index type hrole => exact Or.inl ⟨_, hrole, by simp [Record.isBlock_iff, Content.block?]⟩
  | own index hfits => exact Or.inr ⟨hfits.isUniform, hfits.block?, rfl⟩

/-- A record comes from a resource: it was made for it, or generated for a record made for it. -/
theorem Built.origin (h : Built target all done rs) (hc : c ∈ rs) :
    (∃ s ∈ done, Makes all s c) ∨ ∃ s ∈ done, ∃ b ∈ rs, Makes all s b ∧
      b.sampler? target = some c ∧ ∀ s' ∈ all, s'.name ≠ c.name := by
  induction h with
  | nil => cases hc
  | joined _ _ _ ih =>
      rcases ih hc with ⟨s, hs, hmakes⟩ | ⟨s, hs, b, hb, hrest⟩
      · exact Or.inl ⟨s, List.mem_append_left _ hs, hmakes⟩
      · exact Or.inr ⟨s, List.mem_append_left _ hs, b, hb, hrest⟩
  | made _ hmakes _ _ hsampler ih =>
      rcases List.mem_append.mp hc with hc | hc
      · rcases ih hc with ⟨s, hs, hmakes⟩ | ⟨s, hs, b, hb, hrest⟩
        · exact Or.inl ⟨s, List.mem_append_left _ hs, hmakes⟩
        · exact Or.inr ⟨s, List.mem_append_left _ hs, b, List.mem_append_left _ hb, hrest⟩
      · rcases List.mem_cons.mp hc with rfl | hc
        · exact Or.inl ⟨_, by simp, hmakes⟩
        · have hc := Option.mem_toList.mp hc
          exact Or.inr ⟨_, by simp, _, by simp, hmakes, hc, hsampler c hc⟩

/-- A block was not generated. -/
theorem Built.texture_of_block (h : Built target all done rs) (hb : b ∈ rs)
    (hblock : b.content.block?.isSome = true) : b.texture = none := by
  rcases h.origin hb with ⟨_, -, hmakes⟩ | ⟨_, -, _, -, -, hsampler, -⟩
  · exact hmakes.texture
  · obtain ⟨-, t, -, rfl⟩ := Record.sampler?_eq_some hsampler
    cases hblock

/-- Every resource that has been bound is bound to a record. -/
theorem Built.exists_owner (h : Built target all done rs) (hs : s ∈ done) :
    ∃ b ∈ rs, b.Owns s := by
  induction h with
  | nil => cases hs
  | joined hbuilt hrole hany ih =>
      rcases List.mem_append.mp hs with hs | hs
      · exact ih hs
      · obtain ⟨b, hb, hblock⟩ := List.any_eq_true.mp hany
        rw [List.mem_singleton.mp hs]
        exact ⟨b, hb, hbuilt.texture_of_block hb (Record.isBlock_iff.mp hblock).1,
          Or.inl ⟨_, hrole, hblock⟩⟩
  | made _ hmakes _ _ _ ih =>
      rcases List.mem_append.mp hs with hs | hs
      · obtain ⟨b, hb, howns⟩ := ih hs
        exact ⟨b, List.mem_append_left _ hb, howns⟩
      · rw [List.mem_singleton.mp hs]
        exact ⟨_, by simp, hmakes.owns⟩

/-- A record of its own has the name of a resource that has been bound. -/
theorem Built.name_mem (h : Built target all done rs) (hb : b ∈ rs) (howns : b.Owns s)
    (huniform : s.role.isUniform = false) : s.name ∈ done.map (·.name) := by
  have hown : b.content.block? = none ∧ b.name = s.name := by
    rcases howns.2 with ⟨g, hrole, -⟩ | ⟨-, hown⟩
    · rw [hrole] at huniform
      cases huniform
    · exact hown
  rcases h.origin hb with ⟨s', hs', hmakes⟩ | ⟨_, -, _, -, -, hsampler, -⟩
  · cases hmakes with
    | block index type hrole => cases hown.1
    | own index hfits => exact hown.2 ▸ List.mem_map_of_mem hs'
  · exact absurd howns (Record.not_owns_of_sampler? hsampler)

/-- No resource is bound to two records. -/
theorem Built.owners_disjoint (h : Built target all done rs) (hnodup : (done.map (·.name)).Nodup) :
    rs.Pairwise fun a b => ∀ s, a.Owns s → ¬b.Owns s := by
  -- one record at a time: a new one owns nothing that an earlier one does
  induction h with
  | nil => exact List.Pairwise.nil
  | joined _ _ _ ih =>
      rw [List.map_append] at hnodup
      exact ih (List.nodup_append.mp hnodup).1
  | @made done rs s b hbuilt hmakes hnew _ _ ih =>
      rw [List.map_append] at hnodup
      obtain ⟨hdone, -, hfresh⟩ := List.nodup_append.mp hnodup
      have hsampler : ∀ c ∈ (b.sampler? target).toList, ∀ s', ¬c.Owns s' := by
        intro c hc s'
        exact Record.not_owns_of_sampler? (Option.mem_toList.mp hc)
      refine List.pairwise_append.mpr ⟨ih hdone, ?_, ?_⟩
      · refine List.pairwise_cons.mpr ⟨fun c hc s' _ => hsampler c hc s', ?_⟩
        cases b.sampler? target with
        | none => exact List.Pairwise.nil
        | some c => exact List.pairwise_singleton _ c
      · intro a ha c hc s' howns
        rcases List.mem_cons.mp hc with rfl | hc
        · rintro ⟨-, ⟨g, hrole, hblock⟩ | ⟨huniform, hown⟩⟩
          · -- `s'` is in the new block, but the block of `s` was not there before
            obtain ⟨hisblock, hvisibility, hgroup⟩ := Record.isBlock_iff.mp hblock
            cases hmakes with
            | own index hfits =>
                rw [hfits.block?] at hisblock
                cases hisblock
            | @block g' index type hrole' =>
                have hnone := hnew g' hrole'
                rw [List.any_eq_false] at hnone
                rcases howns.2 with ⟨g'', hrole'', hblock''⟩ | ⟨huniform, -⟩
                · rw [hrole] at hrole''
                  rw [← Role.uniform.inj hrole'', ← hvisibility, ← hgroup] at hblock''
                  exact hnone a ha hblock''
                · rw [hrole] at huniform
                  cases huniform
          · have hname := hbuilt.name_mem ha howns huniform
            cases hmakes with
            | block index type hrole => cases hown.1
            | own index hfits => exact hfresh s'.name hname s.name (by simp) hown.2.symm
        · exact hsampler c hc s'

/-- The record a resource is bound to is unique. -/
theorem Built.owner_unique (h : Built target all done rs) (hnodup : (done.map (·.name)).Nodup)
    (hb : b ∈ rs) (hc : c ∈ rs) (howns : b.Owns s) (howns' : c.Owns s) : b = c := by
  by_contra hne
  have hsymm : Std.Symm fun a b : Record => ∀ s, a.Owns s → ¬b.Owns s :=
    ⟨fun a b hab s hb ha => hab s ha hb⟩
  exact (h.owners_disjoint hnodup).forall hb hc hne s howns howns'

/-- The declarations of a record are those of the resources bound to it. -/
theorem Built.mem_vars_iff (h : Built target all done rs) (hdone : ∀ s ∈ done, s ∈ all)
    (hnodup : (all.map (·.name)).Nodup) (hb : b ∈ rs) :
    v ∈ b.vars ↔ ∃ s ∈ all, b.Owns s ∧ v ∈ s.vars := by
  rcases h.origin hb with ⟨s, hs, hmakes⟩ | ⟨_, -, _, -, -, hsampler, -⟩
  -- a record is made for a declaration and owns it, or is a generated sampler and owns nothing
  · have howns := hmakes.owns
    cases hmakes with
    | @block g index type hrole =>
        have hmember : ∀ s', s' ∈ blockMembers all s.visibility g ↔
            s' ∈ all ∧ s'.role = .uniform g ∧ s'.visibility = s.visibility := by
          simp [blockMembers]
        show v ∈ (blockMembers all s.visibility g).flatMap (·.vars) ↔ _
        rw [List.mem_flatMap]
        constructor
        · rintro ⟨s', hs', hv⟩
          obtain ⟨hall, hrole', hvisibility⟩ := (hmember s').mp hs'
          refine ⟨s', hall, ⟨rfl, Or.inl ⟨g, hrole', ?_⟩⟩, hv⟩
          rw [Record.isBlock_iff, hvisibility]
          exact ⟨rfl, rfl, rfl⟩
        · rintro ⟨s', hall, ⟨-, ⟨g', hrole', hblock⟩ | ⟨-, hown, -⟩⟩, hv⟩
          · obtain ⟨-, hvisibility, rfl⟩ := Record.isBlock_iff.mp hblock
            exact ⟨s', (hmember s').mpr ⟨hall, hrole', hvisibility.symm⟩, hv⟩
          · cases hown
    | own index hfits =>
        constructor
        · intro hv
          exact ⟨s, hdone s hs, howns, hv⟩
        · rintro ⟨s', hall, ⟨-, ⟨g', -, hblock⟩ | ⟨-, -, hname⟩⟩, hv⟩
          · have hsome := (Record.isBlock_iff.mp hblock).1
            rw [show Content.block? _ = none from hfits.block?] at hsome
            cases hsome
          · rw [List.inj_on_of_nodup_map hnodup (hdone s hs) hall hname]
            exact hv
  · constructor
    · intro hv
      obtain ⟨-, t, -, rfl⟩ := Record.sampler?_eq_some hsampler
      cases hv
    · rintro ⟨s', -, howns, -⟩
      exact absurd howns (Record.not_owns_of_sampler? hsampler)

/-- The record a resource is bound to is one that it would make. -/
theorem Built.makes (h : Built target all done rs) (hdone : ∀ s ∈ done, s ∈ all)
    (hnodup : (all.map (·.name)).Nodup) (hs : s ∈ all) (hb : b ∈ rs) (howns : b.Owns s) :
    Makes all s b := by
  rcases h.origin hb with ⟨s', hs', hmakes⟩ | ⟨_, -, _, -, -, hsampler, -⟩
  · rcases howns.2 with ⟨g, hrole, hblock⟩ | ⟨-, hnone, hname⟩
    · obtain ⟨hsome, hvisibility, hgroup⟩ := Record.isBlock_iff.mp hblock
      cases hmakes with
      | block index type hrole' =>
          dsimp only at hvisibility hgroup
          rw [hvisibility, hgroup]
          exact .block index type hrole
      | own index hfits =>
          rw [show Content.block? _ = none from hfits.block?] at hsome
          cases hsome
    · cases hmakes with
      | block index type hrole' => cases hnone
      | own index hfits =>
          obtain rfl := List.inj_on_of_nodup_map hnodup (hdone s' hs') hs hname
          exact .own index hfits
  · exact absurd howns (Record.not_owns_of_sampler? hsampler)

end Owners

/-! ## Lookups -/

section Lookups

variable {target : Target} {vars : Array Variable} {stages : List BuiltStage}
  {all : List Shared} {p : Plan} {s : Shared} {b c : Record} {v : VarId}

/-- A resource whose declarations a record has is bound to it. -/
theorem Built.owns_of_mem_vars (h : Built target all all p.records)
    (hgathers : Gathers (declarations vars stages) all) (hs : s ∈ all) (hv : v ∈ s.vars)
    (hb : b ∈ p.records) (hvb : v ∈ b.vars) : b.Owns s := by
  obtain ⟨s', hs', howns, hv'⟩ := (h.mem_vars_iff (fun _ h => h) hgathers.nodup hb).mp hvb
  rw [hgathers.eq_of_mem_vars hs hs' hv hv']
  exact howns

/-- The record of a declaration is the one its resource is bound to. -/
theorem Built.recordOf?_eq (h : Built target all all p.records)
    (hgathers : Gathers (declarations vars stages) all) (hs : s ∈ all) (hv : v ∈ s.vars)
    (hb : b ∈ p.records) (howns : b.Owns s) : p.recordOf? v = some b := by
  have hvb := (h.mem_vars_iff (fun _ h => h) hgathers.nodup hb).mpr ⟨s, hs, howns, hv⟩
  refine p.owned.eq_some hb hvb fun c hc hvc => ?_
  exact h.owner_unique hgathers.nodup hc hb (h.owns_of_mem_vars hgathers hs hv hc hvc) howns

end Lookups

/-! ## Registered types -/

variable {R : Registry → Registry → Prop} [Registry.IsGrowth R]

theorem follows_bindUniform (all : List Shared) (p : Plan) (s : Shared) (group : UInt32) :
    Interning.Follows R (bindUniform all p s group) := by
  unfold bindUniform
  grind

theorem follows_bindTexture (target : Target) (all : List Shared) (p : Plan) (s : Shared)
    (group : UInt32) : Interning.Follows R (bindTexture target all p s group) := by
  unfold bindTexture
  grind

theorem follows_bind (target : Target) (all : List Shared) (p : Plan) (s : Shared) :
    Interning.Follows R (bind target all p s) := by
  unfold bind
  split
  · exact follows_bindUniform _ _ _ _
  · exact follows_bindTexture _ _ _ _ _
  · refine .bind .get fun r => ?_
    split
    · exact .pure _
    · exact .throw _
  · exact .pure _
  · exact .throw _

theorem follows_bindAll (target : Target) (all rest : List Shared) (p : Plan) :
    Interning.Follows R (bindAll target all rest p) := by
  induction rest generalizing p with
  | nil => exact .pure p
  | cons s rest ih => exact .bind (follows_bind _ _ _ _) ih

/-- Binding the resources of a program registers types. -/
theorem follows_plan (target : Target) (vars : Array Variable) (stages : List BuiltStage) :
    Interning.Follows R (plan target vars stages) :=
  .bind .get fun _ => .bind (.liftM _) fun _ => follows_bindAll _ _ _ _

end Binding

end WebShader
