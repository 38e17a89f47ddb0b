import WebShader.Proofs.BindingSteps

/-!
# Order of bindings

The records of a group are numbered from zero on without a gap, in the order of the first
declarations bound to them, and in WGSL each texture is directly followed by its sampler.
-/

namespace WebShader

namespace Binding

/-- The order of the records of a plan: what was declared first is bound first, and each generated
sampler comes right after its texture. -/
structure Plan.Ordered (p : Plan) (target : Target) (ds : Declarations) : Prop where
  dense : ∀ g, (p.records.filter (·.group == g)).map (·.index) =
    List.range (p.records.countP (·.group == g))
  first : (ds.map fun x => p.recordOf? x.1).eraseDups =
    (p.records.filter (!·.isGenerated)).map some
  paired : p.records =
    (p.records.filter (!·.isGenerated)).flatMap fun b => b :: (b.sampler? target).toList
  sampled : ∀ v b, p.recordOf? v = some b → p.samplerOf? v = b.sampler? target
  texture : ∀ v d g, (v, d) ∈ ds → d.role = .texture g →
    ∃ b t, p.recordOf? v = some b ∧ b.content = .texture t ∧ b.group = g

section Steps

variable {target : Target} {all done : List Shared} {rs : List Record} {b : Record}

/-- Records numbered without a gap stay so with one more at the next index of its group. -/
theorem dense_concat
    (h : ∀ g, (rs.filter (·.group == g)).map (·.index) = List.range (rs.countP (·.group == g)))
    (hb : b.index = rs.countP (·.group == b.group)) (g : UInt32) :
    ((rs ++ [b]).filter (·.group == g)).map (·.index) =
      List.range ((rs ++ [b]).countP (·.group == g)) := by
  rw [List.filter_append, List.map_append, List.countP_append, h g]
  by_cases hg : b.group = g
  · subst hg
    simp [List.range_succ, hb]
  · simp [hg]

/-- The indices of a group are the first numbers, in the order of its records. -/
theorem Built.dense (h : Built target all done rs) (g : UInt32) :
    (rs.filter (·.group == g)).map (·.index) = List.range (rs.countP (·.group == g)) := by
  induction h generalizing g with
  | nil => rfl
  | joined _ _ _ ih => exact ih g
  | @made done rs s b _ _ _ hindex _ ih =>
      have hb := dense_concat ih hindex
      cases hsampler : b.sampler? target with
      | none => exact hb g
      | some c =>
          -- the sampler is in the group of its texture, at the next index
          obtain ⟨-, t, -, rfl⟩ := Record.sampler?_eq_some hsampler
          rw [Option.toList_some, List.append_cons]
          apply dense_concat hb
          simp [hindex]

/-- No record made so far has the index that comes next in its group. -/
theorem Built.not_mem_of_index (h : Built target all done rs)
    (hindex : b.index = rs.countP (·.group == b.group)) : b ∉ rs := by
  intro hb
  have hmem : b.index ∈ (rs.filter (·.group == b.group)).map (·.index) :=
    List.mem_map_of_mem (List.mem_filter.mpr ⟨hb, by simp⟩)
  rw [h.dense, List.mem_range] at hmem
  omega

/-- Each generated sampler stands right behind its texture. -/
theorem Built.paired (h : Built target all done rs) :
    rs = (rs.filter (!·.isGenerated)).flatMap fun b => b :: (b.sampler? target).toList := by
  induction h with
  | nil => rfl
  | joined _ _ _ ih => exact ih
  | @made done rs s b _ hmakes _ _ _ ih =>
      have hb : b.isGenerated = false := by rw [Record.isGenerated, hmakes.texture]; rfl
      have hsampler : (b.sampler? target).toList.filter (!·.isGenerated) = [] := by
        rw [List.filter_eq_nil_iff]
        intro c hc
        simp [Record.isGenerated_of_sampler? (Option.mem_toList.mp hc)]
      rw [List.filter_append, List.filter_cons_of_pos (by simp [hb]), hsampler,
        List.flatMap_append, ← ih]
      simp

/-- The owners of the resources bound so far, in order and without repetition, are the records
made so far. -/
theorem Built.owners_eq {R : List Record} {owner : Shared → Option Record}
    (hunique : ∀ s b c, b ∈ R → c ∈ R → b.Owns s → c.Owns s → b = c)
    (h : Built target all done rs) (hinit : rs <+: R)
    (howner : ∀ s ∈ done, ∃ b ∈ R, b.Owns s ∧ owner s = some b) :
    (done.map owner).eraseDups = (rs.filter (!·.isGenerated)).map some := by
  -- by induction on the declarations gone through: each joins a block or makes the last record
  induction h with
  | nil => rfl
  | @joined done rs s g hbuilt hrole hany ih =>
      have hdone := ih hinit fun s' hs' => howner s' (List.mem_append_left _ hs')
      obtain ⟨b, hb, howns⟩ := (hbuilt.joined hrole hany).exists_owner
        (List.mem_append_right done List.mem_cons_self)
      obtain ⟨c, hc, howns', hcs⟩ := howner s (List.mem_append_right _ List.mem_cons_self)
      obtain rfl := hunique s b c (hinit.subset hb) hc howns howns'
      have hmem : owner s ∈ done.map owner := by
        rw [← List.mem_eraseDups, hdone, hcs]
        refine List.mem_map_of_mem (List.mem_filter.mpr ⟨hb, ?_⟩)
        rw [Record.isGenerated, howns.1]
        rfl
      rw [List.map_append]
      exact (eraseDups_concat_of_mem hmem).trans hdone
  | @made done rs s b hbuilt hmakes hnew hindex hclash ih =>
      have hdone := ih ((List.prefix_append _ _).trans hinit)
        fun s' hs' => howner s' (List.mem_append_left _ hs')
      have hsampler : (b.sampler? target).toList.filter (!·.isGenerated) = [] := by
        rw [List.filter_eq_nil_iff]
        intro c hc
        simp [Record.isGenerated_of_sampler? (Option.mem_toList.mp hc)]
      have hb : b.isGenerated = false := by rw [Record.isGenerated, hmakes.texture]; rfl
      obtain ⟨c, hc, howns, hcs⟩ := howner s (List.mem_append_right _ List.mem_cons_self)
      obtain rfl := hunique s b c (hinit.subset (by simp)) hc hmakes.owns howns
      have hnew : owner s ∉ done.map owner := by
        rw [← List.mem_eraseDups, hdone, hcs]
        intro hmem
        have hold : b ∈ rs := by simpa [hb] using hmem
        exact hbuilt.not_mem_of_index hindex hold
      rw [List.map_append, List.filter_append, List.filter_cons_of_pos (by simp [hb]), hsampler,
        List.map_append, ← hdone]
      simp only [List.map_cons, List.map_nil]
      rw [eraseDups_concat_of_not_mem hnew, hcs]

end Steps

section Lookups

variable {target : Target} {vars : Array Variable} {stages : List BuiltStage}
  {all : List Shared} {p : Plan} {s : Shared} {b c : Record} {v : VarId}

/-- The sampler of a texture is the one generated for its record. -/
theorem Built.samplerOf?_eq (h : Built target all all p.records)
    (hgathers : Gathers (declarations vars stages) all) (hb : b ∈ p.records) (hv : v ∈ b.vars) :
    p.samplerOf? v = b.sampler? target := by
  obtain ⟨s, hs, howns, hvs⟩ := (h.mem_vars_iff (fun _ h => h) hgathers.nodup hb).mp hv
  have honly : ∀ c ∈ p.records, v ∈ c.textureVars → b.sampler? target = some c := by
    intro c hc hvc
    rcases h.origin hc with ⟨s', -, hmakes⟩ | ⟨s', -, b', hb', hmakes, hsampler, -⟩
    · rw [Record.textureVars, hmakes.texture] at hvc
      cases hvc
    · obtain ⟨-, t, -, rfl⟩ := Record.sampler?_eq_some hsampler
      have hvb' : v ∈ b'.vars := hvc
      have howns' := h.owns_of_mem_vars hgathers hs hvs hb' hvb'
      rw [h.owner_unique hgathers.nodup hb hb' howns howns']
      exact hsampler
  cases hsampler : b.sampler? target with
  | none =>
      refine p.sampled.eq_none fun c hc hvc => ?_
      rw [honly c hc hvc] at hsampler
      cases hsampler
  | some c =>
      refine p.sampled.eq_some ?_ ?_ fun c' hc' hvc' => ?_
      · rw [h.paired]
        refine List.mem_flatMap.mpr ⟨b, List.mem_filter.mpr ⟨hb, ?_⟩, ?_⟩
        · rw [Record.isGenerated, howns.1]
          rfl
        · rw [hsampler]
          simp
      · obtain ⟨-, t, -, rfl⟩ := Record.sampler?_eq_some hsampler
        exact hv
      · have hsampler' := honly c' hc' hvc'
        rw [hsampler] at hsampler'
        exact (Option.some.inj hsampler').symm

/-- Two declarations of a name are bound to the same record. -/
theorem Built.recordOf?_owner (h : Built target all all p.records)
    (hgathers : Gathers (declarations vars stages) all) (hs : s ∈ all) :
    ∃ b ∈ p.records, b.Owns s ∧
      ∀ x ∈ declarations vars stages, x.2.name = s.name → p.recordOf? x.1 = some b := by
  obtain ⟨b, hb, howns⟩ := h.exists_owner hs
  refine ⟨b, hb, howns, ?_⟩
  intro x hx hname
  have hv := (hgathers.mem_vars_iff hs).mpr ⟨x.2, hx, hname⟩
  exact h.recordOf?_eq hgathers hs hv hb howns

/-- The records of the declarations, in order and without repetition, are those that were not
generated. -/
theorem Built.first (h : Built target all all p.records)
    (hgathers : Gathers (declarations vars stages) all) :
    ((declarations vars stages).map fun x => p.recordOf? x.1).eraseDups =
      (p.records.filter (!·.isGenerated)).map some := by
  have hnamed : ∀ name, ∃ o, ∀ s ∈ all, s.name = name → (∃ b ∈ p.records, b.Owns s ∧ o = some b) ∧
      ∀ x ∈ declarations vars stages, x.2.name = name → p.recordOf? x.1 = o := by
    intro name
    by_cases hname : ∃ s ∈ all, s.name = name
    · obtain ⟨s, hs, rfl⟩ := hname
      obtain ⟨b, hb, howns, hrecord⟩ := h.recordOf?_owner hgathers hs
      refine ⟨some b, fun s' hs' hname => ?_⟩
      rw [List.inj_on_of_nodup_map hgathers.nodup hs' hs hname]
      exact ⟨⟨b, hb, howns, rfl⟩, hrecord⟩
    · exact ⟨none, fun s hs heq => absurd ⟨s, hs, heq⟩ hname⟩
  choose owner howner using hnamed
  have hmap : (declarations vars stages).map (fun x => p.recordOf? x.1) =
      ((declarations vars stages).map (·.2.name)).map owner := by
    rw [List.map_map]
    apply List.map_congr_left
    intro x hx
    obtain ⟨s, hs, hname⟩ := hgathers.exists_shared hx
    exact (howner x.2.name s hs hname).2 x hx rfl
  rw [hmap, ← eraseDups_map_eraseDups, ← hgathers.names, List.map_map]
  refine h.owners_eq ?_ (List.prefix_refl _) fun s hs => (howner s.name s hs rfl).1
  intro s b c hb hc howns howns'
  exact h.owner_unique hgathers.nodup hb hc howns howns'

end Lookups

/-! ## Plans -/

/-- The bindings of every plan are dense and ordered. -/
theorem plan_ordered {target : Target} {vars : Array Variable} {stages : List BuiltStage}
    {r r' : Registry} {p : Plan} (h : r.run (plan target vars stages) = (.ok p, r')) :
    p.Ordered target (declarations vars stages) := by
  obtain ⟨all, hgathers, hbind⟩ := plan_eq_ok h
  have hbuilt := built_bindAll Built.nil hbind
  rw [List.nil_append] at hbuilt
  constructor
  · exact hbuilt.dense
  · exact hbuilt.first hgathers
  · exact hbuilt.paired
  · intro v b hv
    obtain ⟨hb, hvb⟩ := p.owned.mem hv
    exact hbuilt.samplerOf?_eq hgathers hb hvb
  · intro v d g hd hrole
    obtain ⟨s, hs, hname⟩ := hgathers.exists_shared hd
    obtain ⟨b, hb, howns, hrecord⟩ := hbuilt.recordOf?_owner hgathers hs
    have hmakes := hbuilt.makes (fun _ h => h) hgathers.nodup hs hb howns
    have hrole' : s.role = .texture g := by
      rw [← (hgathers.agree s hs (v, d) hd hname.symm).2]
      exact hrole
    refine ⟨b, ?_⟩
    -- of all records only that of a texture holds what was declared as one
    cases hmakes with
    | block index type huniform =>
        rw [hrole'] at huniform
        cases huniform
    | own index hfits =>
        cases hfits with
        | texture t htexture =>
            rw [hrole'] at htexture
            exact ⟨t, hrecord (v, d) hd hname.symm, rfl, (Role.texture.inj htexture).symm⟩
        | sampler kind hsampler =>
            rw [hrole'] at hsampler
            cases hsampler
        | storage hstorage =>
            rw [hrole'] at hstorage
            cases hstorage

/-! ## A scene -/

/-- The registry of a number and a texture. -/
def sceneTypes : Registry :=
  ((Registry.empty.run (Interning.shape (.scalar .f32))).2.run
    (Interning.shape (.texture ⟨.flat, .float, false⟩))).2

/-- Both stages know the time and a texture, and the fragment stage a tint. -/
def sceneVars : Array Variable :=
  #[⟨"time", ⟨0⟩, .uniform 0, .vertex, none⟩, ⟨"albedo", ⟨1⟩, .texture 0, .vertex, none⟩,
    ⟨"tint", ⟨0⟩, .uniform 0, .fragment, none⟩, ⟨"albedo", ⟨1⟩, .texture 0, .fragment, none⟩,
    ⟨"time", ⟨0⟩, .uniform 0, .fragment, none⟩]

/-- The stages of the scene. -/
def sceneStages : List BuiltStage :=
  [⟨{ stage := .vertex, resources := [⟨0⟩, ⟨1⟩] }, []⟩,
    ⟨{ stage := .fragment, resources := [⟨2⟩, ⟨3⟩, ⟨4⟩] }, []⟩]

/-- The names and the indices of the bindings of the scene in WGSL, if they can be made. -/
def sceneBindings : Option (List (String × Nat)) :=
  match (sceneTypes.run (plan .webGPU sceneVars sceneStages)).1 with
  | .ok p => some (p.records.map fun b => (b.name, b.index))
  | .error _ => none

/-- The bindings of the scene. -/
theorem sceneBindings_eq : sceneBindings =
    some [("ublock_vsfs_0", 0), ("albedo", 1), ("albedo_sampler", 2), ("ublock_fs_0", 3)] := by
  decide +kernel

/-- The scene has a plan. -/
theorem exists_scenePlan : ∃ p r',
    sceneTypes.run (plan .webGPU sceneVars sceneStages) = (.ok p, r') ∧
    p.records.map (fun b => (b.name, b.index)) =
      [("ublock_vsfs_0", 0), ("albedo", 1), ("albedo_sampler", 2), ("ublock_fs_0", 3)] := by
  have hbindings := sceneBindings_eq
  unfold sceneBindings at hbindings
  rcases hrun : sceneTypes.run (plan .webGPU sceneVars sceneStages) with ⟨_ | p, r'⟩
  · rw [hrun] at hbindings
    cases hbindings
  · rw [hrun] at hbindings
    exact ⟨p, r', rfl, Option.some.inj hbindings⟩

/-- The time comes first, and the sampler of the texture right after it. -/
theorem scene_ordered : ∃ p r',
    sceneTypes.run (plan .webGPU sceneVars sceneStages) = (.ok p, r') ∧
    p.records.map (fun b => (b.name, b.index)) =
      [("ublock_vsfs_0", 0), ("albedo", 1), ("albedo_sampler", 2), ("ublock_fs_0", 3)] ∧
    p.Ordered .webGPU (declarations sceneVars sceneStages) := by
  obtain ⟨p, r', hrun, hrecords⟩ := exists_scenePlan
  exact ⟨p, r', hrun, hrecords, plan_ordered hrun⟩

end Binding

end WebShader
