import WebShader.Proofs.DeclaredStructs
import WebShader.Proofs.LegibleLiterals
import WebShader.Proofs.ResolvedStages

/-!
# Names of legible stages

What is asked of the names of a stage, so that its source can be read: that they are names, which is
enough for its declarations, and for its statements that they are none of the words that start them.
-/

namespace WebShader

/-! ## Names -/

/-- Only names will do, and all of them but for the words that start statements. So does what is
made of a name that will do and of characters of names. -/
structure AdmitsNames (ok : String → Prop) : Prop where
  name : ∀ n, isName n = true → n ∉ controlWords → ok n
  derived : ∀ n suffix, ok n → suffix.toList.all isNameRest = true → ok (n ++ "_" ++ suffix)
  isName : ∀ n, ok n → isName n = true

/-- What will do is plain. -/
theorem AdmitsNames.plain {ok : String → Prop} (h : AdmitsNames ok) (n : String) (hn : ok n) :
    IsPlain n :=
  .of_isName (h.isName n hn)

/-- What a name can go on with, twice in a row. -/
theorem all_isNameRest_append {a b : String} (ha : a.toList.all isNameRest = true)
    (hb : b.toList.all isNameRest = true) : (a ++ b).toList.all isNameRest = true := by
  rw [String.toList_append, List.all_append, ha, hb]
  rfl

/-- Characters of names go on a name. -/
theorem isName_append {n more : String} (h : isName n = true)
    (hmore : more.toList.all isNameRest = true) : isName (n ++ more) = true := by
  obtain ⟨c, rest, hlist, hc, hrest⟩ := exists_of_isName h
  rw [isName, String.toList_append, hlist]
  simp only [List.cons_append, hc, Bool.true_and, List.all_append, hrest, hmore]

/-- A name can go on with a number. -/
theorem isNameRest_toString (n : Nat) : (toString n).toList.all isNameRest = true :=
  List.all_eq_true.mpr fun c hc => by
    simp [isNameRest, Char.isAlphanum, isDigit_of_mem_toString hc]

/-- Names are names in both languages. -/
theorem admits_isName : AdmitsNames (isName · = true) where
  name _ h _ := h
  derived _ _ h := isName_append (isName_append h (by decide))
  isName _ h := h

/-- The text is a name that starts no statement. -/
def IsFreeName (n : String) : Prop := isName n = true ∧ n ∉ controlWords

instance (n : String) : Decidable (IsFreeName n) :=
  inferInstanceAs (Decidable (isName n = true ∧ n ∉ controlWords))

/-- A name that starts no statement starts a phrase. -/
theorem IsFreeName.phrase {n : String} (h : IsFreeName n) : IsPhrase n := .of_isName h.1 h.2

/-- No word that starts a statement has an underscore. -/
theorem admits_isFreeName : AdmitsNames IsFreeName where
  name _ h hc := ⟨h, hc⟩
  derived n suffix h hsuffix := by
    refine ⟨isName_append (isName_append h.1 (by decide)) hsuffix, fun hmem => ?_⟩
    have hwords : ∀ w ∈ controlWords, '_' ∉ w.toList := by decide
    exact hwords _ hmem (by simp [String.toList_append])
  isName _ h := h.1

/-- The text of a swizzle mask is plain. -/
theorem isPlain_swizzle (mask : Swizzle) : IsPlain mask.text := by
  refine .of_nameRest ?_
  rw [Swizzle.text, String.toList_ofList, List.all_map, List.all_eq_true]
  intro c _
  cases mask.letters <;> cases c <;> rfl

/-! ## Stages -/

/-- The names of the structs of a registry will do, and their members have names. -/
def Registry.HasNames (ok : String → Prop) (r : Registry) : Prop :=
  ∀ t st, r.kind t = .struct st → ok st.name ∧ ∀ m ∈ st.members, isName m.name = true

/-- The names of the variables, structs, functions and records of a stage will do. -/
structure ResolvedStage.HasNames (ok : String → Prop) (s : ResolvedStage) : Prop where
  vars : ∀ d ∈ s.vars, ok d.name
  constants : ∀ c ∈ s.constants, ok c.1.name
  structs : s.types.HasNames ok
  functions : ∀ f ∈ s.decls.functions, ok (s.functionName f)
  defined : ∀ f ∈ s.functions, ok f.1.name ∧ ok (s.functionName f.1)
  records : ∀ b ∈ s.plan.records, ok b.name

/-- The conditionals of a stage have branches. -/
structure ResolvedStage.HasBranches (s : ResolvedStage) : Prop where
  bodies : ∀ f ∈ s.functions, Stmt.BlockMeets (fun _ => True) (fun _ => True) f.2
  main : Stmt.BlockMeets (fun _ => True) (fun _ => True) s.main

/-- The conditionals of a stage that keeps to itself have branches. -/
theorem ResolvedStage.IsClosed.hasBranches {s : ResolvedStage} (h : s.IsClosed) :
    s.HasBranches where
  bodies f hf :=
    Stmt.BlockMeets.imp (fun _ _ => trivial) (fun _ _ => trivial) f.2 (h.bodies f hf)
  main := Stmt.BlockMeets.imp (fun _ _ => trivial) (fun _ _ => trivial) s.main h.main

namespace ResolvedStage.HasNames

variable {ok : String → Prop} {s : ResolvedStage}

/-- The variables of a stage have names. -/
theorem var (h : s.HasNames ok) {v : VarId} {d : Variable} (hd : s.var v = .ok d) : ok d.name := by
  unfold ResolvedStage.var at hd
  split at hd
  · rename_i d' hd'
    obtain rfl := Except.ok.inj hd
    exact h.vars d' (Array.mem_of_getElem? hd')
  · cases hd

/-- What a variable is bound to has a name. -/
theorem record (h : s.HasNames ok) {v : VarId} {d : Variable} {b : Binding.Record}
    (hb : s.record v d = .ok b) : ok b.name := by
  unfold ResolvedStage.record at hb
  split at hb
  · rename_i b' hb'
    obtain rfl := Except.ok.inj hb
    exact h.records b' (s.plan.owned.mem hb').1
  · cases hb

/-- What a stage sees of the bindings has names. -/
theorem visible (h : s.HasNames ok) {b : Binding.Record} (hb : b ∈ s.records) : ok b.name :=
  h.records b (Binding.mem_visibleFrom.mp hb).1

/-- The sampler of a texture has a name. -/
theorem sampler (h : s.HasNames ok) {v : VarId} {b : Binding.Record}
    (hb : s.plan.samplerOf? v = some b) : ok b.name := h.records b (s.plan.sampled.mem hb).1

/-- The functions of a stage have names. -/
theorem function (h : s.HasNames ok) {f : FunctionId} {fn : Function}
    (hf : s.function f = .ok fn) : ok (s.functionName fn) := by
  unfold ResolvedStage.function at hf
  split at hf
  · rename_i fn' hfn
    obtain rfl := Except.ok.inj hf
    exact h.functions fn' (List.mem_of_getElem? hfn)
  · cases hf

/-- The members of the registered structs have plain names. -/
theorem member (h : s.HasNames ok) {t : TypeId} {i : Nat} {m : Member}
    (hm : s.member t i = .ok m) : IsPlain m.name := by
  unfold ResolvedStage.member at hm
  split at hm
  · rename_i m' hm'
    obtain rfl := Except.ok.inj hm
    obtain ⟨st, hst, hm'⟩ := Option.bind_eq_some_iff.mp hm'
    exact .of_isName
      ((h.structs t st (Registry.struct?_eq_some_iff.mp hst)).2 m' (List.mem_of_getElem? hm'))
  · cases hm

end ResolvedStage.HasNames

/-! ## Stages of builders -/

/-- The names of the variables and structs of a builder and of the functions of one of its stages
will do. -/
structure Builder.HasNames (ok : String → Prop) (b : Builder) (st : BuiltStage) : Prop where
  vars : ∀ d ∈ b.vars, ok d.name
  structs : b.types.HasNames ok
  functions : ∀ f ∈ st.decls.functions, ok f.name

/-- What is an identifier in every language is a name. -/
theorem isName_of_isIdentifier {n : String} (h : isIdentifier n = true) : isName n = true := by
  unfold isIdentifier at h
  split at h
  · cases h
  · rename_i c rest hlist
    simp only [Bool.and_eq_true] at h
    rw [isName, hlist]
    simp [h.1.1.1, h.1.1.2]

/-- Structs that are named by identifiers have names, as have their members. -/
theorem Registry.NamesStructs.hasNames {r : Registry} (h : r.NamesStructs) :
    r.HasNames (isName · = true) := fun t st hst =>
  ⟨isName_of_isIdentifier (h t st hst).1, fun m hm => isName_of_isIdentifier ((h t st hst).2 m hm)⟩

section Resolution

variable {ok : String → Prop} {b : Builder} {st : BuiltStage} {s : ResolvedStage}

/-- Records are named after variables, after the textures that they sample, or after the stages and
the group of a block. -/
theorem ok_record (hok : AdmitsNames ok) {target : Target} {vars : Array Variable}
    {stages : List BuiltStage} {plan : Binding.Plan} {r r' : Registry}
    (hvars : ∀ d ∈ vars, ok d.name)
    (hplan : r.run (Binding.plan target vars stages) = (.ok plan, r')) :
    ∀ c ∈ plan.records, ok c.name := by
  obtain ⟨all, hall, hbind⟩ := Binding.plan_eq_ok hplan
  have hbuilt := Binding.built_bindAll .nil hbind
  have hshared : ∀ x ∈ all, ok x.name := by
    intro x hx
    obtain ⟨⟨v, d⟩, hd, hname⟩ := hall.exists_declaration hx
    obtain ⟨found, hfound, -, hfoundName⟩ := Binding.mem_declarations hd
    rw [← hname, hfoundName]
    exact hvars found (Array.mem_of_getElem? hfound)
  have hmakes : ∀ x ∈ all, ∀ c, Binding.Makes all x c → ok c.name := by
    intro x hx c hc
    cases hc with
    | own => exact hshared x hx
    | @block group =>
        have hsuffix : (Binding.blockSuffix x.visibility group).toList.all isNameRest = true := by
          rw [Binding.blockSuffix, String.toList_append, String.toList_append, List.all_append,
            List.all_append, isNameRest_toString]
          have hshort : x.visibility.shortName.toList.all isNameRest = true := by
            unfold Visibility.shortName
            split_ifs <;> rfl
          rw [hshort]
          rfl
        exact hok.derived "ublock" _ (hok.name _ (by decide) (by decide)) hsuffix
  intro c hc
  rcases hbuilt.origin hc with ⟨x, hx, hc⟩ | ⟨x, hx, d, -, hd, hsampler, -⟩
  · exact hmakes x (by simpa using hx) c hc
  · obtain ⟨-, t, -, rfl⟩ := Binding.Record.sampler?_eq_some hsampler
    have hname := hok.derived d.name "sampler" (hmakes x (by simpa using hx) d hd) (by decide)
    rwa [String.append_assoc] at hname

/-- A stage whose names will do is resolved into one. -/
theorem Builder.HasNames.resolve (hok : AdmitsNames ok) (h : b.HasNames ok st)
    {stages : List BuiltStage} {plan : Binding.Plan} {r r' : Registry}
    (hplan : r.run (Binding.plan b.target b.vars stages) = (.ok plan, r'))
    (hs : b.resolve plan st = .ok s) : s.HasNames ok := by
  have htypes := Builder.types_of_resolve hs
  obtain ⟨-, hvars, hsplan, hdecls, hconstants, hfunctions, -⟩ := Builder.resolve_eq_ok hs
  have hname : ∀ f : Function, ok f.name → ok (s.functionName f) := by
    intro f hf
    unfold ResolvedStage.functionName
    split
    · exact hok.derived f.name _ hf (isNameRest_toString f.rank)
    · exact hf
  refine ⟨hvars ▸ h.vars, fun c hc => ?_, htypes ▸ h.structs, ?_, fun g hg => ?_, ?_⟩
  · obtain ⟨v, -, hv⟩ := exists_mem_of_forall₂ hconstants c hc
    exact h.vars c.1 (Array.mem_of_getElem? (Builder.var_of_resolveConstant hv))
  · rw [hdecls]
    exact fun f hf => hname f (h.functions f hf)
  · obtain ⟨f, hf, hg⟩ := exists_mem_of_forall₂ hfunctions g hg
    rw [(Builder.resolveFunction_eq_ok hg).1]
    exact ⟨h.functions f hf, hname f (h.functions f hf)⟩
  · rw [hsplan]
    exact ok_record hok h.vars hplan

end Resolution

end WebShader
