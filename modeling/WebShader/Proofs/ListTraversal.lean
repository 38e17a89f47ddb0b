import Mathlib.Data.List.Forall2
import Mathlib.Data.List.Induction
import Mathlib.Data.List.Nodup

/-!
# Sequences and traversals

When computations made one after the other, or for each element of a list, give a result.
-/

namespace WebShader

variable {α β ε : Type}

/-- A sequence succeeds exactly when its parts do. -/
theorem bind_eq_ok_iff {x : Except ε α} {f : α → Except ε β} {b : β} :
    x >>= f = .ok b ↔ ∃ a, x = .ok a ∧ f a = .ok b := by
  cases x <;> simp [bind, Except.bind]

/-- A run that succeeds has a result. -/
theorem exists_of_isOk {x : Except ε α × β} (h : x.1.isOk = true) : ∃ a b, x = (.ok a, b) := by
  obtain ⟨_ | a, b⟩ := x
  · cases h
  · exact ⟨a, b, rfl⟩

/-- A function of a result is given exactly when there is one. -/
theorem map_eq_ok_iff {f : α → β} {x : Except ε α} {b : β} :
    x.map f = .ok b ↔ ∃ a, x = .ok a ∧ f a = b := by
  cases x <;> simp [Except.map]

/-- Computations that agree on a list traverse it alike. -/
theorem mapM_congr_left {m : Type → Type} [Monad m] [LawfulMonad m] {f g : α → m β}
    {as : List α} (h : ∀ a ∈ as, f a = g a) : as.mapM f = as.mapM g := by
  induction as with
  | nil => rfl
  | cons a rest ih =>
      rw [List.mapM_cons, List.mapM_cons, h a List.mem_cons_self,
        ih fun a' ha' => h a' (List.mem_cons_of_mem _ ha')]

/-- A traversal gives the results of the elements, in order. -/
theorem mapM_eq_some_iff {f : α → Option β} {as : List α} {bs : List β} :
    as.mapM f = some bs ↔ List.Forall₂ (fun a b => f a = some b) as bs := by
  induction as generalizing bs with
  | nil => cases bs <;> simp
  | cons a rest ih =>
      rw [List.mapM_cons]
      constructor
      · intro h
        simp only [Option.bind_eq_bind, Option.bind_eq_some_iff, Option.pure_def,
          Option.some.injEq] at h
        obtain ⟨b, hb, bs', hbs', rfl⟩ := h
        exact List.Forall₂.cons hb (ih.mp hbs')
      · rintro (_ | ⟨hb, hbs⟩)
        simp [hb, ih.mpr hbs]

/-- A traversal succeeds with the results of the elements, in order. -/
theorem mapM_eq_ok_iff {f : α → Except ε β} {as : List α} {bs : List β} :
    as.mapM f = .ok bs ↔ List.Forall₂ (fun a b => f a = .ok b) as bs := by
  induction as generalizing bs with
  | nil => cases bs <;> simp [pure, Except.pure]
  | cons a rest ih =>
      rw [List.mapM_cons]
      constructor
      · intro h
        cases ha : f a with
        | error e => simp [ha, bind, Except.bind] at h
        | ok b =>
            cases hrest : rest.mapM f with
            | error e => simp [ha, hrest, bind, Except.bind] at h
            | ok bs' =>
                simp only [ha, hrest, bind, Except.bind, pure, Except.pure,
                  Except.ok.injEq] at h
                rw [← h]
                exact List.Forall₂.cons ha (ih.mp hrest)
      · rintro (_ | ⟨hb, hbs⟩)
        simp [hb, ih.mpr hbs, bind, Except.bind, pure, Except.pure]

/-- Elements that all have a result have a list of results. -/
theorem exists_forall₂ {R : α → β → Prop} {as : List α} (h : ∀ a ∈ as, ∃ b, R a b) :
    ∃ bs, List.Forall₂ R as bs := by
  induction as with
  | nil => exact ⟨[], List.Forall₂.nil⟩
  | cons a rest ih =>
      obtain ⟨b, hb⟩ := h a List.mem_cons_self
      obtain ⟨bs, hbs⟩ := ih fun a' ha' => h a' (List.mem_cons_of_mem _ ha')
      exact ⟨b :: bs, List.Forall₂.cons hb hbs⟩

/-- Each result of a list is the one of some element. -/
theorem exists_mem_of_forall₂ {R : α → β → Prop} {as : List α} {bs : List β}
    (h : List.Forall₂ R as bs) : ∀ b ∈ bs, ∃ a ∈ as, R a b := by
  induction h with
  | nil => simp
  | cons hb _ ih =>
      intro b hmem
      rcases List.mem_cons.mp hmem with rfl | hmem
      · exact ⟨_, List.mem_cons_self, hb⟩
      · obtain ⟨a, ha, hab⟩ := ih b hmem
        exact ⟨a, List.mem_cons_of_mem _ ha, hab⟩

/-- What holds of the result of every element holds of all results of a traversal. -/
theorem forall_of_mapM {f : α → Except ε β} {P : β → Prop} {as : List α} {bs : List β}
    (h : as.mapM f = .ok bs) (hf : ∀ a ∈ as, ∀ b, f a = .ok b → P b) : ∀ b ∈ bs, P b := by
  intro b hb
  obtain ⟨a, ha, hab⟩ := exists_mem_of_forall₂ (mapM_eq_ok_iff.mp h) b hb
  exact hf a ha b hab

/-- Each element of a list has a result in the list of results. -/
theorem exists_result_of_forall₂ {R : α → β → Prop} {as : List α} {bs : List β}
    (h : List.Forall₂ R as bs) : ∀ a ∈ as, ∃ b ∈ bs, R a b := by
  induction h with
  | nil => simp
  | cons hb _ ih =>
      intro a hmem
      rcases List.mem_cons.mp hmem with rfl | hmem
      · exact ⟨_, List.mem_cons_self, hb⟩
      · obtain ⟨b, hb, hab⟩ := ih a hmem
        exact ⟨b, List.mem_cons_of_mem _ hb, hab⟩

/-- Elements at one place are related. -/
theorem getElem?_of_forall₂ {R : α → β → Prop} {as : List α} {bs : List β}
    (h : List.Forall₂ R as bs) {k : Nat} {b : β} (hb : bs[k]? = some b) :
    ∃ a, as[k]? = some a ∧ R a b := by
  induction h generalizing k with
  | nil => cases hb
  | @cons a b' as bs hab _ ih =>
      cases k with
      | zero =>
          rw [List.getElem?_cons_zero] at hb
          rw [← Option.some.inj hb]
          exact ⟨a, rfl, hab⟩
      | succ k =>
          rw [List.getElem?_cons_succ] at hb
          exact ih hb

/-- A related pair is found again where both lists are zipped with a third one. -/
theorem exists_mem_zip_of_forall₂ {γ : Type} {R : α → β → Prop} {as : List α} {bs : List β}
    (h : List.Forall₂ R as bs) {cs : List γ} {x : α × γ} (hx : x ∈ as.zip cs) :
    ∃ b, R x.1 b ∧ (x.2, b) ∈ cs.zip bs := by
  induction h generalizing cs with
  | nil => cases hx
  | @cons a b as bs hab _ ih =>
      cases cs with
      | nil => cases hx
      | cons c cs =>
          rcases List.mem_cons.mp hx with rfl | hx
          · exact ⟨b, hab, List.mem_cons_self⟩
          · obtain ⟨b', hb', hmem⟩ := ih hx
            exact ⟨b', hb', List.mem_cons_of_mem _ hmem⟩

/-- Lists whose elements are related have equal images if related elements do. -/
theorem map_eq_map_of_forall₂ {γ : Type} {R : α → β → Prop} {f : α → γ} {g : β → γ} {as : List α}
    {bs : List β} (h : List.Forall₂ R as bs) (hR : ∀ a b, R a b → f a = g b) :
    as.map f = bs.map g := by
  induction h with
  | nil => rfl
  | cons hab _ ih => rw [List.map_cons, List.map_cons, hR _ _ hab, ih]

/-- What holds of any two elements, the earlier one first, carries over to their results. -/
theorem pairwise_of_forall₂ {R : α → β → Prop} {P : α → α → Prop} {Q : β → β → Prop} {as : List α}
    {bs : List β} (h : List.Forall₂ R as bs) (hP : as.Pairwise P)
    (hQ : ∀ a a' b b', R a b → R a' b' → P a a' → Q b b') : bs.Pairwise Q := by
  induction h with
  | nil => exact .nil
  | cons hab hrest ih =>
      obtain ⟨ha, hP⟩ := List.pairwise_cons.mp hP
      refine List.pairwise_cons.mpr ⟨fun b' hb' => ?_, ih hP⟩
      obtain ⟨a', ha', hab'⟩ := exists_mem_of_forall₂ hrest b' hb'
      exact hQ _ _ _ _ hab hab' (ha a' ha')

/-- What the elements of a list are related to, in two ways, is related as told. -/
theorem forall₂_of_forall₂ {γ : Type} {R : α → β → Prop} {S : α → γ → Prop} {T : β → γ → Prop}
    {as : List α} {bs : List β} {cs : List γ} (h : List.Forall₂ R as bs) (h' : List.Forall₂ S as cs)
    (hT : ∀ a b c, R a b → S a c → T b c) : List.Forall₂ T bs cs := by
  induction h generalizing cs with
  | nil =>
      cases h'
      exact .nil
  | cons hab _ ih =>
      cases h' with
      | cons hac hrest => exact .cons (hT _ _ _ hab hac) (ih hrest)

/-- What has a key of its own is found by it. -/
theorem find?_key [BEq β] [LawfulBEq β] {key : α → β} {as : List α} (h : (as.map key).Nodup) {a : α}
    (ha : a ∈ as) : as.find? (key · == key a) = some a := by
  induction as with
  | nil => cases ha
  | cons b rest ih =>
      rw [List.map_cons, List.nodup_cons] at h
      obtain ⟨hfresh, hrest⟩ := h
      rcases List.mem_cons.mp ha with rfl | ha
      · rw [List.find?_cons_of_pos (by simp)]
      · have hne : key b ≠ key a := fun heq => hfresh (heq ▸ List.mem_map_of_mem ha)
        rw [List.find?_cons_of_neg (by simpa using hne)]
        exact ih hrest ha

/-- An element between others that all fail a test is the only one that passes it. -/
theorem filter_eq_singleton {p : α → Bool} {before after : List α} {a : α} (ha : p a = true)
    (hother : ∀ b ∈ before ++ after, p b = false) : (before ++ a :: after).filter p = [a] := by
  have hbefore : before.filter p = [] := by
    rw [List.filter_eq_nil_iff]
    intro b hb
    simp [hother b (List.mem_append_left _ hb)]
  have hafter : after.filter p = [] := by
    rw [List.filter_eq_nil_iff]
    intro b hb
    simp [hother b (List.mem_append_right _ hb)]
  rw [List.filter_append, List.filter_cons_of_pos ha, hbefore, hafter]
  rfl

/-- The only element that has the key of an element is that element, when keys are all different. -/
theorem filter_key_eq [BEq β] [LawfulBEq β] {key : α → β} {as : List α}
    (hnodup : (as.map key).Nodup) {a : α} (ha : a ∈ as) :
    as.filter (fun b => key b == key a) = [a] := by
  obtain ⟨before, after, rfl⟩ := List.append_of_mem ha
  apply filter_eq_singleton (by simp)
  rw [List.map_append, List.map_cons, List.nodup_middle, ← List.map_append] at hnodup
  intro b hb
  have hkey := (List.nodup_cons.mp hnodup).1
  rw [beq_eq_false_iff_ne]
  intro heq
  exact hkey (heq ▸ List.mem_map_of_mem hb)

/-! ## First occurrences -/

section FirstOccurrences

variable [BEq α] [LawfulBEq α] [BEq β] [LawfulBEq β]

/-- What occurs already is not listed again. -/
theorem eraseDups_concat_of_mem {as : List α} {a : α} (h : a ∈ as) :
    (as ++ [a]).eraseDups = as.eraseDups := by
  rw [List.eraseDups_append]
  simp [List.removeAll, h]

/-- What is new is listed last. -/
theorem eraseDups_concat_of_not_mem {as : List α} {a : α} (h : a ∉ as) :
    (as ++ [a]).eraseDups = as.eraseDups ++ [a] := by
  have hnew : [a].removeAll as = [a] := by simp [List.removeAll, h]
  rw [List.eraseDups_append, hnew]
  rfl

/-- Nothing is listed twice. -/
theorem nodup_eraseDups (as : List α) : as.eraseDups.Nodup := by
  induction as using List.reverseRecOn with
  | nil => exact List.nodup_nil
  | append_singleton as a ih =>
      by_cases ha : a ∈ as
      · rwa [eraseDups_concat_of_mem ha]
      · rw [eraseDups_concat_of_not_mem ha, ← List.concat_eq_append]
        exact ih.concat (mt List.mem_eraseDups.mp ha)

/-- Later occurrences may be erased before and after a map, or after it only. -/
theorem eraseDups_map_eraseDups (f : α → β) (as : List α) :
    (as.eraseDups.map f).eraseDups = (as.map f).eraseDups := by
  induction as using List.reverseRecOn with
  | nil => rfl
  | append_singleton as a ih =>
      by_cases ha : a ∈ as
      · rw [eraseDups_concat_of_mem ha, ih, List.map_append]
        exact (eraseDups_concat_of_mem (List.mem_map_of_mem ha)).symm
      · rw [eraseDups_concat_of_not_mem ha, List.map_append, List.map_append]
        simp only [List.map_cons, List.map_nil]
        by_cases hf : f a ∈ as.map f
        · have hf' : f a ∈ as.eraseDups.map f := by simpa using hf
          rw [eraseDups_concat_of_mem hf, eraseDups_concat_of_mem hf', ih]
        · have hf' : f a ∉ as.eraseDups.map f := by simpa using hf
          rw [eraseDups_concat_of_not_mem hf, eraseDups_concat_of_not_mem hf', ih]

end FirstOccurrences

end WebShader
