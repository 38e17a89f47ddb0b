import WebShader.Proofs.ConstantValues

/-!
# Constants in sources

The constants of a stage are printed in the order of their declarations, and what each is
initialized with is printed from the tree that it is resolved to. So where initializers only read
constants before them, a source names nothing in them but constants that stand before.
-/

namespace WebShader

/-! ## Constants that are printed -/

/-- The constants of a source are lowered from those of a stage, under their names. -/
def ResolvedStage.LowersConstants {τ : Type} (s : ResolvedStage) (spelling : Mention → List String)
    (printed : List (String × Code.Expr τ)) : Prop :=
  List.Forall₂ (fun c x => x.1 = c.1.name ∧
    x.2.Within (c.2.mentions.flatMap spelling) (s.calling c.2)) s.constants printed

/-- The constants of the module are those of the stage, in order. -/
theorem Glsl.Module.Of.lowersConstants {s : ResolvedStage} {m : Glsl.Module}
    (h : Glsl.Module.Of s m) :
    s.LowersConstants (Glsl.spelling s) (m.constants.map fun k => (k.field.name, k.value)) := by
  refine List.forall₂_map_right_iff.mpr (h.constants.imp fun c k hk => ?_)
  obtain ⟨hname, hvalue⟩ := Glsl.constant_eq_ok hk
  exact ⟨hname, Glsl.within_of_expr hvalue⟩

/-- The constants of the module are those of the stage, in order. -/
theorem Wgsl.Module.Of.lowersConstants {s : ResolvedStage} {m : Wgsl.Module}
    (h : Wgsl.Module.Of s m) :
    s.LowersConstants (Wgsl.spelling s) (m.constants.map fun k => (k.name, k.value)) := by
  refine List.forall₂_map_right_iff.mpr (h.constants.imp fun c k hk => ?_)
  obtain ⟨hname, hvalue⟩ := Wgsl.constant_eq_ok hk
  exact ⟨hname, Wgsl.within_of_expr hvalue⟩

/-- The constants of a source stand in the order of their declarations, under names that no other
global of the stage has. What they are initialized with calls nothing, and each name in it is that
of a constant that stands before, and that the initializer of the stage reads. -/
structure BuiltStage.PrintsInOrder {τ : Type} (b : Builder) (st : BuiltStage)
    (printed : List (String × Code.Expr τ)) : Prop where
  names : printed.map (·.1) = st.decls.constants.map (nameIn b.vars)
  nodup : (st.decls.globals.map (nameIn b.vars)).Nodup
  calls : ∀ x ∈ printed, x.2.calls = []
  earlier : ∀ (k : Nat) x, printed[k]? = some x → ∀ name ∈ x.2.names, ∃ j < k, ∃ v w,
    st.decls.constants[k]? = some v ∧ st.decls.constants[j]? = some w ∧ b.InitReads v w ∧
      (printed.map (·.1))[j]? = some name

/-- A text is the source of a stage, and declares its constants before they are named. -/
inductive BuiltStage.PrintsInOrderIn (b : Builder) (st : BuiltStage) (s : ResolvedStage)
    (text : String) : Prop
  | wgsl {m : Wgsl.Module} : s.target = .webGPU → Wgsl.module s = .ok m →
      text = m.text s.indentWidth →
      st.PrintsInOrder b (m.constants.map fun k => (k.name, k.value)) →
      PrintsInOrderIn b st s text
  | glsl {m : Glsl.Module} : s.target ≠ .webGPU → Glsl.module s = .ok m →
      text = m.text s.indentWidth →
      st.PrintsInOrder b (m.constants.map fun k => (k.field.name, k.value)) →
      PrintsInOrderIn b st s text

/-! ## Sources -/

namespace Builder.InitializesInOrder

variable {b b' : Builder} {start : Nat} {st : BuiltStage} {s : ResolvedStage} {τ : Type}
  {spelling : Mention → List String} {printed : List (String × Code.Expr τ)}

/-- Where initializers only read constants before them, their source declares these first. -/
theorem printsInOrder (h : b.InitializesInOrder start st.decls.constants)
    (hown : st.OwnsConstants b start)
    (hnodup : (st.decls.globals.map (nameIn b.vars)).Nodup)
    (hresolved : List.Forall₂ (fun v c => b.resolveConstant v = .ok c) st.decls.constants
      s.constants)
    (hspelling : ∀ w d, b.var? w = some d → d.role = .constant → spelling (.var w) = [d.name])
    (hprinted : s.LowersConstants spelling printed) : st.PrintsInOrder b printed := by
  have hnames : printed.map (·.1) = st.decls.constants.map (nameIn b.vars) := by
    rw [map_eq_map_of_forall₂ hresolved (g := fun c => c.1.name)
      fun v c hc => nameIn_eq (var_of_resolveConstant hc)]
    exact (map_eq_map_of_forall₂ hprinted fun c x hx => hx.1.symm).symm
  have hfoldable : ∀ (k : Nat) x, printed[k]? = some x → ∃ (v : VarId) (c : Variable × Term),
      st.decls.constants[k]? = some v ∧
      x.2.Within (c.2.mentions.flatMap spelling) (s.calling c.2) ∧
      c.2.IsFoldable fun w => b.InitReads v w ∧ ∃ j < k, st.decls.constants[j]? = some w := by
    intro k x hx
    obtain ⟨c, hc, -, hwithin⟩ := getElem?_of_forall₂ hprinted hx
    obtain ⟨v, hv, hresolve⟩ := getElem?_of_forall₂ hresolved hc
    exact ⟨v, c, hv, hwithin, h.isFoldable hown hv hresolve⟩
  refine ⟨hnames, hnodup, fun x hx => ?_, fun k x hx name hname => ?_⟩
  · obtain ⟨k, hk⟩ := List.mem_iff_getElem?.mp hx
    obtain ⟨v, c, -, hwithin, hfold⟩ := hfoldable k x hk
    have hcalls := hwithin.calls
    rw [ResolvedStage.calling, hfold.callees_eq_nil] at hcalls
    exact List.subset_nil.mp hcalls
  · obtain ⟨v, c, hv, hwithin, hfold⟩ := hfoldable k x hx
    obtain ⟨mention, hmention, hspelled⟩ := List.mem_flatMap.mp (hwithin.names hname)
    obtain ⟨w, rfl, hreads, j, hj, hw⟩ := hfold.mentions mention hmention
    obtain ⟨d, -, hd, hrole, -⟩ := h.initialized j w hw
    rw [hspelling w d hd hrole, List.mem_singleton] at hspelled
    refine ⟨j, hj, v, w, hv, hw, hreads, ?_⟩
    rw [hnames, List.getElem?_map, hw, Option.map_some, nameIn_eq hd, hspelled]

/-- In the source of a stage whose initializers only read constants before them, these are declared
first. -/
theorem printsInOrderIn (h : b.InitializesInOrder start st.decls.constants)
    (hown : st.OwnsConstants b start)
    (hnodup : (st.decls.globals.map (nameIn b.vars)).Nodup)
    (hresolved : List.Forall₂ (fun v c => b.resolveConstant v = .ok c) st.decls.constants
      s.constants)
    (hvars : b.vars.toList <+: s.vars.toList) {text : String} (htext : s.text = .ok text) :
    st.PrintsInOrderIn b s text := by
  have hvar : ∀ w d, b.var? w = some d → s.vars[w.index]? = some d :=
    fun w d hd => getElem?_of_starts hvars hd
  rcases ResolvedStage.text_eq_ok htext with ⟨htarget, m, hm, rfl⟩ | ⟨htarget, m, hm, rfl⟩
  · refine .wgsl htarget hm rfl (h.printsInOrder hown hnodup hresolved (fun w d hd hrole => ?_)
      (Wgsl.Module.of_module hm).lowersConstants)
    rw [Wgsl.spelling_of_own (hvar w d hd) (by simp [hrole]), nameIn_eq (hvar w d hd)]
  · refine .glsl htarget hm rfl (h.printsInOrder hown hnodup hresolved (fun w d hd hrole => ?_)
      (Glsl.Module.of_module hm).lowersConstants)
    rw [Glsl.spelling_of_own (hvar w d hd) (by rw [hrole]; rfl) (by rw [hrole]; rfl),
      nameIn_eq (hvar w d hd)]

end Builder.InitializesInOrder

end WebShader
