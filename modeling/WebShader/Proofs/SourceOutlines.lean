import WebShader.Proofs.GlslLegible
import WebShader.Proofs.GlslTypes
import WebShader.Proofs.WgslLegible
import WebShader.Proofs.WgslNames
import WebShader.Program

/-!
# Outlines of sources

The lines and blocks of whole sources: their declarations, their functions and their entry points.
-/

namespace WebShader

namespace Adds

variable {text : String} {items : List Item}

/-- Items one a piece. -/
theorem join_map {α : Type} {f : α → String} {g : α → Item} {xs : List α}
    (h : ∀ x ∈ xs, Adds (f x) [g x]) : Adds (String.join (xs.map f)) (xs.map g) := by
  have hjoin := Adds.join h
  rwa [← List.map_eq_flatMap] at hjoin

/-- Spaces may stand before items. -/
theorem after_spaces {space : String} (hspace : IsBlank space)
    (h : Adds text items) : Adds (space ++ text) items := (Adds.spaces hspace).append h

end Adds

/-! ## Heads of structs -/

/-- A name is one token. -/
theorem tokens_isName {n : String} (h : isName n = true) : tokens n = [.word n] := by
  have hread := TextTree.read_isName h (show Token.endsWord [] = true from rfl)
  rwa [List.append_nil] at hread

/-- The head of a struct is the word that starts it and the tokens of its name. -/
theorem tokens_struct (name : String) :
    tokens ("struct " ++ name) = .word "struct" :: tokens name := tokens_spaced "struct" name

/-! ## GLSL ES -/

namespace Glsl

/-! ### Declarations -/

/-- The line of a member. -/
def Field.item (f : Field) : Item := .line (tokens f.text)

/-- A struct is a block, and a semicolon ends its declaration. -/
def Struct.items (s : Struct) : List Item :=
  [.block (tokens ("struct " ++ s.name)) (s.fields.map Field.item) [], .line []]

/-- The line of a constant. -/
def Constant.item (c : Constant) : Item :=
  .line (tokens ("const " ++ c.field.text ++ " = " ++ c.value.text dialect))

/-- The line of a variable that enters or leaves a stage. -/
def Interface.item (i : Interface) : Item :=
  .line (tokens (i.qualifier.text ++ " " ++ i.field.text))

/-- A block of uniforms is followed by its name. -/
def Uniform.items : Uniform → List Item
  | block s name =>
    [.block (tokens ("layout(std140) uniform " ++ s.name)) (s.fields.map Field.item) [],
      .line (tokens name)]
  | plain f => [.line (tokens ("uniform " ++ f.text))]

/-- The text of a function up to its body. -/
def Function.head (f : Function) : String :=
  f.result.text ++ " " ++ f.name ++ "(" ++ ", ".intercalate (f.params.map (·.text)) ++ ")"

/-- Parameters stand last in the head of a function. -/
theorem Function.exists_tokens_head (f : Function) :
    ∃ before, tokens f.head = before ++ [.sign ")"] := ⟨_, tokens_append_close _⟩

/-- The block of a function. -/
def Function.item (f : Function) : Item :=
  .block (tokens f.head) (Code.Stmt.blockItems dialect f.body) []

namespace Module

/-- The entry point, as a function. -/
def entry (m : Module) : Function := ⟨.void, "main", [], m.main⟩

/-- What stands before the first semicolon of a source. -/
def preamble (m : Module) : String :=
  (if m.isVersion300 then "#version 300 es\n" else "") ++
    String.join (m.extensions.map fun e => "#extension " ++ e.name ++ " : enable\n") ++
      "precision highp float"

/-- The lines before the declarations of a source. -/
def headerItems (m : Module) : List Item :=
  [.line (tokens m.preamble), .line (tokens "precision highp int")] ++
    (m.samplers.filter fun s => !hasDefaultPrecision s).map fun s =>
      .line (tokens ("precision highp " ++ s))

/-- The items of a source. -/
def items (m : Module) : List Item :=
  m.headerItems ++ m.structs.flatMap Struct.items ++ m.constants.map Constant.item ++
    m.interfaces.map Interface.item ++ m.uniforms.flatMap Uniform.items ++
    (m.functions ++ [m.entry]).map Function.item

end Module

/-! ### Legible sources -/

/-- The type of a declaration is legible, and its name is one. -/
structure Field.IsLegible (ok : String → Prop) (f : Field) : Prop where
  type : f.type.Legible ok
  name : isName f.name = true

/-- The names and members of a struct are legible. -/
structure Struct.IsLegible (ok : String → Prop) (s : Struct) : Prop where
  name : ok s.name
  fields : ∀ f ∈ s.fields, f.IsLegible ok

/-- What a uniform declares is legible. -/
def Uniform.IsLegible (ok : String → Prop) : Uniform → Prop
  | block s name => s.IsLegible ok ∧ ok name
  | plain f => f.IsLegible ok

/-- What a function declares is legible, and so is its body. -/
structure Function.IsLegible (ok : String → Prop) (f : Function) : Prop where
  result : f.result.Legible ok
  name : ok f.name
  params : ∀ p ∈ f.params, p.IsLegible ok
  body : ∀ s ∈ f.body, s.Legible ok (TypeName.Legible ok)

/-- All that a source declares is legible. -/
structure Module.IsLegible (ok : String → Prop) (m : Module) : Prop where
  samplers : ∀ s ∈ m.samplers, IsPlain s
  structs : ∀ s ∈ m.structs, s.IsLegible ok
  constants : ∀ c ∈ m.constants, c.field.IsLegible ok ∧ Expr.Legible ok c.value
  interfaces : ∀ i ∈ m.interfaces, i.field.IsLegible ok
  uniforms : ∀ u ∈ m.uniforms, u.IsLegible ok
  functions : ∀ f ∈ m.functions ++ [m.entry], f.IsLegible ok

section Adds

variable {ok : String → Prop} (hok : ∀ n, ok n → IsPlain n) (width : Nat)
include hok

/-- A legible declaration ends no line and opens no block. -/
theorem Field.IsLegible.plain {f : Field} (h : f.IsLegible ok) : IsPlain f.text :=
  h.type.plain_declare hok (.of_isName h.name)

/-- The members of a struct or a block are its lines. -/
theorem adds_fieldLines {fields : List Field} (h : ∀ f ∈ fields, f.IsLegible ok) :
    Adds (fieldLines width fields) (fields.map Field.item) := by
  refine Adds.join_map fun f hf => ?_
  rw [String.append_assoc]
  exact Adds.after_spaces (Code.Stmt.isBlank_indent width 1)
    (Adds.text_line ((h f hf).plain hok))

/-- A legible struct is one block, and the end of a line. -/
theorem Struct.IsLegible.adds {s : Struct} (h : s.IsLegible ok) : Adds (s.text width) s.items := by
  have hblock := @Adds.text_block _ _ _ "" (IsPlain.append (a := "struct ") (by decide)
    (hok _ h.name)) (adds_fieldLines hok width h.fields) (by decide)
  have hend := @Adds.text_line "" (by decide)
  have htext : s.text width = ("struct " ++ s.name ++ " \x7b\n" ++
      fieldLines width s.fields ++ "" ++
      "\x7d") ++ ("" ++ ";\n") ++ "\n" := by
    rw [Struct.text]
    simp only [String.append_assoc]
    rfl
  rw [htext]
  exact (hblock.append hend).append (Adds.spaces (by decide))

/-- Legible uniforms are a block with a name after it, or a line. -/
theorem Uniform.IsLegible.adds {u : Uniform} (h : u.IsLegible ok) :
    Adds (u.text width) u.items := by
  cases u with
  | block s name =>
      obtain ⟨hs, hname⟩ := h
      have hblock := @Adds.text_block _ _ _ "" (IsPlain.append (a := "layout(std140) uniform ")
        (by decide) (hok _ hs.name)) (adds_fieldLines hok width hs.fields) (by decide)
      have htext : Uniform.text width (.block s name) = ("layout(std140) uniform " ++ s.name ++
          " \x7b\n" ++ fieldLines width s.fields ++ "" ++ "\x7d") ++ (" " ++ (name ++ ";\n")) := by
        show "layout(std140) uniform " ++ s.name ++ " \x7b\n" ++ fieldLines width s.fields ++
          ("\x7d" ++ " ") ++ name ++ ";\n" = _
        simp only [String.append_assoc, String.empty_append]
      rw [htext]
      exact hblock.append (Adds.after_spaces (by decide) (Adds.text_line (hok _ hname)))
  | plain f => exact Adds.text_line (IsPlain.append (by decide) (Field.IsLegible.plain hok h))

/-- What stands before the body of a legible function ends no line. -/
theorem Function.IsLegible.plain_head {f : Function} (h : f.IsLegible ok) : IsPlain f.head := by
  have hparams : ∀ text ∈ f.params.map (·.text), IsPlain text :=
    List.forall_mem_map.mpr fun p hp => (h.params p hp).plain hok
  exact (((((h.result.plain hok).append (by decide)).append (hok _ h.name)).append
    (by decide)).append (.intercalate (by decide) hparams)).append (by decide)

/-- A legible function is one block, with the outline of its body inside. -/
theorem Function.IsLegible.adds {f : Function} (h : f.IsLegible ok) :
    Adds (f.text width) [f.item] := by
  have hblock := @Code.Stmt.adds_braces_line _ dialect width _ _ (h.plain_head hok)
    (fun s hs level => Code.Stmt.adds_items (isPlain_dialect hok) (h.body s hs) level) 0
  have hindent : Code.indent width 0 = "" := by rw [Code.indent, Nat.zero_mul]; rfl
  have htext : f.text width = f.head ++ " \x7b\n" ++
      Code.Stmt.blockText dialect width (0 + 1) f.body ++ Code.indent width 0 ++ "\x7d\n" := by
    rw [Function.text, Function.head, hindent]
    simp only [String.append_assoc]
    rfl
  rw [htext]
  exact hblock

omit hok in
/-- The declarations of extensions and precisions are lines. -/
theorem Module.IsLegible.adds_header {m : Module} (h : m.IsLegible ok) :
    Adds m.header m.headerItems := by
  have hversion : IsPlain (if m.isVersion300 then "#version 300 es\n" else "") := by
    split <;> decide
  have hextensions : IsPlain
      (String.join (m.extensions.map fun e => "#extension " ++ e.name ++ " : enable\n")) := by
    refine IsPlain.join (List.forall_mem_map.mpr fun e _ => ?_)
    cases e <;> decide
  have hpreamble : IsPlain m.preamble := (hversion.append hextensions).append (by decide)
  have hsamplers : Adds (String.join
      ((m.samplers.filter fun s => !hasDefaultPrecision s).map fun s =>
      "precision highp " ++ s ++ ";\n")) ((m.samplers.filter fun s => !hasDefaultPrecision s).map
        fun s => .line (tokens ("precision highp " ++ s))) :=
    Adds.join_map fun s hs =>
      Adds.text_line (IsPlain.append (by decide) (h.samplers s (List.mem_of_mem_filter hs)))
  have hints : Adds ("precision highp int" ++ ";\n") [.line (tokens "precision highp int")] :=
    Adds.text_line (by decide)
  have htext : m.header = (m.preamble ++ ";\n" ++ ("precision highp int" ++ ";\n")) ++
      String.join ((m.samplers.filter fun s => !hasDefaultPrecision s).map fun s =>
        "precision highp " ++ s ++ ";\n") ++ "\n" := by
    rw [header, preamble]
    simp only [String.append_assoc]
    rfl
  have hall := (((Adds.text_line hpreamble).append hints).append hsamplers).append
    Adds.newline
  rw [List.append_nil] at hall
  rw [htext]
  exact hall

/-- The outline of a legible source. -/
theorem Module.IsLegible.adds {m : Module} (h : m.IsLegible ok) : Adds (m.text width) m.items := by
  have hconstants : Adds (String.join (m.constants.map (·.text))) (m.constants.map Constant.item) :=
    Adds.join_map fun c hc => by
      obtain ⟨hfield, hvalue⟩ := h.constants c hc
      exact Adds.text_line (((IsPlain.append (by decide) (hfield.plain hok)).append
        (by decide)).append (hvalue.plain hok fun _ ht => ht.plain hok))
  have hinterfaces : Adds (String.join (m.interfaces.map (·.text)))
      (m.interfaces.map Interface.item) :=
    Adds.join_map fun i hi => by
      have hqualifier : IsPlain i.qualifier.text := by
        cases i.qualifier with
        | inAt n | outAt n =>
            exact (IsPlain.append (by decide) (.nat n)).append (by decide)
        | _ => exact (show IsPlain _ by decide)
      exact Adds.text_line ((hqualifier.append (by decide)).append
        ((h.interfaces i hi).plain hok))
  have hfunctions : Adds (String.join
      ((m.functions ++ [m.entry]).map fun f => "\n" ++ f.text width))
      ((m.functions ++ [m.entry]).map Function.item) :=
    Adds.join_map fun f hf => Adds.after_spaces (by decide) ((h.functions f hf).adds hok width)
  exact ((((h.adds_header.append (Adds.join fun s hs => (h.structs s hs).adds hok width)).append
    hconstants).append hinterfaces).append
      (Adds.join fun u hu => (h.uniforms u hu).adds hok width)).append
      hfunctions

end Adds

/-! ### Sources of stages -/

section Stages

variable {ok : String → Prop} {s : ResolvedStage} {m : Module}

/-- The names of the registered types are legible. -/
theorem legible_typeOf (hs : s.types.HasNames ok) {t : TypeId} {name : TypeName}
    (h : typeOf s t = .ok name) : name.Legible ok :=
  legible_typeName hs h

/-- A declaration is legible if its name is one. -/
theorem isLegible_field (hs : s.types.HasNames ok) {name : String} (hname : isName name = true)
    {t : TypeId}
    {f : Field} (h : field s name t = .ok f) : f.IsLegible ok := by
  simp only [field, bind_eq_ok_iff] at h
  obtain ⟨type, htype, h⟩ := h
  rw [← Except.ok.inj h]
  exact ⟨legible_typeOf hs htype, hname⟩

/-- The members of a registered struct are declared legibly. -/
theorem isLegible_members (hs : s.types.HasNames ok) {t : TypeId} {st : StructType}
    (hst : s.types.kind t = .struct st) {fields : List Field}
    (h : st.members.mapM (fun m => field s m.name m.type) = .ok fields) :
    ∀ f ∈ fields, f.IsLegible ok := by
  intro f hf
  obtain ⟨m, hm, hfield⟩ := exists_mem_of_forall₂ (mapM_eq_ok_iff.mp h) f hf
  exact isLegible_field hs ((hs t st hst).2 m hm) hfield

/-- A registered struct is declared legibly. -/
theorem isLegible_struct (hs : s.types.HasNames ok) {t : TypeId} {d : Struct}
    (h : struct s t = .ok d) : d.IsLegible ok := by
  simp only [struct, bind_eq_ok_iff] at h
  obtain ⟨st, hst, fields, hfields, h⟩ := h
  have hkind := ResolvedStage.struct_eq_ok_iff.mp hst
  rw [← Except.ok.inj h]
  exact ⟨(hs t st hkind).1, isLegible_members hs hkind hfields⟩

/-- What is bound is declared legibly. -/
theorem isLegible_uniform (hok : AdmitsNames ok) (hs : s.HasNames ok) {b : Binding.Record}
    (hb : b ∈ s.records) {u : Uniform} (h : uniform s b = .ok u) : u.IsLegible ok := by
  have hname := hs.visible hb
  unfold uniform at h
  split at h
  · split at h
    · cases h
    · rename_i t _ _ st hst
      have hkind := Registry.struct?_eq_some_iff.mp hst
      split at h
      · obtain ⟨fields, hfields, h⟩ := bind_eq_ok_iff.mp h
        rw [← Except.ok.inj h]
        exact ⟨⟨(hs.structs t st hkind).1, isLegible_members hs.structs hkind hfields⟩, hname⟩
      · rw [← Except.ok.inj h]
        exact ⟨(hs.structs t st hkind).1, hok.isName _ hname⟩
  · obtain ⟨sampler, hsampler, h⟩ := bind_eq_ok_iff.mp h
    rw [← Except.ok.inj h]
    exact ⟨isFreeName_samplerName hsampler, hok.isName _ hname⟩
  · cases h

/-- A function of a stage is declared legibly. -/
theorem isLegible_function (hok : AdmitsNames ok) (hs : s.HasNames ok) (hb : s.HasBranches)
    {f : WebShader.Function × List (WebShader.Stmt Term)} (hf : f ∈ s.functions) {g : Function}
    (h : function s f = .ok g) : g.IsLegible ok := by
  simp only [function, bind_eq_ok_iff] at h
  obtain ⟨result, hresult, params, hparams, body, hbody, h⟩ := h
  rw [← Except.ok.inj h]
  refine ⟨legible_typeOf hs.structs hresult, (hs.defined f hf).1, fun p hp => ?_, ?_⟩
  · obtain ⟨v, -, hv⟩ := exists_mem_of_forall₂ (mapM_eq_ok_iff.mp hparams) p hp
    obtain ⟨d, hd, hv⟩ := bind_eq_ok_iff.mp hv
    exact isLegible_field hs.structs (hok.isName _ (hs.var hd)) hv
  · exact Code.Lowering.legible_block (isLegible_lowering hok hs) f.2 (hb.bodies f hf) hbody

/-- What is true of a name and of a list of names is true of the list with that name in it. -/
theorem forall_mem_insertName {P : String → Prop} {name : String} (hname : P name)
    {names : List String} (h : ∀ n ∈ names, P n) : ∀ n ∈ insertName name names, P n := by
  induction names with
  | nil => exact List.forall_mem_singleton.mpr hname
  | cons n rest ih =>
      rw [List.forall_mem_cons] at h
      rw [insertName]
      split_ifs
      · exact List.forall_mem_cons.mpr ⟨hname, List.forall_mem_cons.mpr h⟩
      · exact List.forall_mem_cons.mpr h
      · exact List.forall_mem_cons.mpr ⟨h.1, ih h.2⟩

/-- The precisions of samplers end no line. -/
theorem isPlain_samplers {names : List String} (h : samplers s = .ok names) :
    ∀ n ∈ names, IsPlain n := by
  simp only [samplers, bind_eq_ok_iff] at h
  obtain ⟨found, hfound, h⟩ := h
  have hplain : ∀ n ∈ found, IsPlain n := fun n hn => by
    obtain ⟨t, -, ht⟩ := exists_mem_of_forall₂ (mapM_eq_ok_iff.mp hfound) n hn
    exact (isFreeName_samplerName ht).phrase.plain
  rw [← Except.ok.inj h]
  clear hfound h
  induction found with
  | nil => exact List.forall_mem_nil _
  | cons n rest ih =>
      rw [List.forall_mem_cons] at hplain
      exact forall_mem_insertName hplain.1 (ih hplain.2)

/-- The sampler types of a source end no line. -/
theorem samplers_of_module (h : module s = .ok m) : ∀ n ∈ m.samplers, IsPlain n := by
  unfold module at h
  by_cases htarget : s.target = .webGL2
  · simp only [htarget, ↓reduceIte, bind_eq_ok_iff] at h
    obtain ⟨names, hnames, _, -, _, -, _, -, _, -, _, -, _, -, _, -, h⟩ := h
    rw [← Except.ok.inj h]
    exact isPlain_samplers hnames
  · simp only [htarget, ↓reduceIte, pure_bind, bind_eq_ok_iff] at h
    obtain ⟨_, -, _, -, _, -, _, -, _, -, _, -, _, -, h⟩ := h
    rw [← Except.ok.inj h]
    exact List.forall_mem_nil _

/-- An input is declared legibly. -/
theorem isLegible_input (hok : AdmitsNames ok) (hs : s.HasNames ok) {v : VarId} {i : Interface}
    (h : input s v = .ok i) : i.field.IsLegible ok := by
  simp only [input, bind_eq_ok_iff] at h
  obtain ⟨d, hd, f, hf, h⟩ := h
  have hfield := isLegible_field hs.structs (hok.isName _ (hs.var hd)) hf
  split at h
  · rw [← Except.ok.inj h]
    exact hfield
  · cases h

/-- An output is declared legibly. -/
theorem isLegible_output (hok : AdmitsNames ok) (hs : s.HasNames ok) {v : VarId}
    {o : Option Interface}
    (h : output s v = .ok o) : ∀ i ∈ o, i.field.IsLegible ok := by
  simp only [output, bind_eq_ok_iff] at h
  obtain ⟨d, hd, f, hf, h⟩ := h
  have hfield := isLegible_field hs.structs (hok.isName _ (hs.var hd)) hf
  split at h
  · split_ifs at h
    all_goals
      rw [← Except.ok.inj h]
      rintro i ⟨⟩
      try exact hfield
  · cases h

/-- The source of a stage is legible where its names are. -/
theorem isLegible_module (hok : AdmitsNames ok) (hs : s.HasNames ok) (hb : s.HasBranches)
    (h : module s = .ok m) : m.IsLegible ok := by
  have hm := Module.of_module h
  obtain ⟨inputs, outputs, hinputs, houtputs, hinterfaces⟩ := hm.interfaces
  refine ⟨samplers_of_module h, fun d hd => ?_, fun c hc => ?_, ?_, fun u hu => ?_, fun f hf => ?_⟩
  · obtain ⟨t, -, ht⟩ := exists_mem_of_forall₂ (structs_of_module h) d hd
    exact isLegible_struct hs.structs ht
  · obtain ⟨x, hx, hc⟩ := exists_mem_of_forall₂ hm.constants c hc
    simp only [constant, bind_eq_ok_iff] at hc
    obtain ⟨f, hf, value, hvalue, hc⟩ := hc
    rw [← Except.ok.inj hc]
    exact ⟨isLegible_field hs.structs (hok.isName _ (hs.constants x hx)) hf,
      legible_expr hok hs _ hvalue⟩
  · rw [hinterfaces, List.forall_mem_append]
    constructor
    · intro i hi
      obtain ⟨v, -, hv⟩ := exists_mem_of_forall₂ hinputs i hi
      exact isLegible_input hok hs hv
    · intro i hi
      obtain ⟨o, ho, hi⟩ := List.mem_filterMap.mp hi
      obtain ⟨v, -, hv⟩ := exists_mem_of_forall₂ houtputs o ho
      exact isLegible_output hok hs hv i hi
  · obtain ⟨b, hb, hu⟩ := exists_mem_of_forall₂ hm.uniforms u hu
    exact isLegible_uniform hok hs hb hu
  · rcases List.mem_append.mp hf with hf | hf
    · obtain ⟨x, hx, hg⟩ := exists_mem_of_forall₂ hm.functions f hf
      exact isLegible_function hok hs hb hx hg
    · rw [List.mem_singleton.mp hf]
      exact ⟨trivial, hok.name "main" (by decide) (by decide), List.forall_mem_nil _,
        Code.Lowering.legible_block (isLegible_lowering hok hs) s.main hb.main hm.main⟩

end Stages

end Glsl

/-! ## WGSL -/

namespace Wgsl

/-! ### Declarations -/

/-- The text of the members of a struct, from the first one on. -/
def Struct.memberText (width : Nat) (s : Struct) : List Char :=
  (String.join (s.fields.map fun f => Code.indent width 1 ++ f.text ++ ",\n")).toList.dropWhile
    Char.isWhitespace

/-- A struct is a block with neither lines nor blocks inside. -/
def Struct.item (width : Nat) (s : Struct) : Item :=
  .block (tokens ("struct " ++ s.name)) [] (s.memberText width)

/-- The line of a constant. -/
def Constant.item (c : Constant) : Item :=
  .line (tokens ("const " ++ c.name ++ ": " ++ c.type.text ++ " = " ++ c.value.text dialect))

/-- The text of a variable, without the semicolon. -/
def Global.head (g : Global) : String :=
  (match g.binding with
    | some (group, index) =>
      "@group(" ++ toString group.toNat ++ ") @binding(" ++ toString index ++ ") "
    | none => "") ++ "var" ++ g.storage.text ++ " " ++ g.name ++ ": " ++ g.type.text

/-- The line of a variable. -/
def Global.item (g : Global) : Item := .line (tokens g.head)

/-- The text of a function up to its body. -/
def Function.head (f : Function) : String :=
  "fn " ++ f.name ++ "(" ++ ", ".intercalate (f.params.map (·.text)) ++ ")" ++
    (match f.result with
      | some t => " -> " ++ t.text
      | none => "")

/-- The head of a function starts with the word that tells so. -/
theorem Function.exists_tokens_head (f : Function) :
    ∃ more, tokens f.head = .word "fn" :: more := by
  rw [Function.head]
  simp only [String.append_assoc]
  exact ⟨_, tokens_spaced "fn" _⟩

/-- The block of a function, which may have attributes. -/
def Function.item (attributes : String) (f : Function) : Item :=
  .block (tokens (attributes ++ f.head)) (Code.Stmt.blockItems dialect f.body) []

namespace Module

/-- The body that the author wrote, as a function. -/
def authored (m : Module) : Function := ⟨"stage_main", [], none, m.main⟩

/-- The head of an entry point starts with its attributes. -/
theorem exists_tokens_entry (m : Module) :
    ∃ more, tokens (entryAttributes m.stage m.workgroupSize ++ "\n" ++ m.entry.head) =
      .sign "@" :: more := by
  have hsign : ∀ text, tokens ("@" ++ text) = .sign "@" :: tokens text := fun text => by
    rw [tokens, String.toList_append]
    exact Token.read_append_mark [] (by decide) text.toList
  have hattributes : ∃ text, entryAttributes m.stage m.workgroupSize = "@" ++ text := by
    unfold entryAttributes
    cases m.stage with
    | vertex => exact ⟨"vertex", rfl⟩
    | fragment => exact ⟨"fragment", rfl⟩
    | compute =>
        have hcompute : ∀ rest, "@compute @workgroup_size(" ++ rest =
            "@" ++ ("compute @workgroup_size(" ++ rest) := fun rest => by
          rw [← String.append_assoc]
          rfl
        simp only [String.append_assoc]
        exact ⟨_, hcompute _⟩
  obtain ⟨text, hattributes⟩ := hattributes
  rw [hattributes, String.append_assoc, String.append_assoc, hsign]
  exact ⟨_, rfl⟩

/-- The items of a source. -/
def items (width : Nat) (m : Module) : List Item :=
  (if m.usesHalf then [.line (tokens "enable f16")] else []) ++ m.structs.map (Struct.item width) ++
    (declared m.input ++ declared m.output).map (Struct.item 2) ++ m.constants.map Constant.item ++
    (m.globals ++ m.interfaceGlobals).map Global.item ++
    (m.functions ++ [m.authored]).map (Function.item "") ++
    [m.entry.item (entryAttributes m.stage m.workgroupSize ++ "\n")]

end Module

/-! ### Legible sources -/

/-- The built-in that an attribute tells of has a name. -/
def Attribute.IsLegible : Attribute → Prop
  | builtin name => isName name = true
  | _ => True

/-- The attributes and the type of a declaration are legible, and its name is one. -/
structure Field.IsLegible (ok : String → Prop) (f : Field) : Prop where
  attributes : ∀ a ∈ f.attributes, a.IsLegible
  name : isName f.name = true
  type : f.type.Legible ok

/-- The names and members of a struct are legible. -/
structure Struct.IsLegible (ok : String → Prop) (s : Struct) : Prop where
  name : isName s.name = true
  fields : ∀ f ∈ s.fields, f.IsLegible ok

/-- What a variable declares is legible. -/
structure Global.IsLegible (ok : String → Prop) (g : Global) : Prop where
  name : IsPlain g.name
  type : g.type.Legible ok

/-- What a function declares is legible, and so is its body. -/
structure Function.IsLegible (ok : String → Prop) (f : Function) : Prop where
  name : IsPlain f.name
  params : ∀ p ∈ f.params, p.IsLegible ok
  result : ∀ t ∈ f.result, t.Legible ok
  body : ∀ s ∈ f.body, s.Legible ok (TypeName.Legible ok)

/-- All that a source declares is legible. -/
structure Module.IsLegible (ok : String → Prop) (m : Module) : Prop where
  structs : ∀ s ∈ m.structs, s.IsLegible ok
  input : m.input.IsLegible ok
  output : m.output.IsLegible ok
  constants : ∀ c ∈ m.constants, IsPlain c.name ∧ c.type.Legible ok ∧ Expr.Legible ok c.value
  globals : ∀ g ∈ m.globals ++ m.interfaceGlobals, g.IsLegible ok
  functions : ∀ f ∈ m.functions ++ [m.authored], f.IsLegible ok
  entry : m.entry.IsLegible ok

section Adds

variable {ok : String → Prop} (hok : ∀ n, ok n → IsPlain n) (width : Nat)
include hok

omit hok in
/-- A legible attribute ends no line and opens no block. -/
theorem Attribute.IsLegible.plain {a : Attribute} (h : a.IsLegible) : IsPlain a.text := by
  cases a with
  | align n | size n | location n => exact (IsPlain.append (by decide) (.nat n)).append (by decide)
  | builtin name => exact (IsPlain.append (by decide) (.of_isName h)).append (by decide)
  | flat => decide

theorem Field.IsLegible.plain {f : Field} (h : f.IsLegible ok) : IsPlain f.text := by
  have hattributes : IsPlain (String.join (f.attributes.map (·.text ++ " "))) :=
    IsPlain.join (List.forall_mem_map.mpr fun a ha => (h.attributes a ha).plain.append (by decide))
  exact ((hattributes.append (.of_isName h.name)).append (by decide)).append (h.type.plain hok)

/-- A legible struct is one block, with the rest of its last member behind the last line. -/
theorem Struct.IsLegible.adds {s : Struct} (h : s.IsLegible ok) :
    Adds (s.text width) [s.item width] := by
  have hmembers : IsPlain (String.join (s.fields.map fun f =>
      Code.indent width 1 ++ f.text ++ ",\n")) :=
    IsPlain.join (List.forall_mem_map.mpr fun f hf =>
      ((Adds.isPlain_spaces (Code.Stmt.isBlank_indent width 1)).append
        ((h.fields f hf).plain hok)).append (by decide))
  have hblock := Adds.block (IsPlain.append (a := "struct ") (by decide)
    ((IsPlain.of_isName h.name).append (b := " ") (by decide))) Adds.newline hmembers
  have htokens : tokens ("struct " ++ (s.name ++ " ")) = tokens ("struct " ++ s.name) := by
    have hspaced := tokens_spaced ("struct " ++ s.name) ""
    rw [String.append_empty, String.append_assoc] at hspaced
    exact hspaced.trans (List.append_nil _)
  rw [htokens] at hblock
  have htext : s.text width = ("struct " ++ (s.name ++ " ") ++ "\x7b" ++ "\n" ++ String.join
      (s.fields.map fun f => Code.indent width 1 ++ f.text ++ ",\n") ++ "\x7d") ++ "\n\n" := by
    show "struct " ++ s.name ++ (" " ++ "\x7b" ++ "\n") ++ _ ++ ("\x7d" ++ "\n\n") = _
    simp only [String.append_assoc]
  rw [htext]
  exact hblock.append (Adds.spaces (by decide))

/-- A legible global variable is one line. -/
theorem Global.IsLegible.adds {g : Global} (h : g.IsLegible ok) : Adds g.text [g.item] := by
  have hbinding : IsPlain (match g.binding with
      | some (group, index) =>
        "@group(" ++ toString group.toNat ++ ") @binding(" ++ toString index ++ ") "
      | none => "") := by
    split
    · exact (((IsPlain.append (by decide) (.nat _)).append (by decide)).append (.nat _)).append
        (by decide)
    · decide
  have hstorage : IsPlain g.storage.text := by
    cases g.storage with
    | storage readOnly => cases readOnly <;> decide
    | _ => exact (show IsPlain _ by decide)
  exact Adds.text_line ((((((hbinding.append (by decide)).append hstorage).append
    (by decide)).append h.name).append (by decide)).append (h.type.plain hok))

theorem Function.IsLegible.plain_head {f : Function} (h : f.IsLegible ok) : IsPlain f.head := by
  have hparams : ∀ text ∈ f.params.map (·.text), IsPlain text :=
    List.forall_mem_map.mpr fun p hp => (h.params p hp).plain hok
  have hresult : IsPlain (match f.result with
      | some t => " -> " ++ t.text
      | none => "") := by
    split
    · rename_i t ht
      exact IsPlain.append (by decide) ((h.result t ht).plain hok)
    · decide
  exact ((((IsPlain.append (by decide) h.name).append (by decide)).append
    (.intercalate (by decide) hparams)).append (by decide)).append hresult

theorem Function.IsLegible.adds {f : Function} (h : f.IsLegible ok) (attributes : String)
    (hattributes : IsPlain attributes) :
    Adds (attributes ++ f.text width) [f.item attributes] := by
  have hblock := @Code.Stmt.adds_braces_line _ dialect width _ _
    (hattributes.append (h.plain_head hok))
    (fun s hs level => Code.Stmt.adds_items (isPlain_dialect hok) (h.body s hs) level) 0
  have hindent : Code.indent width 0 = "" := by rw [Code.indent, Nat.zero_mul]; rfl
  have htext : attributes ++ f.text width = attributes ++ f.head ++ " \x7b\n" ++
      Code.Stmt.blockText dialect width (0 + 1) f.body ++ Code.indent width 0 ++ "\x7d\n" := by
    have htext' : f.text width = f.head ++ " \x7b\n" ++
        Code.Stmt.blockText dialect width 1 f.body ++ "\x7d\n" := rfl
    rw [htext', hindent]
    simp only [String.append_assoc, String.empty_append]
  rw [htext]
  exact hblock

/-- The outline of a legible source. -/
theorem Module.IsLegible.adds {m : Module} (h : m.IsLegible ok) :
    Adds (m.text width) (m.items width) := by
  have hhalf : Adds (if m.usesHalf then "enable f16;\n\n" else "")
      (if m.usesHalf then [.line (tokens "enable f16")] else []) := by
    split
    · exact (@Adds.text_line "enable f16" (by decide)).append
        Adds.newline
    · exact Adds.empty
  have hdeclared : ∀ {d : Struct}, d.IsLegible ok → ∀ d' ∈ declared d, d'.IsLegible ok := by
    intro d hd d' hd'
    unfold declared at hd'
    split at hd'
    · cases hd'
    · rwa [List.mem_singleton.mp hd']
  have hinterface : Adds (String.join ((declared m.input ++ declared m.output).map (·.text 2)))
      ((declared m.input ++ declared m.output).map (Struct.item 2)) :=
    Adds.join_map fun d hd => ((List.mem_append.mp hd).elim (hdeclared h.input d)
      (hdeclared h.output d)).adds hok 2
  have hconstants : Adds (String.join (m.constants.map (·.text))) (m.constants.map Constant.item) :=
    Adds.join_map fun c hc => by
      obtain ⟨hname, htype, hvalue⟩ := h.constants c hc
      exact Adds.text_line (((((IsPlain.append (by decide) hname).append (by decide)).append
        (htype.plain hok)).append (by decide)).append (hvalue.plain hok fun _ ht => ht.plain hok))
  have hfunctions : Adds (String.join ((m.functions ++ [m.authored]).map fun f =>
      "\n" ++ f.text width)) ((m.functions ++ [m.authored]).map (Function.item "")) :=
    Adds.join_map fun f hf => Adds.after_spaces (by decide) <| by
      have hf := (h.functions f hf).adds hok width "" (by decide)
      rwa [String.empty_append] at hf
  have hattributes : IsPlain (entryAttributes m.stage m.workgroupSize ++ "\n") := by
    refine IsPlain.append ?_ (by decide)
    unfold entryAttributes
    split
    · decide
    · decide
    · exact ((((((IsPlain.append (by decide) (.nat _)).append (by decide)).append (.nat _)).append
        (by decide)).append (.nat _)).append (by decide))
  have hentry := @Adds.after_spaces _ _ "\n" (by decide)
    (h.entry.adds hok 2 _ hattributes)
  have hall := (((((hhalf.append (Adds.join_map fun d hd => (h.structs d hd).adds hok
    width)).append hinterface).append hconstants).append
      (Adds.join_map fun g hg => (h.globals g hg).adds hok)).append hfunctions).append hentry
  have htext : m.text width = (if m.usesHalf then "enable f16;\n\n" else "") ++
      String.join (m.structs.map (·.text width)) ++
      String.join ((declared m.input ++ declared m.output).map (·.text 2)) ++
      String.join (m.constants.map (·.text)) ++
      String.join ((m.globals ++ m.interfaceGlobals).map (·.text)) ++
      String.join ((m.functions ++ [m.authored]).map fun f => "\n" ++ f.text width) ++
      ("\n" ++ (entryAttributes m.stage m.workgroupSize ++ "\n" ++ m.entry.text 2)) := by
    show _ ++ "\n" ++ entryAttributes m.stage m.workgroupSize ++ "\n" ++ m.entry.text 2 = _
    simp only [String.append_assoc]
    rfl
  rw [htext]
  exact hall

end Adds

/-! ### Sources of stages -/

section Stages

variable {ok : String → Prop} {s : ResolvedStage} {m : Module}

/-- The struct that wraps a primitive type is legible. -/
theorem isLegible_wrapper (p : PrimitiveType) : (wrapper p).IsLegible ok := by
  refine ⟨isName_wrapperName p, fun f hf => ?_⟩
  have hsize : ∀ a ∈ [Attribute.size 16], a.IsLegible := List.forall_mem_singleton.mpr trivial
  unfold wrapper at hf
  dsimp only at hf
  split at hf
  · obtain ⟨c, -, rfl⟩ := List.mem_map.mp hf
    exact ⟨hsize, isName_append (n := "c") (by decide) (isNameRest_toString c), trivial⟩
  · rw [List.mem_singleton.mp hf]
    exact ⟨hsize, show isName "v" = true by decide, trivial⟩

/-- The attributes that move members are about alignments and sizes. -/
theorem eq_of_memberAttributes {r : Registry} {st : StructType} {x : Member} {offset : Nat}
    {isFirst isLast : Bool} {attributes : List Attribute}
    (h : memberAttributes r st x offset isFirst isLast = .ok attributes) :
    ∀ a ∈ attributes, ∃ n, a = .align n ∨ a = .size n := by
  simp only [memberAttributes, bind_eq_ok_iff] at h
  obtain ⟨extent, -, natural, -, h⟩ := h
  rw [← Except.ok.inj h, List.forall_mem_append]
  constructor
  · split
    · exact List.forall_mem_singleton.mpr ⟨_, Or.inl rfl⟩
    · exact List.forall_mem_nil _
  · split
    · exact List.forall_mem_singleton.mpr ⟨_, Or.inr rfl⟩
    · exact List.forall_mem_nil _

/-- The attributes of a member are legible. -/
theorem isLegible_memberAttributes {r : Registry} {st : StructType} {x : Member} {offset : Nat}
    {isFirst isLast : Bool} {attributes : List Attribute}
    (h : memberAttributes r st x offset isFirst isLast = .ok attributes) :
    ∀ a ∈ attributes, a.IsLegible := by
  intro a ha
  obtain ⟨n, rfl | rfl⟩ := eq_of_memberAttributes h a ha <;> trivial

/-- The members of a struct of uniforms are declared legibly. -/
theorem isLegible_std140Fields (hs : s.types.HasNames ok) {st : StructType} {isFirst : Bool}
    {members : List (Member × Nat)} (hmembers : ∀ m ∈ members, isName m.1.name = true)
    {fields : List Field} (h : std140Fields s.types st isFirst members = .ok fields) :
    ∀ f ∈ fields, f.IsLegible ok := by
  induction members generalizing isFirst fields with
  | nil =>
      rw [← Except.ok.inj h]
      exact List.forall_mem_nil _
  | cons m rest ih =>
      obtain ⟨m, offset⟩ := m
      rw [List.forall_mem_cons] at hmembers
      simp only [std140Fields, bind_eq_ok_iff] at h
      obtain ⟨attributes, hattributes, type, htype, others, hothers, h⟩ := h
      rw [← Except.ok.inj h, List.forall_mem_cons]
      exact ⟨⟨isLegible_memberAttributes hattributes, hmembers.1,
        legible_std140TypeName hs htype⟩, ih hmembers.2 hothers⟩

theorem isLegible_struct (hok : AdmitsNames ok) (hs : s.types.HasNames ok) {t : TypeId} {d : Struct}
    (h : struct s t = .ok d) : d.IsLegible ok := by
  simp only [struct, bind_eq_ok_iff] at h
  obtain ⟨st, hst, h⟩ := h
  obtain ⟨hname, hmembers⟩ := hs t st (ResolvedStage.struct_eq_ok_iff.mp hst)
  split at h
  · obtain ⟨fields, hfields, h⟩ := bind_eq_ok_iff.mp h
    rw [← Except.ok.inj h]
    refine ⟨hok.isName _ hname, fun f hf => ?_⟩
    obtain ⟨m, hm, hfield⟩ := exists_mem_of_forall₂ (mapM_eq_ok_iff.mp hfields) f hf
    obtain ⟨type, htype, hfield⟩ := bind_eq_ok_iff.mp hfield
    rw [← Except.ok.inj hfield]
    exact ⟨List.forall_mem_nil _, hmembers m hm, legible_typeName hs htype⟩
  · obtain ⟨fields, hfields, h⟩ := bind_eq_ok_iff.mp h
    rw [← Except.ok.inj h]
    exact ⟨hok.isName _ hname,
      isLegible_std140Fields hs (fun m hm => hmembers m.1 (List.of_mem_zip hm).1) hfields⟩

/-- A built-in value is declared legibly. -/
theorem isLegible_builtinField (b : Builtin) : (builtinField s b).IsLegible ok := by
  have hattribute : isName b.wgslName = true := by cases b <;> decide
  exact ⟨List.forall_mem_singleton.mpr hattribute, isName_memberName b, trivial⟩

/-- A variable at a location is declared legibly. -/
theorem isLegible_locationField (hok : AdmitsNames ok) (hs : s.HasNames ok) {location : Nat}
    {v : VarId} {d : Variable} (hd : s.var v = .ok d) {isBetween : Bool} {f : Field}
    (h : locationField s location d isBetween = .ok f) : f.IsLegible ok := by
  simp only [locationField, bind_eq_ok_iff] at h
  obtain ⟨type, htype, h⟩ := h
  rw [← Except.ok.inj h]
  refine ⟨?_, hok.isName _ (hs.var hd),
    legible_typeName hs.structs htype⟩
  split
  · exact List.forall_mem_cons.mpr ⟨trivial, List.forall_mem_singleton.mpr trivial⟩
  · exact List.forall_mem_singleton.mpr trivial

/-- The struct of the inputs is named after the stage. -/
theorem name_of_inputStruct {d : Struct} (h : inputStruct s = .ok d) :
    d.name = stagePrefix s.stage ++ "Input" := by
  simp only [inputStruct, bind_eq_ok_iff] at h
  obtain ⟨inputs, -, h⟩ := h
  rw [← Except.ok.inj h]

/-- The struct of the outputs is named after the stage. -/
theorem name_of_outputStruct {d : Struct} (h : outputStruct s = .ok d) :
    d.name = stagePrefix s.stage ++ "Output" := by
  simp only [outputStruct, bind_eq_ok_iff] at h
  obtain ⟨outputs, -, h⟩ := h
  rw [← Except.ok.inj h]

/-- The structs of what enters and leaves a stage have names like any other. -/
theorem ok_interface (hok : AdmitsNames ok) (which : Stage) :
    ok (stagePrefix which ++ "Input") ∧ ok (stagePrefix which ++ "Output") := by
  cases which <;>
    exact ⟨hok.name _ (by decide) (by decide), hok.name _ (by decide) (by decide)⟩

/-- The struct of the inputs is declared legibly. -/
theorem isLegible_inputStruct (hok : AdmitsNames ok) (hs : s.HasNames ok) {d : Struct}
    (h : inputStruct s = .ok d) : d.IsLegible ok := by
  have hname := hok.isName _ (ok_interface hok s.stage).1
  simp only [inputStruct, bind_eq_ok_iff] at h
  obtain ⟨inputs, hinputs, h⟩ := h
  rw [← Except.ok.inj h]
  refine ⟨hname, List.forall_mem_append.mpr ⟨fun f hf => ?_, fun f hf => ?_⟩⟩
  · obtain ⟨v, -, hv⟩ := exists_mem_of_forall₂ (mapM_eq_ok_iff.mp hinputs) f hf
    obtain ⟨d, hd, hv⟩ := bind_eq_ok_iff.mp hv
    split at hv
    · exact isLegible_locationField hok hs hd hv
    · cases hv
  · obtain ⟨b, -, rfl⟩ := List.mem_map.mp hf
    exact isLegible_builtinField b

/-- The struct of the outputs is declared legibly. -/
theorem isLegible_outputStruct (hok : AdmitsNames ok) (hs : s.HasNames ok) {d : Struct}
    (h : outputStruct s = .ok d) : d.IsLegible ok := by
  have hname := hok.isName _ (ok_interface hok s.stage).2
  simp only [outputStruct, bind_eq_ok_iff] at h
  obtain ⟨outputs, houtputs, h⟩ := h
  rw [← Except.ok.inj h]
  refine ⟨hname, List.forall_mem_append.mpr ⟨List.forall_mem_append.mpr ⟨?_, fun f hf => ?_⟩,
    fun f hf => ?_⟩⟩
  · split
    · exact List.forall_mem_singleton.mpr (isLegible_builtinField _)
    · exact List.forall_mem_nil _
  · obtain ⟨v, -, hv⟩ := exists_mem_of_forall₂ (mapM_eq_ok_iff.mp houtputs) f hf
    obtain ⟨d, hd, hv⟩ := bind_eq_ok_iff.mp hv
    split at hv
    · exact isLegible_locationField hok hs hd hv
    · cases hv
  · obtain ⟨b, -, rfl⟩ := List.mem_map.mp hf
    exact isLegible_builtinField b

/-- What is bound is declared legibly. -/
theorem isLegible_bound (hok : AdmitsNames ok) (hs : s.HasNames ok) {b : Binding.Record}
    (hb : b ∈ s.records) {g : Global} (h : bound s b = .ok g) : g.IsLegible ok := by
  have hname := hok.plain _ (hs.visible hb)
  unfold bound at h
  split at h
  · obtain ⟨type, htype, h⟩ := bind_eq_ok_iff.mp h
    rw [← Except.ok.inj h]
    exact ⟨hname, legible_typeName hs.structs htype⟩
  · obtain ⟨type, htype, h⟩ := bind_eq_ok_iff.mp h
    rw [← Except.ok.inj h]
    exact ⟨hname, legible_typeName hs.structs htype⟩
  · rw [← Except.ok.inj h]
    exact ⟨hname, trivial⟩
  · rw [← Except.ok.inj h]
    exact ⟨hname, trivial⟩

/-- The variables of a workgroup are declared legibly. -/
theorem isLegible_shared (hok : AdmitsNames ok) (hs : s.HasNames ok) {vs : List VarId}
    {globals : List Global} (h : shared s vs = .ok globals) : ∀ g ∈ globals, g.IsLegible ok := by
  induction vs generalizing globals with
  | nil =>
      rw [← Except.ok.inj h]
      exact List.forall_mem_nil _
  | cons v rest ih =>
      simp only [shared, bind_eq_ok_iff] at h
      obtain ⟨d, hd, h⟩ := h
      split at h
      · obtain ⟨type, htype, h⟩ := bind_eq_ok_iff.mp h
        obtain ⟨others, hothers, h⟩ := bind_eq_ok_iff.mp h
        rw [← Except.ok.inj h, List.forall_mem_cons]
        exact ⟨⟨hok.plain _ (hs.var hd),
          legible_typeName hs.structs htype⟩, ih hothers⟩
      · exact ih h

/-- A function of a stage is declared legibly. -/
theorem isLegible_function (hok : AdmitsNames ok) (hs : s.HasNames ok) (hb : s.HasBranches)
    {f : WebShader.Function × List (WebShader.Stmt Term)} (hf : f ∈ s.functions) {g : Function}
    (h : function s f = .ok g) : g.IsLegible ok := by
  have htypes : ∀ {t : TypeId} {name : TypeName}, typeName s.types t = .ok name →
      name.Legible ok := legible_typeName hs.structs
  have hbody : ∀ {body}, (lowering s).block f.2 = .ok body →
      ∀ st ∈ body, Code.Stmt.Legible ok (TypeName.Legible ok) st :=
    Code.Lowering.legible_block (isLegible_lowering hok hs) f.2 (hb.bodies f hf)
  have hparam : ∀ v p, (do
      let d ← s.var v
      return (⟨[], d.name, ← typeName s.types d.type⟩ : Field)) = .ok p → p.IsLegible ok := by
    intro v p hp
    simp only [bind_eq_ok_iff] at hp
    obtain ⟨d, hd, type, htype, hp⟩ := hp
    rw [← Except.ok.inj hp]
    exact ⟨List.forall_mem_nil _, hok.isName _ (hs.var hd), htypes htype⟩
  simp only [function, bind_eq_ok_iff] at h
  obtain ⟨params, hparams, h⟩ := h
  have hfields : ∀ p ∈ params, p.IsLegible ok := fun p hp => by
    obtain ⟨v, -, hv⟩ := exists_mem_of_forall₂ (mapM_eq_ok_iff.mp hparams) p hp
    exact hparam v p hv
  have hname := hok.plain _ (hs.defined f hf).2
  by_cases hvoid : s.types.isVoid f.1.result = true
  · simp only [hvoid, ↓reduceIte, pure_bind, bind_eq_ok_iff] at h
    obtain ⟨body, hbody', h⟩ := h
    rw [← Except.ok.inj h]
    exact ⟨hname, hfields, (fun t ht => by cases ht), hbody hbody'⟩
  · simp only [hvoid, Bool.false_eq_true, ↓reduceIte, bind_eq_ok_iff] at h
    obtain ⟨result, hresult, body, hbody', h⟩ := h
    obtain ⟨type, htype, rfl⟩ := map_eq_ok_iff.mp hresult
    rw [← Except.ok.inj h]
    refine ⟨hname, hfields, ?_, hbody hbody'⟩
    rintro _ ⟨⟩
    exact htypes htype

/-- A struct that is declared only if it has members is that struct. -/
theorem eq_of_mem_declared {d d' : Struct} (h : d' ∈ Module.declared d) : d' = d := by
  unfold Module.declared at h
  split at h
  · cases h
  · exact List.mem_singleton.mp h

/-- The structs of a source are wrappers and registered ones. -/
theorem mem_structs_of_module (h : module s = .ok m) :
    ∀ d ∈ m.structs, (∃ p, d = wrapper p) ∨ ∃ t, struct s t = .ok d := by
  simp only [module, bind_eq_ok_iff] at h
  obtain ⟨structs, hstructs, h⟩ := h
  iterate 7 obtain ⟨_, -, h⟩ := h
  rw [← Except.ok.inj h]
  intro d hd
  rcases List.mem_append.mp hd with hd | hd
  · obtain ⟨p, -, rfl⟩ := List.mem_map.mp hd
    exact Or.inl ⟨p, rfl⟩
  · obtain ⟨t, -, ht⟩ := exists_mem_of_forall₂ (mapM_eq_ok_iff.mp hstructs) d hd
    exact Or.inr ⟨t, ht⟩

/-- The source of a stage is legible where its names are. -/
theorem isLegible_module (hok : AdmitsNames ok) (hs : s.HasNames ok) (hb : s.HasBranches)
    (h : module s = .ok m) : m.IsLegible ok := by
  have hm := Module.of_module h
  obtain ⟨bindings, workgroup, hbindings, hworkgroup, hglobals⟩ := hm.globals
  obtain ⟨hinput, houtput⟩ := @ok_interface ok hok s.stage
  rw [← name_of_inputStruct hm.input] at hinput
  rw [← name_of_outputStruct hm.output] at houtput
  have hname : ∀ {n : String}, isName n = true → n ∉ controlWords → Expr.Legible ok (.name n) :=
    fun hn hc => .name (hok.name _ hn hc)
  refine ⟨fun d hd => ?_, isLegible_inputStruct hok hs hm.input,
    isLegible_outputStruct hok hs hm.output, fun c hc => ?_, fun g hg => ?_, fun f hf => ?_, ?_⟩
  · rcases mem_structs_of_module h d hd with ⟨p, rfl⟩ | ⟨t, ht⟩
    · exact isLegible_wrapper p
    · exact isLegible_struct hok hs.structs ht
  · obtain ⟨x, hx, hc⟩ := exists_mem_of_forall₂ hm.constants c hc
    simp only [constant, bind_eq_ok_iff] at hc
    obtain ⟨type, htype, value, hvalue, hc⟩ := hc
    rw [← Except.ok.inj hc]
    exact ⟨hok.plain _ (hs.constants x hx),
      legible_typeName hs.structs htype, legible_expr hok hs hvalue⟩
  · rw [hglobals, List.append_assoc] at hg
    rcases List.mem_append.mp hg with hg | hg
    · obtain ⟨b, hb, hg⟩ := exists_mem_of_forall₂ (mapM_eq_ok_iff.mp hbindings) g hg
      exact isLegible_bound hok hs hb hg
    · rcases List.mem_append.mp hg with hg | hg
      · exact isLegible_shared hok hs hworkgroup g hg
      · rcases List.mem_append.mp hg with hg | hg
        · obtain ⟨d, hd, rfl⟩ := List.mem_map.mp hg
          obtain rfl := eq_of_mem_declared hd
          exact ⟨show IsPlain "stage_in" by decide, hinput⟩
        · obtain ⟨d, hd, rfl⟩ := List.mem_map.mp hg
          obtain rfl := eq_of_mem_declared hd
          exact ⟨show IsPlain "stage_out" by decide, houtput⟩
  · rcases List.mem_append.mp hf with hf | hf
    · obtain ⟨x, hx, hg⟩ := exists_mem_of_forall₂ hm.functions f hf
      exact isLegible_function hok hs hb hx hg
    · rw [List.mem_singleton.mp hf]
      exact ⟨show IsPlain "stage_main" by decide, List.forall_mem_nil _, (fun t ht => by cases ht),
        Code.Lowering.legible_block (isLegible_lowering hok hs) s.main hb.main hm.main⟩
  · refine ⟨show IsPlain "main" by decide, ?_, ?_, ?_⟩
    · refine List.forall_mem_map.mpr fun d hd => ?_
      obtain rfl := eq_of_mem_declared hd
      exact ⟨List.forall_mem_nil _, show isName "input" = true by decide, hinput⟩
    · intro t ht
      obtain ⟨d, hd, rfl⟩ := Option.map_eq_some_iff.mp ht
      obtain rfl := eq_of_mem_declared (List.mem_of_mem_head? hd)
      exact houtput
    · refine List.forall_mem_append.mpr ⟨List.forall_mem_append.mpr ⟨?_, ?_⟩, ?_⟩
      · exact List.forall_mem_map.mpr fun _ _ =>
          .assign (hname (by decide) (by decide)) (hname (by decide) (by decide))
      · exact List.forall_mem_singleton.mpr
          (.eval (.call (hok.name _ (by decide) (by decide)) (List.forall_mem_nil _)))
      · refine List.forall_mem_map.mpr fun _ _ => .returnWith ?_
        rintro _ ⟨⟩
        exact hname (by decide) (by decide)

end Stages

end Wgsl

/-! ## Stages -/

section Stages

variable {ok : String → Prop} {s : ResolvedStage} {source : String}

/-- What a source in GLSL ES is read as. -/
theorem Glsl.exists_outline (hok : AdmitsNames ok) (hs : s.HasNames ok) (hb : s.HasBranches)
    (htarget : s.target ≠ .webGPU) (h : s.text = .ok source) :
    ∃ m, Glsl.module s = .ok m ∧ m.IsLegible ok ∧ Outline.ofText? source = some m.items := by
  rw [ResolvedStage.text, if_neg htarget] at h
  obtain ⟨m, hm, rfl⟩ := map_eq_ok_iff.mp h
  have hlegible := isLegible_module hok hs hb hm
  exact ⟨m, hm, hlegible, (hlegible.adds hok.plain _).ofText?⟩

/-- What a source in WGSL is read as. -/
theorem Wgsl.exists_outline (hok : AdmitsNames ok) (hs : s.HasNames ok) (hb : s.HasBranches)
    (htarget : s.target = .webGPU) (h : s.text = .ok source) :
    ∃ m, Wgsl.module s = .ok m ∧ m.IsLegible ok ∧
      Outline.ofText? source = some (m.items s.indentWidth) := by
  rw [ResolvedStage.text, if_pos htarget] at h
  obtain ⟨m, hm, rfl⟩ := map_eq_ok_iff.mp h
  have hlegible := isLegible_module hok hs hb hm
  exact ⟨m, hm, hlegible, (hlegible.adds hok.plain _).ofText?⟩

end Stages

end WebShader
