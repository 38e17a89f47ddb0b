import WebShader.Proofs.SourceOutlines
import WebShader.Proofs.TextReading

/-!
# Reading declarations

What a source declares, read from its outline: its structs with their members, and in GLSL ES the
variables that pass from a stage to another. A declaration has no operators, so that in WGSL its
angle brackets stand around the arguments of templates. They close one by one, and a comma between
them separates no members.
-/

namespace WebShader

/-! ## Tokens of declarations -/

namespace Token

/-- Two brackets that close have been read as one sign. -/
def single : Token → List Token
  | .sign ">>" => [.sign ">", .sign ">"]
  | t => [t]

/-- The tokens of a text whose angle brackets are no operators. -/
def singles (text : List Char) : List Token := (read text).flatMap single

/-- No text has no token. -/
theorem singles_nil : singles [] = [] := rfl

/-- Spaces before a text are skipped. -/
theorem singles_dropWhile (text : List Char) :
    singles (text.dropWhile Char.isWhitespace) = singles text := by
  rw [singles, read_dropWhile, singles]

/-- A space separates what is before it from what is after it. -/
theorem singles_append_space (text : List Char) {c : Char} (hc : c.isWhitespace = true)
    (rest : List Char) : singles (text ++ c :: rest) = singles text ++ singles rest := by
  rw [singles, read_append_space text hc, List.flatMap_append]
  rfl

/-- Spaces before a text are skipped. -/
theorem singles_spaces {space : List Char} (hspace : ∀ c ∈ space, c.isWhitespace = true)
    (rest : List Char) : singles (space ++ rest) = singles rest := by
  induction space with
  | nil => rfl
  | cons c space ih =>
      rw [List.forall_mem_cons] at hspace
      rw [← ih hspace.2]
      exact singles_append_space [] hspace.1 _

/-- A mark separates what is before it from what is after it. -/
theorem singles_append_mark (text : List Char) {c : Char} (hc : isMark c = true)
    (rest : List Char) :
    singles (text ++ c :: rest) = singles text ++ .sign (String.ofList [c]) :: singles rest := by
  have hsingle : ("(),:@#[]".toList.all fun d =>
      single (.sign (String.ofList [d])) = [.sign (String.ofList [d])]) = true := by decide
  rw [singles, read_append_mark text hc, List.flatMap_append, List.flatMap_cons,
    of_decide_eq_true (List.all_eq_true.mp hsingle c (List.contains_iff_mem.mp hc))]
  rfl

/-- A name that nothing continues is one token. -/
theorem singles_isName {w : String} (hw : isName w = true) {rest : List Char}
    (h : endsWord rest = true) : singles (w.toList ++ rest) = .word w :: singles rest := by
  rw [singles, TextTree.read_isName hw h]
  rfl

/-- A number that nothing continues is one token. -/
theorem singles_number (n : Nat) {rest : List Char} (h : endsNumber rest = true) :
    singles ((toString n).toList ++ rest) = .number (toString n) :: singles rest := by
  obtain ⟨c, more, hlist, hc⟩ := StartsDigit.nat n
  have hrest : more.all isNameRest = true := by
    have hall := isNameRest_toString n
    rw [hlist, List.all_cons, Bool.and_eq_true] at hall
    exact hall.2
  rw [singles, hlist, read_number hc hrest h, ← hlist, String.ofList_toList]
  rfl

/-- Whether an argument of a template may end before what follows. -/
def endsArgument : List Char → Bool
  | [] => true
  | c :: rest => if c == '>' then endsArgument rest else !isNameRest c && c != '.' && c != '='

/-- What ends an argument ends a number. -/
theorem endsNumber_of_endsArgument {rest : List Char} (h : endsArgument rest = true) :
    endsNumber rest = true := by
  cases rest with
  | nil => rfl
  | cons c rest =>
      rw [endsArgument] at h
      split at h
      · rename_i hc
        rw [beq_iff_eq.mp hc]
        rfl
      · rw [Bool.and_eq_true] at h
        exact h.1

/-- A bracket that closes is a token, whatever it is read with. -/
theorem singles_close : {rest : List Char} → endsArgument rest = true →
    singles ('>' :: rest) = .sign ">" :: singles rest
  | [], _ => rfl
  | c :: rest, h => by
      rw [endsArgument] at h
      split at h
      · rename_i hc
        obtain rfl := beq_iff_eq.mp hc
        have hpair : singles ('>' :: '>' :: rest) = .sign ">" :: .sign ">" :: singles rest := rfl
        rw [hpair, singles_close h]
      · rename_i hc
        simp only [Bool.and_eq_true, bne_iff_ne] at h
        rw [singles, TextTree.read_angle _ (by simp_all [TextTree.endsTemplate])]
        rfl

/-- A bracket that opens is a token before a name or a number. -/
theorem singles_open {text : List Char} (h : text.head?.any isNameRest = true) (rest : List Char) :
    singles ('<' :: (text ++ rest)) = .sign "<" :: singles (text ++ rest) := by
  have hread : read ('<' :: (text ++ rest)) = .sign "<" :: read (text ++ rest) := by
    refine read_sign rfl fun d hd => ?_
    cases text with
    | nil => cases h
    | cons c text =>
        obtain rfl : c = d := Option.some.inj hd
        exact isPair_of_second (f := isNameRest) (by decide) _ h
  rw [singles, hread]
  rfl

end Token

/-! ## Lists with commas -/

/-- How many brackets are open after a token. -/
def Token.deepen : Token → Nat → Nat
  | .sign s, depth =>
    if s = "<" || s = "(" then depth + 1 else if s = ">" || s = ")" then depth - 1 else depth
  | _, depth => depth

/-- The pieces between the commas outside of all brackets, given how many are open and what has been
read of the first piece. -/
def splitCommas (depth : Nat) (current : List Token) : List Token → List (List Token)
  | [] => [current]
  | t :: rest =>
    if t = .sign "," ∧ depth = 0 then current :: splitCommas 0 [] rest
    else splitCommas (t.deepen depth) (current ++ [t]) rest

/-- No comma of the tokens separates pieces, from a depth on, and the tokens close what they
open. -/
def Undivided (least : Nat) (tokens : List Token) : Prop :=
  ∀ depth, least ≤ depth → ∀ current rest,
    splitCommas depth current (tokens ++ rest) = splitCommas depth (current ++ tokens) rest

namespace Undivided

variable {least : Nat} {tokens tokens' : List Token}

/-- A list without commas outside of brackets has none inside of them either. -/
theorem mono (h : Undivided 0 tokens) : Undivided least tokens :=
  fun depth _ => h depth (Nat.zero_le depth)

/-- No tokens are undivided. -/
protected theorem nil : Undivided least [] := fun _ _ current rest => by
  rw [List.nil_append, List.append_nil]

/-- Two undivided lists in a row are undivided. -/
protected theorem append (h : Undivided least tokens) (h' : Undivided least tokens') :
    Undivided least (tokens ++ tokens') := by
  intro depth hdepth current rest
  rw [List.append_assoc, h depth hdepth, h' depth hdepth, List.append_assoc]

/-- A token that neither opens nor closes a bracket, and is no comma. -/
theorem of_token {t : Token} (ht : t ≠ .sign ",") (hdeepen : ∀ depth, t.deepen depth = depth) :
    Undivided least [t] := by
  intro depth _ current rest
  rw [List.singleton_append, splitCommas, if_neg (fun h => ht h.1), hdeepen]

/-- A comma inside of a bracket. -/
theorem comma : Undivided 1 [.sign ","] := by
  intro depth hdepth current rest
  rw [List.singleton_append, splitCommas, if_neg (fun h => absurd h.2 (by omega))]
  rfl

/-- What stands in brackets is kept together. -/
theorem brackets {before after : String}
    (hpair : before = "<" ∧ after = ">" ∨ before = "(" ∧ after = ")") (h : Undivided 1 tokens) :
    Undivided 0 (.sign before :: (tokens ++ [.sign after])) := by
  intro depth _ current rest
  have hopen : ∀ more, splitCommas depth current (.sign before :: more) =
      splitCommas (depth + 1) (current ++ [.sign before]) more := by
    intro more
    rcases hpair with ⟨rfl, -⟩ | ⟨rfl, -⟩
    all_goals
      rw [splitCommas, if_neg (by simp)]
      rfl
  have hclose : ∀ current, splitCommas (depth + 1) current (.sign after :: rest) =
      splitCommas depth (current ++ [.sign after]) rest := by
    intro current
    rcases hpair with ⟨-, rfl⟩ | ⟨-, rfl⟩
    all_goals
      rw [splitCommas, if_neg (by simp)]
      rfl
  rw [List.cons_append, hopen, List.append_assoc, h _ (by omega), List.singleton_append, hclose]
  simp

/-- The arguments of a template, with the commas between them. -/
theorem arguments {args : List (List Token)} (h : ∀ arg ∈ args, Undivided 0 arg) :
    Undivided 1 ([Token.sign ","].intercalate args) := by
  induction args with
  | nil => exact .nil
  | cons arg args ih =>
      rw [List.forall_mem_cons] at h
      cases args with
      | nil => simpa using h.1.mono
      | cons arg' args =>
          rw [List.intercalate_cons_of_ne_nil (by simp)]
          exact (h.1.mono.append comma).append (ih h.2)

end Undivided

/-! ## Structs -/

/-- A struct as it is read. -/
structure ReadStruct (μ : Type) where
  name : String
  members : List μ

/-- Whether an item declares a struct. -/
def Item.isStruct : Item → Bool
  | .block [.word "struct", .word _] _ _ => true
  | _ => false

section Structs

variable {μ : Type} (members? : List Item → List Char → Option (List μ))

/-- Read a struct, where its members can be read. -/
def Item.struct? : Item → Option (ReadStruct μ)
  | .block [.word "struct", .word name] items last => (members? items last).map fun ms => ⟨name, ms⟩
  | _ => none

/-- The structs that items declare. -/
def structs? (items : List Item) : Option (List (ReadStruct μ)) :=
  (items.filter Item.isStruct).mapM (Item.struct? members?)

variable {members?} {items items' : List Item}

/-- The structs of items are those that are read one by one. -/
theorem structs?_eq_some_iff {ds : List (ReadStruct μ)} : structs? members? items = some ds ↔
    List.Forall₂ (fun i d => i.struct? members? = some d) (items.filter Item.isStruct) ds :=
  mapM_eq_some_iff

/-- The structs of two pieces of a source are those of the one and then of the other. -/
theorem structs?_append {ds ds' : List (ReadStruct μ)} (h : structs? members? items = some ds)
    (h' : structs? members? items' = some ds') :
    structs? members? (items ++ items') = some (ds ++ ds') := by
  rw [structs?_eq_some_iff] at h h' ⊢
  rw [List.filter_append]
  exact List.rel_append h h'

/-- Other items declare no structs. -/
theorem structs?_of_others (h : ∀ i ∈ items, i.isStruct = false) :
    structs? members? items = some [] := by
  rw [structs?_eq_some_iff, List.filter_eq_nil_iff.mpr (by simpa using h)]
  exact .nil

/-- Pieces that declare a struct each are read one by one. -/
theorem structs?_flatMap {α : Type} {f : α → List Item} {g : α → ReadStruct μ} {xs : List α}
    (h : ∀ x ∈ xs, structs? members? (f x) = some [g x]) :
    structs? members? (xs.flatMap f) = some (xs.map g) := by
  induction xs with
  | nil => rfl
  | cons x rest ih =>
      rw [List.forall_mem_cons] at h
      exact structs?_append h.1 (ih h.2)

/-- The structs of a list of pieces are those of each piece. -/
theorem structs?_map {α : Type} {f : α → Item} {g : α → ReadStruct μ} {xs : List α}
    (h : ∀ x ∈ xs, structs? members? [f x] = some [g x]) :
    structs? members? (xs.map f) = some (xs.map g) := by
  rw [List.map_eq_flatMap]
  exact structs?_flatMap h

end Structs

/-! ## Types of WGSL -/

namespace Wgsl

open Token TextTree

/-- The text is read as the type that the tree is, before anything that may follow one. -/
structure ReadsType (text : String) (t : TextTree) : Prop where
  parses : Parses true (singles text.toList) none t
  undivided : Undivided 0 (singles text.toList)
  append : ∀ rest, endsArgument rest = true →
    singles (text.toList ++ rest) = singles text.toList ++ singles rest
  starts : text.toList.head?.any isNameRest = true

namespace ReadsType

/-- Names are types by themselves. -/
theorem isName {w : String} (hw : isName w = true) : ReadsType w (.word w) := by
  have hall : ∀ rest, endsArgument rest = true →
      singles (w.toList ++ rest) = .word w :: singles rest := fun rest hrest =>
    singles_isName hw (endsWord_of_endsNumber (endsNumber_of_endsArgument hrest))
  have hw' := hall [] rfl
  rw [List.append_nil, singles_nil] at hw'
  refine ⟨hw' ▸ parses_word w, hw' ▸ .of_token (by simp) fun _ => rfl, fun rest hrest => ?_, ?_⟩
  · rw [hall rest hrest, hw']
    rfl
  · obtain ⟨c, more, hlist, hc, -⟩ := exists_of_isName hw
    rw [hlist]
    exact isNameRest_of_isNameStart hc

/-- Numbers may stand among the arguments of a template. -/
theorem number (n : Nat) : ReadsType (toString n) (.number (toString n)) := by
  have hall : ∀ rest, endsArgument rest = true →
      singles ((toString n).toList ++ rest) = .number (toString n) :: singles rest :=
    fun rest hrest => singles_number n (endsNumber_of_endsArgument hrest)
  have hn := hall [] rfl
  rw [List.append_nil, singles_nil] at hn
  refine ⟨hn ▸ parses_number _, hn ▸ .of_token (by simp) fun _ => rfl, fun rest hrest => ?_, ?_⟩
  · rw [hall rest hrest, hn]
    rfl
  · obtain ⟨c, more, hlist, hc⟩ := StartsDigit.nat n
    have hrest := isNameRest_toString n
    rw [hlist, List.all_cons, Bool.and_eq_true] at hrest
    rw [hlist]
    exact hrest.1

/-- The tokens of arguments up to the bracket that closes. -/
theorem singles_arguments {texts : List String} {ts : List TextTree}
    (h : List.Forall₂ ReadsType texts ts) {rest : List Char} (hrest : endsArgument rest = true) :
    singles ((", ".intercalate texts).toList ++ '>' :: rest) =
      [Token.sign ","].intercalate (texts.map fun text => singles text.toList) ++
        .sign ">" :: singles rest := by
  induction h with
  | nil => exact singles_close hrest
  | @cons text t texts ts h hmore ih =>
      rw [String.toList_intercalate] at ih ⊢
      cases hmore with
      | nil =>
          rw [List.map_singleton, List.map_singleton, List.intercalate_singleton,
            List.intercalate_singleton, h.append _ (by simpa [endsArgument] using hrest),
            singles_close hrest]
      | cons h₂ hmore₂ =>
          rw [List.map_cons, List.map_cons (f := fun text : String => singles text.toList),
            List.intercalate_cons_of_ne_nil (by simp), List.intercalate_cons_of_ne_nil (by simp),
            List.append_assoc, List.append_assoc]
          show singles (text.toList ++ ',' :: ' ' :: (_ ++ '>' :: rest)) = _
          rw [singles_append_mark _ (by decide),
            show singles (' ' :: _) = singles _ from singles_append_space [] (by decide) _, ih]
          simp

/-- A template with arguments. -/
theorem template {w : String} (hw : WebShader.isName w = true) {texts : List String}
    {ts : List TextTree} (h : List.Forall₂ ReadsType texts ts) (hne : texts ≠ []) :
    ReadsType (w ++ "<" ++ ", ".intercalate texts ++ ">") (.template w ts) := by
  obtain ⟨hparses, hundivided, hstarts⟩ : List.Forall₂ (ParsesWhole true)
      (texts.map fun text => singles text.toList) ts ∧
        (∀ arg ∈ texts.map fun text => singles text.toList, Undivided 0 arg) ∧
          (", ".intercalate texts).toList.head?.any isNameRest = true := by
    refine ⟨List.forall₂_map_left_iff.mpr (h.imp fun _ _ h => h.parses.whole), ?_, ?_⟩
    · refine List.forall_mem_map.mpr fun text htext => ?_
      obtain ⟨t, -, ht⟩ := exists_result_of_forall₂ h text htext
      exact ht.undivided
    · cases h with
      | nil => exact absurd rfl hne
      | @cons text t texts ts h hmore =>
          obtain ⟨c, more, hlist⟩ : ∃ c more, text.toList = c :: more := by
            have hstarts := h.starts
            cases hlist : text.toList with
            | nil =>
                rw [hlist] at hstarts
                cases hstarts
            | cons c more => exact ⟨c, more, rfl⟩
          have hstarts := h.starts
          rw [hlist] at hstarts
          rw [String.toList_intercalate, List.map_cons, hlist]
          cases texts with
          | nil => simpa using hstarts
          | cons text' texts =>
              rw [List.intercalate_cons_of_ne_nil (by simp)]
              exact hstarts
  have hall : ∀ rest, endsArgument rest = true →
      singles ((w ++ "<" ++ ", ".intercalate texts ++ ">").toList ++ rest) =
        .word w :: .sign "<" :: ([Token.sign ","].intercalate
          (texts.map fun text => singles text.toList) ++ [.sign ">"]) ++ singles rest := by
    intro rest hrest
    simp only [String.toList_append, List.append_assoc]
    show singles (w.toList ++ '<' :: ((", ".intercalate texts).toList ++ '>' :: rest)) = _
    rw [singles_isName hw rfl, singles_open hstarts, singles_arguments h hrest]
    simp
  have htext := hall [] rfl
  rw [List.append_nil, singles_nil, List.append_nil] at htext
  refine ⟨htext ▸ parses_template w hparses (by simpa using hne), ?_, fun rest hrest => ?_, ?_⟩
  · rw [htext]
    exact (Undivided.of_token (t := .word w) (by simp) fun _ => rfl).append
      (.brackets (Or.inl ⟨rfl, rfl⟩) (.arguments hundivided))
  · rw [hall rest hrest, htext]
  · obtain ⟨c, more, hlist, hc, -⟩ := exists_of_isName hw
    simp only [String.toList_append, hlist]
    exact isNameRest_of_isNameStart hc

end ReadsType

/-- A primitive type as it is read. -/
def primitiveTree (p : PrimitiveType) : TextTree :=
  if p.isMatrix then
    .template ("mat" ++ toString p.cols.toNat ++ "x" ++ toString p.rows.toNat) [.word p.scalar.name]
  else if p.isVector then .template ("vec" ++ toString p.rows.toNat) [.word p.scalar.name]
  else .word p.scalar.name

/-- A texture type as it is read. -/
def textureTree (t : TextureType) : TextTree :=
  if t.isDepth then .word ("texture_depth_" ++ dimensionName t)
  else .template ("texture_" ++ dimensionName t) [.word t.sample.scalar.name]

/-- A type as it is read. -/
def TypeName.tree : TypeName → TextTree
  | primitive p => primitiveTree p
  | padded p => .word (wrapperName p)
  | array element n =>
    .template "array" (if n = 0 then [element.tree] else [element.tree, .number (toString n)])
  | struct name => .word name
  | pointer pointee space =>
    let access := if space = .storage then [TextTree.word "read_write"] else []
    .template "ptr" (.word space.name :: pointee.tree :: access)
  | texture t => textureTree t
  | sampler kind => .word (samplerName kind)

/-- The name of a scalar type is a name. -/
theorem isName_scalar (k : ScalarKind) : isName k.name = true := by cases k <;> decide

/-- A template of one argument. -/
theorem ReadsType.template_one {w text : String} (hw : WebShader.isName w = true) {t : TextTree}
    (h : ReadsType text t) : ReadsType (w ++ "<" ++ text ++ ">") (.template w [t]) := by
  have htemplate := ReadsType.template hw (.cons h .nil) (by simp)
  rwa [String.intercalate_singleton] at htemplate

/-- The text of a primitive type is read as the tree of it. -/
theorem readsType_primitive (p : PrimitiveType) : ReadsType p.text (primitiveTree p) := by
  have hscalar := ReadsType.isName (isName_scalar p.scalar)
  unfold PrimitiveType.text primitiveTree
  split
  · exact .template_one (isName_append (isName_append (isName_append (by decide)
      (isNameRest_toString _)) (by decide)) (isNameRest_toString _)) hscalar
  · split
    · exact .template_one (isName_append (by decide) (isNameRest_toString _)) hscalar
    · exact hscalar

/-- The name of a texture type is read as the tree of it. -/
theorem readsType_texture (t : TextureType) : ReadsType (textureName t) (textureTree t) := by
  have hdimension : (dimensionName t).toList.all isNameRest = true := by
    unfold dimensionName
    split
    · split <;> decide
    all_goals decide
  unfold textureName textureTree
  split
  · exact .isName (isName_append (by decide) hdimension)
  · exact .template_one (isName_append (by decide) hdimension) (.isName (isName_scalar _))

/-- The text of a type is read as its tree. -/
theorem readsType_typeName {t : TypeName} (h : t.Legible (WebShader.isName · = true)) :
    ReadsType t.text t.tree := by
  induction t with
  | primitive p => exact readsType_primitive p
  | padded p => exact .isName (isName_wrapperName p)
  | struct name => exact .isName h
  | texture t => exact readsType_texture t
  | sampler kind => cases kind <;> exact .isName (by decide)
  | array element n ih =>
      rw [TypeName.text, TypeName.tree]
      by_cases hn : n = 0
      · rw [if_pos hn, if_pos hn]
        exact .template_one (w := "array") (by decide) (ih h)
      · rw [if_neg hn, if_neg hn]
        have htemplate := ReadsType.template (w := "array") (by decide)
          (.cons (ih h) (.cons (.number n) .nil)) (by simp)
        rw [String.intercalate_cons_of_ne_nil (by simp), String.intercalate_singleton,
          ← String.append_assoc, ← String.append_assoc] at htemplate
        exact htemplate
  | pointer pointee space ih =>
      have hspace : ReadsType space.name (.word space.name) :=
        .isName (by cases space <;> decide)
      rw [TypeName.text, TypeName.tree]
      by_cases hstorage : space = .storage
      · have htemplate := ReadsType.template (w := "ptr") (by decide)
          (.cons hspace (.cons (ih h) (.cons (.isName (w := "read_write") (by decide)) .nil)))
          (by simp)
        rw [String.intercalate_cons_of_ne_nil (by simp),
          String.intercalate_cons_of_ne_nil (by simp), String.intercalate_singleton] at htemplate
        simp only [hstorage, ↓reduceIte]
        simp only [hstorage, String.append_assoc] at htemplate ⊢
        exact htemplate
      · have htemplate := ReadsType.template (w := "ptr") (by decide)
          (.cons hspace (.cons (ih h) .nil)) (by simp)
        rw [String.intercalate_cons_of_ne_nil (by simp), String.intercalate_singleton] at htemplate
        simp only [hstorage, ↓reduceIte, String.append_empty]
        simp only [String.append_assoc] at htemplate ⊢
        exact htemplate

/-! ## Members of WGSL structs -/

/-- A member as it is read: its attributes, each with an argument, its name and its type. -/
structure ReadMember where
  attributes : List (String × Token)
  name : String
  type : TextTree

/-- The attributes that stand first, and what follows them. -/
def readAttributes : List Token → List (String × Token) × List Token
  | .sign "@" :: .word w :: .sign "(" :: arg :: .sign ")" :: rest =>
    ((w, arg) :: (readAttributes rest).1, (readAttributes rest).2)
  | rest => ([], rest)

/-- Read a member. -/
def readMember? (text : List Token) : Option ReadMember :=
  match readAttributes text with
  | (attributes, .word name :: .sign ":" :: type) =>
    (TextTree.ofTokens? true type).map fun t => ⟨attributes, name, t⟩
  | _ => none

/-- Read the members of a struct; a comma may follow the last one. -/
def readMembers? (text : List Char) : Option (List ReadMember) :=
  let pieces := splitCommas 0 [] (singles text)
  (if pieces.getLast? = some [] then pieces.dropLast else pieces).mapM readMember?

/-- An attribute as it is read. -/
def Attribute.read : Attribute → String × Token
  | align n => ("align", .number (toString n))
  | size n => ("size", .number (toString n))
  | builtin name => ("builtin", .word name)
  | location n => ("location", .number (toString n))
  | flat => ("interpolate", .word "flat")

/-- A member as it is read. -/
def Field.read (f : Field) : ReadMember := ⟨f.attributes.map Attribute.read, f.name, f.type.tree⟩

/-- The tokens of an attribute as it is read. -/
def attributeTokens (a : String × Token) : List Token :=
  [.sign "@", .word a.1, .sign "(", a.2, .sign ")"]

/-- The tokens of a member. -/
def Field.tokens (f : Field) : List Token :=
  f.attributes.flatMap (fun a => attributeTokens a.read) ++
    .word f.name :: .sign ":" :: singles f.type.text.toList

/-- The tokens of an attribute, before a space. -/
theorem singles_attribute {a : Attribute} (h : a.IsLegible) (rest : List Char) :
    singles (a.text.toList ++ ' ' :: rest) = attributeTokens a.read ++ singles rest := by
  -- every attribute has the name and the argument that it is read with
  have hattribute : ∀ (w arg : String) {t : Token}, WebShader.isName w = true →
      singles (arg.toList ++ [')']) = [t, .sign ")"] →
      singles (("@" ++ w ++ "(" ++ arg ++ ")").toList ++ ' ' :: rest) =
        attributeTokens (w, t) ++ singles rest := by
    intro w arg t hw harg
    rw [singles_append_space _ (by decide)]
    simp only [String.toList_append, List.append_assoc]
    show singles ([] ++ '@' :: (w.toList ++ '(' :: (arg.toList ++ [')']))) ++ _ = _
    rw [singles_append_mark [] (by decide), singles_append_mark _ (by decide), harg,
      show singles w.toList = [.word w] from List.append_nil w.toList ▸ singles_isName hw rfl]
    rfl
  have hnumber : ∀ n : Nat, singles ((toString n).toList ++ [')']) =
      [.number (toString n), .sign ")"] := fun n => singles_number n rfl
  cases a with
  | align n => exact hattribute "align" _ (by decide) (hnumber n)
  | size n => exact hattribute "size" _ (by decide) (hnumber n)
  | location n => exact hattribute "location" _ (by decide) (hnumber n)
  | builtin name => exact hattribute "builtin" _ (by decide) (singles_isName h rfl)
  | flat => exact hattribute "interpolate" "flat" (by decide) rfl

/-- An attribute has no comma outside of its parentheses. -/
theorem undivided_attribute {a : Attribute} : Undivided 0 (attributeTokens a.read) := by
  have harg : Undivided 1 [a.read.2] := by
    cases a <;> exact .of_token (by simp [Attribute.read]) fun _ => rfl
  exact (Undivided.of_token (t := .sign "@") (by decide) fun _ => rfl).append
    ((Undivided.of_token (t := .word _) (by simp) fun _ => rfl).append
      (.brackets (Or.inr ⟨rfl, rfl⟩) harg))

section Members

variable {f : Field} {s : Struct}

/-- The tokens of the text of a member, before the comma that follows it. -/
theorem singles_field (h : f.IsLegible (WebShader.isName · = true)) (rest : List Char) :
    singles (f.text.toList ++ ',' :: rest) = f.tokens ++ .sign "," :: singles rest := by
  have hattributes : ∀ {attributes : List Attribute}, (∀ a ∈ attributes, a.IsLegible) →
      ∀ more, singles ((String.join (attributes.map (·.text ++ " "))).toList ++ more) =
        attributes.flatMap (fun a => attributeTokens a.read) ++ singles more := by
    intro attributes hattributes more
    induction attributes with
    | nil => rfl
    | cons a rest ih =>
        rw [List.forall_mem_cons] at hattributes
        rw [List.map_cons, String.join_cons, List.flatMap_cons, List.append_assoc,
          ← ih hattributes.2,
          ← singles_attribute hattributes.1]
        simp [String.toList_append]
  have htype := readsType_typeName h.type
  simp only [Field.text, String.toList_append, List.append_assoc]
  rw [hattributes h.attributes]
  show _ ++ singles (f.name.toList ++ ':' :: ' ' :: (f.type.text.toList ++ ',' :: rest)) = _
  rw [singles_append_mark _ (by decide), show singles (' ' :: _) = singles _ from
    singles_append_space [] (by decide) _, htype.append _ rfl,
    show singles f.name.toList = [.word f.name] from
      List.append_nil f.name.toList ▸ singles_isName h.name rfl,
    show singles (',' :: rest) = .sign "," :: singles rest from
      singles_append_mark [] (by decide) rest]
  simp [Field.tokens]

/-- A member has no comma outside of brackets. -/
theorem undivided_field (h : f.IsLegible (WebShader.isName · = true)) : Undivided 0 f.tokens := by
  have hattributes : Undivided 0 (f.attributes.flatMap fun a => attributeTokens a.read) := by
    generalize f.attributes = attributes
    induction attributes with
    | nil => exact .nil
    | cons a rest ih => exact undivided_attribute.append ih
  exact hattributes.append ((Undivided.of_token (t := .word f.name) (by simp) fun _ => rfl).append
    ((Undivided.of_token (t := .sign ":") (by decide) fun _ => rfl).append
      (readsType_typeName h.type).undivided))

/-- A member is read from its tokens. -/
theorem readMember?_field (h : f.IsLegible (WebShader.isName · = true)) :
    readMember? f.tokens = some f.read := by
  have hattributes : readAttributes f.tokens =
      (f.attributes.map Attribute.read, .word f.name :: .sign ":" ::
        singles f.type.text.toList) := by
    rw [Field.tokens]
    generalize f.attributes = attributes
    induction attributes with
    | nil => rfl
    | cons a rest ih =>
        have hfirst : ∀ more, readAttributes (attributeTokens a.read ++ more) =
            (a.read :: (readAttributes more).1, (readAttributes more).2) := fun _ => rfl
        rw [List.flatMap_cons, List.append_assoc, hfirst, ih]
        rfl
  have htype := (readsType_typeName h.type).parses.whole.ofTokens?
  simp only [readMember?, hattributes, htype]
  rfl

/-- The members of a struct are read from its text. -/
theorem readMembers?_memberText (h : ∀ f ∈ s.fields, f.IsLegible (WebShader.isName · = true))
    (width : Nat) : readMembers? (s.memberText width) = some (s.fields.map Field.read) := by
  have htokens : singles (s.memberText width) =
      s.fields.flatMap fun f => f.tokens ++ [.sign ","] := by
    rw [Struct.memberText, singles_dropWhile]
    generalize s.fields = fields at h
    induction fields with
    | nil => rfl
    | cons f rest ih =>
        rw [List.forall_mem_cons] at h
        rw [List.map_cons, String.join_cons, List.flatMap_cons, ← ih h.2]
        simp only [String.toList_append, List.append_assoc]
        rw [singles_spaces (Code.Stmt.isBlank_indent width 1)]
        show singles (f.text.toList ++ ',' :: '\n' :: _) = _
        rw [singles_field h.1, show singles ('\n' :: _) = singles _ from
          singles_append_space [] (by decide) _]
        rfl
  have hsplit : splitCommas 0 [] (s.fields.flatMap fun f => f.tokens ++ [.sign ","]) =
      s.fields.map Field.tokens ++ [[]] := by
    generalize s.fields = fields at h
    induction fields with
    | nil => rfl
    | cons f rest ih =>
        rw [List.forall_mem_cons] at h
        have hcomma : ∀ more, splitCommas 0 ([] ++ f.tokens) (.sign "," :: more) =
            f.tokens :: splitCommas 0 [] more := fun _ => rfl
        rw [List.flatMap_cons, List.append_assoc, undivided_field h.1 0 (Nat.le_refl 0),
          List.singleton_append, hcomma, ih h.2]
        rfl
  have hread : (s.fields.map Field.tokens).mapM readMember? = some (s.fields.map Field.read) := by
    rw [mapM_eq_some_iff, List.forall₂_map_left_iff, List.forall₂_map_right_iff,
      List.forall₂_same]
    exact fun f hf => readMember?_field (h f hf)
  rw [readMembers?, htokens, hsplit]
  simp only [List.getLast?_append, List.getLast?_singleton, Option.some_or, ↓reduceIte,
    List.dropLast_concat]
  exact hread

end Members

/-! ## Sources in WGSL -/

/-- The members of a struct, which are neither lines nor blocks. -/
def members? : List Item → List Char → Option (List ReadMember)
  | [], last => readMembers? last
  | _ :: _, _ => none

/-- The structs that a source declares. -/
def readStructs? (source : String) : Option (List (ReadStruct ReadMember)) :=
  (Outline.ofText? source).bind (structs? members?)

/-- A struct as it is read. -/
def Struct.read (d : Struct) : ReadStruct ReadMember := ⟨d.name, d.fields.map Field.read⟩

section Sources

variable {m : Module} {width : Nat}

/-- A struct is read from its block. -/
theorem structs?_item {d : Struct} (h : d.IsLegible (WebShader.isName · = true)) (width : Nat) :
    structs? members? [d.item width] = some [d.read] := by
  have hread : (readMembers? (d.memberText width)).map (fun ms => ReadStruct.mk d.name ms) =
      some d.read := by
    rw [readMembers?_memberText h.fields]
    rfl
  rw [structs?_eq_some_iff, Struct.item, tokens_struct, tokens_isName h.name]
  exact .cons hread .nil

/-- The structs of a source are all read, in order. -/
theorem Module.IsLegible.structs? (h : m.IsLegible (WebShader.isName · = true)) (width : Nat) :
    WebShader.structs? members? (m.items width) =
      some ((m.structs ++ (declared m.input ++ declared m.output)).map Struct.read) := by
  have hlines : ∀ {α : Type} (f : α → Item) (xs : List α), (∀ x, (f x).isStruct = false) →
      WebShader.structs? members? (xs.map f) = some [] :=
    fun f xs hf => structs?_of_others (List.forall_mem_map.mpr fun x _ => hf x)
  have hhalf : WebShader.structs? members?
      (if m.usesHalf then [Item.line (tokens "enable f16")] else []) = some [] := by
    split <;> rfl
  have hdeclared : ∀ d ∈ declared m.input ++ declared m.output,
      d.IsLegible (WebShader.isName · = true) := by
    intro d hd
    rcases List.mem_append.mp hd with hd | hd
    · rw [eq_of_mem_declared hd]
      exact h.input
    · rw [eq_of_mem_declared hd]
      exact h.output
  have hfunction : ∀ f : Function, (f.item "").isStruct = false := fun f => by
    obtain ⟨more, hhead⟩ := f.exists_tokens_head
    rw [Function.item, String.empty_append, hhead]
    rfl
  have hentry : (m.entry.item (entryAttributes m.stage m.workgroupSize ++ "\n")).isStruct =
      false := by
    obtain ⟨more, hhead⟩ := m.exists_tokens_entry
    rw [Function.item, hhead]
    rfl
  have hstructs := structs?_append (structs?_append hhalf
    (structs?_map fun d hd => structs?_item (h.structs d hd) width))
    (structs?_map fun d hd => structs?_item (hdeclared d hd) 2)
  have hall := structs?_append (structs?_append (structs?_append (structs?_append hstructs
    (hlines Constant.item m.constants fun _ => rfl))
    (hlines Global.item (m.globals ++ m.interfaceGlobals) fun _ => rfl))
    (hlines (Function.item "") (m.functions ++ [m.authored]) hfunction))
    (structs?_of_others (List.forall_mem_singleton.mpr hentry))
  simpa [items] using hall

/-- The structs that are read from the source of a stage are those of its syntax tree. -/
theorem exists_structs {s : ResolvedStage} {source : String} (htarget : s.target = .webGPU)
    (hs : s.HasNames (WebShader.isName · = true)) (hb : s.HasBranches) (h : s.text = .ok source) :
    ∃ m, module s = .ok m ∧ readStructs? source =
      some ((m.structs ++ (Module.declared m.input ++ Module.declared m.output)).map
        Struct.read) := by
  obtain ⟨m, hm, hlegible, houtline⟩ := exists_outline admits_isName hs hb htarget h
  exact ⟨m, hm, by rw [readStructs?, houtline, Option.bind_some, hlegible.structs?]⟩

end Sources

end Wgsl

/-! ## Declarations of GLSL ES -/

namespace Glsl

open Token

/-- A declaration as it is read: the type of the innermost parts, the lengths of arrays from the
outside in, and the name. -/
structure ReadField where
  base : String
  lengths : List String
  name : String

/-- The lengths in square brackets that stand first, and what follows them. -/
def readLengths : List Token → List String × List Token
  | .sign "[" :: .number n :: .sign "]" :: rest => (n :: (readLengths rest).1, (readLengths rest).2)
  | rest => ([], rest)

/-- Read a declaration. The lengths that follow the name are those of the outer arrays. -/
def readField? : List Token → Option ReadField
  | .word base :: rest =>
    match readLengths rest with
    | (inner, .word name :: more) =>
      match readLengths more with
      | (outer, []) => some ⟨base, outer ++ inner, name⟩
      | _ => none
    | _ => none
  | _ => none

namespace TypeName

/-- The type of the innermost parts. -/
def base : TypeName → String
  | void => "void"
  | primitive p => primitiveName p
  | struct name | sampler name => name
  | array element _ => element.base

/-- The lengths in the text of a type. -/
def inner : TypeName → List String
  | array element n => element.inner ++ [toString n]
  | _ => []

/-- The lengths in a declaration as they are read. -/
def lengths : TypeName → List String
  | array element n => toString n :: element.inner
  | _ => []

end TypeName

/-- A declaration as it is read. -/
def Field.read (f : Field) : ReadField := ⟨f.type.base, f.type.lengths, f.name⟩

/-- The tokens of lengths in square brackets. -/
def lengthTokens (lengths : List String) : List Token :=
  lengths.flatMap fun n => [.sign "[", .number n, .sign "]"]

/-- Lengths are read up to what does not open a bracket. -/
theorem readLengths_lengthTokens (lengths : List String) (rest : List Token)
    (h : rest.head? ≠ some (.sign "[")) :
    readLengths (lengthTokens lengths ++ rest) = (lengths, rest) := by
  induction lengths with
  | nil =>
      show readLengths rest = ([], rest)
      unfold readLengths
      split
      · exact absurd rfl h
      · rfl
  | cons n lengths ih =>
      have hfirst : ∀ more, readLengths ([.sign "[", .number n, .sign "]"] ++ more) =
          (n :: (readLengths more).1, (readLengths more).2) := fun _ => rfl
      rw [lengthTokens, List.flatMap_cons, List.append_assoc, hfirst, ← lengthTokens, ih]

/-- The tokens of a length after a text. -/
theorem tokens_length (text : String) (n : Nat) :
    tokens (text ++ "[" ++ toString n ++ "]") = tokens text ++ lengthTokens [toString n] := by
  have hn : read ((toString n).toList ++ [']']) = [.number (toString n), .sign "]"] := by
    obtain ⟨c, more, hlist, hc⟩ := StartsDigit.nat n
    have hrest := isNameRest_toString n
    rw [hlist, List.all_cons, Bool.and_eq_true] at hrest
    rw [hlist, read_number hc hrest.2 rfl, ← hlist, String.ofList_toList]
    rfl
  rw [tokens]
  simp only [String.toList_append, List.append_assoc]
  show read (text.toList ++ '[' :: ((toString n).toList ++ [']'])) = _
  rw [read_append_mark _ (by decide), hn]
  rfl

/-- The name of a primitive type is a name. -/
theorem isName_primitiveName (p : PrimitiveType) : isName (primitiveName p) = true := by
  unfold primitiveName
  split
  · split
    · exact isName_append (by decide) (isNameRest_toString _)
    · exact isName_append (isName_append (isName_append (by decide) (isNameRest_toString _))
        (by decide)) (isNameRest_toString _)
  · split
    · refine isName_append ?_ (isNameRest_toString _)
      cases p.scalar <;> decide
    · cases p.scalar <;> decide

/-- The tokens of a type are its base and its lengths. -/
theorem tokens_typeText {t : TypeName} (h : t.Legible (isName · = true)) :
    tokens t.text = .word t.base :: lengthTokens t.inner := by
  induction t with
  | void => exact tokens_isName (by decide)
  | primitive p => exact tokens_isName (isName_primitiveName p)
  | struct name => exact tokens_isName h
  | sampler name => exact tokens_isName (show IsFreeName name from h).1
  | array element n ih =>
      rw [TypeName.text, tokens_length, ih h]
      simp [TypeName.base, TypeName.inner, lengthTokens]

/-- A declaration is read from its tokens. -/
theorem readField?_text {f : Field} (h : f.IsLegible (isName · = true)) :
    readField? (tokens f.text) = some f.read := by
  obtain ⟨t, name⟩ := f
  have hread : ∀ (base : String) (inner outer : List String),
      readField? (.word base :: lengthTokens inner ++ .word name :: lengthTokens outer) =
        some ⟨base, outer ++ inner, name⟩ := by
    intro base inner outer
    have houter := readLengths_lengthTokens outer [] (by simp)
    rw [List.append_nil] at houter
    have hinner := readLengths_lengthTokens inner (.word name :: lengthTokens outer)
      (by simp)
    rw [List.cons_append, readField?, hinner]
    dsimp only
    rw [houter]
  have htype : t.Legible (isName · = true) := h.type
  have hname : tokens name = [.word name] := tokens_isName h.name
  show readField? (tokens (t.declare name)) = some ⟨t.base, t.lengths, name⟩
  cases t with
  | array element n =>
      rw [TypeName.declare, tokens_length, tokens_spaced, tokens_typeText (t := element) htype,
        hname,
        List.append_assoc]
      exact hread element.base element.inner [toString n]
  | void | primitive | struct | sampler =>
      rw [TypeName.declare, tokens_spaced, tokens_typeText htype, hname]
      · exact hread _ [] []
      · intro _ _ harray
        cases harray

/-! ## Structs and blocks of GLSL ES -/

/-- Read a line that is a declaration. -/
def line? : Item → Option ReadField
  | .line text => readField? text
  | .block _ _ _ => none

/-- The members of a struct or of a block, which are lines. -/
def members? : List Item → List Char → Option (List ReadField)
  | items, [] => items.mapM line?
  | _, _ :: _ => none

/-- The structs that a source declares. -/
def readStructs? (source : String) : Option (List (ReadStruct ReadField)) :=
  (Outline.ofText? source).bind (structs? members?)

/-- Read a block of uniforms, and the name that follows it. -/
def readBlock? (text : String) : Option (ReadStruct ReadField × String) :=
  (Outline.ofText? text).bind fun items =>
    match items with
    | [.block [.word "layout", .sign "(", .word "std140", .sign ")", .word "uniform", .word block]
        members last, .line [.word name]] =>
      (members? members last).map fun ms => (⟨block, ms⟩, name)
    | _ => none

/-- A struct as it is read. -/
def Struct.read (d : Struct) : ReadStruct ReadField := ⟨d.name, d.fields.map Field.read⟩

/-- The members of a struct are read from its lines. -/
theorem members?_items {fields : List Field} (h : ∀ f ∈ fields, f.IsLegible (isName · = true)) :
    members? (fields.map Field.item) [] = some (fields.map Field.read) := by
  rw [members?, mapM_eq_some_iff, List.forall₂_map_left_iff, List.forall₂_map_right_iff,
    List.forall₂_same]
  exact fun f hf => readField?_text (h f hf)

/-- A struct is read from its block. -/
theorem structs?_items {d : Struct} (h : d.IsLegible (isName · = true)) :
    structs? members? d.items = some [d.read] := by
  have hread : (members? (d.fields.map Field.item) []).map (fun ms => ReadStruct.mk d.name ms) =
      some d.read := by
    rw [members?_items h.fields]
    rfl
  rw [structs?_eq_some_iff, Struct.items, tokens_struct, tokens_isName h.name]
  exact .cons hread .nil

/-- The tokens before the brace of a block of uniforms. -/
theorem tokens_block (name : String) : tokens ("layout(std140) uniform " ++ name) =
    [.word "layout", .sign "(", .word "std140", .sign ")", .word "uniform"] ++ tokens name :=
  tokens_spaced "layout(std140) uniform" name

/-- A block of uniforms is read from its text. -/
theorem readBlock?_text {d : Struct} {name : String} (hd : d.IsLegible (isName · = true))
    (hname : isName name = true) (width : Nat) :
    readBlock? ((Uniform.block d name).text width) = some (d.read, name) := by
  have hlegible : (Uniform.block d name).IsLegible (isName · = true) := ⟨hd, hname⟩
  have houtline := (hlegible.adds (fun _ hn => .of_isName hn) width).ofText?
  rw [readBlock?, houtline, Option.bind_some, Uniform.items, tokens_block, tokens_isName hd.name,
    tokens_isName hname]
  show (members? (d.fields.map Field.item) []).map _ = _
  rw [members?_items hd.fields]
  rfl

section Sources

variable {m : Module}

/-- The structs of a source are all read, in order. -/
theorem Module.IsLegible.structs? (h : m.IsLegible (isName · = true)) :
    WebShader.structs? members? m.items = some (m.structs.map Struct.read) := by
  have hlines : ∀ {α : Type} (f : α → Item) (xs : List α), (∀ x, (f x).isStruct = false) →
      WebShader.structs? members? (xs.map f) = some [] :=
    fun f xs hf => structs?_of_others (List.forall_mem_map.mpr fun x _ => hf x)
  have hheader : WebShader.structs? members? m.headerItems = some [] :=
    structs?_append (structs?_of_others (by simp [Item.isStruct])) (hlines _ _ fun _ => rfl)
  have huniforms : WebShader.structs? members? (m.uniforms.flatMap Uniform.items) = some [] := by
    refine structs?_of_others fun i hi => ?_
    obtain ⟨u, -, hi⟩ := List.mem_flatMap.mp hi
    cases u with
    | block d name =>
        rw [Uniform.items, tokens_block, List.mem_pair] at hi
        rcases hi with rfl | rfl <;> rfl
    | plain f =>
        rw [Uniform.items, List.mem_singleton] at hi
        rw [hi]
        rfl
  have hfunction : ∀ f : Function, f.item.isStruct = false := fun f => by
    obtain ⟨before, hhead⟩ := f.exists_tokens_head
    rw [Function.item, hhead]
    unfold Item.isStruct
    split
    · rename_i w heq
      have hlast := congrArg List.getLast? (Item.block.inj heq).1
      simp at hlast
    · rfl
  have hall := structs?_append (structs?_append (structs?_append (structs?_append
    (structs?_append hheader (structs?_flatMap fun d hd => structs?_items (h.structs d hd)))
      (hlines Constant.item m.constants fun _ => rfl))
        (hlines Interface.item m.interfaces fun _ => rfl)) huniforms)
          (hlines Function.item (m.functions ++ [m.entry]) hfunction)
  simpa [items] using hall

/-- The structs that are read from the source of a stage are those of its syntax tree. -/
theorem exists_structs {s : ResolvedStage} {source : String} (htarget : s.target ≠ .webGPU)
    (hs : s.HasNames (isName · = true)) (hb : s.HasBranches) (h : s.text = .ok source) :
    ∃ m, module s = .ok m ∧ readStructs? source = some (m.structs.map Struct.read) := by
  obtain ⟨m, hm, hlegible, houtline⟩ := exists_outline admits_isName hs hb htarget h
  exact ⟨m, hm, by rw [readStructs?, houtline, Option.bind_some, hlegible.structs?]⟩

end Sources

/-! ## Variables between stages in GLSL ES -/

/-- A variable that passes from a stage to another as it is read: whether it is flat, and its
declaration. -/
structure Varying where
  isFlat : Bool
  field : ReadField

/-- Read a variable that passes a stage in a direction, `in` or `out`. -/
def varying? (direction : String) : Item → Option Varying
  | .line (.word "varying" :: rest) => (readField? rest).map fun f => ⟨false, f⟩
  | .line (.word "flat" :: .word w :: rest) =>
    if w = direction then (readField? rest).map fun f => ⟨true, f⟩ else none
  | .line (.word w :: rest) =>
    if w = direction then (readField? rest).map fun f => ⟨false, f⟩ else none
  | _ => none

/-- The variables of a source that pass the stage in a direction, `in` or `out`. -/
def readVaryings? (direction source : String) : Option (List Varying) :=
  (Outline.ofText? source).map fun items => items.filterMap (varying? direction)

/-- Whether a variable passes the stage in a direction. -/
def Qualifier.passes (direction : String) : Qualifier → Bool
  | varying => true
  | flatIn | smoothIn => direction == "in"
  | flatOut | smoothOut => direction == "out"
  | attributeIn | inAt _ | outAt _ => false

/-- Whether a variable is flat. -/
def Qualifier.isFlat : Qualifier → Bool
  | flatIn | flatOut => true
  | _ => false

/-- A variable as it is read. -/
def Interface.read (i : Interface) : Varying := ⟨i.qualifier.isFlat, i.field.read⟩

section Varyings

variable {m : Module} {direction : String} (hdirection : direction = "in" ∨ direction = "out")
include hdirection

/-- A line that starts with another word declares no such variable. -/
theorem varying?_of_word {w : String} (hw : w ∉ ["varying", "flat", "in", "out"])
    (rest : List Token) : varying? direction (.line (.word w :: rest)) = none := by
  simp only [List.mem_cons, List.not_mem_nil, or_false, not_or] at hw
  unfold varying?
  split
  · rename_i heq
    cases heq
    exact absurd rfl hw.1
  · rename_i heq
    cases heq
    exact absurd rfl hw.2.1
  · rename_i heq
    cases heq
    rcases hdirection with rfl | rfl
    · exact if_neg hw.2.2.1
    · exact if_neg hw.2.2.2
  · rfl

omit hdirection in
/-- A name by itself declares no such variable. -/
theorem varying?_name (w : String) : varying? direction (.line [.word w]) = none := by
  unfold varying?
  split
  · rename_i heq
    cases heq
    rfl
  · rename_i heq
    cases heq
  · rename_i heq
    cases heq
    split <;> rfl
  · rfl

/-- What enters or leaves a stage is read if it passes the stage in the direction. -/
theorem varying?_item {i : Interface} (h : i.field.IsLegible (isName · = true)) :
    varying? direction i.item =
      if i.qualifier.passes direction = true then some i.read else none := by
  obtain ⟨q, f⟩ := i
  have hfield := readField?_text h
  have hitem : ∀ before, tokens q.text = before →
      (Interface.mk q f).item = .line (before ++ tokens f.text) := fun before hbefore => by
    rw [Interface.item, tokens_spaced, hbefore]
  have hlayout : ∀ (n : Nat) (rest : String), ∃ more,
      tokens ("layout(location = " ++ toString n ++ rest) = .word "layout" :: more := by
    intro n rest
    rw [tokens]
    simp only [String.toList_append, List.append_assoc]
    exact ⟨_, read_append_mark "layout".toList (c := '(') (by decide) _⟩
  -- only the first word tells what passes between the stages
  cases q with
  | varying =>
      rw [hitem [.word "varying"] rfl]
      show (readField? (tokens f.text)).map _ = _
      rw [hfield]
      rfl
  | attributeIn =>
      rw [hitem [.word "attribute"] rfl]
      exact varying?_of_word hdirection (by decide) _
  | inAt n =>
      obtain ⟨more, hmore⟩ := hlayout n ") in"
      rw [hitem _ hmore]
      exact varying?_of_word hdirection (by decide) _
  | outAt n =>
      obtain ⟨more, hmore⟩ := hlayout n ") out"
      rw [hitem _ hmore]
      exact varying?_of_word hdirection (by decide) _
  | flatIn =>
      rw [hitem [.word "flat", .word "in"] rfl]
      rcases hdirection with rfl | rfl
      · show (readField? (tokens f.text)).map _ = _
        rw [hfield]
        rfl
      · rfl
  | flatOut =>
      rw [hitem [.word "flat", .word "out"] rfl]
      rcases hdirection with rfl | rfl
      · rfl
      · show (readField? (tokens f.text)).map _ = _
        rw [hfield]
        rfl
  | smoothIn =>
      rw [hitem [.word "in"] rfl]
      rcases hdirection with rfl | rfl
      · show (readField? (tokens f.text)).map _ = _
        rw [hfield]
        rfl
      · rfl
  | smoothOut =>
      rw [hitem [.word "out"] rfl]
      rcases hdirection with rfl | rfl
      · rfl
      · show (readField? (tokens f.text)).map _ = _
        rw [hfield]
        rfl

omit hdirection in
/-- What stands before the declarations starts with a directive or with a precision. -/
theorem Module.exists_tokens_preamble (m : Module) : ∃ t more, tokens m.preamble = t :: more ∧
    (t = .sign "#" ∨ t = .word "precision") := by
  have hdirective : ∀ rest, tokens ("#" ++ rest) = .sign "#" :: tokens rest := fun rest => by
    rw [tokens, String.toList_append]
    exact read_append_mark [] (by decide) rest.toList
  unfold Module.preamble
  cases m.isVersion300 with
  | true =>
      rw [if_pos rfl, show "#version 300 es\n" = "#" ++ "version 300 es\n" from rfl]
      simp only [String.append_assoc]
      exact ⟨_, _, hdirective _, Or.inl rfl⟩
  | false =>
      rw [if_neg Bool.false_ne_true, String.empty_append]
      cases m.extensions with
      | nil => exact ⟨_, _, rfl, Or.inr rfl⟩
      | cons e rest =>
          rw [List.map_cons, String.join_cons, show "#extension " = "#" ++ "extension " from rfl]
          simp only [String.append_assoc]
          exact ⟨_, _, hdirective _, Or.inl rfl⟩

/-- The variables that pass a stage in a direction are all read, in order. -/
theorem Module.IsLegible.varyings (h : m.IsLegible (isName · = true)) :
    m.items.filterMap (varying? direction) =
      (m.interfaces.filter (·.qualifier.passes direction)).map Interface.read := by
  have hnone : ∀ {items : List Item}, (∀ i ∈ items, varying? direction i = none) →
      items.filterMap (varying? direction) = [] := List.filterMap_eq_nil_iff.mpr
  have hword : ∀ (w : String), w ∉ ["varying", "flat", "in", "out"] →
      ∀ {text more : List Token}, text = .word w :: more →
        varying? direction (.line text) = none := by
    rintro w hw _ more rfl
    exact varying?_of_word hdirection hw more
  -- all other declarations start with another word
  have hheader : m.headerItems.filterMap (varying? direction) = [] := by
    refine hnone (List.forall_mem_append.mpr ⟨?_, List.forall_mem_map.mpr fun s _ => ?_⟩)
    · obtain ⟨t, more, hpreamble, ht⟩ := m.exists_tokens_preamble
      rw [hpreamble]
      refine List.forall_mem_cons.mpr ⟨?_, List.forall_mem_singleton.mpr ?_⟩
      · rcases ht with rfl | rfl
        · rfl
        · exact varying?_of_word hdirection (by decide) more
      · exact hword "precision" (by decide) rfl
    · exact hword "precision" (by decide) (tokens_spaced "precision highp" s)
  have hstructs : (m.structs.flatMap Struct.items).filterMap (varying? direction) = [] := by
    refine hnone fun i hi => ?_
    obtain ⟨d, -, hi⟩ := List.mem_flatMap.mp hi
    rw [Struct.items, List.mem_pair] at hi
    rcases hi with rfl | rfl <;> rfl
  have hconstants : (m.constants.map Constant.item).filterMap (varying? direction) = [] := by
    refine hnone (List.forall_mem_map.mpr fun c _ => ?_)
    rw [Constant.item]
    simp only [String.append_assoc]
    exact hword "const" (by decide) (tokens_spaced "const" _)
  have huniforms : (m.uniforms.flatMap Uniform.items).filterMap (varying? direction) = [] := by
    refine hnone fun i hi => ?_
    obtain ⟨u, hu, hi⟩ := List.mem_flatMap.mp hi
    have hlegible := h.uniforms u hu
    cases u with
    | block d name =>
        rw [Uniform.items, List.mem_pair] at hi
        rcases hi with rfl | rfl
        · rfl
        · rw [tokens_isName hlegible.2]
          exact varying?_name name
    | plain f =>
        rw [Uniform.items, List.mem_singleton] at hi
        rw [hi]
        exact hword "uniform" (by decide) (tokens_spaced "uniform" f.text)
  have hfunctions : ((m.functions ++ [m.entry]).map Function.item).filterMap (varying? direction) =
      [] := hnone (List.forall_mem_map.mpr fun _ _ => rfl)
  have hinterfaces : (m.interfaces.map Interface.item).filterMap (varying? direction) =
      (m.interfaces.filter (·.qualifier.passes direction)).map Interface.read := by
    have hall := h.interfaces
    generalize m.interfaces = interfaces at hall
    induction interfaces with
    | nil => rfl
    | cons i rest ih =>
        rw [List.forall_mem_cons] at hall
        rw [List.map_cons, List.filterMap_cons, varying?_item hdirection hall.1, ih hall.2]
        cases hpasses : i.qualifier.passes direction <;> simp [hpasses]
  simp only [items, List.filterMap_append, hheader, hstructs, hconstants, hinterfaces, huniforms,
    hfunctions, List.nil_append, List.append_nil]

/-- The variables that are read from the source of a stage are those of its syntax tree. -/
theorem exists_varyings {s : ResolvedStage} {source : String} (htarget : s.target ≠ .webGPU)
    (hs : s.HasNames (isName · = true)) (hb : s.HasBranches) (h : s.text = .ok source) :
    ∃ m, module s = .ok m ∧ readVaryings? direction source =
      some ((m.interfaces.filter (·.qualifier.passes direction)).map Interface.read) := by
  obtain ⟨m, hm, hlegible, houtline⟩ := exists_outline admits_isName hs hb htarget h
  exact ⟨m, hm, by rw [readVaryings?, houtline, Option.map_some, hlegible.varyings hdirection]⟩

end Varyings

end Glsl

end WebShader
