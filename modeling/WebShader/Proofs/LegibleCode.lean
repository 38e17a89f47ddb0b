import WebShader.Code.Printer
import WebShader.Proofs.Outlines
import WebShader.Proofs.TextReading

/-!
# Legible code

Code whose texts can be told apart from what stands around them: its names and literals have neither
semicolons nor braces, and, where names are kept from being words of the language, no expression
starts with a word that starts a statement.
-/

namespace WebShader

/-! ## Words that start statements -/

/-- The words by which the languages tell one statement from another. -/
def controlWords : List String :=
  ["if", "else", "for", "while", "do", "loop", "continuing", "break", "continue", "return",
    "discard"]

/-- The word that a text starts with, which may be empty. -/
def leading (text : String) : String := String.ofList (text.toList.takeWhile isNameRest)

/-- The text starts with no space, and the word that it starts with starts no statement. -/
structure StartsPhrase (text : String) : Prop where
  start : ∃ c, text.toList.head? = some c ∧ c.isWhitespace = false
  leading : leading text ∉ controlWords

/-- The text can stand for itself in a line. -/
structure IsPhrase (text : String) : Prop extends StartsPhrase text where
  plain : IsPlain text

namespace Token

/-- A word goes on to the first character that no name has. -/
theorem readFrom_word_eq (text rest : List Char) : readFrom (.word text) rest =
    .word (String.ofList (text ++ rest.takeWhile isNameRest)) ::
      read (rest.dropWhile isNameRest) := by
  induction rest generalizing text with
  | nil => simp [readFrom, Pending.tokens, read]
  | cons c rest ih =>
      by_cases hc : isNameRest c = true
      · rw [readFrom, Pending.next, if_pos hc, List.nil_append, ih,
          List.takeWhile_cons_of_pos hc, List.dropWhile_cons_of_pos hc, List.append_assoc]
        rfl
      · rw [List.takeWhile_cons_of_neg hc, List.dropWhile_cons_of_neg hc, List.append_nil,
          readFrom_word (by simpa [endsWord] using hc)]

/-- A number that has started is a token. -/
theorem exists_readFrom_number (text rest : List Char) :
    ∃ n more, readFrom (.number text) rest = .number n :: more := by
  induction rest generalizing text with
  | nil => exact ⟨_, [], rfl⟩
  | cons c rest ih =>
      rw [readFrom, Pending.next]
      split
      · exact ih _
      · exact ⟨_, _, rfl⟩

/-- A sign that has started is a token. -/
theorem exists_readFrom_sign (d : Char) (rest : List Char) :
    ∃ s more, readFrom (.sign d) rest = .sign s :: more := by
  cases rest with
  | nil => exact ⟨_, [], rfl⟩
  | cons c rest =>
      rw [readFrom, Pending.next]
      split
      · exact ⟨_, _, rfl⟩
      · exact ⟨_, _, rfl⟩

end Token

/-- The first token of a text that starts with no space; if it is a word, then the one that the text
starts with. -/
theorem exists_first_token {text : String}
    (h : ∃ c, text.toList.head? = some c ∧ c.isWhitespace = false) :
    ∃ token more, tokens text = token :: more ∧ ∀ w, token = .word w → w = leading text := by
  obtain ⟨c, hc, hspace⟩ := h
  unfold tokens leading
  cases hlist : text.toList with
  | nil =>
      rw [hlist] at hc
      cases hc
  | cons d rest =>
      rw [hlist] at hc
      obtain rfl : d = c := Option.some.inj hc
      rw [Token.read, Token.readFrom, Token.Pending.next, List.nil_append, Token.Pending.start,
        if_neg (by simp [hspace])]
      split
      · obtain ⟨n, more, hread⟩ := Token.exists_readFrom_number [d] rest
        exact ⟨_, more, hread, by simp⟩
      · split
        · rename_i hname
          refine ⟨_, _, Token.readFrom_word_eq [d] rest, fun w hw => ?_⟩
          rw [List.takeWhile_cons_of_pos hname]
          exact (Token.word.inj hw).symm
        · obtain ⟨s, more, hread⟩ := Token.exists_readFrom_sign d rest
          exact ⟨_, more, hread, by simp⟩

namespace StartsPhrase

variable {a : String}

/-- What starts a phrase goes on with a text that continues no word. -/
protected theorem append (ha : StartsPhrase a) {b : String}
    (hb : Token.endsWord b.toList = true) : StartsPhrase (a ++ b) where
  start := by
    obtain ⟨c, hc, hspace⟩ := ha.start
    refine ⟨c, ?_, hspace⟩
    rw [String.toList_append, List.head?_append, hc]
    rfl
  leading := by
    have hleading : WebShader.leading (a ++ b) = WebShader.leading a := by
      unfold WebShader.leading
      rw [String.toList_append, List.takeWhile_append]
      split
      · rename_i hall
        have hnone : b.toList.takeWhile isNameRest = [] := by
          cases hlist : b.toList with
          | nil => rfl
          | cons c rest =>
              rw [hlist] at hb
              exact List.takeWhile_cons_of_neg (by simpa [Token.endsWord] using hb)
        rw [hnone, List.append_nil]
        congr 1
        exact ((List.takeWhile_prefix isNameRest).eq_of_length hall).symm
      · rfl
    rw [hleading]
    exact ha.leading

/-- What starts a phrase goes on with a sign and anything after it. -/
theorem append_sign (ha : StartsPhrase a) {sign : String}
    (hsign : sign.toList.head?.any (!isNameRest ·) = true) (b : String) :
    StartsPhrase (a ++ sign ++ b) := by
  rw [String.append_assoc]
  refine ha.append ?_
  rw [String.toList_append]
  cases hlist : sign.toList with
  | nil =>
      rw [hlist] at hsign
      cases hsign
  | cons c rest =>
      rw [hlist] at hsign
      exact hsign

/-- A text that starts with a sign or with a digit starts a phrase. -/
theorem of_first {text : String} {c : Char} {rest : List Char} (hlist : text.toList = c :: rest)
    (hspace : c.isWhitespace = false) (hname : isNameStart c = false) : StartsPhrase text where
  start := ⟨c, by rw [hlist, List.head?_cons], hspace⟩
  leading := by
    have hwords : ∀ w ∈ controlWords, w.toList.head?.any isNameStart = true := by decide
    intro hmem
    have hfirst := hwords _ hmem
    rw [WebShader.leading, String.toList_ofList, hlist] at hfirst
    by_cases hc : isNameRest c = true
    · rw [List.takeWhile_cons_of_pos hc, List.head?_cons, Option.any_some, hname] at hfirst
      cases hfirst
    · rw [List.takeWhile_cons_of_neg hc] at hfirst
      cases hfirst

/-- A text that starts as no word that starts a statement does starts a phrase. -/
theorem of_start {w : String} (hname : isName w = true)
    (hw : (controlWords.any fun v => w.toList.isPrefixOf v.toList) = false) (b : String) :
    StartsPhrase (w ++ b) := by
  obtain ⟨c, rest, hlist, hc, hrest⟩ := exists_of_isName hname
  refine ⟨⟨c, ?_, Token.isWhitespace_of_isNameStart hc⟩, fun hmem => ?_⟩
  · rw [String.toList_append, hlist]
    rfl
  · have hall : ∀ x ∈ w.toList, isNameRest x = true := by
      rw [hlist, List.forall_mem_cons]
      exact ⟨Token.isNameRest_of_isNameStart hc, List.all_eq_true.mp hrest⟩
    have hprefix : w.toList.isPrefixOf (WebShader.leading (w ++ b)).toList = true := by
      rw [WebShader.leading, String.toList_ofList, String.toList_append,
        List.takeWhile_append_of_pos hall, List.isPrefixOf_iff_prefix]
      exact List.prefix_append _ _
    rw [List.any_eq_false] at hw
    exact hw _ hmem hprefix

/-- A text after a sign starts a phrase. -/
theorem of_sign (sign : String)
    (hsign : sign.toList.head?.any (fun c => !isNameStart c && !c.isWhitespace) = true)
    (b : String) : StartsPhrase (sign ++ b) := by
  cases hlist : sign.toList with
  | nil =>
      rw [hlist] at hsign
      cases hsign
  | cons c rest =>
      rw [hlist] at hsign
      simp only [List.head?_cons, Option.any_some, Bool.and_eq_true, Bool.not_eq_true'] at hsign
      have happend : (sign ++ b).toList = c :: (rest ++ b.toList) := by
        rw [String.toList_append, hlist, List.cons_append]
      exact of_first happend hsign.2 hsign.1

end StartsPhrase

namespace IsPhrase

variable {a : String}

/-- A name that starts no statement is a phrase. -/
theorem of_isName (hname : isName a = true) (h : a ∉ controlWords) : IsPhrase a := by
  obtain ⟨c, rest, hlist, hc, hrest⟩ := exists_of_isName hname
  have hall : a.toList.all isNameRest = true := by
    rw [hlist, List.all_cons, Token.isNameRest_of_isNameStart hc, hrest]
    rfl
  refine ⟨⟨⟨c, ?_, Token.isWhitespace_of_isNameStart hc⟩, ?_⟩, .of_nameRest hall⟩
  · rw [hlist]
    rfl
  · rw [WebShader.leading, List.takeWhile_eq_self_iff.mpr fun x => List.all_eq_true.mp hall x,
      String.ofList_toList]
    exact h

/-- The first token of a phrase starts no statement. -/
theorem exists_tokens (h : IsPhrase a) : ∃ token more, tokens a = token :: more ∧
    ∀ w ∈ controlWords, token ≠ .word w := by
  obtain ⟨token, more, hread, hword⟩ := exists_first_token h.start
  exact ⟨token, more, hread, fun w hw heq => h.leading (hword w heq ▸ hw)⟩

end IsPhrase

/-- A name is plain. -/
theorem IsPlain.of_isName {name : String} (h : isName name = true) : IsPlain name := by
  obtain ⟨c, rest, hlist, hc, hrest⟩ := exists_of_isName h
  refine .of_nameRest ?_
  rw [hlist, List.all_cons, Token.isNameRest_of_isNameStart hc, hrest]
  rfl

namespace Code

/-! ## Expressions -/

/-- The names and the types of an expression will do, and its other words are plain. -/
inductive Expr.Legible {τ : Type} (ok : String → Prop) (okType : τ → Prop) : Expr τ → Prop
  | literal {text : String} (h : IsPhrase text) : Legible ok okType (.literal text)
  | name {n : String} (h : ok n) : Legible ok okType (.name n)
  | field {e : Expr τ} {part : String} (he : Legible ok okType e) (hpart : IsPlain part) :
      Legible ok okType (.field e part)
  | index {base i : Expr τ} (hbase : Legible ok okType base) (hi : Legible ok okType i) :
      Legible ok okType (.index base i)
  | unary {op : UnaryOp} {e : Expr τ} (he : Legible ok okType e) : Legible ok okType (.unary op e)
  | binary {op : BinaryOp} {lhs rhs : Expr τ} (hl : Legible ok okType lhs)
      (hr : Legible ok okType rhs) : Legible ok okType (.binary op lhs rhs)
  | floored {lhs rhs : Expr τ} (hl : Legible ok okType lhs) (hr : Legible ok okType rhs) :
      Legible ok okType (.floored lhs rhs)
  | addressOf {e : Expr τ} (he : Legible ok okType e) : Legible ok okType (.addressOf e)
  | deref {e : Expr τ} (he : Legible ok okType e) : Legible ok okType (.deref e)
  | construct {t : τ} {args : List (Expr τ)} (ht : okType t)
      (hargs : ∀ e ∈ args, Legible ok okType e) : Legible ok okType (.apply (.type t) args)
  | call {f : String} {args : List (Expr τ)} (hf : ok f)
      (hargs : ∀ e ∈ args, Legible ok okType e) : Legible ok okType (.apply (.function f) args)
  | builtin {f : String} {args : List (Expr τ)} (hf : isName f = true ∧ f ∉ controlWords)
      (hargs : ∀ e ∈ args, Legible ok okType e) : Legible ok okType (.apply (.builtin f) args)

namespace Expr

variable {τ : Type} {ok : String → Prop} {okType : τ → Prop} {d : Dialect τ} {e : Expr τ}

/-- The texts of arguments are the text of each. -/
theorem texts_eq_map (d : Dialect τ) (args : List (Expr τ)) :
    texts d args = args.map (·.text d) := by
  induction args with
  | nil => rfl
  | cons e rest ih => rw [texts, ih, List.map_cons]

/-- A call of plain texts is plain. -/
theorem isPlain_arguments {callee : String} (hcallee : IsPlain callee) {args : List (Expr τ)}
    (h : ∀ e ∈ args, IsPlain (e.text d)) :
    IsPlain (callee ++ "(" ++ ", ".intercalate (texts d args) ++ ")") := by
  have htexts : ∀ text ∈ texts d args, IsPlain text := by
    rw [texts_eq_map, List.forall_mem_map]
    exact h
  exact ((hcallee.append (by decide)).append (.intercalate (by decide) htexts)).append (by decide)

/-- The symbols of operators are plain. -/
theorem isPlain_symbol (op : BinaryOp) : IsPlain op.symbol := by cases op <;> decide

/-- The text of a legible expression is plain. -/
theorem Legible.plain (hok : ∀ n, ok n → IsPlain n) (htype : ∀ t, okType t → IsPlain (d.type t))
    (h : e.Legible ok okType) : IsPlain (e.text d) := by
  induction h with
  | literal h => exact h.plain
  | name h => exact hok _ h
  | field _ hpart ih => exact (ih.append (by decide)).append hpart
  | index _ _ ih ih' => exact ((ih.append (by decide)).append ih').append (by decide)
  | @unary op _ _ ih =>
      have hop : IsPlain op.symbol := by cases op <;> decide
      exact ((hop.append (by decide)).append ih).append (by decide)
  | @binary op _ _ _ _ ih ih' =>
      have hop := isPlain_symbol op
      exact ((((((IsPlain.append (by decide) ih).append (by decide)).append hop).append
        (by decide)).append ih').append (by decide))
  | floored _ _ ih ih' =>
      exact ((((((((IsPlain.append (by decide) ih).append (by decide)).append ih').append
        (by decide)).append ih).append (by decide)).append ih').append (by decide))
  | addressOf _ ih => exact IsPlain.append (by decide) ih
  | deref _ ih => exact (IsPlain.append (by decide) ih).append (by decide)
  | construct ht _ ih => exact isPlain_arguments (htype _ ht) ih
  | call hf _ ih => exact isPlain_arguments (hok _ hf) ih
  | builtin hf _ ih => exact isPlain_arguments (IsPlain.of_isName hf.1) ih

/-- The text of a legible expression starts no statement, where its names and types do not. -/
theorem Legible.starts (hok : ∀ n, ok n → StartsPhrase n)
    (htype : ∀ t, okType t → StartsPhrase (d.type t)) (h : e.Legible ok okType) :
    StartsPhrase (e.text d) := by
  induction h with
  | literal h => exact h.toStartsPhrase
  | name h => exact hok _ h
  | field _ _ ih => exact ih.append_sign rfl _
  | index _ _ ih _ =>
      rw [text, String.append_assoc]
      exact ih.append_sign rfl _
  | @unary op _ _ _ =>
      rw [text, String.append_assoc, String.append_assoc]
      exact .of_sign _ (by cases op <;> rfl) _
  | binary | floored =>
      simp only [text, String.append_assoc]
      exact .of_sign _ rfl _
  | addressOf _ _ => exact .of_sign _ rfl _
  | deref _ _ =>
      rw [text, String.append_assoc]
      exact .of_sign _ rfl _
  | construct ht _ _ =>
      rw [text, String.append_assoc]
      exact (htype _ ht).append_sign rfl _
  | call hf _ _ =>
      rw [text, String.append_assoc]
      exact (hok _ hf).append_sign rfl _
  | builtin hf _ _ =>
      rw [text, String.append_assoc]
      exact (IsPhrase.of_isName hf.1 hf.2).append_sign rfl _

/-- The text of a legible expression is a phrase, where its names and types are. -/
theorem Legible.phrase (hok : ∀ n, ok n → IsPhrase n) (htype : ∀ t, okType t → IsPhrase (d.type t))
    (h : e.Legible ok okType) : IsPhrase (e.text d) where
  toStartsPhrase := h.starts (fun n hn => (hok n hn).toStartsPhrase)
    fun t ht => (htype t ht).toStartsPhrase
  plain := h.plain (fun n hn => (hok n hn).plain) fun t ht => (htype t ht).plain

end Expr

end Code

end WebShader
