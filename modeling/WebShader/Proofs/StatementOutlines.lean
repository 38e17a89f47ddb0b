import WebShader.Code.Lowering
import WebShader.Proofs.LegibleCode
import WebShader.Proofs.ListTraversal
import WebShader.Proofs.SpelledTypes

/-!
# Outlines of statements

The lines and blocks that statements are printed as, in whichever language.
-/

namespace WebShader

namespace Code

/-! ## Legible statements -/

/-- The names, types and expressions of a statement will do, and its conditionals have branches. -/
inductive Stmt.Legible {τ : Type} (ok : String → Prop) (okType : τ → Prop) : Stmt τ → Prop
  | declare {type : τ} {name : String} {init : Option (Expr τ)} (htype : okType type)
      (hname : ok name) (hinit : ∀ e, init = some e → e.Legible ok okType) :
      Legible ok okType (.declare type name init)
  | assign {target : Expr τ} {op : Option BinaryOp} {value : Expr τ}
      (htarget : target.Legible ok okType) (hvalue : value.Legible ok okType) :
      Legible ok okType (.assign target op value)
  | eval {e : Expr τ} (he : e.Legible ok okType) : Legible ok okType (.eval e)
  | discardValue {e : Expr τ} (he : e.Legible ok okType) : Legible ok okType (.discardValue e)
  | conditional {branches : List (Expr τ × List (Stmt τ))} {otherwise : Option (List (Stmt τ))}
      (hne : branches ≠ []) (hconds : ∀ b ∈ branches, b.1.Legible ok okType)
      (hbodies : ∀ b ∈ branches, ∀ s ∈ b.2, Legible ok okType s)
      (hotherwise : ∀ body, otherwise = some body → ∀ s ∈ body, Legible ok okType s) :
      Legible ok okType (.conditional branches otherwise)
  | forRange {type : τ} {counter : String} {first last : Expr τ} {body : List (Stmt τ)}
      (htype : okType type) (hcounter : ok counter) (hfirst : first.Legible ok okType)
      (hlast : last.Legible ok okType) (hbody : ∀ s ∈ body, Legible ok okType s) :
      Legible ok okType (.forRange type counter first last body)
  | whileDo {cond : Expr τ} {body : List (Stmt τ)} (hcond : cond.Legible ok okType)
      (hbody : ∀ s ∈ body, Legible ok okType s) : Legible ok okType (.whileDo cond body)
  | doWhile {body : List (Stmt τ)} {cond : Expr τ} (hbody : ∀ s ∈ body, Legible ok okType s)
      (hcond : cond.Legible ok okType) : Legible ok okType (.doWhile body cond)
  | loop {body : List (Stmt τ)} {breakIf : Expr τ} (hbody : ∀ s ∈ body, Legible ok okType s)
      (hbreak : breakIf.Legible ok okType) : Legible ok okType (.loop body breakIf)
  | block {body : List (Stmt τ)} (hbody : ∀ s ∈ body, Legible ok okType s) :
      Legible ok okType (.block body)
  | returnWith {value : Option (Expr τ)} (hvalue : ∀ e, value = some e → e.Legible ok okType) :
      Legible ok okType (.returnWith value)
  | breakLoop : Legible ok okType .breakLoop
  | continueLoop : Legible ok okType .continueLoop
  | discard : Legible ok okType .discard

/-! ## Outlines -/

namespace Stmt

variable {τ : Type} (d : Dialect τ)

/-- The text of a statement that does something by itself, without the semicolon. -/
def action : Stmt τ → String
  | declare type name init => d.declaration type name ++ optional d " = " init
  | assign target none value => target.text d ++ " = " ++ value.text d
  | assign target (some op) value => target.text d ++ " " ++ op.symbol ++ "= " ++ value.text d
  | eval e => e.text d
  | discardValue e => "_ = " ++ e.text d
  | _ => ""

mutual

/-- The items of a statement. -/
def items : Stmt τ → List Item
  | declare type name init => [.line (tokens (action d (.declare type name init)))]
  | assign target op value => [.line (tokens (action d (.assign target op value)))]
  | eval e => [.line (tokens (e.text d))]
  | discardValue e => [.line (tokens ("_ = " ++ e.text d))]
  | conditional branches none => branchItems [] branches
  | conditional branches (some body) =>
    branchItems [] branches ++ [.block [.word "else"] (blockItems body) []]
  | forRange type counter first last body =>
    [.line (tokens ("for (" ++ d.declaration type counter ++ " = " ++ first.text d)),
      .line (tokens (d.bound counter (last.text d))),
      .block (tokens (counter ++ "++)")) (blockItems body) []]
  | whileDo cond body =>
    [.block (tokens ("while " ++ d.condition (cond.text d))) (blockItems body) []]
  | doWhile body cond =>
    [.block [.word "do"] (blockItems body) [],
      .line (tokens ("while " ++ d.condition (cond.text d)))]
  | loop body breakIf =>
    [.block [.word "loop"] (blockItems body ++
      [.block [.word "continuing"] [.line (tokens ("break if " ++ breakIf.text d))] []]) []]
  | block body => [.block [] (blockItems body) []]
  | returnWith value => [.line (tokens ("return" ++ optional d " " value))]
  | breakLoop => [.line [.word "break"]]
  | continueLoop => [.line [.word "continue"]]
  | discard => [.line [.word "discard"]]
termination_by structural s => s

/-- The items of a block. -/
def blockItems : List (Stmt τ) → List Item
  | [] => []
  | s :: rest => s.items ++ blockItems rest
termination_by structural body => body

/-- The items of the branches of a conditional, the first one after the given tokens. -/
def branchItems (before : List Token) : List (Expr τ × List (Stmt τ)) → List Item
  | [] => []
  | (cond, body) :: rest =>
    .block (before ++ tokens ("if " ++ d.condition (cond.text d))) (blockItems body) [] ::
      branchItems [.word "else"] rest
termination_by structural branches => branches

end

end Stmt

/-- A language whose declarations, conditions and bounds are plain where what they are made of
is. -/
structure Dialect.IsPlain {τ : Type} (d : Dialect τ) (ok : String → Prop) (okType : τ → Prop) :
    Prop where
  name : ∀ n, ok n → WebShader.IsPlain n
  type : ∀ t, okType t → WebShader.IsPlain (d.type t)
  declaration : ∀ t n, okType t → ok n → WebShader.IsPlain (d.declaration t n)
  condition : ∀ c, WebShader.IsPlain c → WebShader.IsPlain (d.condition c)
  bound : ∀ n c, ok n → WebShader.IsPlain c → WebShader.IsPlain (d.bound n c)


namespace Stmt

variable {τ : Type} {d : Dialect τ} {ok : String → Prop} {okType : τ → Prop} {width : Nat}

/-- The start of a line is blank. -/
theorem isBlank_indent (width level : Nat) : IsBlank (indent width level) := by
  intro c hc
  rw [indent, String.toList_ofList] at hc
  rw [List.eq_of_mem_replicate hc]
  decide

/-- The items of statements that stand one after the other. -/
theorem adds_block {body : List (Stmt τ)}
    (h : ∀ s ∈ body, ∀ level, Adds (s.text d width level) (s.items d)) (level : Nat) :
    Adds (blockText d width level body) (blockItems d body) := by
  induction body with
  | nil => exact Adds.empty
  | cons s rest ih =>
      rw [List.forall_mem_cons] at h
      exact ((Adds.spaces (isBlank_indent width level)).append (h.1 level)).append (ih h.2)

/-- A block with a head and an end of line. -/
theorem adds_braces {body : List (Stmt τ)} {head : String} (hhead : IsPlain head)
    (h : ∀ s ∈ body, ∀ level, Adds (s.text d width level) (s.items d)) (level : Nat) :
    Adds (head ++ " \x7b\n" ++ blockText d width (level + 1) body ++ indent width level ++ "\x7d")
      [.block (tokens head) (blockItems d body) []] :=
  .text_block hhead (adds_block h (level + 1)) (isBlank_indent width level)

/-- A block with a head, to the end of the line. -/
theorem adds_braces_line {body : List (Stmt τ)} {head : String} (hhead : IsPlain head)
    (h : ∀ s ∈ body, ∀ level, Adds (s.text d width level) (s.items d)) (level : Nat) :
    Adds (head ++ " \x7b\n" ++ blockText d width (level + 1) body ++ indent width level ++
      "\x7d\n") [.block (tokens head) (blockItems d body) []] := by
  have hend : ∀ text : String, text ++ "\x7d\n" = text ++ "\x7d" ++ "\n" := fun text => by
    rw [String.append_assoc]
    rfl
  rw [hend]
  exact (adds_braces hhead h level).append (Adds.spaces (by decide))

/-- The branches of a conditional are blocks, and the words between them are in their heads. -/
theorem adds_branches (hd : d.IsPlain ok okType) {branches : List (Expr τ × List (Stmt τ))}
    (hconds : ∀ b ∈ branches, b.1.Legible ok okType)
    (hbodies : ∀ b ∈ branches, ∀ s ∈ b.2, ∀ level, Adds (s.text d width level) (s.items d))
    (level : Nat) (before : String) (first : List Token) (hplain : IsPlain before)
    (hbefore : ∀ rest, Token.read (before.toList ++ rest) = first ++ Token.read rest) :
    Adds (branchTexts d width level before branches) (branchItems d first branches) := by
  induction branches generalizing before first with
  | nil => exact Adds.empty
  | cons b rest ih =>
      obtain ⟨cond, body⟩ := b
      rw [List.forall_mem_cons] at hconds hbodies
      have hcond := hd.condition _ (hconds.1.plain hd.name hd.type)
      have hhead : IsPlain (before ++ "if " ++ d.condition (cond.text d)) :=
        (hplain.append (by decide)).append hcond
      have htokens : tokens (before ++ "if " ++ d.condition (cond.text d)) =
          first ++ tokens ("if " ++ d.condition (cond.text d)) := by
        rw [String.append_assoc, tokens, String.toList_append, hbefore]
        rfl
      have hrest := ih hconds.2 hbodies.2 " else " [.word "else"] (by decide)
        fun more => by
          rw [show " else ".toList = [' ', 'e', 'l', 's', 'e', ' '] from rfl]
          exact (Token.read_append_space [' ', 'e', 'l', 's', 'e'] (c := ' ') (by decide) more)
      rw [branchItems, ← htokens]
      exact (adds_braces hhead hbodies.1 level).append hrest

/-- What may be missing from a line is plain. -/
theorem isPlain_optional (hd : d.IsPlain ok okType) {before : String} (hbefore : IsPlain before)
    {value : Option (Expr τ)} (h : ∀ e, value = some e → e.Legible ok okType) :
    IsPlain (optional d before value) := by
  cases value with
  | none => exact (show IsPlain "" by decide)
  | some e => exact hbefore.append ((h e rfl).plain hd.name hd.type)

/-- Reading a legible statement adds its items. -/
theorem adds_items (hd : d.IsPlain ok okType) {s : Stmt τ} (hs : s.Legible ok okType)
    (level : Nat) : Adds (s.text d width level) (s.items d) := by
  have hexpr : ∀ {e : Expr τ}, e.Legible ok okType → IsPlain (e.text d) :=
    fun he => he.plain hd.name hd.type
  induction hs generalizing level with
  | declare htype hname hinit =>
      exact .text_line ((hd.declaration _ _ htype hname).append
        (isPlain_optional hd (by decide) hinit))
  | @assign target op value htarget hvalue =>
      cases op with
      | none =>
          show Adds (target.text d ++ " = " ++ value.text d ++ ";\n") [.line _]
          exact .text_line (((hexpr htarget).append (by decide)).append (hexpr hvalue))
      | some op =>
          show Adds (target.text d ++ " " ++ op.symbol ++ "= " ++ value.text d ++ ";\n") [.line _]
          exact .text_line (((((hexpr htarget).append (by decide)).append
            (Expr.isPlain_symbol op)).append (by decide)).append (hexpr hvalue))
  | eval he => exact .text_line (hexpr he)
  | discardValue he => exact .text_line (IsPlain.append (by decide) (hexpr he))
  -- the branches are written one after the other, so that the text is cut before the last
  | @conditional branches otherwise _ hconds hbodies hotherwise ih ih' =>
      have hbranches := adds_branches hd hconds ih level "" [] (by decide)
        fun _ => rfl
      cases otherwise with
      | none =>
          have h := hbranches.append Adds.newline
          rwa [List.append_nil] at h
      | some body =>
          have helse := @adds_braces_line _ d width _ " else" (by decide)
            (ih' body rfl) level
          have htext : text d width level (.conditional branches (some body)) =
              branchTexts d width level "" branches ++ (" else" ++ " \x7b\n" ++
                blockText d width (level + 1) body ++ indent width level ++ "\x7d\n") := by
            show branchTexts d width level "" branches ++ (" else" ++ " \x7b\n") ++
              blockText d width (level + 1) body ++ indent width level ++ "\x7d\n" = _
            simp only [String.append_assoc]
          rw [htext]
          exact hbranches.append helse
  -- the head is cut at its semicolons, as the reader cuts it
  | @forRange type counter first last body htype hcounter hfirst hlast hbody ih =>
      have hhead : IsPlain ("for (" ++ d.declaration type counter ++ " = " ++ first.text d) :=
        ((IsPlain.append (by decide) (hd.declaration _ _ htype hcounter)).append (by decide)).append
          (hexpr hfirst)
      have hbound := hd.bound _ _ hcounter (hexpr hlast)
      have hstep : IsPlain (counter ++ "++)") := (hd.name _ hcounter).append (by decide)
      have hblock := @adds_braces_line _ d width _ _ hstep ih level
      have hspaced : ∀ {text : String} {items : List Item}, Adds text items → ∀ before : String,
          before = " " → Adds (before ++ text) items := by
        rintro text items h before rfl
        exact (Adds.spaces (by decide)).append h
      have htext : text d width level (.forRange type counter first last body) =
          ("for (" ++ d.declaration type counter ++ " = " ++ first.text d) ++ ";" ++
            (" " ++ (d.bound counter (last.text d) ++ ";")) ++
            (" " ++ (counter ++ "++)" ++ " \x7b\n" ++ blockText d width (level + 1) body ++
              indent width level ++ "\x7d\n")) := by
        show "for (" ++ d.declaration type counter ++ " = " ++ first.text d ++ (";" ++ " ") ++
          d.bound counter (last.text d) ++ (";" ++ " ") ++ counter ++ ("++)" ++ " \x7b\n") ++
            blockText d width (level + 1) body ++ indent width level ++ "\x7d\n" = _
        simp only [String.append_assoc]
      rw [htext]
      exact ((Adds.line hhead).append (hspaced (Adds.line hbound) _ rfl)).append
        (hspaced hblock _ rfl)
  | @whileDo cond body hcond hbody ih =>
      have hhead : IsPlain ("while " ++ d.condition (cond.text d)) :=
        IsPlain.append (by decide) (hd.condition _ (hexpr hcond))
      exact adds_braces_line hhead ih level
  | @doWhile body cond hbody hcond ih =>
      have hblock := @adds_braces _ d width _ "do" (by decide) ih level
      have hline : IsPlain ("while " ++ d.condition (cond.text d)) :=
        IsPlain.append (by decide) (hd.condition _ (hexpr hcond))
      have htext : text d width level (.doWhile body cond) =
          ("do" ++ " \x7b\n" ++ blockText d width (level + 1) body ++ indent width level ++
            "\x7d") ++ (" " ++ (("while " ++ d.condition (cond.text d)) ++ ";\n")) := by
        show ("do" ++ " \x7b\n") ++ blockText d width (level + 1) body ++ indent width level ++
          ("\x7d" ++ " " ++ "while ") ++ d.condition (cond.text d) ++ ";\n" = _
        simp only [String.append_assoc]
      rw [htext]
      exact hblock.append ((@Adds.spaces " " (by decide)).append (.text_line hline))
  -- the test is a block of its own at the end of the body
  | @loop body breakIf hbody hbreak ih =>
      have hbody := @adds_block _ d width _ ih (level + 1)
      have hline : IsPlain ("break if " ++ breakIf.text d) :=
        IsPlain.append (by decide) (hexpr hbreak)
      have htest := (Adds.spaces (isBlank_indent width (level + 2))).append
        (Adds.text_line hline)
      have hinner := @Adds.text_block _ "continuing" _ _ (by decide) htest
        (isBlank_indent width (level + 1))
      have hall := @Adds.text_block _ "loop" _ _ (by decide)
        ((hbody.append ((Adds.spaces (isBlank_indent width (level + 1))).append hinner)).append
          Adds.newline)
        (isBlank_indent width level)
      have hline := hall.append Adds.newline
      have htext : text d width level (.loop body breakIf) = "loop" ++ " \x7b\n" ++
          (blockText d width (level + 1) body ++ (indent width (level + 1) ++ ("continuing" ++
            " \x7b\n" ++ (indent width (level + 2) ++ ("break if " ++ breakIf.text d ++ ";\n")) ++
              indent width (level + 1) ++ "\x7d")) ++ "\n") ++ indent width level ++ "\x7d" ++
                "\n" := by
        show ("loop" ++ " \x7b\n") ++ blockText d width (level + 1) body ++
          indent width (level + 1) ++ ("continuing" ++ " \x7b\n") ++ indent width (level + 2) ++
            "break if " ++ breakIf.text d ++ ";\n" ++ indent width (level + 1) ++
              ("\x7d" ++ "\n") ++ indent width level ++ ("\x7d" ++ "\n") = _
        simp only [String.append_assoc]
      rw [htext]
      simp only [List.nil_append, List.append_nil] at hline
      exact hline
  | @block body hbody ih =>
      have htext : text d width level (.block body) =
          "" ++ "\x7b" ++ ("\n" ++ blockText d width (level + 1) body) ++ indent width level ++
            "\x7d" ++ "\n" := by
        show ("\x7b" ++ "\n") ++ blockText d width (level + 1) body ++ indent width level ++
          ("\x7d" ++ "\n") = _
        simp only [String.append_assoc, String.empty_append]
      have hspace := isBlank_indent width level
      have hlast : (indent width level).toList.dropWhile Char.isWhitespace = [] :=
        List.dropWhile_eq_nil_iff.mpr hspace
      have hblock := @Adds.block _ "" _ _ (by decide)
        (Adds.newline.append
          (@adds_block _ d width _ ih (level + 1))) (Adds.isPlain_spaces hspace)
      rw [hlast] at hblock
      rw [htext]
      exact hblock.append (Adds.spaces (by decide))
  | returnWith hvalue =>
      exact .text_line (IsPlain.append (by decide) (isPlain_optional hd (by decide) hvalue))
  | breakLoop => exact @Adds.text_line "break" (by decide)
  | continueLoop => exact @Adds.text_line "continue" (by decide)
  | discard => exact @Adds.text_line "discard" (by decide)

end Stmt

/-! ## Lowered statements -/

namespace Lowering

/-- Rules that lower to names, types, expressions and statements that will do. -/
structure IsLegible {τ : Type} (rules : Lowering τ) (ok : String → Prop) (okType : τ → Prop) :
    Prop where
  var : ∀ {v d}, rules.var v = .ok d → ok d.name
  type : ∀ {t type}, rules.type t = .ok type → okType type
  expr : ∀ {e code}, rules.expr e = .ok code → code.Legible ok okType
  assign : ∀ {target op value s}, rules.assign target op value = .ok s → s.Legible ok okType
  eval : ∀ {e s}, rules.eval e = .ok s → s.Legible ok okType
  doWhile : ∀ {body cond}, (∀ s ∈ body, Stmt.Legible ok okType s) → cond.Legible ok okType →
    (rules.doWhile body cond).Legible ok okType

section Lowered

variable {τ : Type} {rules : Lowering τ} {ok : String → Prop} {okType : τ → Prop}
  {V : VarId → Prop} {A : Term → Prop}

/-- What may be missing from a line is lowered legibly. -/
theorem IsLegible.optional (h : rules.IsLegible ok okType) {value : Option Term}
    {code : Option (Expr τ)} (hcode : rules.optional value = .ok code) :
    ∀ e, code = some e → e.Legible ok okType := by
  rintro e rfl
  cases value with
  | none => cases hcode
  | some value =>
      rw [Lowering.optional, map_eq_ok_iff] at hcode
      obtain ⟨e', he', hcode⟩ := hcode
      rw [← Option.some.inj hcode]
      exact h.expr he'

mutual

/-- A lowered statement is legible. -/
theorem legible_stmt (h : rules.IsLegible ok okType) :
    (s : WebShader.Stmt Term) → {code : Stmt τ} → s.Meets V A → rules.stmt s = .ok code →
      code.Legible ok okType
  | .declare v init, code, _, hcode => by
      simp only [stmt, bind_eq_ok_iff] at hcode
      obtain ⟨d, hd, type, htype, value, hvalue, hcode⟩ := hcode
      rw [← Except.ok.inj hcode]
      exact .declare (h.type htype) (h.var hd) (h.optional hvalue)
  | .assign target op value, code, _, hcode => h.assign hcode
  | .eval e, code, _, hcode => h.eval hcode
  | .conditional cases none, code, hs, hcode => by
      simp only [stmt, bind_eq_ok_iff] at hcode
      obtain ⟨branches', hbranches, hcode⟩ := hcode
      rw [← Except.ok.inj hcode]
      obtain ⟨hne, hconds, hbodies⟩ := legible_branches h cases hs.2 hbranches
      exact .conditional (hne hs.1) hconds hbodies fun _ h => by cases h
  | .conditional cases (some otherwise), code, hs, hcode => by
      simp only [stmt, bind_eq_ok_iff] at hcode
      obtain ⟨branches', hbranches, otherwise', hotherwise, hcode⟩ := hcode
      rw [← Except.ok.inj hcode]
      obtain ⟨hne, hconds, hbodies⟩ := legible_branches h cases hs.2.1 hbranches
      refine .conditional (hne hs.1) hconds hbodies ?_
      rintro _ ⟨⟩
      exact legible_block h otherwise hs.2.2 hotherwise
  | .forRange counter first last body, code, hs, hcode => by
      simp only [stmt, bind_eq_ok_iff] at hcode
      obtain ⟨d, hd, type, htype, first', hfirst, last', hlast, body', hbody, hcode⟩ := hcode
      rw [← Except.ok.inj hcode]
      exact .forRange (h.type htype) (h.var hd) (h.expr hfirst) (h.expr hlast)
        (legible_block h body hs.2 hbody)
  | .whileDo cond body, code, hs, hcode => by
      simp only [stmt, bind_eq_ok_iff] at hcode
      obtain ⟨cond', hcond, body', hbody, hcode⟩ := hcode
      rw [← Except.ok.inj hcode]
      exact .whileDo (h.expr hcond) (legible_block h body hs hbody)
  | .doWhile body cond, code, hs, hcode => by
      simp only [stmt, bind_eq_ok_iff] at hcode
      obtain ⟨body', hbody, cond', hcond, hcode⟩ := hcode
      rw [← Except.ok.inj hcode]
      exact h.doWhile (legible_block h body hs hbody) (h.expr hcond)
  | .block body, code, hs, hcode => by
      simp only [stmt, bind_eq_ok_iff] at hcode
      obtain ⟨body', hbody, hcode⟩ := hcode
      rw [← Except.ok.inj hcode]
      exact .block (legible_block h body hs hbody)
  | .returnWith value, code, _, hcode => by
      simp only [stmt, bind_eq_ok_iff] at hcode
      obtain ⟨value', hvalue, hcode⟩ := hcode
      rw [← Except.ok.inj hcode]
      exact .returnWith (h.optional hvalue)
  | .breakLoop, code, _, hcode => by
      rw [← Except.ok.inj hcode]
      exact .breakLoop
  | .continueLoop, code, _, hcode => by
      rw [← Except.ok.inj hcode]
      exact .continueLoop
  | .discard, code, _, hcode => by
      rw [← Except.ok.inj hcode]
      exact .discard
termination_by structural s => s

/-- Legibility of a lowered block, one statement after the other. -/
theorem legible_block (h : rules.IsLegible ok okType) :
    (body : List (WebShader.Stmt Term)) → {code : List (Stmt τ)} →
      WebShader.Stmt.BlockMeets V A body → rules.block body = .ok code →
        ∀ s ∈ code, s.Legible ok okType
  | [], code, _, hcode => by
      rw [← Except.ok.inj hcode]
      exact List.forall_mem_nil _
  | s :: rest, code, hbody, hcode => by
      simp only [block, bind_eq_ok_iff] at hcode
      obtain ⟨s', hs, rest', hrest, hcode⟩ := hcode
      rw [← Except.ok.inj hcode, List.forall_mem_cons]
      exact ⟨legible_stmt h s hbody.1 hs, legible_block h rest hbody.2 hrest⟩
termination_by structural body => body

/-- Legibility of the branches of a conditional. -/
theorem legible_branches (h : rules.IsLegible ok okType) :
    (cases : List (Term × List (WebShader.Stmt Term))) → {code : List (Expr τ × List (Stmt τ))} →
      WebShader.Stmt.BranchesMeet V A cases → rules.branches cases = .ok code →
        (cases ≠ [] → code ≠ []) ∧ (∀ b ∈ code, b.1.Legible ok okType) ∧
          ∀ b ∈ code, ∀ s ∈ b.2, s.Legible ok okType
  | [], code, _, hcode => by
      rw [← Except.ok.inj hcode]
      exact ⟨fun h => absurd rfl h, List.forall_mem_nil _, List.forall_mem_nil _⟩
  | (cond, body) :: rest, code, hcases, hcode => by
      simp only [branches, bind_eq_ok_iff] at hcode
      obtain ⟨cond', hcond, body', hbody, rest', hrest, hcode⟩ := hcode
      obtain ⟨-, hconds, hbodies⟩ := legible_branches h rest hcases.2 hrest
      rw [← Except.ok.inj hcode, List.forall_mem_cons, List.forall_mem_cons]
      exact ⟨fun _ => List.cons_ne_nil _ _, ⟨h.expr hcond, hconds⟩,
        legible_block h body hcases.1 hbody, hbodies⟩
termination_by structural cases => cases

end

end Lowered

end Lowering

end Code

end WebShader
