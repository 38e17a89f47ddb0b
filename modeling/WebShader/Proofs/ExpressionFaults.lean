import WebShader.Glsl.Expression
import WebShader.Proofs.NameScopes
import WebShader.Wgsl.Expression

/-!
# Faults of expressions

Some errors tell of a fault of the builder and not of what it is asked for: something is looked up
that was never made, or a branch has no conditional to join. An expression is written without such a
fault where its variables are looked up without one; where they exist, nothing is looked up in vain.
-/

namespace WebShader

/-- The faults of a builder. -/
inductive Fault where
  /-- An expression or a variable was never made. -/
  | undefined
  /-- A branch has no conditional to join. -/
  | detached

/-- The fault that an error tells of, if it tells of one. -/
def ShaderError.fault? : ShaderError → Option Fault
  | .internal (.undefinedExpression _) => some .undefined
  | .internal .detachedElseIf | .internal .detachedElse => some .detached
  | _ => none

attribute [grind =] ShaderError.fault?.eq_def

/-- A result that is not an error of the fault. -/
def Avoids (fault : Fault) {α : Type} (x : Except ShaderError α) : Prop :=
  ∀ e, x = .error e → e.fault? ≠ some fault

/-! ## Computations that may fail -/

namespace Avoids

variable {α β : Type} {fault : Fault}

/-- Something that is there is no fault. -/
@[grind ←]
theorem ok (a : α) : Avoids fault (.ok a) := fun _ h => by cases h

/-- Something that is there is no fault. -/
@[grind ←]
protected theorem pure (a : α) : Avoids fault (pure a) := .ok a

/-- Other errors are no fault. -/
@[grind ←]
theorem error {e : ShaderError} (he : e.fault? ≠ some fault) :
    Avoids fault (.error e : Except ShaderError α) :=
  fun _ h => Except.error.inj h ▸ he

/-- Other errors are no fault. -/
@[grind ←]
theorem throw {e : ShaderError} (he : e.fault? ≠ some fault) :
    Avoids fault (throw e : Except ShaderError α) :=
  .error he

/-- One after the other. -/
@[grind ←]
theorem bind {x : Except ShaderError α} {f : α → Except ShaderError β} (h : Avoids fault x)
    (hf : ∀ a, Avoids fault (f a)) : Avoids fault (x >>= f) := by
  cases x with
  | ok a => exact hf a
  | error e => exact .error (h e rfl)

/-- A result that is changed. -/
@[grind ←]
theorem map {x : Except ShaderError α} (h : Avoids fault x) (f : α → β) :
    Avoids fault (x.map f) := by
  cases x with
  | ok a => exact .ok _
  | error e => exact .error (h e rfl)

/-- An error that is passed on. -/
@[grind →]
theorem of_eq_error {x : Except ShaderError α} (h : Avoids fault x) {e : ShaderError}
    (hx : x = .error e) : e.fault? ≠ some fault := h e hx

/-- Each of a list. -/
@[grind ←]
theorem mapM {f : α → Except ShaderError β} (h : ∀ a, Avoids fault (f a)) (l : List α) :
    Avoids fault (l.mapM f) := by
  induction l with
  | nil => exact .ok _
  | cons a l ih =>
      rw [List.mapM_cons]
      exact .bind (h a) fun _ => .bind ih fun _ => .pure _

end Avoids

/-! ## Stages -/

namespace ResolvedStage

variable {fault : Fault} {s : ResolvedStage}

/-- Looking up the variables that are mentioned is no fault. -/
def AvoidsAt (fault : Fault) (s : ResolvedStage) (ms : List Mention) : Prop :=
  ∀ v, .var v ∈ ms → Avoids fault (s.var v)

/-- The variables of two lists of mentions are those of both. -/
theorem AvoidsAt.append {ms ms' : List Mention} (h : s.AvoidsAt fault (ms ++ ms')) :
    s.AvoidsAt fault ms ∧ s.AvoidsAt fault ms' :=
  ⟨fun v hv => h v (List.mem_append_left _ hv), fun v hv => h v (List.mem_append_right _ hv)⟩

/-- A record is looked up. -/
@[grind ←]
theorem avoids_record (v : VarId) (d : Variable) : Avoids fault (s.record v d) := by
  unfold ResolvedStage.record
  grind

/-- A function is looked up. -/
@[grind ←]
theorem avoids_function (f : FunctionId) : Avoids fault (s.function f) := by
  unfold ResolvedStage.function
  grind

/-- A struct is looked up. -/
@[grind ←]
theorem avoids_struct (t : TypeId) : Avoids fault (s.struct t) := by
  unfold ResolvedStage.struct
  grind

/-- A member is looked up. -/
@[grind ←]
theorem avoids_member (t : TypeId) (index : Nat) : Avoids fault (s.member t index) := by
  unfold ResolvedStage.member
  grind

end ResolvedStage

/-! ## GLSL ES -/

namespace Glsl

open ResolvedStage

variable {fault : Fault} {s : ResolvedStage}

/-- The sampler of a texture is spelled. -/
@[grind ←]
theorem avoids_samplerName (target : Target) (t : TextureType) :
    Avoids fault (samplerName target t) := by
  unfold samplerName
  grind

/-- A type is spelled, by recursion on the type. -/
@[grind ←]
theorem avoids_typeName (r : Registry) (target : Target) (t : TypeId) :
    Avoids fault (typeName r target t) := by
  have helement : ∀ element : TypeId, element.index < t.index →
      Avoids fault (typeName r target element) := fun element _ => avoids_typeName r target element
  rw [typeName]
  grind
termination_by t.index

/-- A type of a stage is spelled. -/
@[grind ←]
theorem avoids_typeOf (t : TypeId) : Avoids fault (typeOf s t) := avoids_typeName _ _ t

/-- A variable is spelled where it is looked up. -/
@[grind ←]
theorem avoids_variableExpr {v : VarId} (h : Avoids fault (s.var v)) :
    Avoids fault (variableExpr s v) := by
  unfold variableExpr
  grind

/-- A binary operation is spelled. -/
@[grind ←]
theorem avoids_binary (op : BinaryOp) (lhs : Expr) (lt : TypeId) (rhs : Expr) (rt t : TypeId) :
    Avoids fault (binary s op lhs lt rhs rt t) := by
  unfold binary remainder
  grind

/-- A constructor is spelled. -/
@[grind ←]
theorem avoids_construct (t : TypeId) (args : List Expr) : Avoids fault (construct s t args) := by
  unfold construct zero
  grind

/-- A call on a texture is spelled. -/
@[grind ←]
theorem avoids_textureCall (f : Intrinsic) (t : Option TextureType) (args : List Expr) :
    Avoids fault (textureCall s f t args) := by
  unfold textureCall
  grind

mutual

/-- A term is spelled, by recursion on the term. -/
theorem avoids_expr : (e : Term) → s.AvoidsAt fault e.mentions → Avoids fault (expr s e)
  | .literal _ _, _ | .builtin _ _, _ => .ok _
  | .var _ v, h => avoids_variableExpr (h v List.mem_cons_self)
  | .member _ base _, h =>
      .bind (avoids_member _ _) fun _ => .bind (avoids_expr base h) fun _ => .pure _
  | .swizzle _ base _, h => .bind (avoids_expr base h) fun _ => .pure _
  | .index _ base i, h =>
      .bind (avoids_expr base h.append.1) fun _ => .bind (avoids_expr i h.append.2) fun _ => .pure _
  | .unary _ _ operand, h => .bind (avoids_expr operand h) fun _ => .pure _
  | .binary _ _ lhs rhs, h =>
      .bind (avoids_expr lhs h.append.1) fun _ => .bind (avoids_expr rhs h.append.2) fun _ =>
        avoids_binary _ _ _ _ _ _
  | .construct _ args, h => .bind (avoids_exprs args h) fun _ => avoids_construct _ _
  | .call _ f args, h =>
      .bind (avoids_function f) fun _ => .bind (avoids_exprs args h) fun _ => .pure _
  | .intrinsic _ f args, h => by
      rw [expr]
      refine .bind (avoids_exprs args h.append.2) fun _ => ?_
      split
      · exact avoids_textureCall _ _ _
      · exact .pure _
  | .addressOf _ _, _ | .deref _ _, _ => .error (by grind)

/-- Terms are spelled, by recursion on the list. -/
theorem avoids_exprs :
    (es : List Term) → s.AvoidsAt fault (Term.mentionsOf es) → Avoids fault (exprs s es)
  | [], _ => .ok []
  | e :: rest, h =>
      .bind (avoids_expr e h.append.1) fun _ => .bind (avoids_exprs rest h.append.2) fun _ =>
        .pure _

end

end Glsl

/-! ## WGSL -/

namespace Wgsl

open ResolvedStage

variable {fault : Fault} {s : ResolvedStage}

/-- A variable is spelled where it is looked up. -/
@[grind ←]
theorem avoids_variableExpr {v : VarId} (h : Avoids fault (s.var v)) :
    Avoids fault (variableExpr s v) := by
  unfold variableExpr
  grind

/-- A type is spelled, by recursion on the type. -/
@[grind ←]
theorem avoids_typeName (r : Registry) (t : TypeId) : Avoids fault (typeName r t) := by
  have hpart : ∀ part : TypeId, Avoids fault (if part.index < t.index then typeName r part
      else .error (.internal .voidSpelling)) := by
    intro part
    split
    · exact avoids_typeName r part
    · exact .error (by grind)
  rw [typeName]
  grind
termination_by t.index

/-- A type is spelled with wrappers, by recursion on the type. -/
@[grind ←]
theorem avoids_std140TypeName (r : Registry) (t : TypeId) : Avoids fault (std140TypeName r t) := by
  have helement : ∀ element : TypeId, element.index < t.index →
      Avoids fault (std140TypeName r element) := fun element _ => avoids_std140TypeName r element
  rw [std140TypeName]
  grind
termination_by t.index

/-- A value is unwrapped, by recursion on the type. -/
@[grind ←]
theorem avoids_load (r : Registry) (t : TypeId) (place : Expr) : Avoids fault (load r t place) := by
  rw [load]
  cases r.kind t with
  | array element n =>
      -- the elements come before the array, so that the recursion goes down
      have helement : ∀ item, element.index < t.index → Avoids fault (load r element item) :=
        fun item _ => avoids_load r element item
      dsimp only
      split
      · exact .throw (by grind)
      · refine .bind (.mapM (fun k => ?_) _) fun _ => .bind (avoids_typeName r t) fun _ => .pure _
        grind
  | primitive | void | struct | pointer | texture | sampler => grind
termination_by t.index

/-- A value is wrapped, by recursion on the type. -/
@[grind ←]
theorem avoids_store (r : Registry) (t : TypeId) (value : Expr) :
    Avoids fault (store r t value) := by
  rw [store]
  cases r.kind t with
  | array element n =>
      have helement : ∀ item, element.index < t.index → Avoids fault (store r element item) :=
        fun item _ => avoids_store r element item
      dsimp only
      split
      · exact .throw (by grind)
      · refine .bind (.mapM (fun k => ?_) _) fun _ => .bind (avoids_std140TypeName r t) fun _ =>
          .pure _
        grind
  | primitive | void | struct | pointer | texture | sampler => grind
termination_by t.index

/-- A place is unwrapped where it has to be. -/
@[grind ←]
theorem avoids_converted (e : Term) (place : Expr) : Avoids fault (converted s e place) := by
  unfold converted
  grind

/-- An element of something wrapped is spelled. -/
@[grind ←]
theorem avoids_wrappedElement (r : Registry) (t : TypeId) (place : Expr) (known : Option Nat)
    (index : Expr) : Avoids fault (wrappedElement r t place known index) := by
  unfold wrappedElement
  grind

/-- The members of a struct are wrapped, by induction on them. -/
@[grind ←]
theorem avoids_storeMembers (r : Registry) (members : List (Expr × Member)) :
    Avoids fault (storeMembers r members) := by
  induction members with
  | nil => exact .ok []
  | cons m rest ih =>
      rw [storeMembers]
      grind

/-- A constructor is spelled. -/
@[grind ←]
theorem avoids_construct (t : TypeId) (args : List Expr) : Avoids fault (construct s t args) := by
  unfold construct
  grind

/-- A call of a built-in function is spelled. -/
@[grind ←]
theorem avoids_builtinCall (f : Intrinsic) (args : List Expr) :
    Avoids fault (builtinCall f args) := by
  unfold builtinCall
  grind

/-- The sampler of a texture is told by the texture, which is looked up. -/
theorem avoids_textureCall (f : Intrinsic) (args : List Term) (lowered : List Expr)
    (h : s.AvoidsAt fault (Term.mentionsOf args)) :
    Avoids fault (textureCall s f args.head? lowered) := by
  have hvar : ∀ t v, args.head? = some (.var t v) → Avoids fault (s.var v) := by
    intro t v hhead
    obtain ⟨rest, rfl⟩ := List.head?_eq_some_iff.mp hhead
    exact h v List.mem_cons_self
  unfold textureCall
  grind

mutual

/-- A place is spelled, by recursion on the term. -/
theorem avoids_place : (e : Term) → s.AvoidsAt fault e.mentions → Avoids fault (place s e)
  | .literal _ _, _ | .builtin _ _, _ => .ok _
  | .var _ v, h => avoids_variableExpr (h v List.mem_cons_self)
  | .member _ base _, h =>
      .bind (avoids_member _ _) fun _ => .bind (avoids_place base h) fun _ =>
        .bind (avoids_converted _ _) fun _ => .pure _
  | .swizzle _ base _, h =>
      .bind (avoids_place base h) fun _ => .bind (avoids_converted _ _) fun _ => .pure _
  | .index _ base i, h => by
      rw [place]
      refine .bind (avoids_place base h.append.1) fun _ =>
        .bind (avoids_place i h.append.2) fun _ => .bind (avoids_converted _ _) fun _ => ?_
      split
      · exact avoids_wrappedElement _ _ _ _ _
      · exact .pure _
  | .unary _ _ operand, h =>
      .bind (avoids_place operand h) fun _ => .bind (avoids_converted _ _) fun _ => .pure _
  | .binary _ _ lhs rhs, h =>
      .bind (avoids_place lhs h.append.1) fun _ => .bind (avoids_converted _ _) fun _ =>
        .bind (avoids_place rhs h.append.2) fun _ => .bind (avoids_converted _ _) fun _ => .pure _
  | .construct _ args, h => .bind (avoids_values args h) fun _ => avoids_construct _ _
  | .call _ f args, h =>
      .bind (avoids_function f) fun _ => .bind (avoids_values args h) fun _ => .pure _
  | .intrinsic _ f args, h => by
      rw [place]
      refine .bind (avoids_values args h.append.2) fun _ => ?_
      split
      · exact avoids_textureCall _ _ _ h.append.2
      · exact avoids_builtinCall _ _
  | .addressOf _ e, h => by
      have hplace := avoids_place e h
      rw [place]
      grind
  | .deref _ pointer, h =>
      .bind (avoids_place pointer h) fun _ => .bind (avoids_converted _ _) fun _ => .pure _

/-- The values of terms are spelled, by recursion on the list. -/
theorem avoids_values :
    (es : List Term) → s.AvoidsAt fault (Term.mentionsOf es) → Avoids fault (values s es)
  | [], _ => .ok []
  | e :: rest, h =>
      .bind (avoids_place e h.append.1) fun _ => .bind (avoids_converted _ _) fun _ =>
        .bind (avoids_values rest h.append.2) fun _ => .pure _

end

/-- A value is spelled. -/
theorem avoids_expr (e : Term) (h : s.AvoidsAt fault e.mentions) : Avoids fault (expr s e) :=
  .bind (avoids_place e h) fun _ => avoids_converted _ _

end Wgsl

/-! ## Variables that are found -/

/-- A computation that does not fail for want of a variable or an expression. -/
def Finds {α : Type} (x : Except ShaderError α) : Prop :=
  ∀ i, x ≠ .error (.internal (.undefinedExpression i))

/-- Who avoids the fault finds what there is. -/
theorem Avoids.finds {α : Type} {x : Except ShaderError α} (h : Avoids .undefined x) : Finds x :=
  fun _ hx => h _ hx rfl

/-- The variables of a stage that an expression mentions. -/
def ResolvedStage.HasVars (s : ResolvedStage) (ms : List Mention) : Prop :=
  ∀ v, .var v ∈ ms → ∃ d, s.vars[v.index]? = some d

/-- Variables that exist are looked up. -/
theorem ResolvedStage.HasVars.avoidsAt {fault : Fault} {s : ResolvedStage} {ms : List Mention}
    (h : s.HasVars ms) : s.AvoidsAt fault ms := by
  intro v hv
  obtain ⟨d, hd⟩ := h v hv
  rw [var_eq_ok_iff.mpr hd]
  exact .ok d

end WebShader
