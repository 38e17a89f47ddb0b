import WebShader.Proofs.OperationSteps
import WebShader.Proofs.Upgrade

/-!
# Operations upgrade

Every operation that succeeds on WebGL succeeds on WebGL2, with the same result. WebGL2 has the
types, functions and variables that WebGL has, and the overloads that it adds come after those of
WebGL; where WebGL only takes note of an extension or of an emulation, WebGL2 does nothing.
-/

namespace WebShader

namespace Build

variable {α β : Type}

/-! ## Results -/

/-- What an operation gives if it succeeds. -/
def Returns (P : α → Prop) (act : Build α) : Prop :=
  ∀ (b : Builder) a b', b.run act = (.ok a, b') → P a

namespace Returns

variable {P : α → Prop}

/-- What is returned is as asked. -/
protected theorem pure {a : α} (h : P a) : Returns P (pure a) := by
  intro b a' b' hrun
  rwa [← Except.ok.inj (Prod.mk.inj hrun).1]

/-- An error returns nothing. -/
theorem throw (e : ShaderError) : Returns P (throw e) := by
  intro b a b' hrun
  cases (Prod.mk.inj hrun).1

/-- What is returned last counts. -/
theorem bind {act : Build β} {f : β → Build α} (hf : ∀ a, Returns P (f a)) :
    Returns P (act >>= f) := by
  intro b a b' hrun
  rw [Builder.run_bind] at hrun
  rcases hact : b.run act with ⟨e | x, b₁⟩
  · rw [hact] at hrun
    cases (Prod.mk.inj hrun).1
  · rw [hact] at hrun
    exact hf x b₁ a b' hrun

/-- Both branches return it. -/
theorem ite {c : Prop} [Decidable c] {act act' : Build α} (h : Returns P act)
    (h' : Returns P act') : Returns P (if c then act else act') := by
  split
  · exact h
  · exact h'

end Returns

/-! ## Checks and types -/

theorem upgrades_require (f : Feature) : Upgrades (require f) :=
  .get_bind fun _ hb => .liftM hb fun _ h => by
    rw [hb.target] at h
    exact Target.require_eq_ok_iff.mpr
      (Target.supports_webGL2_of_webGL (Target.require_eq_ok_iff.mp h))

@[grind ←]
theorem upgrades_resolve (name : String) : Upgrades (resolve name) := by
  refine .read_bind (fun b _ => by rw [Builder.upgrade_lookup]) fun b => ?_
  split
  · exact .pure _
  · exact .throw _

theorem upgrades_inGlobalScope : Upgrades inGlobalScope :=
  .readStage_bind (fun _ => rfl) fun _ => .pure _

theorem upgrades_requireGlobal (what : String) : Upgrades (requireGlobal what) :=
  .bind upgrades_inGlobalScope fun _ => .ite (.throw _) (.pure _)

theorem upgrades_requireFunction (what : String) : Upgrades (requireFunction what) :=
  .bind upgrades_inGlobalScope fun _ => .ite (.throw _) (.pure _)

theorem upgrades_frame : Upgrades frame := by
  refine .readStage_bind (fun _ => rfl) fun s => ?_
  split
  · exact .pure _
  · exact .throw _

theorem upgrades_setFrame (f : Frame) : Upgrades (setFrame f) :=
  upgrades_modifyStage (fun _ => rfl) fun _ => rfl

theorem upgrades_declareSymbol (name : String) (e : Expr) : Upgrades (declareSymbol name e) := by
  unfold declareSymbol
  exact .bind upgrades_frame fun f => .when (.throw _) (upgrades_setFrame _)

theorem upgrades_emit (s : Stmt NodeId) : Upgrades (emit s) :=
  .bind (upgrades_requireFunction _) fun _ => .bind upgrades_frame fun _ => upgrades_setFrame _

theorem upgrades_newVar (name : String) (type : TypeId) (role : Role) (init : Option NodeId) :
    Upgrades (newVar name type role init) := by
  have hvar : ∀ v : Variable, Upgrades (pushVar v) := fun v => by
    have hpush : Upgrades (modify fun b => { b with vars := b.vars.push v }) :=
      upgrades_modify (fun _ => rfl) fun _ hb => { hb with }
    exact .read_bind (fun _ _ => rfl) fun _ => .bind hpush fun _ => .pure _
  refine .bind (.liftM _) fun _ => .readStage_bind (fun _ => rfl) fun s => ?_
  refine .bind (hvar _) fun v => .bind (upgrades_pushNode _ _) fun e => ?_
  exact .bind (upgrades_declareSymbol _ _) fun _ => .pure _

/-- A texture of the older target is one of the newer. -/
theorem checkTexture_upgrade {t : TextureType} (h : checkTexture .webGL t = .ok ()) :
    checkTexture .webGL2 t = .ok () := by
  obtain ⟨dimension, sample, multisampled⟩ := t
  cases dimension <;> cases multisampled <;> cases sample <;> first | rfl | cases h

/-- A primitive type of the older target is one of the newer. -/
theorem checkPrimitive_upgrade {p : PrimitiveType} (h : checkPrimitive .webGL p = .ok ()) :
    checkPrimitive .webGL2 p = .ok () := by
  unfold checkPrimitive at h ⊢
  by_cases hshape : (p.isMatrix && p.cols != p.rows) = true
  · rw [if_pos hshape] at h
    cases hkind : p.scalar <;> rw [hkind] at h <;> cases h
  · rw [if_neg hshape] at h ⊢
    cases hkind : p.scalar <;> rw [hkind] at h <;> first | rfl | cases h

mutual

/-- The types that WebGL has are types that WebGL2 has. -/
theorem checkShape_upgrade (shape : TypeShape) (h : checkShape .webGL shape = .ok ()) :
    checkShape .webGL2 shape = .ok () :=
  match shape with
  | .void | .sampler _ => rfl
  | .primitive _ => checkPrimitive_upgrade h
  | .texture _ => checkTexture_upgrade h
  | .array element n => by
      rw [checkShape] at h ⊢
      dsimp only at h ⊢
      split at h
      · cases h
      · rename_i hn
        rw [if_neg hn]
        split at h
        · cases h
        · rename_i harray
          rw [if_neg harray]
          exact checkShape_upgrade element h
  | .struct _ _ members => checkMemberShapes_upgrade members h
  | .pointer _ _ => by cases h
termination_by structural shape

/-- The types of members are those of the newer target, by recursion on the list. -/
theorem checkMemberShapes_upgrade (members : List (String × TypeShape))
    (h : checkMemberShapes .webGL members = .ok ()) : checkMemberShapes .webGL2 members = .ok () :=
  match members with
  | [] => rfl
  | (_, type) :: rest => by
      obtain ⟨_, htype, hrest⟩ := bind_eq_ok_iff.mp h
      exact bind_eq_ok_iff.mpr
        ⟨(), checkShape_upgrade type htype, checkMemberShapes_upgrade rest hrest⟩
termination_by structural members

end

/-! ## Operands and operators -/

/-- A feature that the target lacks is refused. -/
theorem run_require_of_lacks {f : Feature} {b : Builder} (hf : b.target.supports f = false) :
    b.run (require f) = (.error (.capability f b.target), b) := by
  have hrequire : b.target.require f = .error (.capability f b.target) := by
    rw [Target.require, if_neg (by simp [hf])]
  rw [require, Builder.run_bind, Builder.run_get]
  dsimp only
  rw [Builder.run_liftM, hrequire]

/-- What follows a feature that the target lacks is not run. -/
theorem run_require_bind_of_lacks {f : Feature} {b : Builder} (hf : b.target.supports f = false)
    (act : PUnit → Build α) : b.run (require f >>= act) = (.error (.capability f b.target), b) := by
  rw [Builder.run_bind, run_require_of_lacks hf]

theorem upgrades_require_bind {f : Feature} (hf : Target.webGL.supports f = false)
    {act : PUnit → Build α} : Upgrades (require f >>= act) := by
  intro b hb a b' hrun
  rw [run_require_bind_of_lacks (by rw [hb.target, hf])] at hrun
  cases (Prod.mk.inj hrun).1

theorem upgrades_literal (l : Literal) : Upgrades (literal l) := by
  have hpush : ∀ l : Literal, l.scalar ≠ .u32 → Upgrades (do
      pushNode (← intern (Interning.scalar l.scalar)) (.literal l)) := fun l hl =>
    .bind (upgrades_intern (Interning.keepsSigned_primitive hl)) fun _ => upgrades_pushNode _ _
  unfold literal
  split
  · exact upgrades_require_bind rfl
  · exact .bind (upgrades_require _) fun _ => hpush _ (by simp [Literal.scalar])
  · rename_i hu32 _
    refine hpush l fun hl => ?_
    cases l <;> first | exact hu32 _ rfl | cases hl

@[grind ←]
theorem upgrades_lower (v : Value) (hint : Option ScalarKind) : Upgrades (lower v hint) := by
  unfold lower
  split
  · exact .pure _
  · split
    · exact upgrades_literal _
    · exact .throw _

theorem upgrades_lowerNear (v : Value) (hint : Option ScalarKind) :
    Upgrades (lowerNear v hint) := by
  unfold lowerNear
  repeat' split
  all_goals exact upgrades_lower _ _

theorem upgrades_coerce (v : Value) (t : TypeId) (what : String) : Upgrades (coerce v t what) := by
  refine .read_bind (fun _ _ => rfl) fun b => .bind (upgrades_lowerNear _ _) fun e => ?_
  exact .read_bind (fun _ _ => rfl) fun b => .when (.throw _) (.pure _)

theorem upgrades_lowerPair (lhs rhs : Value) : Upgrades (lowerPair lhs rhs) := by
  have hnear : ∀ (v : Value) (t : TypeId) (f : Expr → Expr × Expr), Upgrades (do
      let e ← lowerNear v ((← MonadState.get).scalarOf? t)
      return f e) :=
    fun v t f => .read_bind (fun _ _ => rfl) fun b => .bind (upgrades_lowerNear _ _) fun e =>
      .pure _
  unfold lowerPair
  split
  · exact hnear _ _ _
  · exact hnear _ _ _
  · exact .bind (upgrades_lowerNear _ _) fun l => hnear _ _ _

theorem upgrades_operandType (e : Expr) (operation : String) :
    Upgrades (operandType e operation) := by
  refine .read_bind (fun _ _ => rfl) fun b => ?_
  dsimp only
  split
  · exact .pure _
  · exact .throw _

theorem upgrades_binaryType (op : BinaryOp) (lhs rhs : Expr) :
    Upgrades (binaryType op lhs rhs) := by
  refine fun b hb => .bind (upgrades_operandType _ _ b hb) fun l b' hl hb' => ?_
  refine .bind (upgrades_operandType _ _ b' hb') fun r b'' hr hb'' => ?_
  obtain ⟨rfl, hl⟩ := run_operandType_eq_ok hl
  obtain ⟨rfl, hr⟩ := run_operandType_eq_ok hr
  split
  · rename_i p hp
    have hsigned : p.scalar ≠ .u32 := by
      rcases BinaryOp.scalar_of_result? hp with h | h | h <;> rw [h]
      · exact hb.signed.scalar_ne hl
      · exact hb.signed.scalar_ne hr
      · simp
    exact .intern hb (Interning.keepsSigned_primitive hsigned)
  · exact .throw _

@[grind ←]
theorem upgrades_binary (op : BinaryOp) (lhs rhs : Value) : Upgrades (binary op lhs rhs) := by
  unfold binary
  refine .when (upgrades_require _) ?_
  refine .bind (upgrades_lowerPair _ _) fun x => ?_
  exact .bind (upgrades_binaryType _ _ _) fun t => upgrades_pushNode _ _

@[grind ←]
theorem upgrades_unary (op : UnaryOp) (operand : Value) : Upgrades (unary op operand) := by
  unfold unary
  refine .when (upgrades_require _) ?_
  refine .bind (upgrades_lower _ _) fun e => .bind (upgrades_operandType _ _) fun p => ?_
  exact .when (.throw _) (upgrades_pushNode _ _)

theorem upgrades_type (shape : TypeShape) : Upgrades (type shape) :=
  .get_bind fun _ hb =>
    .bind (.liftM hb fun _ h => checkShape_upgrade shape (hb.target ▸ h)) fun _ b' hrun hb' => by
      rw [Builder.run_liftM, hb.target] at hrun
      exact .intern hb' (Interning.keepsSigned_shape shape (Prod.mk.inj hrun).1)

@[grind ←]
theorem upgrades_cast (v : Value) (k : ScalarKind) : Upgrades (cast v k) := by
  refine .bind (upgrades_lower _ _) fun e => .bind (upgrades_operandType _ _) fun p => ?_
  exact .when (.throw _) (.bind (upgrades_type _) fun t => upgrades_pushNode _ _)

/-! ## Accesses -/

theorem upgrades_access (base : Expr) (part : Access) (type : TypeId) (kind : NodeKind) :
    Upgrades (access base part type kind) := by
  refine .read_bind (fun _ _ => rfl) fun b => ?_
  split
  · exact .pure _
  · refine .bind (upgrades_pushNode _ _) fun e => .bind ?_ fun _ => .pure _
    exact upgrades_modify (fun _ => rfl) fun _ hb => { hb with }

@[grind ←]
theorem upgrades_member (base : Expr) (name : String) : Upgrades (member base name) := by
  refine .read_bind (fun _ _ => rfl) fun b => ?_
  dsimp only
  split
  · exact .throw _
  · split
    · exact .throw _
    · exact upgrades_access _ _ _ _

@[grind ←]
theorem upgrades_swizzle (base : Expr) (mask : String) : Upgrades (swizzle base mask) := by
  refine .get_bind fun b hb => ?_
  dsimp only [Builder.upgrade_types]
  split
  · exact .throw _
  · rename_i p hp
    have hvector : ∀ n, (Interning.primitive (.vector p.scalar n)).KeepsSigned :=
      fun n => Interning.keepsSigned_primitive (show p.scalar ≠ .u32 from hb.signed.scalar_ne hp)
    refine Upgrades.when (.throw _) (.bind (.liftM _) fun s => ?_) b hb
    exact .bind (upgrades_intern (hvector _)) fun t => upgrades_access _ _ _ _

theorem upgrades_elements (t : TypeId) : Upgrades (elements t) := by
  refine .get_bind fun b hb => ?_
  dsimp only [Builder.upgrade_types]
  split
  · exact .pure hb _
  · rename_i p hp
    have hprimitive : b.types.primitive? t = some p := by rw [Registry.primitive?, hp]
    have hsigned := hb.signed.scalar_ne hprimitive
    have helement : p.element.scalar ≠ .u32 := by rwa [p.scalar_element]
    refine Upgrades.when (.throw _) ?_ b hb
    exact .bind (upgrades_intern (Interning.keepsSigned_primitive helement)) fun _ => .pure _
  · exact .throw _

theorem upgrades_element (base : Expr) (type : TypeId) (bound : Option Nat) (i : Int) :
    Upgrades (element base type bound i) := by
  unfold element
  dsimp only
  split
  · exact .read_bind (fun _ _ => rfl) fun b => .throw_bind _
  · refine .read_bind (fun _ _ => rfl) fun b => ?_
    split
    · exact .pure _
    · exact .bind (upgrades_literal _) fun _ => upgrades_access _ _ _ _

@[grind ←]
theorem upgrades_at (base : Expr) (index : Value) : Upgrades («at» base index) := by
  refine .bind (upgrades_elements _) fun x => ?_
  obtain ⟨type, bound⟩ := x
  dsimp only
  split
  · exact upgrades_element _ _ _ _
  · refine .read_bind (fun _ _ => rfl) fun b => ?_
    split
    · exact .when (.throw _) (upgrades_pushNode _ _)
    · exact .throw _
  · exact .throw _

@[grind ←]
theorem upgrades_addressOf (place : Expr) : Upgrades (addressOf place) := by
  refine .bind (upgrades_require _) fun _ => ?_
  refine .read_bind (fun b _ => by rw [Builder.upgrade_root?]; rfl) fun b => ?_
  split
  · exact .throw _
  · split
    · exact .throw _
    · exact .bind (upgrades_intern (Interning.Follows.signed (Interning.follows_pointer _ _)))
        fun _ => upgrades_pushNode _ _

@[grind ←]
theorem upgrades_deref (pointer : Expr) : Upgrades (deref pointer) := by
  refine .read_bind (fun _ _ => rfl) fun b => ?_
  dsimp only
  split
  · exact upgrades_pushNode _ _
  · exact .throw _

/-! ## Statements -/

theorem upgrades_requireSized (what name : String) (t : TypeId) :
    Upgrades (requireSized what name t) := by
  exact .read_bind (fun _ _ => rfl) fun b => .ite (.throw _) (.pure _)

@[grind ←]
theorem upgrades_declareLocal (name : String) (init : Value) :
    Upgrades (declareLocal name init) := by
  refine .bind (upgrades_requireFunction _) fun _ => .bind (upgrades_lower _ _) fun e => ?_
  refine .bind (upgrades_requireSized _ _ _) fun _ => .bind (upgrades_newVar _ _ _ _) fun _ => ?_
  exact .bind (upgrades_emit _) fun _ => .pure _

@[grind ←]
theorem upgrades_declareVar (name : String) (shape : TypeShape) :
    Upgrades (declareVar name shape) := by
  refine .bind (upgrades_requireFunction _) fun _ => .bind (upgrades_type _) fun t => ?_
  refine .bind (upgrades_requireSized _ _ _) fun _ => .bind (upgrades_newVar _ _ _ _) fun _ => ?_
  exact .bind (upgrades_emit _) fun _ => .pure _

@[grind ←]
theorem upgrades_assign (target : Expr) (value : Value) : Upgrades (assign target value) := by
  refine .read_bind (fun b hb => by rw [Builder.upgrade_checkPlace _ hb.target]) fun b => ?_
  exact .bind (.liftM _) fun _ => .bind (upgrades_coerce _ _ _) fun e => upgrades_emit _

@[grind ←]
theorem upgrades_assignOp (target : Expr) (op : BinaryOp) (value : Value) :
    Upgrades (assignOp target op value) := by
  unfold assignOp
  refine .when (.throw _) ?_
  refine .read_bind (fun b hb => by rw [Builder.upgrade_checkPlace _ hb.target]; rfl) fun b => ?_
  refine .bind (.liftM _) fun _ => .bind (upgrades_lowerNear _ _) fun e => ?_
  refine .bind (upgrades_binaryType _ _ _) fun t => .read_bind (fun _ _ => rfl) fun b => ?_
  exact .when (.throw _) (upgrades_emit _)

@[grind ←]
theorem upgrades_eval (e : Expr) : Upgrades (eval e) := upgrades_emit _

@[grind ←]
theorem upgrades_assignNamed (name : String) (value : Value) :
    Upgrades (assignNamed name value) := by
  refine .read_bind (fun b _ => by rw [Builder.upgrade_lookup]) fun b => ?_
  split
  · exact .bind (upgrades_assign _ _) fun _ => .pure _
  · exact upgrades_declareLocal _ _

theorem upgrades_condition (v : Value) : Upgrades (condition v) := by
  refine .bind (upgrades_lower _ _) fun e => .read_bind (fun _ _ => rfl) fun b => ?_
  exact .when (.throw _) (.pure _)

theorem upgrades_requireLoop (statement : String) : Upgrades (requireLoop statement) := by
  exact .readStage_bind (fun _ => rfl) fun s => .ite (.throw _) (.pure _)

@[grind ←]
theorem upgrades_breakLoop : Upgrades breakLoop :=
  .bind (upgrades_requireLoop _) fun _ => upgrades_emit _

@[grind ←]
theorem upgrades_continueLoop : Upgrades continueLoop :=
  .bind (upgrades_requireLoop _) fun _ => upgrades_emit _

@[grind ←]
theorem upgrades_discard : Upgrades discard :=
  .readStage_bind (fun _ => rfl) fun _ => .when (.throw _) (upgrades_emit _)

theorem upgrades_extendLast (failure : InternalFault) (f : Stmt NodeId → Option (Stmt NodeId)) :
    Upgrades (extendLast failure f) := by
  refine .bind upgrades_frame fun scope => ?_
  split
  · exact upgrades_setFrame _
  · exact .throw _

theorem upgrades_requireBounds (first last : Expr) : Upgrades (requireBounds first last) := by
  exact .read_bind (fun _ _ => rfl) fun b => .ite (.throw _) (.pure _)

/-! ## Functions -/

section Overloads

variable {b : Builder} {t : TypeId}

/-- WebGL and WebGL2 accept the same operands for types without unsigned integers. -/
theorem accepts_upgrade (hb : b.IsWebGL) (t : TypeId) (v : Value) :
    b.upgrade.accepts t v = b.accepts t v := by
  cases v with
  | expr e => rfl
  | host v =>
      rw [Builder.accepts, Builder.accepts, Builder.upgrade_types]
      cases hp : b.types.primitive? t with
      | none => rfl
      | some p =>
          have hscalar : Target.webGL2.supportsScalar p.scalar =
              Target.webGL.supportsScalar p.scalar := by
            cases hk : p.scalar <;> first | rfl | exact absurd hk (hb.signed.scalar_ne hp)
          rw [hb.target, Builder.upgrade_target]
          dsimp only
          rw [hscalar]

/-- Arguments are accepted alike. -/
theorem acceptsAll_upgrade (hb : b.IsWebGL) (types : List TypeId) (args : List Value) :
    acceptsAll b.upgrade types args = acceptsAll b types args := by
  induction types generalizing args with
  | nil => cases args <;> rfl
  | cons t types ih =>
      cases args with
      | nil => rfl
      | cons v args => rw [acceptsAll, acceptsAll, accepts_upgrade hb, ih]

end Overloads

theorem upgrades_checkFunctionName (name : String) : Upgrades (checkFunctionName name) := by
  refine .bind (.liftM _) fun _ => .bind (upgrades_requireGlobal _) fun _ => ?_
  exact .when (.throw _) (.ite (.throw _) (.pure _))

theorem upgrades_paramTypes (name : String) (params : List (String × TypeShape)) :
    Upgrades (paramTypes name params) := by
  induction params with
  | nil => exact .pure []
  | cons param rest ih =>
      refine .bind (upgrades_type _) fun t => .read_bind (fun _ _ => rfl) fun b => ?_
      exact .when (.throw _) (.bind ih fun _ => .pure _)

theorem upgrades_declareParams (params : List (String × TypeId)) :
    Upgrades (declareParams params) := by
  induction params with
  | nil => exact .pure []
  | cons param rest ih => exact .bind (upgrades_newVar _ _ _ _) fun _ => .bind ih fun _ => .pure _

theorem upgrades_function (f : FunctionId) : Upgrades (function f) := by
  refine .readStage_bind (fun _ => rfl) fun s => ?_
  split
  · exact .pure _
  · exact .throw _

theorem upgrades_requireNewParams (name : String) (types : List TypeId) (fs : List FunctionId) :
    Upgrades (requireNewParams name types fs) := by
  induction fs with
  | nil => exact .pure ()
  | cons f rest ih => exact .bind (upgrades_function _) fun fn => .when (.throw _) ih

theorem upgrades_resultType (name : String) (scope : Frame) : Upgrades (resultType name scope) := by
  have hcheck : ∀ t, Upgrades (do
      if !(← get).types.isVoid t && !Stmt.blockReturns scope.body then
        throw (ShaderError.declaration (.missingReturn name))
      return t) :=
    fun t => .read_bind (fun _ _ => rfl) fun b => .when (.throw _) (.pure _)
  unfold resultType
  dsimp only
  split
  · exact hcheck _
  · exact .bind (upgrades_intern (Interning.Follows.signed Interning.follows_void)) hcheck

theorem upgrades_coerceAll (what : String) (args : List (Value × TypeId)) :
    Upgrades (coerceAll what args) := by
  induction args with
  | nil => exact .pure []
  | cons arg rest ih => exact .bind (upgrades_coerce _ _ _) fun e => .bind ih fun _ => .pure _

theorem upgrades_chooseOverload (args : List Value) (fs : List FunctionId) :
    Upgrades (chooseOverload args fs) := by
  induction fs with
  | nil => exact .pure none
  | cons f rest ih =>
      refine .bind (upgrades_function f) fun fn => ?_
      exact .read_bind (fun b hb => by rw [acceptsAll_upgrade hb]) fun b => .ite (.pure _) ih

@[grind ←]
theorem upgrades_call (name : String) (args : List Value) : Upgrades (call name args) := by
  refine .readStage_bind (fun _ => rfl) fun s => ?_
  dsimp only
  refine .when (.throw _) (.bind (upgrades_chooseOverload _ _) fun chosen => ?_)
  split
  · exact .get_bind fun b _ => .throw _
  · refine .bind (upgrades_coerceAll _ _) fun nodes => .bind (upgrades_pushNode _ _) fun e => ?_
    exact .read_bind (fun _ _ => rfl) fun b => .when (upgrades_emit _) (.pure _)

theorem upgrades_enclosingFunction : Upgrades enclosingFunction := by
  refine .readStage_bind (fun _ => rfl) fun s => ?_
  split
  · exact .pure _
  · exact .throw _

theorem upgrades_setResult (t : TypeId) : Upgrades (setResult t) :=
  upgrades_modifyStage (fun _ => rfl) fun _ => rfl

theorem upgrades_returned (v : Value) (t : Option TypeId) : Upgrades (returned v t) := by
  cases t with
  | none => exact upgrades_lower _ _
  | some t => exact .tryCatch (upgrades_coerce _ _ _) fun e b => ⟨_, rfl⟩

@[grind ←]
theorem upgrades_returnValue (v : Value) : Upgrades (returnValue v) := by
  refine .bind upgrades_enclosingFunction fun x => ?_
  obtain ⟨isMain, expected⟩ := x
  refine .when (.throw _) (.bind (upgrades_returned _ _) fun e => ?_)
  refine .read_bind (fun _ _ => rfl) fun b => .when (.throw _) ?_
  exact .bind (upgrades_setResult _) fun _ => upgrades_emit _

@[grind ←]
theorem upgrades_returnVoid : Upgrades returnVoid := by
  refine .bind (upgrades_intern (Interning.Follows.signed Interning.follows_void)) fun void => ?_
  refine .bind upgrades_enclosingFunction fun x => .when (.throw _) ?_
  exact .bind (upgrades_setResult _) fun _ => upgrades_emit _

/-! ## Constructors -/

theorem upgrades_constructFailure (p : PrimitiveType) (args : List Value) :
    Upgrades (constructFailure p args) :=
  .read_bind (fun _ _ => rfl) fun _ => .pure _

theorem upgrades_refuse (p : PrimitiveType) (args : List Value) {f : PUnit → Build β} :
    Upgrades (constructFailure p args >>= fun e => MonadExcept.throw e >>= f) :=
  .bind (upgrades_constructFailure p args) fun e => .throw_bind e

theorem upgrades_component (p : PrimitiveType) (args : List Value) (v : Value) :
    Upgrades (component p args v) := by
  unfold component
  split
  · exact .pure _
  · exact .ite (upgrades_refuse p args) (upgrades_lower _ _)

theorem upgrades_vectorParts (p : PrimitiveType) (args : List Value) (before : Nat)
    (parts : List Value) : Upgrades (vectorParts p args before parts) := by
  induction parts generalizing before with
  | nil => exact .pure ([], before)
  | cons v rest ih =>
      refine .bind (upgrades_component _ _ _) fun e => .read_bind (fun _ _ => rfl) fun b => ?_
      split
      · exact .ite (upgrades_refuse p args) (.ite (.throw _) (.bind (ih _) fun _ => .pure _))
      · exact .bind (upgrades_constructFailure _ _) fun _ => .throw _

theorem upgrades_vectorArgs (p : PrimitiveType) (args : List Value) :
    Upgrades (vectorArgs p args) := by
  unfold vectorArgs
  split
  · exact .pure _
  · rename_i e
    refine .read_bind (fun _ _ => rfl) fun b => ?_
    exact .ite (upgrades_refuse p _) (.pure _)
  · exact .bind (upgrades_component _ _ _) fun _ => .pure _
  · refine .bind (upgrades_vectorParts _ _ _ _) fun x => ?_
    exact .ite (upgrades_refuse p args) (.pure _)

theorem upgrades_matrixParts (p part : PrimitiveType) (args parts : List Value) :
    Upgrades (matrixParts p part args parts) := by
  induction parts with
  | nil => exact .pure []
  | cons v rest ih =>
      refine .bind (upgrades_component _ _ _) fun e => .read_bind (fun _ _ => rfl) fun b => ?_
      exact .ite (upgrades_refuse p args) (.bind ih fun _ => .pure _)

theorem upgrades_matrixArgs (p : PrimitiveType) (args : List Value) :
    Upgrades (matrixArgs p args) :=
  .ite (upgrades_matrixParts _ _ _ _) <| .ite (upgrades_matrixParts _ _ _ _) <|
    .ite (.pure _) (.bind (upgrades_constructFailure _ _) fun _ => .throw _)

theorem upgrades_memberParts (what : String) (parts : List (Value × TypeId)) :
    Upgrades (memberParts what parts) := by
  induction parts with
  | nil => exact .pure []
  | cons part rest ih =>
      obtain ⟨v, t⟩ := part
      have hrest : Upgrades (do
          let e ← coerce v t what
          return e.node :: (← memberParts what rest)) :=
        .bind (upgrades_coerce _ _ _) fun e => .bind ih fun _ => .pure _
      exact .read_bind (fun b hb => by dsimp only; rw [accepts_upgrade hb]; rfl) fun b =>
        .when (.throw _) hrest

theorem upgrades_memberArgs (t : TypeId) (count : Nat) (types : List TypeId) (args : List Value) :
    Upgrades (memberArgs t count types args) :=
  .read_bind (fun _ _ => rfl) fun _ => .when (.throw _) (upgrades_memberParts _ _)

@[grind ←]
theorem upgrades_construct (shape : TypeShape) (args : List Value) :
    Upgrades (construct shape args) := by
  refine .bind (upgrades_type _) fun t => .read_bind (fun _ _ => rfl) fun b => ?_
  have hpush : ∀ nodes, Upgrades (pushNode t (.construct nodes)) := fun _ => upgrades_pushNode _ _
  dsimp only
  split
  · exact .ite (.bind (upgrades_matrixArgs _ _) hpush) (.bind (upgrades_vectorArgs _ _) hpush)
  · refine .when (.throw _) ?_
    exact .bind (upgrades_require _) fun _ => .bind (upgrades_memberArgs _ _ _ _) hpush
  · exact .bind (upgrades_memberArgs _ _ _ _) hpush
  · exact .throw _

/-! ## Built-in functions -/

theorem upgrades_lowerAll (args : List (Value × PrimitiveType)) : Upgrades (lowerAll args) := by
  induction args with
  | nil => exact .pure []
  | cons arg rest ih => exact .bind (upgrades_lower _ _) fun e => .bind ih fun _ => .pure _

/-- Arguments of built-in functions are accepted alike. -/
theorem acceptsParams_upgrade (b : Builder) (params : List PrimitiveType) (args : List Value) :
    b.upgrade.acceptsParams params args = b.acceptsParams params args := by
  induction params generalizing args with
  | nil => cases args <;> rfl
  | cons p params ih =>
      cases args with
      | nil => rfl
      | cons v args =>
          rw [Builder.acceptsParams, Builder.acceptsParams, ih]
          rfl

/-- The overloads that WebGL2 adds come last. -/
theorem exists_signatures_append (f : Intrinsic) :
    ∃ more, f.signatures .webGL2 = f.signatures .webGL ++ more := by
  cases f <;> first
    | exact ⟨[], (List.append_nil _).symm⟩
    | exact ⟨_, by simp [Intrinsic.signatures, Intrinsic.integers, Intrinsic.overloads]; rfl⟩

/-- No overload of WebGL gives unsigned integers. -/
theorem signed_of_mem_signatures {f : Intrinsic} {s : Intrinsic.Signature}
    (h : s ∈ f.signatures .webGL) : s.result.scalar ≠ .u32 := by
  revert s
  cases f <;> decide

theorem upgrades_overloaded (f : Intrinsic) (args : List Value) : Upgrades (overloaded f args) := by
  refine .get_bind fun b hb => ?_
  simp only [acceptsParams_upgrade, hb.target, Builder.upgrade_target]
  cases hfound : (f.signatures .webGL).find? fun s => b.acceptsParams s.params args with
  | none => exact .throw _
  | some s =>
      obtain ⟨more, hmore⟩ := exists_signatures_append f
      have hsigned := signed_of_mem_signatures (List.mem_of_find?_eq_some hfound)
      rw [hmore, List.find?_append, hfound]
      have hcall : Upgrades (do
          let nodes ← lowerAll (args.zip s.params)
          pushNode (← intern (Interning.primitive s.result)) (.intrinsic f nodes)) :=
        .bind (upgrades_lowerAll _) fun nodes =>
          .bind (upgrades_intern (Interning.keepsSigned_primitive hsigned)) fun t =>
            upgrades_pushNode _ _
      exact hcall b hb

theorem upgrades_textureArgument (f : Intrinsic) (arg : Option Value) :
    Upgrades (textureArgument f arg) := by
  refine .read_bind (fun _ _ => rfl) fun b => ?_
  dsimp only
  split
  · split
    · exact .ite (.pure _) (.throw _)
    · exact .throw _
  · exact .throw _

theorem upgrades_fetchSignature (name : String) (t : TextureType) :
    Upgrades (fetchSignature name t) := by
  refine .bind (upgrades_require _) fun _ => .when (.throw _) ?_
  exact .when (upgrades_require _) (.pure _)

theorem upgrades_textureSignature (f : Intrinsic) (name : String) (t : TextureType) (arity : Nat) :
    Upgrades (textureSignature f name t arity) := by
  refine .get_bind fun b hb => ?_
  simp only [hb.target, Builder.upgrade_target]
  split
  · refine .ite (.throw _) ((isSilent_remark _).when ?_ hb ?_)
    · exact .pure _
    · decide
  · exact upgrades_fetchSignature _ _ b hb
  · exact Upgrades.bind (upgrades_require _) (fun _ => .pure _) b hb
  · refine .ite (.throw _) (.ite (.stage_bind fun s hs => ?_) (.pure hb _))
    refine (isSilent_enable _).when ?_ hb ?_
    · exact .pure _
    · simp

/-- No function of WebGL on textures gives unsigned integers: the ones that do need a feature that
it lacks. -/
theorem signed_of_textureSignature {f : Intrinsic} {name : String} {t : TextureType} {arity : Nat}
    {s : Intrinsic.Signature} {b b' : Builder} (hb : b.target = .webGL)
    (h : b.run (textureSignature f name t arity) = (.ok s, b')) : s.result.scalar ≠ .u32 := by
  rw [textureSignature, Builder.run_bind, Builder.run_get] at h
  dsimp only at h
  have hsigned : ∀ {act}, Returns (fun s => s.result.scalar ≠ .u32) act →
      b.run act = (.ok s, b') → s.result.scalar ≠ .u32 := fun hact => hact b s b'
  split at h
  · refine hsigned (.ite (.throw _) (.ite (.bind fun _ => .pure ?_) (.pure ?_))) h
    all_goals simp [PrimitiveType.ofScalar]
  · rw [fetchSignature, run_require_bind_of_lacks (by rw [hb]; rfl)] at h
    cases (Prod.mk.inj h).1
  · rw [run_require_bind_of_lacks (by rw [hb]; rfl)] at h
    cases (Prod.mk.inj h).1
  · refine hsigned (.ite (.throw _) (.ite (.bind fun _ => .ite (.bind fun _ => .pure ?_)
      (.pure ?_)) (.pure ?_))) h
    all_goals simp [PrimitiveType.vector]

theorem upgrades_textureCall (f : Intrinsic) (args : List Value) :
    Upgrades (textureCall f args) := by
  refine .bind (upgrades_textureArgument _ _) fun x => ?_
  obtain ⟨texture, name, t⟩ := x
  refine fun b hb => .bind (upgrades_textureSignature _ _ _ _ b hb) fun signature b' hrun hb' => ?_
  have hsigned := signed_of_textureSignature hb.target hrun
  refine Upgrades.read_bind (fun b _ => by dsimp only; rw [acceptsParams_upgrade]; rfl)
    (fun b => ?_)
    b' hb'
  refine .when (.throw _) (.bind (upgrades_lowerAll _) fun nodes => ?_)
  exact .bind (upgrades_intern (Interning.keepsSigned_primitive hsigned)) fun t =>
    upgrades_pushNode _ _

theorem upgrades_checkDerivative (f : Intrinsic) : Upgrades (checkDerivative f) := by
  refine .readStage_bind (fun _ => rfl) fun s => .when (.throw _) ?_
  refine .get_bind fun b hb => ?_
  rw [hb.target, if_pos rfl]
  exact isSilent_enable _ b hb

@[grind ←]
theorem upgrades_intrinsic (f : Intrinsic) (args : List Value) : Upgrades (intrinsic f args) := by
  have hcall : Upgrades (do
      if f.isDerivative then checkDerivative f
      if f.isTexture then textureCall f args else overloaded f args) :=
    .when (upgrades_checkDerivative _) (.ite (upgrades_textureCall _ _) (upgrades_overloaded _ _))
  refine .readStage_bind (fun _ => rfl) fun s => ?_
  dsimp only
  split
  · exact .bind (upgrades_require _) fun _ => hcall
  · exact hcall

/-! ## Interfaces -/

theorem upgrades_interfaceType (what name : String) (shape : TypeShape) :
    Upgrades (interfaceType what name shape) := by
  refine .bind (upgrades_type _) fun t => .read_bind (fun _ _ => rfl) fun b => ?_
  dsimp only
  split
  · exact .ite (.throw _) (.pure _)
  · exact .throw _

theorem upgrades_declareIn (list : DeclList) (name : String) (t : TypeId) (role : Role)
    (init : Option NodeId) : Upgrades (declareIn list name t role init) := by
  refine .bind (upgrades_newVar _ _ _ _) fun x => .bind ?_ fun _ => .pure _
  cases list <;> exact upgrades_modifyStage (fun _ => rfl) fun _ => rfl

@[grind ←]
theorem upgrades_vertexInput (name : String) (shape : TypeShape) (semantic : Semantic) :
    Upgrades (vertexInput name shape semantic) := by
  refine .readStage_bind (fun _ => rfl) fun s => .when (.throw _) ?_
  refine .bind (upgrades_requireGlobal _) fun _ => .bind (upgrades_interfaceType _ _ _) fun x => ?_
  refine .when (upgrades_require _) ?_
  refine .read_bind (fun _ _ => rfl) fun b => .readStage_bind (fun _ => rfl) fun s => ?_
  exact .when (.throw _) (upgrades_declareIn .inputs _ _ _ _)

/-- The check of an output leaves no trace. -/
theorem isSilent_checkColor (name : String) (p : PrimitiveType) (location : Nat) :
    IsSilent (checkColor name p location) := by
  intro b hb
  unfold checkColor
  dsimp only
  split
  · exact .throw _
  · split
    · exact isSilent_enable _ b hb
    · exact .pure hb _

@[grind ←]
theorem upgrades_output (name : String) (shape : TypeShape) : Upgrades (output name shape) := by
  refine .readStage_bind (fun _ => rfl) fun s => .when (.throw _) ?_
  refine .bind (upgrades_requireGlobal _) fun _ => .bind (upgrades_interfaceType _ _ _) fun x => ?_
  refine .when (upgrades_require _) ?_
  refine .readStage_bind (fun _ => rfl) fun s => .get_bind fun b hb => ?_
  exact (isSilent_checkColor _ _ _).when (upgrades_declareIn .outputs _ _ _ _) hb (by simp)

theorem upgrades_inputsFrom (vs : List VarId) : Upgrades (inputsFrom vs) := by
  induction vs with
  | nil => exact .pure ()
  | cons out rest ih =>
      refine .read_bind (fun _ _ => rfl) fun b => ?_
      split
      · refine .bind (upgrades_newVar _ _ _ _) fun x => .bind ?_ fun _ => ih
        exact upgrades_modifyStage (fun _ => rfl) fun _ => rfl
      · exact .throw _

/-- No built-in variable that draws on WebGL holds unsigned integers. -/
theorem signed_of_stage {b : Builtin} (h : b.stage ≠ .compute) : (b.type .webGL).scalar ≠ .u32 := by
  cases b <;> first | decide | exact absurd rfl h

theorem upgrades_newBuiltin {b : Builtin} (h : b.stage ≠ .compute) : Upgrades (do
    let target := (← get).target
    let e ← pushNode (← intern (Interning.primitive (b.type target))) (.builtin b)
    if b = .fragDepth && target = .webGL then enable .fragDepth
    modifyDecls fun d => { d with builtins := d.builtins ++ [(b, e)] }
    return e) := by
  refine .get_bind fun b' hb' => ?_
  have htype : b.type .webGL2 = b.type .webGL := by cases b <;> rfl
  have hsigned := Interning.keepsSigned_primitive (signed_of_stage h)
  dsimp only [Builder.upgrade_target]
  rw [htype, hb'.target]
  refine UpgradesFrom.bind (.intern hb' hsigned) fun t b' _ hb' => ?_
  refine .bind (upgrades_pushNode _ _ b' hb') fun e b' _ hb' => ?_
  refine (isSilent_enable _).when (.bind ?_ fun _ => .pure _) hb' (by simp)
  exact upgrades_modifyStage (fun _ => rfl) fun _ => rfl

@[grind ←]
theorem upgrades_builtin (b : Builtin) : Upgrades (builtin b) := by
  refine .stage_bind fun b' s hb' hs => ?_
  have hused : usedBuiltin? s.upgrade.decls b = usedBuiltin? s.decls b := rfl
  dsimp only
  rw [hused, show s.upgrade.decls.stage = s.decls.stage from rfl]
  by_cases hstage : b.stage = s.decls.stage
  · have hdraws : b.stage ≠ .compute := by
      rw [hstage]
      simpa [Builder.currentStage, hs] using hb'.draws
    rw [if_neg (by simp [hstage])]
    split
    · exact .pure hb' _
    · split
      · exact Upgrades.bind (upgrades_require _) (fun _ => upgrades_newBuiltin hdraws) b' hb'
      · exact upgrades_newBuiltin hdraws b' hb'
  · rw [if_pos hstage]
    exact Upgrades.throw_bind _ b' hb'

@[grind ←]
theorem upgrades_assignBuiltin (b : Builtin) (value : Value) : Upgrades (assignBuiltin b value) :=
  .bind (upgrades_builtin _) fun _ => upgrades_assign _ _

/-! ## Resources and constants -/

theorem upgrades_resource (name : String) (t : TypeId) (role : Role) :
    Upgrades (resource name t role) := upgrades_declareIn .resources _ _ _ _

@[grind ←]
theorem upgrades_uniformTexture (name : String) (texture : TextureType) (group : UInt32) :
    Upgrades (uniformTexture name texture group) := by
  refine .bind (upgrades_requireGlobal _) fun _ => .bind (upgrades_type _) fun t => ?_
  refine .get_bind fun b hb => ?_
  exact (isSilent_remark _).when (upgrades_resource _ _ _) hb (by simp)

@[grind ←]
theorem upgrades_uniformSampler (name : String) (kind : SamplerKind) (group : UInt32) :
    Upgrades (uniformSampler name kind group) := by
  refine .bind (upgrades_require _) fun _ => .bind (upgrades_requireGlobal _) fun _ => ?_
  exact .bind (upgrades_type _) fun t => upgrades_resource _ _ _

theorem upgrades_uniformValue (name : String) (shape : TypeShape) (group : UInt32) :
    Upgrades (uniformValue name shape group) := by
  refine .bind (upgrades_requireGlobal _) fun _ => .bind (upgrades_type _) fun t => ?_
  refine .bind (upgrades_intern (Interning.Follows.signed (Interning.follows_std140 t))) fun t => ?_
  exact .bind (upgrades_requireSized _ _ _) fun _ => upgrades_resource _ _ _

@[grind ←]
theorem upgrades_uniform (name : String) (shape : TypeShape) (group : UInt32) :
    Upgrades (uniform name shape group) := by
  unfold uniform
  split
  · exact upgrades_uniformTexture _ _ _
  · exact upgrades_uniformSampler _ _ _
  · exact upgrades_uniformValue _ _ _

@[grind ←]
theorem upgrades_storage (name : String) (shape : TypeShape) (group : UInt32) (readOnly : Bool) :
    Upgrades (storage name shape group readOnly) := by
  refine .bind (upgrades_require _) fun _ => .bind (upgrades_requireGlobal _) fun _ => ?_
  refine .bind (upgrades_type _) fun t => .read_bind (fun _ _ => rfl) fun b => ?_
  exact .when (.throw _) (upgrades_resource _ _ _)

@[grind ←]
theorem upgrades_workgroup (name : String) (shape : TypeShape) :
    Upgrades (workgroup name shape) := by
  refine .bind (upgrades_require _) fun _ => .readStage_bind (fun _ => rfl) fun s => ?_
  refine .when (.throw _) (.bind (upgrades_requireGlobal _) fun _ => ?_)
  exact .bind (upgrades_type _) fun t => .bind (upgrades_requireSized _ _ _) fun _ =>
    upgrades_resource _ _ _

@[grind ←]
theorem upgrades_constant (name : String) (value : Value) : Upgrades (constant name value) := by
  refine .bind (upgrades_requireGlobal _) fun _ => .bind (upgrades_lower _ _) fun e => ?_
  refine .read_bind (fun b _ => by rw [Builder.upgrade_isConstant]) fun b => ?_
  exact .when (.throw _) (upgrades_declareIn .constants _ _ _ _)

@[grind ←]
theorem upgrades_setWorkgroupSize (x y z : UInt32) : Upgrades (setWorkgroupSize x y z) := by
  refine .readStage_bind (fun _ => rfl) fun s => .when (.throw _) (.when (.throw _) ?_)
  exact upgrades_modifyStage (fun _ => rfl) fun _ => rfl

@[grind ←]
theorem upgrades_tag (e : Expr) (path : String) : Upgrades (tag e path) := by
  unfold tag
  exact .when (.throw _) (upgrades_modifyStage (fun _ => rfl) fun _ => rfl)

/-! ## Scopes -/

theorem upgrades_pushScope (kind : ScopeKind) : Upgrades (pushScope kind) :=
  upgrades_modifyStage (fun _ => rfl) fun _ => rfl

theorem upgrades_popScope : Upgrades popScope := by
  refine .readStage_bind (fun _ => rfl) fun s => ?_
  split
  · exact .bind (upgrades_modifyStage (fun _ => rfl) fun _ => rfl) fun _ => .pure _
  · exact .throw _

theorem upgrades_addFunction (f : Function) : Upgrades (addFunction f) :=
  .readStage_bind (fun _ => rfl) fun _ =>
    .bind (upgrades_modifyStage (fun _ => rfl) fun _ => rfl) fun _ => .pure _

theorem upgrades_setMain (block : Block) :
    Upgrades (modifyStage fun s => { s with main := some block }) :=
  upgrades_modifyStage (fun _ => rfl) fun _ => rfl

/-! ## Programs -/

theorem upgrades_start : Upgrades start := by
  refine .read_bind (fun _ _ => rfl) fun b => ?_
  split
  · exact .throw _
  · exact .throw _
  · exact upgrades_modify (fun _ => rfl) fun _ hb => { hb with }

theorem upgrades_finish : Upgrades finish :=
  upgrades_modify (fun _ => rfl) fun _ hb => { hb with draws := by simp [Builder.currentStage] }

theorem upgrades_setLastError (report : Option String) : Upgrades (setLastError report) :=
  upgrades_modify (fun _ => rfl) fun _ hb => { hb with }

theorem upgrades_openStage {which : Stage} (hwhich : which ≠ .compute) (earlier : List VarId) :
    Upgrades (openStage which earlier) := by
  refine .bind (upgrades_modify (fun _ => rfl) fun b hb => ?_) fun _ => upgrades_inputsFrom earlier
  exact { hb with draws := by simpa [Builder.currentStage] using hwhich }

/-- A stage that can be closed on WebGL can be closed on WebGL2. -/
theorem run_closeStage_upgrade {which : Stage} {b b' : Builder} {v : BuiltStage} (hb : b.IsWebGL)
    (h : b.run (closeStage which) = (.ok v, b')) :
    b.upgrade.run (closeStage which) = (.ok v.upgrade, b'.upgrade) ∧ b'.IsWebGL := by
  unfold closeStage at h ⊢
  rw [Builder.run_bind, Builder.run_get] at h ⊢
  dsimp only [Builder.upgrade_stage] at h ⊢
  cases hs : b.stage with
  | none =>
      rw [hs] at h
      cases (Prod.mk.inj h).1
  | some s =>
      rw [hs] at h
      dsimp only [Option.map_some] at h ⊢
      rw [Builder.run_bind, Builder.run_modify] at h ⊢
      dsimp only at h ⊢
      split at h
      · cases (Prod.mk.inj h).1
      · rename_i hframes
        rw [if_neg (show ¬ s.upgrade.frames.length ≠ 1 from hframes)]
        cases hmain : s.main with
        | none =>
            rw [hmain] at h
            cases (Prod.mk.inj h).1
        | some main =>
            rw [hmain] at h
            rw [show s.upgrade.main = some main from hmain]
            obtain ⟨hv, rfl⟩ := Prod.mk.inj h
            rw [← Except.ok.inj hv]
            exact ⟨rfl, { hb with draws := by simp [Builder.currentStage] }⟩

end Build

end WebShader
