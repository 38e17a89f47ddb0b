import WebShader.Proofs.NameScopes
import WebShader.Proofs.Reachable
import WebShader.Proofs.TypedOperations
import WebShader.Resolved
import WebShader.Resource

/-!
# Traversals that check nothing

A type is traversed into its parts and an expression into its operands, each time after a check that
they come earlier. These are the same traversals without the checks. One of them gives nothing if it
asks for a type, an expression or a variable that does not exist, and if it is still going down at
the given depth. Where parts and operands come earlier and exist, any depth beyond the index of a
type or an expression is enough, and they give what the checked ones give.
-/

namespace WebShader

/-- A computation that may be refused, that may ask for what does not exist, and that may go down
too far. -/
abbrev Unchecked (α : Type) := ExceptT ShaderError Option α

/-- An unchecked computation that may add types to the registry. -/
abbrev UncheckedInterning (α : Type) := ExceptT ShaderError (StateT Registry Option) α

/-- Registering types adds to the registry, refused or not. -/
instance : MonadLift (ExceptT ShaderError (StateM Registry))
    (ExceptT ShaderError (StateT Registry Option)) where
  monadLift act := fun r => some (r.run act)

/-- Run an unchecked registration on a registry. -/
def Registry.runUnchecked {α : Type} (r : Registry) (act : UncheckedInterning α) :
    Option (Except ShaderError α × Registry) :=
  StateT.run (ExceptT.run act) r

namespace Unchecked

/-! ## Types -/

/-- The entry of a type, which must exist. -/
def entry (r : Registry) (t : TypeId) : Option TypeEntry := r.entries[t.index]?

/-- The name of a type in messages. -/
def display (r : Registry) : Nat → TypeId → Option String
  | 0, _ => none
  | depth + 1, t => do
    let e ← entry r t
    match e.kind with
    | .void => return "void"
    | .primitive p => return p.text
    | .array element n =>
      let inner ← display r depth element
      return if n = 0 then "array<" ++ inner ++ ">"
        else "array<" ++ inner ++ ", " ++ toString n ++ ">"
    | .struct s => return s.name
    | .pointer pointee space =>
      return "ptr<" ++ space.name ++ ", " ++ (← display r depth pointee) ++ ">"
    | .texture _ | .sampler _ => return e.key

/-- Whether a type is a runtime-sized array or a struct that ends with one. -/
def isRuntimeSized (r : Registry) : Nat → TypeId → Option Bool
  | 0, _ => none
  | depth + 1, t => do
    match (← entry r t).kind with
    | .array _ n => return n == 0
    | .struct s =>
      match s.members.getLast? with
      | some m => isRuntimeSized r depth m.type
      | none => return false
    | _ => return false

/-- The extent of a type under the given rules. -/
def extent (r : Registry) (policy : LayoutPolicy) : Nat → TypeId → Unchecked Extent
  | 0, _ => (none : Option Extent)
  | depth + 1, t => do
    match (← (entry r t : Unchecked TypeEntry)).kind with
    | .primitive p => return p.extent policy
    | .array element n =>
      let inner ← extent r policy depth element
      match Registry.elementExtent policy inner with
      | some stride =>
        match Layout.checked (stride.size * n) with
        | some size => return ⟨size, stride.alignment⟩
        | none =>
          throw (Registry.tooLarge (quoted (← (display r (depth + 1) t : Unchecked String))))
      | none => throw (Registry.tooLarge (quoted (← (display r (depth + 1) t : Unchecked String))))
    | .struct s => return ⟨s.layout.size, s.layout.alignment⟩
    | _ => return ⟨0, 1⟩

/-- The structs found so far and those of a type, each after the structs of its members. -/
def addStructs (r : Registry) : Nat → List TypeId → TypeId → Option (List TypeId)
  | 0, _, _ => none
  | depth + 1, found, t => do
    match (← entry r t).kind with
    | .struct s =>
      if found.contains t then return found
      else return (← (s.members.map (·.type)).foldlM (addStructs r depth) found) ++ [t]
    | .array element _ => addStructs r depth found element
    | .pointer pointee _ => addStructs r depth found pointee
    | _ => return found

/-- The type that holds the same values with every struct under `std140` rules. -/
def std140 : Nat → TypeId → UncheckedInterning TypeId
  | 0, _ => (none : Option TypeId)
  | depth + 1, t => do
    let e ← (entry (← get) t : UncheckedInterning TypeEntry)
    match e.kind with
    | .array element n =>
      let element ← std140 depth element
      Interning.array element n
    | .struct s =>
      if s.policy = .packed then
        let name := s.name ++ "_std140"
        (checkIdentifier name : Interning Unit)
        let members ← s.members.mapM fun m => return { m with type := ← std140 depth m.type }
        Interning.structOf (some name) .std140 members
      else return t
    | _ => return t

/-! ## Expressions -/

/-- An expression and all that it is made of, each before its operands. -/
def visit (b : Builder) : Nat → NodeId → Option (List NodeId)
  | 0, _ => none
  | depth + 1, n => do
    let node ← b.node? n
    return n :: (← node.kind.operands.mapM (visit b depth)).flatten

/-- The variable that members, swizzles and elements are taken from. -/
def root (b : Builder) : Nat → NodeId → Option (Option VarId)
  | 0, _ => none
  | depth + 1, n => do
    match (← b.node? n).kind with
    | .var v => return some v
    | .member base _ | .swizzle base _ | .index base _ => root b depth base
    | _ => return none

/-- Refuse an expression that cannot be assigned to. The type of what has an element assigned to is
looked at. -/
def checkPlace (b : Builder) : Nat → NodeId → Unchecked Unit
  | 0, _ => (none : Option Unit)
  | depth + 1, n => do
    match (← (b.node? n : Unchecked Node)).kind with
    | .var v => Builder.checkVarPlace (← (b.var? v : Unchecked Variable))
    | .builtin builtin => if builtin.isOutput then return else throw (.type .notPlace)
    | .member base _ => checkPlace b depth base
    | .index base _ =>
      checkPlace b depth base
      let node ← (b.node? base : Unchecked Node)
      let _ ← (entry b.types node.type : Unchecked TypeEntry)
      return
    | .swizzle base s =>
      Builder.checkSwizzlePlace b.target s
      checkPlace b depth base
    | .deref _ => return
    | _ => throw (.type .notPlace)

/-- Whether an expression only involves literals, constructors, operators and constants. -/
def isConstant (b : Builder) : Nat → NodeId → Option Bool
  | 0, _ => none
  | depth + 1, n => do
    let node ← b.node? n
    match node.kind with
    | .literal _ => return true
    | .var v => return (← b.var? v).role == .constant
    | .member _ _ | .swizzle _ _ | .index _ _ | .unary _ _ | .binary _ _ _ | .construct _ =>
      node.kind.operands.allM (isConstant b depth)
    | _ => return false

/-- The tree of an expression, whose variables must exist. -/
def term (b : Builder) : Nat → NodeId → Option Term
  | 0, _ => none
  | depth + 1, n => do
    let ⟨t, kind⟩ ← b.node? n
    match kind with
    | .literal value => return .literal t value
    | .var v =>
      let _ ← b.var? v
      return .var t v
    | .builtin builtin => return .builtin t builtin
    | .member base i => return .member t (← term b depth base) i
    | .swizzle base mask => return .swizzle t (← term b depth base) mask
    | .index base i => return .index t (← term b depth base) (← term b depth i)
    | .unary op e => return .unary t op (← term b depth e)
    | .binary op lhs rhs => return .binary t op (← term b depth lhs) (← term b depth rhs)
    | .construct args => return .construct t (← args.mapM (term b depth))
    | .call f args => return .call t f (← args.mapM (term b depth))
    | .intrinsic f args => return .intrinsic t f (← args.mapM (term b depth))
    | .addressOf place => return .addressOf t (← term b depth place)
    | .deref pointer => return .deref t (← term b depth pointer)

/-! ## Types of well-formed registries -/

section Types

variable {r : Registry} {depth : Nat}

/-- A registered type has an entry. -/
theorem entry_of_lt_size {t : TypeId} (ht : t.index < r.size) :
    ∃ e, entry r t = some e ∧ e.kind = r.kind t ∧ e.key = r.key t := by
  have hentry : r.entries[t.index]? = some r.entries[t.index] := Array.getElem?_eq_getElem ht
  refine ⟨r.entries[t.index], hentry, ?_, ?_⟩
  · rw [Registry.kind, hentry]
  · rw [Registry.key, hentry]

/-- The name of a type is found, and is the one found with checks. -/
theorem display_eq (hr : r.WellFormed) {t : TypeId} (ht : t.index < r.size)
    (hdepth : t.index < depth) : display r depth t = some (r.display t) := by
  induction depth generalizing t with
  | zero => omega
  | succ depth ih =>
      obtain ⟨e, he, hkind, hkey⟩ := entry_of_lt_size ht
      have hparts : ∀ part ∈ (r.kind t).parts, part.index < t.index ∧
          display r depth part = some (r.display part) := by
        intro part hpart
        have hdown := hr t part hpart
        exact ⟨hdown, ih (hr.part_lt_size hpart) (by omega)⟩
      rw [display, Registry.display, he, Option.bind_eq_bind, Option.bind_some, hkind]
      cases hk : r.kind t with
      | array element n =>
          obtain ⟨hdown, hinner⟩ := hparts element (by rw [hk]; exact List.mem_cons_self)
          simp only [hinner, if_pos hdown, Option.bind_eq_bind, Option.bind_some]
          rfl
      | pointer pointee space =>
          obtain ⟨hdown, hinner⟩ := hparts pointee (by rw [hk]; exact List.mem_cons_self)
          simp only [hinner, if_pos hdown, Option.bind_eq_bind, Option.bind_some]
          rfl
      | texture | sampler => exact congrArg some hkey
      | void | primitive | struct => rfl

/-- With enough depth, the traversal finds out whether a type has a size. -/
theorem isRuntimeSized_eq (hr : r.WellFormed) {t : TypeId} (ht : t.index < r.size)
    (hdepth : t.index < depth) : isRuntimeSized r depth t = some (r.isRuntimeSized t) := by
  induction depth generalizing t with
  | zero => omega
  | succ depth ih =>
      obtain ⟨e, he, hkind, -⟩ := entry_of_lt_size ht
      rw [isRuntimeSized, Registry.isRuntimeSized, he, Option.bind_eq_bind, Option.bind_some, hkind]
      cases hk : r.kind t with
      | struct s =>
          dsimp only
          cases hlast : s.members.getLast? with
          | none => rfl
          | some m =>
              have hm : m.type ∈ (r.kind t).parts := by
                rw [hk]
                exact List.mem_map_of_mem (List.mem_of_getLast? hlast)
              have hdown := hr t m.type hm
              dsimp only
              rw [if_pos hdown]
              exact ih (hr.part_lt_size hm) (by omega)
      | void | primitive | array | pointer | texture | sampler => rfl

/-- What exists is asked for, and the computation goes on. -/
theorem some_bind {α β : Type} (a : α) (f : α → Unchecked β) :
    (liftM (some a) : Unchecked α) >>= f = f a := rfl

/-- With enough depth, the traversal finds the extent of a type. -/
theorem extent_eq (hr : r.WellFormed) (policy : LayoutPolicy) {t : TypeId} (ht : t.index < r.size)
    (hdepth : t.index < depth) :
    (extent r policy depth t).run = some (r.extent t policy) := by
  induction depth generalizing t with
  | zero => omega
  | succ depth ih =>
      obtain ⟨e, he, hkind, -⟩ := entry_of_lt_size ht
      rw [extent, Registry.extent, he, some_bind, display_eq hr ht hdepth, hkind]
      cases hk : r.kind t with
      | array element n =>
          have hpart : element ∈ (r.kind t).parts := by rw [hk]; exact List.mem_cons_self
          have hdown := hr t element hpart
          have hinner := ih (hr.part_lt_size hpart) (by omega)
          dsimp only
          rw [if_pos hdown, ExceptT.run_bind, hinner]
          cases r.extent element policy with
          | error e => rfl
          | ok inner =>
              dsimp only [Option.bind_eq_bind, Option.bind_some]
              cases Registry.elementExtent policy inner with
              | none => rfl
              | some stride =>
                  dsimp only
                  cases Layout.checked (stride.size * n) <;> rfl
      | void | primitive | struct | pointer | texture | sampler => rfl

/-- Structs are collected from parts that are all collected from alike. -/
theorem foldlM_eq {f : List TypeId → TypeId → List TypeId}
    {g : List TypeId → TypeId → Option (List TypeId)} {ts : List TypeId} {found : List TypeId}
    (h : ∀ t ∈ ts, ∀ found, g found t = some (f found t)) :
    ts.foldlM g found = some (ts.foldl f found) := by
  induction ts generalizing found with
  | nil => rfl
  | cons t rest ih =>
      rw [List.foldlM_cons, h t List.mem_cons_self, Option.bind_eq_bind, Option.bind_some]
      exact ih fun t' ht' => h t' (List.mem_cons_of_mem _ ht')

/-- With enough depth, the traversal collects the structs of a type. -/
theorem addStructs_eq (hr : r.WellFormed) {t : TypeId} (ht : t.index < r.size)
    (found : List TypeId) (hdepth : t.index < depth) :
    addStructs r depth found t = some (r.addStructs found t) := by
  induction depth generalizing t found with
  | zero => omega
  | succ depth ih =>
      obtain ⟨e, he, hkind, -⟩ := entry_of_lt_size ht
      have hparts : ∀ part ∈ (r.kind t).parts, ∀ found, addStructs r depth found part =
          some (if part.index < t.index then r.addStructs found part else found) := by
        intro part hpart found
        have hdown := hr t part hpart
        rw [if_pos hdown]
        exact ih (hr.part_lt_size hpart) found (by omega)
      rw [addStructs, Registry.addStructs, he, Option.bind_eq_bind, Option.bind_some, hkind]
      cases hk : r.kind t with
      | struct s =>
          dsimp only
          split
          · rfl
          · rw [foldlM_eq fun part hpart => hparts part (by rw [hk]; exact hpart)]
            rfl
      | array element n => exact hparts element (by rw [hk]; exact List.mem_cons_self) found
      | pointer pointee space => exact hparts pointee (by rw [hk]; exact List.mem_cons_self) found
      | void | primitive | texture | sampler => rfl

end Types

/-! ## Copies of types under `std140` rules -/

section Copies

variable {α β : Type} {r : Registry}

/-- On a registry, an unchecked registration does what a registration does. -/
def Matches (act : UncheckedInterning α) (act' : Interning α) (r : Registry) : Prop :=
  r.runUnchecked act = some (r.run act')

/-- Nothing is registered. -/
theorem matches_pure (a : α) (r : Registry) :
    Matches (pure a) (pure a) r := rfl

/-- A registration without a traversal is the same. -/
theorem matches_lift (act : Interning α) (r : Registry) : Matches (liftM act) act r := rfl

/-- What an unchecked registration gives is handed on. -/
theorem runUnchecked_bind (act : UncheckedInterning α) (f : α → UncheckedInterning β) :
    r.runUnchecked (act >>= f) = (r.runUnchecked act).bind fun x => match x.1 with
      | .ok a => x.2.runUnchecked (f a)
      | .error e => some (.error e, x.2) := by
  show StateT.run (ExceptT.run (ExceptT.bind act f)) r = _
  simp only [Registry.runUnchecked, ExceptT.bind, ExceptT.run, ExceptT.mk, StateT.run]
  show (act r).bind _ = _
  congr 1
  funext x
  rcases x with ⟨_ | _, _⟩ <;> rfl

/-- One after the other. -/
theorem Matches.bind {act : UncheckedInterning α} {act' : Interning α}
    {f : α → UncheckedInterning β} {f' : α → Interning β} (h : Matches act act' r)
    (hf : ∀ a r', r.run act' = (.ok a, r') → Matches (f a) (f' a) r') :
    Matches (act >>= f) (act' >>= f') r := by
  unfold Matches at h ⊢
  rw [runUnchecked_bind, h, Registry.run_bind, Option.bind_some]
  rcases hrun : r.run act' with ⟨e | a, r'⟩
  · rfl
  · exact hf a r' hrun

/-- Lists are traversed alike, if each element is wherever the elements before it lead. -/
theorem matches_mapM {f : α → UncheckedInterning β} {f' : α → Interning β} {as : List α}
    {C : Registry → Prop} (hr : C r) (h : ∀ a ∈ as, ∀ r', C r' → Matches (f a) (f' a) r')
    (hC : ∀ a ∈ as, ∀ r', C r' → C (r'.run (f' a)).2) : Matches (as.mapM f) (as.mapM f') r := by
  induction as generalizing r with
  | nil => exact matches_pure [] r
  | cons a rest ih =>
      rw [List.mapM_cons, List.mapM_cons]
      refine (h a List.mem_cons_self r hr).bind fun b r₁ hrun => ?_
      have hr₁ := hC a List.mem_cons_self r hr
      rw [hrun] at hr₁
      refine Matches.bind ?_ fun bs r₂ _ => matches_pure _ r₂
      exact ih hr₁ (fun a' ha' => h a' (List.mem_cons_of_mem _ ha'))
        fun a' ha' => hC a' (List.mem_cons_of_mem _ ha')

/-- What a type is made of is looked up. -/
theorem matches_entry_bind {t : TypeId} (ht : t.index < r.size)
    {f : TypeEntry → UncheckedInterning β} {f' : Registry → Interning β}
    (h : ∀ e, e.kind = r.kind t → Matches (f e) (f' r) r) :
    Matches (do let e ← (entry (← get) t : UncheckedInterning TypeEntry); f e) (get >>= f') r := by
  obtain ⟨e, he, hkind, -⟩ := entry_of_lt_size ht
  have hrun : r.runUnchecked (do let e ← (entry (← get) t : UncheckedInterning TypeEntry); f e) =
      r.runUnchecked (do let e ← (liftM (some e) : UncheckedInterning TypeEntry); f e) := by
    rw [← he]
    rfl
  unfold Matches
  rw [hrun]
  exact h e hkind

/-- With enough depth, the copy of a type under the rules of uniforms is the same. -/
theorem std140_matches {r : Registry} (hr : r.Sound) {t : TypeId} (ht : t.index < r.size)
    {depth : Nat} (hdepth : t.index < depth) :
    Matches (std140 depth t) (Interning.std140 t) r := by
  induction depth generalizing t r with
  | zero => omega
  | succ depth ih =>
      rw [std140, Interning.std140]
      refine matches_entry_bind ht fun e hkind => ?_
      rw [hkind]
      cases hk : r.kind t with
      | array element n =>
          have hpart : element ∈ (r.kind t).parts := by rw [hk]; exact List.mem_cons_self
          have hlt := hr.wellFormed t element hpart
          dsimp only
          rw [if_pos hlt]
          exact (ih hr (hr.part_lt_size hpart) (by omega)).bind fun _ r₁ _ => matches_lift _ r₁
      | struct s =>
          dsimp only
          split
          · refine Matches.bind (matches_lift _ r) fun _ r₁ hname => ?_
            obtain rfl : r = r₁ := by
              rw [Registry.run_liftM] at hname
              exact (Prod.mk.inj hname).2
            -- a member is copied after those before it, which may have registered types
            refine Matches.bind
              (matches_mapM (C := fun r₁ => r₁.Sound ∧ r ≤ r₁) ⟨hr, le_refl r⟩ ?_ ?_)
              fun _ r₂ _ => matches_lift _ r₂
            all_goals
              rintro m hm r₁ ⟨hr₁, hle⟩
              have hpart : m.type ∈ (r.kind t).parts := by
                rw [hk]
                exact List.mem_map_of_mem hm
              have hlt := hr.wellFormed t m.type hpart
              have hreg := Nat.lt_of_lt_of_le (hr.part_lt_size hpart) (Registry.size_le_of_le hle)
              rw [if_pos hlt]
            · exact (ih hr₁ hreg (by omega)).bind fun _ r₂ _ => matches_pure _ r₂
            · have hcopy : Interning.Ensures
                  (do return { m with type := ← Interning.std140 m.type }) r₁ fun _ _ => True :=
                (Interning.ensures_std140 hr₁ hreg).bind fun _ _ hr₂ _ _ => .pure hr₂ trivial
              exact ⟨hcopy.1, le_trans hle hcopy.2.1⟩
          · exact matches_pure t r
      | void | primitive | pointer | texture | sampler => exact matches_pure t r

end Copies

/-! ## Expressions of typed builders -/

section Expressions

variable {b : Builder} {callees : Callees} {depth : Nat}

/-- A recorded expression has a node. -/
theorem exists_node_of_lt_size {n : NodeId} (hn : n.index < b.nodes.size) :
    ∃ node, b.node? n = some node := ⟨b.nodes[n.index], Array.getElem?_eq_getElem hn⟩

/-- The operands of an expression come before it, so they exist. -/
theorem operand_lt (hb : b.Typed callees) {n : NodeId} {node : Node} (hnode : b.node? n = some node)
    {m : NodeId} (hm : m ∈ node.kind.operands) :
    m.index < n.index ∧ m.index < b.nodes.size := by
  have hlt := hb.descends n node hnode m hm
  have hn : n.index < b.nodes.size := (Array.getElem?_eq_some_iff.mp hnode).1
  exact ⟨hlt, Nat.lt_trans hlt hn⟩

/-- A variable that is named exists. -/
theorem exists_var (hb : b.Typed callees) {n : NodeId} {t : TypeId} {v : VarId}
    (hnode : b.node? n = some ⟨t, .var v⟩) : ∃ d, b.var? v = some d := by
  cases hb.dictated n _ hnode with
  | var hd => exact ⟨_, hd⟩

/-- What elements are taken from has a type that exists. -/
theorem exists_type_of_index (hb : b.Typed callees) {n base i : NodeId} {t : TypeId}
    (hnode : b.node? n = some ⟨t, .index base i⟩) :
    ∃ node e, b.node? base = some node ∧ entry b.types node.type = some e := by
  have hlt : ∀ {u : TypeId}, b.typeOf? base = some u → b.types.kind u ≠ .void →
      ∃ node e, b.node? base = some node ∧ entry b.types node.type = some e := by
    intro u hu hvoid
    obtain ⟨node, hbase, rfl⟩ := Option.map_eq_some_iff.mp hu
    obtain ⟨e, he, -⟩ := entry_of_lt_size (Registry.lt_size_of_kind_ne_void hvoid)
    exact ⟨node, e, hbase, he⟩
  cases hb.dictated n _ hnode with
  | element hu hk => exact hlt hu (by simp [hk])
  | component hp =>
      obtain ⟨u, hu, hk⟩ := Option.bind_eq_some_iff.mp hp
      exact hlt hu (by simp [Registry.primitive?_eq_some_iff.mp hk])

/-- With enough depth, the traversal finds the root of an access. -/
theorem root_eq (hb : b.Typed callees) {n : NodeId} (hn : n.index < b.nodes.size)
    (hdepth : n.index < depth) : root b depth n = some (b.root? n) := by
  induction depth generalizing n with
  | zero => omega
  | succ depth ih =>
      obtain ⟨⟨t, kind⟩, hnode⟩ := exists_node_of_lt_size hn
      rw [root, Builder.root?, hnode, Option.bind_eq_bind, Option.bind_some]
      cases kind with
      | member base | swizzle base | index base =>
          obtain ⟨hlt, hbase⟩ := operand_lt hb hnode (m := base) List.mem_cons_self
          dsimp only
          rw [if_pos hlt]
          exact ih hbase (by omega)
      | var | literal | builtin | unary | binary => rfl
      | construct | call | intrinsic | addressOf | deref => rfl

/-- With enough depth, the traversal checks a place. -/
theorem checkPlace_eq (hb : b.Typed callees) {n : NodeId} (hn : n.index < b.nodes.size)
    (hdepth : n.index < depth) :
    (checkPlace b depth n).run = some (b.checkPlace n) := by
  -- by induction on the depth, which is above the index: a part has a lower one
  induction depth generalizing n with
  | zero => omega
  | succ depth ih =>
      obtain ⟨⟨t, kind⟩, hnode⟩ := exists_node_of_lt_size hn
      rw [checkPlace, Builder.checkPlace, hnode, some_bind]
      cases kind with
      | var v =>
          obtain ⟨d, hd⟩ := exists_var hb hnode
          dsimp only
          rw [hd, some_bind]
          rfl
      | member base =>
          obtain ⟨hlt, hbase⟩ := operand_lt hb hnode (m := base) List.mem_cons_self
          dsimp only
          rw [if_pos hlt]
          exact ih hbase (by omega)
      | index base i =>
          obtain ⟨hlt, hbase⟩ := operand_lt hb hnode (m := base) List.mem_cons_self
          obtain ⟨node, e, hbase', he⟩ := exists_type_of_index hb hnode
          dsimp only
          rw [if_pos hlt, hbase', some_bind, he, some_bind, ExceptT.run_bind, ih hbase (by omega)]
          cases b.checkPlace base <;> rfl
      | swizzle base s =>
          obtain ⟨hlt, hbase⟩ := operand_lt hb hnode (m := base) List.mem_cons_self
          dsimp only
          rw [if_pos hlt]
          cases hswizzle : Builder.checkSwizzlePlace b.target s with
          | error e => rfl
          | ok u => exact ih hbase (by omega)
      | builtin x =>
          dsimp only
          split <;> rfl
      | deref | literal | unary | binary | construct | call | intrinsic | addressOf => rfl

/-- What is found out of each item is found out of all. -/
theorem allM_eq {α : Type} {f : α → Bool} {g : α → Option Bool} {as : List α}
    (h : ∀ a ∈ as, g a = some (f a)) : as.allM g = some (as.all f) := by
  induction as with
  | nil => rfl
  | cons a rest ih =>
      rw [List.allM, h a List.mem_cons_self, List.all_cons, Option.bind_eq_bind, Option.bind_some]
      cases f a with
      | false => rfl
      | true => exact ih fun a' ha' => h a' (List.mem_cons_of_mem _ ha')

/-- With enough depth, the traversal finds out whether an expression is constant. -/
theorem isConstant_eq (hb : b.Typed callees) {n : NodeId} (hn : n.index < b.nodes.size)
    (hdepth : n.index < depth) :
    isConstant b depth n = some (b.isConstant n) := by
  induction depth generalizing n with
  | zero => omega
  | succ depth ih =>
      obtain ⟨⟨t, kind⟩, hnode⟩ := exists_node_of_lt_size hn
      have hoperands : ∀ m ∈ kind.operands, isConstant b depth m =
          some (if m.index < n.index then b.isConstant m else false) := by
        intro m hm
        obtain ⟨hlt, hm⟩ := operand_lt hb hnode hm
        rw [if_pos hlt]
        exact ih hm (by omega)
      rw [isConstant, Builder.isConstant, hnode, Option.bind_eq_bind, Option.bind_some]
      cases kind with
      | var v =>
          obtain ⟨d, hd⟩ := exists_var hb hnode
          dsimp only
          rw [hd]
          rfl
      | member | swizzle | index | unary | binary | construct => exact allM_eq hoperands
      | literal | builtin | call | intrinsic | addressOf | deref => rfl

/-- An expression read as a tree: the checks give the tree too, its variables exist, and it has the
types of the expressions that are visited, in order. -/
structure Reads (b : Builder) (depth : Nat) (n : NodeId) (e : Term) : Prop where
  unchecked : term b depth n = some e
  checked : b.term n = .ok e
  visited : ∃ ids, visit b depth n = some ids ∧ ids.map b.typeOf? = e.types.map some
  declared : ∀ v, .var v ∈ e.mentions → ∃ d, b.var? v = some d

/-- The trees of several expressions. -/
structure ReadsAll (b : Builder) (depth : Nat) (n : NodeId) (ms : List NodeId) (es : List Term) :
    Prop where
  unchecked : ms.mapM (term b depth) = some es
  checked : (ms.mapM fun m => if m.index < n.index then b.term m
    else .error (.internal (.undefinedExpression m.index))) = .ok es
  visited : ∃ ids, ms.mapM (visit b depth) = some ids ∧
    ids.flatten.map b.typeOf? = (Term.typesOf es).map some
  declared : ∀ v, .var v ∈ Term.mentionsOf es → ∃ d, b.var? v = some d

/-- No operands are read. -/
theorem readsAll_nil (n : NodeId) : ReadsAll b depth n [] [] :=
  ⟨rfl, rfl, ⟨[], rfl, rfl⟩, by simp [Term.mentionsOf]⟩

/-- Operands are read one by one. -/
theorem ReadsAll.cons {n m : NodeId} {ms : List NodeId} {e : Term} {es : List Term}
    (hlt : m.index < n.index) (he : Reads b depth m e) (hes : ReadsAll b depth n ms es) :
    ReadsAll b depth n (m :: ms) (e :: es) := by
  obtain ⟨ids, hids, htypes⟩ := he.visited
  obtain ⟨idss, hidss, htypess⟩ := hes.visited
  refine ⟨?_, ?_, ⟨ids :: idss, ?_, ?_⟩, fun v hv => ?_⟩
  · rw [List.mapM_cons, he.unchecked, hes.unchecked]
    rfl
  · rw [List.mapM_cons, hes.checked, if_pos hlt, he.checked]
    rfl
  · rw [List.mapM_cons, hids, hidss]
    rfl
  · rw [List.flatten_cons, List.map_append, htypes, htypess, Term.typesOf, List.map_append]
  · rcases List.mem_append.mp hv with hv | hv
    · exact he.declared v hv
    · exact hes.declared v hv

/-- Operands that can be read are read in order. -/
theorem exists_readsAll {n : NodeId} {ms : List NodeId}
    (h : ∀ m ∈ ms, m.index < n.index ∧ ∃ e, Reads b depth m e) :
    ∃ es, ReadsAll b depth n ms es := by
  induction ms with
  | nil => exact ⟨[], readsAll_nil n⟩
  | cons m rest ih =>
      obtain ⟨hlt, e, he⟩ := h m List.mem_cons_self
      obtain ⟨es, hes⟩ := ih fun m' hm' => h m' (List.mem_cons_of_mem _ hm')
      exact ⟨e :: es, hes.cons hlt he⟩

/-- An expression is visited before its operands. -/
theorem ReadsAll.visit {n : NodeId} {node : Node} {es : List Term} (hnode : b.node? n = some node)
    (h : ReadsAll b depth n node.kind.operands es) :
    ∃ ids, visit b (depth + 1) n = some ids ∧
      ids.map b.typeOf? = (node.type :: Term.typesOf es).map some := by
  obtain ⟨idss, hidss, htypes⟩ := h.visited
  refine ⟨n :: idss.flatten, ?_, ?_⟩
  · rw [Unchecked.visit, hnode, Option.bind_eq_bind, Option.bind_some, hidss]
    rfl
  · rw [List.map_cons, List.map_cons, htypes, Builder.typeOf?, hnode]
    rfl

/-- Every expression is read as a tree. -/
theorem exists_reads (hb : b.Typed callees) {n : NodeId} (hn : n.index < b.nodes.size)
    (hdepth : n.index < depth) : ∃ e, Reads b depth n e := by
  induction depth generalizing n with
  | zero => omega
  | succ depth ih =>
      obtain ⟨⟨t, kind⟩, hnode⟩ := exists_node_of_lt_size hn
      have hoperands : ∀ m ∈ kind.operands, m.index < n.index ∧ ∃ e, Reads b depth m e := by
        intro m hm
        obtain ⟨hlt, hm⟩ := operand_lt hb hnode hm
        exact ⟨hlt, ih hm (by omega)⟩
      have hunchecked := term.eq_2 b n depth
      have hchecked := Builder.term.eq_1 b n
      rw [hnode] at hunchecked hchecked
      dsimp only [Option.bind_eq_bind, Option.bind_some] at hunchecked hchecked
      cases kind with
      | literal value =>
          exact ⟨.literal t value, hunchecked, hchecked, (readsAll_nil n).visit hnode, by
            simp [Term.mentions]⟩
      | builtin x =>
          exact ⟨.builtin t x, hunchecked, hchecked, (readsAll_nil n).visit hnode, by
            simp [Term.mentions]⟩
      | var v =>
          obtain ⟨d, hd⟩ := exists_var hb hnode
          dsimp only at hunchecked
          rw [hd] at hunchecked
          refine ⟨.var t v, hunchecked, hchecked, (readsAll_nil n).visit hnode, fun w hw => ?_⟩
          cases List.mem_singleton.mp hw
          exact ⟨d, hd⟩
      | member base | swizzle base | unary _ base | addressOf base | deref base =>
          obtain ⟨hlt, e, he⟩ := hoperands base List.mem_cons_self
          have hvisit := ((readsAll_nil n).cons hlt he).visit hnode
          dsimp only at hunchecked hchecked
          rw [he.unchecked] at hunchecked
          rw [if_pos hlt, he.checked] at hchecked
          rw [Term.typesOf, Term.typesOf, List.append_nil] at hvisit
          exact ⟨_, hunchecked, hchecked, hvisit, he.declared⟩
      | index base i | binary _ base i =>
          obtain ⟨hbase, e, he⟩ := hoperands base List.mem_cons_self
          obtain ⟨hi, e', he'⟩ := hoperands i (List.mem_cons_of_mem _ List.mem_cons_self)
          have hall := ((readsAll_nil n).cons hi he').cons hbase he
          have hvisit := hall.visit hnode
          dsimp only at hunchecked hchecked
          rw [he.unchecked, he'.unchecked] at hunchecked
          rw [if_pos hbase, if_pos hi, he.checked, he'.checked] at hchecked
          rw [Term.typesOf, Term.typesOf, Term.typesOf, List.append_nil] at hvisit
          have hdeclared := hall.declared
          rw [Term.mentionsOf, Term.mentionsOf, Term.mentionsOf, List.append_nil] at hdeclared
          exact ⟨_, hunchecked, hchecked, hvisit, hdeclared⟩
      | construct args | call _ args =>
          obtain ⟨es, hes⟩ := exists_readsAll hoperands
          dsimp only at hunchecked hchecked
          rw [show args.mapM (term b depth) = some es from hes.unchecked] at hunchecked
          rw [show args.mapM _ = Except.ok es from hes.checked] at hchecked
          exact ⟨_, hunchecked, hchecked, hes.visit hnode, hes.declared⟩
      | intrinsic f args =>
          obtain ⟨es, hes⟩ := exists_readsAll hoperands
          dsimp only at hunchecked hchecked
          rw [show args.mapM (term b depth) = some es from hes.unchecked] at hunchecked
          rw [show args.mapM _ = Except.ok es from hes.checked] at hchecked
          refine ⟨_, hunchecked, hchecked, hes.visit hnode, fun v hv => hes.declared v ?_⟩
          -- the sampler of a texture is told by the texture
          refine (List.mem_append.mp hv).resolve_left fun hsampler => ?_
          unfold Term.samplerOf at hsampler
          split at hsampler
          · cases List.mem_singleton.mp hsampler
          · cases hsampler

end Expressions

end Unchecked

end WebShader
