/-
  Wrappers are transparent.

  Parentheses, casts and non-null assertions mean what the expression inside them means.  Each part of
  the lowering looks through them in a way of its own: a target, a callee, a receiver and the root of a
  statement are unwrapped first, an argument and an initializer are lowered as they stand, and an error
  points at the wrapper or at what is inside it.

  1. `Expr.bare` takes all wrappers out of an expression, at every depth, and `CompilationUnit.bare`
     out of a unit.
  2. `SameDeed m n` says of two actions that they end in one state with one result; where they fail,
     only the places of the errors may differ.  It is closed under everything that actions are built
     from.
  3. What looks through wrappers gives the same for a bare expression (`memberOwner?_bare` and its
     companions), so a bare expression lowers like the one it comes from (`expr_bare`), and statements
     and units after it (`stmts_bare`, `compile_bare`).
-/
import FrameScript.Proofs.Logs

namespace FrameScript

/-! ## Without wrappers -/

namespace Source

mutual

/-- The expression without the wrappers in it. -/
def Expr.bare : Expr → Expr
  | .number m x => .number m x
  | .boolean m b => .boolean m b
  | .null m => .null m
  | .identifier m name => .identifier m name
  | .this m => .this m
  | .super m => .super m
  | .binary m left op right => .binary m left.bare op right.bare
  | .unary m op fixity operand => .unary m op fixity operand.bare
  | .call m callee arguments => .call m callee.bare (exprsBare arguments)
  | .construct m callee arguments => .construct m callee.bare (exprsBare arguments)
  | .member m object name => .member m object.bare name
  | .await m operand => .await m operand.bare
  | .wrapped _ inner => inner.bare
  | .unsupported m kind => .unsupported m kind

def exprsBare : List Expr → List Expr
  | [] => []
  | e :: rest => e.bare :: exprsBare rest

end

def Declarator.bare (d : Declarator) : Declarator := { d with initializer := d.initializer.map Expr.bare }

def Property.bare (p : Property) : Property := { p with initializer := p.initializer.map Expr.bare }

mutual

/-- The statement without the wrappers in it. -/
def Stmt.bare : Stmt → Stmt
  | .block line body => .block line (stmtsBare body)
  | .imports line names => .imports line names
  | .bindings line ds => .bindings line (ds.map Declarator.bare)
  | .expression line e => .expression line e.bare
  | .function f => .function f.bare
  | .classDef c => .classDef c.bare
  | .returning line value => .returning line (value.map Expr.bare)
  | .typeOnly line => .typeOnly line
  | .empty line => .empty line
  | .other line kind => .other line kind

def stmtsBare : List Stmt → List Stmt
  | [] => []
  | s :: rest => s.bare :: stmtsBare rest

def FunctionDecl.bare : FunctionDecl → FunctionDecl
  | ⟨id, name, params, some body, isAsync, line⟩ =>
    ⟨id, name, params, some (stmtsBare body), isAsync, line⟩
  | ⟨id, name, params, none, isAsync, line⟩ => ⟨id, name, params, none, isAsync, line⟩

def ClassDecl.bare : ClassDecl → ClassDecl
  | ⟨id, name, parent, isDeclared, isAbstract, members, line⟩ =>
    ⟨id, name, parent, isDeclared, isAbstract, membersBare members, line⟩

def membersBare : List Member → List Member
  | [] => []
  | m :: rest => m.bare :: membersBare rest

def Member.bare : Member → Member
  | .method f isStatic => .method f.bare isStatic
  | .constructor f => .constructor f.bare
  | .property p => .property p.bare
  | .other line kind => .other line kind

end

/-- The unit without the wrappers in it. -/
def CompilationUnit.bare (u : CompilationUnit) : CompilationUnit :=
  { u with statements := stmtsBare u.statements }

namespace Expr

/-- Wrappers around an expression go with the others. -/
@[simp] theorem bare_unwrapped (e : Expr) : e.unwrapped.bare = e.bare := by
  induction e with
  | wrapped m inner ih => exact ih
  | _ => rfl

/-- A bare expression has nothing to unwrap. -/
@[simp] theorem unwrapped_bare (e : Expr) : e.bare.unwrapped = e.bare := by
  induction e with
  | wrapped m inner ih => exact ih
  | _ => rfl

/-- A bare expression stands where the one inside all wrappers does. -/
theorem mark_bare (e : Expr) : e.bare.mark = e.unwrapped.mark := by
  induction e with
  | wrapped m inner ih => exact ih
  | _ => rfl

theorem kindName_bare (e : Expr) : e.bare.kindName = e.unwrapped.kindName := by
  induction e with
  | wrapped m inner ih => exact ih
  | unary m op fixity operand => cases fixity <;> rfl
  | boolean m b => cases b <;> rfl
  | _ => rfl

end Expr

theorem Stmt.line_bare (st : Stmt) : st.bare.line = st.line := by
  cases st with
  | function f => obtain ⟨id, name, params, _ | body, isAsync, line⟩ := f <;> rfl
  | classDef c => cases c; rfl
  | _ => rfl

theorem length_stmtsBare (body : List Stmt) : (stmtsBare body).length = body.length := by
  induction body with
  | nil => rfl
  | cons st rest ih => rw [stmtsBare, List.length_cons, List.length_cons, ih]

theorem length_exprsBare (es : List Expr) : (exprsBare es).length = es.length := by
  induction es with
  | nil => rfl
  | cons e rest ih => rw [exprsBare, List.length_cons, List.length_cons, ih]

end Source

open Source

/-! ## Two actions -/

section Actions

variable {σ α β : Type}

/-- Two results: one value, or two errors with one cause. -/
inductive SameResult : Except LowerError α → Except LowerError α → Prop where
  | failed {e e' : LowerError} (h : e.cause = e'.cause) : SameResult (.error e) (.error e')
  | done (a : α) : SameResult (.ok a) (.ok a)

theorem SameResult.refl (x : Except LowerError α) : SameResult x x := by
  cases x with
  | error e => exact .failed rfl
  | ok a => exact .done a

theorem SameResult.map {x y : Except LowerError α} (h : SameResult x y) (f : α → β) :
    SameResult (x.map f) (y.map f) := by
  cases h with
  | failed h => exact .failed h
  | done a => exact .done (f a)

/-- The two actions end in one state, with one result; the errors may point at different places. -/
def SameDeed (m n : ExceptT LowerError (StateM σ) α) : Prop :=
  ∀ s, SameResult (m.run s).1 (n.run s).1 ∧ (m.run s).2 = (n.run s).2

namespace SameDeed

variable {m n : ExceptT LowerError (StateM σ) α} {f g : α → ExceptT LowerError (StateM σ) β}

theorem refl (m : ExceptT LowerError (StateM σ) α) : SameDeed m m := fun _ => ⟨.refl _, rfl⟩

theorem bind (hm : SameDeed m n) (hf : ∀ a, SameDeed (f a) (g a)) : SameDeed (m >>= f) (n >>= g) := by
  intro s
  obtain ⟨hresult, hstate⟩ := hm s
  rw [run_bind, run_bind]
  rcases hrun : m.run s with ⟨x, t⟩
  rcases hrun' : n.run s with ⟨y, t'⟩
  rw [hrun, hrun'] at hresult hstate
  obtain rfl : t = t' := hstate
  cases hresult with
  | failed h => exact ⟨.failed h, rfl⟩
  | done a => exact hf a t

/-- The same begin with different ends. -/
theorem andThen (hf : ∀ a, SameDeed (f a) (g a)) : SameDeed (m >>= f) (m >>= g) := bind (refl m) hf

theorem ofExcept {x y : Except LowerError α} (h : SameResult x y) :
    SameDeed (MonadExcept.ofExcept x : ExceptT LowerError (StateM σ) α) (MonadExcept.ofExcept y) := by
  cases h with
  | failed h => exact fun s => ⟨.failed h, rfl⟩
  | done a => exact refl _

theorem ite {c : Prop} [Decidable c] {m' n' : ExceptT LowerError (StateM σ) α} (h : SameDeed m n)
    (h' : SameDeed m' n') : SameDeed (if c then m else m') (if c then n else n') := by
  split
  · exact h
  · exact h'

/-- What is done inside a session by an expression. -/
theorem lift {x y : Surroundings → Lowering α} (h : ∀ s, SameDeed (x s) (y s)) :
    SameDeed (SessionM.lift x) (SessionM.lift y) := by
  intro s
  obtain ⟨hresult, hstate⟩ := h s.toSurroundings s.toEffects
  rw [SessionM.run_lift, SessionM.run_lift, hstate]
  exact ⟨hresult, rfl⟩

/-- What is done in a script of its own. -/
theorem inScript (scope : LexicalScope) (prologue : List Command) {m n : SessionM (List Command)}
    (h : SameDeed m n) :
    SameDeed (Lower.inScript scope prologue m) (Lower.inScript scope prologue n) := by
  intro s
  obtain ⟨hresult, hstate⟩ := h (s.opened scope [])
  rw [Lower.run_inScript, Lower.run_inScript, hstate]
  exact ⟨hresult.map _, rfl⟩

end SameDeed

end Actions

/-! ## What names stand for -/

theorem objectName_bare (e : Expr) : objectName e.bare = objectName e := by
  induction e with
  -- both sides look through the wrapper; any other node stays what it is
  | wrapped m inner ih => exact ih
  | unary m op fixity operand => cases fixity <;> rfl
  | boolean m b => cases b <;> rfl
  | _ => rfl

namespace Surroundings

variable (s : Surroundings)

theorem memberOwner?_bare (e : Expr) : s.memberOwner? e.bare = s.memberOwner? e := by
  induction e with
  | wrapped m inner ih => exact ih
  | _ => rfl

theorem namespace?_bare (e : Expr) : s.namespace? e.bare = s.namespace? e := by
  induction e with
  | wrapped m inner ih => exact ih
  | _ => rfl

theorem methodCallee_bare (object : Expr) (name : String) :
    s.methodCallee object.bare name = s.methodCallee object name := by
  rw [methodCallee, methodCallee, memberOwner?_bare, namespace?_bare]

/-- A member that is not found is reported where its object stands. -/
theorem ownedSlot_bare (owner : String) (object : Expr) (name : String) :
    SameResult (s.ownedSlot owner object.bare name) (s.ownedSlot owner object name) := by
  unfold ownedSlot
  split
  · exact .refl _
  · exact .failed rfl

theorem memberSlot_bare (object : Expr) (name : String) :
    SameResult (s.memberSlot object.bare name) (s.memberSlot object name) := by
  unfold memberSlot
  rw [memberOwner?_bare, namespace?_bare, objectName_bare]
  cases s.memberOwner? object with
  | error e => exact .refl _
  | ok owner =>
    cases owner with
    | some owner => exact s.ownedSlot_bare owner object name
    | none =>
      cases s.namespace? object with
      | some module => exact .refl _
      | none => exact s.ownedSlot_bare _ object name

theorem targetSlot_bare (e : Expr) : SameResult (s.targetSlot e.bare) (s.targetSlot e) := by
  induction e with
  | wrapped m inner ih => exact ih
  | member m object name _ => exact s.memberSlot_bare object name
  | unary m op fixity operand => cases fixity <;> exact .refl _
  | _ => exact .refl _

end Surroundings

/-! ## Expressions -/

namespace Lower

section Expressions

variable (s : Surroundings)

/-- An expression without a value is reported where it stands, by what is inside its wrappers. -/
theorem needValue_bare (e : Expr) (lowered : Emitted (Option Operand)) :
    SameDeed (needValue s e.bare lowered) (needValue s e lowered) := by
  unfold needValue
  split
  · exact .refl _
  · rw [Expr.unwrapped_bare, Expr.kindName_bare]
    exact fun fx => ⟨.failed rfl, rfl⟩

theorem square_bare (line : Nat) (target : String) (exponent : Expr) (value : Emitted Operand) :
    SameDeed (square s line target exponent.bare value) (square s line target exponent value) := by
  intro fx
  rw [run_square, run_square]
  split
  · exact ⟨.refl _, rfl⟩
  · exact ⟨.failed rfl, rfl⟩

theorem update_bare (line : Nat) (op : UnaryOp) (operand : Expr) (keepOld : Bool) :
    SameDeed (update s line op operand.bare keepOld) (update s line op operand keepOld) := by
  have htarget := s.targetSlot_bare operand
  -- the operator decides first, and it is the same on both sides
  unfold update
  cases op with
  | increment => exact .andThen fun code => .bind (.ofExcept htarget) fun target => .refl _
  | decrement => exact .andThen fun code => .bind (.ofExcept htarget) fun target => .refl _
  | other token => exact .andThen fun code => .bind (.ofExcept htarget) fun target => .refl _

theorem namedCallee?_bare (e : Expr) : namedCallee? s e.bare = namedCallee? s e := by
  induction e with
  | wrapped m inner ih => exact ih
  | member m object name _ => exact congrArg (Except.map some) (s.methodCallee_bare object name)
  | _ => rfl

/-- A computed callee is reported by what is inside its wrappers alone. -/
theorem computedCallee_bare (callee : Expr) (lowered : Emitted (Option Operand)) :
    SameDeed (computedCallee s callee.bare lowered) (computedCallee s callee lowered) := by
  have hline : callee.bare.line = callee.unwrapped.line := congrArg Mark.line callee.mark_bare
  unfold computedCallee
  dsimp only
  rw [Expr.unwrapped_bare, hline, Expr.kindName_bare, ← Expr.bare_unwrapped]
  exact .bind (needValue_bare s callee.unwrapped lowered) fun value => .refl _

variable {s}

theorem invoke_same (line : Nat) (callee : Callee) (count : Nat)
    {values values' : Lowering (List (Emitted Operand))} {dropped dropped' : Lowering (List Command)}
    (hvalues : SameDeed values values') (hdropped : SameDeed dropped dropped') :
    SameDeed (invoke s line callee count values dropped)
      (invoke s line callee count values' dropped') := by
  unfold invoke
  split
  · exact .bind hvalues fun _ => .refl _
  · exact .bind hdropped fun _ => .refl _

theorem values_bare {args : List Expr} (h : ∀ a ∈ args, SameDeed (expr s a.bare) (expr s a)) :
    SameDeed (values s (exprsBare args)) (values s args) := by
  induction args with
  | nil => exact .refl _
  | cons a rest ih =>
    have hrest := ih fun b hb => h b (List.mem_cons_of_mem a hb)
    rw [exprsBare, values, values]
    refine .bind (h a List.mem_cons_self) fun lowered => ?_
    exact .bind (needValue_bare s a lowered) fun value => .bind hrest fun others => .refl _

theorem dropped_bare {args : List Expr} (h : ∀ a ∈ args, SameDeed (expr s a.bare) (expr s a)) :
    SameDeed (dropped s (exprsBare args)) (dropped s args) := by
  induction args with
  | nil => exact .refl _
  | cons a rest ih =>
    have hrest := ih fun b hb => h b (List.mem_cons_of_mem a hb)
    rw [exprsBare, dropped, dropped]
    exact .bind (h a List.mem_cons_self) fun lowered => .bind hrest fun others => .refl _

/-- The class of a `new` is looked for inside its wrappers. -/
theorem construct_bare {m : Mark} (callee : Expr) {args : List Expr}
    (h : ∀ a ∈ args, SameDeed (expr s a.bare) (expr s a)) :
    SameDeed (expr s (.construct m callee.bare (exprsBare args)))
      (expr s (.construct m callee args)) := by
  rw [expr, expr, length_exprsBare]
  induction callee with
  | wrapped m' inner ih => exact ih
  | identifier m' name =>
    exact .bind (invoke_same m.line _ args.length (values_bare h) (dropped_bare h)) fun call => .refl _
  | unary m' op fixity operand => cases fixity <;> exact .refl _
  | _ => exact .refl _

variable (s)

/-- **A bare expression lowers like the one it comes from.** -/
theorem expr_bare (e : Expr) : SameDeed (expr s e.bare) (expr s e) := by
  induction e with
  | wrapped m inner ih => rw [Expr.bare, expr]; exact ih
  | binary m left op right _ ih =>
    have htarget := s.targetSlot_bare left
    rw [Expr.bare, expr.eq_def, expr.eq_def]
    dsimp only
    split
    · refine .bind (.ofExcept htarget) fun target => .bind ih fun lowered => ?_
      exact .bind (needValue_bare s right lowered) fun value => square_bare s _ _ _ _
    · refine .bind (.ofExcept htarget) fun target => .bind ih fun lowered => ?_
      exact .bind (needValue_bare s right lowered) fun value => .refl _
    · exact .refl _
  | unary m op fixity operand _ => rw [Expr.bare, expr, expr]; exact update_bare s _ _ _ _
  | call m callee args ihc iha =>
    have hinvoke := fun path => invoke_same (s := s) m.line path args.length (values_bare iha)
      (dropped_bare iha)
    rw [Expr.bare, expr, expr, namedCallee?_bare, length_exprsBare]
    -- both calls name their callee, or both compute it
    refine .andThen fun named => ?_
    split
    · exact .andThen fun head => .bind (hinvoke _) fun call => .refl _
    · refine .bind ihc fun lowered => .bind (computedCallee_bare s callee lowered) fun head => ?_
      exact .bind (hinvoke _) fun call => .refl _
  | construct m callee args _ iha => rw [Expr.bare]; exact construct_bare callee iha
  | member m object name _ =>
    rw [Expr.bare, expr, expr]
    exact .bind (.ofExcept (s.memberSlot_bare object name)) fun slot => .refl _
  | await m operand _ => rw [Expr.bare, expr, expr]; exact .refl _
  | _ => exact .refl _

theorem value_bare (e : Expr) : SameDeed (value s e.bare) (value s e) :=
  .bind (expr_bare s e) fun lowered => needValue_bare s e lowered

end Expressions

end Lower

/-! ## Declarations -/

mutual

/-- Whether a body returns a value does not depend on wrappers. -/
theorem Source.Stmt.returnsValue_bare : ∀ st : Stmt, st.bare.returnsValue = st.returnsValue
  | .block _ body => bodyReturnsValue_bare body
  | .returning .. => Option.isSome_map
  | .imports .. | .bindings .. | .expression .. | .function _ | .classDef _ | .typeOnly _ | .empty _
  | .other .. => rfl

theorem Source.bodyReturnsValue_bare : ∀ body : List Stmt,
    bodyReturnsValue (stmtsBare body) = bodyReturnsValue body
  | [] => rfl
  | st :: rest => congrArg₂ (· || ·) st.returnsValue_bare (bodyReturnsValue_bare rest)

end

namespace Declare

theorem callable_bare (script : String) (f : FunctionDecl) :
    callable script f.bare = callable script f := by
  obtain ⟨id, name, params, _ | body, isAsync, line⟩ := f
  · rfl
  · simp only [callable, FunctionDecl.bare, Option.map_some, bodyReturnsValue_bare]

theorem function_bare (f : FunctionDecl) : function f.bare = function f := by
  have hcallable := fun script => callable_bare script f
  obtain ⟨id, name, params, _ | body, isAsync, line⟩ := f
  · rfl
  · unfold function
    simp only [hcallable]
    rfl

theorem member_bare (info : ClassInfo) (m : Member) : member info m.bare = member info m := by
  cases m with
  | method f isStatic =>
    have hcallable := fun script => callable_bare script f
    obtain ⟨id, _ | name, params, _ | body, isAsync, line⟩ := f
    · rfl
    · rfl
    · rfl
    · rw [Member.bare, member, member]
      simp only [hcallable]
      rfl
  | constructor f =>
    have hcallable := fun script => callable_bare script f
    obtain ⟨id, name, params, _ | body, isAsync, line⟩ := f
    · rfl
    · rw [Member.bare, member, member]
      simp only [hcallable]
      rfl
  | property p => rfl
  | other line kind => rfl

theorem members_bare (info : ClassInfo) (ms : List Member) :
    (membersBare ms).foldlM member info = ms.foldlM member info := by
  induction ms generalizing info with
  | nil => rfl
  | cons m rest ih =>
    rw [membersBare, List.foldlM_cons, List.foldlM_cons, member_bare]
    exact congrArg _ (funext ih)

theorem classDef_bare (c : ClassDecl) : classDef c.bare = classDef c := by
  obtain ⟨id, name, parent, isDeclared, isAbstract, ms, line⟩ := c
  unfold classDef
  simp only [ClassDecl.bare, members_bare]

theorem stmt_bare (st : Stmt) : stmt st.bare = stmt st := by
  cases st with
  | function f => exact function_bare f
  | classDef c => exact classDef_bare c
  | _ => rfl

/-- A bare unit declares what the unit declares. -/
theorem unit_bare (statements : List Stmt) : unit (stmtsBare statements) = unit statements := by
  induction statements with
  | nil => rfl
  | cons st rest ih => exact congrArg₂ (fun m n => m >>= fun _ => n) (stmt_bare st) ih

end Declare

/-! ## Statements -/

namespace Lower

theorem declarator_bare (d : Declarator) : SameDeed (declarator d.bare) (declarator d) := by
  obtain ⟨_ | name, _ | e, line⟩ := d
  · exact .refl _
  · refine .andThen fun slot => .andThen fun _ => .andThen fun _ => .lift fun s => ?_
    exact .bind (value_bare s e) fun lowered => .refl _
  · exact .refl _
  · exact .refl _

theorem declarators_bare (ds : List Declarator) :
    SameDeed (declarators (ds.map Declarator.bare)) (declarators ds) := by
  induction ds with
  | nil => exact .refl _
  | cons d rest ih =>
    rw [List.map_cons, declarators, declarators]
    exact .bind (declarator_bare d) fun commands => .bind ih fun others => .refl _

/-- The root of a statement is what is inside its wrappers. -/
theorem expressionStmt_bare (s : Surroundings) (e : Expr) :
    SameDeed (expressionStmt s e.bare) (expressionStmt s e) := by
  have hroot (e : Expr) : SameDeed (do return (← expr s e.bare).commands)
      (do return (← expr s e).commands) := .bind (expr_bare s e) fun lowered => .refl _
  induction e with
  | wrapped m inner ih => exact ih
  | unary m op fixity operand _ =>
    have hupdate := SameDeed.bind (update_bare s m.line op operand false) fun lowered =>
      .refl (pure lowered.commands)
    cases fixity <;> exact .ite (.andThen fun _ => hupdate) hupdate
  | _ => exact .ite (.andThen fun _ => hroot _) (hroot _)

theorem returned_bare (s : Surroundings) (line : Nat) (value : Option Expr) :
    SameDeed (returned s line (value.map Expr.bare)) (returned s line value) := by
  cases value with
  | none => exact .refl _
  | some e =>
    rw [Option.map_some, returned, returned]
    split
    · exact .bind (value_bare s e) fun lowered => .refl _
    · exact .andThen fun _ => .bind (expr_bare s e) fun lowered => .refl _

theorem fields_bare (s : Surroundings) (info : ClassInfo) (ms : List Member) :
    SameDeed (fields s info (membersBare ms)) (fields s info ms) := by
  induction ms with
  | nil => exact .refl _
  | cons m rest ih =>
    cases m with
    | property p =>
      obtain ⟨name, _ | e, isStatic, line⟩ := p
      · exact ih
      · rw [membersBare, Member.bare, fields, fields]
        dsimp only [Property.bare, Option.map_some]
        cases info.fieldSlot? name with
        | none => exact ih
        | some slot => exact .bind (value_bare s e) fun lowered => .bind ih fun others => .refl _
    | _ => exact ih

theorem fieldsScript_bare (info : ClassInfo) (scope : ClassScope) (ms : List Member) (line : Nat) :
    SameDeed (fieldsScript info scope (membersBare ms) line) (fieldsScript info scope ms line) := by
  have hfields := SameDeed.lift fun s => fields_bare s info ms
  exact .bind (.inScript _ _ (.andThen fun _ => hfields)) fun script => .refl _

theorem callableScript_same (id : DeclId) (line : Nat) (enclosing : Option ClassScope)
    (prologue : List Command) {m n : SessionM (Emitted Flow)} (h : SameDeed m n) :
    SameDeed (callableScript id line enclosing prologue m)
      (callableScript id line enclosing prologue n) := by
  unfold callableScript
  refine .andThen fun s => ?_
  split
  · exact .refl _
  · refine .bind (.inScript _ _ ?_) fun script => .refl _
    exact .andThen fun _ => .andThen fun _ => .bind h fun lowered => .refl _

mutual

/-- **Bare statements lower like those they come from**, in bodies of any depth. -/
theorem stmts_bare : ∀ body : List Stmt, SameDeed (stmts (stmtsBare body)) (stmts body)
  | [] => .refl _
  | first :: rest => by
    have hfirst := stmt_bare first
    have hrest := stmts_bare rest
    rw [stmtsBare, stmts, stmts]
    refine .bind hfirst fun lowered => ?_
    split
    · -- what is skipped is reported by its line and its number alone
      cases rest with
      | nil => exact .refl _
      | cons next others =>
        rw [stmtsBare]
        dsimp only
        rw [Stmt.line_bare, List.length_cons, List.length_cons, length_stmtsBare]
        exact .refl _
    · exact .bind hrest fun others => .refl _

theorem stmt_bare : ∀ st : Stmt, SameDeed (stmt st.bare) (stmt st)
  | .block _ body => stmts_bare body
  | .bindings _ ds => .bind (declarators_bare ds) fun _ => .refl _
  | .expression _ e => .bind (.lift fun s => expressionStmt_bare s e) fun _ => .refl _
  | .function f => .bind (function_bare f) fun _ => .refl _
  | .classDef c => .bind (classDef_bare c) fun _ => .refl _
  | .returning line value => .bind (.lift fun s => returned_bare s line value) fun _ => .refl _
  | .imports .. | .typeOnly _ | .empty _ | .other .. => .refl _

theorem function_bare : ∀ f : FunctionDecl, SameDeed (function f.bare) (function f)
  | ⟨id, name, params, some body, isAsync, line⟩ => by
    have hdeclare := Declare.function_bare ⟨id, name, params, some body, isAsync, line⟩
    have hbody := stmts_bare body
    rw [FunctionDecl.bare] at hdeclare ⊢
    rw [function, function, hdeclare]
    refine .andThen fun _ => ?_
    cases isAsync with
    | true => exact .andThen fun _ => .andThen fun s => callableScript_same _ _ _ _ hbody
    | false => exact .andThen fun s => callableScript_same _ _ _ _ hbody
  | ⟨_, _, _, none, _, _⟩ => .refl _

theorem classDef_bare : ∀ c : ClassDecl, SameDeed (classDef c.bare) (classDef c)
  | ⟨id, name, parent, isDeclared, isAbstract, ms, line⟩ => by
    have hdeclare := Declare.classDef_bare ⟨id, name, parent, isDeclared, isAbstract, ms, line⟩
    have hconstructor := fun info scope prologue => constructor_bare info scope prologue ms
    have hmethods := fun info scope => methods_bare info scope ms
    rw [ClassDecl.bare] at hdeclare ⊢
    rw [classDef, classDef, hdeclare]
    split
    · exact .refl _
    · refine .andThen fun _ => .andThen fun s => ?_
      split
      · exact .refl _
      · refine .bind (fieldsScript_bare _ _ ms line) fun _ => .andThen fun s => ?_
        refine .bind (hconstructor _ _ _) fun found => ?_
        split
        · exact hmethods _ _
        · exact .andThen fun _ => hmethods _ _

theorem constructor_bare (info : ClassInfo) (scope : ClassScope) (prologue : List Command) :
    ∀ ms : List Member, SameDeed (constructor info scope prologue (membersBare ms))
      (constructor info scope prologue ms)
  | [] => .refl _
  | .constructor ⟨id, _, _, some body, _, line⟩ :: rest => by
    have hbody := callableScript_same id line (some scope) prologue (stmts_bare body)
    have hrest := constructor_bare info scope prologue rest
    rw [membersBare, Member.bare, FunctionDecl.bare, constructor, constructor]
    split
    · exact .bind hbody fun _ => .refl _
    · exact hrest
  | .constructor ⟨id, _, _, none, _, line⟩ :: rest => by
    have hrest := constructor_bare info scope prologue rest
    rw [membersBare, Member.bare, FunctionDecl.bare, constructor, constructor]
    split
    · exact .refl _
    · exact hrest
  | .method .. :: rest => constructor_bare info scope prologue rest
  | .property _ :: rest => constructor_bare info scope prologue rest
  | .other .. :: rest => constructor_bare info scope prologue rest

theorem methods_bare (info : ClassInfo) (scope : ClassScope) :
    ∀ ms : List Member, SameDeed (methods info scope (membersBare ms)) (methods info scope ms)
  | [] => .refl _
  | .method ⟨id, _, _, some body, isAsync, line⟩ _ :: rest => by
    have hbody := callableScript_same id line (some scope) [] (stmts_bare body)
    have hrest := methods_bare info scope rest
    rw [membersBare, Member.bare, FunctionDecl.bare, methods, methods]
    cases isAsync with
    | true => exact .andThen fun _ => .bind hbody fun _ => hrest
    | false => exact .bind hbody fun _ => hrest
  | .method ⟨_, _, _, none, _, _⟩ _ :: rest => methods_bare info scope rest
  | .constructor _ :: rest => methods_bare info scope rest
  | .property _ :: rest => methods_bare info scope rest
  | .other _ _ :: rest => .andThen fun _ => methods_bare info scope rest

end

end Lower

/-! ## Units -/

namespace Session

theorem lowerUnit_bare (u : CompilationUnit) : SameDeed (lowerUnit u.bare) (lowerUnit u) := by
  unfold lowerUnit
  rw [CompilationUnit.bare]
  dsimp only
  rw [Declare.unit_bare]
  exact .andThen fun _ => .bind (Lower.stmts_bare u.statements) fun body => .refl _

/-- **Wrappers are transparent.**  A unit compiles just as it does without its wrappers: to the same
scripts with the same warnings, or to an error with the same cause.  The session goes on the same. -/
theorem compile_bare (s : Session) (u : CompilationUnit) :
    SameResult (s.compile u.bare).1 (s.compile u).1 ∧ (s.compile u.bare).2 = (s.compile u).2 := by
  have hbegin : s.begin u.bare = s.begin u := rfl
  obtain ⟨hresult, hstate⟩ := lowerUnit_bare u (s.begin u)
  unfold compile
  rw [hbegin]
  rcases hrun : (lowerUnit u.bare).run (s.begin u) with ⟨x, t⟩
  rcases hrun' : (lowerUnit u).run (s.begin u) with ⟨y, t'⟩
  rw [hrun, hrun'] at hresult hstate
  obtain rfl : t = t' := hstate
  cases hresult with
  | failed h => exact ⟨.failed h, rfl⟩
  | done a => exact ⟨.done _, rfl⟩

end Session

end FrameScript
