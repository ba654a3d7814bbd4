/-
  How a unit is lowered, as a relation.

  `Runs task s log out t` says that a piece of work lowers successfully from session `s` to session
  `t` and emits `out`; the log lists the expressions that were lowered, each with its surroundings,
  and the callables whose bodies were reached.  There is one rule for each thing that lowering does:
  nothing, one piece after another, a variable, an expression, a declaration, a script of its own.

  An invariant of lowering is one induction over `Runs`, and no such proof opens the session monad.
  That the program follows the rules is shown in the next file.
-/
import FrameScript.Proofs.Declaring
import FrameScript.Proofs.Expressions

namespace FrameScript

open Source

/-! ## Expressions inside statements -/

/-- What a statement does with the value of its expression. -/
inductive Use where
  | dropped
  /-- The value goes into a register. -/
  | stored (slot : String)

/-- An expression is evaluated for a statement. -/
inductive Evaluates (q : Surroundings) : Use → Expr → Effects → List Command → Effects → Prop where
  | dropped {e : Expr} {fx gx : Effects} {out : Emitted (Option Operand)}
      (h : (Lower.expr q e).run fx = (.ok out, gx)) : Evaluates q .dropped e fx out.commands gx
  | stored (slot : String) {e : Expr} {fx gx : Effects} {commands : List Command} {v : Operand}
      (h : (Lower.expr q e).run fx = (.ok ⟨commands, some v⟩, gx)) :
      Evaluates q (.stored slot) e fx (commands ++ [Lower.assign q slot v]) gx
  /-- An update whose value is dropped keeps no old value. -/
  | updated (m : Mark) {op : UnaryOp} (fixity : Fixity) {operand : Expr} {code : Op}
      {target : String} (fx : Effects) (hop : Lower.updateOp? op = some code)
      (htarget : q.targetSlot operand = .ok target) :
      Evaluates q .dropped (.unary m op fixity operand) fx
        (Lower.updated q target code false fx).1.commands (Lower.updated q target code false fx).2

namespace Session

variable (s : Session)

/-- The slot of the variable that is declared next. -/
def variableSlot (name : String) : String := s.nextId (some name)

/-- The session after a variable was declared. -/
def withVariable (name : String) : Session :=
  ((s.counted 1).declaring [s.variableSlot name]).registered
    ⟨name, s.variableSlot name, .variableName, none⟩

def warnedIf (c : Bool) (line : Nat) (message : String) : Session :=
  if c then s.warned line message else s

/-- The session after the statements behind a return were skipped. -/
def skipping : List Stmt → Session
  | [] => s
  | next :: rest => s.warned next.line
      s!"unreachable code: {(next :: rest).length} statement(s) after return are skipped"

end Session

/-! ## The work of lowering -/

/-- A piece of work.  Members of a class are lowered for what is known about the class. -/
inductive Task where
  | stmts (body : List Stmt)
  | stmt (st : Stmt)
  | declarators (ds : List Declarator)
  | declarator (d : Declarator)
  /-- The script of a callable: its prologue, then its body. -/
  | callable (id : DeclId) (line : Nat) (enclosing : Option ClassScope) (prologue : List Command)
      (body : List Stmt)
  /-- The scripts of a class: fields, then constructor, then methods. -/
  | members (info : ClassInfo) (scope : ClassScope) (ms : List Member) (line : Nat)
  | fieldsScript (info : ClassInfo) (scope : ClassScope) (ms : List Member) (line : Nat)
  | bodies (info : ClassInfo) (scope : ClassScope) (ms : List Member) (line : Nat)
  | initializer (info : ClassInfo) (scope : ClassScope) (ms : List Member) (line : Nat)
  | fields (info : ClassInfo) (ms : List Member)
  | field (info : ClassInfo) (m : Member)
  | methods (info : ClassInfo) (scope : ClassScope) (ms : List Member)
  | method (info : ClassInfo) (scope : ClassScope) (m : Member)

namespace Task

/-- The two parts of work that is done one part after the other. -/
def split : Task → Option (Task × Task)
  | stmts (st :: rest) => some (stmt st, stmts rest)
  | declarators (d :: rest) => some (declarator d, declarators rest)
  | members info scope ms line => some (fieldsScript info scope ms line, bodies info scope ms line)
  | bodies info scope ms line => some (initializer info scope ms line, methods info scope ms)
  | fields info (m :: rest) => some (field info m, fields info rest)
  | methods info scope (m :: rest) => some (method info scope m, methods info scope rest)
  | _ => none

/-- The work that a statement with parts consists of. -/
def inside : Task → Option Task
  | stmt (.block _ body) => some (stmts body)
  | stmt (.bindings _ ds) => some (declarators ds)
  | _ => none

/-- Work and the two parts that it is done in. -/
inductive Splits : Task → Task → Task → Prop where
  | stmts (st : Stmt) (rest : List Stmt) : Splits (.stmts (st :: rest)) (.stmt st) (.stmts rest)
  | declarators (d : Declarator) (rest : List Declarator) :
      Splits (.declarators (d :: rest)) (.declarator d) (.declarators rest)
  | members (info : ClassInfo) (scope : ClassScope) (ms : List Member) (line : Nat) :
      Splits (.members info scope ms line) (.fieldsScript info scope ms line)
        (.bodies info scope ms line)
  | bodies (info : ClassInfo) (scope : ClassScope) (ms : List Member) (line : Nat) :
      Splits (.bodies info scope ms line) (.initializer info scope ms line) (.methods info scope ms)
  | fields (info : ClassInfo) (m : Member) (rest : List Member) :
      Splits (.fields info (m :: rest)) (.field info m) (.fields info rest)
  | methods (info : ClassInfo) (scope : ClassScope) (m : Member) (rest : List Member) :
      Splits (.methods info scope (m :: rest)) (.method info scope m) (.methods info scope rest)

/-- A statement with parts and the work that it consists of. -/
inductive Encloses : Task → Task → Prop where
  | block (line : Nat) (body : List Stmt) : Encloses (.stmt (.block line body)) (.stmts body)
  | bindings (line : Nat) (ds : List Declarator) :
      Encloses (.stmt (.bindings line ds)) (.declarators ds)

theorem splits {task first rest : Task} (h : task.split = some (first, rest)) :
    Splits task first rest := by
  unfold Task.split at h
  split at h <;> simp only [Option.some.injEq, Prod.mk.injEq, reduceCtorEq] at h <;>
    obtain ⟨rfl, rfl⟩ := h <;> constructor

theorem encloses {task inner : Task} (h : task.inside = some inner) : Encloses task inner := by
  unfold Task.inside at h
  split at h <;> simp only [Option.some.injEq, reduceCtorEq] at h <;> subst h <;> constructor

end Task

/-- The commands that the script of a callable starts with. -/
def Task.prologue : Task → List Command
  | .callable _ _ _ prologue _ => prologue
  | _ => []

theorem Task.split_prologue {task first rest : Task} (h : task.split = some (first, rest)) :
    first.prologue = [] ∧ rest.prologue = [] := by
  cases Task.splits h <;> exact ⟨rfl, rfl⟩

theorem Task.inside_prologue {task inner : Task} (h : task.inside = some inner) :
    inner.prologue = [] := by
  cases Task.encloses h <;> rfl

/-- The constructor that is known for a class, with its line and body. -/
def knownConstructor (info : ClassInfo) : List Member → Option (DeclId × Nat × List Stmt)
  | [] => none
  | .constructor ⟨id, _, _, body, _, line⟩ :: rest =>
    if info.constructor = some id then body.map fun body => (id, line, body)
    else knownConstructor info rest
  | _ :: rest => knownConstructor info rest

/-- Work that emits nothing and at most gives a warning. -/
inductive Idle : Task → Session → Flow → Session → Prop where
  | noStmts (s : Session) : Idle (.stmts []) s .next s
  | noDeclarators (s : Session) : Idle (.declarators []) s .next s
  | noFields (info : ClassInfo) (s : Session) : Idle (.fields info []) s .next s
  | noMethods (info : ClassInfo) (scope : ClassScope) (s : Session) :
      Idle (.methods info scope []) s .next s
  | imports (line : Nat) (i : Import) (s : Session) : Idle (.stmt (.imports line i)) s .next s
  | typeOnly (line : Nat) (s : Session) : Idle (.stmt (.typeOnly line)) s .next s
  | empty (line : Nat) (s : Session) : Idle (.stmt (.empty line)) s .next s
  | other (line : Nat) (kind : String) (s : Session) :
      Idle (.stmt (.other line kind)) s .next
        (s.warned line s!"uncompilable statement {kind}; its effect is lost")
  | signature {f : FunctionDecl} (h : f.body = none) (s : Session) :
      Idle (.stmt (.function f)) s .next s
  | foreign {c : ClassDecl} (h : (c.isDeclared || c.isAbstract) = true) (s : Session) :
      Idle (.stmt (.classDef c)) s .next s
  /-- The id of the class is taken by a callable. -/
  | taken {c : ClassDecl} {s : Session} (h : s.decls.class? c.id = none)
      (hcontains : s.decls.contains c.id = true) : Idle (.stmt (.classDef c)) s .next s
  | bareReturn (line : Nat) (s : Session) : Idle (.stmt (.returning line none)) s .returned s
  | unknown {id : DeclId} {s : Session} (h : s.decls.callable? id = none) (line : Nat)
      (enclosing : Option ClassScope) (prologue : List Command) (body : List Stmt) :
      Idle (.callable id line enclosing prologue body) s .next s
  | field (info : ClassInfo) (m : Member)
      (h : ∀ p e slot, m = .property p → p.initializer = some e → info.fieldSlot? p.name ≠ some slot)
      (s : Session) : Idle (.field info m) s .next s
  | method (info : ClassInfo) (scope : ClassScope) (m : Member)
      (h : ∀ f isStatic, m = .method f isStatic → f.body = none) (s : Session)
      (hkind : ∀ line kind, m ≠ .other line kind) : Idle (.method info scope m) s .next s
  | otherMember (info : ClassInfo) (scope : ClassScope) (line : Nat) (kind : String) (s : Session) :
      Idle (.method info scope (.other line kind)) s .next
        (s.warned line s!"unsupported class member {kind} in `{info.name}`")

/-- Work that evaluates one expression, in a session that it may have prepared. -/
inductive Evaluation : Task → Session → Session → Use → Expr → Flow → Prop where
  | initializer {d : Declarator} {name : String} {e : Expr} (hname : d.binding = .identifier name)
      (he : d.initializer = some e) (s : Session) :
      Evaluation (.declarator d) s (s.withVariable name) (.stored (s.variableSlot name)) e .next
  | expression (line : Nat) (e : Expr) (s : Session) :
      Evaluation (.stmt (.expression line e)) s s .dropped e.unwrapped .next
  | returned (line : Nat) (e : Expr) {s : Session} {slot : String}
      (h : s.callable?.bind (·.returnSlot) = some slot) :
      Evaluation (.stmt (.returning line (some e))) s s (.stored slot) e .returned
  | discarded (line : Nat) (e : Expr) {s : Session} (h : s.callable?.bind (·.returnSlot) = none) :
      Evaluation (.stmt (.returning line (some e))) s
        (s.warned line "return value outside of a function is discarded") .dropped e .returned
  | field {info : ClassInfo} {p : Property} {e : Expr} {slot : String} (he : p.initializer = some e)
      (hslot : info.fieldSlot? p.name = some slot) (s : Session) :
      Evaluation (.field info (.property p)) s s (.stored slot) e .next

/-- A script of its own: where its body is lowered, what it declares to begin with, what it starts
with, and the name and line it is stored with. -/
structure Script where
  scope : LexicalScope
  slots : List String
  body : Task
  prologue : List Command
  name : String
  line : Nat

/-- The work is a script of its own. -/
inductive Opens : Task → Session → Script → Prop where
  | callable {id : DeclId} {s : Session} {k : Callable} (h : s.decls.callable? id = some k)
      (line : Nat) (enclosing : Option ClassScope) (prologue : List Command) (body : List Stmt) :
      Opens (.callable id line enclosing prologue body) s
        ⟨⟨some id, enclosing⟩, k.slots, .stmts body, prologue, k.script, line⟩
  | fields (info : ClassInfo) (scope : ClassScope) (ms : List Member) (line : Nat) (s : Session) :
      Opens (.fieldsScript info scope ms line) s
        ⟨⟨none, some scope⟩, info.fields.map (·.2), .fields info ms, [], classScript info.name, line⟩

/-- What happens on the way. -/
inductive Event where
  /-- An expression is lowered. -/
  | lowers (q : Surroundings) (e : Expr)
  /-- The body of a callable is reached. -/
  | hoists (id : DeclId)

/-- The event of entering a script. -/
def LexicalScope.entered (scope : LexicalScope) : List Event := (scope.owner.map .hoists).toList

/-- Entering a script lowers nothing. -/
theorem LexicalScope.lowers_notMem_entered (scope : LexicalScope) (q : Surroundings) (e : Expr) :
    .lowers q e ∉ scope.entered := by
  intro hin
  obtain ⟨id, -, hevent⟩ := Option.map_eq_some_iff.mp (Option.mem_toList.mp hin)
  cases hevent

/-- The successful runs of lowering. -/
inductive Runs : Task → Session → List Event → Emitted Flow → Session → Prop where
  | idle {task : Task} {s t : Session} {flow : Flow} (h : Idle task s flow t) :
      Runs task s [] ⟨[], flow⟩ t
  | seq {task first rest : Task} {s t u : Session} {log log' : List Event}
      {commands : List Command} {out : Emitted Flow} (hsplit : task.split = some (first, rest))
      (hfirst : Runs first s log ⟨commands, .next⟩ t) (hrest : Runs rest t log' out u) :
      Runs task s (log ++ log') ⟨commands ++ out.commands, out.value⟩ u
  | returned {st : Stmt} {s t : Session} {log : List Event} {commands : List Command}
      (rest : List Stmt) (hfirst : Runs (.stmt st) s log ⟨commands, .returned⟩ t) :
      Runs (.stmts (st :: rest)) s log ⟨commands, .returned⟩ (t.skipping rest)
  | inside {task inner : Task} {s t : Session} {log : List Event} {out : Emitted Flow}
      (hinside : task.inside = some inner) (h : Runs inner s log out t) : Runs task s log out t
  | declares {d : Declarator} {name : String} (hname : d.binding = .identifier name)
      (hinit : d.initializer = none) (s : Session) :
      Runs (.declarator d) s [] ⟨[], .next⟩ (s.withVariable name)
  | evaluates {task : Task} {s t : Session} {use : Use} {e : Expr} {flow : Flow}
      {commands : List Command} {fx : Effects} (htask : Evaluation task s t use e flow)
      (he : Evaluates t.toSurroundings use e t.toEffects commands fx) :
      Runs task s [.lowers t.toSurroundings e] ⟨commands, flow⟩ (t.withEffects fx)
  | function {f : FunctionDecl} {body : List Stmt} {s t u : Session} {log : List Event}
      {out : Emitted Flow} (hbody : f.body = some body) (hdeclared : FunctionDeclared s f t)
      (h : Runs (.callable f.id f.line t.scope.enclosing [] body)
        (t.warnedIf f.isAsync f.line "async function is lowered synchronously") log out u) :
      Runs (.stmt (.function f)) s log ⟨[], .next⟩ u
  | method {info : ClassInfo} {scope : ClassScope} {f : FunctionDecl} {isStatic : Bool}
      {body : List Stmt} {s t : Session} {log : List Event} {out : Emitted Flow}
      (hbody : f.body = some body)
      (h : Runs (.callable f.id f.line (some scope) [] body)
        (s.warnedIf f.isAsync f.line "async method is lowered synchronously") log out t) :
      Runs (.method info scope (.method f isStatic)) s log ⟨[], .next⟩ t
  | classDef {c : ClassDecl} {info : ClassInfo} {s t u : Session} {log : List Event}
      {out : Emitted Flow} (hown : (c.isDeclared || c.isAbstract) = false)
      (hdeclared : ClassDeclared s c t) (hinfo : t.decls.class? c.id = some info)
      (h : Runs (.members info ⟨info.name, c.parent⟩ c.members c.line) t log out u) :
      Runs (.stmt (.classDef c)) s log ⟨[], .next⟩ u
  | script {task : Task} {s t : Session} {script : Script} {log : List Event} {out : Emitted Flow}
      (hopens : Opens task s script)
      (h : Runs script.body (s.opened script.scope script.slots) log out t) :
      Runs task s (script.scope.entered ++ log) ⟨[], .next⟩
        ((s.closed t).stored script.name
          (declarations t.allocator.preamble ++ script.prologue ++ out.commands) script.line)
  | constructor {info : ClassInfo} {scope : ClassScope} {ms : List Member} {line : Nat} {id : DeclId}
      {bodyLine : Nat} {body : List Stmt} {s t : Session} {log : List Event} {out : Emitted Flow}
      (hfound : knownConstructor info ms = some (id, bodyLine, body))
      (h : Runs (.callable id bodyLine (some scope)
        [.invoke (s.qualify (classScript info.name))] body) s log out t) :
      Runs (.initializer info scope ms line) s log ⟨[], .next⟩ t
  | defaulted {info : ClassInfo} (scope : ClassScope) {ms : List Member} (line : Nat)
      (hnone : knownConstructor info ms = none) (s : Session) :
      Runs (.initializer info scope ms line) s [] ⟨[], .next⟩
        (s.stored (initScript info.name) [.invoke (s.qualify (classScript info.name))] line)

/-- Idle work at the front of other work leaves no trace. -/
theorem Runs.skip {task first rest : Task} {s t u : Session} {log : List Event} {out : Emitted Flow}
    (hsplit : task.split = some (first, rest)) (hidle : Idle first s .next t)
    (hrest : Runs rest t log out u) : Runs task s log out u := by
  have hseq := Runs.seq hsplit (.idle hidle) hrest
  exact hseq

/-! ## Steps that only warn -/

theorem Session.warnedIf_eq_noting (s : Session) (c : Bool) (line : Nat) (message : String) :
    ∃ ws, s.warnedIf c line message = s.noting ws := by
  cases c with
  | true => exact ⟨_, s.warned_eq_noting line message⟩
  | false => exact ⟨[], s.noting_nil.symm⟩

theorem Session.skipping_eq_noting (s : Session) (rest : List Stmt) :
    ∃ ws, s.skipping rest = s.noting ws := by
  cases rest with
  | nil => exact ⟨[], s.noting_nil.symm⟩
  | cons next others => exact ⟨_, s.warned_eq_noting _ _⟩

theorem Idle.eq_noting {task : Task} {s t : Session} {flow : Flow} (h : Idle task s flow t) :
    ∃ ws, t = s.noting ws := by
  cases h with
  | other line kind => exact ⟨_, s.warned_eq_noting _ _⟩
  | otherMember info scope line kind => exact ⟨_, s.warned_eq_noting _ _⟩
  | _ => exact ⟨[], s.noting_nil.symm⟩

/-- Before an expression is evaluated there is at most a warning or a new variable. -/
theorem Evaluation.prepared {task : Task} {s t : Session} {use : Use} {e : Expr} {flow : Flow}
    (h : Evaluation task s t use e flow) :
    (∃ ws, t = s.noting ws) ∨
      ∃ d name, task = .declarator d ∧ d.binding = .identifier name ∧ t = s.withVariable name := by
  cases h with
  | initializer hname _ => exact .inr ⟨_, _, rfl, hname, rfl⟩
  | expression line e => exact .inl ⟨[], s.noting_nil.symm⟩
  | returned line e _ => exact .inl ⟨[], s.noting_nil.symm⟩
  | discarded line e _ => exact .inl ⟨_, s.warned_eq_noting _ _⟩
  | field _ _ => exact .inl ⟨[], s.noting_nil.symm⟩

/-- The effects of evaluating an expression. -/
theorem Evaluates.extends {q : Surroundings} {use : Use} {e : Expr} {fx gx : Effects}
    {commands : List Command} (h : Evaluates q use e fx commands gx) : fx.Extends gx := by
  cases h with
  | dropped hrun =>
    have hkeeps := Lower.keeps_expr q e fx
    rw [hrun] at hkeeps
    exact hkeeps
  | stored slot hrun =>
    have hkeeps := Lower.keeps_expr q e fx
    rw [hrun] at hkeeps
    exact hkeeps
  | updated m fixity _ hop htarget => exact Lower.extends_updated q _ _ _ fx

/-- The frame depends on the unit alone. -/
theorem Surroundings.frame_congr {q q' : Surroundings} (h : q'.unit = q.unit) : q'.frame = q.frame := by
  rw [Surroundings.frame, Surroundings.frame, h]

/-- So do paths. -/
theorem Surroundings.qualify_congr {q q' : Surroundings} (h : q'.unit = q.unit) (script : String) :
    q'.qualify script = q.qualify script := by
  rw [Surroundings.qualify, Surroundings.qualify, h]

/-- Paths are made in the active frame. -/
theorem Surroundings.qualify_of_frame {q : Surroundings} {context : String} (h : q.frame = some context)
    (script : String) : q.qualify script = FrameScript.qualify context script := by
  unfold Surroundings.frame at h
  unfold Surroundings.qualify
  obtain ⟨unit, hunit, hcontext⟩ := Option.map_eq_some_iff.mp h
  rw [hunit, ← hcontext]

/-- Lowering ends where it began: in the same unit, callable and class. -/
theorem Runs.place_eq {task : Task} {s t : Session} {log : List Event} {out : Emitted Flow}
    (h : Runs task s log out t) : t.unit = s.unit ∧ t.scope = s.scope := by
  have hstored : ∀ (s : Session) (name : String) (body : List Command) (line : Nat),
      (s.stored name body line).unit = s.unit ∧ (s.stored name body line).scope = s.scope := by
    intro s name body line
    obtain ⟨ws, hws⟩ := s.stored_eq_noting name body line
    rw [hws]
    exact ⟨rfl, rfl⟩
  induction h with
  | idle h =>
    obtain ⟨ws, rfl⟩ := h.eq_noting
    exact ⟨rfl, rfl⟩
  | seq _ _ _ ihfirst ihrest => exact ⟨ihrest.1.trans ihfirst.1, ihrest.2.trans ihfirst.2⟩
  | @returned st s t log commands rest _ ih =>
    obtain ⟨ws, hws⟩ := t.skipping_eq_noting rest
    rw [hws]
    exact ih
  | inside _ _ ih => exact ih
  | declares _ _ s => exact ⟨rfl, rfl⟩
  | evaluates htask he =>
    rcases htask.prepared with ⟨ws, rfl⟩ | ⟨_, _, _, _, rfl⟩ <;> exact ⟨rfl, rfl⟩
  | @function f body s t u log out _ hdeclared _ ih =>
    obtain ⟨ws, hws⟩ := t.warnedIf_eq_noting f.isAsync f.line "async function is lowered synchronously"
    rw [hws] at ih
    have huntouched := Session.Untouched.function hdeclared
    exact ⟨ih.1.trans huntouched.unit, ih.2.trans huntouched.scope⟩
  | @method info scope f isStatic body s t log out _ _ ih =>
    obtain ⟨ws, hws⟩ := s.warnedIf_eq_noting f.isAsync f.line "async method is lowered synchronously"
    rw [hws] at ih
    exact ih
  | classDef _ hdeclared _ _ ih =>
    have huntouched := Session.Untouched.classDef hdeclared
    exact ⟨ih.1.trans huntouched.unit, ih.2.trans huntouched.scope⟩
  | script _ _ ih =>
    -- the scope of the script is left again
    exact ⟨(hstored _ _ _ _).1.trans ih.1, (hstored _ _ _ _).2⟩
  | constructor _ _ ih => exact ih
  | defaulted scope line _ s => exact hstored s _ _ _

end FrameScript
