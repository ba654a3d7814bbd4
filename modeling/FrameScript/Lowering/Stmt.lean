/-
  Lowering of statements.

  Functions and classes are hoisted: their bodies become scripts of their own and leave nothing
  behind in the enclosing script.  A hoisted script has its own preamble, its own symbol scope and
  its own lexical scope, and those of the enclosing script are as before when it is done.
-/
import FrameScript.Lowering.Declare
import FrameScript.Lowering.Expr

namespace FrameScript

open Source

/-- Whether the statements after a statement are reached. -/
inductive Flow where
  | next
  | returned
deriving Repr, DecidableEq

namespace Lower

open SessionM (lift declare freshId register pushScript)

/-! ## Statements without bodies -/

/-- One variable: a slot, which takes the value of the initializer. -/
def declarator (d : Declarator) : SessionM (List Command) := do
  match d.binding with
  | .pattern => SessionM.fail d.line .destructuringDeclaration
  | .identifier name =>
    let slot ← freshId (some name)
    declare slot
    register { name, path := slot, kind := .variableName }
    match d.initializer with
    | none => return []
    | some e => lift fun s => do
      let lowered ← value s e
      return lowered.commands ++ [assign s slot lowered.value]

/-- The variables of a statement, in order. -/
def declarators : List Declarator → SessionM (List Command)
  | [] => return []
  | d :: rest => do
    let commands ← declarator d
    return commands ++ (← declarators rest)

/-- An expression may stand alone if it can have an effect.  Exclusive or is let through here, to be
refused with a message of its own. -/
def isEffect : Expr → Bool
  | .call .. | .construct .. | .await .. => true
  | .unary _ op .. => op.isUpdate
  | .binary _ _ op _ => op.isAssignment || op.isXor
  | _ => false

/-- An expression as a statement.  Its value is dropped, so an update needs no copy of the old
value. -/
def expressionStmt (s : Surroundings) (e : Expr) : Lowering (List Command) := do
  let root := e.unwrapped
  if !isEffect root then
    fail s root.line (.invalidExpressionStatement root.kindName)
  match root with
  | .unary mark op _ operand => return (← update s mark.line op operand false).commands
  | root => return (← expr s root).commands

/-- A return.  The value goes into the return slot of the enclosing callable; where there is none
it is evaluated and dropped. -/
def returned (s : Surroundings) (line : Nat) : Option Expr → Lowering (List Command)
  | none => return []
  | some e => do
    match s.callable?.bind (·.returnSlot) with
    | some slot =>
      let lowered ← value s e
      return lowered.commands ++ [assign s slot lowered.value]
    | none =>
      warn s line "return value outside of a function is discarded"
      return (← expr s e).commands

/-! ## Hoisting -/

/-- Lower into a script of its own: what it declares, then the prologue, then its commands.  The
enclosing preamble and scopes are restored whether or not the lowering succeeds. -/
def inScript (scope : LexicalScope) (prologue : List Command) (body : SessionM (List Command)) :
    SessionM (List Command) :=
  ExceptT.mk fun s =>
    let inner := { s with
      allocator := { s.allocator with preamble := [] }
      scope
      symbols := s.symbols.enter }
    let (result, t) := body.run inner
    let outer := { t with
      allocator := { t.allocator with preamble := s.allocator.preamble }
      scope := s.scope
      symbols := t.symbols.exit }
    (result.map fun commands => declarations t.allocator.preamble ++ prologue ++ commands, outer)

/-- The script of a callable around the lowering of its body: it declares the parameter slots, then
the return slot. -/
def callableScript (id : DeclId) (line : Nat) (enclosing : Option ClassScope)
    (prologue : List Command) (body : SessionM (Emitted Flow)) : SessionM Unit := do
  match (← get).decls.callable? id with
  | none => return
  | some callable =>
    let script ← inScript { owner := some id, enclosing } prologue do
      callable.params.forM fun param => declare param.slot
      callable.returnSlot.forM declare
      return (← body).commands
    pushScript callable.script script line

/-- The initializers of a class's properties, each stored into the slot of its field. -/
def fields (s : Surroundings) (info : ClassInfo) : List Member → Lowering (List Command)
  | [] => return []
  | .property p :: rest => do
    match p.initializer, info.fieldSlot? p.name with
    | some e, some slot =>
      let lowered ← value s e
      let commands := lowered.commands ++ [assign s slot lowered.value]
      return commands ++ (← fields s info rest)
    | _, _ => fields s info rest
  | _ :: rest => fields s info rest

/-- The script of a class: it declares the slots of all fields and runs the initializers. -/
def fieldsScript (info : ClassInfo) (scope : ClassScope) (members : List Member) (line : Nat) :
    SessionM Unit := do
  let script ← inScript { enclosing := some scope } [] do
    info.fields.forM fun field => declare field.2
    lift fun s => fields s info members
  pushScript (classScript info.name) script line

mutual

/-- Statements in order, up to the first that returns. -/
def stmts : List Stmt → SessionM (Emitted Flow)
  | [] => return ⟨[], .next⟩
  | first :: rest => do
    let lowered ← stmt first
    match lowered.value with
    | .returned =>
      if let next :: _ := rest then
        SessionM.warn next.line
          s!"unreachable code: {rest.length} statement(s) after return are skipped"
      return lowered
    | .next =>
      let others ← stmts rest
      return ⟨lowered.commands ++ others.commands, others.value⟩

/-- One statement. -/
def stmt : Stmt → SessionM (Emitted Flow)
  | .block _ body => stmts body
  | .imports .. => return ⟨[], .next⟩
  | .bindings _ ds => return ⟨← declarators ds, .next⟩
  | .expression _ e => return ⟨← lift (expressionStmt · e), .next⟩
  | .function f => do
    function f
    return ⟨[], .next⟩
  | .classDef c => do
    classDef c
    return ⟨[], .next⟩
  | .returning line value => return ⟨← lift (returned · line value), .returned⟩
  | .typeOnly _ => return ⟨[], .next⟩
  | .empty _ => return ⟨[], .next⟩
  | .other line kind => do
    SessionM.warn line s!"uncompilable statement {kind}; its effect is lost"
    return ⟨[], .next⟩

/-- A function, declared first if it is not yet. -/
def function : FunctionDecl → SessionM Unit
  | ⟨id, name, params, some body, isAsync, line⟩ => do
    Declare.function ⟨id, name, params, some body, isAsync, line⟩
    if isAsync then SessionM.warn line "async function is lowered synchronously"
    let enclosing := (← get).scope.enclosing
    callableScript id line enclosing [] (stmts body)
  | ⟨_, _, _, none, _, _⟩ => return

/-- A class: its fields, its constructor, which starts by running the field initializers, and its
methods.  A class without a constructor gets one that does nothing else. -/
def classDef : ClassDecl → SessionM Unit
  | ⟨id, name, parent, isDeclared, isAbstract, members, line⟩ => do
    if isDeclared || isAbstract then return
    Declare.classDef ⟨id, name, parent, isDeclared, isAbstract, members, line⟩
    match (← get).decls.class? id with
    | none => return
    | some info =>
      let scope : ClassScope := { name := info.name, parent }
      fieldsScript info scope members line
      let prologue := [Command.invoke ((← get).qualify (classScript info.name))]
      unless ← constructor info scope prologue members do
        pushScript (initScript info.name) prologue line
      methods info scope members

/-- The constructor that is known for the class; false if the class has none. -/
def constructor (info : ClassInfo) (scope : ClassScope) (prologue : List Command) :
    List Member → SessionM Bool
  | [] => return false
  | .constructor ⟨id, _, _, body, _, line⟩ :: rest => do
    if info.constructor = some id then
      match body with
      | some body =>
        callableScript id line (some scope) prologue (stmts body)
        return true
      | none => return false
    else constructor info scope prologue rest
  | _ :: rest => constructor info scope prologue rest

/-- The methods of a class, in order; members of unknown kind are reported. -/
def methods (info : ClassInfo) (scope : ClassScope) : List Member → SessionM Unit
  | [] => return
  | .method ⟨id, _, _, some body, isAsync, line⟩ _ :: rest => do
    if isAsync then SessionM.warn line "async method is lowered synchronously"
    callableScript id line (some scope) [] (stmts body)
    methods info scope rest
  | .other line kind :: rest => do
    SessionM.warn line s!"unsupported class member {kind} in `{info.name}`"
    methods info scope rest
  | _ :: rest => methods info scope rest

end

end Lower

end FrameScript
