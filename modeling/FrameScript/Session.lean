/-
  The state of a lowering session.

  A session lives through many units.  What an expression can see (`Surroundings`) and what it can
  change (`Effects`) are parts of their own: lowering an expression reads the one and writes only
  the other, so nothing else of a session can depend on it.
-/
import FrameScript.Allocator
import FrameScript.Declaration
import FrameScript.Diagnostic
import FrameScript.Scripts
import FrameScript.Symbol

namespace FrameScript

open Source (DeclId)

/-- The unit being compiled. -/
structure UnitContext where
  file : String
  /-- The frame tag, and the first part of the paths of the unit's scripts. -/
  context : String
deriving Repr, DecidableEq

/-- The class around the code being lowered. -/
structure ClassScope where
  name : String
  parent : Option String
deriving Repr, DecidableEq

/-- The callable and the class around the code being lowered. -/
structure LexicalScope where
  owner : Option DeclId := none
  enclosing : Option ClassScope := none
deriving Repr, DecidableEq

/-- What the meaning of an expression depends on. -/
structure Surroundings where
  symbols : SymbolTable := {}
  decls : DeclTable := ∅
  scope : LexicalScope := {}
  /-- The unit being compiled; none while a bare expression is lowered. -/
  unit : Option UnitContext := none

namespace Surroundings

/-- The active frame is the context of the unit being compiled. -/
def frame (s : Surroundings) : Frame := s.unit.map (·.context)

/-- The place of a message about a line. -/
def tracer (s : Surroundings) (line : Nat) : Tracer :=
  { line, file := (s.unit.map (·.file)).getD "<expression>" }

def error (s : Surroundings) (line : Nat) (cause : Cause) : LowerError :=
  { tracer := s.tracer line, cause }

def warning (s : Surroundings) (line : Nat) (message : String) : Diagnostic :=
  { severity := .warning, tracer := s.tracer line, message }

/-- The path of a script of the unit being compiled. -/
def qualify (s : Surroundings) (script : String) : String :=
  match s.unit with
  | some unit => FrameScript.qualify unit.context script
  | none => script

/-- The callable around the code being lowered. -/
def callable? (s : Surroundings) : Option Callable := s.scope.owner.bind s.decls.callable?

end Surroundings

/-- What lowering an expression changes: fresh names, and warnings, the last one last. -/
structure Effects where
  allocator : Allocator := {}
  warnings : List Diagnostic := []

/-- A session: what is seen, what is changed, and the scripts of the unit so far. -/
structure Session extends Surroundings, Effects where
  scripts : Scripts (List Command) := ∅

/-- Lowering of an expression: it may fail, and what it changed up to then stays changed. -/
abbrev Lowering := ExceptT LowerError (StateM Effects)

/-- Lowering of a statement, over the whole session. -/
abbrev SessionM := ExceptT LowerError (StateM Session)

/-- Commands, and what comes of them. -/
structure Emitted (α : Type) where
  commands : List Command
  value : α
deriving Repr, DecidableEq

namespace Effects

/-- A new anonymous register, declared by the current script. -/
def freshRegister : StateM Effects String :=
  modifyGet fun fx =>
    let (name, allocator) := fx.allocator.freshRegister
    (name, { fx with allocator })

def warn (warning : Diagnostic) : StateM Effects Unit :=
  modify fun fx => { fx with warnings := fx.warnings ++ [warning] }

end Effects

namespace SessionM

/-- Lower an expression inside a session. -/
def lift {α : Type} (action : Surroundings → Lowering α) : SessionM α :=
  ExceptT.mk fun s =>
    let (result, fx) := (action s.toSurroundings).run s.toEffects
    (result, { s with toEffects := fx })

def fail {α : Type} (line : Nat) (cause : Cause) : SessionM α := do
  throw ((← get).error line cause)

def warn (line : Nat) (message : String) : SessionM Unit :=
  modify fun s => { s with warnings := s.warnings ++ [s.warning line message] }

/-- A new id; things without a name get the default stem. -/
def freshId (stem : Option String) : SessionM String :=
  modifyGet fun s =>
    let (name, allocator) := s.allocator.freshId (stem.getD defaultStem)
    (name, { s with allocator })

/-- Let the current script declare a name. -/
def declare (name : String) : SessionM Unit :=
  modify fun s => { s with allocator := s.allocator.declare name }

/-- Give a name a meaning in the innermost scope. -/
def register (symbol : Symbol) : SessionM Unit :=
  modify fun s => { s with symbols := s.symbols.register symbol }

/-- Keep what is known about a declaration. -/
def record (id : DeclId) (declaration : Declaration) : SessionM Unit :=
  modify fun s => { s with decls := s.decls.insert id declaration }

/-- Store a script.  If its name is taken the new one stays, with a warning. -/
def pushScript (name : String) (body : List Command) (line : Nat) : SessionM Unit := do
  let replaced ← modifyGet fun s =>
    let (replaced, scripts) := s.scripts.push name body
    (replaced, { s with scripts })
  if replaced.isSome then
    warn line s!"script `{name}` is produced twice; the last one is kept"

end SessionM

end FrameScript
