/-
  Compiling units and lowering single expressions.

  A session compiles one unit after another.  Each starts with no symbols, declarations, warnings
  or scripts; only the counters of fresh names go on.  What was learned about names stays readable
  after a unit, so that an expression can be lowered against it, without a frame.
-/
import FrameScript.Lowering.Stmt

namespace FrameScript

open Source

/-- What a unit compiles to. -/
structure Compilation where
  context : String
  scripts : Scripts (List Command)
  warnings : List Diagnostic

namespace Session

/-- The primary script of a unit is named after its context and bracketed by its frame; functions
and classes have scripts of their own. -/
def lowerUnit (u : CompilationUnit) : SessionM Unit := do
  Declare.unit u.statements
  let body ← Lower.stmts u.statements
  let preamble ← modifyGet fun s =>
    let (preamble, allocator) := s.allocator.takePreamble
    (preamble, { s with allocator })
  let frame := (← get).frame
  SessionM.pushScript u.context (declarations preamble ++ frame.bracket body.commands) 1

/-- The session at the start of a unit: nothing is left of earlier units but the counters. -/
def begin (s : Session) (u : CompilationUnit) : Session :=
  { allocator := { s.allocator with preamble := [] }
    unit := some { file := u.fileName, context := u.context } }

/-- Compile a unit.  No unit is active afterwards, whether or not it compiled. -/
def compile (s : Session) (u : CompilationUnit) : Except LowerError Compilation × Session :=
  let (result, t) := (lowerUnit u).run (s.begin u)
  let t := { t with unit := none }
  match result with
  | .ok _ =>
    (.ok { context := u.context, scripts := t.scripts, warnings := t.warnings },
      { t with warnings := [] })
  | .error e => (.error e, t)

/-- Lower a single expression outside of any unit: the registers it needs, then its commands. -/
def lowerExpression (s : Session) (e : Expr) : Except LowerError (List Command) × Session :=
  let (preamble, allocator) := s.allocator.takePreamble
  let (result, fx) := (Lower.expr s.toSurroundings e).run { s.toEffects with allocator }
  let (names, allocator) := fx.allocator.swapPreamble preamble
  (result.map fun lowered => declarations names ++ lowered.commands,
    { s with toEffects := { fx with allocator } })

end Session

end FrameScript
