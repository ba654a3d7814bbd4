/-
  Warnings and errors of lowering.

  Every message points at the source line that caused it.  An error names its cause; the wording is
  in `Cause.message` alone.
-/
import FrameScript.Json.Value

namespace FrameScript

/-- The place a message points at. -/
structure Tracer where
  line : Nat
  file : String
deriving Repr, DecidableEq

def Tracer.text (t : Tracer) : String := s!"[line {t.line}] {t.file}:"

inductive Severity where
  | warning
  | error
deriving Repr, DecidableEq

def Severity.text : Severity → String
  | .warning => "warning"
  | .error => "error"

/-- A message with its place. -/
structure Diagnostic where
  severity : Severity
  tracer : Tracer
  message : String
deriving Repr, DecidableEq

namespace Diagnostic

def text (d : Diagnostic) : String := s!"{d.tracer.text} {d.severity.text}: {d.message}"

def toJson (d : Diagnostic) : Json.Value :=
  .object
    [("severity", .string d.severity.text), ("line", .ofNat d.tracer.line),
      ("file", .string d.tracer.file), ("message", .string d.message)]

end Diagnostic

/-- Why a unit cannot be lowered. -/
inductive Cause where
  | bitwiseXor (op : String)
  | await
  | nullLiteral
  | restParameter (name : String)
  | thisOutsideClass
  | superOutsideDerivedClass
  | invalidExpressionStatement (kind : String)
  | unsupportedExpression (kind : String)
  | unsupportedOperator (op : String)
  | notAssignable (kind : String)
  | noValue (kind : String)
  | unsupportedExponent
  | unknownMember (owner member : String)
  | destructuringDeclaration
deriving Repr, DecidableEq

def Cause.message : Cause → String
  | .bitwiseXor op => s!"bitwise XOR `{op}` is not supported; did you mean `**` or `**=`?"
  | .await => "`await` is not supported: the target cannot suspend a script"
  | .nullLiteral => "`null` has no register representation"
  | .restParameter name => s!"rest parameter `...{name}` is not supported"
  | .thisOutsideClass => "`this` can only be used inside a class"
  | .superOutsideDerivedClass =>
    "`super` can only be used inside a class that extends another class"
  | .invalidExpressionStatement kind =>
    s!"expression statement must be an assignment or a call, found {kind}"
  | .unsupportedExpression kind => s!"unsupported expression kind {kind}"
  | .unsupportedOperator op =>
    s!"operator `{op}` is not supported; only assignment operators, `++` and `--` are lowered"
  | .notAssignable kind => s!"{kind} cannot be assigned to"
  | .noValue kind => s!"{kind} does not produce a value"
  | .unsupportedExponent => "`**=` only supports the literal exponent 2"
  | .unknownMember owner member => s!"`{owner}` has no member `{member}`"
  | .destructuringDeclaration => "destructuring declarations are not supported"

/-- The error that ends a lowering. -/
structure LowerError where
  tracer : Tracer
  cause : Cause
deriving Repr, DecidableEq

namespace LowerError

def line (e : LowerError) : Nat := e.tracer.line

def text (e : LowerError) : String := s!"{e.tracer.text} {e.cause.message}"

/-- The error as a diagnostic. -/
def toDiagnostic (e : LowerError) : Diagnostic :=
  { severity := .error, tracer := e.tracer, message := e.cause.message }

end LowerError

end FrameScript
