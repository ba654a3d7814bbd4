/-
  Fields of a source document.

  A source document is a JSON tree whose nodes are objects with a `kind`.  A node's line is its own
  `line` field when that is a natural number below `2 ^ 32`, and otherwise the line it inherits.
  Optional fields may be missing or `null`; any other value of the wrong sort is refused, with the
  line on which the loader stands.
-/
import FrameScript.Json.Reader
import FrameScript.Source.Builder

namespace FrameScript.Document

open Json (Value Fields)
open Source

/-- Why a document has no unit. -/
inductive LoadError where
  /-- The text is not JSON. -/
  | notJson (cause : Json.ReadError)
  | notAnObject (what : String) (line : Nat)
  | missingField (kind field : String) (line : Nat)
  | invalidField (kind field expected : String) (line : Nat)
deriving Repr, DecidableEq

def LoadError.message : LoadError → String
  | .notJson cause => "invalid document: " ++ cause.message
  | .notAnObject what line => s!"line {line}: expected a JSON object for {what}"
  | .missingField kind field line => s!"line {line}: {kind} is missing field `{field}`"
  | .invalidField kind field expected line =>
    s!"line {line}: field `{field}` of {kind} must be {expected}"

/-- Building that can meet a faulty document. -/
abbrev Loader := StateT Cursor (Except LoadError)

instance : MonadLift Builder Loader := ⟨fun action cursor => .ok (action cursor)⟩

/-- Refuse a field, on the line where the loader stands. -/
def invalid {α : Type} (kind field expected : String) : Loader α := do
  throw (.invalidField kind field expected (← Builder.line))

/-- Lines are below `2 ^ 32`. -/
def lineLimit : Nat := 0x100000000

/-- The line of a node, inherited unless it has a valid one of its own. -/
def nodeLine (node : Fields) (inherited : Nat) : Nat :=
  match (node.get? "line").bind Value.natural? with
  | some line => if line < lineLimit then line else inherited
  | none => inherited

/-- Enter a node: stand on its line, and give its kind and its line. -/
def enter (node : Fields) (what : String) (inherited : Nat) : Loader (String × Nat) := do
  let line := nodeLine node inherited
  Builder.moveTo line
  match node.get? "kind" with
  | some (.string kind) => return (kind, line)
  | _ => throw (.missingField what "kind" line)

/-- A text that has to be there. -/
def text (node : Fields) (kind field : String) : Loader String := do
  match node.get? field with
  | some (.string s) => return s
  | some _ => invalid kind field "a string"
  | none => throw (.missingField kind field (← Builder.line))

/-- A text that may be missing. -/
def text? (node : Fields) (kind field : String) : Loader (Option String) :=
  match node.get? field with
  | some (.string s) => return some s
  | some .null | none => return none
  | some _ => invalid kind field "a string"

/-- A truth value; a missing one is false. -/
def flag (node : Fields) (kind field : String) : Loader Bool :=
  match node.get? field with
  | some (.bool b) => return b
  | some .null | none => return false
  | some _ => invalid kind field "a boolean"

/-- The items of an array; a missing one is empty. -/
def items (node : Fields) (kind field : String) : Loader (List Value) :=
  match node.get? field with
  | some (.array values) => return values
  | some .null | none => return []
  | some _ => invalid kind field "an array"

/-- The fields of a value that has to be an object. -/
def object (value : Value) (what : String) (line : Nat) : Loader Fields :=
  match value with
  | .object node => return node
  | _ => throw (.notAnObject what line)

end FrameScript.Document
