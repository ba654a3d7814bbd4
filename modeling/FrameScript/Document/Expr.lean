/-
  Expressions of a source document.

  The loader follows the JSON tree itself: a field is found by walking the fields of its node, so
  every value it descends into is a part of the value it was given.  Of several fields with one
  name the first counts.
-/
import FrameScript.Decimal.Reader
import FrameScript.Document.Field

namespace FrameScript.Document

open Json (Value Fields)
open Source

/-- The value of a number literal, given as a number or as text. -/
def number (node : Fields) (kind : String) (line : Nat) : Loader Binary64 :=
  match node.get? "value" with
  | some (.number n) => return n.toDouble
  | some (.string s) =>
    match Decimal.readDouble? s with
    | some x => return x
    | none => invalid kind "value" "a number"
  | _ => throw (.missingField kind "value" line)

mutual

/-- An expression node.  Kinds without a form of their own are kept by name. -/
def expr (inherited : Nat) : Value → Loader Expr
  | .object node => do
    let (kind, line) ← enter node "expression" inherited
    let type ← text? node kind "type"
    let mark : Mark := { line, type }
    match kind with
    | "NumericLiteral" => return .number mark (← number node kind line)
    | "TrueKeyword" => return .boolean mark true
    | "FalseKeyword" => return .boolean mark false
    | "NullKeyword" => return .null mark
    | "ThisKeyword" => return .this mark
    | "SuperKeyword" => return .super mark
    | "Identifier" => return .identifier mark (← text node kind "name")
    | "BinaryExpression" =>
      let op := BinaryOp.ofToken (← text node kind "operator")
      let left ← exprField kind "left" line node
      let right ← exprField kind "right" line node
      return .binary mark left op right
    | "PrefixUnaryExpression" =>
      let op := UnaryOp.ofToken (← text node kind "operator")
      return .unary mark op .before (← exprField kind "operand" line node)
    | "PostfixUnaryExpression" =>
      let op := UnaryOp.ofToken (← text node kind "operator")
      return .unary mark op .after (← exprField kind "operand" line node)
    | "CallExpression" =>
      let callee ← exprField kind "expression" line node
      return .call mark callee (← argumentsField kind line node)
    | "NewExpression" =>
      let callee ← exprField kind "expression" line node
      return .construct mark callee (← argumentsField kind line node)
    | "PropertyAccessExpression" =>
      let name ← text node kind "name"
      return .member mark (← exprField kind "expression" line node) name
    | "AwaitExpression" => return .await mark (← exprField kind "expression" line node)
    | "ParenthesizedExpression" | "AsExpression" | "NonNullExpression"
    | "TypeAssertionExpression" =>
      return .wrapped mark (← exprField kind "expression" line node)
    | _ => return .unsupported mark kind
  | _ => throw (.notAnObject "an expression" inherited)

/-- The expression in a field that has to be there. -/
def exprField (kind field : String) (line : Nat) : List (String × Value) → Loader Expr
  | [] => throw (.missingField kind field line)
  | (name, value) :: rest =>
    if name = field then
      match value with
      | .null => throw (.missingField kind field line)
      | value => expr line value
    else exprField kind field line rest

/-- The expressions of the `arguments` field; a missing one has none. -/
def argumentsField (kind : String) (line : Nat) : List (String × Value) → Loader (List Expr)
  | [] => return []
  | (name, value) :: rest =>
    if name = "arguments" then
      match value with
      | .array values => exprs line values
      | .null => return []
      | _ => invalid kind "arguments" "an array"
    else argumentsField kind line rest

/-- The items of an array, left to right. -/
def exprs (line : Nat) : List Value → Loader (List Expr)
  | [] => return []
  | value :: rest => return (← expr line value) :: (← exprs line rest)

end

/-- The expression in a field that may be missing. -/
def exprField? (node : Fields) (field : String) (line : Nat) : Loader (Option Expr) :=
  match node.get? field with
  | some .null | none => return none
  | some value => return some (← expr line value)

end FrameScript.Document
