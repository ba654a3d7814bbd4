/-
  Writing JSON text, on one line or indented by two spaces a level.

  Fields are written in the order they have.  A number that is not finite is written as `null`.
-/
import FrameScript.Decimal.Layout
import FrameScript.Json.Value

namespace FrameScript.Json

/-- Doubles always show a point or an exponent.  They are written positionally while the leading
digit stands between the fifth place behind the point and the sixteenth place before it. -/
def numberLayout : Decimal.Layout where
  positional e := -5 ≤ e && e ≤ 15
  pointOnWhole := true
  tie := .toEven
  nan := "null"
  infinite _ := "null"

def Number.write : Number → String
  | .integer n => toString n
  | .double x => numberLayout.write x

/-- The two lower-case hexadecimal digits of a control character. -/
def hexPair (c : Char) : String :=
  let digit (n : Nat) := Char.ofNat (if n < 10 then '0'.toNat + n else 'a'.toNat + n - 10)
  String.ofList [digit (c.toNat / 16), digit (c.toNat % 16)]

/-- A character inside quotes.  Only the quote, the backslash and control characters under U+0020
are escaped. -/
def escape (c : Char) : String :=
  if c = '"' then "\\\""
  else if c = '\\' then "\\\\"
  else if c = '\x08' then "\\b"
  else if c = '\x0c' then "\\f"
  else if c = '\n' then "\\n"
  else if c = '\r' then "\\r"
  else if c = '\t' then "\\t"
  else if c.toNat < 0x20 then "\\u00" ++ hexPair c
  else String.singleton c

/-- A text in quotes. -/
def quote (s : String) : String :=
  s.toList.foldl (fun out c => out ++ escape c) "\"" ++ "\""

namespace Value

mutual

/-- The value on one line, without blanks. -/
def compact : Value → String
  | .null => "null"
  | .bool b => if b then "true" else "false"
  | .number n => n.write
  | .string s => quote s
  | .array items => "[" ++ compactItems items ++ "]"
  | .object fields => "\x7b" ++ compactFields fields ++ "\x7d"

def compactItems : List Value → String
  | [] => ""
  | [v] => v.compact
  | v :: w :: rest => v.compact ++ "," ++ compactItems (w :: rest)

def compactFields : List (String × Value) → String
  | [] => ""
  | [(n, v)] => quote n ++ ":" ++ v.compact
  | (n, v) :: f :: rest => quote n ++ ":" ++ v.compact ++ "," ++ compactFields (f :: rest)

end

/-- The blanks that open a line `depth` levels down. -/
def indent (depth : Nat) : String := String.ofList (List.replicate (2 * depth) ' ')

mutual

/-- The value with every item and field on a line of its own, inside `depth` levels. -/
def prettyAt (depth : Nat) : Value → String
  | .null => "null"
  | .bool b => if b then "true" else "false"
  | .number n => n.write
  | .string s => quote s
  | .array [] => "[]"
  | .array (v :: rest) =>
    "[\n" ++ prettyItems (depth + 1) (v :: rest) ++ "\n" ++ indent depth ++ "]"
  | .object [] => "\x7b\x7d"
  | .object (f :: rest) =>
    "\x7b\n" ++ prettyFields (depth + 1) (f :: rest) ++ "\n" ++ indent depth ++ "\x7d"

def prettyItems (depth : Nat) : List Value → String
  | [] => ""
  | [v] => indent depth ++ v.prettyAt depth
  | v :: w :: rest => indent depth ++ v.prettyAt depth ++ ",\n" ++ prettyItems depth (w :: rest)

def prettyFields (depth : Nat) : List (String × Value) → String
  | [] => ""
  | [(n, v)] => indent depth ++ quote n ++ ": " ++ v.prettyAt depth
  | (n, v) :: f :: rest =>
    indent depth ++ quote n ++ ": " ++ v.prettyAt depth ++ ",\n" ++ prettyFields depth (f :: rest)

end

/-- The value over several lines, indented by two spaces a level. -/
def pretty (v : Value) : String := v.prettyAt 0

end Value

end FrameScript.Json
