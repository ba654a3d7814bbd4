/-
  JSON values.

  The fields of an object are a list of names with values, in the order of their first appearance.
  `putField` keeps the names distinct, so that looking a name up finds its only value.
-/
import FrameScript.Binary64

namespace FrameScript.Json

/-- A number is an exact integer when its literal has neither point nor exponent and fits in 64
bits; any other literal is a double. -/
inductive Number where
  | integer (n : Int)
  | double (x : Binary64)
deriving Repr, DecidableEq, Inhabited

/-- The double nearest to a number. -/
def Number.toDouble : Number → Binary64
  | .integer n => .ofInt n
  | .double x => x

/-- A JSON value. -/
inductive Value where
  | null
  | bool (b : Bool)
  | number (n : Number)
  | string (s : String)
  | array (items : List Value)
  | object (fields : List (String × Value))
deriving Repr, Inhabited

/-- The fields of an object. -/
abbrev Fields := List (String × Value)

/-- The value of the first field with a name. -/
def Fields.get? : Fields → String → Option Value
  | [], _ => none
  | (n, v) :: rest, name => if n = name then some v else Fields.get? rest name

/-- Give a field a value: a name that is there keeps its place, a new one goes to the end. -/
def Fields.put : Fields → String → Value → Fields
  | [], name, value => [(name, value)]
  | (n, v) :: rest, name, value =>
    if n = name then (n, value) :: rest else (n, v) :: Fields.put rest name value

theorem Fields.get?_put_self (fields : Fields) (name : String) (value : Value) :
    (fields.put name value).get? name = some value := by
  induction fields with
  | nil => simp [put, get?]
  | cons f rest ih => by_cases h : f.1 = name <;> simp [put, get?, h, ih]

theorem Fields.get?_put_other (fields : Fields) {name other : String} (value : Value)
    (h : other ≠ name) : (fields.put name value).get? other = fields.get? other := by
  induction fields with
  | nil => simp [put, get?, Ne.symm h]
  | cons f rest ih => by_cases hf : f.1 = name <;> simp_all [put, get?, Ne.symm h]

namespace Value

/-- The natural number that a value stands for.  A double never does, not even a whole one. -/
def natural? : Value → Option Nat
  | .number (.integer (.ofNat n)) => some n
  | _ => none

def string? : Value → Option String
  | .string s => some s
  | _ => none

def ofNat (n : Nat) : Value := .number (.integer n)

/-- A text, or `null` where there is none. -/
def ofOption : Option String → Value
  | some s => .string s
  | none => .null

end Value

end FrameScript.Json
