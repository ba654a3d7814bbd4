/-
  What is known about declarations.

  Before a body is lowered its declaration gets the registers that callers copy arguments into and
  read the result from.  They are kept by declaration id, so a call can be lowered before the body
  it calls.
-/
import FrameScript.Source.Stmt
import Std.Data.TreeMap

namespace FrameScript

open Source (DeclId)

/-- A parameter and the register that callers copy its argument into. -/
structure ParamSlot where
  /-- A pattern has no name. -/
  name : Option String
  slot : String
deriving Repr, DecidableEq

/-- A function, method or constructor. -/
structure Callable where
  /-- The name of its script within the unit. -/
  script : String
  /-- The path by which it is invoked. -/
  path : String
  params : List ParamSlot
  /-- The register of the returned value, if the body returns one. -/
  returnSlot : Option String
deriving Repr, DecidableEq

/-- The slot of the first parameter with a name. -/
def Callable.paramSlot? (c : Callable) (name : String) : Option String :=
  (c.params.find? (·.name = some name)).map (·.slot)

/-- A class. -/
structure ClassInfo where
  name : String
  path : String
  constructor : Option DeclId
  /-- Field names with their slots, in the order of declaration. -/
  fields : List (String × String)
deriving Repr, DecidableEq

/-- The slot of the first field with a name. -/
def ClassInfo.fieldSlot? (c : ClassInfo) (name : String) : Option String :=
  (c.fields.find? (·.1 = name)).map (·.2)

/-- What is known about one declaration. -/
inductive Declaration where
  | callable (c : Callable)
  | classInfo (c : ClassInfo)
deriving Repr, DecidableEq

/-- What is known about the declarations of a unit. -/
abbrev DeclTable := Std.TreeMap DeclId Declaration

namespace DeclTable

def callable? (t : DeclTable) (id : DeclId) : Option Callable :=
  match t[id]? with
  | some (.callable c) => some c
  | _ => none

def class? (t : DeclTable) (id : DeclId) : Option ClassInfo :=
  match t[id]? with
  | some (.classInfo c) => some c
  | _ => none

end DeclTable

end FrameScript
