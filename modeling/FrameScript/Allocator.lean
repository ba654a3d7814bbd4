/-
  Fresh names.

  Two counters that only grow: one numbers the ids made from source names, one the anonymous
  registers.  Compiling does not start them over, so the names made for different units of one
  session never meet.  Beside the counters stands the preamble, the names that the script being
  lowered has to declare.
-/
import FrameScript.Command

namespace FrameScript

/-- The counters and the preamble of the current script. -/
structure Allocator where
  /-- How many ids have been made. -/
  ids : Nat := 0
  /-- How many anonymous registers have been made. -/
  registers : Nat := 0
  /-- The names to declare, in order. -/
  preamble : List String := []
deriving Repr, DecidableEq, Inhabited

/-- The stem of ids made for things without a name. -/
def defaultStem : String := "TS"

/-- `stem_N` -/
def mintedId (stem : String) (n : Nat) : String := stem ++ "_" ++ toString n

/-- `registerN` -/
def mintedRegister (n : Nat) : String := "register" ++ toString n

/-- The commands that declare some names. -/
def declarations (names : List String) : List Command := names.map .declare

namespace Allocator

/-- Add a name to the current preamble. -/
def declare (a : Allocator) (name : String) : Allocator :=
  { a with preamble := a.preamble ++ [name] }

/-- A new id.  It is not declared. -/
def freshId (a : Allocator) (stem : String) : String × Allocator :=
  (mintedId stem (a.ids + 1), { a with ids := a.ids + 1 })

/-- A new anonymous register, declared in the current preamble. -/
def freshRegister (a : Allocator) : String × Allocator :=
  let name := mintedRegister (a.registers + 1)
  (name, { a with registers := a.registers + 1 }.declare name)

/-- Install a preamble; the old one is given back. -/
def swapPreamble (a : Allocator) (names : List String) : List String × Allocator :=
  (a.preamble, { a with preamble := names })

/-- Empty the preamble; the old one is given back. -/
def takePreamble (a : Allocator) : List String × Allocator := a.swapPreamble []

end Allocator

end FrameScript
