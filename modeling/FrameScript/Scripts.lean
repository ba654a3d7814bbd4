/-
  Scripts by name.

  The scripts of a unit, in the order of their names.  Storing a script under a name that is taken
  replaces the one that was there.
-/
import Std.Data.TreeMap

namespace FrameScript

/-- Bodies by script name, in name order. -/
abbrev Scripts (α : Type) := Std.TreeMap String α

namespace Scripts

variable {α : Type}

/-- Store a body; the one it replaces is given back. -/
def push (scripts : Scripts α) (name : String) (body : α) : Option α × Scripts α :=
  (scripts[name]?, scripts.insert name body)

@[simp] theorem getElem?_push_self (scripts : Scripts α) (name : String) (body : α) :
    (scripts.push name body).2[name]? = some body := by simp [push]

theorem getElem?_push_other (scripts : Scripts α) (body : α) {name other : String}
    (h : other ≠ name) : (scripts.push name body).2[other]? = scripts[other]? := by
  simp [push, Std.TreeMap.getElem?_insert, Ne.symm h]

end Scripts

end FrameScript
