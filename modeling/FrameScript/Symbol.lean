/-
  Names in scope.

  A symbol table takes source names to the paths and slots they stand for.  Scopes nest: the unit's
  own scope is at the bottom and never closes, and each script body opens one on top.  Giving a
  name a meaning overwrites its meaning in the innermost scope and shadows those further out.
  A name without a meaning stands for itself.
-/
import FrameScript.Source.Stmt
import Std.Data.TreeMap

namespace FrameScript

open Source (DeclId)

/-- What a name means. -/
inductive SymbolKind where
  | variableName
  | function
  | classDef
  | method
  | staticMethod
  | field
  | imported
  /-- A module as a whole: the path is the module's context. -/
  | namespaceName
deriving Repr, DecidableEq

/-- The meaning of a name. -/
structure Symbol where
  name : String
  path : String
  kind : SymbolKind
  /-- The declaration that the name comes from, if it is one of this unit. -/
  decl : Option DeclId := none
deriving Repr, DecidableEq

/-- The meanings given in one scope. -/
abbrev Scope := Std.TreeMap String Symbol

/-- The unit's scope and the scopes opened inside it, innermost first. -/
structure SymbolTable where
  unitScope : Scope := ∅
  inner : List Scope := []
deriving Inhabited

namespace SymbolTable

/-- Open a scope. -/
def enter (t : SymbolTable) : SymbolTable := { t with inner := ∅ :: t.inner }

/-- Close the innermost scope.  The unit's scope stays open. -/
def exit (t : SymbolTable) : SymbolTable := { t with inner := t.inner.tail }

/-- Drop every meaning and every scope inside the unit's. -/
def clear (t : SymbolTable) : SymbolTable := { t with unitScope := ∅, inner := [] }

/-- How many scopes are open inside the unit's. -/
def depth (t : SymbolTable) : Nat := t.inner.length

/-- Give a name a meaning in the innermost scope. -/
def register (t : SymbolTable) (symbol : Symbol) : SymbolTable :=
  match t.inner with
  | [] => { t with unitScope := t.unitScope.insert symbol.name symbol }
  | scope :: rest => { t with inner := scope.insert symbol.name symbol :: rest }

/-- The innermost meaning of a name. -/
def lookup (t : SymbolTable) (name : String) : Option Symbol :=
  (t.inner ++ [t.unitScope]).findSome? (·[name]?)

/-- The path of a name, or the name itself. -/
def resolve (t : SymbolTable) (name : String) : String :=
  match t.lookup name with
  | some symbol => symbol.path
  | none => name

/-- The name means a class. -/
def isClass (t : SymbolTable) (name : String) : Bool :=
  match t.lookup name with
  | some symbol => symbol.kind = .classDef
  | none => false

/-- How many meanings are held, shadowed ones included. -/
def size (t : SymbolTable) : Nat := t.inner.foldl (fun n scope => n + scope.size) t.unitScope.size

def isEmpty (t : SymbolTable) : Bool := t.unitScope.isEmpty && t.inner.all (·.isEmpty)

@[simp] theorem exit_enter (t : SymbolTable) : t.enter.exit = t := rfl

@[simp] theorem depth_enter (t : SymbolTable) : t.enter.depth = t.depth + 1 := rfl

@[simp] theorem depth_register (t : SymbolTable) (s : Symbol) : (t.register s).depth = t.depth := by
  unfold register depth
  split <;> simp_all

/-- The name just registered has the meaning just given. -/
@[simp] theorem lookup_register_self (t : SymbolTable) (s : Symbol) :
    (t.register s).lookup s.name = some s := by
  unfold register lookup
  split <;> simp_all

/-- No other name changes its meaning. -/
theorem lookup_register_other (t : SymbolTable) (s : Symbol) {name : String} (h : name ≠ s.name) :
    (t.register s).lookup name = t.lookup name := by
  unfold register lookup
  split <;> simp_all [List.findSome?_cons, Std.TreeMap.getElem?_insert, Ne.symm h]

end SymbolTable

/-! ## Names made from names -/

/-- The name under which a class member is registered. -/
def memberKey (className member : String) : String := className ++ member

/-- A script of a context, as `invoke` takes it. -/
def qualify (context script : String) : String := context ++ "/" ++ script

/-- The script of a method. -/
def methodScript (className method : String) : String := className ++ "_" ++ method

/-- The script of a constructor. -/
def initScript (className : String) : String := className ++ "_INIT"

/-- The script of the field initializers of a class. -/
def classScript (className : String) : String := className ++ "CLASS"

end FrameScript
