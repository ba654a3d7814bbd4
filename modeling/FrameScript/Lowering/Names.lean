/-
  What names stand for.

  Identifiers, members and callees are resolved against the surroundings without emitting a
  command.  A parameter of the enclosing callable comes before all symbols, and a name without a
  meaning stands for itself.
-/
import FrameScript.Session
import FrameScript.Text.Blank

namespace FrameScript

open Source

/-- What a call invokes: a path, and the declaration behind it where it is one of this unit. -/
structure Callee where
  path : String
  decl : Option DeclId := none
deriving Repr, DecidableEq

/-- The class of a static type: `Box<number>` is an instance of `Box`. -/
def typeOwner (type : String) : String :=
  String.ofList (Text.trim (type.toList.takeWhile (· ≠ '<')))

/-- The name by which a message calls an object of unknown class. -/
def objectName (object : Expr) : String :=
  match object.unwrapped with
  | .identifier _ name => name
  | root => root.kindName

namespace Surroundings

variable (s : Surroundings)

/-- The slot of a parameter of the enclosing callable. -/
def paramSlot? (name : String) : Option String :=
  s.callable?.bind (·.paramSlot? name)

/-- The slot of an identifier. -/
def identifierSlot (name : String) : String :=
  (s.paramSlot? name).getD (s.symbols.resolve name)

/-- The class that `this` belongs to. -/
def enclosingClass (line : Nat) : Except LowerError ClassScope :=
  match s.scope.enclosing with
  | some scope => .ok scope
  | none => .error (s.error line .thisOutsideClass)

/-- The class that `super` belongs to. -/
def parentClass (line : Nat) : Except LowerError String :=
  match s.scope.enclosing.bind (·.parent) with
  | some parent => .ok parent
  | none => .error (s.error line .superOutsideDerivedClass)

/-- The class that owns the members of an object, where it is known. -/
def memberOwner? (object : Expr) : Except LowerError (Option String) :=
  match object.unwrapped with
  | .this mark => (s.enclosingClass mark.line).map fun scope => some scope.name
  | .identifier mark name =>
    .ok (if s.symbols.isClass name then some name else mark.type.map typeOwner)
  | root => .ok (root.type.map typeOwner)

/-- The context of a module that was imported as a whole. -/
def namespace? (object : Expr) : Option String :=
  match object.unwrapped with
  | .identifier _ name =>
    match s.symbols.lookup name with
    | some symbol => if symbol.kind = .namespaceName then some symbol.path else none
    | none => none
  | _ => none

/-- The slot of `object.name` where the class of the object is given. -/
def ownedSlot (owner : String) (object : Expr) (name : String) : Except LowerError String :=
  match s.symbols.lookup (memberKey owner name) with
  | some symbol => .ok symbol.path
  | none => .error (s.error object.line (.unknownMember owner name))

/-- The slot of `object.name`. -/
def memberSlot (object : Expr) (name : String) : Except LowerError String := do
  match ← s.memberOwner? object with
  | some owner => s.ownedSlot owner object name
  | none =>
    match s.namespace? object with
    | some module => return FrameScript.qualify module name
    | none => s.ownedSlot (objectName object) object name

/-- The slot on the left of an assignment or under an update. -/
def targetSlot (target : Expr) : Except LowerError String :=
  match target.unwrapped with
  | .identifier _ name => .ok (s.identifierSlot name)
  | .member _ object name => s.memberSlot object name
  | .this mark => do
    let _ ← s.enclosingClass mark.line
    throw (s.error mark.line (.notAssignable (Expr.this mark).kindName))
  | root => .error (s.error root.line (.notAssignable root.kindName))

/-- The callee of a plain function call. -/
def functionCallee (name : String) : Callee :=
  match s.paramSlot? name with
  | some slot => { path := slot }
  | none =>
    match s.symbols.lookup name with
    | some symbol => { path := symbol.path, decl := symbol.decl }
    | none => { path := name }

/-- The callee of `object.name(...)` where the class of the object gives one: a member of a class
of this unit, or a method of a class that is known by name only. -/
def ownedCallee? (owner name : String) : Option Callee :=
  match s.symbols.lookup (memberKey owner name) with
  | some symbol => some { path := symbol.path, decl := symbol.decl }
  | none =>
    if (s.symbols.lookup owner).isSome then
      some { path := methodScript (s.symbols.resolve owner) name }
    else none

/-- The callee of `object.name(...)`. -/
def methodCallee (object : Expr) (name : String) : Except LowerError Callee := do
  let owner ← s.memberOwner? object
  match owner.bind (s.ownedCallee? · name) with
  | some callee => return callee
  | none =>
    match s.namespace? object with
    | some module => return { path := FrameScript.qualify module name }
    | none => return { path := s.symbols.resolve name }

/-- The constructor of a class of this unit. -/
def constructorDecl? (className : String) : Option DeclId := do
  let symbol ← s.symbols.lookup className
  guard (symbol.kind = .classDef)
  let info ← s.decls.class? (← symbol.decl)
  info.constructor

/-- The callee of `new className(...)`, and of `super(...)` in a class that extends it. -/
def constructorCallee (className : String) : Callee :=
  { path := initScript (s.symbols.resolve className), decl := s.constructorDecl? className }

end Surroundings

end FrameScript
