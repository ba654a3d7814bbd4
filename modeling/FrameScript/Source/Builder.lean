/-
  Building units by hand.

  A builder hands out declaration ids in the order of creation and stamps each node with the line
  it stands on when the node is made.  Children are made before the node that holds them, so a
  declaration's id is greater than the ids of all declarations inside it.
-/
import FrameScript.Source.Stmt

namespace FrameScript.Source

/-- Where a builder stands: the line that nodes are stamped with and the next free id. -/
structure Cursor where
  line : Nat := 1
  nextDecl : DeclId := 0
deriving Repr, DecidableEq

/-- Actions that make nodes. -/
abbrev Builder := StateM Cursor

namespace Builder

/-- Stamp nodes with this line from now on. -/
def moveTo (line : Nat) : Builder Unit := modify ({ · with line })

/-- The line that nodes are stamped with. -/
def line : Builder Nat := return (← get).line

/-- A declaration id that has not been handed out. -/
def freshDecl : Builder DeclId :=
  modifyGet fun c => (c.nextDecl, { c with nextDecl := c.nextDecl + 1 })

/-! ## Expressions -/

/-- A mark on the current line, without a static type. -/
def mark : Builder Mark := return { line := ← line }

def number (value : Binary64) : Builder Expr := return .number (← mark) value
def boolean (value : Bool) : Builder Expr := return .boolean (← mark) value
def null : Builder Expr := return .null (← mark)
def identifier (name : String) : Builder Expr := return .identifier (← mark) name

/-- An identifier whose static type is known. -/
def typedIdentifier (name type : String) : Builder Expr :=
  return .identifier { ← mark with type := some type } name

def this : Builder Expr := return .this (← mark)
def super : Builder Expr := return .super (← mark)

def binary (left : Expr) (token : String) (right : Expr) : Builder Expr :=
  return .binary (← mark) left (.ofToken token) right

def unary (token : String) (fixity : Fixity) (operand : Expr) : Builder Expr :=
  return .unary (← mark) (.ofToken token) fixity operand

def call (callee : Expr) (arguments : List Expr) : Builder Expr :=
  return .call (← mark) callee arguments

def construct (callee : Expr) (arguments : List Expr) : Builder Expr :=
  return .construct (← mark) callee arguments

def member (object : Expr) (name : String) : Builder Expr := return .member (← mark) object name
def await (operand : Expr) : Builder Expr := return .await (← mark) operand
def wrapped (inner : Expr) : Builder Expr := return .wrapped (← mark) inner
def unsupported (kind : String) : Builder Expr := return .unsupported (← mark) kind

/-! ## Statements -/

def declarator (binding : Binding) (initializer : Option Expr) : Builder Declarator :=
  return { binding, initializer, line := ← line }

def bindings (declarators : List Declarator) : Builder Stmt :=
  return .bindings (← line) declarators

/-- `let name = initializer;` -/
def letVariable (name : String) (initializer : Option Expr) : Builder Stmt := do
  bindings [← declarator (.identifier name) initializer]

def expression (e : Expr) : Builder Stmt := return .expression (← line) e
def returning (value : Option Expr) : Builder Stmt := return .returning (← line) value
def block (body : List Stmt) : Builder Stmt := return .block (← line) body
def imports (names : Import) : Builder Stmt := return .imports (← line) names
def typeOnly : Builder Stmt := return .typeOnly (← line)
def empty : Builder Stmt := return .empty (← line)
def other (kind : String) : Builder Stmt := return .other (← line) kind

/-! ## Declarations -/

def param (binding : Binding) (rest : Bool) (type : Option String) : Builder Param :=
  return { binding, rest, type, line := ← line }

/-- A function with an id of its own; without a body it is a signature only. -/
def function (name : Option String) (params : List Param) (body : Option (List Stmt))
    (isAsync : Bool) : Builder FunctionDecl := do
  let id ← freshDecl
  return { id, name, params, body, isAsync, line := ← line }

/-- A constructor is a function with a fixed name. -/
def constructor (params : List Param) (body : List Stmt) : Builder Member :=
  return .constructor (← function (some "constructor") params (some body) false)

/-- A class with an id of its own, taken after the ids of its members. -/
def classDef (name parent : Option String) (members : List Member) (isDeclared isAbstract : Bool) :
    Builder ClassDecl := do
  let id ← freshDecl
  return { id, name, parent, isDeclared, isAbstract, members, line := ← line }

def property (name : String) (initializer : Option Expr) (isStatic : Bool) : Builder Member :=
  return .property { name, initializer, isStatic, line := ← line }

def otherMember (kind : String) : Builder Member := return .other (← line) kind

/-- The finished unit of a file. -/
def unit (file : String) (statements : List Stmt) : Builder CompilationUnit :=
  return .ofFile file statements (← get).nextDecl

end Builder

end FrameScript.Source
