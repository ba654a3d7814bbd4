/-
  Statements, declarations and compilation units.

  A compilation unit is one source file: its name, the context it is compiled under, and its
  statements.  Functions, methods, constructors and classes carry an id that is their own within
  the unit, so that what is learned about a declaration can be kept in a table beside the tree.
-/
import FrameScript.Path
import FrameScript.Source.Expr

namespace FrameScript.Source

/-- The id of a function, method, constructor or class within its unit. -/
abbrev DeclId := Nat

/-- What a declarator or parameter binds. -/
inductive Binding where
  | identifier (name : String)
  /-- An array or object pattern. -/
  | pattern
deriving Repr, DecidableEq, Inhabited

/-- One name of an import list. -/
structure ImportName where
  /-- The exported name in the imported module. -/
  name : String
  /-- The name it is given here, if that is another one. -/
  localName : Option String
deriving Repr, DecidableEq

/-- The name under which the import is known in the importing unit. -/
def ImportName.bound (n : ImportName) : String := n.localName.getD n.name

/-- `import default, * as namespace, { name as alias } from "module"` -/
structure Import where
  /-- The module specifier as written. -/
  module : String
  default : Option String
  namespaceName : Option String
  named : List ImportName
deriving Repr, DecidableEq

/-- The context that a module specifier names: its last segment up to the first point.  A segment
that opens with a point is kept whole. -/
def moduleContext (specifier : String) : String :=
  let segment := Path.lastSegment specifier
  String.ofList (if segment.head? = some '.' then segment else segment.takeWhile (· ≠ '.'))

/-- One variable of a variable statement. -/
structure Declarator where
  binding : Binding
  initializer : Option Expr
  line : Nat
deriving Repr, Inhabited

/-- A parameter. -/
structure Param where
  binding : Binding
  rest : Bool
  type : Option String
  line : Nat
deriving Repr, DecidableEq, Inhabited

/-- A property of a class. -/
structure Property where
  name : String
  initializer : Option Expr
  isStatic : Bool
  line : Nat
deriving Repr

mutual

/-- A statement.  A declaration's statement has the line of the declaration. -/
inductive Stmt where
  | block (line : Nat) (body : List Stmt)
  | imports (line : Nat) (names : Import)
  | bindings (line : Nat) (declarators : List Declarator)
  | expression (line : Nat) (e : Expr)
  | function (f : FunctionDecl)
  | classDef (c : ClassDecl)
  | returning (line : Nat) (value : Option Expr)
  /-- Interfaces and type aliases. -/
  | typeOnly (line : Nat)
  | empty (line : Nat)
  /-- A kind of statement that nothing is known about but its name. -/
  | other (line : Nat) (kind : String)

/-- A function, method or constructor. -/
structure FunctionDecl where
  id : DeclId
  name : Option String
  params : List Param
  /-- Missing in an overload signature and in `declare function`. -/
  body : Option (List Stmt)
  isAsync : Bool
  line : Nat

/-- A class. -/
structure ClassDecl where
  id : DeclId
  name : Option String
  /-- The name of the class it extends. -/
  parent : Option String
  /-- `declare class` -/
  isDeclared : Bool
  isAbstract : Bool
  members : List Member
  line : Nat

/-- A member of a class. -/
inductive Member where
  | method (f : FunctionDecl) (isStatic : Bool)
  | constructor (f : FunctionDecl)
  | property (p : Property)
  /-- Accessors, index signatures and the like. -/
  | other (line : Nat) (kind : String)

end

instance : Inhabited Stmt := ⟨.empty 0⟩

instance : Inhabited FunctionDecl := ⟨⟨0, none, [], none, false, 0⟩⟩

instance : Inhabited Member := ⟨.other 0 ""⟩

def Stmt.line : Stmt → Nat
  | block l _ | imports l _ | bindings l _ | expression l _ | returning l _ | typeOnly l | empty l
  | other l _ => l
  | function f => f.line
  | classDef c => c.line

/-- One source file. -/
structure CompilationUnit where
  /-- The base name with its extension, as messages show it. -/
  fileName : String
  /-- The base name without its extension: the frame tag, and the directory of the scripts. -/
  context : String
  statements : List Stmt
  /-- How many declaration ids the unit uses. -/
  declCount : Nat

/-- The base name of a file, which may be given by a path; a text without a base name is kept. -/
def baseName (file : String) : String := (Path.fileName? file).getD file

/-- The context of a file: its base name without the extension. -/
def fileContext (file : String) : String := (Path.fileStem? file).getD (baseName file)

/-- The unit of a file. -/
def CompilationUnit.ofFile (file : String) (statements : List Stmt) (declCount : Nat) :
    CompilationUnit :=
  { fileName := baseName file, context := fileContext file, statements, declCount }

end FrameScript.Source
