/-
  From a source document to a unit.

  The document is an object with a `file` name and its `statements`.  Each node is stamped with its
  line after its children have been loaded, and declarations take their ids in that order too.
-/
import FrameScript.Document.Expr

namespace FrameScript.Document

open Json (Value Fields)
open Source

/-- One variable of a variable statement.  Its initializer is loaded before its own fields. -/
def declarator (line : Nat) (value : Value) : Loader Declarator := do
  let node ← object value "a variable declarator" line
  let initializer ← exprField? node "initializer" line
  Builder.moveTo (nodeLine node line)
  if ← flag node "VariableDeclaration" "pattern" then
    Builder.declarator .pattern initializer
  else
    Builder.declarator (.identifier (← text node "VariableDeclaration" "name")) initializer

/-- One name of an import list. -/
def importName (line : Nat) (value : Value) : Loader ImportName := do
  let node ← object value "an import specifier" line
  let name ← text node "ImportSpecifier" "name"
  return { name, localName := ← text? node "ImportSpecifier" "alias" }

/-- An import. -/
def imports (node : Fields) (kind : String) (line : Nat) : Loader Import := do
  let module ← text node kind "module"
  let default ← text? node kind "default"
  let namespaceName ← text? node kind "namespace"
  let named ← (← items node kind "named").mapM (importName line)
  return { module, default, namespaceName, named }

/-- One parameter. -/
def param (line : Nat) (value : Value) : Loader Param := do
  let node ← object value "a parameter" line
  Builder.moveTo (nodeLine node line)
  let rest ← flag node "Parameter" "rest"
  let type ← text? node "Parameter" "type"
  let binding ←
    if ← flag node "Parameter" "pattern" then pure Binding.pattern
    else pure (.identifier (← text node "Parameter" "name"))
  Builder.param binding rest type

/-- The parameters of a function, method or constructor. -/
def params (node : Fields) (kind : String) (line : Nat) : Loader (List Param) := do
  (← items node kind "parameters").mapM (param line)

/-- A function or method around the loader of its body. -/
def function (node : Fields) (kind : String) (line : Nat) (body : Loader (Option (List Stmt))) :
    Loader FunctionDecl := do
  let name ← text? node kind "name"
  let isAsync ← flag node kind "async"
  let params ← params node kind line
  let body ← body
  Builder.moveTo line
  Builder.function name params body isAsync

/-- A class around the loader of its members. -/
def classDef (node : Fields) (kind : String) (line : Nat) (members : Loader (List Member)) :
    Loader ClassDecl := do
  let name ← text? node kind "name"
  let parent ← text? node kind "extends"
  let isDeclared ← flag node kind "declare"
  let isAbstract ← flag node kind "abstract"
  let members ← members
  Builder.moveTo line
  Builder.classDef name parent members isDeclared isAbstract

mutual

/-- A statement node.  Kinds without a form of their own are kept by name. -/
def stmt (inherited : Nat) : Value → Loader Stmt
  | .object node => do
    let (kind, line) ← enter node "statement" inherited
    match kind with
    | "Block" =>
      let body ← stmtsField kind "statements" line node
      Builder.moveTo line
      Builder.block body
    | "ImportDeclaration" => Builder.imports (← imports node kind line)
    | "VariableStatement" =>
      let declarators ← (← items node kind "declarations").mapM (declarator line)
      Builder.moveTo line
      Builder.bindings declarators
    | "ExpressionStatement" =>
      let e ← exprField kind "expression" line node
      Builder.moveTo line
      Builder.expression e
    | "ReturnStatement" =>
      let value ← exprField? node "expression" line
      Builder.moveTo line
      Builder.returning value
    | "FunctionDeclaration" =>
      return .function (← function node kind line (bodyField kind line node))
    | "ClassDeclaration" =>
      return .classDef (← classDef node kind line (membersField kind line node))
    | "InterfaceDeclaration" | "TypeAliasDeclaration" => Builder.typeOnly
    | "EmptyStatement" => Builder.empty
    | _ => Builder.other kind
  | _ => throw (.notAnObject "a statement" inherited)

/-- The statements of a field; a missing one has none. -/
def stmtsField (kind field : String) (line : Nat) : List (String × Value) → Loader (List Stmt)
  | [] => return []
  | (name, value) :: rest =>
    if name = field then
      match value with
      | .array values => stmts line values
      | .null => return []
      | _ => invalid kind field "an array"
    else stmtsField kind field line rest

/-- The items of an array, in order. -/
def stmts (line : Nat) : List Value → Loader (List Stmt)
  | [] => return []
  | value :: rest => return (← stmt line value) :: (← stmts line rest)

/-- The body of a function or method; a signature has none. -/
def bodyField (kind : String) (line : Nat) :
    List (String × Value) → Loader (Option (List Stmt))
  | [] => return none
  | (name, value) :: rest =>
    if name = "body" then
      match value with
      | .array values => return some (← stmts line values)
      | .null => return none
      | _ => invalid kind "body" "an array of statements"
    else bodyField kind line rest

/-- The members of a class. -/
def membersField (kind : String) (line : Nat) : List (String × Value) → Loader (List Member)
  | [] => return []
  | (name, value) :: rest =>
    if name = "members" then
      match value with
      | .array values => members line values
      | .null => return []
      | _ => invalid kind "members" "an array"
    else membersField kind line rest

/-- The items of an array, in order. -/
def members (line : Nat) : List Value → Loader (List Member)
  | [] => return []
  | value :: rest => return (← member line value) :: (← members line rest)

/-- A member of a class.  Kinds without a form of their own are kept by name. -/
def member (inherited : Nat) : Value → Loader Member
  | .object node => do
    let (kind, line) ← enter node "class member" inherited
    match kind with
    | "MethodDeclaration" =>
      let isStatic ← flag node kind "static"
      let _ ← text node kind "name"
      return .method (← function node kind line (bodyField kind line node)) isStatic
    | "Constructor" =>
      let params ← params node kind line
      let body ← stmtsField kind "body" line node
      Builder.moveTo line
      Builder.constructor params body
    | "PropertyDeclaration" =>
      let name ← text node kind "name"
      let isStatic ← flag node kind "static"
      let initializer ← exprField? node "initializer" line
      Builder.moveTo line
      Builder.property name initializer isStatic
    | _ => Builder.otherMember kind
  | _ => throw (.notAnObject "a class member" inherited)

end

/-- The name of the file a document describes, or a name for documents without one. -/
def fileField (document : Fields) (fallback : String) : Except LoadError String :=
  match document.get? "file" with
  | some (.string file) => .ok file
  | some _ => .error (.invalidField "document" "file" "a string" 0)
  | none => .ok fallback

/-- The unit of a document. -/
def load (document : Value) (fallback : String) : Except LoadError CompilationUnit :=
  match document with
  | .object fields => do
    let file ← fileField fields fallback
    let (statements, cursor) ← (stmtsField "document" "statements" 0 fields).run {}
    return .ofFile file statements cursor.nextDecl
  | _ => .error (.notAnObject "the document" 0)

/-- The unit of a document given as text. -/
def loadText (source fallback : String) : Except LoadError CompilationUnit :=
  match Json.read source with
  | .ok document => load document fallback
  | .error cause => .error (.notJson cause)

/-- The file name of a document that has none: `main.json` and `main.ts.json` both stand for
`main.ts`. -/
def fallbackName (path : String) : String :=
  let stem := (Path.fileStem? path).getD "unit"
  if (Path.extension? stem).isSome then stem else stem ++ ".ts"

end FrameScript.Document
