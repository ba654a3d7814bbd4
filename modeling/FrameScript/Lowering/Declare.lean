/-
  Declaring before lowering.

  Imports, functions and classes of a unit get their names and slots before any statement is
  lowered, so that a use may stand before its declaration.  Declarations inside bodies are declared
  when they are met.
-/
import FrameScript.Session

namespace FrameScript

open Source

/-! ## Bodies that return a value -/

mutual

/-- The statement returns a value, itself or in a block.  Declarations inside it do not count. -/
def Source.Stmt.returnsValue : Stmt → Bool
  | .returning _ value => value.isSome
  | .block _ body => bodyReturnsValue body
  | _ => false

/-- One of the statements returns a value. -/
def Source.bodyReturnsValue : List Stmt → Bool
  | [] => false
  | stmt :: rest => stmt.returnsValue || bodyReturnsValue rest

end

namespace Declare

open SessionM

/-- The slots of parameters, in order.  A rest parameter has none. -/
def params : List Param → SessionM (List ParamSlot)
  | [] => return []
  | param :: rest => do
    let name : Option String := match param.binding with
      | .identifier name => some name
      | .pattern => none
    if param.rest then
      fail param.line (.restParameter (name.getD "pattern"))
    let slot ← freshId name
    return { name, slot } :: (← params rest)

/-- The slots of a function, method or constructor, given its script. -/
def callable (script : String) (f : FunctionDecl) : SessionM Callable := do
  let path := (← get).qualify script
  let params ← params f.params
  let returnSlot ←
    if (f.body.map bodyReturnsValue).getD false then
      some <$> freshId (some (script ++ "_return"))
    else pure none
  return { script, path, params, returnSlot }

/-- The names that an import brings in. -/
def imports (i : Import) : SessionM Unit := do
  let module := moduleContext i.module
  if let some name := i.default then
    register { name, path := qualify module name, kind := .imported }
  if let some name := i.namespaceName then
    register { name, path := module, kind := .namespaceName }
  i.named.forM fun n =>
    register { name := n.bound, path := qualify module n.name, kind := .imported }

/-- The name of a declaration; one without a name gets a fresh id. -/
def nameOf (name : Option String) : SessionM String :=
  match name with
  | some name => return name
  | none => freshId none

/-- A function.  A signature is not declared, and none is declared twice. -/
def function (f : FunctionDecl) : SessionM Unit := do
  if f.body.isNone || (← get).decls.contains f.id then return
  let name ← nameOf f.name
  let c ← callable name f
  register { name, path := c.path, kind := .function, decl := f.id }
  record f.id (.callable c)

/-- A member of a class, added to what is known about the class.  Signatures and members of
unknown kind add nothing. -/
def member (info : ClassInfo) : Member → SessionM ClassInfo
  | .method f isStatic => do
    match f.name, f.body with
    | some name, some _ =>
      let c ← callable (methodScript info.name name) f
      let kind := if isStatic then SymbolKind.staticMethod else .method
      register { name := memberKey info.name name, path := c.path, kind, decl := f.id }
      record f.id (.callable c)
      return info
    | _, _ => return info
  | .constructor f => do
    match f.body with
    | some _ =>
      let c ← callable (initScript info.name) f
      record f.id (.callable c)
      return { info with constructor := some f.id }
    | none => return info
  | .property p => do
    let slot ← freshId (some (methodScript info.name p.name))
    register { name := memberKey info.name p.name, path := slot, kind := .field }
    return { info with fields := info.fields ++ [(p.name, slot)] }
  | .other .. => return info

/-- A class with its members.  Declared and abstract classes are not declared here, and none is
declared twice. -/
def classDef (c : ClassDecl) : SessionM Unit := do
  if c.isDeclared || c.isAbstract || (← get).decls.contains c.id then return
  let name ← nameOf c.name
  let path := (← get).qualify name
  register { name, path, kind := .classDef, decl := c.id }
  let info ← c.members.foldlM member { name, path, constructor := none, fields := [] }
  record c.id (.classInfo info)

/-- One statement of a unit. -/
def stmt : Stmt → SessionM Unit
  | .imports _ i => imports i
  | .function f => function f
  | .classDef c => classDef c
  | _ => return

/-- The statements of a unit; what stands inside blocks and bodies is not looked at. -/
def unit (statements : List Stmt) : SessionM Unit := statements.forM stmt

end Declare

end FrameScript
