/-
  The JSON form of a unit.

  A node is an object with its fields in a fixed order.  One of several alternatives is an object
  with a single field, named for the alternative; an alternative without content is its name alone.
-/
import FrameScript.Json.Value
import FrameScript.Source.Stmt

namespace FrameScript.Source

open Json (Value)

/-- One of several alternatives, with its content. -/
def tagged (name : String) (content : Value) : Value := .object [(name, content)]

def BinaryOp.toJson : BinaryOp → Value
  | .assign => .string "Assign"
  | .addAssign => .string "AddAssign"
  | .subAssign => .string "SubAssign"
  | .mulAssign => .string "MulAssign"
  | .divAssign => .string "DivAssign"
  | .remAssign => .string "RemAssign"
  | .powAssign => .string "PowAssign"
  | .bitXor => .string "BitXor"
  | .bitXorAssign => .string "BitXorAssign"
  | .other token => tagged "Other" (.string token)

def UnaryOp.toJson : UnaryOp → Value
  | .increment => .string "Increment"
  | .decrement => .string "Decrement"
  | .other token => tagged "Other" (.string token)

def Fixity.toJson : Fixity → Value
  | .before => .string "Prefix"
  | .after => .string "Postfix"

/-- An expression node: its content, then its mark. -/
def Mark.node (mark : Mark) (kind : Value) : Value :=
  .object [("kind", kind), ("line", .ofNat mark.line), ("ty", .ofOption mark.type)]

mutual

def Expr.toJson : Expr → Value
  | .number m x => m.node (tagged "Number" (.number (.double x)))
  | .boolean m b => m.node (tagged "Boolean" (.bool b))
  | .null m => m.node (.string "Null")
  | .identifier m name => m.node (tagged "Identifier" (.string name))
  | .this m => m.node (.string "This")
  | .super m => m.node (.string "Super")
  | .binary m left op right => m.node <| tagged "Binary" <| .object
      [("left", left.toJson), ("op", op.toJson), ("right", right.toJson)]
  | .unary m op fixity operand => m.node <| tagged "Unary" <| .object
      [("op", op.toJson), ("fixity", fixity.toJson), ("operand", operand.toJson)]
  | .call m callee arguments => m.node <| tagged "Call" <| .object
      [("callee", callee.toJson), ("arguments", .array (exprsToJson arguments))]
  | .construct m callee arguments => m.node <| tagged "New" <| .object
      [("callee", callee.toJson), ("arguments", .array (exprsToJson arguments))]
  | .member m object name => m.node <| tagged "Member" <| .object
      [("object", object.toJson), ("name", .string name)]
  | .await m operand => m.node (tagged "Await" operand.toJson)
  | .wrapped m inner => m.node (tagged "Wrapped" inner.toJson)
  | .unsupported m kind => m.node (tagged "Unsupported" (.string kind))

def exprsToJson : List Expr → List Value
  | [] => []
  | e :: rest => e.toJson :: exprsToJson rest

end

/-- An expression, or `null` where there is none. -/
def optionalToJson : Option Expr → Value
  | some e => e.toJson
  | none => .null

def Binding.toJson : Binding → Value
  | .identifier name => tagged "Identifier" (.string name)
  | .pattern => .string "Pattern"

def ImportName.toJson (n : ImportName) : Value :=
  .object [("name", .string n.name), ("alias", .ofOption n.localName)]

def Import.toJson (i : Import) : Value :=
  .object
    [("module", .string i.module), ("default", .ofOption i.default),
      ("namespace", .ofOption i.namespaceName), ("named", .array (i.named.map ImportName.toJson))]

def Declarator.toJson (d : Declarator) : Value :=
  .object
    [("binding", d.binding.toJson), ("initializer", optionalToJson d.initializer),
      ("line", .ofNat d.line)]

def Param.toJson (p : Param) : Value :=
  .object
    [("binding", p.binding.toJson), ("rest", .bool p.rest), ("ty", .ofOption p.type),
      ("line", .ofNat p.line)]

def Property.toJson (p : Property) : Value :=
  .object
    [("name", .string p.name), ("initializer", optionalToJson p.initializer),
      ("is_static", .bool p.isStatic), ("line", .ofNat p.line)]

/-- A statement node: its content, then its line. -/
def statementNode (line : Nat) (kind : Value) : Value :=
  .object [("kind", kind), ("line", .ofNat line)]

mutual

def Stmt.toJson : Stmt → Value
  | .block line body => statementNode line (tagged "Block" (.array (stmtsToJson body)))
  | .imports line names => statementNode line (tagged "Import" names.toJson)
  | .bindings line ds =>
    statementNode line (tagged "Variables" (.array (ds.map Declarator.toJson)))
  | .expression line e => statementNode line (tagged "Expression" e.toJson)
  | .function f => statementNode f.line (tagged "Function" f.toJson)
  | .classDef c => statementNode c.line (tagged "Class" c.toJson)
  | .returning line value => statementNode line (tagged "Return" (optionalToJson value))
  | .typeOnly line => statementNode line (.string "TypeOnly")
  | .empty line => statementNode line (.string "Empty")
  | .other line kind => statementNode line (tagged "Other" (.string kind))

def stmtsToJson : List Stmt → List Value
  | [] => []
  | s :: rest => s.toJson :: stmtsToJson rest

def bodyToJson : Option (List Stmt) → Value
  | some body => .array (stmtsToJson body)
  | none => .null

def FunctionDecl.toJson : FunctionDecl → Value
  | ⟨id, name, params, body, isAsync, line⟩ => .object
      [("id", .ofNat id), ("name", .ofOption name), ("params", .array (params.map Param.toJson)),
        ("body", bodyToJson body), ("is_async", .bool isAsync), ("line", .ofNat line)]

def ClassDecl.toJson : ClassDecl → Value
  | ⟨id, name, parent, isDeclared, isAbstract, members, line⟩ => .object
      [("id", .ofNat id), ("name", .ofOption name), ("extends", .ofOption parent),
        ("is_declared", .bool isDeclared), ("is_abstract", .bool isAbstract),
        ("members", .array (membersToJson members)), ("line", .ofNat line)]

def membersToJson : List Member → List Value
  | [] => []
  | m :: rest => m.toJson :: membersToJson rest

def Member.toJson : Member → Value
  | .method f isStatic => tagged "Method" <| .object
      [("function", f.toJson), ("is_static", .bool isStatic)]
  | .constructor f => tagged "Constructor" f.toJson
  | .property p => tagged "Property" p.toJson
  | .other line kind => tagged "Other" <| .object [("kind", .string kind), ("line", .ofNat line)]

end

/-- The JSON form of a unit. -/
def CompilationUnit.toJson (u : CompilationUnit) : Value :=
  .object
    [("file_name", .string u.fileName), ("context", .string u.context),
      ("statements", .array (stmtsToJson u.statements)), ("decl_count", .ofNat u.declCount)]

end FrameScript.Source
