/-
  Operators of the source language.

  The operators that matter to lowering have names of their own; all others are kept by their
  token.  Reading a token and writing it back gives the same token.
-/

namespace FrameScript.Source

/-- A binary operator.  Arithmetic, comparison and logical operators are kept by token. -/
inductive BinaryOp where
  | assign
  | addAssign
  | subAssign
  | mulAssign
  | divAssign
  | remAssign
  | powAssign
  | bitXor
  | bitXorAssign
  | other (token : String)
deriving Repr, DecidableEq

namespace BinaryOp

def ofToken (token : String) : BinaryOp :=
  match token with
  | "=" => .assign
  | "+=" => .addAssign
  | "-=" => .subAssign
  | "*=" => .mulAssign
  | "/=" => .divAssign
  | "%=" => .remAssign
  | "**=" => .powAssign
  | "^" => .bitXor
  | "^=" => .bitXorAssign
  | token => .other token

def token : BinaryOp → String
  | .assign => "="
  | .addAssign => "+="
  | .subAssign => "-="
  | .mulAssign => "*="
  | .divAssign => "/="
  | .remAssign => "%="
  | .powAssign => "**="
  | .bitXor => "^"
  | .bitXorAssign => "^="
  | .other token => token

/-- The operator stores into its left side.  Exclusive-or assignment is no such operator: it is
always refused. -/
def isAssignment : BinaryOp → Bool
  | .assign | .addAssign | .subAssign | .mulAssign | .divAssign | .remAssign | .powAssign => true
  | .bitXor | .bitXorAssign | .other _ => false

def isXor : BinaryOp → Bool
  | .bitXor | .bitXorAssign => true
  | _ => false

theorem token_ofToken (t : String) : (ofToken t).token = t := by
  unfold ofToken
  split <;> rfl

end BinaryOp

/-- A unary operator; only the two updates have names. -/
inductive UnaryOp where
  | increment
  | decrement
  | other (token : String)
deriving Repr, DecidableEq

namespace UnaryOp

def ofToken (token : String) : UnaryOp :=
  match token with
  | "++" => .increment
  | "--" => .decrement
  | token => .other token

def token : UnaryOp → String
  | .increment => "++"
  | .decrement => "--"
  | .other token => token

/-- The operator writes its operand. -/
def isUpdate : UnaryOp → Bool
  | .increment | .decrement => true
  | .other _ => false

theorem token_ofToken (t : String) : (ofToken t).token = t := by
  unfold ofToken
  split <;> rfl

end UnaryOp

/-- The side of its operand on which a unary operator stands. -/
inductive Fixity where
  | before
  | after
deriving Repr, DecidableEq

end FrameScript.Source
