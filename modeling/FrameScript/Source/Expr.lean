/-
  Expressions.

  Every node carries a mark: the source line it was read from and, where a front end supplied one,
  the name of its static type.  Parentheses and type assertions are one kind of node, a wrapper,
  which means what the expression inside it means.
-/
import FrameScript.Binary64
import FrameScript.Source.Operator

namespace FrameScript.Source

/-- Where an expression stands, and its static type if known. -/
structure Mark where
  line : Nat
  type : Option String := none
deriving Repr, DecidableEq, Inhabited

/-- An expression. -/
inductive Expr where
  | number (mark : Mark) (value : Binary64)
  | boolean (mark : Mark) (value : Bool)
  | null (mark : Mark)
  | identifier (mark : Mark) (name : String)
  | this (mark : Mark)
  | super (mark : Mark)
  | binary (mark : Mark) (left : Expr) (op : BinaryOp) (right : Expr)
  | unary (mark : Mark) (op : UnaryOp) (fixity : Fixity) (operand : Expr)
  | call (mark : Mark) (callee : Expr) (arguments : List Expr)
  /-- `new callee(arguments)` -/
  | construct (mark : Mark) (callee : Expr) (arguments : List Expr)
  | member (mark : Mark) (object : Expr) (name : String)
  | await (mark : Mark) (operand : Expr)
  /-- Parentheses, casts and non-null assertions. -/
  | wrapped (mark : Mark) (inner : Expr)
  /-- A kind of expression that nothing is known about but its name. -/
  | unsupported (mark : Mark) (kind : String)
deriving Repr, Inhabited

namespace Expr

def mark : Expr → Mark
  | number m .. | boolean m .. | null m | identifier m .. | this m | super m | binary m ..
  | unary m .. | call m .. | construct m .. | member m .. | await m .. | wrapped m ..
  | unsupported m .. => m

def line (e : Expr) : Nat := e.mark.line

def type (e : Expr) : Option String := e.mark.type

/-- The expression inside all wrappers. -/
def unwrapped : Expr → Expr
  | wrapped _ inner => inner.unwrapped
  | e => e

/-- The name of the kind of an expression, as messages call it. -/
def kindName : Expr → String
  | number .. => "NumericLiteral"
  | boolean _ true => "TrueKeyword"
  | boolean _ false => "FalseKeyword"
  | null _ => "NullKeyword"
  | identifier .. => "Identifier"
  | this _ => "ThisKeyword"
  | super _ => "SuperKeyword"
  | binary .. => "BinaryExpression"
  | unary _ _ .before _ => "PrefixUnaryExpression"
  | unary _ _ .after _ => "PostfixUnaryExpression"
  | call .. => "CallExpression"
  | construct .. => "NewExpression"
  | member .. => "PropertyAccessExpression"
  | await .. => "AwaitExpression"
  | wrapped .. => "ParenthesizedExpression"
  | unsupported _ kind => kind

@[simp] theorem unwrapped_wrapped (m : Mark) (e : Expr) : (wrapped m e).unwrapped = e.unwrapped :=
  rfl

/-- Nothing is left to unwrap. -/
@[simp] theorem unwrapped_unwrapped (e : Expr) : e.unwrapped.unwrapped = e.unwrapped := by
  fun_induction unwrapped e with
  | case1 _ _ ih => exact ih
  | case2 e h =>
    cases e with
    | wrapped m i => exact (h m i rfl).elim
    | _ => rfl

end Expr

end FrameScript.Source
