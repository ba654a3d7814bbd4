/-
  Lowering of expressions.

  An expression becomes commands and an operand that says where its value lives: in the text of a
  literal, in a register, or nowhere.  Only assignments, updates, calls and `new` emit commands;
  all else names a value.

  Arguments are all evaluated before any of them is copied into the slots of the callee.  A slot
  whose value a later argument could overwrite is first copied into a register of its own.
-/
import FrameScript.Lowering.Names

namespace FrameScript

open Source

/-- Where the value of an expression lives. -/
inductive Operand where
  /-- In the text of a literal. -/
  | immediate (text : String)
  /-- In a register. -/
  | slot (register : String)
deriving Repr, DecidableEq

namespace Lower

variable (s : Surroundings)

def fail {α : Type} (line : Nat) (cause : Cause) : Lowering α := throw (s.error line cause)

def warn (line : Nat) (message : String) : Lowering Unit := Effects.warn (s.warning line message)

/-- `lhs op rhs` in the active frame. -/
def operate (lhs : String) (op : Op) (rhs : String) : Command := .operation s.frame lhs op rhs

/-- Store an operand: a literal is set, a register is copied. -/
def assign (slot : String) : Operand → Command
  | .immediate text => .set s.frame slot text
  | .slot register => operate s slot .assign register

/-- An operand as a register: a literal goes into a fresh one first. -/
def stage : Operand → StateM Effects (Emitted String)
  | .slot register => return ⟨[], register⟩
  | .immediate text => do
    let register ← Effects.freshRegister
    return ⟨[assign s register (.immediate text)], register⟩

/-- The operand of an expression whose value is needed. -/
def needValue (e : Expr) (lowered : Emitted (Option Operand)) : Lowering (Emitted Operand) :=
  match lowered.value with
  | some value => return ⟨lowered.commands, value⟩
  | none => fail s e.line (.noValue e.unwrapped.kindName)

/-! ## Operators -/

/-- The operation of a simple or compound assignment.  The power assignment has none of its own. -/
def assignmentOp? : BinaryOp → Option Op
  | .assign => some .assign
  | .addAssign => some .add
  | .subAssign => some .sub
  | .mulAssign => some .mul
  | .divAssign => some .div
  | .remAssign => some .rem
  | _ => none

/-- Why a binary operator without an operation is refused. -/
def refusal (op : BinaryOp) : Cause :=
  if op.isXor then .bitwiseXor op.token else .unsupportedOperator op.token

/-- `target op= value`; the value of the assignment is the target. -/
def store (target : String) (op : Op) (value : Emitted Operand) :
    Lowering (Emitted (Option Operand)) := do
  let staged ← stage s value.value
  return ⟨value.commands ++ staged.commands ++ [operate s target op staged.value],
    some (.slot target)⟩

/-- `target **= 2` as a multiplication by a scratch copy of the target. -/
def square (line : Nat) (target : String) (exponent : Expr) (value : Emitted Operand) :
    Lowering (Emitted (Option Operand)) := do
  if value.value ≠ .immediate "2" then
    fail s exponent.line .unsupportedExponent
  warn s line "`**=` is lowered as a square by repeated multiplication"
  let scratch ← Effects.freshRegister
  return ⟨value.commands ++ [operate s scratch .assign target, operate s target .mul scratch],
    some (.slot target)⟩

/-- `++` and `--`.  With `keepOld` the value is that before the update, in a register of its own;
otherwise it is the target. -/
def update (line : Nat) (op : UnaryOp) (operand : Expr) (keepOld : Bool) :
    Lowering (Emitted (Option Operand)) := do
  let code : Op ← match op with
    | .increment => pure .add
    | .decrement => pure .sub
    | .other token => fail s line (.unsupportedOperator token)
  let target ← MonadExcept.ofExcept (s.targetSlot operand)
  let old : Emitted String ←
    if keepOld then
      let register ← Effects.freshRegister
      pure ⟨[operate s register .assign target], register⟩
    else pure ⟨[], target⟩
  let one ← stage s (.immediate "1")
  return ⟨old.commands ++ one.commands ++ [operate s target code one.value],
    some (.slot old.value)⟩

/-! ## Calls -/

/-- A slot whose value has to outlive later commands is copied; all other operands stay. -/
def protect (endangered : Bool) : Operand → StateM Effects (Emitted Operand)
  | .slot register => do
    if endangered then
      let copy ← Effects.freshRegister
      return ⟨[operate s copy .assign register], .slot copy⟩
    else return ⟨[], .slot register⟩
  | .immediate text => return ⟨[], .immediate text⟩

/-- The commands of evaluated arguments in order, each followed by the copy that keeps its value
if a later argument emits commands. -/
def settle : List (Emitted Operand) → StateM Effects (Emitted (List Operand))
  | [] => return ⟨[], []⟩
  | argument :: rest => do
    let kept ← protect s (rest.any fun later => !later.commands.isEmpty) argument.value
    let others ← settle rest
    return ⟨argument.commands ++ kept.commands ++ others.commands, kept.value :: others.value⟩

/-- The assignments of values to parameter slots, as far as both go. -/
def copyIn (params : List ParamSlot) (values : List Operand) : List Command :=
  (params.zip values).map fun (param, value) => assign s param.slot value

/-- A call of a callable of this unit: the arguments are settled, copied into its parameter slots,
and its script is invoked.  Its value is in its return slot. -/
def invokeKnown (line : Nat) (path : String) (callable : Callable)
    (arguments : List (Emitted Operand)) : Lowering (Emitted (Option Operand)) := do
  let settled ← settle s arguments
  if callable.params.length < arguments.length then
    let surplus := arguments.length - callable.params.length
    warn s line s!"{surplus} surplus argument(s) to `{path}` are dropped"
  return ⟨settled.commands ++ copyIn s callable.params settled.value ++ [.invoke path],
    callable.returnSlot.map .slot⟩

/-- A call of a script with unknown parameters: the arguments are evaluated and dropped. -/
def invokeUnknown (line : Nat) (path : String) (count : Nat) (arguments : List Command) :
    Lowering (Emitted (Option Operand)) := do
  if 0 < count then
    warn s line s!"arguments to `{path}` are dropped: its parameters are unknown"
  return ⟨arguments ++ [.invoke path], none⟩

/-- A call, given the two ways to lower its arguments. -/
def invoke (line : Nat) (callee : Callee) (count : Nat)
    (values : Lowering (List (Emitted Operand))) (dropped : Lowering (List Command)) :
    Lowering (Emitted (Option Operand)) := do
  match callee.decl.bind s.decls.callable? with
  | some callable => invokeKnown s line callee.path callable (← values)
  | none => invokeUnknown s line callee.path count (← dropped)

/-- The callee of a call that names what it calls; none if it has to be computed. -/
def namedCallee? (callee : Expr) : Except LowerError (Option Callee) :=
  match callee.unwrapped with
  | .super mark => (s.parentClass mark.line).map fun parent => some (s.constructorCallee parent)
  | .member _ object name => (s.methodCallee object name).map some
  | .identifier _ name => .ok (some (s.functionCallee name))
  | _ => .ok none

/-- The callee of a call whose callee has been computed. -/
def computedCallee (callee : Expr) (lowered : Emitted (Option Operand)) :
    Lowering (Emitted Callee) := do
  let root := callee.unwrapped
  let value ← needValue s root lowered
  match value.value with
  | .slot path => return ⟨value.commands, { path }⟩
  | .immediate _ => fail s root.line (.unsupportedExpression root.kindName)

mutual

/-- The commands of an expression and the place of its value. -/
def expr : Expr → Lowering (Emitted (Option Operand))
  | .number _ x => return ⟨[], some (.immediate (literalText x))⟩
  | .boolean _ b => return ⟨[], some (.immediate (if b then "1" else "0"))⟩
  | .null mark => fail s mark.line .nullLiteral
  | .identifier _ name => return ⟨[], some (.slot (s.identifierSlot name))⟩
  | .this mark => do
    let _ ← MonadExcept.ofExcept (s.enclosingClass mark.line)
    return ⟨[], none⟩
  | .super mark => do
    let _ ← MonadExcept.ofExcept (s.parentClass mark.line)
    return ⟨[], none⟩
  | .binary mark left op right => do
    match op, assignmentOp? op with
    | .powAssign, _ =>
      let target ← MonadExcept.ofExcept (s.targetSlot left)
      square s mark.line target right (← needValue s right (← expr right))
    | _, some code =>
      let target ← MonadExcept.ofExcept (s.targetSlot left)
      store s target code (← needValue s right (← expr right))
    | op, none => fail s mark.line (refusal op)
  | .unary mark op fixity operand => update s mark.line op operand (fixity = .after)
  | .call mark callee arguments => do
    let head : Emitted Callee ← match ← MonadExcept.ofExcept (namedCallee? s callee) with
      | some named => pure ⟨[], named⟩
      | none => computedCallee s callee (← expr callee)
    let call ← invoke s mark.line head.value arguments.length
      (values arguments) (dropped arguments)
    return ⟨head.commands ++ call.commands, call.value⟩
  | .construct mark callee arguments => do
    match callee.unwrapped with
    | .identifier _ name =>
      let call ← invoke s mark.line (s.constructorCallee name) arguments.length
        (values arguments) (dropped arguments)
      -- instances have no register
      return ⟨call.commands, none⟩
    | root => fail s root.line (.unsupportedExpression root.kindName)
  | .member _ object name => do
    return ⟨[], some (.slot (← MonadExcept.ofExcept (s.memberSlot object name)))⟩
  | .await mark _ => fail s mark.line .await
  | .wrapped _ inner => expr inner
  | .unsupported mark kind => fail s mark.line (.unsupportedExpression kind)

/-- Expressions whose values are needed, left to right. -/
def values : List Expr → Lowering (List (Emitted Operand))
  | [] => return []
  | e :: rest => do
    let value ← needValue s e (← expr e)
    return value :: (← values rest)

/-- Expressions whose values are dropped, left to right. -/
def dropped : List Expr → Lowering (List Command)
  | [] => return []
  | e :: rest => do
    let lowered ← expr e
    return lowered.commands ++ (← dropped rest)

end

/-- An expression whose value is needed. -/
def value (e : Expr) : Lowering (Emitted Operand) := do needValue s e (← expr s e)

end Lower

end FrameScript
