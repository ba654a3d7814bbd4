/-
  What commands and call-free programs mean.

  Registers hold values of any type.  A command acts on a store of registers, each of which belongs
  to a frame; a program acts on an environment, which gives every variable its value.  Both meanings
  are functions, and both may be undefined: a script that invokes another one has no meaning by
  itself, and neither has a statement outside of the call-free part of the language.

  The two have nothing in common but the values and the operators between them (`Interpretation`).
  In particular the left side of a compound assignment is read BEFORE its right side is evaluated,
  while a command reads both of its registers at once.
-/
import FrameScript.Proofs.Runs
import FrameScript.Proofs.Spelling
import Mathlib.Logic.Function.Basic

namespace FrameScript

open Source

universe u

/-- Values, and what literals and operators do with them. -/
structure Interpretation (V : Type u) where
  number : Binary64 → V
  boolean : Bool → V
  /-- What a text stands for in a command. -/
  literal : String → V
  /-- The new value of a register, from its old one and that of the other register. -/
  combine : Op → V → V → V
  power : V → V → V
  literal_number : ∀ x, literal (literalText x) = number x
  literal_boolean : ∀ b, literal (if b then "1" else "0") = boolean b
  combine_assign : ∀ a b, combine .assign a b = b
  power_two : ∀ a, power a (number (.ofInt 2)) = combine .mul a a

/-- The registers of all frames. -/
abbrev Store (V : Type u) := Frame → String → V

/-- The variables. -/
abbrev Env (V : Type u) := String → V

variable {V : Type u}

def Store.put (σ : Store V) (frame : Frame) (register : String) (v : V) : Store V :=
  fun f r => if f = frame ∧ r = register then v else σ f r

@[simp] theorem Store.put_self (σ : Store V) (frame : Frame) (register : String) (v : V) :
    σ.put frame register v frame register = v := if_pos ⟨rfl, rfl⟩

theorem Store.put_other (σ : Store V) (frame : Frame) {register other : String} (v : V)
    (h : other ≠ register) : σ.put frame register v frame other = σ frame other :=
  if_neg fun hboth => h hboth.2

variable (I : Interpretation V)

namespace Interpretation

theorem literal_one : I.literal "1" = I.number (.ofInt 1) := by
  have htext : literalText (.ofInt 1) = "1" := by decide +kernel
  rw [← htext, I.literal_number]

theorem literal_two : I.literal "2" = I.number (.ofInt 2) := by
  have htext : literalText (.ofInt 2) = "2" := by decide +kernel
  rw [← htext, I.literal_number]

end Interpretation

/-! ## Commands -/

/-- The store after a command. -/
def Command.execute : Command → Store V → Option (Store V)
  | .set frame register text, σ => some (σ.put frame register (I.literal text))
  | .operation frame lhs op rhs, σ =>
    some (σ.put frame lhs (I.combine op (σ frame lhs) (σ frame rhs)))
  | .declare _, σ | .summon _, σ | .kill _, σ => some σ
  | .invoke _, _ => none

/-- The store after some commands. -/
def execute : List Command → Store V → Option (Store V)
  | [], σ => some σ
  | c :: rest, σ => (c.execute I σ).bind (execute rest)

theorem execute_append (a b : List Command) (σ : Store V) :
    execute I (a ++ b) σ = (execute I a σ).bind (execute I b) := by
  induction a generalizing σ with
  | nil => rfl
  | cons c rest ih =>
    show (c.execute I σ).bind (execute I (rest ++ b)) = _
    rw [execute, Option.bind_assoc]
    congr 1
    funext τ
    exact ih τ

/-- Run some commands, then some more. -/
theorem execute_append_of {a b : List Command} {σ τ υ : Store V} (ha : execute I a σ = some τ)
    (hb : execute I b τ = some υ) : execute I (a ++ b) σ = some υ := by
  rw [execute_append, ha]
  exact hb

theorem execute_declarations (names : List String) (σ : Store V) :
    execute I (declarations names) σ = some σ := by
  induction names with
  | nil => rfl
  | cons name rest ih => exact ih

/-- Opening and closing a frame touches no register. -/
theorem execute_bracket (frame : Frame) (body : List Command) (σ : Store V) :
    execute I (frame.bracket body) σ = execute I body σ := by
  cases frame with
  | none =>
    show execute I (body ++ []) σ = _
    rw [List.append_nil]
  | some tag =>
    show execute I (body ++ [.kill tag]) σ = _
    rw [execute_append]
    exact Option.bind_fun_some _

/-! ## Expressions -/

namespace Source

/-- The variable that an expression names. -/
def Expr.variable? (e : Expr) : Option String :=
  match e.unwrapped with
  | .identifier _ name => some name
  | _ => none

/-- The value that an assignment gives its target, from the old value and that of the right side. -/
def BinaryOp.assigned? : BinaryOp → Option (V → V → V)
  | .assign => some fun _ v => v
  | .addAssign => some (I.combine .add)
  | .subAssign => some (I.combine .sub)
  | .mulAssign => some (I.combine .mul)
  | .divAssign => some (I.combine .div)
  | .remAssign => some (I.combine .rem)
  | .powAssign => some I.power
  | .bitXor | .bitXorAssign | .other _ => none

/-- The value that an update gives its target. -/
def UnaryOp.updated? : UnaryOp → Option (V → V)
  | .increment => some fun v => I.combine .add v (I.number (.ofInt 1))
  | .decrement => some fun v => I.combine .sub v (I.number (.ofInt 1))
  | .other _ => none

/-- The value of an expression and the environment after it.  The value of an assignment is the
assigned one, that of an update is the new or the old one. -/
def Expr.eval : Expr → Env V → Option (V × Env V)
  | .number _ x, ρ => some (I.number x, ρ)
  | .boolean _ b, ρ => some (I.boolean b, ρ)
  | .identifier _ name, ρ => some (ρ name, ρ)
  | .wrapped _ inner, ρ => inner.eval ρ
  | .binary _ left op right, ρ =>
    match left.variable?, op.assigned? I with
    | some x, some f =>
      (right.eval ρ).map fun (v, ρ') => (f (ρ x) v, Function.update ρ' x (f (ρ x) v))
    | _, _ => none
  | .unary _ op fixity operand, ρ =>
    match operand.variable?, op.updated? I with
    | some x, some f =>
      some (match fixity with
        | .before => f (ρ x)
        | .after => ρ x, Function.update ρ x (f (ρ x)))
    | _, _ => none
  | _, _ => none

/-- The variables that an expression may change. -/
def Expr.writes : Expr → List String
  | .binary _ left _ right => left.variable?.toList ++ right.writes
  | .unary _ _ _ operand => operand.variable?.toList
  | .wrapped _ inner => inner.writes
  | _ => []

theorem Expr.eval_unwrapped (e : Expr) (ρ : Env V) : e.unwrapped.eval I ρ = e.eval I ρ := by
  fun_induction Expr.unwrapped e with
  | case1 m inner ih => exact ih
  | case2 e _ => rfl

/-- A variable that an expression does not write keeps its value. -/
theorem Expr.eval_other {e : Expr} {ρ ρ' : Env V} {v : V} (h : e.eval I ρ = some (v, ρ')) {x : String}
    (hx : x ∉ e.writes) : ρ' x = ρ x := by
  induction e generalizing ρ ρ' v with
  | number m y => cases h; rfl
  | boolean m b => cases h; rfl
  | identifier m name => cases h; rfl
  | wrapped m inner ih => exact ih h hx
  | binary m left op right _ ih =>
    rw [eval] at h
    split at h
    · next y f hleft hop =>
      obtain ⟨⟨w, ρ₁⟩, hright, heq⟩ := Option.map_eq_some_iff.mp h
      cases heq
      rw [writes, hleft] at hx
      have hxy : x ≠ y := fun heq => hx (heq ▸ List.mem_cons_self)
      have hxr : x ∉ right.writes := fun hin => hx (List.mem_cons_of_mem _ hin)
      rw [Function.update_of_ne hxy]
      exact ih hright hxr
    · cases h
  | unary m op fixity operand _ =>
    rw [eval] at h
    split at h
    · next y f hoperand hop =>
      cases h
      rw [writes, hoperand] at hx
      have hxy : x ≠ y := fun heq => hx (heq ▸ List.mem_cons_self)
      exact Function.update_of_ne hxy _ _
    · cases h
  | _ => cases h

/-! ## Statements -/

/-- The environment after a variable was declared.  Without an initializer it keeps what is there. -/
def Declarator.eval (d : Declarator) (ρ : Env V) : Option (Env V) :=
  match d.binding, d.initializer with
  | .identifier _, none => some ρ
  | .identifier x, some e => (e.eval I ρ).map fun (v, ρ') => Function.update ρ' x v
  | .pattern, _ => none

def declaratorsEval : List Declarator → Env V → Option (Env V)
  | [], ρ => some ρ
  | d :: rest, ρ => (d.eval I ρ).bind (declaratorsEval rest)

mutual

/-- The environment after a statement. -/
def Stmt.eval : Stmt → Env V → Option (Env V)
  | .block _ body, ρ => bodyEval body ρ
  | .bindings _ ds, ρ => declaratorsEval I ds ρ
  | .expression _ e, ρ => (e.eval I ρ).map (·.2)
  | _, _ => none

/-- The environment after some statements. -/
def bodyEval : List Stmt → Env V → Option (Env V)
  | [], ρ => some ρ
  | st :: rest, ρ => (st.eval ρ).bind (bodyEval rest)

end

/-! ## The call-free part of the language -/

/-- The operator combines the old value of its left side with its right side. -/
def BinaryOp.isCompound (op : BinaryOp) : Bool :=
  op.isAssignment && op ≠ .assign && op ≠ .powAssign

/-- Only literals, variables in scope, wrappers, assignments and updates occur, and no compound
assignment has its target written by its right side. -/
def Expr.callFree (scope : List String) : Expr → Bool
  | .number .. | .boolean .. => true
  | .identifier _ name => scope.contains name
  | .wrapped _ inner => inner.callFree scope
  | .binary _ left op right =>
    left.callFree scope && op.isAssignment && right.callFree scope &&
      (!op.isCompound || left.variable?.all (!right.writes.contains ·))
  | .unary _ op _ operand => op.isUpdate && operand.callFree scope
  | _ => false

def declaratorsCallFree (scope : List String) : List Declarator → Bool
  | [] => true
  | d :: rest =>
    d.initializer.all (·.callFree scope) && declaratorsCallFree (scope ++ d.binding.names) rest

mutual

/-- The variables that a statement declares. -/
def Stmt.binds : Stmt → List String
  | .block _ body => bodyBinds body
  | .bindings _ ds => ds.flatMap (·.binding.names)
  | _ => []

/-- The variables that some statements declare. -/
def bodyBinds : List Stmt → List String
  | [] => []
  | st :: rest => st.binds ++ bodyBinds rest

end

mutual

/-- Only blocks, variables and expressions occur, and variables are declared before they are used. -/
def Stmt.callFree (scope : List String) : Stmt → Bool
  | .block _ body => bodyCallFree scope body
  | .bindings _ ds => declaratorsCallFree scope ds
  | .expression _ e => e.callFree scope
  | _ => false

def bodyCallFree (scope : List String) : List Stmt → Bool
  | [] => true
  | st :: rest => st.callFree scope && bodyCallFree (scope ++ st.binds) rest

end

theorem Expr.callFree_unwrapped (scope : List String) (e : Expr) :
    e.unwrapped.callFree scope = e.callFree scope := by
  fun_induction Expr.unwrapped e with
  | case1 m inner ih => exact ih
  | case2 e _ => rfl

end Source

end FrameScript
