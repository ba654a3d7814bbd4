/-
  The effects of lowering an expression.

  Whether or not an expression lowers, all that its lowering does to a session is to mint and declare
  some registers and to add some warnings at the end: `Effects.Extends`.  The file computes the runs
  of the parts that expressions are lowered with, one equation each, and then shows the bound by
  induction on the expression.  The induction is about any relation between effects that admits the
  steps of lowering an expression (`Effects.Admits.expr`); the bound is one of them (`keeps_expr`).
-/
import FrameScript.Compile
import FrameScript.Proofs.Minting
import FrameScript.Proofs.Running

namespace FrameScript

open Source

/-! ## Induction on expressions -/

/-- Induction on an expression, with the arguments of a call among its parts. -/
@[induction_eliminator]
theorem Source.Expr.parts_induction {P : Expr → Prop}
    (number : ∀ m x, P (.number m x)) (boolean : ∀ m b, P (.boolean m b))
    (null : ∀ m, P (.null m)) (identifier : ∀ m name, P (.identifier m name))
    (this : ∀ m, P (.this m)) (super : ∀ m, P (.super m))
    (binary : ∀ m left op right, P left → P right → P (.binary m left op right))
    (unary : ∀ m op fixity operand, P operand → P (.unary m op fixity operand))
    (call : ∀ m callee args, P callee → (∀ a ∈ args, P a) → P (.call m callee args))
    (construct : ∀ m callee args, P callee → (∀ a ∈ args, P a) → P (.construct m callee args))
    (member : ∀ m object name, P object → P (.member m object name))
    (await : ∀ m operand, P operand → P (.await m operand))
    (wrapped : ∀ m inner, P inner → P (.wrapped m inner))
    (unsupported : ∀ m kind, P (.unsupported m kind)) : ∀ e, P e := by
  intro e
  refine @Expr.rec P (fun args => ∀ a ∈ args, P a) number boolean null identifier this super binary
    unary call construct member await wrapped unsupported ?_ ?_ e
  · exact fun a ha => absurd ha List.not_mem_nil
  · intro first rest hfirst hrest a ha
    rcases List.mem_cons.mp ha with rfl | ha
    · exact hfirst
    · exact hrest a ha

/-! ## Fresh registers and warnings -/

namespace Allocator

/-- The registers minted next, in order. -/
def nextRegisters (a : Allocator) (k : Nat) : List String :=
  (List.range' (a.registers + 1) k).map mintedRegister

/-- The allocator after minting and declaring some registers. -/
def staged (a : Allocator) (k : Nat) : Allocator :=
  { a with registers := a.registers + k, preamble := a.preamble ++ a.nextRegisters k }

@[simp] theorem staged_zero (a : Allocator) : a.staged 0 = a := by
  simp [staged, nextRegisters]

theorem nextRegisters_add (a : Allocator) (j k : Nat) :
    a.nextRegisters (j + k) = a.nextRegisters j ++ (a.staged j).nextRegisters k := by
  have hstart : a.registers + 1 + j = a.registers + j + 1 := by omega
  rw [nextRegisters, nextRegisters, nextRegisters, staged, ← List.map_append,
    ← List.range'_append_1, hstart]

theorem staged_staged (a : Allocator) (j k : Nat) : (a.staged j).staged k = a.staged (j + k) := by
  have hnames := nextRegisters_add a j k
  simp only [staged] at hnames ⊢
  rw [hnames, List.append_assoc, Nat.add_assoc]

/-- Staging is a run of the allocator that hands out just those registers. -/
theorem mints_staged (a : Allocator) (k : Nat) : Mints a (a.nextRegisters k) (a.staged k) := by
  induction k generalizing a with
  | zero => simpa [nextRegisters] using Mints.nothing a
  | succ k ih =>
    have hrest := ih (a.staged 1)
    rw [staged_staged, Nat.add_comm 1 k] at hrest
    have hnames : a.nextRegisters (k + 1) = a.freshRegister.1 :: (a.staged 1).nextRegisters k := by
      rw [Nat.add_comm k 1, nextRegisters_add]
      rfl
    rw [hnames]
    exact .register hrest

end Allocator

namespace Effects

/-- The register that is minted next. -/
def scratch (fx : Effects) : String := mintedRegister (fx.allocator.registers + 1)

/-- The effects after that register was minted. -/
def scratched (fx : Effects) : Effects := { fx with allocator := fx.allocator.staged 1 }

/-- The effects after a warning. -/
def warned (fx : Effects) (w : Diagnostic) : Effects := { fx with warnings := fx.warnings ++ [w] }

/-- The effects after a warning that is given on a condition. -/
def warnedIf (fx : Effects) (c : Prop) [Decidable c] (w : Diagnostic) : Effects :=
  if c then fx.warned w else fx

/-- All that lowering an expression changes: registers are minted and declared, and warnings are
added at the end. -/
structure Extends (fx gx : Effects) : Prop where
  allocator : ∃ k, gx.allocator = fx.allocator.staged k
  warnings : fx.warnings <+: gx.warnings

namespace Extends

theorem refl (fx : Effects) : Extends fx fx where
  allocator := ⟨0, (Allocator.staged_zero _).symm⟩
  warnings := List.prefix_refl _

theorem trans {fx gx hx : Effects} (h : Extends fx gx) (h' : Extends gx hx) : Extends fx hx where
  allocator := by
    obtain ⟨j, hj⟩ := h.allocator
    obtain ⟨k, hk⟩ := h'.allocator
    exact ⟨j + k, by rw [hk, hj, Allocator.staged_staged]⟩
  warnings := h.warnings.trans h'.warnings

theorem scratched (fx : Effects) : Extends fx fx.scratched where
  allocator := ⟨1, rfl⟩
  warnings := List.prefix_refl _

theorem warned (fx : Effects) (w : Diagnostic) : Extends fx (fx.warned w) where
  allocator := ⟨0, (Allocator.staged_zero _).symm⟩
  warnings := List.prefix_append _ _

end Extends

end Effects

namespace Lower

open Effects (Extends)

variable (s : Surroundings)

/-! ## The parts of the lowering, run -/

@[simp] theorem run_fail {α : Type} (line : Nat) (cause : Cause) (fx : Effects) :
    (fail s line cause : Lowering α).run fx = (.error (s.error line cause), fx) := rfl

@[simp] theorem run_warn (line : Nat) (message : String) (fx : Effects) :
    (warn s line message).run fx = (.ok (), fx.warned (s.warning line message)) := rfl

@[simp] theorem stage_slot (register : String) (fx : Effects) :
    stage s (.slot register) fx = (⟨[], register⟩, fx) := rfl

@[simp] theorem stage_immediate (text : String) (fx : Effects) :
    stage s (.immediate text) fx =
      (⟨[.set s.frame fx.scratch text], fx.scratch⟩, fx.scratched) := rfl

theorem run_store (target : String) (op : Op) (value : Emitted Operand) (fx : Effects) :
    (store s target op value).run fx =
      let staged := stage s value.value fx
      (.ok ⟨value.commands ++ staged.1.commands ++ [operate s target op staged.1.value],
        some (.slot target)⟩, staged.2) := by
  simp only [store, run_bind, run_liftM, run_pure]

/-- The warning that comes with every square. -/
def squareWarning (line : Nat) : Diagnostic :=
  s.warning line "`**=` is lowered as a square by repeated multiplication"

theorem run_square (line : Nat) (target : String) (exponent : Expr) (value : Emitted Operand)
    (fx : Effects) : (square s line target exponent value).run fx =
      if value.value = .immediate "2" then
        (.ok ⟨value.commands ++ [operate s fx.scratch .assign target,
          operate s target .mul fx.scratch], some (.slot target)⟩,
          (fx.warned (squareWarning s line)).scratched)
      else (.error (s.error exponent.line .unsupportedExponent), fx) := by
  unfold square
  by_cases h : value.value = .immediate "2"
  · simp only [h, ne_eq, not_true, if_false, if_true, run_bind, run_warn, run_liftM, run_pure]
    rfl
  · simp only [h, ne_eq, not_false_eq_true, if_true, if_false, run_bind, run_fail]

/-- The operation of an update. -/
def updateOp? : UnaryOp → Option Op
  | .increment => some .add
  | .decrement => some .sub
  | .other _ => none

/-- What an update of a slot becomes. -/
def updated (target : String) (code : Op) (keepOld : Bool) (fx : Effects) :
    Emitted (Option Operand) × Effects :=
  if keepOld then
    (⟨[operate s fx.scratch .assign target, .set s.frame fx.scratched.scratch "1",
      operate s target code fx.scratched.scratch], some (.slot fx.scratch)⟩, fx.scratched.scratched)
  else
    (⟨[.set s.frame fx.scratch "1", operate s target code fx.scratch], some (.slot target)⟩,
      fx.scratched)

theorem run_update_ok {line : Nat} {op : UnaryOp} {operand : Expr} {keepOld : Bool} {fx : Effects}
    {code : Op} {target : String} (hop : updateOp? op = some code)
    (htarget : s.targetSlot operand = .ok target) :
    (update s line op operand keepOld).run fx =
      (.ok (updated s target code keepOld fx).1, (updated s target code keepOld fx).2) := by
  cases op <;> simp only [updateOp?, Option.some.injEq, reduceCtorEq] at hop <;> subst hop <;>
    cases keepOld <;>
    simp only [update, updated, run_bind, run_pure, htarget, run_ofExcept_ok, run_liftM,
      Bool.false_eq_true, if_true, if_false] <;> rfl

theorem run_update_error (line : Nat) {op : UnaryOp} {operand : Expr} (keepOld : Bool) (fx : Effects)
    (h : updateOp? op = none ∨ ∃ e, s.targetSlot operand = .error e) :
    ∃ e, (update s line op operand keepOld).run fx = (.error e, fx) := by
  cases op with
  | other token => exact ⟨_, by simp only [update, run_bind, run_fail]; rfl⟩
  | increment =>
    obtain ⟨e, he⟩ := h.resolve_left (by simp [updateOp?])
    exact ⟨e, by simp only [update, run_bind, run_pure, he, run_ofExcept_error]⟩
  | decrement =>
    obtain ⟨e, he⟩ := h.resolve_left (by simp [updateOp?])
    exact ⟨e, by simp only [update, run_bind, run_pure, he, run_ofExcept_error]⟩

/-! ## Arguments -/

theorem settle_cons (argument : Emitted Operand) (rest : List (Emitted Operand)) (fx : Effects) :
    settle s (argument :: rest) fx =
      let kept := protect s (rest.any fun later => !later.commands.isEmpty) argument.value fx
      let others := settle s rest kept.2
      (⟨argument.commands ++ kept.1.commands ++ others.1.commands,
        kept.1.value :: others.1.value⟩, others.2) := rfl

/-- An operand is passed on as it is, or copied.  In the first case it is a literal, or nothing more
is executed. -/
theorem protect_cases (argument : Emitted Operand) (rest : List (Emitted Operand)) (fx : Effects) :
    (protect s (rest.any fun later => !later.commands.isEmpty) argument.value fx =
        (⟨[], argument.value⟩, fx) ∧
      ((∃ text, argument.value = .immediate text) ∨ ∀ later ∈ rest, later.commands = [])) ∨
    ∃ register, argument.value = .slot register ∧
      protect s (rest.any fun later => !later.commands.isEmpty) argument.value fx =
        (⟨[operate s fx.scratch .assign register], .slot fx.scratch⟩, fx.scratched) := by
  cases hvalue : argument.value with
  | immediate text => exact .inl ⟨rfl, .inl ⟨text, rfl⟩⟩
  | slot register =>
    cases hlater : rest.any fun later => !later.commands.isEmpty with
    | true => exact .inr ⟨register, rfl, rfl⟩
    | false =>
      refine .inl ⟨rfl, .inr fun later hin => ?_⟩
      have hempty := List.any_eq_false.mp hlater later hin
      rw [Bool.not_eq_true, Bool.not_eq_false'] at hempty
      exact List.isEmpty_iff.mp hempty

/-- The warning about arguments that no parameter takes. -/
def surplusWarning (line : Nat) (path : String) (callable : Callable) (count : Nat) : Diagnostic :=
  s.warning line s!"{count - callable.params.length} surplus argument(s) to `{path}` are dropped"

/-- The warning about arguments whose parameters are unknown. -/
def droppedWarning (line : Nat) (path : String) : Diagnostic :=
  s.warning line s!"arguments to `{path}` are dropped: its parameters are unknown"

theorem run_invokeKnown (line : Nat) (path : String) (callable : Callable)
    (arguments : List (Emitted Operand)) (fx : Effects) :
    (invokeKnown s line path callable arguments).run fx =
      let settled := settle s arguments fx
      (.ok ⟨settled.1.commands ++ copyIn s callable.params settled.1.value ++ [.invoke path],
        callable.returnSlot.map .slot⟩,
        settled.2.warnedIf (callable.params.length < arguments.length)
          (surplusWarning s line path callable arguments.length)) := by
  by_cases h : callable.params.length < arguments.length
  · simp only [invokeKnown, run_bind, run_liftM, if_pos h, run_warn, run_pure, Effects.warnedIf]
    rfl
  · simp only [invokeKnown, run_bind, run_liftM, if_neg h, run_pure, Effects.warnedIf]

theorem run_invokeUnknown (line : Nat) (path : String) (count : Nat) (arguments : List Command)
    (fx : Effects) : (invokeUnknown s line path count arguments).run fx =
      (.ok ⟨arguments ++ [.invoke path], none⟩,
        fx.warnedIf (0 < count) (droppedWarning s line path)) := by
  by_cases h : 0 < count
  · simp only [invokeUnknown, run_bind, if_pos h, run_warn, run_pure, Effects.warnedIf]
    rfl
  · simp only [invokeUnknown, if_neg h, run_pure, Effects.warnedIf]

end Lower

/-! ## The effects of every lowering -/

/-- A relation between effects that admits every step of lowering an expression. -/
structure Effects.Admits (R : Effects → Effects → Prop) : Prop where
  refl : ∀ fx, R fx fx
  trans : ∀ {fx gx hx}, R fx gx → R gx hx → R fx hx
  scratched : ∀ fx : Effects, R fx fx.scratched
  square : ∀ s line (fx : Effects), R fx (fx.warned (Lower.squareWarning s line))
  surplus : ∀ s line path callable count (fx : Effects),
    R fx (fx.warned (Lower.surplusWarning s line path callable count))
  dropped : ∀ s line path (fx : Effects), R fx (fx.warned (Lower.droppedWarning s line path))

namespace Effects.Admits

variable {R : Effects → Effects → Prop} (h : Admits R) (s : Surroundings)
include h

theorem warnedIf {w : Diagnostic} (hw : ∀ fx : Effects, R fx (fx.warned w)) (c : Prop) [Decidable c]
    (fx : Effects) : R fx (fx.warnedIf c w) := by
  unfold Effects.warnedIf
  split
  · exact hw fx
  · exact h.refl fx

theorem stage (v : Operand) (fx : Effects) : R fx (Lower.stage s v fx).2 := by
  cases v with
  | immediate text => exact h.scratched fx
  | slot register => exact h.refl fx

/-- The effects of keeping the operands of arguments from being overwritten. -/
theorem protect (endangered : Bool) (v : Operand) (fx : Effects) :
    R fx (Lower.protect s endangered v fx).2 := by
  cases v with
  | immediate text => exact h.refl fx
  | slot register =>
    cases endangered with
    | true => exact h.scratched fx
    | false => exact h.refl fx

theorem settle (arguments : List (Emitted Operand)) (fx : Effects) :
    R fx (Lower.settle s arguments fx).2 := by
  induction arguments generalizing fx with
  | nil => exact h.refl fx
  | cons argument rest ih =>
    rw [Lower.settle_cons]
    exact h.trans (h.protect s _ argument.value fx) (ih _)

theorem updated (target : String) (code : Op) (keepOld : Bool) (fx : Effects) :
    R fx (Lower.updated s target code keepOld fx).2 := by
  cases keepOld with
  | true => exact h.trans (h.scratched fx) (h.scratched _)
  | false => exact h.scratched fx

/-- Run one action after the other. -/
theorem bind {α β : Type} {m : Lowering α} {f : α → Lowering β} (hm : Keeps R m)
    (hf : ∀ a, Keeps R (f a)) : Keeps R (m >>= f) :=
  Keeps.bind (R := R) h.trans hm hf

theorem ofExcept {α : Type} (x : Except LowerError α) :
    Keeps R (MonadExcept.ofExcept x : Lowering α) :=
  Keeps.ofExcept h.refl x

theorem pure {α : Type} (a : α) : Keeps R (Pure.pure a : Lowering α) := Keeps.pure h.refl a

theorem fail {α : Type} (line : Nat) (cause : Cause) :
    Keeps R (Lower.fail s line cause : Lowering α) := fun fx => h.refl fx

theorem needValue (e : Expr) (lowered : Emitted (Option Operand)) :
    Keeps R (Lower.needValue s e lowered) := by
  unfold Lower.needValue
  split
  · exact h.pure _
  · exact h.fail s _ _

theorem store (target : String) (op : Op) (value : Emitted Operand) :
    Keeps R (Lower.store s target op value) := by
  intro fx
  rw [Lower.run_store]
  exact h.stage s value.value fx

theorem squared (line : Nat) (target : String) (exponent : Expr) (value : Emitted Operand) :
    Keeps R (Lower.square s line target exponent value) := by
  intro fx
  rw [Lower.run_square]
  split
  · exact h.trans (h.square s line fx) (h.scratched _)
  · exact h.refl fx

theorem update (line : Nat) (op : UnaryOp) (operand : Expr) (keepOld : Bool) :
    Keeps R (Lower.update s line op operand keepOld) := by
  intro fx
  cases hop : Lower.updateOp? op with
  | none =>
    obtain ⟨e, he⟩ : ∃ e, (Lower.update s line op operand keepOld).run fx = (.error e, fx) :=
      Lower.run_update_error s line keepOld fx (.inl hop)
    rw [he]
    exact h.refl fx
  | some code =>
    cases htarget : s.targetSlot operand with
    | error e =>
      obtain ⟨e, he⟩ : ∃ e, (Lower.update s line op operand keepOld).run fx = (.error e, fx) :=
        Lower.run_update_error s line keepOld fx (.inr ⟨e, htarget⟩)
      rw [he]
      exact h.refl fx
    | ok target =>
      rw [Lower.run_update_ok s hop htarget]
      exact h.updated s target code keepOld fx

theorem invoke (line : Nat) (callee : Callee) (count : Nat)
    {values : Lowering (List (Emitted Operand))} {dropped : Lowering (List Command)}
    (hv : Keeps R values) (hd : Keeps R dropped) :
    Keeps R (Lower.invoke s line callee count values dropped) := by
  unfold Lower.invoke
  split
  · refine h.bind hv fun arguments fx => ?_
    rw [Lower.run_invokeKnown]
    exact h.trans (h.settle s arguments fx) (h.warnedIf (h.surplus s _ _ _ _) _ _)
  · refine h.bind hd fun commands fx => ?_
    rw [Lower.run_invokeUnknown]
    exact h.warnedIf (h.dropped s _ _) _ fx

theorem computedCallee (callee : Expr) (lowered : Emitted (Option Operand)) :
    Keeps R (Lower.computedCallee s callee lowered) := by
  unfold Lower.computedCallee
  refine h.bind (h.needValue s _ lowered) fun value => ?_
  split
  · exact h.pure _
  · exact h.fail s _ _

theorem values {args : List Expr} (hargs : ∀ a ∈ args, Keeps R (Lower.expr s a)) :
    Keeps R (Lower.values s args) := by
  induction args with
  | nil => exact h.pure _
  | cons a rest ih =>
    have hrest := ih fun b hb => hargs b (List.mem_cons_of_mem a hb)
    rw [Lower.values]
    refine h.bind (hargs a List.mem_cons_self) fun lowered => ?_
    refine h.bind (h.needValue s a lowered) fun value => ?_
    exact h.bind hrest fun others => h.pure _

theorem droppedArguments {args : List Expr} (hargs : ∀ a ∈ args, Keeps R (Lower.expr s a)) :
    Keeps R (Lower.dropped s args) := by
  induction args with
  | nil => exact h.pure _
  | cons a rest ih =>
    have hrest := ih fun b hb => hargs b (List.mem_cons_of_mem a hb)
    rw [Lower.dropped]
    refine h.bind (hargs a List.mem_cons_self) fun lowered => ?_
    exact h.bind hrest fun others => h.pure _

/-- **Lowering an expression keeps what its steps keep**, whether it succeeds or fails. -/
theorem expr (e : Expr) : Keeps R (Lower.expr s e) := by
  induction e with
  | number m x => rw [Lower.expr]; exact h.pure _
  | boolean m b => rw [Lower.expr]; exact h.pure _
  | null m => rw [Lower.expr]; exact h.fail s _ _
  | identifier m name => rw [Lower.expr]; exact h.pure _
  | this m => rw [Lower.expr]; exact h.bind (h.ofExcept _) fun _ => h.pure _
  | super m => rw [Lower.expr]; exact h.bind (h.ofExcept _) fun _ => h.pure _
  | binary m left op right _ ih =>
    rw [Lower.expr.eq_def]
    dsimp only
    split
    · refine h.bind (h.ofExcept _) fun target => ?_
      refine h.bind ih fun lowered => ?_
      exact h.bind (h.needValue s right lowered) fun value => h.squared s _ _ _ _
    · refine h.bind (h.ofExcept _) fun target => ?_
      refine h.bind ih fun lowered => ?_
      exact h.bind (h.needValue s right lowered) fun value => h.store s _ _ _
    · exact h.fail s _ _
  | unary m op fixity operand _ => rw [Lower.expr]; exact h.update s _ _ _ _
  | call m callee args ihc iha =>
    have hinvoke := fun head => h.invoke s m.line head args.length (h.values s iha)
      (h.droppedArguments s iha)
    rw [Lower.expr]
    refine h.bind (h.ofExcept _) fun named => ?_
    split
    · refine h.bind (h.pure _) fun head => ?_
      exact h.bind (hinvoke _) fun call => h.pure _
    · refine h.bind ihc fun lowered => ?_
      refine h.bind (h.computedCallee s callee lowered) fun head => ?_
      exact h.bind (hinvoke _) fun call => h.pure _
  | construct m callee args _ iha =>
    rw [Lower.expr]
    split
    · refine h.bind ?_ fun call => h.pure _
      exact h.invoke s m.line _ args.length (h.values s iha) (h.droppedArguments s iha)
    · exact h.fail s _ _
  | member m object name _ => rw [Lower.expr]; exact h.bind (h.ofExcept _) fun _ => h.pure _
  | await m operand _ => rw [Lower.expr]; exact h.fail s _ _
  | wrapped m inner ih => rw [Lower.expr]; exact ih
  | unsupported m kind => rw [Lower.expr]; exact h.fail s _ _

/-- An expression whose value is needed. -/
theorem value (e : Expr) : Keeps R (Lower.value s e) :=
  h.bind (h.expr s e) fun lowered => h.needValue s e lowered

end Effects.Admits

/-! ## Registers and warnings are added -/

theorem Effects.Extends.admits : Effects.Admits Effects.Extends where
  refl := .refl
  trans := .trans
  scratched := .scratched
  square := fun _ _ fx => .warned fx _
  surplus := fun _ _ _ _ _ fx => .warned fx _
  dropped := fun _ _ _ fx => .warned fx _

namespace Lower

open Effects (Extends)

variable (s : Surroundings)

theorem extends_stage (v : Operand) (fx : Effects) : Extends fx (stage s v fx).2 :=
  Extends.admits.stage s v fx

theorem extends_settle (arguments : List (Emitted Operand)) (fx : Effects) :
    Extends fx (settle s arguments fx).2 := Extends.admits.settle s arguments fx

theorem extends_updated (target : String) (code : Op) (keepOld : Bool) (fx : Effects) :
    Extends fx (updated s target code keepOld fx).2 := Extends.admits.updated s target code keepOld fx

theorem keeps_values {args : List Expr} (h : ∀ a ∈ args, Keeps Extends (expr s a)) :
    Keeps Extends (values s args) := Extends.admits.values s h

theorem keeps_dropped {args : List Expr} (h : ∀ a ∈ args, Keeps Extends (expr s a)) :
    Keeps Extends (dropped s args) := Extends.admits.droppedArguments s h

/-- **The effects of an expression.**  Whether it lowers or fails, registers are minted and
declared, warnings are added, and nothing else happens. -/
theorem keeps_expr (e : Expr) : Keeps Extends (expr s e) := Extends.admits.expr s e

end Lower

end FrameScript
