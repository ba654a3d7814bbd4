/-
  What kind of commands come out of an expression.

  An expression lowers to `invoke`, and to `set` and `operation` in the active frame.  It never
  declares a register by a command, and it opens and closes no frame.
-/
import FrameScript.Proofs.Expressions

namespace FrameScript

open Source

/-- A command of a script body: an `invoke`, or a `set` or `operation` in the given frame. -/
def Command.InFrame (frame : Frame) : Command → Prop
  | .set f _ _ => f = frame
  | .operation f _ _ _ => f = frame
  | .invoke _ => True
  | .declare _ | .summon _ | .kill _ => False

namespace Lower

variable {s : Surroundings}

theorem inFrame_assign (slot : String) (v : Operand) : (assign s slot v).InFrame s.frame := by
  cases v <;> rfl

theorem inFrame_stage (v : Operand) (fx : Effects) :
    ∀ c ∈ (stage s v fx).1.commands, c.InFrame s.frame := by
  intro c hc
  cases v with
  | immediate text =>
    obtain rfl := List.mem_singleton.mp hc
    exact rfl
  | slot register => exact absurd hc List.not_mem_nil

theorem inFrame_updated (target : String) (code : Op) (keepOld : Bool) (fx : Effects) :
    ∀ c ∈ (updated s target code keepOld fx).1.commands, c.InFrame s.frame := by
  intro c hc
  cases keepOld with
  | true =>
    have hc' : c = operate s fx.scratch .assign target ∨
        c = .set s.frame fx.scratched.scratch "1" ∨
        c = operate s target code fx.scratched.scratch := by simpa [updated] using hc
    rcases hc' with rfl | rfl | rfl <;> rfl
  | false =>
    have hc' : c = .set s.frame fx.scratch "1" ∨ c = operate s target code fx.scratch := by
      simpa [updated] using hc
    rcases hc' with rfl | rfl <;> rfl

theorem inFrame_protect (endangered : Bool) (v : Operand) (fx : Effects) :
    ∀ c ∈ (protect s endangered v fx).1.commands, c.InFrame s.frame := by
  intro c hc
  cases v with
  | immediate text => exact absurd hc List.not_mem_nil
  | slot register =>
    cases endangered with
    | true =>
      obtain rfl := List.mem_singleton.mp hc
      exact rfl
    | false => exact absurd hc List.not_mem_nil

theorem inFrame_settle {arguments : List (Emitted Operand)}
    (h : ∀ a ∈ arguments, ∀ c ∈ a.commands, c.InFrame s.frame) (fx : Effects) :
    ∀ c ∈ (settle s arguments fx).1.commands, c.InFrame s.frame := by
  induction arguments generalizing fx with
  | nil => exact fun c hc => absurd hc List.not_mem_nil
  | cons a rest ih =>
    intro c hc
    rw [settle_cons] at hc
    rcases List.mem_append.mp hc with hc | hc
    · rcases List.mem_append.mp hc with hc | hc
      · exact h a List.mem_cons_self c hc
      · exact inFrame_protect _ _ _ c hc
    · exact ih (fun b hb => h b (List.mem_cons_of_mem a hb)) _ c hc

theorem inFrame_copyIn (params : List ParamSlot) (vs : List Operand) :
    ∀ c ∈ copyIn s params vs, c.InFrame s.frame := by
  intro c hc
  obtain ⟨⟨param, v⟩, -, rfl⟩ := List.mem_map.mp hc
  exact inFrame_assign param.slot v

theorem inFrame_callCommands {arguments : List (Emitted Operand)}
    (h : ∀ a ∈ arguments, ∀ c ∈ a.commands, c.InFrame s.frame) (path : String)
    (callable : Callable) (fx : Effects) :
    ∀ c ∈ callCommands s path callable arguments fx, c.InFrame s.frame := by
  intro c hc
  rcases List.mem_append.mp hc with hc | hc
  · rcases List.mem_append.mp hc with hc | hc
    · exact inFrame_settle h fx c hc
    · exact inFrame_copyIn _ _ c hc
  · obtain rfl := List.mem_singleton.mp hc
    exact trivial

/-- The expression lowers to commands of its frame only. -/
def EmitsInFrame (s : Surroundings) (e : Expr) : Prop :=
  ∀ {fx gx : Effects} {out : Emitted (Option Operand)}, (expr s e).run fx = (.ok out, gx) →
    ∀ c ∈ out.commands, c.InFrame s.frame

theorem inFrame_values {args : List Expr} (h : ∀ a ∈ args, EmitsInFrame s a) {fx gx : Effects}
    {out : List (Emitted Operand)} (hrun : (values s args).run fx = (.ok out, gx)) :
    ∀ a ∈ out, ∀ c ∈ a.commands, c.InFrame s.frame := by
  induction args generalizing fx out with
  | nil => cases hrun; exact fun a ha => absurd ha List.not_mem_nil
  | cons e rest ih =>
    obtain ⟨first, others, hx, hexpr, hrest, rfl⟩ := values_cons_ok hrun
    intro a ha c hc
    rcases List.mem_cons.mp ha with rfl | ha
    · exact h e List.mem_cons_self hexpr c hc
    · exact ih (fun b hb => h b (List.mem_cons_of_mem e hb)) hrest a ha c hc

theorem inFrame_dropped {args : List Expr} (h : ∀ a ∈ args, EmitsInFrame s a) {fx gx : Effects}
    {out : List Command} (hrun : (dropped s args).run fx = (.ok out, gx)) :
    ∀ c ∈ out, c.InFrame s.frame := by
  induction args generalizing fx out with
  | nil => cases hrun; exact fun c hc => absurd hc List.not_mem_nil
  | cons e rest ih =>
    obtain ⟨first, others, hx, hexpr, hrest, rfl⟩ := dropped_cons_ok hrun
    intro c hc
    rcases List.mem_append.mp hc with hc | hc
    · exact h e List.mem_cons_self hexpr c hc
    · exact ih (fun b hb => h b (List.mem_cons_of_mem e hb)) hrest c hc

theorem inFrame_invoked {commands : List Command} (h : ∀ c ∈ commands, c.InFrame s.frame)
    (path : String) : ∀ c ∈ commands ++ [.invoke path], c.InFrame s.frame := by
  intro c hc
  rcases List.mem_append.mp hc with hc | hc
  · exact h c hc
  · obtain rfl := List.mem_singleton.mp hc
    exact trivial

/-- **Every expression lowers to commands of its frame only.** -/
theorem emitsInFrame (s : Surroundings) (e : Expr) : EmitsInFrame s e := by
  induction e with
  | binary m left op right _ ih =>
    intro fx gx out hrun c hc
    cases lowered_of_run hrun with
    | store _ hcode htarget hright =>
      rcases List.mem_append.mp hc with hc | hc
      · rcases List.mem_append.mp hc with hc | hc
        · exact ih hright c hc
        · exact inFrame_stage _ _ c hc
      · obtain rfl := List.mem_singleton.mp hc
        exact rfl
    | square _ htarget hright =>
      rcases List.mem_append.mp hc with hc | hc
      · exact ih hright c hc
      · rcases List.mem_cons.mp hc with rfl | hc
        · exact rfl
        · obtain rfl := List.mem_singleton.mp hc
          exact rfl
  | unary m op fixity operand _ =>
    intro fx gx out hrun c hc
    cases lowered_of_run hrun with
    | update _ _ _ hop htarget => exact inFrame_updated _ _ _ _ c hc
  | call m callee args ihc iha =>
    intro fx gx out hrun c hc
    cases lowered_of_run hrun with
    | callKnown _ hnamed hknown hargs =>
      exact inFrame_callCommands (inFrame_values iha hargs) _ _ _ c hc
    | callUnknown _ hnamed hunknown hargs =>
      exact inFrame_invoked (inFrame_dropped iha hargs) _ c hc
    | callComputed _ hnamed hcallee hargs =>
      rcases List.mem_append.mp hc with hc | hc
      · exact ihc hcallee c hc
      · exact inFrame_invoked (inFrame_dropped iha hargs) _ c hc
  | construct m callee args _ iha =>
    intro fx gx out hrun c hc
    cases lowered_of_run hrun with
    | constructKnown _ hname hknown hargs =>
      exact inFrame_callCommands (inFrame_values iha hargs) _ _ _ c hc
    | constructUnknown _ hname hunknown hargs =>
      exact inFrame_invoked (inFrame_dropped iha hargs) _ c hc
  | wrapped m inner ih =>
    intro fx gx out hrun c hc
    cases lowered_of_run hrun with
    | wrapped _ hinner => exact ih hinner c hc
  | _ =>
    -- all else emits nothing
    intro fx gx out hrun c hc
    cases lowered_of_run hrun <;> exact absurd hc List.not_mem_nil

end Lower

end FrameScript
