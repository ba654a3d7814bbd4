/-
  Scripts and warnings.

  A warning of the compiler is of one of two sorts.  One sort says that a script is produced twice, and
  comes with storing a script; all other warnings are `Ordinary`.  The message tells them apart, by its
  first letter already.

  Where no script is stored lowering only murmurs: it adds ordinary warnings or none.  That is so for
  expressions (`Lower.murmurs_expr`) and for the steps of lowering that are not scripts.
-/
import FrameScript.Proofs.Runs

namespace FrameScript

open Source

/-- A warning about anything but a script that is produced twice: only those begin with an `s`. -/
def Diagnostic.Ordinary (w : Diagnostic) : Prop := w.message.toList.head? ≠ some 's'

/-- From one list of warnings to the other there are ordinary ones and nothing else. -/
def Murmurs (before after : List Diagnostic) : Prop :=
  ∃ ws, (∀ w ∈ ws, w.Ordinary) ∧ after = before ++ ws

namespace Murmurs

variable {before between after : List Diagnostic}

theorem refl (before : List Diagnostic) : Murmurs before before :=
  ⟨[], fun _ hw => absurd hw List.not_mem_nil, (List.append_nil before).symm⟩

theorem of_eq (h : after = before) : Murmurs before after := h ▸ refl before

theorem trans (h : Murmurs before between) (h' : Murmurs between after) : Murmurs before after := by
  obtain ⟨ws, hws, rfl⟩ := h
  obtain ⟨ws', hws', rfl⟩ := h'
  refine ⟨ws ++ ws', fun w hw => ?_, List.append_assoc before ws ws'⟩
  rcases List.mem_append.mp hw with hw | hw
  · exact hws w hw
  · exact hws' w hw

theorem single {w : Diagnostic} (h : w.Ordinary) : Murmurs before (before ++ [w]) :=
  ⟨[w], fun _ hw => List.mem_singleton.mp hw ▸ h, rfl⟩

theorem warnedIf (fx : Effects) (c : Prop) [Decidable c] {w : Diagnostic} (h : w.Ordinary) :
    Murmurs fx.warnings (fx.warnedIf c w).warnings := by
  unfold Effects.warnedIf
  split
  · exact single h
  · exact refl _

end Murmurs

/-! ## Messages -/

theorem head?_append {a b : String} {c : Char} (h : a.toList.head? = some c) :
    (a ++ b).toList.head? = some c := by
  rw [String.toList_append, List.head?_append, h]
  rfl

/-- A message with a known first letter. -/
theorem Diagnostic.ordinary_of_head {w : Diagnostic} {c : Char} (h : w.message.toList.head? = some c)
    (hc : c ≠ 's') : w.Ordinary := by
  intro hs
  exact hc (Option.some.inj (h.symm.trans hs))

/-- A number begins with a digit. -/
theorem head?_number (n : Nat) (rest : String) {c : Char} (hc : c.isDigit = false) :
    (toString n ++ rest).toList.head? ≠ some c := by
  intro hs
  cases hhead : (toString n).toList.head? with
  | none =>
    have hnil : (toString n).toList = [] := List.head?_eq_none_iff.mp hhead
    rw [Nat.toString_eq_repr, Nat.toList_repr] at hnil
    exact absurd hnil (by simp)
  | some d =>
    rw [head?_append hhead] at hs
    rw [Nat.toString_eq_repr, Nat.toList_repr] at hhead
    have hdigit : d.isDigit = true :=
      Nat.isDigit_of_mem_toDigits (by decide) (by decide) (List.mem_of_head? hhead)
    rw [Option.some.inj hs, hc] at hdigit
    cases hdigit

/-! ## Expressions -/

namespace Lower

variable {q : Surroundings}

theorem head?_dropped (line : Nat) (path : String) :
    (droppedWarning q line path).message.toList.head? = some 'a' := head?_append (head?_append rfl)

theorem head?_surplus (line : Nat) (path : String) (callable : Callable) (count : Nat) {c : Char}
    (hc : c.isDigit = false) :
    (surplusWarning q line path callable count).message.toList.head? ≠ some c := by
  intro hs
  refine head?_number (count - callable.params.length)
    (" surplus argument(s) to `" ++ path ++ "` are dropped") hc ?_
  rw [← hs]
  simp only [surplusWarning, Surroundings.warning, toString, String.append_assoc]

theorem ordinary_square (line : Nat) : (squareWarning q line).Ordinary := by
  show "`**=` is lowered as a square by repeated multiplication".toList.head? ≠ some 's'
  decide

theorem ordinary_dropped (line : Nat) (path : String) : (droppedWarning q line path).Ordinary :=
  Diagnostic.ordinary_of_head (head?_dropped line path) (by decide)

theorem ordinary_surplus (line : Nat) (path : String) (callable : Callable) (count : Nat) :
    (surplusWarning q line path callable count).Ordinary :=
  head?_surplus line path callable count (by decide)

theorem warnings_stage (v : Operand) (fx : Effects) : (stage q v fx).2.warnings = fx.warnings := by
  cases v <;> rfl

theorem warnings_updated (target : String) (code : Op) (keepOld : Bool) (fx : Effects) :
    (updated q target code keepOld fx).2.warnings = fx.warnings := by
  cases keepOld <;> rfl

theorem warnings_settle (arguments : List (Emitted Operand)) (fx : Effects) :
    (settle q arguments fx).2.warnings = fx.warnings := by
  induction arguments generalizing fx with
  | nil => rfl
  | cons argument rest ih =>
    have hprotect : ∀ (endangered : Bool) (v : Operand),
        (protect q endangered v fx).2.warnings = fx.warnings := by
      intro endangered v
      cases v with
      | immediate text => rfl
      | slot register => cases endangered <;> rfl
    rw [settle_cons]
    exact (ih _).trans (hprotect _ _)

/-- The parts of a call murmur if its arguments do. -/
theorem murmurs_call {line : Nat} {path : String} {callable : Callable}
    {arguments : List (Emitted Operand)} {fx gx : Effects} (h : Murmurs fx.warnings gx.warnings) :
    Murmurs fx.warnings (callEffects q line path callable arguments gx).warnings :=
  h.trans ((Murmurs.of_eq (warnings_settle arguments gx)).trans
    (.warnedIf _ _ (ordinary_surplus line path callable arguments.length)))

theorem murmurs_values {args : List Expr}
    (hargs : ∀ a ∈ args, ∀ fx out gx, (expr q a).run fx = (.ok out, gx) →
      Murmurs fx.warnings gx.warnings)
    {fx gx : Effects} {out : List (Emitted Operand)} (h : (values q args).run fx = (.ok out, gx)) :
    Murmurs fx.warnings gx.warnings := by
  induction args generalizing fx out with
  | nil =>
    obtain ⟨-, rfl⟩ := ok_inj h
    exact .of_eq rfl
  | cons a rest ih =>
    obtain ⟨first, others, mx, hfirst, hrest, -⟩ := values_cons_ok h
    exact (hargs a List.mem_cons_self _ _ _ hfirst).trans
      (ih (fun b hb => hargs b (List.mem_cons_of_mem a hb)) hrest)

theorem murmurs_dropped {args : List Expr}
    (hargs : ∀ a ∈ args, ∀ fx out gx, (expr q a).run fx = (.ok out, gx) →
      Murmurs fx.warnings gx.warnings)
    {fx gx : Effects} {out : List Command} (h : (dropped q args).run fx = (.ok out, gx)) :
    Murmurs fx.warnings gx.warnings := by
  induction args generalizing fx out with
  | nil =>
    obtain ⟨-, rfl⟩ := ok_inj h
    exact .of_eq rfl
  | cons a rest ih =>
    obtain ⟨first, others, mx, hfirst, hrest, -⟩ := dropped_cons_ok h
    exact (hargs a List.mem_cons_self _ _ _ hfirst).trans
      (ih (fun b hb => hargs b (List.mem_cons_of_mem a hb)) hrest)

theorem murmurs_expr (e : Expr) :
    ∀ fx out gx, (expr q e).run fx = (.ok out, gx) → Murmurs fx.warnings gx.warnings := by
  induction e with
  | binary m left op right _ ih =>
    intro fx out gx h
    cases lowered_of_run h with
    | store _ hcode htarget hright =>
      exact (ih _ _ _ hright).trans (.of_eq (warnings_stage _ _))
    | @square _ _ _ _ _ _ hx htarget hright =>
      exact (ih _ _ _ hright).trans (.single (ordinary_square m.line))
  | unary m op fixity operand _ =>
    intro fx out gx h
    cases lowered_of_run h with
    | update _ _ _ hop htarget => exact .of_eq (warnings_updated _ _ _ _)
  | call m callee args ihc iha =>
    intro fx out gx h
    cases lowered_of_run h with
    | callKnown _ hnamed hknown hargs => exact murmurs_call (murmurs_values iha hargs)
    | callUnknown _ hnamed hunknown hargs =>
      exact (murmurs_dropped iha hargs).trans (.warnedIf _ _ (ordinary_dropped _ _))
    | callComputed _ hnamed hcallee hargs =>
      exact (ihc _ _ _ hcallee).trans
        ((murmurs_dropped iha hargs).trans (.warnedIf _ _ (ordinary_dropped _ _)))
  | construct m callee args _ iha =>
    intro fx out gx h
    cases lowered_of_run h with
    | constructKnown _ hname hknown hargs => exact murmurs_call (murmurs_values iha hargs)
    | constructUnknown _ hname hunknown hargs =>
      exact (murmurs_dropped iha hargs).trans (.warnedIf _ _ (ordinary_dropped _ _))
  | wrapped m inner ih =>
    intro fx out gx h
    cases lowered_of_run h with
    | wrapped _ hinner => exact ih _ _ _ hinner
  | null m => exact fun fx out gx h => nomatch lowered_of_run h
  | await m operand _ => exact fun fx out gx h => nomatch lowered_of_run h
  | unsupported m kind => exact fun fx out gx h => nomatch lowered_of_run h
  | _ =>
    intro fx out gx h
    cases lowered_of_run h
    exact .of_eq rfl

end Lower

theorem Evaluates.murmurs {q : Surroundings} {use : Use} {e : Expr} {fx gx : Effects}
    {commands : List Command} (h : Evaluates q use e fx commands gx) :
    Murmurs fx.warnings gx.warnings := by
  cases h with
  | dropped hrun => exact Lower.murmurs_expr e _ _ _ hrun
  | stored slot hrun => exact Lower.murmurs_expr e _ _ _ hrun
  | updated m fixity _ hop htarget => exact .of_eq (Lower.warnings_updated _ _ _ _)

/-! ## Statements -/

/-- No script is stored, and there are ordinary warnings at most. -/
structure Session.Murmurs (s t : Session) : Prop where
  scripts : t.scripts = s.scripts
  warnings : FrameScript.Murmurs s.warnings t.warnings

namespace Session.Murmurs

variable {s t u : Session}

theorem refl (s : Session) : s.Murmurs s := ⟨rfl, .refl _⟩

theorem trans (h : s.Murmurs t) (h' : t.Murmurs u) : s.Murmurs u :=
  ⟨h'.scripts.trans h.scripts, h.warnings.trans h'.warnings⟩

/-- Declaring says nothing. -/
theorem of_untouched (h : Untouched s t) : s.Murmurs t := ⟨h.scripts, .of_eq h.warnings⟩

theorem warned (s : Session) (line : Nat) {message : String} {c : Char}
    (h : message.toList.head? = some c) (hc : c ≠ 's') : s.Murmurs (s.warned line message) :=
  ⟨rfl, .single (Diagnostic.ordinary_of_head h hc)⟩

theorem warnedIf (s : Session) (condition : Bool) (line : Nat) {message : String} {c : Char}
    (h : message.toList.head? = some c) (hc : c ≠ 's') :
    s.Murmurs (s.warnedIf condition line message) := by
  cases condition with
  | true => exact warned s line h hc
  | false => exact refl s

theorem skipping (s : Session) (rest : List Stmt) : s.Murmurs (s.skipping rest) := by
  cases rest with
  | nil => exact refl s
  | cons next others => exact warned s _ (c := 'u') (head?_append (head?_append rfl)) (by decide)

/-- Work that is passed over. -/
theorem idle {task : Task} {flow : Flow} (h : Idle task s flow t) : s.Murmurs t := by
  cases h with
  | other line kind => exact warned s line (c := 'u') (head?_append (head?_append rfl)) (by decide)
  | otherMember info scope line kind =>
    refine warned s line (c := 'u') ?_ (by decide)
    exact head?_append (head?_append (head?_append (head?_append rfl)))
  | _ => exact refl _

theorem evaluation {task : Task} {use : Use} {e : Expr} {flow : Flow}
    (h : Evaluation task s t use e flow) : s.Murmurs t := by
  cases h with
  | discarded line e _ => exact warned s line (c := 'r') rfl (by decide)
  | _ => exact ⟨rfl, .refl _⟩

theorem withEffects {fx : Effects} (h : FrameScript.Murmurs s.warnings fx.warnings) :
    s.Murmurs (s.withEffects fx) := ⟨rfl, h⟩

end Session.Murmurs

end FrameScript
