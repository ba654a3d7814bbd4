/-
  How an expression lowers.

  `Lowered s e fx out gx` lists the ways in which an expression lowers successfully, one constructor
  for each, with the lowerings of its parts as premises; `lowered_of_run` says that there are no
  others.  A proof about successful lowerings goes by induction on the expression and by cases on
  `Lowered`, and never opens the monad.
-/
import FrameScript.Proofs.Effects

namespace FrameScript

open Source

namespace Lower

variable (s : Surroundings)

/-! ## How an expression lowers -/

/-- The commands of a call of a callable of the unit: the settled arguments, their copies in the
parameter slots, the jump. -/
def callCommands (path : String) (callable : Callable) (arguments : List (Emitted Operand))
    (fx : Effects) : List Command :=
  (settle s arguments fx).1.commands ++ copyIn s callable.params (settle s arguments fx).1.value ++
    [.invoke path]

/-- The effects of such a call. -/
def callEffects (line : Nat) (path : String) (callable : Callable)
    (arguments : List (Emitted Operand)) (fx : Effects) : Effects :=
  (settle s arguments fx).2.warnedIf (callable.params.length < arguments.length)
    (surplusWarning s line path callable arguments.length)

/-- The ways in which an expression lowers successfully, with the lowerings of its parts. -/
inductive Lowered : Expr → Effects → Emitted (Option Operand) → Effects → Prop where
  | number (m : Mark) (x : Binary64) (fx : Effects) :
      Lowered (.number m x) fx ⟨[], some (.immediate (literalText x))⟩ fx
  | boolean (m : Mark) (b : Bool) (fx : Effects) :
      Lowered (.boolean m b) fx ⟨[], some (.immediate (if b then "1" else "0"))⟩ fx
  | identifier (m : Mark) (name : String) (fx : Effects) :
      Lowered (.identifier m name) fx ⟨[], some (.slot (s.identifierSlot name))⟩ fx
  | this (m : Mark) (fx : Effects) {scope : ClassScope} (h : s.enclosingClass m.line = .ok scope) :
      Lowered (.this m) fx ⟨[], none⟩ fx
  | super (m : Mark) (fx : Effects) {parent : String} (h : s.parentClass m.line = .ok parent) :
      Lowered (.super m) fx ⟨[], none⟩ fx
  | store (m : Mark) {left right : Expr} {op : BinaryOp} {code : Op} {target : String}
      {commands : List Command} {v : Operand} {fx gx : Effects}
      (hcode : assignmentOp? op = some code) (htarget : s.targetSlot left = .ok target)
      (hright : (expr s right).run fx = (.ok ⟨commands, some v⟩, gx)) :
      Lowered (.binary m left op right) fx
        ⟨commands ++ (stage s v gx).1.commands ++ [operate s target code (stage s v gx).1.value],
          some (.slot target)⟩ (stage s v gx).2
  | square (m : Mark) {left right : Expr} {target : String} {commands : List Command}
      {fx gx : Effects} (htarget : s.targetSlot left = .ok target)
      (hright : (expr s right).run fx = (.ok ⟨commands, some (.immediate "2")⟩, gx)) :
      Lowered (.binary m left .powAssign right) fx
        ⟨commands ++ [operate s gx.scratch .assign target, operate s target .mul gx.scratch],
          some (.slot target)⟩ (gx.warned (squareWarning s m.line)).scratched
  | update (m : Mark) {op : UnaryOp} (fixity : Fixity) {operand : Expr} {code : Op}
      {target : String} (fx : Effects) (hop : updateOp? op = some code)
      (htarget : s.targetSlot operand = .ok target) :
      Lowered (.unary m op fixity operand) fx (updated s target code (fixity = .after) fx).1
        (updated s target code (fixity = .after) fx).2
  | callKnown (m : Mark) {callee : Expr} {args : List Expr} {head : Callee} {callable : Callable}
      {arguments : List (Emitted Operand)} {fx gx : Effects}
      (hnamed : namedCallee? s callee = .ok (some head))
      (hknown : head.decl.bind s.decls.callable? = some callable)
      (hargs : (values s args).run fx = (.ok arguments, gx)) :
      Lowered (.call m callee args) fx
        ⟨callCommands s head.path callable arguments gx, callable.returnSlot.map .slot⟩
        (callEffects s m.line head.path callable arguments gx)
  | callUnknown (m : Mark) {callee : Expr} {args : List Expr} {head : Callee}
      {arguments : List Command} {fx gx : Effects}
      (hnamed : namedCallee? s callee = .ok (some head))
      (hunknown : head.decl.bind s.decls.callable? = none)
      (hargs : (dropped s args).run fx = (.ok arguments, gx)) :
      Lowered (.call m callee args) fx ⟨arguments ++ [.invoke head.path], none⟩
        (gx.warnedIf (0 < args.length) (droppedWarning s m.line head.path))
  | callComputed (m : Mark) {callee : Expr} {args : List Expr} {path : String}
      {commands arguments : List Command} {fx gx hx : Effects}
      (hnamed : namedCallee? s callee = .ok none)
      (hcallee : (expr s callee).run fx = (.ok ⟨commands, some (.slot path)⟩, gx))
      (hargs : (dropped s args).run gx = (.ok arguments, hx)) :
      Lowered (.call m callee args) fx ⟨commands ++ (arguments ++ [.invoke path]), none⟩
        (hx.warnedIf (0 < args.length) (droppedWarning s m.line path))
  | constructKnown (m : Mark) {callee : Expr} {args : List Expr} {mark : Mark} {name : String}
      {callable : Callable} {arguments : List (Emitted Operand)} {fx gx : Effects}
      (hname : callee.unwrapped = .identifier mark name)
      (hknown : (s.constructorDecl? name).bind s.decls.callable? = some callable)
      (hargs : (values s args).run fx = (.ok arguments, gx)) :
      Lowered (.construct m callee args) fx
        ⟨callCommands s (s.constructorCallee name).path callable arguments gx, none⟩
        (callEffects s m.line (s.constructorCallee name).path callable arguments gx)
  | constructUnknown (m : Mark) {callee : Expr} {args : List Expr} {mark : Mark} {name : String}
      {arguments : List Command} {fx gx : Effects}
      (hname : callee.unwrapped = .identifier mark name)
      (hunknown : (s.constructorDecl? name).bind s.decls.callable? = none)
      (hargs : (dropped s args).run fx = (.ok arguments, gx)) :
      Lowered (.construct m callee args) fx
        ⟨arguments ++ [.invoke (s.constructorCallee name).path], none⟩
        (gx.warnedIf (0 < args.length) (droppedWarning s m.line (s.constructorCallee name).path))
  | member (m : Mark) {object : Expr} {name slot : String} (fx : Effects)
      (h : s.memberSlot object name = .ok slot) :
      Lowered (.member m object name) fx ⟨[], some (.slot slot)⟩ fx
  | wrapped (m : Mark) {inner : Expr} {fx gx : Effects} {out : Emitted (Option Operand)}
      (h : (expr s inner).run fx = (.ok out, gx)) : Lowered (.wrapped m inner) fx out gx

variable {s}

theorem ofExcept_ok {α : Type} {x : Except LowerError α} {a : α} {fx gx : Effects}
    (h : (MonadExcept.ofExcept x : Lowering α).run fx = (.ok a, gx)) : x = .ok a ∧ gx = fx := by
  cases x with
  | ok b => cases h; exact ⟨rfl, rfl⟩
  | error e => cases h

theorem needValue_ok {e : Expr} {lowered : Emitted (Option Operand)} {value : Emitted Operand}
    {fx gx : Effects} (h : (needValue s e lowered).run fx = (.ok value, gx)) :
    lowered = ⟨value.commands, some value.value⟩ ∧ gx = fx := by
  unfold needValue at h
  split at h
  · next v hv =>
    cases h
    exact ⟨by rw [← hv], rfl⟩
  · cases h

/-- The operand of an expression whose value is needed is that of the expression. -/
theorem value_ok {e : Expr} {out : Emitted Operand} {fx gx : Effects}
    (h : (value s e).run fx = (.ok out, gx)) :
    (expr s e).run fx = (.ok ⟨out.commands, some out.value⟩, gx) := by
  obtain ⟨lowered, hx, hexpr, hneed⟩ := run_bind_ok h
  obtain ⟨rfl, rfl⟩ := needValue_ok hneed
  exact hexpr

theorem values_cons_ok {e : Expr} {rest : List Expr} {out : List (Emitted Operand)}
    {fx hx : Effects} (h : (values s (e :: rest)).run fx = (.ok out, hx)) :
    ∃ first others gx, (expr s e).run fx = (.ok ⟨first.commands, some first.value⟩, gx) ∧
      (values s rest).run gx = (.ok others, hx) ∧ out = first :: others := by
  rw [values] at h
  obtain ⟨lowered, fx₁, hexpr, h₁⟩ := run_bind_ok h
  obtain ⟨first, fx₂, hneed, h₂⟩ := run_bind_ok h₁
  obtain ⟨others, fx₃, hrest, h₃⟩ := run_bind_ok h₂
  obtain ⟨rfl, rfl⟩ := needValue_ok hneed
  cases h₃
  exact ⟨first, others, _, hexpr, hrest, rfl⟩

theorem dropped_cons_ok {e : Expr} {rest : List Expr} {out : List Command} {fx hx : Effects}
    (h : (dropped s (e :: rest)).run fx = (.ok out, hx)) :
    ∃ first others gx, (expr s e).run fx = (.ok first, gx) ∧
      (dropped s rest).run gx = (.ok others, hx) ∧ out = first.commands ++ others := by
  rw [dropped] at h
  obtain ⟨first, fx₁, hexpr, h₁⟩ := run_bind_ok h
  obtain ⟨others, fx₂, hrest, h₂⟩ := run_bind_ok h₁
  cases h₂
  exact ⟨first, others, _, hexpr, hrest, rfl⟩

/-- The parts of a successful call. -/
theorem invoke_ok {line : Nat} {callee : Callee} {args : List Expr} {out : Emitted (Option Operand)}
    {fx hx : Effects}
    (h : (invoke s line callee args.length (values s args) (dropped s args)).run fx = (.ok out, hx)) :
    (∃ callable arguments gx, callee.decl.bind s.decls.callable? = some callable ∧
      (values s args).run fx = (.ok arguments, gx) ∧
      out = ⟨callCommands s callee.path callable arguments gx, callable.returnSlot.map .slot⟩ ∧
      hx = callEffects s line callee.path callable arguments gx) ∨
    (∃ arguments gx, callee.decl.bind s.decls.callable? = none ∧
      (dropped s args).run fx = (.ok arguments, gx) ∧
      out = ⟨arguments ++ [.invoke callee.path], none⟩ ∧
      hx = gx.warnedIf (0 < args.length) (droppedWarning s line callee.path)) := by
  unfold invoke at h
  split at h
  · next callable hknown =>
    obtain ⟨arguments, gx, hargs, hcall⟩ := run_bind_ok h
    rw [run_invokeKnown] at hcall
    cases hcall
    exact .inl ⟨callable, arguments, gx, hknown, hargs, rfl, rfl⟩
  · next hunknown =>
    obtain ⟨arguments, gx, hargs, hcall⟩ := run_bind_ok h
    rw [run_invokeUnknown] at hcall
    cases hcall
    exact .inr ⟨arguments, gx, hunknown, hargs, rfl, rfl⟩

theorem computedCallee_ok {callee : Expr} {lowered : Emitted (Option Operand)} {head : Emitted Callee}
    {fx gx : Effects} (h : (computedCallee s callee lowered).run fx = (.ok head, gx)) :
    ∃ path, lowered = ⟨head.commands, some (.slot path)⟩ ∧ head.value = { path } ∧ gx = fx := by
  unfold computedCallee at h
  obtain ⟨value, fx₁, hneed, hslot⟩ := run_bind_ok h
  obtain ⟨hlowered, rfl⟩ := needValue_ok hneed
  split at hslot
  · next path hpath =>
    cases hslot
    exact ⟨path, by rw [hlowered, hpath], rfl, rfl⟩
  · cases hslot

/-- **The inversion of the lowering of expressions.** -/
theorem lowered_of_run {e : Expr} {fx gx : Effects} {out : Emitted (Option Operand)}
    (h : (expr s e).run fx = (.ok out, gx)) : Lowered s e fx out gx := by
  cases e with
  | number m x => rw [expr] at h; cases h; exact .number m x _
  | boolean m b => rw [expr] at h; cases h; exact .boolean m b _
  | null m => rw [expr] at h; cases h
  | identifier m name => rw [expr] at h; cases h; exact .identifier m name _
  | this m =>
    rw [expr] at h
    obtain ⟨scope, fx₁, hrun, h₁⟩ := run_bind_ok h
    obtain ⟨hscope, rfl⟩ := ofExcept_ok hrun
    cases h₁
    exact .this m _ hscope
  | super m =>
    rw [expr] at h
    obtain ⟨parent, fx₁, hrun, h₁⟩ := run_bind_ok h
    obtain ⟨hparent, rfl⟩ := ofExcept_ok hrun
    cases h₁
    exact .super m _ hparent
  | binary m left op right =>
    rw [expr.eq_def] at h
    dsimp only at h
    split at h
    · obtain ⟨target, fx₁, hrun, h₁⟩ := run_bind_ok h
      obtain ⟨htarget, rfl⟩ := ofExcept_ok hrun
      obtain ⟨lowered, fx₂, hright, h₂⟩ := run_bind_ok h₁
      obtain ⟨value, fx₃, hneed, h₃⟩ := run_bind_ok h₂
      obtain ⟨rfl, rfl⟩ := needValue_ok hneed
      rw [run_square] at h₃
      split at h₃
      · next htwo =>
        cases h₃
        rw [htwo] at hright
        exact .square m htarget hright
      · cases h₃
    · next code _ hcode =>
      obtain ⟨target, fx₁, hrun, h₁⟩ := run_bind_ok h
      obtain ⟨htarget, rfl⟩ := ofExcept_ok hrun
      obtain ⟨lowered, fx₂, hright, h₂⟩ := run_bind_ok h₁
      obtain ⟨value, fx₃, hneed, h₃⟩ := run_bind_ok h₂
      obtain ⟨rfl, rfl⟩ := needValue_ok hneed
      rw [run_store] at h₃
      cases h₃
      exact .store m hcode htarget hright
    · cases h
  | unary m op fixity operand =>
    rw [expr] at h
    cases hop : updateOp? op with
    | none =>
      obtain ⟨e, he⟩ := run_update_error s m.line (fixity = .after) fx (.inl hop)
      rw [he] at h
      cases h
    | some code =>
      cases htarget : s.targetSlot operand with
      | error e =>
        obtain ⟨e, he⟩ := run_update_error s m.line (fixity = .after) fx (.inr ⟨e, htarget⟩)
        rw [he] at h
        cases h
      | ok target =>
        rw [run_update_ok s hop htarget] at h
        cases h
        exact .update m fixity _ hop htarget
  | call m callee args =>
    rw [expr] at h
    obtain ⟨named, fx₁, hrun, h₁⟩ := run_bind_ok h
    obtain ⟨hnamed, rfl⟩ := ofExcept_ok hrun
    cases named with
    | some head =>
      obtain ⟨_, fx₂, hpure, h₂⟩ := run_bind_ok h₁
      cases hpure
      obtain ⟨call, fx₃, hinvoke, h₃⟩ := run_bind_ok h₂
      cases h₃
      rcases invoke_ok hinvoke with ⟨callable, arguments, _, hknown, hargs, rfl, rfl⟩ |
        ⟨arguments, _, hunknown, hargs, rfl, rfl⟩
      · exact .callKnown m hnamed hknown hargs
      · exact .callUnknown m hnamed hunknown hargs
    | none =>
      obtain ⟨lowered, fx₂, hcallee, h₂⟩ := run_bind_ok h₁
      obtain ⟨head, fx₃, hhead, h₃⟩ := run_bind_ok h₂
      obtain ⟨path, rfl, hpath, rfl⟩ := computedCallee_ok hhead
      obtain ⟨call, fx₄, hinvoke, h₄⟩ := run_bind_ok h₃
      cases h₄
      rw [hpath] at hinvoke
      -- a computed callee is no declaration
      rcases invoke_ok hinvoke with ⟨_, _, _, hknown, _, _, _⟩ |
        ⟨arguments, _, _, hargs, rfl, rfl⟩
      · cases hknown
      · exact .callComputed m hnamed hcallee hargs
  | construct m callee args =>
    rw [expr.eq_def] at h
    dsimp only at h
    split at h
    · next mark name hname =>
      obtain ⟨call, fx₁, hinvoke, h₁⟩ := run_bind_ok h
      cases h₁
      rcases invoke_ok hinvoke with ⟨callable, arguments, _, hknown, hargs, rfl, rfl⟩ |
        ⟨arguments, _, hunknown, hargs, rfl, rfl⟩
      · exact .constructKnown m hname hknown hargs
      · exact .constructUnknown m hname hunknown hargs
    · cases h
  | member m object name =>
    rw [expr] at h
    obtain ⟨slot, fx₁, hrun, h₁⟩ := run_bind_ok h
    obtain ⟨hslot, rfl⟩ := ofExcept_ok hrun
    cases h₁
    exact .member m _ hslot
  | await m operand => rw [expr] at h; cases h
  | wrapped m inner => rw [expr] at h; exact .wrapped m h
  | unsupported m kind => rw [expr] at h; cases h

end Lower

end FrameScript
