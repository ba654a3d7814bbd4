/-
  No call is lost and none is made twice.

  Every call and every `new` in an expression becomes one `invoke`.  The commands of arguments pass
  through several hands on the way: they are kept apart until all arguments are lowered, copies are
  put between them, surplus ones stay without a parameter.  A count of the `invoke` commands is not
  changed by any of this, so it can be followed from the parts of an expression to the whole
  (`Lower.invoked_once`).

  What is counted on the side of the source are the nodes outside of receivers.  The object of a
  member access or of a method call is looked at for its name or its type and not lowered, and so a
  call that stands in it is dropped (`Lower.receiver_dropped`).
-/
import FrameScript.Proofs.Calls
import FrameScript.Proofs.Refusals

namespace FrameScript

open Source

/-! ## Counting -/

namespace Source

/-- The expression calls something: it is a call or a `new`. -/
def Expr.isCall : Expr → Bool
  | .call .. | .construct .. => true
  | _ => false

/-- How many calls there are among the parts of an expression. -/
def Expr.calls (receivers : Bool) (e : Expr) : Nat := (e.parts receivers).countP (·.isCall)

def exprCalls (receivers : Bool) (es : List Expr) : Nat :=
  (exprParts receivers es).countP (·.isCall)

variable (receivers : Bool)

theorem exprCalls_cons (e : Expr) (rest : List Expr) :
    exprCalls receivers (e :: rest) = e.calls receivers + exprCalls receivers rest := by
  rw [exprCalls, exprParts, List.countP_append]
  rfl

namespace Expr

theorem calls_call (m : Mark) (callee : Expr) (args : List Expr) :
    (call m callee args).calls receivers =
      callee.calls receivers + exprCalls receivers args + 1 := by
  rw [calls, parts, List.countP_cons_of_pos rfl, List.countP_append]
  rfl

theorem calls_construct (m : Mark) (callee : Expr) (args : List Expr) :
    (construct m callee args).calls receivers =
      callee.calls receivers + exprCalls receivers args + 1 := by
  rw [calls, parts, List.countP_cons_of_pos rfl, List.countP_append]
  rfl

theorem calls_binary (m : Mark) (left : Expr) (op : BinaryOp) (right : Expr) :
    (binary m left op right).calls receivers = left.calls receivers + right.calls receivers := by
  rw [calls, parts, List.countP_cons_of_neg Bool.false_ne_true, List.countP_append]
  rfl

theorem calls_unary (m : Mark) (op : UnaryOp) (fixity : Fixity) (operand : Expr) :
    (unary m op fixity operand).calls receivers = operand.calls receivers := by
  rw [calls, parts, List.countP_cons_of_neg Bool.false_ne_true]
  rfl

theorem calls_wrapped (m : Mark) (inner : Expr) :
    (wrapped m inner).calls receivers = inner.calls receivers := by
  rw [calls, parts, List.countP_cons_of_neg Bool.false_ne_true]
  rfl

theorem calls_unwrapped (e : Expr) : e.unwrapped.calls receivers = e.calls receivers := by
  fun_induction Expr.unwrapped e with
  | case1 m inner ih => rw [ih, calls_wrapped]
  | case2 e _ => rfl

end Expr

end Source

/-! ## Names call nothing -/

namespace Lower

variable {q : Surroundings}

/-- A target is a name or a member, receivers apart. -/
theorem calls_target {e : Expr} {slot : String} (h : q.targetSlot e = .ok slot) :
    e.calls false = 0 := by
  rw [← Expr.calls_unwrapped]
  unfold Surroundings.targetSlot at h
  split at h
  · next hroot => rw [hroot]; rfl
  · next hroot => rw [hroot]; rfl
  · next m _ =>
    cases hclass : q.enclosingClass m.line with
    | ok scope => rw [hclass] at h; cases h
    | error err => rw [hclass] at h; cases h
  · cases h

/-- So is a callee that is named, unless it is `super`. -/
theorem calls_named {e : Expr} {head : Callee} (h : namedCallee? q e = .ok (some head)) :
    e.calls false = 0 := by
  rw [← Expr.calls_unwrapped]
  unfold namedCallee? at h
  split at h
  · next hroot => rw [hroot]; rfl
  · next hroot => rw [hroot]; rfl
  · next hroot => rw [hroot]; rfl
  · cases h

/-! ## Expressions -/

/-- Wherever the expression lowers, each of its calls is invoked once. -/
def InvokesCalls (q : Surroundings) (e : Expr) : Prop :=
  ∀ {fx gx : Effects} {out : Emitted (Option Operand)}, (expr q e).run fx = (.ok out, gx) →
    (invokes out.commands).length = e.calls false

theorem invoked_values {args : List Expr} (h : ∀ a ∈ args, InvokesCalls q a) {fx gx : Effects}
    {out : List (Emitted Operand)} (hrun : (values q args).run fx = (.ok out, gx)) :
    (out.flatMap fun a => invokes a.commands).length = exprCalls false args := by
  induction args generalizing fx out with
  | nil => cases hrun; rfl
  | cons e rest ih =>
    obtain ⟨first, others, _, hexpr, hrest, rfl⟩ := values_cons_ok hrun
    have hfirst := h e List.mem_cons_self hexpr
    have hothers := ih (fun a ha => h a (List.mem_cons_of_mem e ha)) hrest
    rw [List.flatMap_cons, List.length_append, exprCalls_cons, hothers, ← hfirst]

theorem invoked_dropped {args : List Expr} (h : ∀ a ∈ args, InvokesCalls q a) {fx gx : Effects}
    {out : List Command} (hrun : (dropped q args).run fx = (.ok out, gx)) :
    (invokes out).length = exprCalls false args := by
  induction args generalizing fx out with
  | nil => cases hrun; rfl
  | cons e rest ih =>
    obtain ⟨first, others, _, hexpr, hrest, rfl⟩ := dropped_cons_ok hrun
    have hfirst := h e List.mem_cons_self hexpr
    have hothers := ih (fun a ha => h a (List.mem_cons_of_mem e ha)) hrest
    rw [invokes_append, List.length_append, exprCalls_cons, hothers, hfirst]

/-- A call of a callable of the unit adds one `invoke` to those of its arguments. -/
theorem invoked_call {args : List Expr} (h : ∀ a ∈ args, InvokesCalls q a) {fx gx : Effects}
    {arguments : List (Emitted Operand)} (hrun : (values q args).run fx = (.ok arguments, gx))
    (path : String) (callable : Callable) :
    (invokes (callCommands q path callable arguments gx)).length = exprCalls false args + 1 := by
  rw [invokes_callCommands, List.length_append, invoked_values h hrun]
  rfl

/-- So does one of a script with unknown parameters. -/
theorem invoked_jump {args : List Expr} (h : ∀ a ∈ args, InvokesCalls q a) {fx gx : Effects}
    {arguments : List Command} (hrun : (dropped q args).run fx = (.ok arguments, gx))
    (path : String) :
    (invokes (arguments ++ [.invoke path])).length = exprCalls false args + 1 := by
  rw [invokes_append, List.length_append, invoked_dropped h hrun]
  rfl

/-- **Calls are kept one by one.**  In any surroundings, an expression that lowers emits as many
`invoke` commands as it has calls and `new`s, at any depth but not in receivers. -/
theorem invoked_once {e : Expr} {fx gx : Effects} {out : Emitted (Option Operand)}
    (hrun : (expr q e).run fx = (.ok out, gx)) :
    (invokes out.commands).length = e.calls false := by
  induction e generalizing fx gx out with
  | binary m left op right _ ih =>
    rw [Expr.calls_binary]
    cases lowered_of_run hrun with
    | @store _ _ _ _ code target _ v _ gx hcode htarget hright =>
      have hoperation : invokes [operate q target code (stage q v gx).1.value] = [] := rfl
      rw [calls_target htarget, ← ih hright, invokes_append, invokes_append, invokes_stage,
        hoperation, List.append_nil, List.append_nil, Nat.zero_add]
    | @square _ _ _ target _ _ gx htarget hright =>
      have hsquare : invokes [operate q gx.scratch .assign target, operate q target .mul gx.scratch] =
          [] := rfl
      rw [calls_target htarget, ← ih hright, invokes_append, hsquare, List.append_nil, Nat.zero_add]
  | unary m op fixity operand _ =>
    rw [Expr.calls_unary]
    cases lowered_of_run hrun with
    | update _ _ _ hop htarget =>
      rw [calls_target htarget, invokes_updated]
      rfl
  | call m callee args ihc iha =>
    rw [Expr.calls_call]
    cases lowered_of_run hrun with
    | callKnown _ hnamed hknown hargs => rw [calls_named hnamed, invoked_call iha hargs, Nat.zero_add]
    | callUnknown _ hnamed hunknown hargs =>
      rw [calls_named hnamed, invoked_jump iha hargs, Nat.zero_add]
    | callComputed _ hnamed hcallee hargs =>
      rw [invokes_append, List.length_append, invoked_jump iha hargs, ← ihc hcallee, Nat.add_assoc]
  | construct m callee args _ iha =>
    rw [Expr.calls_construct]
    have hnone : ∀ {mark : Mark} {name : String}, callee.unwrapped = .identifier mark name →
        callee.calls false = 0 := by
      intro mark name hname
      rw [← Expr.calls_unwrapped, hname]
      rfl
    cases lowered_of_run hrun with
    | constructKnown _ hname hknown hargs => rw [hnone hname, invoked_call iha hargs, Nat.zero_add]
    | constructUnknown _ hname hunknown hargs => rw [hnone hname, invoked_jump iha hargs, Nat.zero_add]
  | wrapped m inner ih =>
    rw [Expr.calls_wrapped]
    cases lowered_of_run hrun with
    | wrapped _ hinner => exact ih hinner
  | _ =>
    -- all else emits nothing, and what is below a member is a receiver
    cases lowered_of_run hrun <;> rfl

/-! A callee that has to be computed, and a `new` among the arguments. -/

/-- `f(1, f(2, 3))(new C(f(4, 5)))` -/
def nestedCalls : Expr :=
  let f (x y : Int) : Expr := .call ⟨0, none⟩ (.identifier ⟨0, none⟩ "f")
    [.number ⟨0, none⟩ (.ofInt x), .number ⟨0, none⟩ (.ofInt y)]
  .call ⟨0, none⟩
    (.call ⟨0, none⟩ (.identifier ⟨0, none⟩ "f") [.number ⟨0, none⟩ (.ofInt 1), f 2 3])
    [.construct ⟨0, none⟩ (.identifier ⟨0, none⟩ "C") [f 4 5]]

theorem invoked_once_nested :
    ∃ out gx, (expr Session.forwardSession.toSurroundings nestedCalls).run
        Session.forwardSession.toEffects = (.ok out, gx) ∧
      (invokes out.commands).length = 5 := by
  obtain ⟨out, gx, hrun⟩ : ∃ out gx, (expr Session.forwardSession.toSurroundings nestedCalls).run
      Session.forwardSession.toEffects = (.ok out, gx) := ⟨_, _, rfl⟩
  exact ⟨out, gx, hrun, (invoked_once hrun).trans (by decide)⟩

/-- `g().m()` -/
def callOnCall : Expr :=
  .call ⟨0, none⟩ (.member ⟨0, none⟩ (.call ⟨0, none⟩ (.identifier ⟨0, none⟩ "g") []) "m") []

/-- **A call in a receiver is dropped**: there are two calls, and one script is invoked. -/
theorem receiver_dropped :
    ∃ out gx, (expr {} callOnCall).run {} = (.ok out, gx) ∧ invokes out.commands = ["m"] ∧
      callOnCall.calls true = 2 :=
  ⟨_, _, rfl, rfl, by decide⟩

end Lower

end FrameScript
