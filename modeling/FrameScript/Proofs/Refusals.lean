/-
  What is refused is never let through.

  A few kinds of expression have no lowering: `null`, `await`, kinds that nothing is known about, and
  operators other than assignments and updates.  The refusals stand at the single forms, so that a
  unit which compiles is free of them follows only if every part of every expression is visited.

  One part is not.  The receiver of `object.name` is never evaluated, whether the member is read,
  written or called: it is looked at for its name or its static type and that is all.  `Expr.parts`
  therefore comes in two forms, with the receivers and without, and the law holds of the second:

  1. `Lower.accepted` is the law for one expression, by induction on its parts;
  2. `Runs.accepts` carries it through the run of a unit.
-/
import FrameScript.Proofs.Variables

namespace FrameScript

open Source

/-! ## Parts of expressions -/

/-- The expression is of a kind, or has an operator, that has no lowering. -/
def Source.Expr.refused : Expr → Bool
  | .null _ | .await .. | .unsupported .. => true
  | .binary _ _ op _ => !op.isAssignment
  | .unary _ op _ _ => !op.isUpdate
  | _ => false

mutual

/-- An expression and the expressions in it at any depth.  What stands in the receiver of a member
counts only with `receivers`. -/
def Source.Expr.parts (receivers : Bool) : Expr → List Expr
  | .binary m left op right =>
    .binary m left op right :: (left.parts receivers ++ right.parts receivers)
  | .unary m op fixity operand => .unary m op fixity operand :: operand.parts receivers
  | .call m callee arguments =>
    .call m callee arguments :: (callee.parts receivers ++ exprParts receivers arguments)
  | .construct m callee arguments =>
    .construct m callee arguments :: (callee.parts receivers ++ exprParts receivers arguments)
  | .member m object name =>
    .member m object name :: if receivers then object.parts receivers else []
  | .await m operand => .await m operand :: operand.parts receivers
  | .wrapped m inner => .wrapped m inner :: inner.parts receivers
  | e => [e]

/-- The parts of some expressions. -/
def Source.exprParts (receivers : Bool) : List Expr → List Expr
  | [] => []
  | e :: rest => e.parts receivers ++ exprParts receivers rest

end

namespace Source

theorem exprParts_eq (receivers : Bool) (es : List Expr) :
    exprParts receivers es = es.flatMap (·.parts receivers) := by
  induction es with
  | nil => rfl
  | cons e rest ih => rw [exprParts, ih, List.flatMap_cons]

namespace Expr

/-- Nothing in the expression is refused, receivers apart. -/
def Accepted (e : Expr) : Prop := ∀ part ∈ e.parts false, part.refused = false

/-- A node is accepted if it is not refused itself and the parts below it are accepted. -/
theorem Accepted.cons {e : Expr} {below : List Expr} (hparts : e.parts false = e :: below)
    (he : e.refused = false) (hbelow : ∀ part ∈ below, part.refused = false) : e.Accepted := by
  rw [Accepted, hparts]
  exact List.forall_mem_cons.mpr ⟨he, hbelow⟩

/-- A node with two pieces below it. -/
theorem Accepted.node {e : Expr} {first rest : List Expr}
    (hparts : e.parts false = e :: (first ++ rest)) (he : e.refused = false)
    (hfirst : ∀ part ∈ first, part.refused = false) (hrest : ∀ part ∈ rest, part.refused = false) :
    e.Accepted :=
  .cons hparts he (List.forall_mem_append.mpr ⟨hfirst, hrest⟩)

theorem Accepted.exprParts {es : List Expr} (h : ∀ e ∈ es, e.Accepted) :
    ∀ part ∈ exprParts false es, part.refused = false := by
  intro part hpart
  rw [exprParts_eq] at hpart
  obtain ⟨e, he, hpart⟩ := List.mem_flatMap.mp hpart
  exact h e he part hpart

/-- Wrappers are never refused. -/
theorem Accepted.of_unwrapped {e : Expr} (h : e.unwrapped.Accepted) : e.Accepted := by
  fun_induction Expr.unwrapped e with
  | case1 m inner ih => exact .cons rfl rfl (ih h)
  | case2 e _ => exact h

theorem accepted_identifier (m : Mark) (name : String) : (identifier m name).Accepted :=
  .cons rfl rfl fun _ h => absurd h List.not_mem_nil

/-- A member is accepted whatever its receiver is. -/
theorem accepted_member (m : Mark) (object : Expr) (name : String) :
    (member m object name).Accepted :=
  .cons rfl rfl fun _ h => absurd h List.not_mem_nil

end Expr

end Source

/-! ## Expressions that lower -/

namespace Lower

variable {q : Surroundings}

/-- A target is a name or a member. -/
theorem accepted_target {e : Expr} {slot : String} (h : q.targetSlot e = .ok slot) : e.Accepted := by
  refine .of_unwrapped ?_
  unfold Surroundings.targetSlot at h
  split at h
  · next hroot => exact hroot ▸ Expr.accepted_identifier _ _
  · next hroot => exact hroot ▸ Expr.accepted_member _ _ _
  · next m _ =>
    cases hclass : q.enclosingClass m.line with
    | ok scope => rw [hclass] at h; cases h
    | error err => rw [hclass] at h; cases h
  · cases h

/-- A callee that is named is a name, a member or `super`. -/
theorem accepted_named {e : Expr} {head : Callee} (h : namedCallee? q e = .ok (some head)) :
    e.Accepted := by
  refine .of_unwrapped ?_
  unfold namedCallee? at h
  split at h
  · next hroot => exact hroot ▸ .cons rfl rfl fun _ h => absurd h List.not_mem_nil
  · next hroot => exact hroot ▸ Expr.accepted_member _ _ _
  · next hroot => exact hroot ▸ Expr.accepted_identifier _ _
  · cases h

/-- Where the values of some expressions are lowered, each of them is. -/
theorem values_each {args : List Expr} {out : List (Emitted Operand)} {fx gx : Effects}
    (h : (values q args).run fx = (.ok out, gx)) :
    ∀ a ∈ args, ∃ fx' v gx', (expr q a).run fx' = (.ok v, gx') := by
  induction args generalizing fx out with
  | nil => exact fun a ha => absurd ha List.not_mem_nil
  | cons first rest ih =>
    intro a ha
    obtain ⟨_, _, _, hfirst, hrest, -⟩ := values_cons_ok h
    rcases List.mem_cons.mp ha with rfl | ha
    · exact ⟨_, _, _, hfirst⟩
    · exact ih hrest a ha

theorem dropped_each {args : List Expr} {out : List Command} {fx gx : Effects}
    (h : (dropped q args).run fx = (.ok out, gx)) :
    ∀ a ∈ args, ∃ fx' v gx', (expr q a).run fx' = (.ok v, gx') := by
  induction args generalizing fx out with
  | nil => exact fun a ha => absurd ha List.not_mem_nil
  | cons first rest ih =>
    intro a ha
    obtain ⟨_, _, _, hfirst, hrest, -⟩ := dropped_cons_ok h
    rcases List.mem_cons.mp ha with rfl | ha
    · exact ⟨_, _, _, hfirst⟩
    · exact ih hrest a ha

theorem isAssignment_of_code {op : BinaryOp} {code : Op} (h : assignmentOp? op = some code) :
    op.isAssignment = true := by
  cases op <;> first | rfl | cases h

theorem isUpdate_of_code {op : UnaryOp} {code : Op} (h : updateOp? op = some code) :
    op.isUpdate = true := by
  cases op <;> first | rfl | cases h

/-- An update is accepted if its target is known. -/
theorem accepted_update (m : Mark) {op : UnaryOp} (fixity : Fixity) {operand : Expr} {code : Op}
    {target : String} (hop : updateOp? op = some code) (htarget : q.targetSlot operand = .ok target) :
    (Expr.unary m op fixity operand).Accepted := by
  refine .cons rfl ?_ (accepted_target htarget)
  rw [Expr.refused, isUpdate_of_code hop]
  rfl

/-- **An expression that lowers has no part that is refused**, receivers apart. -/
theorem accepted {e : Expr} {fx gx : Effects} {out : Emitted (Option Operand)}
    (h : (expr q e).run fx = (.ok out, gx)) : e.Accepted := by
  -- the arguments of a call are lowered one by one, whether their values are kept or dropped
  have hargs : ∀ {args : List Expr},
      (∀ a ∈ args, ∀ {fx gx : Effects} {out : Emitted (Option Operand)},
        (expr q a).run fx = (.ok out, gx) → a.Accepted) →
      (∀ a ∈ args, ∃ fx' v gx', (expr q a).run fx' = (.ok v, gx')) →
      ∀ part ∈ exprParts false args, part.refused = false := by
    intro args ih heach
    refine Expr.Accepted.exprParts fun a ha => ?_
    obtain ⟨_, _, _, hrun⟩ := heach a ha
    exact ih a ha hrun
  induction e generalizing fx gx out with
  | binary m left op right _ ihright =>
    cases lowered_of_run h with
    | store _ hcode htarget hright =>
      refine .node rfl ?_ (accepted_target htarget) (ihright hright)
      rw [Expr.refused, isAssignment_of_code hcode]
      rfl
    | square _ htarget hright =>
      exact .node rfl rfl (accepted_target htarget) (ihright hright)
  | unary m op fixity operand _ =>
    cases lowered_of_run h with
    | update _ _ _ hop htarget => exact accepted_update m fixity hop htarget
  | call m callee args ihcallee ih =>
    cases lowered_of_run h with
    | callKnown _ hnamed _ hvalues =>
      exact .node rfl rfl (accepted_named hnamed) (hargs ih (values_each hvalues))
    | callUnknown _ hnamed _ hdropped =>
      exact .node rfl rfl (accepted_named hnamed) (hargs ih (dropped_each hdropped))
    | callComputed _ _ hcallee hdropped =>
      exact .node rfl rfl (ihcallee hcallee) (hargs ih (dropped_each hdropped))
  | construct m callee args _ ih =>
    have hclass : ∀ {mark : Mark} {name : String}, callee.unwrapped = .identifier mark name →
        callee.Accepted := fun hname => .of_unwrapped (hname ▸ Expr.accepted_identifier _ _)
    cases lowered_of_run h with
    | constructKnown _ hname _ hvalues =>
      exact .node rfl rfl (hclass hname) (hargs ih (values_each hvalues))
    | constructUnknown _ hname _ hdropped =>
      exact .node rfl rfl (hclass hname) (hargs ih (dropped_each hdropped))
  | member m object name _ => exact Expr.accepted_member m object name
  | wrapped m inner ih =>
    cases lowered_of_run h with
    | wrapped _ hinner => exact .cons rfl rfl (ih hinner)
  | null m => nomatch lowered_of_run h
  | await m operand _ => nomatch lowered_of_run h
  | unsupported m kind => nomatch lowered_of_run h
  | _ => exact .cons rfl rfl fun _ h => absurd h List.not_mem_nil

end Lower

/-! ## Units that compile -/

theorem Evaluates.accepted {q : Surroundings} {use : Use} {e : Expr} {fx gx : Effects}
    {commands : List Command} (h : Evaluates q use e fx commands gx) : e.Accepted := by
  cases h with
  | dropped hrun => exact Lower.accepted hrun
  | stored slot hrun => exact Lower.accepted hrun
  | updated m fixity _ hop htarget => exact Lower.accepted_update m fixity hop htarget

/-- Every expression that is lowered on the way is accepted. -/
theorem Runs.accepts {task : Task} {s t : Session} {log : List Event} {out : Emitted Flow}
    (h : Runs task s log out t) : ∀ q e, .lowers q e ∈ log → e.Accepted := by
  induction h with
  | seq _ _ _ ihfirst ihrest =>
    intro q e hevent
    rcases List.mem_append.mp hevent with hevent | hevent
    · exact ihfirst q e hevent
    · exact ihrest q e hevent
  | evaluates _ he =>
    intro q e hevent
    cases List.mem_singleton.mp hevent
    exact he.accepted
  | script _ _ ih =>
    intro q e hevent
    rcases List.mem_append.mp hevent with hevent | hevent
    · exact absurd hevent (LexicalScope.lowers_notMem_entered _ q e)
    · exact ih q e hevent
  | returned _ _ ih => exact ih
  | inside _ _ ih => exact ih
  | function _ _ _ ih => exact ih
  | method _ _ ih => exact ih
  | classDef _ _ _ _ ih => exact ih
  | constructor _ _ ih => exact ih
  | _ => exact fun q e hevent => absurd hevent List.not_mem_nil

namespace Session

/-- **Unsupported constructs are refused.**  If a unit compiles, no expression that was lowered for a
statement, a variable, a return value or a field contains, at any depth outside of receivers, a
`null`, an `await`, an expression of unknown kind, a binary operator that is no assignment (`^` and
`^=` among them) or a unary operator that is no update. -/
theorem compiled_supported {s : Session} {u : CompilationUnit} {c : Compilation}
    (h : (s.compile u).1 = .ok c) {q : Surroundings} {e : Expr} (hlog : .lowers q e ∈ s.log u) :
    ∀ part ∈ e.parts false, part.refused = false := by
  obtain ⟨out, t, -, hruns, -, -⟩ := compile_ok h
  exact hruns.accepts q e hlog

/-- What the first statement lowers is in the log. -/
theorem mem_log_first {s : Session} {u : CompilationUnit} {st : Stmt} {rest : List Stmt}
    (hu : u.statements = st :: rest) {event : Event} (h : event ∈ Lower.stmtLog st (s.declared u)) :
    event ∈ s.log u := by
  rw [log, hu, Lower.stmtsLog]
  split
  · exact List.mem_append_left _ h
  · exact h

/-! A unit with refused expressions in its receivers. -/

/-- `h(x = 1, null.f()); (await g()).m()` -/
def receiverDocument : Json.Value :=
  .object [("statements", .array [
    .object [("kind", .string "ExpressionStatement"), ("expression", .object [
      ("kind", .string "CallExpression"), ("expression", namedNode "Identifier" "h" []),
      ("arguments", .array [
        .object [("kind", .string "BinaryExpression"), ("left", namedNode "Identifier" "x" []),
          ("operator", .string "="),
          ("right", .object [("kind", .string "NumericLiteral"), ("value", .string "1")])],
        .object [("kind", .string "CallExpression"),
          ("expression", namedNode "PropertyAccessExpression" "f"
            [("expression", .object [("kind", .string "NullKeyword")])])]])])],
    expressionNode "CallExpression" (namedNode "PropertyAccessExpression" "m"
      [("expression", .object [("kind", .string "ParenthesizedExpression"),
        ("expression", .object [("kind", .string "AwaitExpression"), ("expression", .object [
          ("kind", .string "CallExpression"), ("expression", namedNode "Identifier" "g" [])])])])])])]

/-- The first expression of that document. -/
def receiverCall : Expr :=
  .call ⟨0, none⟩ (.identifier ⟨0, none⟩ "h") [
    .binary ⟨0, none⟩ (.identifier ⟨0, none⟩ "x") .assign (.number ⟨0, none⟩ (.ofInt 1)),
    .call ⟨0, none⟩ (.member ⟨0, none⟩ (.null ⟨0, none⟩) "f") []]

/-- The unit of that document. -/
def receiverUnit : CompilationUnit where
  fileName := "main.ts"
  context := "main"
  statements := [.expression 0 receiverCall,
    .expression 0 (.call ⟨0, none⟩ (.member ⟨0, none⟩ (.wrapped ⟨0, none⟩
      (.await ⟨0, none⟩ (.call ⟨0, none⟩ (.identifier ⟨0, none⟩ "g") []))) "m") [])]
  declCount := 0

theorem compiled_supported_receivers :
    ∃ c q, (compile {} receiverUnit).1 = .ok c ∧ .lowers q receiverCall ∈ log {} receiverUnit ∧
      (receiverCall.parts false).length = 7 ∧
      ∀ part ∈ receiverCall.parts false, part.refused = false := by
  obtain ⟨c, hc⟩ : ∃ c, (compile {} receiverUnit).1 = .ok c := exists_compilation (by decide +kernel)
  have hlog : .lowers (declared {} receiverUnit).toSurroundings receiverCall ∈ log {} receiverUnit :=
    mem_log_first rfl List.mem_cons_self
  exact ⟨c, _, hc, hlog, rfl, compiled_supported hc hlog⟩

/-- The expression of an event has a part that is refused, in whatever position. -/
def refusedIn : Event → Bool
  | .lowers _ e => (e.parts true).any Expr.refused
  | .hoists _ => false

/-- **Receivers are not looked into.**  The unit compiles, and both of the expressions that were
lowered for it contain a part that is refused. -/
theorem receiver_unvisited :
    Document.load receiverDocument "main.ts" = .ok receiverUnit ∧
    (scriptsOf receiverDocument).2 =
      some [.declare "register1", .summon "main", .set (some "main") "register1" "1",
        .operation (some "main") "x" .assign "register1", .invoke "f", .invoke "h", .invoke "m",
        .kill "main"] ∧
    (log {} receiverUnit).length = 2 ∧ (log {} receiverUnit).all refusedIn = true :=
  ⟨rfl, by decide +kernel, by decide +kernel, by decide +kernel⟩

end Session

end FrameScript
