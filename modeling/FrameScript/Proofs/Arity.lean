/-
  Arguments and parameters.

  A call with a known callee gives its arguments to the parameters from the left, one assignment each, as
  far as both go.  What is left over is of two sorts:

  1. Arguments without a parameter are evaluated and dropped, and a warning on the line of the call says
     how many they are.
  2. Parameters without an argument are passed over in silence.  Slots are never cleared, so such a
     parameter holds what the last call left in it (`parameter_stale`).

  `Lower.parameters_assigned` says both of every call, `super(...)` and `new` that lowers, in whatever
  surroundings.
-/
import FrameScript.Proofs.Arguments
import FrameScript.Proofs.CopyIn
import FrameScript.Proofs.Warnings

namespace FrameScript

open Source

namespace Lower

variable {q : Surroundings}

theorem defines_assign (slot : String) (v : Operand) : (assign q slot v).Defines slot := by
  cases v <;> rfl

/-- The first parameters get one assignment each, in order; there are as many as there are values. -/
theorem copyIn_defines (params : List ParamSlot) (values : List Operand) :
    List.Forall₂ (fun param c => c.Defines param.slot) (params.take values.length)
      (copyIn q params values) := by
  induction params generalizing values with
  | nil =>
    rw [List.take_nil]
    exact .nil
  | cons param params ih =>
    cases values with
    | nil => exact .nil
    | cons v values => exact .cons (defines_assign param.slot v) (ih values)

/-- What is said about the arguments of a call to a known callee: nothing, unless some are dropped. -/
theorem warnings_callEffects (line : Nat) (path : String) (k : Callable)
    (arguments : List (Emitted Operand)) (fx : Effects) :
    (callEffects q line path k arguments fx).warnings = fx.warnings ++
      if k.params.length < arguments.length then [surplusWarning q line path k arguments.length]
      else [] := by
  unfold callEffects Effects.warnedIf
  split
  · exact congrArg (· ++ _) (warnings_settle arguments fx)
  · exact (warnings_settle arguments fx).trans (List.append_nil _).symm

/-- **What a call assigns.**  A call, `super(...)` or `new` goes to a known callable.  Between the
evaluation of its arguments and the jump, the first parameters get one assignment each, as many as
there are arguments; so all of them do where there are enough.  Besides what the arguments say, there
is a warning on the line of the call where there are too many, and nothing where there are too few. -/
theorem parameters_assigned {e : Expr} {id : DeclId} {k : Callable} (htarget : q.target? e = some id)
    (hk : q.decls.callable? id = some k) {fx hx : Effects} {out : Emitted (Option Operand)}
    (hrun : (expr q e).run fx = (.ok out, hx)) :
    ∃ arguments gx commands values copies path,
      (Lower.values q e.arguments).run fx = (.ok arguments, gx) ∧
      Passes q gx.allocator.registers arguments commands values ∧
      out.commands = commands ++ copies ++ [.invoke path] ∧
      List.Forall₂ (fun param c => c.Defines param.slot) (k.params.take e.arguments.length) copies ∧
      (k.params.length ≤ e.arguments.length → ∀ param ∈ k.params, ∃ c ∈ copies, c.Defines param.slot) ∧
      hx.warnings = gx.warnings ++
        if k.params.length < e.arguments.length then
          [surplusWarning q e.line path k e.arguments.length] else [] := by
  obtain ⟨arguments, gx, path, hargs, hcommands, rfl⟩ := target_commands htarget hk hrun
  have hlength : arguments.length = e.arguments.length := length_values hargs
  have hcopies := copyIn_defines (q := q) k.params (settle q arguments gx).1.value
  rw [length_settle, hlength] at hcopies
  refine ⟨arguments, gx, _, _, _, path, hargs, settle_passes q arguments gx, hcommands, hcopies,
    fun henough param hparam => ?_, ?_⟩
  · rw [List.take_of_length_le henough] at hcopies
    obtain ⟨i, hi, rfl⟩ := List.getElem_of_mem hparam
    have hi' : i < (copyIn q k.params (settle q arguments gx).1.value).length := hcopies.length_eq ▸ hi
    exact ⟨_, List.getElem_mem hi', hcopies.get hi hi'⟩
  · rw [warnings_callEffects, hlength]

end Lower

namespace Session

/-! Two calls of one function, with too many arguments and with too few. -/

/-- `f(1, 2, 3); f(4); function f(a, b) {}`, each on a line of its own. -/
def unevenDocument : Json.Value :=
  let call (line : Int) (arguments : List Int) : Json.Value :=
    .object [("kind", .string "ExpressionStatement"), ("line", .number (.integer line)),
      ("expression", .object [("kind", .string "CallExpression"),
        ("expression", namedNode "Identifier" "f" []),
        ("arguments", .array (arguments.map fun n =>
          .object [("kind", .string "NumericLiteral"), ("value", .number (.integer n))]))])]
  .object [("statements", .array [call 1 [1, 2, 3], call 2 [4],
    namedNode "FunctionDeclaration" "f" [("line", .number (.integer 3)),
      ("parameters", .array [.object [("name", .string "a")], .object [("name", .string "b")]]),
      ("body", .array [])]])]

/-- Its first call. -/
def surplusCall : Expr :=
  .call ⟨1, none⟩ (.identifier ⟨1, none⟩ "f")
    [.number ⟨1, none⟩ (.ofInt 1), .number ⟨1, none⟩ (.ofInt 2), .number ⟨1, none⟩ (.ofInt 3)]

/-- Its second call. -/
def shortCall : Expr := .call ⟨2, none⟩ (.identifier ⟨2, none⟩ "f") [.number ⟨2, none⟩ (.ofInt 4)]

/-- The unit of the document. -/
def unevenUnit : CompilationUnit where
  fileName := "main.ts"
  context := "main"
  statements := [.expression 1 surplusCall, .expression 2 shortCall,
    .function ⟨0, some "f", [⟨.identifier "a", false, none, 3⟩, ⟨.identifier "b", false, none, 3⟩],
      some [], false, 3⟩]
  declCount := 1

/-- What is recorded for `f`. -/
def unevenCallable : Callable where
  script := "f"
  path := "main/f"
  params := [⟨some "a", "a_1"⟩, ⟨some "b", "b_2"⟩]
  returnSlot := none

/-- Where the calls are lowered. -/
def unevenSession : Session := declared {} unevenUnit

/-- Both parameters are assigned, and one argument is reported. -/
theorem parameters_assigned_surplus :
    ∃ out hx, (Lower.expr unevenSession.toSurroundings surplusCall).run unevenSession.toEffects =
        (.ok out, hx) ∧
      out.commands = [.set (some "main") "a_1" "1", .set (some "main") "b_2" "2", .invoke "main/f"] ∧
      hx.warnings = unevenSession.warnings ++
        [⟨.warning, ⟨1, "main.ts"⟩, "1 surplus argument(s) to `main/f` are dropped"⟩] := by
  have htarget : unevenSession.toSurroundings.target? surplusCall = some 0 := by decide +kernel
  have hk : unevenSession.decls.callable? 0 = some unevenCallable := by decide +kernel
  obtain ⟨out, hx, hrun, hout⟩ : ∃ out hx,
      (Lower.expr unevenSession.toSurroundings surplusCall).run unevenSession.toEffects =
        (.ok out, hx) ∧
      out.commands = [.set (some "main") "a_1" "1", .set (some "main") "b_2" "2",
        .invoke "main/f"] := ⟨_, _, rfl, rfl⟩
  have hvalues : (Lower.values unevenSession.toSurroundings surplusCall.arguments).run
      unevenSession.toEffects =
        (.ok [⟨[], .immediate "1"⟩, ⟨[], .immediate "2"⟩, ⟨[], .immediate "3"⟩],
          unevenSession.toEffects) := rfl
  obtain ⟨arguments, gx, commands, values, copies, path, hargs, -, hcommands, -, -, hwarnings⟩ :=
    Lower.parameters_assigned htarget hk hrun
  obtain ⟨-, rfl⟩ := ok_inj (hargs.symm.trans hvalues)
  have hlast : some (Command.invoke path) = some (.invoke "main/f") := by
    rw [← List.getLast?_concat, ← hcommands, hout]
    rfl
  cases hlast
  exact ⟨out, hx, hrun, hout, hwarnings⟩

/-- **A parameter may keep what an earlier call left in it.**  The second call assigns nothing to the
second parameter, and no warning points at its line. -/
theorem parameter_stale :
    ∃ c out hx, Document.load unevenDocument "main.ts" = .ok unevenUnit ∧
      (compile {} unevenUnit).1 = .ok c ∧
      .lowers unevenSession.toSurroundings shortCall ∈ log {} unevenUnit ∧
      unevenSession.toSurroundings.target? shortCall = some 0 ∧
      unevenSession.decls.callable? 0 = some unevenCallable ∧
      (Lower.expr unevenSession.toSurroundings shortCall).run unevenSession.toEffects =
        (.ok out, hx) ∧
      (∃ param ∈ unevenCallable.params, ∀ d ∈ out.commands, d.target? ≠ some param.slot) ∧
      ∀ w ∈ c.warnings, w.tracer.line ≠ shortCall.line := by
  obtain ⟨c, hc⟩ : ∃ c, (compile {} unevenUnit).1 = .ok c := exists_compilation (by decide +kernel)
  have hlog : log {} unevenUnit = [.lowers unevenSession.toSurroundings surplusCall,
      .lowers unevenSession.toSurroundings shortCall, .hoists 0] := rfl
  have hwarnings : (compile {} unevenUnit).1.toOption.map (·.warnings) =
      some [⟨.warning, ⟨1, "main.ts"⟩, "1 surplus argument(s) to `main/f` are dropped"⟩] := by
    decide +kernel
  rw [hc] at hwarnings
  refine ⟨c, _, _, rfl, hc, ?_, by decide +kernel, by decide +kernel, rfl,
    ⟨⟨some "b", "b_2"⟩, List.mem_cons_of_mem _ List.mem_cons_self, ?_⟩, ?_⟩
  · rw [hlog]
    exact List.mem_cons_of_mem _ List.mem_cons_self
  · show ∀ d ∈ [Command.set (some "main") "a_1" "4", .invoke "main/f"], d.target? ≠ some "b_2"
    decide
  · have heq : c.warnings = _ := Option.some.inj hwarnings
    rw [heq]
    exact List.forall_mem_singleton.mpr (by decide)

end Session

end FrameScript
