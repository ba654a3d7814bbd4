/-
  Fresh names over the life of a session.

  A session answers calls: it compiles units, lowers expressions and hands out names, in any order
  and any number, and each call may fail.  Over all of them

  * no name is minted twice, whatever it was minted for;
  * no name is declared twice, over all scripts of all units and all lowered expressions;
  * no declared name is one that was handed out directly.

  One call mints what it answers with (`perform_minted`): for a compilation this is the ledger of
  lowering, for an expression the registers it stages.  The counters go on from call to call, so the
  minted names of all calls together are one run of the allocator, and there a name cannot repeat.
-/
import FrameScript.Proofs.Counting
import FrameScript.Proofs.Ledger
import Mathlib.Data.List.Perm.Subperm

namespace FrameScript

open Source
open Allocator (Mints)

/-- A call on a session. -/
inductive Call where
  | compile (u : CompilationUnit)
  | lowerExpression (e : Expr)
  /-- A new id; without a stem it gets the default one. -/
  | freshId (stem : Option String)
  | freshRegister

/-- The answer to a call. -/
inductive Answer where
  | compiled (result : Except LowerError Compilation)
  | lowered (result : Except LowerError (List Command))
  | minted (name : String)

namespace Answer

/-- The names handed out by an answer. -/
def names : Answer → List String
  | minted name => [name]
  | _ => []

/-- The names declared in an answer. -/
def declared : Answer → List String
  | compiled (.ok c) => Scripts.declared c.scripts
  | lowered (.ok commands) => declaredBy commands
  | _ => []

end Answer

namespace Session

/-- One call. -/
def perform (s : Session) : Call → Answer × Session
  | .compile u => (.compiled (s.compile u).1, (s.compile u).2)
  | .lowerExpression e => (.lowered (s.lowerExpression e).1, (s.lowerExpression e).2)
  | .freshId stem =>
    let (name, allocator) := s.allocator.freshId (stem.getD defaultStem)
    (.minted name, { s with allocator })
  | .freshRegister =>
    let (name, allocator) := s.allocator.freshRegister
    (.minted name, { s with allocator })

/-- Calls one after the other, with their answers in order. -/
def performAll (s : Session) : List Call → List Answer × Session
  | [] => ([], s)
  | call :: rest =>
    let (answer, t) := s.perform call
    let (answers, u) := t.performAll rest
    (answer :: answers, u)

/-! ## One call -/

/-- A session at the start of a unit holds nothing. -/
theorem held_begin (s : Session) (u : CompilationUnit) : (s.begin u).held = [] := by
  show [] ++ Scripts.declared ∅ = []
  simp [Scripts.declared]

/-- The scripts of a compiled unit declare names that were minted for it. -/
theorem compile_minted {s : Session} {u : CompilationUnit} {c : Compilation}
    (hnodup : (declIds u.statements).Nodup) (h : (s.compile u).1 = .ok c) :
    ∃ minted, Mints s.allocator minted (s.compile u).2.allocator ∧
      ∀ x, (Scripts.declared c.scripts).count x ≤ minted.count x := by
  obtain ⟨out, t, hdeclared, hruns, rfl, hafter⟩ := compile_ok h
  have hpays := (Pays.after_owes (hdeclared.owes hnodup) (hruns.pays hnodup rfl))
  obtain ⟨minted, hminted, hcount⟩ := hpays
  obtain ⟨ws, hws⟩ := stored_eq_noting { t with allocator := { t.allocator with preamble := [] } }
    u.context (declarations t.allocator.preamble ++ t.frame.bracket out.commands) 1
  have hprimary : t.withPrimary u.context out.commands = _ := hws
  have hbody : declaredBy (declarations t.allocator.preamble ++ t.frame.bracket out.commands) =
      t.allocator.preamble := by
    rw [declaredBy_append, declaredBy_declarations, declaredBy_bracket, hruns.declaredBy_eq_nil,
      List.append_nil]
  refine ⟨minted, ?_, fun x => ?_⟩
  · rw [hafter, hprimary]
    have hend : Mints t.allocator [] { t.allocator with preamble := [] } := .preamble _ (.nothing _)
    have hrun := hminted.trans hend
    rw [List.append_nil] at hrun
    exact .preamble [] hrun
  · have hinsert := Scripts.count_declared_insert t.scripts u.context
      (declarations t.allocator.preamble ++ t.frame.bracket out.commands) x
    have hx := hcount x
    rw [hbody] at hinsert
    have hpending : ((s.begin u).decls.pending (declIds u.statements)).count x = 0 := by
      have hempty : (s.begin u).decls.pending (declIds u.statements) = [] := by
        refine List.flatMap_eq_nil_iff.mpr fun i _ => ?_
        show DeclTable.slots ∅ i = []
        simp [DeclTable.slots]
      rw [hempty, List.count_nil]
    rw [held_begin, List.count_nil, hpending, held, List.count_append] at hx
    show (Scripts.declared (t.withPrimary u.context out.commands).scripts).count x ≤ _
    rw [hprimary]
    show (Scripts.declared (t.scripts.insert u.context _)).count x ≤ _
    omega

/-- The effects that a single expression starts from: the preamble is put aside. -/
def bareEffects (s : Session) : Effects :=
  { s.toEffects with allocator := { s.allocator with preamble := [] } }

theorem lowerExpression_eq (s : Session) (e : Expr) :
    s.lowerExpression e =
      let run := (Lower.expr s.toSurroundings e).run s.bareEffects
      (run.1.map fun lowered => declarations run.2.allocator.preamble ++ lowered.commands,
        { s with toEffects := { run.2 with
          allocator := { run.2.allocator with preamble := s.allocator.preamble } } }) := rfl

/-- A lowered expression declares the registers that it stages, and the enclosing preamble is as it
was. -/
theorem lowerExpression_minted (s : Session) (e : Expr) :
    ∃ minted, Mints s.allocator minted (s.lowerExpression e).2.allocator ∧
      ∀ x, (Answer.lowered (s.lowerExpression e).1).declared.count x ≤ minted.count x := by
  obtain ⟨k, hk⟩ := (Lower.keeps_expr s.toSurroundings e s.bareEffects).allocator
  rw [lowerExpression_eq]
  rcases hrun : (Lower.expr s.toSurroundings e).run s.bareEffects with ⟨r, fx⟩
  rw [hrun] at hk
  have hstaged : fx.allocator = s.bareEffects.allocator.staged k := hk
  refine ⟨s.allocator.nextRegisters k, ?_, fun x => ?_⟩
  · show Mints s.allocator _ { fx.allocator with preamble := s.allocator.preamble }
    rw [hstaged]
    have hback := (s.bareEffects.allocator.mints_staged k).trans
      (.preamble s.allocator.preamble (.nothing _))
    rw [List.append_nil] at hback
    exact .preamble [] hback
  · cases r with
    | error err => exact Nat.zero_le _
    | ok out =>
      show (declaredBy (declarations fx.allocator.preamble ++ out.commands)).count x ≤ _
      rw [declaredBy_append, declaredBy_declarations,
        declaredBy_inFrame (Lower.emitsInFrame _ e hrun), List.append_nil, hstaged]
      exact Nat.le_refl _

/-- **What a call answers with was minted by it.** -/
theorem perform_minted (s : Session) (call : Call)
    (hids : ∀ u, call = .compile u → (declIds u.statements).Nodup) :
    ∃ minted, Mints s.allocator minted (s.perform call).2.allocator ∧
      ∀ x, (s.perform call).1.names.count x + (s.perform call).1.declared.count x ≤
        minted.count x := by
  cases call with
  | compile u =>
    cases hresult : (s.compile u).1 with
    | ok c =>
      obtain ⟨minted, hminted, hcount⟩ := compile_minted (hids u rfl) hresult
      refine ⟨minted, hminted, fun x => ?_⟩
      have hx := hcount x
      simpa [perform, Answer.names, Answer.declared, hresult] using hx
    | error e =>
      -- a failed compilation answers with no name at all
      obtain ⟨minted, hminted⟩ := s.counts_compile u
      refine ⟨minted, hminted, fun x => ?_⟩
      simp [perform, Answer.names, Answer.declared, hresult]
  | lowerExpression e =>
    obtain ⟨minted, hminted, hcount⟩ := s.lowerExpression_minted e
    refine ⟨minted, hminted, fun x => ?_⟩
    have hx := hcount x
    simpa [perform, Answer.names] using hx
  | freshId stem =>
    refine ⟨_, .id (stem.getD defaultStem) (.nothing _), fun x => ?_⟩
    exact Nat.le_refl _
  | freshRegister =>
    refine ⟨_, .register (.nothing _), fun x => ?_⟩
    exact Nat.le_refl _

/-! ## All calls -/

/-- The minted names of all calls together are one run of the allocator. -/
theorem performAll_minted (s : Session) (calls : List Call)
    (hids : ∀ u, .compile u ∈ calls → (declIds u.statements).Nodup) :
    ∃ minted, Mints s.allocator minted (s.performAll calls).2.allocator ∧
      ∀ x, ((s.performAll calls).1.flatMap Answer.names).count x +
        ((s.performAll calls).1.flatMap Answer.declared).count x ≤ minted.count x := by
  induction calls generalizing s with
  | nil => exact ⟨[], .nothing _, fun x => Nat.le_refl _⟩
  | cons call rest ih =>
    obtain ⟨first, hfirst, hcount⟩ := s.perform_minted call fun u hu =>
      hids u (hu ▸ List.mem_cons_self)
    obtain ⟨more, hmore, hcount'⟩ := ih (s.perform call).2 fun u hu =>
      hids u (List.mem_cons_of_mem call hu)
    refine ⟨first ++ more, hfirst.trans hmore, fun x => ?_⟩
    have h₁ := hcount x
    have h₂ := hcount' x
    simp only [performAll, List.flatMap_cons, List.count_append]
    omega

/-- **Session-wide freshness.**  Whatever names the allocator handed out between the first and the
last session of a sequence of calls, they are pairwise distinct.  The names that the calls answered
with and the names declared in all their scripts and texts are among them, each at most once; so no
name is handed out twice, none is declared twice, and none is both. -/
theorem performAll_names_nodup (s : Session) (calls : List Call)
    (hloaded : ∀ u, .compile u ∈ calls →
      ∃ document fallback, Document.load document fallback = .ok u) :
    (∀ minted, Mints s.allocator minted (s.performAll calls).2.allocator → minted.Nodup) ∧
    (∃ minted, Mints s.allocator minted (s.performAll calls).2.allocator ∧
      ((s.performAll calls).1.flatMap Answer.names ++
        (s.performAll calls).1.flatMap Answer.declared).Subperm minted) ∧
    ((s.performAll calls).1.flatMap Answer.names ++
      (s.performAll calls).1.flatMap Answer.declared).Nodup := by
  obtain ⟨minted, hminted, hcount⟩ := s.performAll_minted calls fun u hu => by
    obtain ⟨document, fallback, hload⟩ := hloaded u hu
    exact Document.load_nodup hload
  refine ⟨fun minted hminted => hminted.nodup, ⟨minted, hminted, ?_⟩, ?_⟩
  · refine List.subperm_ext_iff.mpr fun x _ => ?_
    rw [List.count_append]
    exact hcount x
  · refine List.nodup_iff_count_le_one.mpr fun x => ?_
    have hx := hcount x
    have hone := List.nodup_iff_count_le_one.mp hminted.nodup x
    rw [List.count_append]
    omega

/-! A session that compiles one unit twice, with other calls in between. -/

/-- `function f(a) { return a } let x = f(2)` -/
def callDocument : Json.Value :=
  .object [("statements", .array [
    .object [("kind", .string "FunctionDeclaration"), ("name", .string "f"),
      ("parameters", .array [.object [("name", .string "a")]]),
      ("body", .array [.object [("kind", .string "ReturnStatement"),
        ("expression", .object [("kind", .string "Identifier"), ("name", .string "a")])]])],
    .object [("kind", .string "VariableStatement"), ("declarations", .array [
      .object [("name", .string "x"), ("initializer", .object [("kind", .string "CallExpression"),
        ("expression", .object [("kind", .string "Identifier"), ("name", .string "f")]),
        ("arguments", .array [.object [("kind", .string "NumericLiteral"),
          ("value", .number (.integer 2))]])])]])]])]

/-- The unit of that document. -/
def callUnit : CompilationUnit where
  fileName := "main.ts"
  context := "main"
  statements := [
    .function ⟨0, some "f", [⟨.identifier "a", false, none, 0⟩],
      some [.returning 0 (some (.identifier ⟨0, none⟩ "a"))], false, 0⟩,
    .bindings 0 [⟨.identifier "x", some (.call ⟨0, none⟩ (.identifier ⟨0, none⟩ "f")
      [.number ⟨0, none⟩ (.ofInt 2)]), 0⟩]]
  declCount := 1

/-- The second of these calls lowers `x++`, the third fails. -/
def sampleCalls : List Call :=
  [.compile callUnit,
    .lowerExpression (.unary ⟨0, none⟩ .increment .after (.identifier ⟨0, none⟩ "x")),
    .lowerExpression (.null ⟨0, none⟩), .freshId (some "x"), .freshRegister, .compile callUnit]

theorem performAll_sampleCalls :
    Document.load callDocument "main.ts" = .ok callUnit ∧
    (performAll {} sampleCalls).1.flatMap Answer.names = ["x_4", "register3"] ∧
    (performAll {} sampleCalls).1.flatMap Answer.declared =
      ["a_1", "f_return_2", "x_3", "register1", "register2", "a_5", "f_return_6", "x_7"] ∧
    ((performAll {} sampleCalls).1.flatMap Answer.names ++
      (performAll {} sampleCalls).1.flatMap Answer.declared).Nodup := by
  have hload : Document.load callDocument "main.ts" = .ok callUnit := rfl
  refine ⟨hload, by decide +kernel, by decide +kernel, ?_⟩
  refine (performAll_names_nodup {} sampleCalls fun u hu => ⟨callDocument, "main.ts", ?_⟩).2.2
  have hu' : u = callUnit := by simpa [sampleCalls] using hu
  rw [hu', hload]

end Session

end FrameScript
