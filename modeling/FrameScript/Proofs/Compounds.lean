/-
  When a compound assignment reads its left side.

  `t op= e` becomes the commands of `e` and one operation on the slot of `t`.  So `t` is read after
  `e` was evaluated, not before, and the two differ where `e` itself assigns or updates the slot.

  `compound_assigns` says what the slot ends with in either case: the operator is applied to what the
  slot holds after the commands of `e`, and that is what it held at first unless `e` assigns it.
  `compound_reads_new` is a case where the two differ.  An argument or the operand of a postfix `++`
  would have been copied before it is overwritten (`Lower.settle`, `Lower.update`); the left side of a
  compound assignment is not.
-/
import FrameScript.Proofs.Targets

namespace FrameScript

open Source

universe u

variable {V : Type u}

/-! ## Commands that run no script -/

section Runs

variable (I : Interpretation V)

/-- Commands that run no other script have a meaning. -/
theorem exists_execute {cs : List Command} (h : invokes cs = []) (σ : Store V) :
    ∃ σ', execute I cs σ = some σ' := by
  induction cs generalizing σ with
  | nil => exact ⟨σ, rfl⟩
  | cons c rest ih =>
    have hparts : invokes [c] ++ invokes rest = [] := (invokes_append [c] rest).symm.trans h
    obtain ⟨-, hrest⟩ := List.append_eq_nil_iff.mp hparts
    have hfirst : ∃ τ, c.execute I σ = some τ := by
      cases c with
      | invoke path => cases h
      | _ => exact ⟨_, rfl⟩
    obtain ⟨τ, hτ⟩ := hfirst
    obtain ⟨σ', hσ'⟩ := ih hrest τ
    exact ⟨σ', by rw [execute, hτ]; exact hσ'⟩

/-- Where commands have a meaning of their own, running scripts plays no part. -/
theorem enact_of_execute (jump : String → Store V → Store V) {cs : List Command} {σ σ' : Store V}
    (h : execute I cs σ = some σ') : enact I jump cs σ = σ' := by
  induction cs generalizing σ with
  | nil => exact Option.some.inj h
  | cons c rest ih =>
    obtain ⟨τ, hτ, hrest⟩ := Option.bind_eq_some_iff.mp h
    have hfirst : c.enact I jump σ = τ := by
      cases c with
      | invoke path => cases hτ
      | _ => exact Option.some.inj hτ
    rw [enact, hfirst]
    exact ih hrest

/-- A register that no command changes keeps its value. -/
theorem execute_keeps {cs : List Command} {frame : Frame} {r : String}
    (hcs : ∀ c ∈ cs, c.target? ≠ some r) {σ σ' : Store V} (h : execute I cs σ = some σ') :
    σ' frame r = σ frame r := by
  rw [← enact_of_execute I (fun _ τ => τ) h]
  exact enact_keeps I (fun _ _ => rfl) hcs σ

end Runs

namespace Lower

variable {q : Surroundings}

/-- A call-free expression runs no script. -/
theorem invokes_eq_nil {e : Expr} {fx gx : Effects} {out : Emitted (Option Operand)}
    (hrun : (expr q e).run fx = (.ok out, gx)) (hcalls : e.calls false = 0) :
    invokes out.commands = [] := by
  rw [← List.length_eq_zero_iff, invoked_once hrun, hcalls]

/-- A call-free expression fills no parameter. -/
theorem not_fills {e : Expr} (hcalls : e.calls false = 0) (slot : String) : ¬q.Fills e slot := by
  rintro ⟨part, hpart, id, k, htarget, -⟩
  have hno := List.countP_eq_zero.mp hcalls part hpart
  cases part with
  | call => exact hno rfl
  | construct => exact hno rfl
  | _ => cases htarget

/-- A slot that a call-free expression does not assign keeps its value, if it is none of the registers
minted for it. -/
theorem execute_other (I : Interpretation V) {e : Expr} {fx gx : Effects}
    {out : Emitted (Option Operand)} (hrun : (expr q e).run fx = (.ok out, gx))
    (hcalls : e.calls false = 0) {slot : String}
    (hslot : ¬MintedSince fx.allocator gx.allocator slot) (hassigns : ¬q.Assigns e slot)
    {frame : Frame} {σ σ' : Store V} (h : execute I out.commands σ = some σ') :
    σ' frame slot = σ frame slot := by
  refine execute_keeps I (fun c hc htarget => ?_) h
  cases writes_expr e hrun c hc slot htarget with
  | assigned h => exact hassigns h
  | filled h => exact not_fills hcalls slot h
  | minted h => exact hslot h

/-- An operand as a register has its value, and only the register that is minted for a literal is
changed. -/
theorem execute_stage (I : Interpretation V) (v : Operand) (fx : Effects) (σ : Store V) :
    ∃ σ', execute I (stage q v fx).1.commands σ = some σ' ∧
      σ' q.frame (stage q v fx).1.value = v.read I q.frame σ ∧
      ∀ r, ¬MintedSince fx.allocator (stage q v fx).2.allocator r → σ' q.frame r = σ q.frame r := by
  cases v with
  | slot register => exact ⟨σ, rfl, rfl, fun _ _ => rfl⟩
  | immediate text =>
    refine ⟨_, rfl, Store.put_self _ _ _ _, fun r hr => Store.put_other _ _ _ ?_⟩
    rintro rfl
    exact hr ⟨fx.allocator.registers + 1, Nat.lt_succ_self _, Nat.le_refl _, rfl⟩

/-! ## Compound assignments -/

/-- **When a compound assignment reads its left side.**  A call-free assignment `t op= e` lowers, where
no name in it is spelled like a register and no name stands for one of the registers that are minted
for it.  From any store its commands, which start with those of `e`, end with the slot of `t` holding
the operator applied to what the slot held after the commands of `e` and the value of `e`.  If `e` does
not assign or update the slot, it held its old value then. -/
theorem compound_assigns (I : Interpretation V) {m : Mark} {left right : Expr} {op : BinaryOp} {code : Op}
    (hcode : assignmentOp? op = some code) (hcalls : (Expr.binary m left op right).calls false = 0)
    (hnames : ∀ n ∈ (Expr.binary m left op right).names, ¬RegisterLike n) {fx gx : Effects}
    {out : Emitted (Option Operand)} (hrun : (expr q (.binary m left op right)).run fx = (.ok out, gx))
    (hspares : q.Spares (MintedSince fx.allocator gx.allocator)) (σ : Store V) :
    ∃ target commands v hx σ₁ σ', q.targetSlot left = .ok target ∧
      (expr q right).run fx = (.ok ⟨commands, some v⟩, hx) ∧ commands <+: out.commands ∧
      execute I commands σ = some σ₁ ∧ execute I out.commands σ = some σ' ∧
      σ' q.frame target = I.combine code (σ₁ q.frame target) (v.read I q.frame σ₁) ∧
      (¬q.Assigns right target →
        σ' q.frame target = I.combine code (σ q.frame target) (v.read I q.frame σ₁)) := by
  have hright : right.calls false = 0 := by
    rw [Expr.calls_binary] at hcalls
    omega
  cases lowered_of_run hrun with
  | square m _ _ => cases hcode
  | @store _ _ _ _ code' target commands v _ hx hcode' htarget hvalue =>
    cases hcode'.symm.trans hcode
    have hlo := registers_le_of_run (keeps_expr q right) hvalue
    have hhi := (extends_stage q v hx).registers_le
    -- the slot is none of the registers that are minted meanwhile
    have hslot : ¬MintedSince fx.allocator (stage q v hx).2.allocator target :=
      (hspares.supplies fun x hx => hx.registerLike).target
        (fun n hn => hnames n (List.mem_append_left _ hn)) htarget
    obtain ⟨σ₁, hσ₁⟩ := exists_execute I (invokes_eq_nil hvalue hright) σ
    obtain ⟨σ₂, hσ₂, hstaged, hothers⟩ := execute_stage (q := q) I v hx σ₁
    have hkept : σ₂ q.frame target = σ₁ q.frame target :=
      hothers target fun hminted => hslot (hminted.widen hlo (Nat.le_refl _))
    have hexecuted : execute I (commands ++ (stage q v hx).1.commands ++
        [operate q target code (stage q v hx).1.value]) σ = some _ :=
      execute_append_of I (execute_append_of I hσ₁ hσ₂) rfl
    have hresult : (σ₂.put q.frame target (I.combine code (σ₂ q.frame target)
        (σ₂ q.frame (stage q v hx).1.value))) q.frame target =
          I.combine code (σ₁ q.frame target) (v.read I q.frame σ₁) := by
      rw [Store.put_self, hkept, hstaged]
    refine ⟨target, commands, v, hx, σ₁, _, htarget, hvalue, ?_, hσ₁, hexecuted, hresult, fun hnot => ?_⟩
    · exact (List.prefix_append _ _).trans (List.prefix_append _ _)
    · have hold : σ₁ q.frame target = σ q.frame target :=
        execute_other I hvalue hright (fun hminted => hslot (hminted.widen (Nat.le_refl _) hhi)) hnot hσ₁
      rw [hresult, hold]

end Lower

namespace Session

/-! A compound assignment whose right side assigns a variable, the same or another one. -/

/-- `let x = 1; let y = 2; x += name = 5` -/
def assigningDocument (name : String) : Json.Value :=
  let assignment (left operator : String) (right : Json.Value) : Json.Value :=
    .object [("kind", .string "BinaryExpression"), ("left", namedNode "Identifier" left []),
      ("operator", .string operator), ("right", right)]
  .object [("statements", .array [letNode "x" "1", letNode "y" "2",
    .object [("kind", .string "ExpressionStatement"), ("expression", assignment "x" "+="
      (assignment name "=" (.object [("kind", .string "NumericLiteral"), ("value", .string "5")])))]])]

/-- Its right side. -/
def assigningRight (name : String) : Expr :=
  .binary ⟨0, none⟩ (.identifier ⟨0, none⟩ name) .assign (.number ⟨0, none⟩ (.ofInt 5))

/-- Its compound assignment. -/
def assigningExpr (name : String) : Expr :=
  .binary ⟨0, none⟩ (.identifier ⟨0, none⟩ "x") .addAssign (assigningRight name)

/-- The unit of the document. -/
def assigningUnit (name : String) : CompilationUnit where
  fileName := "main.ts"
  context := "main"
  statements := [
    .bindings 0 [⟨.identifier "x", some (.number ⟨0, none⟩ (.ofInt 1)), 0⟩],
    .bindings 0 [⟨.identifier "y", some (.number ⟨0, none⟩ (.ofInt 2)), 0⟩],
    .expression 0 (assigningExpr name)]
  declCount := 0

/-- Where the compound assignment is lowered. -/
def assigningSession (name : String) : Session :=
  ((declared {} (assigningUnit name)).withVariable "x").withVariable "y"

/-- `x += y = 5` adds 5 to the old value. -/
theorem compound_assigns_other :
    ∃ out gx, (Lower.expr (assigningSession "y").toSurroundings (assigningExpr "y")).run
        (assigningSession "y").toEffects = (.ok out, gx) ∧
      ∀ σ : Store Int, ∃ σ', execute integers out.commands σ = some σ' ∧
        σ' (some "main") "x_1" = σ (some "main") "x_1" + 5 := by
  obtain ⟨c, hc⟩ : ∃ c, (compile {} (assigningUnit "y")).1 = .ok c :=
    exists_compilation (by decide +kernel)
  have hlog : .lowers (assigningSession "y").toSurroundings (assigningExpr "y") ∈
      log {} (assigningUnit "y") := by
    have heq : log {} (assigningUnit "y") = (log {} (assigningUnit "y")).take 2 ++
        [.lowers (assigningSession "y").toSurroundings (assigningExpr "y")] := rfl
    rw [heq]
    exact List.mem_append_right _ List.mem_cons_self
  have hapart : (assigningSession "y").StandsApart := by
    refine lowers_standsApart (fun line i hi => ?_) hc hlog
    simp [assigningUnit] at hi
  have hstarts : ∀ n ∈ (assigningExpr "y").names, ¬"register".toList <+: n.toList := by decide +kernel
  obtain ⟨out, gx, hrun⟩ : ∃ out gx, (Lower.expr (assigningSession "y").toSurroundings
      (assigningExpr "y")).run (assigningSession "y").toEffects = (.ok out, gx) := ⟨_, _, rfl⟩
  have hx : (assigningSession "y").targetSlot (.identifier ⟨0, none⟩ "x") = .ok "x_1" := by decide +kernel
  have hy : (assigningSession "y").targetSlot (.identifier ⟨0, none⟩ "y") = .ok "y_2" := by decide +kernel
  have hnot : ¬(assigningSession "y").Assigns (assigningRight "y") "x_1" := by
    rintro ⟨part, hpart, _, hchanged, hslot⟩
    have hparts : (assigningRight "y").parts false = [assigningRight "y",
        .identifier ⟨0, none⟩ "y", .number ⟨0, none⟩ (.ofInt 5)] := rfl
    simp only [hparts, List.mem_cons, List.not_mem_nil, or_false] at hpart
    rcases hpart with rfl | rfl | rfl
    · cases hchanged
      exact absurd (Except.ok.inj (hslot.symm.trans hy)) (by decide)
    · cases hchanged
    · cases hchanged
  refine ⟨out, gx, hrun, fun σ => ?_⟩
  obtain ⟨target, commands, v, _, σ₁, σ', htarget, hright, -, hσ₁, hσ', -, hvalue⟩ :=
    Lower.compound_assigns integers rfl (by decide +kernel)
      (fun n hn => notRegister_of_start (hstarts n hn)) hrun (hapart.spares fun x hx => hx.registerLike) σ
  cases htarget.symm.trans hx
  cases hright
  cases hσ₁
  exact ⟨σ', hσ', hvalue hnot⟩

/-- **A compound assignment may read the new value**: `x += x = 5` makes 10 of 1. -/
theorem compound_reads_new :
    ∃ out gx right hx v, Document.load (assigningDocument "x") "main.ts" = .ok (assigningUnit "x") ∧
      (∀ n ∈ (assigningUnit "x").names, ¬RegisterLike n) ∧
      .lowers (assigningSession "x").toSurroundings (assigningExpr "x") ∈ log {} (assigningUnit "x") ∧
      (assigningExpr "x").calls true = 0 ∧
      (Lower.expr (assigningSession "x").toSurroundings (assigningExpr "x")).run
        (assigningSession "x").toEffects = (.ok out, gx) ∧ out.value = some (.slot "x_1") ∧
      (Lower.expr (assigningSession "x").toSurroundings (assigningRight "x")).run
        (assigningSession "x").toEffects = (.ok ⟨right, some v⟩, hx) ∧
      ∃ σ σ₁ σ' : Store Int, execute integers right σ = some σ₁ ∧
        execute integers out.commands σ = some σ' ∧
        σ' (some "main") "x_1" ≠
          integers.combine .add (σ (some "main") "x_1") (v.read integers (some "main") σ₁) := by
  have hload : Document.load (assigningDocument "x") "main.ts" = .ok (assigningUnit "x") := rfl
  have hstarts : ∀ n ∈ (assigningUnit "x").names, ¬"register".toList <+: n.toList := by decide +kernel
  have hlog : log {} (assigningUnit "x") = (log {} (assigningUnit "x")).take 2 ++
      [.lowers (assigningSession "x").toSurroundings (assigningExpr "x")] := rfl
  refine ⟨_, _, _, _, _, hload, fun n hn => notRegister_of_start (hstarts n hn), ?_, by decide +kernel,
    rfl, rfl, rfl, fun _ _ => 1, _, _, rfl, rfl, ?_⟩
  · rw [hlog]
    exact List.mem_append_right _ List.mem_cons_self
  · show (10 : Int) ≠ 6
    decide

end Session

end FrameScript
