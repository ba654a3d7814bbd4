/-
  What the commands of an expression change.

  A command changes at most one register.  In an expression these are the targets of its assignments
  and updates, the parameter slots of the callables that it calls, and registers that were minted
  while it was lowered (`Writes`).  No other register is touched, however deep the expression is
  (`Lower.writes_expr`).
-/
import FrameScript.Proofs.Arguments
import FrameScript.Proofs.CopyIn
import FrameScript.Proofs.Invocations

namespace FrameScript

open Source

/-! ## The registers that an expression writes -/

/-- What an assignment or an update changes. -/
def Source.Expr.changed? : Expr → Option Expr
  | .binary _ left _ _ => some left
  | .unary _ _ _ operand => some operand
  | _ => none

/-- An assignment or an update in the expression has the slot for its target. -/
def Surroundings.Assigns (q : Surroundings) (e : Expr) (slot : String) : Prop :=
  ∃ part ∈ e.parts false, ∃ target, part.changed? = some target ∧ q.targetSlot target = .ok slot

/-- A call in the expression copies an argument into the slot. -/
def Surroundings.Fills (q : Surroundings) (e : Expr) (slot : String) : Prop :=
  ∃ part ∈ e.parts false, ∃ id k, q.target? part = some id ∧ q.decls.callable? id = some k ∧
    slot ∈ k.params.map (·.slot)

/-- The registers that an expression may change, when it is lowered between two states of the
allocator. -/
inductive Writes (q : Surroundings) (e : Expr) (a b : Allocator) (slot : String) : Prop where
  | assigned (h : q.Assigns e slot)
  | filled (h : q.Fills e slot)
  | minted (h : MintedSince a b slot)

/-- The commands change nothing but what the expression may change. -/
def OnlyWrites (q : Surroundings) (e : Expr) (a b : Allocator) (commands : List Command) : Prop :=
  ∀ c ∈ commands, ∀ slot, c.target? = some slot → Writes q e a b slot

theorem Surroundings.Assigns.mono {q : Surroundings} {e e' : Expr}
    (hparts : e'.parts false ⊆ e.parts false) {slot : String} (h : q.Assigns e' slot) :
    q.Assigns e slot := by
  obtain ⟨part, hpart, htarget⟩ := h
  exact ⟨part, hparts hpart, htarget⟩

theorem Surroundings.Fills.mono {q : Surroundings} {e e' : Expr}
    (hparts : e'.parts false ⊆ e.parts false) {slot : String} (h : q.Fills e' slot) :
    q.Fills e slot := by
  obtain ⟨part, hpart, hcall⟩ := h
  exact ⟨part, hparts hpart, hcall⟩

/-- The two ends of a stretch of minting may be moved apart. -/
theorem MintedSince.widen {a a' b b' : Allocator} (hlo : a.registers ≤ a'.registers)
    (hhi : b'.registers ≤ b.registers) {x : String} (h : MintedSince a' b' x) : MintedSince a b x := by
  obtain ⟨n, hlo', hhi', rfl⟩ := h
  exact ⟨n, by omega, by omega, rfl⟩

namespace OnlyWrites

variable {q : Surroundings} {e : Expr} {a b : Allocator} {xs ys : List Command}

theorem nil : OnlyWrites q e a b [] := fun _ hc => absurd hc List.not_mem_nil

theorem append (hx : OnlyWrites q e a b xs) (hy : OnlyWrites q e a b ys) :
    OnlyWrites q e a b (xs ++ ys) := by
  intro c hc
  rcases List.mem_append.mp hc with hc | hc
  · exact hx c hc
  · exact hy c hc

theorem cons {c : Command} (hc : ∀ slot, c.target? = some slot → Writes q e a b slot)
    (hx : OnlyWrites q e a b xs) : OnlyWrites q e a b (c :: xs) :=
  List.forall_mem_cons.mpr ⟨hc, hx⟩

/-- A part of the expression is lowered on a part of the way. -/
theorem mono {e' : Expr} {a' b' : Allocator} (h : OnlyWrites q e' a' b' xs)
    (hparts : e'.parts false ⊆ e.parts false) (hlo : a.registers ≤ a'.registers)
    (hhi : b'.registers ≤ b.registers) : OnlyWrites q e a b xs := by
  intro c hc slot hslot
  cases h c hc slot hslot with
  | assigned h => exact .assigned (h.mono hparts)
  | filled h => exact .filled (h.mono hparts)
  | minted h => exact .minted (h.widen hlo hhi)

/-- Running a script is no change of a register. -/
theorem invoke (h : OnlyWrites q e a b xs) (path : String) :
    OnlyWrites q e a b (xs ++ [.invoke path]) :=
  h.append (cons (fun _ hslot => nomatch hslot) nil)

end OnlyWrites

/-! ## Expressions -/

theorem Effects.Extends.registers_le {fx gx : Effects} (h : fx.Extends gx) :
    fx.allocator.registers ≤ gx.allocator.registers := by
  obtain ⟨k, hk⟩ := h.allocator
  rw [hk]
  exact Nat.le_add_right _ _

namespace Lower

variable {q : Surroundings}

theorem registers_le_of_run {α : Type} {m : Lowering α} (hm : Keeps Effects.Extends m)
    {r : Except LowerError α} {fx gx : Effects} (hrun : m.run fx = (r, gx)) :
    fx.allocator.registers ≤ gx.allocator.registers := by
  have hkeeps := hm fx
  rw [hrun] at hkeeps
  exact hkeeps.registers_le

/-- The expression, wherever it lowers, writes what its assignments, its calls and its registers
allow. -/
def WritesOwn (q : Surroundings) (e : Expr) : Prop :=
  ∀ {fx gx : Effects} {out : Emitted (Option Operand)}, (expr q e).run fx = (.ok out, gx) →
    OnlyWrites q e fx.allocator gx.allocator out.commands

/-- Evaluated expressions that are parts of one. -/
theorem writes_values {e : Expr} {args : List Expr} (h : ∀ a ∈ args, WritesOwn q a)
    (hparts : ∀ a ∈ args, a.parts false ⊆ e.parts false) {fx gx : Effects}
    {arguments : List (Emitted Operand)} (hrun : (values q args).run fx = (.ok arguments, gx)) :
    ∀ argument ∈ arguments, OnlyWrites q e fx.allocator gx.allocator argument.commands := by
  induction args generalizing fx arguments with
  | nil =>
    rw [values] at hrun
    cases hrun
    exact fun _ hin => absurd hin List.not_mem_nil
  | cons a rest ih =>
    obtain ⟨first, others, hx, hexpr, hrest, rfl⟩ := values_cons_ok hrun
    have hfirst := registers_le_of_run (keeps_expr q a) hexpr
    have hlast := registers_le_of_run (keeps_values q fun b _ => keeps_expr q b) hrest
    have hothers := ih (fun b hb => h b (List.mem_cons_of_mem a hb))
      (fun b hb => hparts b (List.mem_cons_of_mem a hb)) hrest
    refine List.forall_mem_cons.mpr ⟨?_, fun argument hin => ?_⟩
    · exact (h a List.mem_cons_self hexpr).mono (hparts a List.mem_cons_self) (Nat.le_refl _) hlast
    · exact (hothers argument hin).mono (List.Subset.refl _) hfirst (Nat.le_refl _)

theorem writes_dropped {e : Expr} {args : List Expr} (h : ∀ a ∈ args, WritesOwn q a)
    (hparts : ∀ a ∈ args, a.parts false ⊆ e.parts false) {fx gx : Effects} {out : List Command}
    (hrun : (dropped q args).run fx = (.ok out, gx)) :
    OnlyWrites q e fx.allocator gx.allocator out := by
  induction args generalizing fx out with
  | nil =>
    rw [dropped] at hrun
    cases hrun
    exact .nil
  | cons a rest ih =>
    obtain ⟨first, others, hx, hexpr, hrest, rfl⟩ := dropped_cons_ok hrun
    have hfirst := registers_le_of_run (keeps_expr q a) hexpr
    have hlast := registers_le_of_run (keeps_dropped q fun b _ => keeps_expr q b) hrest
    have hothers := ih (fun b hb => h b (List.mem_cons_of_mem a hb))
      (fun b hb => hparts b (List.mem_cons_of_mem a hb)) hrest
    refine .append ?_ (hothers.mono (List.Subset.refl _) hfirst (Nat.le_refl _))
    exact (h a List.mem_cons_self hexpr).mono (hparts a List.mem_cons_self) (Nat.le_refl _) hlast

/-- Settled arguments change the copies beside what the arguments change. -/
theorem writes_settle {e : Expr} {a : Allocator} {arguments : List (Emitted Operand)} (fx : Effects)
    (hlo : a.registers ≤ fx.allocator.registers)
    (h : ∀ argument ∈ arguments, OnlyWrites q e a fx.allocator argument.commands) :
    OnlyWrites q e a (settle q arguments fx).2.allocator (settle q arguments fx).1.commands := by
  induction arguments generalizing fx with
  | nil => exact .nil
  | cons argument rest ih =>
    have hend := (extends_settle q (argument :: rest) fx).registers_le
    have hfirst := (h argument List.mem_cons_self).mono (List.Subset.refl _) (Nat.le_refl _) hend
    rw [settle_cons] at hend hfirst ⊢
    dsimp only at hend hfirst ⊢
    rcases protect_cases q argument rest fx with ⟨hkept, -⟩ | ⟨register, -, hkept⟩
    · rw [hkept] at hfirst ⊢
      dsimp only at hfirst ⊢
      rw [List.append_nil]
      exact hfirst.append (ih fx hlo fun b hb => h b (List.mem_cons_of_mem argument hb))
    · rw [hkept] at hfirst ⊢
      dsimp only at hfirst ⊢
      have hnext : fx.allocator.registers ≤ fx.scratched.allocator.registers := Nat.le_succ _
      have hlast := (extends_settle q rest fx.scratched).registers_le
      have hcopy : MintedSince a (settle q rest fx.scratched).2.allocator fx.scratch :=
        ⟨fx.allocator.registers + 1, Nat.lt_succ_of_le hlo, hlast, rfl⟩
      have hothers := ih fx.scratched (Nat.le_trans hlo hnext) fun b hb =>
        (h b (List.mem_cons_of_mem argument hb)).mono (List.Subset.refl _) (Nat.le_refl _) hnext
      refine (hfirst.append (.cons (fun slot hslot => .minted ?_) .nil)).append hothers
      exact Option.some.inj hslot ▸ hcopy

/-- A call fills the parameter slots of its callable. -/
theorem writes_call {e : Expr} {args : List Expr} (h : ∀ a ∈ args, WritesOwn q a)
    (hparts : ∀ a ∈ args, a.parts false ⊆ e.parts false) (hself : e ∈ e.parts false) {id : DeclId}
    {k : Callable} (htarget : q.target? e = some id) (hk : q.decls.callable? id = some k)
    {fx gx : Effects} {arguments : List (Emitted Operand)}
    (hrun : (values q args).run fx = (.ok arguments, gx)) (line : Nat) (path : String) :
    OnlyWrites q e fx.allocator (callEffects q line path k arguments gx).allocator
      (callCommands q path k arguments gx) := by
  have hstart := registers_le_of_run (keeps_values q fun b _ => keeps_expr q b) hrun
  rw [callEffects, warnedIf_allocator]
  refine ((writes_settle gx hstart (writes_values h hparts hrun)).append fun c hc slot hslot => ?_).invoke
    path
  obtain ⟨⟨param, v⟩, hin, rfl⟩ := List.mem_map.mp hc
  have hparam : param.slot = slot := by
    cases v <;> exact Option.some.inj hslot
  exact .filled ⟨e, hself, id, k, htarget, hk,
    hparam ▸ List.mem_map_of_mem (List.of_mem_zip hin).1⟩

theorem parts_subset_exprParts {a : Expr} {args : List Expr} (ha : a ∈ args) :
    a.parts false ⊆ exprParts false args := by
  rw [exprParts_eq]
  exact fun part hpart => List.mem_flatMap.mpr ⟨a, ha, hpart⟩

/-- The commands that put an operand into a register. -/
theorem writes_stage {e : Expr} {a : Allocator} (v : Operand) (fx : Effects)
    (hlo : a.registers ≤ fx.allocator.registers) :
    OnlyWrites q e a (stage q v fx).2.allocator (stage q v fx).1.commands := by
  cases v with
  | slot register => exact .nil
  | immediate text =>
    refine .cons (fun slot hslot => .minted ⟨fx.allocator.registers + 1, ?_⟩) .nil
    exact ⟨Nat.lt_succ_of_le hlo, Nat.le_refl _, (Option.some.inj hslot).symm⟩

/-- An update changes its target. -/
theorem writes_updated {e : Expr} {target : String} (htarget : q.Assigns e target) (code : Op)
    (keepOld : Bool) (fx : Effects) :
    OnlyWrites q e fx.allocator (updated q target code keepOld fx).2.allocator
      (updated q target code keepOld fx).1.commands := by
  have hoperation : ∀ (b : Allocator) (register slot : String),
      (operate q target code register).target? = some slot → Writes q e fx.allocator b slot :=
    fun b register slot hslot => .assigned (Option.some.inj hslot ▸ htarget)
  have hfirst : ∀ b : Allocator, fx.allocator.registers + 1 ≤ b.registers →
      MintedSince fx.allocator b fx.scratch := fun b hb =>
    ⟨fx.allocator.registers + 1, Nat.lt_succ_self _, hb, rfl⟩
  cases keepOld with
  | false =>
    refine .cons (fun slot hslot => ?_) (.cons (hoperation _ _) .nil)
    exact .minted (Option.some.inj hslot ▸ hfirst _ (Nat.le_refl _))
  | true =>
    refine .cons (fun slot hslot => ?_) (.cons (fun slot hslot => ?_) (.cons (hoperation _ _) .nil))
    · exact .minted (Option.some.inj hslot ▸ hfirst _ (Nat.le_succ _))
    · exact .minted ⟨fx.allocator.registers + 1 + 1, by omega, Nat.le_refl _,
        (Option.some.inj hslot).symm⟩

/-- **What an expression changes**: the targets of its assignments and updates, the parameter slots of
the callables that it calls, and the registers that are minted for it. -/
theorem writes_expr (e : Expr) : WritesOwn q e := by
  induction e with
  | binary m left op right _ ih =>
    intro fx gx out hrun
    have hall := registers_le_of_run (keeps_expr q _) hrun
    have hright : right.parts false ⊆ (Expr.binary m left op right).parts false := fun part hpart =>
      List.mem_cons_of_mem _ (List.mem_append_right _ hpart)
    have htargets : ∀ {target : String}, q.targetSlot left = .ok target →
        q.Assigns (.binary m left op right) target := fun htarget =>
      ⟨_, List.mem_cons_self, left, rfl, htarget⟩
    cases lowered_of_run hrun with
    | @store _ _ _ _ code target commands v _ gx hcode htarget hvalue =>
      have hlo := registers_le_of_run (keeps_expr q _) hvalue
      have hvalues := (ih hvalue).mono hright (Nat.le_refl _) (extends_stage q v gx).registers_le
      refine (hvalues.append (writes_stage v gx hlo)).append (.cons (fun slot hslot => ?_) .nil)
      exact .assigned (Option.some.inj hslot ▸ htargets htarget)
    | @square _ _ _ target commands _ gx htarget hvalue =>
      have hlo := registers_le_of_run (keeps_expr q _) hvalue
      have hvalues : OnlyWrites q _ fx.allocator gx.scratched.allocator commands :=
        (ih hvalue).mono hright (Nat.le_refl _) (Nat.le_succ gx.allocator.registers)
      refine hvalues.append (.cons (fun slot hslot => ?_) (.cons (fun slot hslot => ?_) .nil))
      · exact .minted ⟨gx.allocator.registers + 1, Nat.lt_succ_of_le hlo, Nat.le_refl _,
          (Option.some.inj hslot).symm⟩
      · exact .assigned (Option.some.inj hslot ▸ htargets htarget)
  | unary m op fixity operand _ =>
    intro fx gx out hrun
    cases lowered_of_run hrun with
    | update _ _ _ hop htarget =>
      exact writes_updated ⟨_, List.mem_cons_self, operand, rfl, htarget⟩ _ _ fx
  | call m callee args ihc iha =>
    intro fx gx out hrun
    have hcallee : callee.parts false ⊆ (Expr.call m callee args).parts false := fun part hpart =>
      List.mem_cons_of_mem _ (List.mem_append_left _ hpart)
    have hargs : ∀ a ∈ args, a.parts false ⊆ (Expr.call m callee args).parts false := fun a ha part hpart =>
      List.mem_cons_of_mem _ (List.mem_append_right _ (parts_subset_exprParts ha hpart))
    cases lowered_of_run hrun with
    | callKnown _ hnamed hknown hvalues =>
      obtain ⟨id, hid, hk⟩ := Option.bind_eq_some_iff.mp hknown
      exact writes_call iha hargs List.mem_cons_self ((Surroundings.target?_call hnamed).trans hid) hk
        hvalues _ _
    | callUnknown _ hnamed hunknown hvalues =>
      rw [warnedIf_allocator]
      exact (writes_dropped iha hargs hvalues).invoke _
    | callComputed _ hnamed hcomputed hvalues =>
      rw [warnedIf_allocator]
      have hhead := registers_le_of_run (keeps_expr q _) hcomputed
      have hrest := registers_le_of_run (keeps_dropped q fun b _ => keeps_expr q b) hvalues
      refine ((ihc hcomputed).mono hcallee (Nat.le_refl _) hrest).append (.invoke ?_ _)
      exact (writes_dropped iha hargs hvalues).mono (List.Subset.refl _) hhead (Nat.le_refl _)
  | construct m callee args _ iha =>
    intro fx gx out hrun
    have hargs : ∀ a ∈ args, a.parts false ⊆ (Expr.construct m callee args).parts false :=
      fun a ha part hpart =>
        List.mem_cons_of_mem _ (List.mem_append_right _ (parts_subset_exprParts ha hpart))
    cases lowered_of_run hrun with
    | constructKnown _ hname hknown hvalues =>
      obtain ⟨id, hid, hk⟩ := Option.bind_eq_some_iff.mp hknown
      exact writes_call iha hargs List.mem_cons_self ((Surroundings.target?_construct hname).trans hid)
        hk hvalues _ _
    | constructUnknown _ hname hunknown hvalues =>
      rw [warnedIf_allocator]
      exact (writes_dropped iha hargs hvalues).invoke _
  | wrapped m inner ih =>
    intro fx gx out hrun
    cases lowered_of_run hrun with
    | wrapped _ hinner =>
      exact (ih hinner).mono (List.subset_cons_self _ _) (Nat.le_refl _) (Nat.le_refl _)
  | _ =>
    -- all else emits nothing
    intro fx gx out hrun
    cases lowered_of_run hrun <;> exact .nil

end Lower

/-! ## Statements -/

theorem Lower.target?_assign (q : Surroundings) (slot : String) (v : Operand) :
    (assign q slot v).target? = some slot := by
  cases v <;> rfl

/-- A statement that drops a value changes what its expression may change. -/
theorem Evaluates.writes {q : Surroundings} {e : Expr} {fx gx : Effects} {commands : List Command}
    (h : Evaluates q .dropped e fx commands gx) : OnlyWrites q e fx.allocator gx.allocator commands := by
  cases h with
  | dropped hrun => exact Lower.writes_expr e hrun
  | @updated m op fixity operand _ target _ hop htarget =>
    exact Lower.writes_updated ⟨_, List.mem_cons_self, operand, rfl, htarget⟩ _ _ fx

/-- One that stores it changes the slot as well. -/
theorem Evaluates.writes_stored {q : Surroundings} {slot : String} {e : Expr} {fx gx : Effects}
    {commands : List Command} (h : Evaluates q (.stored slot) e fx commands gx) :
    ∃ before v, commands = before ++ [Lower.assign q slot v] ∧
      OnlyWrites q e fx.allocator gx.allocator before := by
  cases h with
  | stored _ hrun => exact ⟨_, _, rfl, Lower.writes_expr e hrun⟩

/-! ## Names of targets -/

/-- The names in a part of an expression are its own. -/
theorem Source.Expr.names_of_part {receivers : Bool} {part : Expr} (e : Expr)
    (h : part ∈ e.parts receivers) : part.names ⊆ e.names := by
  induction e with
  | binary m left op right ihleft ihright =>
    rcases List.mem_cons.mp h with rfl | h
    · exact List.Subset.refl _
    · rcases List.mem_append.mp h with h | h
      · exact List.Subset.trans (ihleft h) (List.subset_append_left _ _)
      · exact List.Subset.trans (ihright h) (List.subset_append_right _ _)
  | call m callee args ihcallee ihargs | construct m callee args ihcallee ihargs =>
    rcases List.mem_cons.mp h with rfl | h
    · exact List.Subset.refl _
    · rcases List.mem_append.mp h with h | h
      · exact List.Subset.trans (ihcallee h) (List.subset_append_left _ _)
      · rw [exprParts_eq] at h
        obtain ⟨a, ha, h⟩ := List.mem_flatMap.mp h
        refine List.Subset.trans (ihargs a ha h) ?_
        exact List.Subset.trans (names_subset_exprNames ha) (List.subset_append_right _ _)
  | member m object name ih =>
    rcases List.mem_cons.mp h with rfl | h
    · exact List.Subset.refl _
    · split at h
      · exact List.Subset.trans (ih h) (List.subset_cons_self _ _)
      · exact absurd h List.not_mem_nil
  | unary m op fixity operand ih | await m operand ih | wrapped m operand ih =>
    rcases List.mem_cons.mp h with rfl | h
    · exact List.Subset.refl _
    · exact ih h
  | _ => exact List.mem_singleton.mp h ▸ List.Subset.refl _

theorem Source.Expr.changed_names {e target : Expr} (h : e.changed? = some target) :
    target.names ⊆ e.names := by
  cases e with
  | binary m left op right => exact Option.some.inj h ▸ List.subset_append_left _ _
  | unary m op fixity operand => exact Option.some.inj h ▸ List.Subset.refl _
  | _ => cases h

end FrameScript
