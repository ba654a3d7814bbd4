/-
  Expressions lower side by side.

  An expression is lowered twice, in surroundings and from effects that differ by a shift of the
  counters.  Each part of the lowering decides by what is the same on both sides: the kind of a node,
  whether a name has a meaning, the text of a literal, whether an argument emits commands.  So the two
  lowerings take the same way, fail with the same error, and emit commands that correspond one by one
  (`expr_twin`).
-/
import FrameScript.Proofs.Twins

namespace FrameScript

open Source

variable {δ : Shift}

/-! ## The effects of expressions -/

namespace ShiftedEffects

variable {fx gx : Effects} (h : ShiftedEffects δ fx gx)
include h

/-- The registers minted next are apart by the shift. -/
theorem scratch : ShiftedName δ fx.scratch gx.scratch := by
  refine .register ?_
  have hregisters := h.registers
  push_cast
  omega

theorem scratched : ShiftedEffects δ fx.scratched gx.scratched where
  ids := h.ids
  registers := by
    have hregisters := h.registers
    show ((gx.allocator.registers + 1 : Nat) : Int) = (fx.allocator.registers + 1 : Nat) + _
    push_cast
    omega
  preamble := List.rel_append h.preamble (.cons h.scratch .nil)
  warnings := h.warnings

theorem warned {w w' : Diagnostic} (hw : SamePlace w w') :
    ShiftedEffects δ (fx.warned w) (gx.warned w') where
  ids := h.ids
  registers := h.registers
  preamble := h.preamble
  warnings := List.rel_append h.warnings (.cons hw .nil)

theorem warnedIf (c : Prop) [Decidable c] {w w' : Diagnostic} (hw : SamePlace w w') :
    ShiftedEffects δ (fx.warnedIf c w) (gx.warnedIf c w') := by
  unfold Effects.warnedIf
  split
  · exact h.warned hw
  · exact h

end ShiftedEffects

namespace ShiftedEmitted

variable {α β : Type} {V : α → β → Prop} {a : α} {b : β}

/-- A value without commands. -/
theorem quiet (h : V a b) : ShiftedEmitted δ V ⟨[], a⟩ ⟨[], b⟩ := ⟨.nil, h⟩

end ShiftedEmitted

namespace Lower

variable {p q : Surroundings} (h : ShiftedSurroundings δ p q)
include h

/-! ## Expressions -/

theorem operate_shifted {a b c d : String} (hl : ShiftedName δ a b) (op : Op) (hr : ShiftedName δ c d) :
    ShiftedCommand δ (operate p a op c) (operate q b op d) := by
  rw [operate, operate, h.frame]
  exact .operation _ hl op hr

theorem assign_shifted {a b : String} (hslot : ShiftedName δ a b) {v w : Operand}
    (hv : ShiftedOperand δ v w) : ShiftedCommand δ (assign p a v) (assign q b w) := by
  cases hv with
  | immediate text =>
    rw [assign, assign, h.frame]
    exact .set _ hslot text
  | slot hr => exact operate_shifted h hslot .assign hr

theorem fail_twin {α β : Type} {V : α → β → Prop} (line : Nat) (cause : Cause) :
    Twin (ShiftedEffects δ) V (fail p line cause) (fail q line cause) := by
  intro fx gx _
  rw [run_fail, run_fail, h.error]
  exact .failed _ _ _

theorem warn_twin (line : Nat) (message message' : String) :
    Twin (ShiftedEffects δ) Eq (warn p line message) (warn q line message') :=
  .of_run (run_warn p line message) (run_warn q line message') (fun _ _ _ => rfl)
    fun _ _ hfx => hfx.warned (h.warning line message message')

theorem stage_shifted {v w : Operand} (hv : ShiftedOperand δ v w) {fx gx : Effects}
    (hfx : ShiftedEffects δ fx gx) :
    ShiftedEmitted δ (ShiftedName δ) (stage p v fx).1 (stage q w gx).1 ∧
      ShiftedEffects δ (stage p v fx).2 (stage q w gx).2 := by
  cases hv with
  | immediate text =>
    rw [stage_immediate, stage_immediate, h.frame]
    exact ⟨⟨.cons (.set _ hfx.scratch text) .nil, hfx.scratch⟩, hfx.scratched⟩
  | slot hr => exact ⟨.quiet hr, hfx⟩

theorem needValue_twin (e : Expr) {x y : Emitted (Option Operand)}
    (hxy : ShiftedEmitted δ (Option.Rel (ShiftedOperand δ)) x y) :
    Twin (ShiftedEffects δ) (ShiftedEmitted δ (ShiftedOperand δ)) (needValue p e x)
      (needValue q e y) := by
  unfold needValue
  obtain ⟨hx, hy⟩ | ⟨v, w, hx, hy, hvw⟩ := rel_cases hxy.value
  · rw [hx, hy]
    exact fail_twin h _ _
  · rw [hx, hy]
    exact .pure ⟨hxy.commands, hvw⟩

theorem store_twin {a b : String} (ht : ShiftedPath δ a b) (op : Op) {x y : Emitted Operand}
    (hxy : ShiftedEmitted δ (ShiftedOperand δ) x y) :
    Twin (ShiftedEffects δ) (ShiftedEmitted δ (Option.Rel (ShiftedOperand δ))) (store p a op x)
      (store q b op y) := by
  intro fx gx hfx
  obtain ⟨hstaged, hgx⟩ := stage_shifted h hxy.value hfx
  rw [run_store, run_store]
  refine .done ⟨?_, .some (.slot (.path ht))⟩ hgx
  refine List.rel_append (List.rel_append hxy.commands hstaged.commands) (.cons ?_ .nil)
  exact operate_shifted h (.path ht) op hstaged.value

omit h in
/-- A literal is the literal 2 on both sides or on neither. -/
theorem eq_immediate_iff {v w : Operand} (hvw : ShiftedOperand δ v w) (text : String) :
    v = .immediate text ↔ w = .immediate text := by
  cases hvw with
  | immediate text' => exact Iff.rfl
  | slot _ => simp

theorem square_twin (line : Nat) {a b : String} (ht : ShiftedPath δ a b) (exponent : Expr)
    {x y : Emitted Operand} (hxy : ShiftedEmitted δ (ShiftedOperand δ) x y) :
    Twin (ShiftedEffects δ) (ShiftedEmitted δ (Option.Rel (ShiftedOperand δ)))
      (square p line a exponent x) (square q line b exponent y) := by
  intro fx gx hfx
  have hiff := eq_immediate_iff hxy.value "2"
  rw [run_square, run_square]
  by_cases htwo : y.value = .immediate "2"
  · rw [if_pos htwo, if_pos (hiff.mpr htwo)]
    have hwarned := hfx.warned (h.warning line "`**=` is lowered as a square by repeated multiplication"
      "`**=` is lowered as a square by repeated multiplication")
    refine .done ⟨List.rel_append hxy.commands (.cons ?_ (.cons ?_ .nil)), .some (.slot (.path ht))⟩
      hwarned.scratched
    · exact operate_shifted h hfx.scratch .assign (.path ht)
    · exact operate_shifted h (.path ht) .mul hfx.scratch
  · rw [if_neg htwo, if_neg (mt hiff.mp htwo), h.error]
    exact .failed _ _ _

/-- An update of targets that belong together. -/
theorem updated_shifted {a b : String} (ht : ShiftedPath δ a b) (code : Op) (keepOld : Bool)
    {fx gx : Effects} (hfx : ShiftedEffects δ fx gx) :
    ShiftedEmitted δ (Option.Rel (ShiftedOperand δ)) (updated p a code keepOld fx).1
      (updated q b code keepOld gx).1 ∧
    ShiftedEffects δ (updated p a code keepOld fx).2 (updated q b code keepOld gx).2 := by
  unfold updated
  rw [h.frame]
  cases keepOld with
  | true =>
    refine ⟨⟨.cons ?_ (.cons (.set _ hfx.scratched.scratch "1") (.cons ?_ .nil)),
      .some (.slot hfx.scratch)⟩, hfx.scratched.scratched⟩
    · exact operate_shifted h hfx.scratch .assign (.path ht)
    · exact operate_shifted h (.path ht) code hfx.scratched.scratch
  | false =>
    refine ⟨⟨.cons (.set _ hfx.scratch "1") (.cons ?_ .nil), .some (.slot (.path ht))⟩, hfx.scratched⟩
    exact operate_shifted h (.path ht) code hfx.scratch

omit h in
/-- An update whose target has no slot fails as the target does. -/
theorem run_update_target {line : Nat} {op : UnaryOp} {operand : Expr} {code : Op} {e : LowerError}
    (hop : updateOp? op = some code) (htarget : p.targetSlot operand = .error e) (keepOld : Bool)
    (fx : Effects) : (update p line op operand keepOld).run fx = (.error e, fx) := by
  cases op with
  | other token => cases hop
  | _ => simp only [update, run_bind, run_pure, htarget, run_ofExcept_error]

theorem update_twin (line : Nat) (op : UnaryOp) (operand : Expr) (keepOld : Bool) :
    Twin (ShiftedEffects δ) (ShiftedEmitted δ (Option.Rel (ShiftedOperand δ)))
      (update p line op operand keepOld) (update q line op operand keepOld) := by
  cases hop : updateOp? op with
  | none =>
    cases op with
    | other token =>
      exact .bind (V := fun _ _ => False) (fail_twin h line _) fun _ _ habs => habs.elim
    | _ => cases hop
  | some code =>
    intro fx gx hfx
    have htarget := h.targetSlot operand
    generalize hp : p.targetSlot operand = x at htarget
    generalize hq : q.targetSlot operand = y at htarget
    cases htarget with
    | failed e =>
      rw [run_update_target hop hp, run_update_target hop hq]
      exact .failed e fx gx
    | done ht =>
      obtain ⟨hvalue, hgx⟩ := updated_shifted h ht code keepOld hfx
      rw [run_update_ok p hop hp, run_update_ok q hop hq]
      exact .done hvalue hgx

/-! ## Calls -/

theorem protect_shifted (endangered : Bool) {v w : Operand} (hv : ShiftedOperand δ v w)
    {fx gx : Effects} (hfx : ShiftedEffects δ fx gx) :
    ShiftedEmitted δ (ShiftedOperand δ) (protect p endangered v fx).1 (protect q endangered w gx).1 ∧
      ShiftedEffects δ (protect p endangered v fx).2 (protect q endangered w gx).2 := by
  cases hv with
  | immediate text => exact ⟨.quiet (.immediate text), hfx⟩
  | slot hr =>
    cases endangered with
    | true =>
      refine ⟨⟨.cons ?_ .nil, .slot hfx.scratch⟩, hfx.scratched⟩
      exact operate_shifted h hfx.scratch .assign hr
    | false => exact ⟨.quiet (.slot hr), hfx⟩

omit h in
/-- Whether a later argument emits commands does not depend on the names in them. -/
theorem endangered_eq {xs ys : List (Emitted Operand)}
    (hxy : List.Forall₂ (ShiftedEmitted δ (ShiftedOperand δ)) xs ys) :
    (xs.any fun later => !later.commands.isEmpty) = ys.any fun later => !later.commands.isEmpty := by
  induction hxy with
  | nil => rfl
  | @cons x y xs ys hxy _ ih =>
    have hempty : x.commands.isEmpty = y.commands.isEmpty := by
      have hcommands := hxy.commands
      generalize x.commands = commands at hcommands ⊢
      generalize y.commands = commands' at hcommands ⊢
      cases hcommands <;> rfl
    rw [List.any_cons, List.any_cons, hempty, ih]

theorem settle_shifted {xs ys : List (Emitted Operand)}
    (hxy : List.Forall₂ (ShiftedEmitted δ (ShiftedOperand δ)) xs ys) {fx gx : Effects}
    (hfx : ShiftedEffects δ fx gx) :
    ShiftedEmitted δ (List.Forall₂ (ShiftedOperand δ)) (settle p xs fx).1 (settle q ys gx).1 ∧
      ShiftedEffects δ (settle p xs fx).2 (settle q ys gx).2 := by
  induction hxy generalizing fx gx with
  | nil => exact ⟨.quiet .nil, hfx⟩
  | cons hxy hrest ih =>
    rw [settle_cons, settle_cons, endangered_eq hrest]
    obtain ⟨hkept, hmid⟩ := protect_shifted h _ hxy.value hfx
    obtain ⟨hothers, hend⟩ := ih hmid
    refine ⟨⟨?_, .cons hkept.value hothers.value⟩, hend⟩
    exact List.rel_append (List.rel_append hxy.commands hkept.commands) hothers.commands

theorem copyIn_shifted {xs ys : List ParamSlot} (hxy : List.Forall₂ (ShiftedParam δ) xs ys)
    {vs ws : List Operand} (hv : List.Forall₂ (ShiftedOperand δ) vs ws) :
    ShiftedCommands δ (copyIn p xs vs) (copyIn q ys ws) := by
  induction hxy generalizing vs ws with
  | nil => exact .nil
  | cons hxy _ ih =>
    cases hv with
    | nil => exact .nil
    | cons hv hvs => exact .cons (assign_shifted h (.path hxy.slot) hv) (ih hvs)

theorem invokeKnown_twin (line : Nat) {a b : String} (hpath : ShiftedName δ a b) {k l : Callable}
    (hk : ShiftedCallable δ k l) {xs ys : List (Emitted Operand)}
    (hxy : List.Forall₂ (ShiftedEmitted δ (ShiftedOperand δ)) xs ys) :
    Twin (ShiftedEffects δ) (ShiftedEmitted δ (Option.Rel (ShiftedOperand δ)))
      (invokeKnown p line a k xs) (invokeKnown q line b l ys) := by
  intro fx gx hfx
  obtain ⟨hsettled, hgx⟩ := settle_shifted h hxy hfx
  rw [run_invokeKnown, run_invokeKnown, hk.params.length_eq, hxy.length_eq]
  refine .done ⟨?_, rel_map hk.returnSlot fun _ _ hslot => .slot (.path hslot)⟩
    (hgx.warnedIf _ (h.warning line _ _))
  refine List.rel_append (List.rel_append hsettled.commands ?_) (.cons (.invoke hpath) .nil)
  exact copyIn_shifted h hk.params hsettled.value

theorem invokeUnknown_twin (line : Nat) {a b : String} (hpath : ShiftedName δ a b) (count : Nat)
    {xs ys : List Command} (hxy : ShiftedCommands δ xs ys) :
    Twin (ShiftedEffects δ) (ShiftedEmitted δ (Option.Rel (ShiftedOperand δ)))
      (invokeUnknown p line a count xs) (invokeUnknown q line b count ys) := by
  intro fx gx hfx
  rw [run_invokeUnknown, run_invokeUnknown]
  refine .done ⟨?_, .none⟩ (hfx.warnedIf _ (h.warning line _ _))
  exact List.rel_append hxy (.cons (.invoke hpath) .nil)

theorem invoke_twin (line : Nat) {c d : Callee} (hcd : ShiftedCallee δ c d) (count : Nat)
    {vs ws : Lowering (List (Emitted Operand))} {xs ys : Lowering (List Command)}
    (hv : Twin (ShiftedEffects δ) (List.Forall₂ (ShiftedEmitted δ (ShiftedOperand δ))) vs ws)
    (hx : Twin (ShiftedEffects δ) (ShiftedCommands δ) xs ys) :
    Twin (ShiftedEffects δ) (ShiftedEmitted δ (Option.Rel (ShiftedOperand δ)))
      (invoke p line c count vs xs) (invoke q line d count ws ys) := by
  unfold invoke
  rw [hcd.decl]
  have hknown : Option.Rel (ShiftedCallable δ) (d.decl.bind p.decls.callable?)
      (d.decl.bind q.decls.callable?) := by
    cases d.decl with
    | none => exact .none
    | some id => exact h.decls.callable? id
  obtain ⟨hp, hq⟩ | ⟨k, l, hp, hq, hk⟩ := rel_cases hknown
  · rw [hp, hq]
    exact .bind hx fun _ _ hxy => invokeUnknown_twin h line hcd.path count hxy
  · rw [hp, hq]
    exact .bind hv fun _ _ hxy => invokeKnown_twin h line hcd.path hk hxy

theorem namedCallee?_alike (callee : Expr) :
    Alike (Option.Rel (ShiftedCallee δ)) (namedCallee? p callee) (namedCallee? q callee) := by
  unfold namedCallee?
  split
  · rw [h.parentClass]
    exact (Alike.of_eq (fun _ => rfl) rfl).map (V := Eq) fun parent _ heq =>
      heq ▸ .some (h.constructorCallee parent)
  · exact (h.methodCallee _ _).map fun _ _ hcd => .some hcd
  · exact .done (.some (h.functionCallee _))
  · exact .done .none

theorem computedCallee_twin (callee : Expr) {x y : Emitted (Option Operand)}
    (hxy : ShiftedEmitted δ (Option.Rel (ShiftedOperand δ)) x y) :
    Twin (ShiftedEffects δ) (ShiftedEmitted δ (ShiftedCallee δ)) (computedCallee p callee x)
      (computedCallee q callee y) := by
  unfold computedCallee
  refine .bind (needValue_twin h _ hxy) fun v w hvw => ?_
  obtain ⟨commands, value⟩ := v
  obtain ⟨commands', value'⟩ := w
  cases hvw.value with
  | immediate text => exact fail_twin h _ _
  | slot hr => exact .pure ⟨hvw.commands, hr, rfl⟩

/-- Two lowerings of one expression. -/
abbrev ExprTwin (δ : Shift) (p q : Surroundings) (e : Expr) : Prop :=
  Twin (ShiftedEffects δ) (ShiftedEmitted δ (Option.Rel (ShiftedOperand δ))) (expr p e) (expr q e)

theorem values_twin {args : List Expr} (hargs : ∀ a ∈ args, ExprTwin δ p q a) :
    Twin (ShiftedEffects δ) (List.Forall₂ (ShiftedEmitted δ (ShiftedOperand δ))) (values p args)
      (values q args) := by
  induction args with
  | nil => exact .pure .nil
  | cons a rest ih =>
    have hrest := ih fun b hb => hargs b (List.mem_cons_of_mem a hb)
    rw [values, values]
    refine .bind (hargs a List.mem_cons_self) fun _ _ hxy => ?_
    refine .bind (needValue_twin h a hxy) fun _ _ hvw => ?_
    exact .bind hrest fun _ _ hothers => .pure (.cons hvw hothers)

omit h in
theorem dropped_twin {args : List Expr} (hargs : ∀ a ∈ args, ExprTwin δ p q a) :
    Twin (ShiftedEffects δ) (ShiftedCommands δ) (dropped p args) (dropped q args) := by
  induction args with
  | nil => exact .pure .nil
  | cons a rest ih =>
    have hrest := ih fun b hb => hargs b (List.mem_cons_of_mem a hb)
    rw [dropped, dropped]
    refine .bind (hargs a List.mem_cons_self) fun _ _ hxy => ?_
    exact .bind hrest fun _ _ hothers => .pure (List.rel_append hxy.commands hothers)

/-- **Expressions lower side by side.**  In surroundings that differ by a shift, an expression fails
with one error or lowers to commands that correspond one by one. -/
theorem expr_twin (e : Expr) : ExprTwin δ p q e := by
  induction e with
  | number m x => rw [ExprTwin, expr, expr]; exact .pure (.quiet (.some (.immediate _)))
  | boolean m b => rw [ExprTwin, expr, expr]; exact .pure (.quiet (.some (.immediate _)))
  | null m => rw [ExprTwin, expr, expr]; exact fail_twin h _ _
  | identifier m name =>
    rw [ExprTwin, expr, expr]
    exact .pure (.quiet (.some (.slot (.path (h.identifierSlot name)))))
  | this m =>
    rw [ExprTwin, expr, expr, h.enclosingClass]
    exact .bind (.ofExcept (.of_eq (fun _ => Eq.refl _) rfl)) fun _ _ _ => .pure (.quiet .none)
  | super m =>
    rw [ExprTwin, expr, expr, h.parentClass]
    exact .bind (.ofExcept (.of_eq (fun _ => Eq.refl _) rfl)) fun _ _ _ => .pure (.quiet .none)
  | binary m left op right _ ih =>
    rw [ExprTwin, expr.eq_def, expr.eq_def]
    dsimp only
    split
    · refine .bind (.ofExcept (h.targetSlot left)) fun _ _ ht => .bind ih fun _ _ hxy => ?_
      exact .bind (needValue_twin h right hxy) fun _ _ hvw => square_twin h _ ht _ hvw
    · refine .bind (.ofExcept (h.targetSlot left)) fun _ _ ht => .bind ih fun _ _ hxy => ?_
      exact .bind (needValue_twin h right hxy) fun _ _ hvw => store_twin h ht _ hvw
    · exact fail_twin h _ _
  | unary m op fixity operand _ => rw [ExprTwin, expr, expr]; exact update_twin h _ _ _ _
  | call m callee args ihc iha =>
    have hinvoke := fun c d (hcd : ShiftedCallee δ c d) =>
      invoke_twin h m.line hcd args.length (values_twin h iha) (dropped_twin iha)
    have hrest : ∀ x y, ShiftedEmitted δ (ShiftedCallee δ) x y →
        Twin (ShiftedEffects δ) (ShiftedEmitted δ (Option.Rel (ShiftedOperand δ)))
          (do
            let call ← invoke p m.line x.value args.length (values p args) (dropped p args)
            return ⟨x.commands ++ call.commands, call.value⟩)
          (do
            let call ← invoke q m.line y.value args.length (values q args) (dropped q args)
            return ⟨y.commands ++ call.commands, call.value⟩) := fun x y hxy =>
      .bind (hinvoke _ _ hxy.value) fun _ _ hcall =>
        .pure ⟨List.rel_append hxy.commands hcall.commands, hcall.value⟩
    rw [ExprTwin, expr, expr]
    refine .bind (.ofExcept (namedCallee?_alike h callee)) fun named named' hnamed => ?_
    cases hnamed with
    | some hcd => exact .bind (.pure (.quiet hcd)) hrest
    | none => exact .bind ihc fun _ _ hxy => .bind (computedCallee_twin h callee hxy) hrest
  | construct m callee args _ iha =>
    rw [ExprTwin, expr, expr]
    split
    · refine .bind (invoke_twin h m.line (h.constructorCallee _) args.length (values_twin h iha)
        (dropped_twin iha)) fun _ _ hcall => ?_
      exact .pure ⟨hcall.commands, .none⟩
    · exact fail_twin h _ _
  | member m object name _ =>
    rw [ExprTwin, expr, expr]
    exact .bind (.ofExcept (h.memberSlot object name)) fun _ _ ht =>
      .pure (.quiet (.some (.slot (.path ht))))
  | await m operand _ => rw [ExprTwin, expr, expr]; exact fail_twin h _ _
  | wrapped m inner ih => rw [ExprTwin, expr, expr]; exact ih
  | unsupported m kind => rw [ExprTwin, expr, expr]; exact fail_twin h _ _

theorem value_twin (e : Expr) : Twin (ShiftedEffects δ) (ShiftedEmitted δ (ShiftedOperand δ))
    (value p e) (value q e) :=
  .bind (expr_twin h e) fun _ _ hxy => needValue_twin h e hxy

end Lower

end FrameScript
