/-
  Single expressions, lowered on the side.

  An expression can be lowered outside of any unit, against what the session knows.  It works on the
  session itself, and it may fail with some of its registers already minted.  Still nothing but the
  register counter and the warnings is different afterwards: the names it stages go to a preamble of
  its own, and the preamble that was put aside for it comes back.
-/
import FrameScript.Proofs.Freshness

namespace FrameScript

open Source

namespace Session

/-- What lowering on the side keeps of a session. -/
structure Aside (s t : Session) : Prop where
  symbols : t.symbols = s.symbols
  decls : t.decls = s.decls
  scope : t.scope = s.scope
  unit : t.unit = s.unit
  frame : t.frame = s.frame
  scripts : t.scripts = s.scripts
  preamble : t.allocator.preamble = s.allocator.preamble
  ids : t.allocator.ids = s.allocator.ids
  registers : s.allocator.registers ≤ t.allocator.registers
  warnings : s.warnings <+: t.warnings

namespace Aside

theorem refl (s : Session) : Aside s s :=
  ⟨rfl, rfl, rfl, rfl, rfl, rfl, rfl, rfl, Nat.le_refl _, List.prefix_rfl⟩

theorem trans {s t u : Session} (h : Aside s t) (h' : Aside t u) : Aside s u where
  symbols := h'.symbols.trans h.symbols
  decls := h'.decls.trans h.decls
  scope := h'.scope.trans h.scope
  unit := h'.unit.trans h.unit
  frame := h'.frame.trans h.frame
  scripts := h'.scripts.trans h.scripts
  preamble := h'.preamble.trans h.preamble
  ids := h'.ids.trans h.ids
  registers := Nat.le_trans h.registers h'.registers
  warnings := h.warnings.trans h'.warnings

end Aside

/-- After an expression the session is some registers further and has some more warnings. -/
theorem lowerExpression_after (s : Session) (e : Expr) : ∃ k added,
    (s.lowerExpression e).2 = { s with
      allocator := { s.allocator with registers := s.allocator.registers + k }
      warnings := s.warnings ++ added } := by
  rw [lowerExpression_eq]
  obtain ⟨⟨k, hstaged⟩, added, hadded⟩ := Lower.keeps_expr s.toSurroundings e s.bareEffects
  refine ⟨k, added, ?_⟩
  -- the registers were staged in the preamble that is dropped
  dsimp only
  rw [hstaged, ← hadded]
  rfl

theorem Aside.lowered (s : Session) (e : Expr) : Aside s (s.lowerExpression e).2 := by
  obtain ⟨k, added, hafter⟩ := s.lowerExpression_after e
  rw [hafter]
  exact ⟨rfl, rfl, rfl, rfl, rfl, rfl, rfl, rfl, Nat.le_add_right _ _, List.prefix_append _ _⟩

/-- **Lowering expressions leaves a session as it was**, whether or not they lower, but for the
registers that are minted and the warnings that are added at the end: one expression, or any number of
them one after the other. -/
theorem lowerExpression_aside (s : Session) :
    (∀ e, Aside s (s.lowerExpression e).2) ∧
      ∀ es : List Expr, Aside s (s.performAll (es.map .lowerExpression)).2 := by
  refine ⟨Aside.lowered s, fun es => ?_⟩
  induction es generalizing s with
  | nil => exact Aside.refl s
  | cons e rest ih => exact (Aside.lowered s e).trans (ih (s.lowerExpression e).2)

end Session

end FrameScript
