/-
  The counters never go back.

  Whatever a session does, and whether or not it fails on the way, its allocator goes from its old
  state to its new one by minting names (`Counts`).  A failed compilation leaves numbers behind that
  are never used again; that is all it leaves behind.

  The bound holds for each step and is transitive, so it holds for everything that is made of steps.
  Opening and closing a script only moves the preamble, so one relation does for both sides of it.
-/
import FrameScript.Proofs.Stability

namespace FrameScript

open Source
open Allocator (Mints)

/-- The allocator went on by minting some names. -/
def Counts (s t : Session) : Prop := ∃ names, Mints s.allocator names t.allocator

namespace Counts

variable {s t u : Session}

theorem refl (s : Session) : Counts s s := ⟨[], .nothing _⟩

theorem trans (h : Counts s t) (h' : Counts t u) : Counts s u := by
  obtain ⟨names, hnames⟩ := h
  obtain ⟨more, hmore⟩ := h'
  exact ⟨names ++ more, hnames.trans hmore⟩

/-- A change of the preamble is no change of the counters. -/
theorem of_preamble (h : t.allocator = { s.allocator with preamble := t.allocator.preamble }) :
    Counts s t := by
  refine ⟨[], .preamble t.allocator.preamble ?_⟩
  rw [← h]
  exact .nothing _

theorem counted (s : Session) (n : Nat) : Counts s (s.counted n) := by
  induction n with
  | zero => exact refl s
  | succ n ih => exact ih.trans ⟨_, .id defaultStem (.nothing _)⟩

/-- Lowering an expression mints registers. -/
theorem effects (s : Session) (fx : Effects) (h : s.toEffects.Extends fx) :
    Counts s (s.withEffects fx) := by
  obtain ⟨k, hk⟩ := h.allocator
  refine ⟨s.allocator.nextRegisters k, ?_⟩
  show Mints s.allocator _ fx.allocator
  rw [hk]
  exact s.allocator.mints_staged k

theorem stored (s : Session) (name : String) (body : List Command) (line : Nat) :
    Counts s (s.stored name body line) := by
  obtain ⟨ws, hws⟩ := s.stored_eq_noting name body line
  rw [hws]
  exact refl s

/-- Everything that is made of steps goes on counting. -/
theorem admits : Lower.Admits Counts Counts where
  refl := refl
  trans := trans
  counted := counted
  registered s _ := refl s
  recorded s _ _ := refl s
  declaring _ _ := .of_preamble rfl
  effects := effects
  hoisted h := h
  around_refl := refl
  around_trans := trans
  warned s _ _ := refl s
  stored := stored
  script s t scope h := by
    have hopen : Counts s (s.opened scope []) := .of_preamble rfl
    have hclose : Counts t (s.closed t) := .of_preamble rfl
    exact (hopen.trans h).trans hclose

end Counts

namespace Session

/-- **Compiling only goes on counting**, whether or not the unit compiles. -/
theorem counts_compile (s : Session) (u : CompilationUnit) : Counts s (s.compile u).2 := by
  have hbegin : Counts s (s.begin u) := .of_preamble rfl
  have hlower := Counts.admits.lowerUnit u (fun _ => .of_preamble rfl) (s.begin u)
  have hrun := hbegin.trans hlower
  unfold compile
  rcases h : (lowerUnit u).run (s.begin u) with ⟨r, t⟩
  rw [h] at hrun
  cases r with
  | ok v => exact hrun
  | error e => exact hrun

end Session

end FrameScript
