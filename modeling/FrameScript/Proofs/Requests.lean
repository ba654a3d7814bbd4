/-
  A session between requests.

  A session compiles units and lowers expressions, any of which may fail, and may be told to start
  over.  Between requests it is at rest: no unit and so no frame is active, no callable and no class
  surrounds the next expression, and no scope is open inside the unit's.  Its counters only ever
  grow, unless it starts over.

  A compilation starts from such a session (`Session.begin`), and what it does inside keeps the
  lexical scope and the depth of the symbol table on every path (`Session.Within`), so it ends in such
  a session whether or not it fails.  A single expression changes only fresh names and warnings.
-/
import FrameScript.Proofs.Freshness
import FrameScript.Proofs.Hoisting
import Mathlib.Data.List.Induction

namespace FrameScript

open Source

/-- What a session is asked for. -/
inductive Request where
  | call (c : Call)
  /-- Start over: the counters, the symbols and all that was collected are dropped. -/
  | reset

namespace Session

/-- The session after a request. -/
def serve (s : Session) : Request → Session
  | .call c => (s.perform c).2
  | .reset => {}

/-- A new session after some requests. -/
def serveAll (requests : List Request) : Session := requests.foldl serve {}

@[simp] theorem serveAll_nil : serveAll [] = {} := rfl

@[simp] theorem serveAll_snoc (requests : List Request) (r : Request) :
    serveAll (requests ++ [r]) = (serveAll requests).serve r := by
  simp [serveAll, List.foldl_append]

/-! ## One request -/

/-- Nothing is being lowered. -/
structure AtRest (s : Session) : Prop where
  unit : s.unit = none
  scope : s.scope = {}
  depth : s.symbols.depth = 0

/-- A compilation ends at rest, wherever it stops. -/
theorem compile_atRest (s : Session) (u : CompilationUnit) : (s.compile u).2.AtRest := by
  have hlower : Within (s.begin u) ((lowerUnit u).run (s.begin u)).2 :=
    within_admits.lowerUnit u (fun _ => ⟨rfl, rfl, rfl⟩) _
  have hscope : (s.begin u).scope = {} := rfl
  have hdepth : (s.begin u).symbols.depth = 0 := rfl
  unfold compile
  rcases h : (lowerUnit u).run (s.begin u) with ⟨r, t⟩
  rw [h] at hlower
  -- the unit is taken away on both paths; the rest was never given up
  cases r with
  | ok v => exact ⟨rfl, hlower.scope.trans hscope, hlower.depth_eq.trans hdepth⟩
  | error e => exact ⟨rfl, hlower.scope.trans hscope, hlower.depth_eq.trans hdepth⟩

theorem AtRest.serve {s : Session} (h : s.AtRest) (r : Request) : (s.serve r).AtRest := by
  rcases r with (u | e | stem | _) | _
  · exact s.compile_atRest u
  · exact ⟨h.unit, h.scope, h.depth⟩
  · exact ⟨h.unit, h.scope, h.depth⟩
  · exact ⟨h.unit, h.scope, h.depth⟩
  · exact ⟨rfl, rfl, rfl⟩

/-- A call only goes on counting. -/
theorem counts_perform (s : Session) (c : Call) : Counts s (s.perform c).2 := by
  cases c with
  | compile u => exact s.counts_compile u
  | lowerExpression e =>
    obtain ⟨minted, hminted, _⟩ := s.lowerExpression_minted e
    exact ⟨minted, hminted⟩
  | freshId stem => exact ⟨_, .id (stem.getD defaultStem) (.nothing _)⟩
  | freshRegister => exact ⟨_, .register (.nothing _)⟩

/-! ## All requests -/

theorem serveAll_atRest (requests : List Request) : (serveAll requests).AtRest := by
  induction requests using List.reverseRecOn with
  | nil => exact ⟨rfl, rfl, rfl⟩
  | append_singleton requests r ih =>
    rw [serveAll_snoc]
    exact ih.serve r

/-- **A session is at rest between requests.**  After any requests to a new session, whichever of
them failed and wherever, no unit and no frame is active, no callable and no class surrounds what is
lowered next, no scope is open inside the unit's, and no call among them took a counter back. -/
theorem requests_leave_idle (requests : List Request) :
    (serveAll requests).unit = none ∧
    (serveAll requests).frame = none ∧
    (serveAll requests).scope.owner = none ∧
    (serveAll requests).scope.enclosing = none ∧
    (serveAll requests).symbols.depth = 0 ∧
    ∀ front c, front ++ [.call c] <+: requests →
      (serveAll front).allocator.ids ≤ (serveAll (front ++ [.call c])).allocator.ids ∧
      (serveAll front).allocator.registers ≤
        (serveAll (front ++ [.call c])).allocator.registers := by
  have hrest := serveAll_atRest requests
  refine ⟨hrest.unit, ?_, ?_, ?_, hrest.depth, fun front c _ => ?_⟩
  · rw [Surroundings.frame, hrest.unit]
    rfl
  · rw [hrest.scope]
  · rw [hrest.scope]
  · obtain ⟨minted, hminted⟩ := (serveAll front).counts_perform c
    rw [serveAll_snoc]
    exact hminted.counters_le

/-! Five requests, of which the second and the last fail, the last of them two scripts deep. -/

/-- The unit of a function that does not compile. -/
def failingUnit : CompilationUnit := .ofFile "main.ts" [failingFunction] 3

/-- A unit, `null`, starting over, `x++` -/
def sampleRequests : List Request :=
  [.call (.compile callUnit), .call (.lowerExpression (.null ⟨0, none⟩)), .reset,
    .call (.lowerExpression (.unary ⟨0, none⟩ .increment .after (.identifier ⟨0, none⟩ "x")))]

theorem requests_leave_idle_sample :
    (serveAll sampleRequests).allocator.registers = 2 ∧
    (serveAll sampleRequests).allocator.registers ≤
      (serveAll (sampleRequests ++ [.call (.compile failingUnit)])).allocator.registers ∧
    (serveAll (sampleRequests ++ [.call (.compile failingUnit)])).symbols.depth = 0 := by
  have hidle := requests_leave_idle (sampleRequests ++ [.call (.compile failingUnit)])
  have hlast := hidle.2.2.2.2.2 sampleRequests (.compile failingUnit) (List.prefix_refl _)
  exact ⟨by decide +kernel, hlast.2, hidle.2.2.2.2.1⟩

end Session

end FrameScript
