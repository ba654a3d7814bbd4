/-
  What a compilation remembers of the session before it.

  A session may be used in any way: units are compiled, with or without success, expressions lowered,
  names handed out, the preamble written to or exchanged, the allocator or the whole session started
  over.  All of this is an `Operation`, and a history is a list of them.

  A compilation reads two numbers of its history and nothing else, the counters of fresh names.
  Symbols and declarations of the last unit, its warnings and scripts, a preamble that was left behind
  and what a failed unit left half done are all dropped by `Session.begin`.  Main statement: after two
  histories that leave the counters equal, a unit compiles to the same result, and from then on the
  two sessions cannot be told apart by any operations (`compile_forgets_history`).
-/
import FrameScript.Proofs.Requests

namespace FrameScript

open Source

/-- What can be done with a session between two units. -/
inductive Operation where
  | request (r : Request)
  /-- Let the next script declare a name. -/
  | declare (name : String)
  | swapPreamble (names : List String)
  | takePreamble
  /-- Only the allocator starts over: symbols and declarations stay readable. -/
  | resetAllocator

/-- What an operation gives back. -/
inductive Reply where
  | answered (answer : Answer)
  /-- The preamble that was there before. -/
  | preamble (names : List String)
  | done

namespace Session

/-- One operation. -/
def operate (s : Session) : Operation → Reply × Session
  | .request (.call c) => (.answered (s.perform c).1, (s.perform c).2)
  | .request .reset => (.done, s.serve .reset)
  | .declare name => (.done, { s with allocator := s.allocator.declare name })
  | .swapPreamble names =>
    let (old, allocator) := s.allocator.swapPreamble names
    (.preamble old, { s with allocator })
  | .takePreamble =>
    let (old, allocator) := s.allocator.takePreamble
    (.preamble old, { s with allocator })
  | .resetAllocator => (.done, { s with allocator := {} })

/-- The replies to some operations, in order. -/
def replies (s : Session) : List Operation → List Reply
  | [] => []
  | op :: rest => (s.operate op).1 :: (s.operate op).2.replies rest

/-- The session that a history leaves behind, from a new one on. -/
def after (history : List Operation) : Session :=
  history.foldl (fun s op => (s.operate op).2) {}

/-! ## What a compilation starts from -/

/-- A unit starts from the counters alone. -/
theorem begin_eq_of_counters {s t : Session} (hids : s.allocator.ids = t.allocator.ids)
    (hregisters : s.allocator.registers = t.allocator.registers) (u : CompilationUnit) :
    s.begin u = t.begin u := by
  simp only [begin, hids, hregisters]

/-- A compilation, with the session it leaves behind, is a function of the counters. -/
theorem compile_eq_of_counters {s t : Session} (hids : s.allocator.ids = t.allocator.ids)
    (hregisters : s.allocator.registers = t.allocator.registers) (u : CompilationUnit) :
    s.compile u = t.compile u := by
  unfold compile
  rw [begin_eq_of_counters hids hregisters u]

theorem operate_compile (s : Session) (u : CompilationUnit) :
    s.operate (.request (.call (.compile u))) =
      (.answered (.compiled (s.compile u).1), (s.compile u).2) := rfl

/-! ## Two histories -/

/-- **History does not leak into a compilation.**  Take any two histories, with failed units, lowered
expressions, exchanged preambles and fresh starts in either of them.  If they leave equal counters,
then a unit compiled after them gives the same scripts and warnings or the same error, and whatever
is done after that is replied to in the same way. -/
theorem compile_forgets_history (before before' : List Operation) (u : CompilationUnit)
    (hids : (after before).allocator.ids = (after before').allocator.ids)
    (hregisters : (after before).allocator.registers = (after before').allocator.registers) :
    ((after before).compile u).1 = ((after before').compile u).1 ∧
    ∀ later, (after before).replies (.request (.call (.compile u)) :: later) =
      (after before').replies (.request (.call (.compile u)) :: later) := by
  have hcompile := compile_eq_of_counters hids hregisters u
  refine ⟨congrArg Prod.fst hcompile, fun later => ?_⟩
  show _ :: _ = _ :: _
  rw [operate_compile, operate_compile, hcompile]

/-! Two histories that share nothing but the counters: one compiles a unit and leaves a preamble and
the names of the unit behind, the other fails inside a function, starts the allocator over and hands
out names. -/

/-- Compile a unit, fail on `null`, then put two names into the preamble. -/
def compilingHistory : List Operation :=
  [.request (.call (.compile callUnit)), .request (.call (.lowerExpression (.null ⟨0, none⟩))),
    .swapPreamble ["p"], .declare "q"]

/-- Fail on a unit, start the allocator over, then ask for three ids. -/
def failingHistory : List Operation :=
  [.request (.call (.compile failingUnit)), .takePreamble, .resetAllocator,
    .request (.call (.freshId none)), .request (.call (.freshId (some "x"))),
    .request (.call (.freshId none))]

theorem compile_forgets_history_sample :
    (after compilingHistory).symbols.size = 2 ∧ (after failingHistory).symbols.size = 1 ∧
    (after compilingHistory).allocator.ids = 3 ∧ (after failingHistory).allocator.ids = 3 ∧
    ((after compilingHistory).compile callUnit).1 = ((after failingHistory).compile callUnit).1 := by
  have hids : (after compilingHistory).allocator.ids = (after failingHistory).allocator.ids := by
    decide +kernel
  have hregisters : (after compilingHistory).allocator.registers =
      (after failingHistory).allocator.registers := by
    decide +kernel
  exact ⟨by decide +kernel, by decide +kernel, by decide +kernel, by decide +kernel,
    (compile_forgets_history compilingHistory failingHistory callUnit hids hregisters).1⟩

end Session

end FrameScript
