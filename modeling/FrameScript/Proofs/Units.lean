/-
  A unit from beginning to end.

  Compiling declares the statements of a unit, lowers them and stores the primary script.  The file
  fits the invariants of these parts together: a loaded unit starts with an empty table, its
  statements fit the table they are lowered with, and they are lowered in coherent surroundings.
-/
import FrameScript.Proofs.Coherence
import FrameScript.Proofs.Growth
import FrameScript.Proofs.Logs

namespace FrameScript

open Source

namespace Session

theorem begin_free (s : Session) (u : CompilationUnit) (i : DeclId) : (s.begin u).decls[i]? = none :=
  Std.TreeMap.getElem?_emptyc

theorem begin_holds (N : Naming) (s : Session) {u : CompilationUnit} (hcontext : N.context = u.context)
    (T : DeclTable) : N.Holds T (s.begin u).toSurroundings where
  frame_eq := by rw [hcontext]; rfl
  symbols := SymbolTable.all_empty _
  records := fun i d hd => by
    rw [s.begin_free u i] at hd
    cases hd
  parents := fun c hc => nomatch hc

/-- A unit compiles if the answer is no error. -/
theorem exists_compilation {s : Session} {u : CompilationUnit}
    (h : (s.compile u).1.toOption.isSome = true) : ∃ c, (s.compile u).1 = .ok c := by
  cases hc : (s.compile u).1 with
  | ok c => exact ⟨c, rfl⟩
  | error e =>
    rw [hc] at h
    cases h

section Declared

variable {s : Session} {u : CompilationUnit} (hids : (declIds u.statements).Nodup)
  (h : UnitDeclared (s.begin u) u.statements (s.declared u))

include hids h

/-- The statements of a unit fit the table that declaring them made. -/
theorem declared_fit : (Task.stmts u.statements).Fit (s.declared u).decls where
  nodup := hids
  ready := h.ready hids fun i _ => s.begin_free u i

/-- A unit is lowered in coherent surroundings. -/
theorem declared_coherent (N : Naming) (hcontext : N.context = u.context)
    (hnames : ∀ n ∈ stmtNames u.statements, N.plain n)
    (himports : ∀ line i, .imports line i ∈ u.statements → N.foreign (moduleContext i.module)) :
    N.Coherent (s.declared u).toSurroundings :=
  .statements h hids (fun i _ => s.begin_free u i) (.refl _) hnames himports
    (begin_holds N s hcontext _)

end Declared

theorem withPrimary_toSurroundings (t : Session) (context : String) (commands : List Command) :
    (t.withPrimary context commands).toSurroundings = t.toSurroundings := by
  obtain ⟨ws, hws⟩ := stored_eq_noting { t with allocator := { t.allocator with preamble := [] } }
    context (declarations t.allocator.preamble ++ t.frame.bracket commands) 1
  rw [withPrimary, hws]
  rfl

theorem withPrimary_decls (t : Session) (context : String) (commands : List Command) :
    (t.withPrimary context commands).decls = t.decls :=
  congrArg Surroundings.decls (t.withPrimary_toSurroundings context commands)

/-- The primary script is stored last, so nothing replaces it. -/
theorem withPrimary_script (t : Session) (context : String) (commands : List Command) :
    (t.withPrimary context commands).scripts[context]? =
      some (declarations t.allocator.preamble ++ t.frame.bracket commands) :=
  getElem?_stored _ _ _ _

theorem withPrimary_retains (t : Session) (context : String) (commands : List Command) :
    Retains t (t.withPrimary context commands) := by
  have hempty : Retains t { t with allocator := { t.allocator with preamble := [] } } :=
    .of_scripts (List.prefix_refl _) rfl
  exact hempty.trans (.stored _ _ _ _)

end Session

end FrameScript
