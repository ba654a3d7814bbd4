/-
  What holds wherever an expression is lowered.

  The surroundings of an expression, its symbols and its records, change in few ways while a unit is
  lowered: a variable gets a slot, a function or a class is declared, a script is entered and left
  again.  Warnings, finished scripts and minted registers leave them alone.  A property of surroundings
  that those few steps keep (`Surroundings.Invariant`) therefore holds for all expressions of a run
  (`Runs.keeps`), and for all of a unit if it holds at the beginning and imports keep it as well
  (`Session.lowers_keeps`).
-/
import FrameScript.Proofs.Logs

namespace FrameScript

open Source

/-- The steps of lowering keep the property. -/
structure Surroundings.Invariant (P : Surroundings → Prop) : Prop where
  withVariable : ∀ (s : Session) (name : String), P s.toSurroundings →
    P (s.withVariable name).toSurroundings
  function : ∀ {s t : Session} {f : FunctionDecl}, FunctionDeclared s f t → P s.toSurroundings →
    P t.toSurroundings
  classDef : ∀ {s t : Session} {c : ClassDecl}, ClassDeclared s c t → P s.toSurroundings →
    P t.toSurroundings
  opened : ∀ (s : Session) (scope : LexicalScope) (slots : List String), P s.toSurroundings →
    P (s.opened scope slots).toSurroundings
  closed : ∀ {s t : Session}, P s.toSurroundings → P t.toSurroundings → P (s.closed t).toSurroundings

namespace Surroundings.Invariant

variable {P : Surroundings → Prop} (hP : Invariant P)

theorem stored {s : Session} (hs : P s.toSurroundings) (name : String) (body : List Command)
    (line : Nat) : P (s.stored name body line).toSurroundings := by
  obtain ⟨ws, hws⟩ := s.stored_eq_noting name body line
  rw [hws]
  exact hs

include hP

/-- Declaring a unit keeps the property, if its imports do. -/
theorem declared {s t : Session} {sts : List Stmt} (h : UnitDeclared s sts t)
    (himports : ∀ (s : Session) (line : Nat) (i : Import), .imports line i ∈ sts →
      P s.toSurroundings → P (s.registeredAll (importSymbols i)).toSurroundings)
    (hs : P s.toSurroundings) : P t.toSurroundings := by
  induction h with
  | nil s => exact hs
  | @cons s t u st rest hfirst _ ih =>
    have ht : P t.toSurroundings := by
      cases hfirst with
      | imports line i => exact himports s line i List.mem_cons_self hs
      | function hf => exact hP.function hf hs
      | classDef hc => exact hP.classDef hc hs
      | nothing st => exact hs
    exact ih (fun s line i hi => himports s line i (List.mem_cons_of_mem st hi)) ht

end Surroundings.Invariant

/-- **An invariant holds at the end of a run and wherever an expression is lowered in it.** -/
theorem Runs.keeps {P : Surroundings → Prop} (hP : Surroundings.Invariant P) {task : Task}
    {s t : Session} {log : List Event} {out : Emitted Flow} (h : Runs task s log out t)
    (hs : P s.toSurroundings) :
    P t.toSurroundings ∧ ∀ q e, .lowers q e ∈ log → P q := by
  have hnothing : ∀ q e, Event.lowers q e ∈ [] → P q := fun q e hin => absurd hin List.not_mem_nil
  induction h with
  | idle h =>
    obtain ⟨ws, rfl⟩ := h.eq_noting
    exact ⟨hs, hnothing⟩
  | seq _ _ _ ihfirst ihrest =>
    obtain ⟨ht, hlog⟩ := ihfirst hs
    obtain ⟨hu, hlog'⟩ := ihrest ht
    exact ⟨hu, fun q e hin => (List.mem_append.mp hin).elim (hlog q e) (hlog' q e)⟩
  | @returned st s t log commands rest _ ih =>
    obtain ⟨ws, hws⟩ := t.skipping_eq_noting rest
    rw [hws]
    exact ih hs
  | inside _ _ ih => exact ih hs
  | @declares d name hname hinit s => exact ⟨hP.withVariable s name hs, hnothing⟩
  | @evaluates task s t use e flow commands fx htask _ =>
    have ht : P t.toSurroundings := by
      rcases htask.prepared with ⟨ws, rfl⟩ | ⟨_, name, _, _, rfl⟩
      · exact hs
      · exact hP.withVariable s name hs
    refine ⟨ht, fun q e' hin => ?_⟩
    cases List.mem_singleton.mp hin
    exact ht
  | @function f body s t u log out _ hdeclared _ ih =>
    obtain ⟨ws, hws⟩ := t.warnedIf_eq_noting f.isAsync f.line "async function is lowered synchronously"
    have ht : P t.toSurroundings := hP.function hdeclared hs
    rw [hws] at ih
    exact ih ht
  | @method info scope f isStatic body s t log out _ _ ih =>
    obtain ⟨ws, hws⟩ := s.warnedIf_eq_noting f.isAsync f.line "async method is lowered synchronously"
    rw [hws] at ih
    exact ih hs
  | classDef _ hdeclared _ _ ih => exact ih (hP.classDef hdeclared hs)
  | @script task s t script log out _ _ ih =>
    obtain ⟨ht, hlog⟩ := ih (hP.opened s script.scope script.slots hs)
    refine ⟨Surroundings.Invariant.stored (hP.closed hs ht) _ _ _, fun q e hin => ?_⟩
    rcases List.mem_append.mp hin with hin | hin
    · exact absurd hin (script.scope.lowers_notMem_entered q e)
    · exact hlog q e hin
  | constructor _ _ ih => exact ih hs
  | defaulted scope line _ s => exact ⟨Surroundings.Invariant.stored hs _ _ _, hnothing⟩

/-- **An invariant holds wherever an expression of a unit is lowered.** -/
theorem Session.lowers_keeps {P : Surroundings → Prop} (hP : Surroundings.Invariant P) {s : Session}
    {u : CompilationUnit} {c : Compilation} (hcompile : (s.compile u).1 = .ok c)
    (hbegin : P (s.begin u).toSurroundings)
    (himports : ∀ (s : Session) (line : Nat) (i : Import), .imports line i ∈ u.statements →
      P s.toSurroundings → P (s.registeredAll (importSymbols i)).toSurroundings)
    {q : Surroundings} {e : Expr} (hq : .lowers q e ∈ s.log u) : P q := by
  obtain ⟨out, t, hdeclared, hruns, -, -⟩ := compile_ok hcompile
  exact (hruns.keeps hP (hP.declared hdeclared himports hbegin)).2 q e hq

end FrameScript
