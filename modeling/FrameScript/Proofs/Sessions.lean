/-
  The steps that change a session.

  Everything that declaring and lowering statements do to a session is made of a few steps: a counter
  goes on, a name is declared, a symbol registered, a declaration recorded, a script stored, a
  warning given, and a script body is opened and closed.  Each step is a function on sessions here,
  and each action of the session monad is one of them (`run_freshId` and its companions).

  Warnings are the least of it: a session with more warnings (`noting`) is the same in all else, and
  every step that only warns is of this form.
-/
import FrameScript.Proofs.Effects

namespace FrameScript

open Source

/-- The warning about a script name that is taken. -/
def producedTwice (name : String) : String :=
  s!"script `{name}` is produced twice; the last one is kept"

namespace Session

variable (s : Session)

/-! ## The steps -/

/-- The id that is minted next. -/
def nextId (stem : Option String) : String :=
  mintedId (stem.getD defaultStem) (s.allocator.ids + 1)

/-- The session after some ids were minted. -/
def counted (n : Nat) : Session :=
  { s with allocator := { s.allocator with ids := s.allocator.ids + n } }

/-- The session whose current script declares some more names. -/
def declaring (names : List String) : Session :=
  { s with allocator := { s.allocator with preamble := s.allocator.preamble ++ names } }

def registered (symbol : Symbol) : Session := { s with symbols := s.symbols.register symbol }

def recorded (id : DeclId) (d : Declaration) : Session := { s with decls := s.decls.insert id d }

def warned (line : Nat) (message : String) : Session :=
  { s with warnings := s.warnings ++ [s.warning line message] }

/-- The session with the effects of an expression. -/
def withEffects (fx : Effects) : Session := { s with toEffects := fx }

/-- The session after a script was stored; if the name was taken there is a warning. -/
def stored (name : String) (body : List Command) (line : Nat) : Session :=
  let t := { s with scripts := s.scripts.insert name body }
  if s.scripts[name]?.isSome then t.warned line (producedTwice name) else t

/-- The session inside a script of its own, which declares some names to begin with. -/
def opened (scope : LexicalScope) (names : List String) : Session :=
  { s with
    allocator := { s.allocator with preamble := names }
    scope
    symbols := s.symbols.enter }

/-- The enclosing session after the script that ended in `t`. -/
def closed (t : Session) : Session :=
  { t with
    allocator := { t.allocator with preamble := s.allocator.preamble }
    scope := s.scope
    symbols := t.symbols.exit }

/-- The session with some more warnings. -/
def noting (ws : List Diagnostic) : Session :=
  { s with toEffects := { s.toEffects with warnings := s.warnings ++ ws } }

theorem noting_nil : s.noting [] = s := by
  rw [noting, List.append_nil]

theorem warned_eq_noting (line : Nat) (message : String) :
    s.warned line message = s.noting [s.warning line message] := rfl

/-- Storing a script gives a warning if the name is taken. -/
theorem stored_eq_noting (name : String) (body : List Command) (line : Nat) :
    ∃ ws, s.stored name body line = noting { s with scripts := s.scripts.insert name body } ws := by
  unfold stored
  dsimp only
  split
  · exact ⟨_, warned_eq_noting _ line _⟩
  · exact ⟨[], (noting_nil _).symm⟩

end Session

/-! ## The actions are these steps -/

namespace SessionM

variable (s : Session)

@[simp] theorem run_freshId (stem : Option String) :
    (freshId stem).run s = (.ok (s.nextId stem), s.counted 1) := rfl

@[simp] theorem run_declare (name : String) : (declare name).run s = (.ok (), s.declaring [name]) :=
  rfl

@[simp] theorem run_register (symbol : Symbol) :
    (register symbol).run s = (.ok (), s.registered symbol) := rfl

@[simp] theorem run_record (id : DeclId) (d : Declaration) :
    (record id d).run s = (.ok (), s.recorded id d) := rfl

@[simp] theorem run_warn (line : Nat) (message : String) :
    (warn line message).run s = (.ok (), s.warned line message) := rfl

@[simp] theorem run_fail {α : Type} (line : Nat) (cause : Cause) :
    (fail line cause : SessionM α).run s = (.error (s.error line cause), s) := rfl

@[simp] theorem run_pushScript (name : String) (body : List Command) (line : Nat) :
    (pushScript name body line).run s = (.ok (), s.stored name body line) := by
  rw [pushScript, run_bind, run_modifyGet]
  by_cases h : (s.scripts[name]?).isSome
  · simp only [Scripts.push, h, if_true, run_warn, Session.stored]
    rfl
  · simp only [Scripts.push, h, Bool.false_eq_true, if_false, run_pure, Session.stored]

theorem run_lift {α : Type} (action : Surroundings → Lowering α) :
    (lift action).run s = (((action s.toSurroundings).run s.toEffects).1,
      s.withEffects ((action s.toSurroundings).run s.toEffects).2) := rfl

/-- A successful lowering of an expression inside a session. -/
theorem lift_ok {α : Type} {action : Surroundings → Lowering α} {s t : Session} {a : α}
    (h : (lift action).run s = (.ok a, t)) :
    ∃ fx, (action s.toSurroundings).run s.toEffects = (.ok a, fx) ∧ t = s.withEffects fx := by
  rw [run_lift] at h
  rcases hr : (action s.toSurroundings).run s.toEffects with ⟨r, fx⟩
  rw [hr] at h
  cases h
  exact ⟨fx, rfl, rfl⟩

/-- The declarations that a script begins with. -/
theorem run_forM_declare {α : Type} (slot : α → String) (xs : List α) :
    (xs.forM fun x => declare (slot x)).run s = (.ok (), s.declaring (xs.map slot)) := by
  induction xs generalizing s with
  | nil => simp [Session.declaring]
  | cons x rest ih =>
    show (declare (slot x) >>= fun _ => rest.forM fun y => declare (slot y)).run s = _
    rw [run_bind, run_declare]
    show (rest.forM fun y => declare (slot y)).run _ = _
    rw [ih]
    simp [Session.declaring]

end SessionM

end FrameScript
