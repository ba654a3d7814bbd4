/-
  Hoisting leaves no trace in the enclosing script.

  A function or class declaration becomes scripts of its own.  Their bodies register variables, open
  scopes and declare further functions and classes, and they may fail at any depth; when all is done,
  the enclosing script is as if the declaration had been declared and never lowered:

  1. inside a script only the innermost scope of the symbol table changes (`Session.Within`);
  2. opening a script puts a new scope on top and closing it takes one away, so after the script the
     table is what it was before (`SymbolTable.exit_eq`), and so are the preamble and the lexical
     scope (`Session.Around`);
  3. the two relations admit every step of lowering (`Session.within_admits`), so they hold of every
     run, also of one that fails.
-/
import FrameScript.Proofs.Stability

namespace FrameScript

open Source

/-! ## The scopes around the innermost one -/

namespace SymbolTable

/-- The scopes around the innermost one, from the inside out. -/
def outer (t : SymbolTable) : List Scope := (t.inner ++ [t.unitScope]).tail

@[simp] theorem length_outer (t : SymbolTable) : t.outer.length = t.depth := by
  simp [outer, depth]

@[simp] theorem outer_register (t : SymbolTable) (symbol : Symbol) :
    (t.register symbol).outer = t.outer := by
  unfold register outer
  split <;> simp_all

/-- A table that was entered and changed in its innermost scope only is left as it was entered. -/
theorem exit_eq {t u : SymbolTable} (h : u.outer = t.enter.outer) : u.exit = t := by
  rcases t with ⟨unitScope, inner⟩
  rcases u with ⟨_, _ | ⟨top, rest⟩⟩
  · exact absurd h (by simp [outer, enter])
  · obtain ⟨hinner, hunit⟩ := List.append_inj' h rfl
    obtain rfl : rest = inner := hinner
    obtain rfl := (List.cons.inj hunit).1
    rfl

end SymbolTable

namespace Session

/-- What lowering does to the script it is in: the unit and the lexical scope stay, and symbols are
registered in the innermost scope only. -/
structure Within (s t : Session) : Prop where
  unit : t.unit = s.unit
  scope : t.scope = s.scope
  outer : t.symbols.outer = s.symbols.outer

/-- What a hoisted script does to the session around it: besides the unit and the lexical scope also
the symbols and the preamble stay. -/
structure Around (s t : Session) : Prop where
  unit : t.unit = s.unit
  scope : t.scope = s.scope
  symbols : t.symbols = s.symbols
  preamble : t.allocator.preamble = s.allocator.preamble

variable {s t u : Session}

namespace Within

theorem refl (s : Session) : Within s s := ⟨rfl, rfl, rfl⟩

theorem trans (h : Within s t) (h' : Within t u) : Within s u where
  unit := h'.unit.trans h.unit
  scope := h'.scope.trans h.scope
  outer := h'.outer.trans h.outer

theorem depth_eq (h : Within s t) : t.symbols.depth = s.symbols.depth := by
  rw [← t.symbols.length_outer, ← s.symbols.length_outer, h.outer]

end Within

namespace Around

theorem refl (s : Session) : Around s s := ⟨rfl, rfl, rfl, rfl⟩

theorem trans (h : Around s t) (h' : Around t u) : Around s u where
  unit := h'.unit.trans h.unit
  scope := h'.scope.trans h.scope
  symbols := h'.symbols.trans h.symbols
  preamble := h'.preamble.trans h.preamble

theorem within (h : Around s t) : Within s t where
  unit := h.unit
  scope := h.scope
  outer := by rw [h.symbols]

theorem stored (s : Session) (name : String) (body : List Command) (line : Nat) :
    Around s (s.stored name body line) := by
  obtain ⟨ws, hws⟩ := s.stored_eq_noting name body line
  rw [hws]
  exact ⟨rfl, rfl, rfl, rfl⟩

/-- A script that is closed has put back what it moved aside. -/
theorem script (s t : Session) (scope : LexicalScope) (h : Within (s.opened scope []) t) :
    Around s (s.closed t) where
  unit := h.unit
  scope := rfl
  symbols := SymbolTable.exit_eq h.outer
  preamble := rfl

end Around

/-- Lowering stays within the script it is in, and a hoisted script around which it stands. -/
theorem within_admits : Lower.Admits Within Around where
  refl := .refl
  trans := .trans
  counted _ _ := ⟨rfl, rfl, rfl⟩
  registered s symbol := ⟨rfl, rfl, s.symbols.outer_register symbol⟩
  recorded _ _ _ := ⟨rfl, rfl, rfl⟩
  declaring _ _ := ⟨rfl, rfl, rfl⟩
  effects _ _ _ := ⟨rfl, rfl, rfl⟩
  hoisted := Around.within
  around_refl := .refl
  around_trans := .trans
  warned _ _ _ := ⟨rfl, rfl, rfl, rfl⟩
  stored := .stored
  script := .script

/-- Declaring adds nothing to the preamble. -/
theorem preamble_admits :
    Declare.Admits fun s t => t.allocator.preamble = s.allocator.preamble where
  refl _ := rfl
  trans h h' := h'.trans h
  counted _ _ := rfl
  registered _ _ := rfl
  recorded _ _ _ := rfl

end Session

/-! ## Hoisted statements -/

/-- The id of a statement that is hoisted: a function or class declaration. -/
def Source.Stmt.hoistedId? : Stmt → Option DeclId
  | .function f => some f.id
  | .classDef c => some c.id
  | _ => none

namespace Declare

/-- What is declared already is not declared again. -/
theorem run_declared {st : Stmt} {id : DeclId} (h : st.hoistedId? = some id) {s : Session}
    (hdeclared : s.decls.contains id = true) : ((stmt st).run s).2 = s := by
  cases st with
  | function f =>
    obtain rfl := Option.some.inj h
    rw [stmt, function, run_bind, run_get]
    dsimp only
    rw [hdeclared, Bool.or_true, if_pos rfl, run_pure]
  | classDef c =>
    obtain rfl := Option.some.inj h
    rw [stmt, classDef, run_bind, run_get]
    dsimp only
    rw [hdeclared, Bool.or_true, if_pos rfl, run_pure]
  | _ => cases h

end Declare

namespace Lower

/-- A hoisted statement is lowered to nothing. -/
theorem hoisted_commands {st : Stmt} {id : DeclId} (h : st.hoistedId? = some id) {s t : Session}
    {out : Emitted Flow} (hrun : (stmt st).run s = (.ok out, t)) : out = ⟨[], .next⟩ := by
  cases st with
  | function f =>
    rw [stmt] at hrun
    obtain ⟨_, _, _, hdone⟩ := run_bind_ok hrun
    exact (ok_inj hdone).1.symm
  | classDef c =>
    rw [stmt] at hrun
    obtain ⟨_, _, _, hdone⟩ := run_bind_ok hrun
    exact (ok_inj hdone).1.symm
  | _ => cases h

/-- Around a hoisted statement nothing happens but its declaration. -/
theorem hoisted_around {st : Stmt} {id : DeclId} (h : st.hoistedId? = some id) (s : Session) :
    Session.Around ((Declare.stmt st).run s).2 ((stmt st).run s).2 := by
  have hreturn : ∀ _ : Unit, Keeps Session.Around
      (pure ⟨[], .next⟩ : SessionM (Emitted Flow)) := fun _ => Session.within_admits.around_pure _
  cases st with
  | function f =>
    have hscripts := Session.within_admits.function f s
    exact hscripts.trans (Keeps.after Session.Around.refl (function f) hreturn s)
  | classDef c =>
    have hscripts := Session.within_admits.classDef c s
    exact hscripts.trans (Keeps.after Session.Around.refl (classDef c) hreturn s)
  | _ => cases h

end Lower

/-- **Hoisting is invisible outside.**  In every session, lowering a function or class declaration,
whether it succeeds or fails somewhere in its bodies, adds no command to the enclosing script, leaves
the preamble, the lexical scope and the depth of the symbol table as they were, and makes of the
symbol table what the declaration alone makes of it.  If it was declared before, that is nothing: all
names have the meanings that they had. -/
theorem hoisting_invisible (st : Stmt) {id : DeclId} (h : st.hoistedId? = some id) (s : Session) :
    (∀ out, ((Lower.stmt st).run s).1 = .ok out → out = ⟨[], .next⟩) ∧
    ((Lower.stmt st).run s).2.allocator.preamble = s.allocator.preamble ∧
    ((Lower.stmt st).run s).2.scope = s.scope ∧
    ((Lower.stmt st).run s).2.symbols.depth = s.symbols.depth ∧
    ((Lower.stmt st).run s).2.symbols = ((Declare.stmt st).run s).2.symbols ∧
    (s.decls.contains id = true → ((Lower.stmt st).run s).2.symbols = s.symbols) := by
  have haround := Lower.hoisted_around h s
  have hwithin := Session.within_admits.toAdmits.stmt st s
  have hpreamble := Session.preamble_admits.stmt st s
  refine ⟨fun out hout => ?_, haround.preamble.trans hpreamble, haround.scope.trans hwithin.scope, ?_,
    haround.symbols, fun hdeclared => ?_⟩
  · rcases hrun : (Lower.stmt st).run s with ⟨r, t⟩
    rw [hrun] at hout
    obtain rfl : r = .ok out := hout
    exact Lower.hoisted_commands h hrun
  · rw [haround.symbols]
    exact hwithin.depth_eq
  · rw [haround.symbols, Declare.run_declared h hdeclared]

/-! A function whose body fails two scripts further in, after both have registered names. -/

/-- `function f(p) { let x = 1; class C { m() { let y = null } } }` -/
def failingFunction : Stmt :=
  .function ⟨0, some "f", [⟨.identifier "p", false, none, 1⟩], some [
    .bindings 2 [⟨.identifier "x", some (.number ⟨2, none⟩ (.ofInt 1)), 2⟩],
    .classDef ⟨1, some "C", none, false, false, [
      .method ⟨2, some "m", [], some [
        .bindings 4 [⟨.identifier "y", some (.null ⟨4, none⟩), 4⟩]], false, 4⟩ false], 3⟩], false, 1⟩

/-- The session that has declared the function and not yet lowered it. -/
def failingSession : Session := ((Declare.stmt failingFunction).run {}).2

theorem hoisting_invisible_failing :
    failingSession.decls.contains 0 = true ∧
    ((Lower.stmt failingFunction).run failingSession).1 =
      .error ⟨⟨4, "<expression>"⟩, .nullLiteral⟩ ∧
    ((Lower.stmt failingFunction).run failingSession).2.symbols = failingSession.symbols := by
  have hdeclared : failingSession.decls.contains 0 = true := by decide +kernel
  have hinvisible := hoisting_invisible failingFunction rfl failingSession
  exact ⟨hdeclared, by decide +kernel, hinvisible.2.2.2.2.2 hdeclared⟩

end FrameScript
