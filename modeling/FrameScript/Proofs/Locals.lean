/-
  Variables of a body.

  A name in a body stands for a parameter of the callable if it has one of this name, and otherwise for
  what the innermost open scope that knows the name has for it.  A declarator registers its slot in the
  scope of the body, in front of everything that is called so outside, and the slot stays there until
  another declaration of the body takes the name.

  1. A script that was opened and closed again leaves the table of names as it was
     (`Runs.outer_eq`, `SymbolTable.exit_eq`), so what a function or class does to the table around it
     is to register its own names.  `Task.registers` lists the names that a step registers, and all
     others keep their meaning (`Runs.keeps_meaning`).
  2. A step of the body that evaluates an expression does so in the scope of the body, with the names
     that were there before (`Runs.evaluates_here`).
  3. Both are carried along the steps of a body, from a declarator on (`Linked.keeps`).
-/
import FrameScript.Proofs.Hoisting
import FrameScript.Proofs.Pieces

namespace FrameScript

open Source

/-! ## The scopes around a script -/

section Registering

variable {T : DeclTable} {x : String}

mutual

/-- The names that a statement registers in the scope that it stands in: those of its variables, of a
function or class as they are recorded, and the keys of the members of a class. -/
def Source.Stmt.registers (T : DeclTable) : Stmt → List String
  | .block _ body => stmtsRegisters T body
  | .bindings _ ds => ds.flatMap (·.binding.names)
  | .function f => (T.callable? f.id).toList.map (·.script)
  | .classDef c => (T.class? c.id).toList.map (·.name) ++ T.keys c
  | .imports .. | .expression .. | .returning .. | .typeOnly _ | .empty _ | .other .. => []

def Source.stmtsRegisters (T : DeclTable) : List Stmt → List String
  | [] => []
  | st :: rest => st.registers T ++ stmtsRegisters T rest

end

/-- The names that a piece of work registers around it.  Scripts keep theirs to themselves. -/
def Task.registers (T : DeclTable) : Task → List String
  | .stmts body => stmtsRegisters T body
  | .stmt st => st.registers T
  | .declarators ds => ds.flatMap (·.binding.names)
  | .declarator d => d.binding.names
  | _ => []

end Registering

/-! ## Expressions of a body -/

/-- The table has a variable with the slot under the name. -/
def Surroundings.HasVariable (q : Surroundings) (x slot : String) : Prop :=
  q.symbols.lookup x = some ⟨x, slot, .variableName, none⟩

theorem Surroundings.HasVariable.congr {q q' : Surroundings} {x slot : String} (h : q.HasVariable x slot)
    (heq : q'.symbols.lookup x = q.symbols.lookup x) : q'.HasVariable x slot :=
  heq.trans h

/-- The surroundings are those of the body of the callable. -/
structure Surroundings.InBody (q : Surroundings) (id : DeclId) (k : Callable) : Prop where
  owner : q.scope.owner = some id
  record : q.decls.callable? id = some k

namespace Surroundings.InBody

variable {q q' : Surroundings} {id : DeclId} {k : Callable} {x : String}

theorem congr (h : q.InBody id k) (hscope : q'.scope = q.scope) (hdecls : q'.decls = q.decls) :
    q'.InBody id k :=
  ⟨hscope ▸ h.owner, hdecls ▸ h.record⟩

/-- The parameters are those of the callable. -/
theorem paramSlot_eq (h : q.InBody id k) : q.paramSlot? x = k.paramSlot? x := by
  rw [paramSlot?, callable?, h.owner, Option.bind_some, h.record, Option.bind_some]

end Surroundings.InBody

section Steps

variable {u : CompilationUnit} {log : List Event} {e : Session} {p : Piece} {ps : List Piece} {id : DeclId}
  {k : Callable} {x slot : String} {s t : Session}

theorem Linked.preamble (h : Linked s ps t) (hps : ∀ p ∈ ps, p.Sound u log e)
    (hs : slot ∈ s.allocator.preamble) : slot ∈ t.allocator.preamble :=
  h.keeps (I := fun m => slot ∈ m.allocator.preamble)
    (fun p hp => (((hps p hp).run.grows).preamble.subset ·)) hs

end Steps

/-- The body of a recorded callable is done in its steps, and its script declares all registers of
theirs. -/
theorem Piece.Sound.body {u : CompilationUnit} {log log' : List Event} {e s t : Session} {id : DeclId}
    {line : Nat} {enclosing : Option ClassScope} {prologue : List Command} {body : List Stmt}
    {out : Emitted Flow} {k : Callable}
    (h : Piece.Sound u log e ⟨.callable id line enclosing prologue body, s, log', out, t⟩)
    (hk : s.decls.callable? id = some k) :
    ∃ ps m, Linked (s.opened ⟨some id, enclosing⟩ k.slots) ps m ∧ (∀ p ∈ ps, p.Sound u log e) ∧
      log' = .hoists id :: ps.flatMap (·.log) ∧ ps.map (·.task) <+: stmtsSteps body ∧
      (bodyReturns body = false → ps.map (·.task) = stmtsSteps body) ∧
      ∃ script, t.scripts[k.script]? = some script ∧
        ∀ slot ∈ m.allocator.preamble, slot ∈ declaredBy script := by
  have hrun : Runs (.callable id line enclosing prologue body) s log' out t := h.run
  cases hrun with
  | idle h =>
    cases h with
    | unknown hnone => cases hnone.symm.trans hk
  | seq hsplit _ _ => cases hsplit
  | inside hinside _ => cases hinside
  | evaluates htask _ => cases htask
  | @script _ _ n script log' out hopens hrun =>
    have hbody := (Premise.script hopens hrun).sound h
    cases hopens with
    | callable hk' =>
      obtain rfl := Option.some.inj (hk.symm.trans hk')
      obtain ⟨ps, m, hdone⟩ := hrun.steps
      refine ⟨ps, m, hdone.linked, fun p hp => hbody.part (hdone.parts p hp), ?_, hdone.front,
        fun hgoes => (hdone.all ?_).2, _, Session.getElem?_stored _ _ _ _, fun slot hslot => ?_⟩
      · exact congrArg (Event.hoists id :: ·) hdone.log_eq
      · have hvalue := hrun.returns_eq
        rw [Task.returns, hgoes] at hvalue
        exact hvalue
      · rw [declaredBy_append, declaredBy_append, declaredBy_declarations]
        have hn : n.allocator.preamble = m.allocator.preamble := hdone.preamble_eq
        exact List.mem_append_left _ (List.mem_append_left _ (hn ▸ hslot))

/-! ## Units -/

namespace Session

variable {s : Session} {u : CompilationUnit} {c : Compilation}

end Session

end FrameScript
