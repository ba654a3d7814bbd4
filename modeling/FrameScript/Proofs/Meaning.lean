/-
  Call-free units mean what their scripts do.

  A lowered expression names the place of its value, a register, and not the value.  What makes this
  sound is a simulation between environments and stores (`Layout.Agrees`): the slot of every variable
  holds the value of the variable.  Three facts carry it.

  1. Slots of variables are ids, all else that is written are registers, and the two never meet; so
     staged literals, scratch copies and kept old values leave all variables alone.
  2. Variables of different names have different slots.
  3. The place of a value is read right after the commands that made it, and before any other.

  The statements are followed along `Runs`.  A variable has its slot from its declaration on, so the
  slots of a unit are those known at its end, and the simulation is carried with these.
-/
import FrameScript.Proofs.Semantics
import FrameScript.Proofs.Units

namespace FrameScript

open Source

universe u

variable {V : Type u}

/-! ## Variables and their slots -/

/-- The slots of some variables in a frame. -/
structure Layout where
  frame : Frame
  names : List String
  slot : String → String
  minted : ∀ x ∈ names, ∃ n, slot x = mintedId x n

namespace Layout

variable (L : Layout) {x y : String} {ρ : Env V} {σ : Store V}

theorem slot_inj (hx : x ∈ L.names) (hy : y ∈ L.names) (h : L.slot x = L.slot y) : x = y := by
  obtain ⟨m, hm⟩ := L.minted x hx
  obtain ⟨n, hn⟩ := L.minted y hy
  rw [hm, hn] at h
  exact (mintedId_inj h).1

theorem slot_ne_register (hx : x ∈ L.names) (n : Nat) : L.slot x ≠ mintedRegister n := by
  obtain ⟨m, hm⟩ := L.minted x hx
  rw [hm]
  exact mintedId_ne_mintedRegister x m n

/-- The slot of every variable holds the value of the variable. -/
def Agrees (ρ : Env V) (σ : Store V) : Prop := ∀ x ∈ L.names, σ L.frame (L.slot x) = ρ x

variable {L}

/-- Writing a register changes no variable. -/
theorem Agrees.register (h : L.Agrees ρ σ) (n : Nat) (v : V) :
    L.Agrees ρ (σ.put L.frame (mintedRegister n) v) := by
  intro x hx
  rw [Store.put_other _ _ _ (L.slot_ne_register hx n)]
  exact h x hx

/-- Writing the slot of a variable changes this variable only. -/
theorem Agrees.variable (h : L.Agrees ρ σ) (hx : x ∈ L.names) (v : V) :
    L.Agrees (Function.update ρ x v) (σ.put L.frame (L.slot x) v) := by
  intro y hy
  by_cases hyx : y = x
  · subst hyx
    rw [Store.put_self, Function.update_self]
  · have hslot : L.slot y ≠ L.slot x := fun heq => hyx (L.slot_inj hy hx heq)
    rw [Store.put_other _ _ _ hslot, Function.update_of_ne hyx]
    exact h y hy

end Layout

/-! ## Expressions -/

/-- The value that an operand stands for. -/
def Operand.read (I : Interpretation V) (frame : Frame) (σ : Store V) : Operand → V
  | .immediate text => I.literal text
  | .slot register => σ frame register

/-- From a store, commands lead to a store that agrees with an environment and has a value in the
place of an operand. -/
structure Layout.Reflects (L : Layout) (I : Interpretation V) (σ : Store V) (commands : List Command)
    (v : Operand) (value : V) (ρ' : Env V) (σ' : Store V) : Prop where
  executed : execute I commands σ = some σ'
  agrees : L.Agrees ρ' σ'
  value_eq : v.read I L.frame σ' = value

/-- The surroundings give the variables in scope the slots of the layout. -/
structure Layout.Fits (L : Layout) (scope : List String) (q : Surroundings) : Prop where
  frame_eq : q.frame = L.frame
  known : ∀ x ∈ scope, x ∈ L.names
  slot_eq : ∀ x ∈ scope, q.identifierSlot x = L.slot x

namespace Layout.Reflects

variable {L : Layout} {I : Interpretation V} {q : Surroundings} {σ σ' : Store V} {ρ' : Env V}
  {commands : List Command} {v : Operand} {value : V} {x : String}

/-- A staged operand is a register with its value.  No other register has changed. -/
theorem stage (hframe : q.frame = L.frame) (h : L.Reflects I σ commands v value ρ' σ')
    (fx : Effects) :
    ∃ σ'', L.Reflects I σ (commands ++ (Lower.stage q v fx).1.commands)
        (.slot (Lower.stage q v fx).1.value) value ρ' σ'' ∧
      ∀ r, r ≠ fx.scratch → σ'' L.frame r = σ' L.frame r := by
  cases v with
  | slot register =>
    refine ⟨σ', ⟨?_, h.agrees, h.value_eq⟩, fun _ _ => rfl⟩
    rw [Lower.stage_slot, List.append_nil]
    exact h.executed
  | immediate text =>
    refine ⟨σ'.put L.frame fx.scratch (I.literal text), ⟨?_, h.agrees.register _ _, ?_⟩, ?_⟩
    · refine execute_append_of I h.executed ?_
      rw [Lower.stage_immediate, hframe]
      rfl
    · rw [← h.value_eq]
      exact Store.put_self _ _ _ _
    · exact fun r hr => Store.put_other _ _ _ hr

/-- An assignment or compound assignment of a value.  No other register has changed. -/
theorem operate (hframe : q.frame = L.frame) (hx : x ∈ L.names) {register : String}
    (h : L.Reflects I σ commands (.slot register) value ρ' σ') (code : Op) :
    ∃ σ'', L.Reflects I σ (commands ++ [Lower.operate q (L.slot x) code register])
        (.slot (L.slot x)) (I.combine code (ρ' x) value)
        (Function.update ρ' x (I.combine code (ρ' x) value)) σ'' ∧
      ∀ r, r ≠ L.slot x → σ'' L.frame r = σ' L.frame r := by
  have hold : σ' L.frame (L.slot x) = ρ' x := h.agrees x hx
  have hvalue : σ' L.frame register = value := h.value_eq
  refine ⟨_, ⟨?_, h.agrees.variable hx _, Store.put_self _ _ _ _⟩,
    fun r hr => Store.put_other _ _ _ hr⟩
  refine execute_append_of I h.executed ?_
  rw [Lower.operate, hframe, ← hold, ← hvalue]
  rfl

/-- The value of a variable is copied into a register. -/
theorem copy (hframe : q.frame = L.frame) (hx : x ∈ L.names)
    (h : L.Reflects I σ commands v value ρ' σ') (fx : Effects) :
    ∃ σ'', L.Reflects I σ (commands ++ [Lower.operate q fx.scratch .assign (L.slot x)])
      (.slot fx.scratch) (ρ' x) ρ' σ'' := by
  have hcopy : I.combine .assign (σ' L.frame fx.scratch) (σ' L.frame (L.slot x)) = ρ' x := by
    rw [I.combine_assign, h.agrees x hx]
  refine ⟨σ'.put L.frame fx.scratch (ρ' x), ?_, h.agrees.register _ _, Store.put_self _ _ _ _⟩
  refine execute_append_of I h.executed ?_
  rw [Lower.operate, hframe, ← hcopy]
  rfl

/-- The value of an expression goes into the slot of a variable. -/
theorem assign (hframe : q.frame = L.frame) (hx : x ∈ L.names)
    (h : L.Reflects I σ commands v value ρ' σ') :
    ∃ σ'', execute I (commands ++ [Lower.assign q (L.slot x) v]) σ = some σ'' ∧
      L.Agrees (Function.update ρ' x value) σ'' := by
  refine ⟨_, ?_, h.agrees.variable hx value⟩
  refine execute_append_of I h.executed ?_
  cases v with
  | immediate text =>
    have hvalue : I.literal text = value := h.value_eq
    rw [Lower.assign, hframe, ← hvalue]
    rfl
  | slot register =>
    have hcopy : I.combine .assign (σ' L.frame (L.slot x)) (σ' L.frame register) = value := by
      rw [I.combine_assign]
      exact h.value_eq
    rw [Lower.assign, Lower.operate, hframe, ← hcopy]
    rfl

end Layout.Reflects

namespace Layout

variable {L : Layout} {I : Interpretation V} {q : Surroundings} {scope : List String} {ρ : Env V}
  {σ : Store V} {x : String}

/-- An update leads to the new value of its target.  The old one, if it is kept, is in a register
that neither the literal nor the target is written to. -/
theorem reflects_updated (hframe : q.frame = L.frame) (hx : x ∈ L.names) (h : L.Agrees ρ σ)
    (code : Op) (keepOld : Bool) (fx : Effects) :
    ∃ v σ', (Lower.updated q (L.slot x) code keepOld fx).1.value = some v ∧
      L.Reflects I σ (Lower.updated q (L.slot x) code keepOld fx).1.commands v
        (if keepOld then ρ x else I.combine code (ρ x) (I.literal "1"))
        (Function.update ρ x (I.combine code (ρ x) (I.literal "1"))) σ' := by
  have hstart : L.Reflects I σ [] (.immediate "1") (I.literal "1") ρ σ := ⟨rfl, h, rfl⟩
  cases keepOld with
  | false =>
    obtain ⟨σ₁, hone, -⟩ := hstart.stage hframe fx
    obtain ⟨σ₂, hnew, -⟩ := hone.operate hframe hx code
    exact ⟨_, σ₂, rfl, hnew⟩
  | true =>
    obtain ⟨σ₁, hold⟩ := hstart.copy hframe hx fx
    have hcopied : L.Reflects I σ [Lower.operate q fx.scratch .assign (L.slot x)] (.immediate "1")
        (I.literal "1") ρ σ₁ := ⟨hold.executed, hold.agrees, rfl⟩
    obtain ⟨σ₂, hone, hother⟩ := hcopied.stage hframe fx.scratched
    obtain ⟨σ₃, hnew, hothers⟩ := hone.operate hframe hx code
    have hscratch : fx.scratch ≠ fx.scratched.scratch := by
      intro heq
      have hcount := mintedRegister_inj heq
      have hnext : fx.scratched.allocator.registers = fx.allocator.registers + 1 := rfl
      omega
    have hslot : fx.scratch ≠ L.slot x := (L.slot_ne_register hx _).symm
    refine ⟨.slot fx.scratch, σ₃, rfl, hnew.executed, hnew.agrees, ?_⟩
    calc σ₃ L.frame fx.scratch = σ₂ L.frame fx.scratch := hothers _ hslot
      _ = σ₁ L.frame fx.scratch := hother _ hscratch
      _ = ρ x := hold.value_eq

/-- The target of an assignment or update is the slot of a variable in scope. -/
theorem Fits.target (h : L.Fits scope q) {e : Expr} {target : String}
    (hfree : e.callFree scope = true) (htarget : q.targetSlot e = .ok target) :
    ∃ x ∈ scope, e.variable? = some x ∧ target = L.slot x := by
  rw [← e.callFree_unwrapped] at hfree
  unfold Surroundings.targetSlot at htarget
  unfold Expr.variable?
  generalize e.unwrapped = root at hfree htarget
  cases root with
  | identifier m name =>
    have hin : name ∈ scope := List.contains_iff_mem.mp hfree
    exact ⟨name, hin, rfl, (Except.ok.inj htarget).symm.trans (h.slot_eq name hin)⟩
  | member m object name => cases hfree
  | this m => cases hfree
  | _ => cases htarget

/-- What lowering an expression comes to: its commands do to the store what the expression does to
the environment, and its operand stands for its value.  Where the operand is a literal, nothing was
done. -/
def Simulates (L : Layout) (I : Interpretation V) (e : Expr) (out : Emitted (Option Operand))
    (ρ : Env V) (σ : Store V) : Prop :=
  ∃ v value ρ' σ', out.value = some v ∧ e.eval I ρ = some (value, ρ') ∧
    L.Reflects I σ out.commands v value ρ' σ' ∧ ∀ text, v = .immediate text → ρ' = ρ

theorem simulates_store (hfits : L.Fits scope q) (hx : x ∈ scope) {m : Mark} {left right : Expr}
    {op : BinaryOp} {code : Op} (hleft : left.variable? = some x)
    (hcode : Lower.assignmentOp? op = some code)
    (hsafe : op.isCompound = true → x ∉ right.writes) {commands : List Command} {v : Operand}
    (fx : Effects) (h : L.Simulates I right ⟨commands, some v⟩ ρ σ) :
    L.Simulates I (.binary m left op right)
      ⟨commands ++ (Lower.stage q v fx).1.commands ++
        [Lower.operate q (L.slot x) code (Lower.stage q v fx).1.value], some (.slot (L.slot x))⟩
      ρ σ := by
  obtain ⟨_, value, ρ₁, σ₁, hv, hright, hreflects, -⟩ := h
  obtain rfl := Option.some.inj hv
  obtain ⟨σ₂, hstaged, -⟩ := hreflects.stage hfits.frame_eq fx
  obtain ⟨σ₃, hstored, -⟩ := hstaged.operate hfits.frame_eq (hfits.known x hx) code
  -- the left side was read before the right side ran, the command reads it after
  have hsame : op.isCompound = true → ρ₁ x = ρ x := fun hop => Expr.eval_other I hright (hsafe hop)
  obtain ⟨f, hf, hvalue⟩ : ∃ f, op.assigned? I = some f ∧
      f (ρ x) value = I.combine code (ρ₁ x) value := by
    cases op <;> simp only [Lower.assignmentOp?, Option.some.injEq, reduceCtorEq] at hcode <;>
      subst hcode
    case assign => exact ⟨_, rfl, (I.combine_assign _ _).symm⟩
    all_goals exact ⟨_, rfl, by rw [hsame rfl]⟩
  refine ⟨_, _, _, σ₃, rfl, ?_, hstored, fun text htext => by cases htext⟩
  rw [Expr.eval, hleft, hf, hright]
  show some (f (ρ x) value, Function.update ρ₁ x (f (ρ x) value)) = _
  rw [hvalue]

theorem simulates_square (hfits : L.Fits scope q) (hx : x ∈ scope) {m : Mark} {left right : Expr}
    (hleft : left.variable? = some x) {commands : List Command} (fx : Effects)
    (h : L.Simulates I right ⟨commands, some (.immediate "2")⟩ ρ σ) :
    L.Simulates I (.binary m left .powAssign right)
      ⟨commands ++ [Lower.operate q fx.scratch .assign (L.slot x),
        Lower.operate q (L.slot x) .mul fx.scratch], some (.slot (L.slot x))⟩ ρ σ := by
  obtain ⟨_, value, ρ₁, σ₁, hv, hright, hreflects, hliteral⟩ := h
  obtain rfl := Option.some.inj hv
  obtain rfl := hliteral "2" rfl
  have htwo : value = I.number (.ofInt 2) := by
    rw [← I.literal_two]
    exact hreflects.value_eq.symm
  obtain ⟨σ₂, hcopied⟩ := hreflects.copy hfits.frame_eq (hfits.known x hx) fx
  obtain ⟨σ₃, hstored, -⟩ := hcopied.operate hfits.frame_eq (hfits.known x hx) .mul
  rw [List.append_assoc] at hstored
  refine ⟨_, _, _, σ₃, rfl, ?_, hstored, fun text htext => by cases htext⟩
  rw [Expr.eval, hleft, hright]
  show some (I.power (ρ₁ x) value, Function.update ρ₁ x (I.power (ρ₁ x) value)) = _
  rw [htwo, I.power_two]

/-- What an update does, with the literal of the command that performs it. -/
theorem eval_update (I : Interpretation V) (m : Mark) {op : UnaryOp} (fixity : Fixity) {operand : Expr}
    {code : Op} (hoperand : operand.variable? = some x) (hcode : Lower.updateOp? op = some code)
    (ρ : Env V) :
    (Expr.unary m op fixity operand).eval I ρ =
      some (if fixity = .after then ρ x else I.combine code (ρ x) (I.literal "1"),
        Function.update ρ x (I.combine code (ρ x) (I.literal "1"))) := by
  rw [I.literal_one, Expr.eval, hoperand]
  cases op <;> simp only [Lower.updateOp?, Option.some.injEq, reduceCtorEq] at hcode <;> subst hcode <;>
    cases fixity <;> rfl

theorem simulates_update (hfits : L.Fits scope q) (hx : x ∈ scope) (m : Mark) {op : UnaryOp}
    (fixity : Fixity) {operand : Expr} {code : Op} (hoperand : operand.variable? = some x)
    (hcode : Lower.updateOp? op = some code) (fx : Effects) (h : L.Agrees ρ σ) :
    L.Simulates I (.unary m op fixity operand)
      (Lower.updated q (L.slot x) code (fixity = .after) fx).1 ρ σ := by
  obtain ⟨v, σ', hv, hreflects⟩ :=
    L.reflects_updated (I := I) hfits.frame_eq (hfits.known x hx) h code (fixity = .after) fx
  refine ⟨v, _, _, σ', hv, ?_, hreflects, fun text htext => ?_⟩
  · rw [eval_update I m fixity hoperand hcode]
    simp only [decide_eq_true_eq]
  · subst htext
    cases fixity <;> cases hv

/-- **Lowering an expression keeps its meaning.** -/
theorem Fits.simulates (hfits : L.Fits scope q) {e : Expr} (hfree : e.callFree scope = true)
    {fx gx : Effects} {out : Emitted (Option Operand)}
    (hrun : (Lower.expr q e).run fx = (.ok out, gx)) (hagrees : L.Agrees ρ σ) :
    L.Simulates I e out ρ σ := by
  induction e generalizing fx gx out ρ σ with
  | number m y =>
    cases Lower.lowered_of_run hrun
    exact ⟨_, _, ρ, σ, rfl, rfl, ⟨rfl, hagrees, I.literal_number y⟩, fun _ _ => rfl⟩
  | boolean m b =>
    cases Lower.lowered_of_run hrun
    exact ⟨_, _, ρ, σ, rfl, rfl, ⟨rfl, hagrees, I.literal_boolean b⟩, fun _ _ => rfl⟩
  | identifier m name =>
    cases Lower.lowered_of_run hrun
    have hin : name ∈ scope := List.contains_iff_mem.mp hfree
    refine ⟨_, _, ρ, σ, rfl, rfl, ⟨rfl, hagrees, ?_⟩, fun _ _ => rfl⟩
    rw [hfits.slot_eq name hin]
    exact hagrees name (hfits.known name hin)
  | wrapped m inner ih =>
    cases Lower.lowered_of_run hrun with
    | wrapped _ hinner => exact ih hfree hinner hagrees
  | binary m left op right _ ih =>
    rw [Expr.callFree, Bool.and_eq_true, Bool.and_eq_true, Bool.and_eq_true] at hfree
    obtain ⟨⟨⟨hleft, hop⟩, hright⟩, hsafe⟩ := hfree
    cases Lower.lowered_of_run hrun with
    | @store _ _ _ _ code target commands v _ gx hcode htarget hvalue =>
      obtain ⟨x, hx, hvariable, rfl⟩ := hfits.target hleft htarget
      have hright' := ih hright hvalue hagrees
      refine simulates_store hfits hx hvariable hcode (fun hcompound => ?_) gx hright'
      rw [hcompound, hvariable] at hsafe
      simpa using hsafe
    | square _ htarget hvalue =>
      obtain ⟨x, hx, hvariable, rfl⟩ := hfits.target hleft htarget
      exact simulates_square hfits hx hvariable _ (ih hright hvalue hagrees)
  | unary m op fixity operand _ =>
    rw [Expr.callFree, Bool.and_eq_true] at hfree
    cases Lower.lowered_of_run hrun with
    | update _ _ _ hcode htarget =>
      obtain ⟨x, hx, hvariable, rfl⟩ := hfits.target hfree.2 htarget
      exact simulates_update hfits hx m fixity hvariable hcode fx hagrees
  | _ => cases hfree

/-- An expression whose value is dropped. -/
theorem Fits.dropped (hfits : L.Fits scope q) {e : Expr} (hfree : e.callFree scope = true)
    {fx gx : Effects} {commands : List Command} (h : Evaluates q .dropped e fx commands gx)
    (hagrees : L.Agrees ρ σ) :
    ∃ value ρ' σ', e.eval I ρ = some (value, ρ') ∧ execute I commands σ = some σ' ∧
      L.Agrees ρ' σ' := by
  cases h with
  | dropped hrun =>
    obtain ⟨_, value, ρ', σ', -, heval, hreflects, -⟩ := hfits.simulates (I := I) hfree hrun hagrees
    exact ⟨value, ρ', σ', heval, hreflects.executed, hreflects.agrees⟩
  | updated m fixity fx hcode htarget =>
    rw [Expr.callFree, Bool.and_eq_true] at hfree
    obtain ⟨x, hx, hvariable, rfl⟩ := hfits.target hfree.2 htarget
    obtain ⟨_, σ', -, hreflects⟩ :=
      L.reflects_updated (I := I) hfits.frame_eq (hfits.known x hx) hagrees _ false fx
    exact ⟨_, _, σ', eval_update I m fixity hvariable hcode ρ, hreflects.executed, hreflects.agrees⟩

/-- An expression whose value goes into the slot of a variable. -/
theorem Fits.stored (hfits : L.Fits scope q) {e : Expr} (hfree : e.callFree scope = true)
    (hx : x ∈ L.names) {fx gx : Effects} {commands : List Command}
    (h : Evaluates q (.stored (L.slot x)) e fx commands gx) (hagrees : L.Agrees ρ σ) :
    ∃ value ρ' σ', e.eval I ρ = some (value, ρ') ∧ execute I commands σ = some σ' ∧
      L.Agrees (Function.update ρ' x value) σ' := by
  cases h with
  | stored _ hrun =>
    obtain ⟨_, value, ρ', σ', hv, heval, hreflects, -⟩ := hfits.simulates (I := I) hfree hrun hagrees
    obtain rfl := Option.some.inj hv
    obtain ⟨σ'', hexecuted, hagrees'⟩ := hreflects.assign hfits.frame_eq hx
    exact ⟨value, ρ', σ'', heval, hexecuted, hagrees'⟩

end Layout

/-! ## Statements -/

namespace Task

/-- The variables that the work declares. -/
def binds : Task → List String
  | stmts body => bodyBinds body
  | stmt st => st.binds
  | declarators ds => ds.flatMap (·.binding.names)
  | declarator d => d.binding.names
  | _ => []

def callFree (scope : List String) : Task → Bool
  | stmts body => bodyCallFree scope body
  | stmt st => st.callFree scope
  | declarators ds => declaratorsCallFree scope ds
  | declarator d => d.initializer.all (·.callFree scope)
  | _ => false

/-- The environment after the work. -/
def eval (I : Interpretation V) : Task → Env V → Option (Env V)
  | stmts body, ρ => bodyEval I body ρ
  | stmt st, ρ => st.eval I ρ
  | declarators ds, ρ => declaratorsEval I ds ρ
  | declarator d, ρ => d.eval I ρ
  | _, _ => none

/-- Work that is done in two parts binds what they bind, and the second part sees the variables of
the first. -/
theorem split_callFree {task first rest : Task} (h : task.split = some (first, rest))
    {scope : List String} (hfree : task.callFree scope = true) :
    first.callFree scope = true ∧ rest.callFree (scope ++ first.binds) = true ∧
      task.binds = first.binds ++ rest.binds := by
  cases Task.splits h with
  | stmts st others =>
    obtain ⟨hfirst, hrest⟩ := Bool.and_eq_true_iff.mp hfree
    exact ⟨hfirst, hrest, rfl⟩
  | declarators d others =>
    obtain ⟨hfirst, hrest⟩ := Bool.and_eq_true_iff.mp hfree
    exact ⟨hfirst, hrest, List.flatMap_cons⟩
  | _ => cases hfree

/-- Such work means the one part after the other. -/
theorem split_eval (I : Interpretation V) {task first rest : Task}
    (h : task.split = some (first, rest)) {scope : List String} (hfree : task.callFree scope = true)
    (ρ : Env V) : task.eval I ρ = (first.eval I ρ).bind (rest.eval I) := by
  cases Task.splits h with
  | stmts st others => rfl
  | declarators d others => rfl
  | _ => cases hfree

theorem inside_callFree {task inner : Task} (h : task.inside = some inner) (scope : List String) :
    inner.callFree scope = task.callFree scope ∧ inner.binds = task.binds := by
  cases Task.encloses h <;> exact ⟨rfl, rfl⟩

theorem inside_eval (I : Interpretation V) {task inner : Task} (h : task.inside = some inner) :
    inner.eval I = task.eval I := by
  cases Task.encloses h <;> rfl

end Task

theorem SymbolTable.resolve_register_self (t : SymbolTable) (s : Symbol) :
    (t.register s).resolve s.name = s.path := by
  rw [resolve, lookup_register_self]

theorem SymbolTable.resolve_register_other (t : SymbolTable) (s : Symbol) {name : String}
    (h : name ≠ s.name) : (t.register s).resolve name = t.resolve name := by
  rw [resolve, lookup_register_other t s h, resolve]

/-- A variable is known by its slot from its declaration on. -/
theorem Session.resolve_variable (s : Session) (name : String) :
    (s.withVariable name).symbols.resolve name = s.variableSlot name :=
  s.symbols.resolve_register_self ⟨name, s.variableSlot name, .variableName, none⟩

theorem Session.resolve_withVariable (s : Session) {name x : String} (h : x ≠ name) :
    (s.withVariable name).symbols.resolve x = s.symbols.resolve x :=
  s.symbols.resolve_register_other ⟨name, s.variableSlot name, .variableName, none⟩ h

/-- Call-free work goes on to its end, gives the variables that it declares slots, and changes the
meaning of no other name. -/
theorem Runs.resolves {task : Task} {s t : Session} {log : List Event} {out : Emitted Flow}
    (h : Runs task s log out t) {scope : List String} (hfree : task.callFree scope = true) :
    out.value = .next ∧ (∀ x ∉ task.binds, t.symbols.resolve x = s.symbols.resolve x) ∧
      ∀ x ∈ task.binds, ∃ n, t.symbols.resolve x = mintedId x n := by
  have hvariable : ∀ (s : Session) {b : Binding} {name : String}, b = .identifier name →
      (∀ x ∉ b.names, (s.withVariable name).symbols.resolve x = s.symbols.resolve x) ∧
        ∀ x ∈ b.names, ∃ n, (s.withVariable name).symbols.resolve x = mintedId x n := by
    rintro s _ name rfl
    refine ⟨fun x hx => ?_, fun x hx => ?_⟩
    · exact s.resolve_withVariable fun heq => hx (heq ▸ List.mem_cons_self)
    · obtain rfl := List.mem_singleton.mp hx
      exact ⟨_, s.resolve_variable x⟩
  induction h generalizing scope with
  | idle h =>
    cases h with
    | noStmts | noDeclarators => exact ⟨rfl, fun _ _ => rfl, fun x hx => absurd hx List.not_mem_nil⟩
    | _ => cases hfree
  | @seq task first rest s t u log log' commands out hsplit _ _ ihfirst ihrest =>
    obtain ⟨hfirst, hrest, hbinds⟩ := Task.split_callFree hsplit hfree
    obtain ⟨-, hfixed, hminted⟩ := ihfirst hfirst
    obtain ⟨hnext, hfixed', hminted'⟩ := ihrest hrest
    rw [hbinds]
    refine ⟨hnext, fun x hx => ?_, fun x hx => ?_⟩
    · rw [List.mem_append, not_or] at hx
      rw [hfixed' x hx.2, hfixed x hx.1]
    · by_cases hlater : x ∈ rest.binds
      · exact hminted' x hlater
      · rw [hfixed' x hlater]
        exact hminted x ((List.mem_append.mp hx).resolve_right hlater)
  | @returned st s t log commands rest _ ih =>
    obtain ⟨hfirst, -⟩ := Bool.and_eq_true_iff.mp hfree
    obtain ⟨hnext, -⟩ := ih hfirst
    cases hnext
  | inside hinside _ ih =>
    obtain ⟨hcallFree, hbinds⟩ := Task.inside_callFree hinside scope
    rw [← hbinds]
    exact ih (hcallFree ▸ hfree)
  | declares hname _ s => exact ⟨rfl, hvariable s hname⟩
  | evaluates htask _ =>
    cases htask with
    | initializer hname _ => exact ⟨rfl, hvariable _ hname⟩
    | expression line e s => exact ⟨rfl, fun _ _ => rfl, fun x hx => absurd hx List.not_mem_nil⟩
    | _ => cases hfree
  | script hopens _ _ => cases hopens <;> cases hfree
  | _ => cases hfree

/-- Outside of callables the slot of a variable is what its name stands for. -/
theorem Surroundings.identifierSlot_outside {q : Surroundings} (howner : q.scope.owner = none)
    (x : String) : q.identifierSlot x = q.symbols.resolve x := by
  have hcallable : q.callable? = none := by
    rw [Surroundings.callable?, howner]
    rfl
  rw [Surroundings.identifierSlot, Surroundings.paramSlot?, hcallable]
  rfl

theorem Layout.Fits.outside {L : Layout} {q : Surroundings} {scope : List String}
    (hframe : q.frame = L.frame) (howner : q.scope.owner = none) (hknown : ∀ x ∈ scope, x ∈ L.names)
    (hslots : ∀ x ∈ scope, q.symbols.resolve x = L.slot x) : L.Fits scope q where
  frame_eq := hframe
  known := hknown
  slot_eq := fun x hx => (Surroundings.identifierSlot_outside howner x).trans (hslots x hx)

/-- **Lowering call-free work keeps its meaning.**  The layout is that of the end: a variable keeps
the slot that it was declared with. -/
theorem Runs.simulates (I : Interpretation V) (L : Layout) {task : Task} {s t : Session}
    {log : List Event} {out : Emitted Flow} (h : Runs task s log out t) {scope : List String}
    (hfree : task.callFree scope = true) (hnodup : (scope ++ task.binds).Nodup)
    (hknown : ∀ x ∈ scope ++ task.binds, x ∈ L.names)
    (hslots : ∀ x ∈ scope ++ task.binds, t.symbols.resolve x = L.slot x)
    (hframe : s.frame = L.frame) (howner : s.scope.owner = none) {ρ : Env V} {σ : Store V}
    (hagrees : L.Agrees ρ σ) :
    ∃ ρ' σ', task.eval I ρ = some ρ' ∧ execute I out.commands σ = some σ' ∧ L.Agrees ρ' σ' := by
  induction h generalizing scope ρ σ with
  | idle h =>
    cases h with
    | noStmts | noDeclarators => exact ⟨ρ, σ, rfl, rfl, hagrees⟩
    | _ => cases hfree
  | @seq task first rest s t u log log' commands out hsplit hfirst hrest ihfirst ihrest =>
    obtain ⟨hfirstFree, hrestFree, hbinds⟩ := Task.split_callFree hsplit hfree
    rw [hbinds, ← List.append_assoc] at hnodup hknown hslots
    -- what the first part has declared, the second part does not declare again
    have hslots₁ : ∀ x ∈ scope ++ first.binds, t.symbols.resolve x = L.slot x := by
      intro x hx
      have hlater : x ∉ rest.binds := fun hin => List.disjoint_of_nodup_append hnodup hx hin
      rw [← (hrest.resolves hrestFree).2.1 x hlater]
      exact hslots x (List.mem_append_left _ hx)
    obtain ⟨ρ₁, σ₁, heval₁, hexecuted₁, hagrees₁⟩ := ihfirst hfirstFree
      (hnodup.sublist (List.sublist_append_left _ _))
      (fun x hx => hknown x (List.mem_append_left _ hx)) hslots₁ hframe howner hagrees
    obtain ⟨hunit, hscope⟩ := hfirst.place_eq
    have hframe₁ : t.frame = L.frame := by
      rw [Surroundings.frame, hunit]
      exact hframe
    obtain ⟨ρ₂, σ₂, heval₂, hexecuted₂, hagrees₂⟩ :=
      ihrest hrestFree hnodup hknown hslots hframe₁ (hscope ▸ howner) hagrees₁
    refine ⟨ρ₂, σ₂, ?_, execute_append_of I hexecuted₁ hexecuted₂, hagrees₂⟩
    rw [Task.split_eval I hsplit hfree, heval₁]
    exact heval₂
  | returned rest hfirst _ =>
    obtain ⟨hfirstFree, -⟩ := Bool.and_eq_true_iff.mp hfree
    obtain ⟨hnext, -⟩ := hfirst.resolves hfirstFree
    cases hnext
  | inside hinside _ ih =>
    obtain ⟨hcallFree, hbinds⟩ := Task.inside_callFree hinside scope
    rw [← hbinds] at hnodup hknown hslots
    rw [← Task.inside_eval I hinside]
    exact ih (hcallFree ▸ hfree) hnodup hknown hslots hframe howner hagrees
  | @declares d name hname hinit s =>
    refine ⟨ρ, σ, ?_, rfl, hagrees⟩
    rw [Task.eval, Declarator.eval, hname, hinit]
  | @evaluates task s t use e flow commands fx htask he =>
    cases htask with
    | @initializer d name _ hname hinit =>
      have hmem : name ∈ scope ++ (Task.declarator d).binds := by
        rw [Task.binds, hname]
        exact List.mem_append_right _ List.mem_cons_self
      have hslot : s.variableSlot name = L.slot name :=
        (s.resolve_variable name).symm.trans (hslots name hmem)
      rw [hslot] at he
      have hfits : L.Fits scope (s.withVariable name).toSurroundings :=
        .outside hframe howner (fun x hx => hknown x (List.mem_append_left _ hx))
          fun x hx => hslots x (List.mem_append_left _ hx)
      rw [Task.callFree, hinit] at hfree
      obtain ⟨value, ρ', σ', heval, hexecuted, hagrees'⟩ :=
        hfits.stored (I := I) hfree (hknown name hmem) he hagrees
      refine ⟨_, σ', ?_, hexecuted, hagrees'⟩
      rw [Task.eval, Declarator.eval, hname, hinit]
      show (e.eval I ρ).map _ = _
      rw [heval]
      rfl
    | expression line e =>
      have hfits : L.Fits scope s.toSurroundings :=
        .outside hframe howner (fun x hx => hknown x (List.mem_append_left _ hx))
          fun x hx => hslots x (List.mem_append_left _ hx)
      have hrootFree : e.unwrapped.callFree scope = true := (e.callFree_unwrapped scope).trans hfree
      obtain ⟨value, ρ', σ', heval, hexecuted, hagrees'⟩ := hfits.dropped (I := I) hrootFree he hagrees
      refine ⟨ρ', σ', ?_, hexecuted, hagrees'⟩
      show (e.eval I ρ).map _ = _
      rw [← e.eval_unwrapped, heval]
      rfl
    | _ => cases hfree
  | script hopens _ _ => cases hopens <;> cases hfree
  | _ => cases hfree

/-! ## Units -/

namespace Session

/-- The layout of a call-free unit: its variables, with the slots they have in the end. -/
def layout {u : CompilationUnit} (hfree : bodyCallFree [] u.statements = true) {s t : Session}
    {log : List Event} {out : Emitted Flow} (h : Runs (.stmts u.statements) s log out t) : Layout where
  frame := some u.context
  names := bodyBinds u.statements
  slot := t.symbols.resolve
  minted := (h.resolves (show (Task.stmts u.statements).callFree [] = true from hfree)).2.2

/-- **A call-free unit means what its script does.**  Executing the primary script over any store
leaves in the slot of every variable the value that the source gives the variable.  A variable that is
declared without a value starts with what its slot holds. -/
theorem meaning_preserved (I : Interpretation V) {s : Session} {u : CompilationUnit} {c : Compilation}
    (hfree : bodyCallFree [] u.statements = true) (hnodup : (bodyBinds u.statements).Nodup)
    (h : (s.compile u).1 = .ok c) (σ : Store V) :
    ∃ body σ' ρ', c.scripts[u.context]? = some body ∧ execute I body σ = some σ' ∧
      bodyEval I u.statements (fun x => σ (some u.context) ((s.compile u).2.identifierSlot x)) =
        some ρ' ∧
      ∀ x ∈ bodyBinds u.statements,
        σ' (some u.context) ((s.compile u).2.identifierSlot x) = ρ' x := by
  obtain ⟨out, t, hdeclared, hruns, rfl, hfinal⟩ := compile_ok h
  have huntouched := Untouched.statements hdeclared
  have hframe : (s.declared u).frame = some u.context := by
    rw [Surroundings.frame, huntouched.unit]
    rfl
  have howner : (s.declared u).scope.owner = none := by
    rw [huntouched.scope]
    rfl
  obtain ⟨hunit, hscope⟩ := hruns.place_eq
  -- the slots are those known after the unit
  have hslot : ∀ x, (s.compile u).2.identifierSlot x = (layout hfree hruns).slot x := by
    intro x
    have hlast : (t.withPrimary u.context out.commands).scope.owner = none := by
      rw [t.withPrimary_toSurroundings, hscope]
      exact howner
    have hresolve : (t.withPrimary u.context out.commands).symbols.resolve x = t.symbols.resolve x := by
      rw [t.withPrimary_toSurroundings]
    rw [hfinal]
    show (t.withPrimary u.context out.commands).identifierSlot x = _
    rw [Surroundings.identifierSlot_outside hlast]
    exact hresolve
  have hagrees : (layout hfree hruns).Agrees
      (fun x => σ (some u.context) ((s.compile u).2.identifierSlot x)) σ := by
    intro x hx
    show _ = σ (some u.context) ((s.compile u).2.identifierSlot x)
    rw [hslot]
    rfl
  obtain ⟨ρ', σ', heval, hexecuted, hagrees'⟩ := hruns.simulates I (layout hfree hruns) hfree hnodup
    (fun x hx => hx) (fun x hx => rfl) hframe howner hagrees
  refine ⟨_, σ', ρ', t.withPrimary_script u.context out.commands, ?_, heval, fun x hx => ?_⟩
  · refine execute_append_of I (execute_declarations I _ σ) ?_
    rw [execute_bracket]
    exact hexecuted
  · rw [hslot]
    exact hagrees' x hx

section Counting

/-- The whole number with the digits of a literal. -/
def wholeNumber (text : String) : Int := Nat.ofDigitChars 10 text.toList 0

def wholeCombine : Op → Int → Int → Int
  | .assign, _, b => b
  | .add, a, b => a + b
  | .sub, a, b => a - b
  | .mul, a, b => a * b
  | .div, a, b => a / b
  | .rem, a, b => a % b

def wholePower (a b : Int) : Int := (List.replicate b.toNat a).foldr (· * ·) 1

theorem wholePower_two (a : Int) : wholePower a (wholeNumber (literalText (.ofInt 2))) = a * a := by
  have htwo : (wholeNumber (literalText (.ofInt 2))).toNat = 2 := by decide +kernel
  rw [wholePower, htwo]
  show a * (a * 1) = a * a
  rw [Int.mul_one]

/-- Whole numbers, read off the digits of literals. -/
def integers : Interpretation Int where
  number x := wholeNumber (literalText x)
  boolean b := wholeNumber (if b then "1" else "0")
  literal := wholeNumber
  combine := wholeCombine
  power := wholePower
  literal_number _ := rfl
  literal_boolean _ := rfl
  combine_assign _ _ := rfl
  power_two := wholePower_two

/-- `let x = 3, y; { y = x++; (x **= 2); y += (x -= true); }` -/
def countingUnit : CompilationUnit where
  fileName := "main.ts"
  context := "main"
  statements :=
    let x : Expr := .identifier ⟨0, none⟩ "x"
    let y : Expr := .identifier ⟨0, none⟩ "y"
    [.bindings 0 [⟨.identifier "x", some (.number ⟨0, none⟩ (.ofInt 3)), 0⟩,
        ⟨.identifier "y", none, 0⟩],
      .block 0 [
        .expression 0 (.binary ⟨0, none⟩ y .assign (.unary ⟨0, none⟩ .increment .after x)),
        .expression 0 (.wrapped ⟨0, none⟩
          (.binary ⟨0, none⟩ x .powAssign (.number ⟨0, none⟩ (.ofInt 2)))),
        .expression 0 (.binary ⟨0, none⟩ y .addAssign
          (.wrapped ⟨0, none⟩ (.binary ⟨0, none⟩ x .subAssign (.boolean ⟨0, none⟩ true))))]]
  declCount := 0

theorem meaning_preserved_counting :
    ∃ c body σ', (compile {} countingUnit).1 = .ok c ∧ c.scripts["main"]? = some body ∧
      execute integers body (fun _ _ => 0) = some σ' ∧
      σ' (some "main") "x_1" = 15 ∧ σ' (some "main") "y_2" = 18 := by
  obtain ⟨c, hc⟩ : ∃ c, (compile {} countingUnit).1 = .ok c :=
    exists_compilation (by decide +kernel)
  have hx : (compile {} countingUnit).2.identifierSlot "x" = "x_1" := by decide +kernel
  have hy : (compile {} countingUnit).2.identifierSlot "y" = "y_2" := by decide +kernel
  have hvalues : (bodyEval integers countingUnit.statements fun _ => 0).map (fun ρ => (ρ "x", ρ "y")) =
      some (15, 18) := by decide +kernel
  obtain ⟨body, σ', ρ', hbody, hexecuted, heval, hvariables⟩ :=
    meaning_preserved integers (by decide) (by decide) hc fun _ _ => 0
  rw [heval] at hvalues
  obtain ⟨hx', hy'⟩ := Prod.mk.inj (Option.some.inj hvalues)
  refine ⟨c, body, σ', hc, hbody, hexecuted, ?_, ?_⟩
  · rw [← hx, ← hx']
    exact hvariables "x" (by decide)
  · rw [← hy, ← hy']
    exact hvariables "y" (by decide)

end Counting

end Session

end FrameScript
