/-
  Copying in is sequential.

  The values of a call are assigned to the parameter slots of the callee one after the other
  (`Lower.copyIn`).  As the slots are distinct, an assignment spoils no parameter that has its value
  already.  What it can spoil is a value that is still to come: inside of its own body the callee may
  pass its parameters on, and then an operand is the slot of a parameter.

  1. A parameter gets the value that its operand had before the call, unless the operand is the slot of
     an earlier parameter.
  2. If it is, the slot has its new value by then, so that both parameters end with the same one.

  `Receives` says both, and that no other register changes.  A call that permutes the parameters of the
  callee is the case where the second part shows (`parameter_lost`).
-/
import FrameScript.Proofs.Calls
import FrameScript.Proofs.Changes
import FrameScript.Proofs.Dangling
import FrameScript.Proofs.Invariants
import FrameScript.Proofs.Ledger
import FrameScript.Proofs.Meaning

namespace FrameScript

open Source

universe u

variable {V : Type u}

/-! ## Assignments in a row -/

/-- The slots of the parameters before the given one. -/
def slotsBefore (params : List ParamSlot) (i : Nat) : List String := (params.take i).map (·.slot)

/-- From one store to another, values were assigned to parameters in order. -/
structure Receives (I : Interpretation V) (frame : Frame) (params : List ParamSlot)
    (values : List Operand) (σ σ' : Store V) : Prop where
  fresh : ∀ (i : Nat) (param : ParamSlot) (v : Operand), params[i]? = some param →
    values[i]? = some v → (∀ r ∈ slotsBefore params i, v ≠ .slot r) →
    σ' frame param.slot = v.read I frame σ
  passedOn : ∀ (i : Nat) (param : ParamSlot) (r : String), params[i]? = some param →
    values[i]? = some (.slot r) → r ∈ slotsBefore params i → σ' frame param.slot = σ' frame r
  others : ∀ r ∉ params.map (·.slot), σ' frame r = σ frame r

theorem Lower.execute_assign (I : Interpretation V) (q : Surroundings) (slot : String) (v : Operand)
    (σ : Store V) :
    (Lower.assign q slot v).execute I σ = some (σ.put q.frame slot (v.read I q.frame σ)) := by
  cases v with
  | immediate text => rfl
  | slot register =>
    show some (σ.put q.frame slot (I.combine .assign _ _)) = _
    rw [I.combine_assign]
    rfl

/-- An operand that is another register keeps its value. -/
theorem Operand.read_put (I : Interpretation V) (frame : Frame) (σ : Store V) {slot : String} (x : V)
    {v : Operand} (h : v ≠ .slot slot) : v.read I frame (σ.put frame slot x) = v.read I frame σ := by
  cases v with
  | immediate text => rfl
  | slot register => exact Store.put_other σ frame x fun heq => h (congrArg _ heq)

/-- The first parameter is assigned, then the others. -/
theorem Receives.cons {I : Interpretation V} {frame : Frame} {param : ParamSlot}
    {params : List ParamSlot} {v : Operand} {values : List Operand} {σ σ' : Store V}
    (hnew : param.slot ∉ params.map (·.slot))
    (h : Receives I frame params values (σ.put frame param.slot (v.read I frame σ)) σ') :
    Receives I frame (param :: params) (v :: values) σ σ' := by
  have hfirst : σ' frame param.slot = v.read I frame σ :=
    (h.others _ hnew).trans (Store.put_self _ _ _ _)
  refine ⟨fun i p w hp hw hbefore => ?_, fun i p r hp hr hbefore => ?_, fun r hr => ?_⟩
  · cases i with
    | zero =>
      cases hp
      cases hw
      exact hfirst
    | succ i =>
      have hother : w ≠ .slot param.slot := hbefore _ List.mem_cons_self
      have hrest := h.fresh i p w hp hw fun r hr => hbefore r (List.mem_cons_of_mem _ hr)
      exact hrest.trans (Operand.read_put I frame σ _ hother)
  · cases i with
    | zero => exact absurd hbefore List.not_mem_nil
    | succ i =>
      by_cases hlater : r ∈ slotsBefore params i
      · exact h.passedOn i p r hp hr hlater
      · -- the operand is the slot of the first parameter
        obtain rfl : r = param.slot := (List.mem_cons.mp hbefore).resolve_right hlater
        have hrest := h.fresh i p (.slot param.slot) hp hr fun r hr heq => by
          cases heq
          exact hlater hr
        exact hrest.trans (h.others _ hnew).symm
  · rw [List.map_cons, List.mem_cons, not_or] at hr
    exact (h.others r hr.2).trans (Store.put_other _ _ _ hr.1)

/-- **What copying in does** to distinct slots. -/
theorem Lower.copyIn_receives (I : Interpretation V) (q : Surroundings) {params : List ParamSlot}
    (hnodup : (params.map (·.slot)).Nodup) (values : List Operand) (σ : Store V) :
    ∃ σ', execute I (Lower.copyIn q params values) σ = some σ' ∧
      Receives I q.frame params values σ σ' := by
  induction params generalizing values σ with
  | nil => exact ⟨σ, rfl, nofun, nofun, fun r _ => rfl⟩
  | cons param params ih =>
    cases values with
    | nil => exact ⟨σ, rfl, nofun, nofun, fun r _ => rfl⟩
    | cons v values =>
      obtain ⟨hnew, hnodup'⟩ := List.nodup_cons.mp hnodup
      obtain ⟨σ', hexecuted, hreceives⟩ :=
        ih hnodup' values (σ.put q.frame param.slot (v.read I q.frame σ))
      refine ⟨σ', ?_, hreceives.cons hnew⟩
      show ((Lower.assign q param.slot v).execute I σ).bind _ = _
      rw [Lower.execute_assign]
      exact hexecuted

/-! ## Slots are distinct -/

/-- The slots of every callable are distinct. -/
def DeclTable.SlotsDistinct (t : DeclTable) : Prop :=
  ∀ id k, t.callable? id = some k → k.slots.Nodup

namespace DeclTable.SlotsDistinct

variable {s t : Session}

theorem recorded (h : s.decls.SlotsDistinct) (id : DeclId) {d : Declaration}
    (hd : ∀ k, d = .callable k → k.slots.Nodup) : (s.recorded id d).decls.SlotsDistinct := by
  intro i k hk
  rcases Session.recorded_callable_cases hk with heq | hold
  · exact hd k heq
  · exact h i k hold

theorem withCallable (h : s.decls.SlotsDistinct) (id : DeclId) {k : Callable} {r : Session}
    {script : String} {f : FunctionDecl} (hk : k.MadeOf r script f) :
    (s.withCallable id k).decls.SlotsDistinct := by
  refine recorded (s := s.counted k.slots.length) h id fun k' heq => ?_
  cases heq
  exact hk.mints.nodup

theorem named (h : s.decls.SlotsDistinct) (name : Option String) :
    (s.named name).2.decls.SlotsDistinct := by
  rw [s.named_decls]
  exact h

theorem members {info info' : ClassInfo} {ms : List Member}
    (hdeclared : MembersDeclared info s ms info' t) (h : s.decls.SlotsDistinct) :
    t.decls.SlotsDistinct := by
  induction hdeclared with
  | nil info s => exact h
  | @cons info info' info'' s t u m rest hfirst _ ih =>
    refine ih ?_
    cases hfirst with
    | method isStatic k hname hbody hk => exact withCallable (s := s.registered _) h _ hk
    | constructor k hbody hk => exact withCallable h _ hk
    | property p => exact h
    | nothing m _ _ _ => exact h

theorem invariant : Surroundings.Invariant fun q => q.decls.SlotsDistinct where
  withVariable s name h := h
  function {s t f} hdeclared h := by
    cases hdeclared with
    | known _ => exact h
    | fresh k _ _ hk => exact withCallable (s := (s.named f.name).2.registered _) (h.named f.name) _ hk
  classDef {s t c} hdeclared h := by
    cases hdeclared with
    | known _ => exact h
    | fresh _ _ hmembers => exact recorded (members hmembers (h.named c.name)) _ nofun
  opened s scope slots h := h
  closed _ ht := ht

end DeclTable.SlotsDistinct

/-- Wherever an expression of a unit is lowered, slots are distinct. -/
theorem Session.lowers_slotsDistinct {s : Session} {u : CompilationUnit} {c : Compilation}
    (hcompile : (s.compile u).1 = .ok c) {q : Surroundings} {e : Expr} (hq : .lowers q e ∈ s.log u) :
    q.decls.SlotsDistinct := by
  have himports : ∀ (symbols : List Symbol) (t : Session), t.decls.SlotsDistinct →
      (t.registeredAll symbols).decls.SlotsDistinct := by
    intro symbols
    induction symbols with
    | nil => exact fun t ht => ht
    | cons symbol rest ih => exact fun t ht => ih (t.registered symbol) ht
  refine lowers_keeps DeclTable.SlotsDistinct.invariant hcompile (fun id k hk => ?_)
    (fun t line i _ ht => himports _ t ht) hq
  rw [DeclTable.callable?_none (s.begin_free u id)] at hk
  cases hk

/-! ## Calls -/

namespace Surroundings

variable {q : Surroundings} {m : Mark} {callee : Expr} {args : List Expr}

theorem target?_call {head : Callee} (h : Lower.namedCallee? q callee = .ok (some head)) :
    q.target? (.call m callee args) = head.decl := by
  rw [target?, h]

theorem target?_construct {mark : Mark} {name : String}
    (h : callee.unwrapped = .identifier mark name) :
    q.target? (.construct m callee args) = q.constructorDecl? name := by
  rw [target?, h]

end Surroundings

/-- A call whose target is known settles its arguments, copies them into the parameter slots of the
target and runs its script; it warns of arguments that no parameter takes. -/
theorem Lower.target_commands {q : Surroundings} {e : Expr} {id : DeclId} {k : Callable}
    (htarget : q.target? e = some id) (hk : q.decls.callable? id = some k) {fx hx : Effects}
    {out : Emitted (Option Operand)} (hrun : (Lower.expr q e).run fx = (.ok out, hx)) :
    ∃ arguments gx path, (Lower.values q e.arguments).run fx = (.ok arguments, gx) ∧
      out.commands = (Lower.settle q arguments gx).1.commands ++
        Lower.copyIn q k.params (Lower.settle q arguments gx).1.value ++ [.invoke path] ∧
      hx = Lower.callEffects q e.line path k arguments gx := by
  -- what is looked up for the call is the target
  have hfound : ∀ {decl : Option DeclId}, q.target? e = decl → decl.bind q.decls.callable? = some k := by
    rintro decl rfl
    rw [htarget]
    exact hk
  cases Lower.lowered_of_run hrun with
  | callKnown _ hnamed hknown hargs =>
    cases hknown.symm.trans (hfound (Surroundings.target?_call hnamed))
    exact ⟨_, _, _, hargs, rfl, rfl⟩
  | callUnknown _ hnamed hunknown _ =>
    cases hunknown.symm.trans (hfound (Surroundings.target?_call hnamed))
  | callComputed _ hnamed _ _ =>
    rw [Surroundings.target?, hnamed] at htarget
    cases htarget
  | constructKnown _ hname hknown hargs =>
    cases hknown.symm.trans (hfound (Surroundings.target?_construct hname))
    exact ⟨_, _, _, hargs, rfl, rfl⟩
  | constructUnknown _ hname hunknown _ =>
    cases hunknown.symm.trans (hfound (Surroundings.target?_construct hname))
  | _ => cases htarget

namespace Session

/-- **What the parameters of a call receive.**  A call, `super(...)` or `new` somewhere in a compiled
unit goes to a known callable.  After its arguments the commands are assignments of their values to the
parameter slots, then the jump.  From any store these assignments give a parameter the value that its
operand had before the first of them, unless the operand is the slot of an earlier parameter; then the
parameter ends with the new value of that one.  No other register is changed. -/
theorem parameters_receive (I : Interpretation V) {s : Session} {u : CompilationUnit} {c : Compilation}
    (hcompile : (s.compile u).1 = .ok c) {q : Surroundings} {e₀ e : Expr} {id : DeclId} {k : Callable}
    (hq : .lowers q e₀ ∈ s.log u) (htarget : q.target? e = some id)
    (hk : q.decls.callable? id = some k) {fx hx : Effects} {out : Emitted (Option Operand)}
    (hrun : (Lower.expr q e).run fx = (.ok out, hx)) :
    ∃ arguments gx path, (Lower.values q e.arguments).run fx = (.ok arguments, gx) ∧
      out.commands = (Lower.settle q arguments gx).1.commands ++
        Lower.copyIn q k.params (Lower.settle q arguments gx).1.value ++ [.invoke path] ∧
      ∀ σ : Store V, ∃ σ',
        execute I (Lower.copyIn q k.params (Lower.settle q arguments gx).1.value) σ = some σ' ∧
        Receives I q.frame k.params (Lower.settle q arguments gx).1.value σ σ' := by
  obtain ⟨arguments, gx, path, hargs, hcommands, -⟩ := Lower.target_commands htarget hk hrun
  have hslots : k.slots.Nodup := lowers_slotsDistinct hcompile hq id k hk
  have hparams : (k.params.map (·.slot)).Nodup := hslots.sublist (List.sublist_append_left _ _)
  exact ⟨arguments, gx, path, hargs, hcommands, Lower.copyIn_receives I q hparams _⟩

/-! A function that calls itself with its parameters in the other order. -/

/-- `function f(a, b) { f(b, a) }` -/
def swappingDocument : Json.Value :=
  .object [("statements", .array [namedNode "FunctionDeclaration" "f" [
    ("parameters", .array [.object [("name", .string "a")], .object [("name", .string "b")]]),
    ("body", .array [.object [("kind", .string "ExpressionStatement"), ("expression", .object [
      ("kind", .string "CallExpression"), ("expression", namedNode "Identifier" "f" []),
      ("arguments", .array [namedNode "Identifier" "b" [], namedNode "Identifier" "a" []])])]])]])]

/-- Its call. -/
def swappingCall : Expr :=
  .call ⟨0, none⟩ (.identifier ⟨0, none⟩ "f")
    [.identifier ⟨0, none⟩ "b", .identifier ⟨0, none⟩ "a"]

/-- The unit of the document. -/
def swappingUnit : CompilationUnit where
  fileName := "main.ts"
  context := "main"
  statements := [.function ⟨0, some "f",
    [⟨.identifier "a", false, none, 0⟩, ⟨.identifier "b", false, none, 0⟩],
    some [.expression 0 swappingCall], false, 0⟩]
  declCount := 1

/-- What is recorded for `f`. -/
def swappingCallable : Callable where
  script := "f"
  path := "main/f"
  params := [⟨some "a", "a_1"⟩, ⟨some "b", "b_2"⟩]
  returnSlot := none

/-- Where the call is lowered. -/
def swappingSession : Session := (declared {} swappingUnit).opened ⟨some 0, none⟩ swappingCallable.slots

/-- Both parameters end with the value of the second one. -/
theorem parameters_receive_swapped :
    ∃ out hx copies, (Lower.expr swappingSession.toSurroundings swappingCall).run
        swappingSession.toEffects = (.ok out, hx) ∧ out.commands = copies ++ [.invoke "main/f"] ∧
      copies = [.operation (some "main") "a_1" .assign "b_2",
        .operation (some "main") "b_2" .assign "a_1"] ∧
      ∀ σ : Store Int, ∃ σ', execute integers copies σ = some σ' ∧
        σ' (some "main") "a_1" = σ (some "main") "b_2" ∧
        σ' (some "main") "b_2" = σ (some "main") "b_2" := by
  obtain ⟨c, hc⟩ : ∃ c, (compile {} swappingUnit).1 = .ok c :=
    exists_compilation (by decide +kernel)
  have hlog : log {} swappingUnit = [.hoists 0,
      .lowers swappingSession.toSurroundings swappingCall] := rfl
  have htarget : swappingSession.toSurroundings.target? swappingCall = some 0 := by decide +kernel
  have hk : swappingSession.decls.callable? 0 = some swappingCallable := by decide +kernel
  obtain ⟨out, hx, hrun, hout⟩ : ∃ out hx,
      (Lower.expr swappingSession.toSurroundings swappingCall).run swappingSession.toEffects =
        (.ok out, hx) ∧
      out.commands = [.operation (some "main") "a_1" .assign "b_2",
        .operation (some "main") "b_2" .assign "a_1"] ++ [.invoke "main/f"] := ⟨_, _, rfl, rfl⟩
  have hvalues : (Lower.values swappingSession.toSurroundings swappingCall.arguments).run
      swappingSession.toEffects =
        (.ok [⟨[], .slot "b_2"⟩, ⟨[], .slot "a_1"⟩], swappingSession.toEffects) := rfl
  obtain ⟨arguments, gx, path, hargs, -, hreceives⟩ := parameters_receive integers hc
    (hlog ▸ List.mem_cons_of_mem _ List.mem_cons_self) htarget hk hrun
  cases hargs.symm.trans hvalues
  refine ⟨out, hx, _, hrun, hout, rfl, fun σ => ?_⟩
  obtain ⟨σ', hexecuted, hfresh, hpassed, -⟩ := hreceives σ
  have ha : σ' (some "main") "a_1" = σ (some "main") "b_2" :=
    hfresh 0 ⟨some "a", "a_1"⟩ (.slot "b_2") rfl rfl (by decide)
  have hb : σ' (some "main") "b_2" = σ' (some "main") "a_1" :=
    hpassed 1 ⟨some "b", "b_2"⟩ "a_1" rfl rfl (by decide)
  exact ⟨σ', hexecuted, ha, hb.trans ha⟩

/-- **Copying in is no simultaneous assignment**: the second parameter does not receive the value that
its operand had. -/
theorem parameter_lost :
    ∃ arguments gx, Document.load swappingDocument "main.ts" = .ok swappingUnit ∧
      .lowers swappingSession.toSurroundings swappingCall ∈ log {} swappingUnit ∧
      swappingSession.toSurroundings.target? swappingCall = some 0 ∧
      swappingSession.decls.callable? 0 = some swappingCallable ∧
      (Lower.values swappingSession.toSurroundings swappingCall.arguments).run
        swappingSession.toEffects = (.ok arguments, gx) ∧
      ∃ (i : Nat) (param : ParamSlot) (v : Operand) (σ σ' : Store Int),
        swappingCallable.params[i]? = some param ∧
        (Lower.settle swappingSession.toSurroundings arguments gx).1.value[i]? = some v ∧
        execute integers (Lower.copyIn swappingSession.toSurroundings swappingCallable.params
          (Lower.settle swappingSession.toSurroundings arguments gx).1.value) σ = some σ' ∧
        σ' (some "main") param.slot ≠ v.read integers (some "main") σ := by
  have hload : Document.load swappingDocument "main.ts" = .ok swappingUnit := rfl
  have hlog : log {} swappingUnit = [.hoists 0,
      .lowers swappingSession.toSurroundings swappingCall] := rfl
  refine ⟨_, _, hload, hlog ▸ List.mem_cons_of_mem _ List.mem_cons_self, by decide +kernel,
    by decide +kernel, rfl, 1, ⟨some "b", "b_2"⟩, .slot "a_1",
    fun _ r => if r = "a_1" then 1 else 2, _, rfl, rfl, rfl, ?_⟩
  show (2 : Int) ≠ 1
  decide

end Session

end FrameScript
