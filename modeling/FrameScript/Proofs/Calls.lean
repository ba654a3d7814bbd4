/-
  Caller and callee agree.

  A call copies its arguments into registers and jumps; the script it jumps to declares registers
  and reads them.  Nothing but the record of the callable ties the two sides together.  The caller
  may see it before the body was lowered, after, or while it is being lowered; since a record is
  written once and symbols agree with records, both sides use the same slots.

  `Passes` describes what happens to the values of the arguments, without reference to how it is
  computed: they are evaluated in order, and each is passed from where it lives, or from a register
  of its own if a later argument emits commands that could change it.
-/
import FrameScript.Proofs.Units

namespace FrameScript

open Source

/-! ## Passing arguments -/

/-- The commands that evaluate some arguments, and the operands that their values are passed from.
Copies are made into the anonymous registers that come after the first `n`. -/
inductive Passes (q : Surroundings) : Nat → List (Emitted Operand) → List Command → List Operand →
    Prop where
  | nil (n : Nat) : Passes q n [] [] []
  | kept {n : Nat} {argument : Emitted Operand} {rest : List (Emitted Operand)}
      {commands : List Command} {values : List Operand}
      (hsafe : (∃ text, argument.value = .immediate text) ∨ ∀ later ∈ rest, later.commands = [])
      (hrest : Passes q n rest commands values) :
      Passes q n (argument :: rest) (argument.commands ++ commands) (argument.value :: values)
  | copied {n : Nat} {argument : Emitted Operand} {register : String}
      {rest : List (Emitted Operand)} {commands : List Command} {values : List Operand}
      (hslot : argument.value = .slot register) (hrest : Passes q (n + 1) rest commands values) :
      Passes q n (argument :: rest)
        (argument.commands ++ [Lower.operate q (mintedRegister (n + 1)) .assign register] ++ commands)
        (.slot (mintedRegister (n + 1)) :: values)

theorem Lower.settle_passes (q : Surroundings) (arguments : List (Emitted Operand)) (fx : Effects) :
    Passes q fx.allocator.registers arguments (settle q arguments fx).1.commands
      (settle q arguments fx).1.value := by
  induction arguments generalizing fx with
  | nil => exact .nil _
  | cons argument rest ih =>
    rw [settle_cons]
    dsimp only
    rcases protect_cases q argument rest fx with ⟨hkept, hsafe⟩ | ⟨register, hslot, hkept⟩
    · rw [hkept]
      dsimp only
      rw [List.append_nil]
      exact .kept hsafe (ih fx)
    · rw [hkept]
      exact .copied hslot (ih fx.scratched)

/-! ## Targets -/

/-- The arguments of a call or of `new`. -/
def Source.Expr.arguments : Expr → List Expr
  | .call _ _ arguments => arguments
  | .construct _ _ arguments => arguments
  | _ => []

/-- The declaration that a call, `super(...)` or `new` goes to, if it is one of the unit. -/
def Surroundings.target? (q : Surroundings) : Expr → Option DeclId
  | .call _ callee _ =>
    match Lower.namedCallee? q callee with
    | .ok (some head) => head.decl
    | _ => none
  | .construct _ callee _ =>
    match callee.unwrapped with
    | .identifier _ name => q.constructorDecl? name
    | _ => none
  | _ => none

/-- The register that the value of a call is in; the value of `new` is in none. -/
def Source.Expr.resultOf : Expr → Callable → Option Operand
  | .construct .., _ => none
  | _, k => k.returnSlot.map .slot

/-- The ways in which the callee of `object.name(...)` is found. -/
theorem Surroundings.methodCallee_ok {q : Surroundings} {object : Expr} {name : String}
    {head : Callee} (h : q.methodCallee object name = .ok head) :
    (∃ owner, q.ownedCallee? owner name = some head) ∨
      (∃ module, q.namespace? object = some module ∧
        head = { path := FrameScript.qualify module name }) ∨
      head = { path := q.symbols.resolve name } := by
  unfold methodCallee at h
  cases howner : q.memberOwner? object with
  | error e =>
    rw [howner] at h
    cases h
  | ok owner =>
    rw [howner] at h
    dsimp only [bind, Except.bind] at h
    split at h
    · next callee hcallee =>
      obtain ⟨name', -, hfound⟩ := Option.bind_eq_some_iff.mp hcallee
      cases h
      exact .inl ⟨name', hfound⟩
    · split at h
      · next module hmodule =>
        cases h
        exact .inr (.inl ⟨module, hmodule, rfl⟩)
      · cases h
        exact .inr (.inr rfl)

theorem initScript_qualify (context name : String) :
    initScript (qualify context name) = qualify context (initScript name) := by
  simp only [initScript, qualify, String.append_assoc]

namespace Naming

variable {N : Naming} {q : Surroundings}

/-- A class symbol has the path of the class recorded for it. -/
theorem Sound.class_eq {T : DeclTable} {symbol : Symbol} (h : N.Sound T symbol)
    (hkind : symbol.kind = .classDef) :
    ∃ id info, symbol.decl = some id ∧ T.class? id = some info ∧
      symbol.path = FrameScript.qualify N.context info.name := by
  cases h with
  | slot name _ hslot => rcases hslot with rfl | rfl <;> cases hkind
  | imported bound _ _ => cases hkind
  | namespaceName bound _ => cases hkind
  | callable name _ hcallable => rcases hcallable with rfl | rfl | rfl <;> cases hkind
  | classDef name hinfo => exact ⟨_, _, rfl, hinfo, rfl⟩

/-- A symbol whose declaration is a callable has the path of that callable. -/
theorem Sound.callable_eq {T T' : DeclTable} (hsub : T.Sub T') {symbol : Symbol}
    (h : N.Sound T symbol) {id : DeclId} {k : Callable} (hdecl : symbol.decl = some id)
    (hk : T'.callable? id = some k) :
    T.callable? id = some k ∧ symbol.path = FrameScript.qualify N.context k.script := by
  cases h with
  | slot name _ _ => cases hdecl
  | imported bound _ _ => cases hdecl
  | namespaceName bound _ => cases hdecl
  | callable name hk' _ =>
    cases hdecl
    obtain rfl := Option.some.inj ((hsub.callable hk').symm.trans hk)
    exact ⟨hk', rfl⟩
  | classDef name hinfo =>
    -- the same id cannot be recorded as a class
    cases hdecl
    have hclass := hsub.classInfo hinfo
    unfold DeclTable.class? at hclass
    unfold DeclTable.callable? at hk
    split at hk
    · next hcallable =>
      rw [hcallable] at hclass
      cases hclass
    · cases hk

/-- The constructor of a class is recorded with the script that `new` invokes. -/
theorem Coherent.constructor_eq (h : N.Coherent q) {className : String} {id : DeclId}
    (hid : q.constructorDecl? className = some id) :
    ∃ k, q.decls.callable? id = some k ∧
      (q.constructorCallee className).path = FrameScript.qualify N.context k.script := by
  unfold Surroundings.constructorDecl? at hid
  obtain ⟨symbol, hsymbol, hid⟩ := Option.bind_eq_some_iff.mp hid
  obtain ⟨_, hguard, hid⟩ := Option.bind_eq_some_iff.mp hid
  obtain ⟨c, hdecl, hid⟩ := Option.bind_eq_some_iff.mp hid
  obtain ⟨info, hinfo, hid⟩ := Option.bind_eq_some_iff.mp hid
  have hkind : symbol.kind = .classDef := by
    by_contra hne
    rw [guard, if_neg hne] at hguard
    cases hguard
  obtain ⟨c', info', hdecl', hinfo', hpath⟩ := (h.symbols.lookup hsymbol).class_eq hkind
  obtain rfl : c = c' := Option.some.inj (hdecl.symm.trans hdecl')
  obtain rfl : info = info' := Option.some.inj (hinfo.symm.trans hinfo')
  have hrecord : q.decls[c]? = some (.classInfo info) := by
    unfold DeclTable.class? at hinfo
    split at hinfo
    · next heq => rw [heq, Option.some.inj hinfo]
    · cases hinfo
  obtain ⟨k, hk, hscript⟩ := (h.records c _ hrecord).2 id hid
  refine ⟨k, hk, ?_⟩
  rw [hscript, ← initScript_qualify, ← hpath]
  show initScript (q.symbols.resolve className) = _
  rw [SymbolTable.resolve, hsymbol]

/-- Where a named callee has a declaration, it comes from a symbol or is a constructor. -/
theorem Coherent.named_eq (h : N.Coherent q) {T : DeclTable} (hsub : q.decls.Sub T) {callee : Expr}
    {head : Callee} (hnamed : Lower.namedCallee? q callee = .ok (some head)) {id : DeclId}
    (hid : head.decl = some id) {k : Callable} (hk : T.callable? id = some k) :
    q.decls.callable? id = some k ∧ head.path = FrameScript.qualify N.context k.script := by
  -- a symbol that was found
  have hsymbol : ∀ {name : String} {symbol : Symbol}, q.symbols.lookup name = some symbol →
      symbol.decl = some id →
      q.decls.callable? id = some k ∧ symbol.path = FrameScript.qualify N.context k.script :=
    fun hlookup hdecl => (h.symbols.lookup hlookup).callable_eq hsub hdecl hk
  unfold Lower.namedCallee? at hnamed
  split at hnamed
  · -- `super`
    cases hparent : q.parentClass _ with
    | error e =>
      rw [hparent] at hnamed
      cases hnamed
    | ok parent =>
      rw [hparent] at hnamed
      cases hnamed
      obtain ⟨k', hk', hpath⟩ := h.constructor_eq hid
      obtain rfl : k' = k := Option.some.inj ((hsub.callable hk').symm.trans hk)
      exact ⟨hk', hpath⟩
  · -- a method
    next object name _ =>
    cases hmethod : q.methodCallee object name with
    | error e =>
      rw [hmethod] at hnamed
      cases hnamed
    | ok callee =>
      rw [hmethod] at hnamed
      cases hnamed
      rcases Surroundings.methodCallee_ok hmethod with ⟨owner, hfound⟩ | ⟨module, -, rfl⟩ | rfl
      · unfold Surroundings.ownedCallee? at hfound
        split at hfound
        · next symbol hlookup =>
          cases hfound
          exact hsymbol hlookup hid
        · split at hfound <;> cases hfound
          cases hid
      · cases hid
      · cases hid
  · -- a function
    next name _ =>
    cases hnamed
    unfold Surroundings.functionCallee at hid ⊢
    split at hid
    · cases hid
    · split at hid
      · next hlookup => exact hsymbol hlookup hid
      · cases hid
  · cases hnamed

end Naming

/-! ## Calls of a unit -/

/-- What a call emits, given what is recorded for its target: the arguments are evaluated, their
values copied into the slots of the parameters in order, and the script is invoked. -/
structure CallsInto (q : Surroundings) (e : Expr) (fx : Effects) (context : String) (k : Callable)
    (out : Emitted (Option Operand)) : Prop where
  commands : ∃ arguments gx commands values,
    (Lower.values q e.arguments).run fx = (.ok arguments, gx) ∧
    Passes q gx.allocator.registers arguments commands values ∧
    out.commands = commands ++
      (k.params.zip values).map (fun (param, value) => Lower.assign q param.slot value) ++
      [.invoke (qualify context k.script)]
  value : out.value = e.resultOf k

/-- A call whose target is recorded in the end is lowered by that record. -/
theorem Naming.Coherent.callsInto {N : Naming} {q : Surroundings} (h : N.Coherent q) {T : DeclTable}
    (hsub : q.decls.Sub T) {e : Expr} {id : DeclId} (htarget : q.target? e = some id) {k : Callable}
    (hk : T.callable? id = some k) {fx gx : Effects} {out : Emitted (Option Operand)}
    (hrun : (Lower.expr q e).run fx = (.ok out, gx)) : CallsInto q e fx N.context k out := by
  cases Lower.lowered_of_run hrun with
  | @callKnown m callee args head callable arguments _ gx hnamed hknown hargs =>
    rw [Surroundings.target?, hnamed] at htarget
    obtain ⟨hk', hpath⟩ := h.named_eq hsub hnamed htarget hk
    have hdecl : head.decl = some id := htarget
    rw [hdecl, Option.bind_some, hk'] at hknown
    obtain rfl := Option.some.inj hknown
    refine ⟨⟨arguments, gx, _, _, hargs, Lower.settle_passes q arguments gx, ?_⟩, rfl⟩
    rw [Lower.callCommands, hpath]
    rfl
  | @callUnknown m callee args head arguments _ gx hnamed hunknown hargs =>
    -- a recorded target is known
    rw [Surroundings.target?, hnamed] at htarget
    obtain ⟨hk', -⟩ := h.named_eq hsub hnamed htarget hk
    have hdecl : head.decl = some id := htarget
    rw [hdecl, Option.bind_some, hk'] at hunknown
    cases hunknown
  | callComputed m hnamed _ _ =>
    rw [Surroundings.target?, hnamed] at htarget
    cases htarget
  | @constructKnown m callee args mark name callable arguments _ gx hname hknown hargs =>
    rw [Surroundings.target?, hname] at htarget
    obtain ⟨k', hk', hpath⟩ := h.constructor_eq htarget
    have hdecl : q.constructorDecl? name = some id := htarget
    obtain rfl : k' = k := Option.some.inj ((hsub.callable hk').symm.trans hk)
    rw [hdecl, Option.bind_some, hk'] at hknown
    obtain rfl := Option.some.inj hknown
    refine ⟨⟨arguments, gx, _, _, hargs, Lower.settle_passes q arguments gx, ?_⟩, rfl⟩
    rw [Lower.callCommands, hpath]
    rfl
  | @constructUnknown m callee args mark name arguments _ gx hname hunknown hargs =>
    rw [Surroundings.target?, hname] at htarget
    obtain ⟨k', hk', -⟩ := h.constructor_eq htarget
    have hdecl : q.constructorDecl? name = some id := htarget
    rw [hdecl, Option.bind_some, hk'] at hunknown
    cases hunknown
  | _ => cases htarget

namespace Session

/-- **Caller and callee agree on slots.**  A unit is loaded and compiled; somewhere in it a call,
`super(...)` or `new` goes to a declaration whose body is reached.  Then there is one record that
both sides follow: the call passes its arguments into the parameter slots of the record, invokes its
script and takes its return slot for its value, and, unless the script was produced twice, the
script begins by declaring just these slots, those of the parameters in order and then that of the
result. -/
theorem calls_agree {document : Json.Value} {fallback : String} {u : CompilationUnit}
    (hload : Document.load document fallback = .ok u) {s : Session} {c : Compilation}
    (hcompile : (s.compile u).1 = .ok c) {q : Surroundings} {e₀ e : Expr} {id : DeclId}
    (hq : .lowers q e₀ ∈ s.log u) (htarget : q.target? e = some id) (hreached : .hoists id ∈ s.log u)
    {fx gx : Effects} {out : Emitted (Option Operand)}
    (hrun : (Lower.expr q e).run fx = (.ok out, gx)) :
    ∃ k, (s.compile u).2.decls.callable? id = some k ∧ CallsInto q e fx u.context k out ∧
      ((∀ w ∈ c.warnings, w.message ≠ producedTwice k.script) →
        ∃ rest, c.scripts[k.script]? =
          some (k.params.map (fun param => .declare param.slot) ++
            (k.returnSlot.map .declare).toList ++ rest)) := by
  have hids := Document.load_nodup hload
  obtain ⟨body, t, hdeclared, hruns, rfl, hfinal⟩ := compile_ok hcompile
  have hfit := declared_fit hids hdeclared
  have hcoherent := declared_coherent hids hdeclared (.any u.context) rfl (fun _ _ => trivial)
    (fun _ _ _ => trivial)
  have hsees := (hruns.coherent hfit (fun _ _ => trivial) hcoherent).2 q e₀ hq
  have hdecls := t.withPrimary_decls u.context body.commands
  obtain ⟨k, hk, hscript⟩ := (hruns.hoisted hfit hreached).mono
    (t.withPrimary_retains u.context body.commands) (hdecls.symm ▸ .refl _)
  refine ⟨k, ?_, ?_, fun honce => ?_⟩
  · rw [hfinal]
    exact hk
  · rw [hdecls] at hk
    exact hsees.coherent.callsInto hsees.sub htarget hk hrun
  · rcases hscript with ⟨w, hw, hmessage⟩ | ⟨rest, hrest⟩
    · exact absurd hmessage (honce w hw)
    · refine ⟨rest, hrest.trans ?_⟩
      rw [Callable.slots, declarations, List.map_append, List.map_map]
      cases k.returnSlot <;> rfl

/-! A call before the declaration, with a call among its arguments. -/

/-- `f(1, f(2, 3)); function f(a, b) { return b }` -/
def forwardDocument : Json.Value :=
  let number (n : Int) : Json.Value :=
    .object [("kind", .string "NumericLiteral"), ("value", .number (.integer n))]
  let f : Json.Value := .object [("kind", .string "Identifier"), ("name", .string "f")]
  let call (arguments : List Json.Value) : Json.Value :=
    .object [("kind", .string "CallExpression"), ("expression", f), ("arguments", .array arguments)]
  .object [("statements", .array [
    .object [("kind", .string "ExpressionStatement"),
      ("expression", call [number 1, call [number 2, number 3]])],
    .object [("kind", .string "FunctionDeclaration"), ("name", .string "f"),
      ("parameters", .array [.object [("name", .string "a")], .object [("name", .string "b")]]),
      ("body", .array [.object [("kind", .string "ReturnStatement"),
        ("expression", .object [("kind", .string "Identifier"), ("name", .string "b")])]])]])]

/-- Its call. -/
def forwardCall : Expr :=
  .call ⟨0, none⟩ (.identifier ⟨0, none⟩ "f") [.number ⟨0, none⟩ (.ofInt 1),
    .call ⟨0, none⟩ (.identifier ⟨0, none⟩ "f")
      [.number ⟨0, none⟩ (.ofInt 2), .number ⟨0, none⟩ (.ofInt 3)]]

def forwardUnit : CompilationUnit where
  fileName := "main.ts"
  context := "main"
  statements := [.expression 0 forwardCall,
    .function ⟨0, some "f", [⟨.identifier "a", false, none, 0⟩, ⟨.identifier "b", false, none, 0⟩],
      some [.returning 0 (some (.identifier ⟨0, none⟩ "b"))], false, 0⟩]
  declCount := 1

/-- Where the call is lowered. -/
def forwardSession : Session := declared {} forwardUnit

/-- What is recorded for `f`. -/
def forwardCallable : Callable where
  script := "f"
  path := "main/f"
  params := [⟨some "a", "a_1"⟩, ⟨some "b", "b_2"⟩]
  returnSlot := some "f_return_3"

theorem calls_agree_forward :
    ∃ c out gx, (compile {} forwardUnit).1 = .ok c ∧
      (Lower.expr forwardSession.toSurroundings forwardCall).run forwardSession.toEffects =
        (.ok out, gx) ∧
      CallsInto forwardSession.toSurroundings forwardCall forwardSession.toEffects "main"
        forwardCallable out ∧
      ∃ rest, c.scripts["f"]? =
        some ([.declare "a_1", .declare "b_2", .declare "f_return_3"] ++ rest) := by
  have hload : Document.load forwardDocument "main.ts" = .ok forwardUnit := rfl
  have hlog : log {} forwardUnit = .lowers forwardSession.toSurroundings forwardCall :: .hoists 0 ::
      (log {} forwardUnit).drop 2 := rfl
  have htarget : forwardSession.toSurroundings.target? forwardCall = some 0 := by decide +kernel
  have hrecord : (compile {} forwardUnit).2.decls.callable? 0 = some forwardCallable := by
    decide +kernel
  obtain ⟨c, hc⟩ : ∃ c, (compile {} forwardUnit).1 = .ok c :=
    exists_compilation (by decide +kernel)
  obtain ⟨out, gx, hrun⟩ : ∃ out gx, (Lower.expr forwardSession.toSurroundings forwardCall).run
      forwardSession.toEffects = (.ok out, gx) := ⟨_, _, rfl⟩
  have hwarnings : (compile {} forwardUnit).1.toOption.map (·.warnings) = some [] := by decide +kernel
  rw [hc] at hwarnings
  have hnone : c.warnings = [] := Option.some.inj hwarnings
  obtain ⟨k, hk, hcall, hscript⟩ := calls_agree hload hc (by rw [hlog]; exact List.mem_cons_self)
    htarget (by rw [hlog]; exact List.mem_cons_of_mem _ List.mem_cons_self) hrun
  obtain rfl : k = forwardCallable := Option.some.inj (hk.symm.trans hrecord)
  refine ⟨c, out, gx, hc, hrun, hcall, hscript fun w hw => ?_⟩
  rw [hnone] at hw
  exact absurd hw List.not_mem_nil

end Session

end FrameScript
