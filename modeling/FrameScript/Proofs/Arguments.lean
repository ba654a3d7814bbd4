/-
  Arguments keep their values.

  The arguments of a call are evaluated one after the other, and their values are used when all of them
  are there.  Meanwhile a later argument may assign the variable that an earlier one named, or call the
  same callable, so that its return slot is written again.  `Lower.settle` copies an operand into a
  register of its own if any later argument emits a command.

  What a script does that is run in between is left open: running it changes the store in some way
  (`Command.enact`), and this may be anything but a change of the copies.

  1. The copies are the last registers that are minted, and the commands of the arguments were made
     before; so no command of a later argument changes a copy (`settle_reads`).
  2. The other operands are literals, or nothing is executed after them.

  For 1 the names have to stand for other registers than the copies.  In a unit they do, if none of them
  is spelled like a register (`Session.lowers_standsApart`), with the one exception that `Proofs.Scratch`
  ends with: a module that is imported as a whole.
-/
import FrameScript.Proofs.Invariants
import FrameScript.Proofs.Meaning
import FrameScript.Proofs.Scratch

namespace FrameScript

open Source

universe u

variable {V : Type u}

/-! ## Commands and the scripts they run -/

section Perform

variable (I : Interpretation V) (jump : String → Store V → Store V)

/-- The store after a command.  Running a script changes the store in a given way. -/
def Command.enact : Command → Store V → Store V
  | .invoke path, σ => jump path σ
  | c, σ => (c.execute I σ).getD σ

/-- The store after some commands. -/
def enact : List Command → Store V → Store V
  | [], σ => σ
  | c :: rest, σ => enact rest (c.enact I jump σ)

theorem enact_append (a b : List Command) (σ : Store V) :
    enact I jump (a ++ b) σ = enact I jump b (enact I jump a σ) := by
  induction a generalizing σ with
  | nil => rfl
  | cons c rest ih => exact ih _

variable {jump} {frame : Frame} {r : String}
  (hjump : ∀ path σ, jump path σ frame r = σ frame r)

include hjump

theorem Command.enact_keeps {c : Command} (hc : c.target? ≠ some r) (σ : Store V) :
    c.enact I jump σ frame r = σ frame r := by
  cases c with
  | set f register text =>
    exact if_neg fun hboth => hc (congrArg some hboth.2.symm)
  | operation f lhs op rhs =>
    exact if_neg fun hboth => hc (congrArg some hboth.2.symm)
  | invoke path => exact hjump path σ
  | _ => rfl

/-- A register that no command changes, and no script that is run, keeps its value. -/
theorem enact_keeps {cs : List Command} (hcs : ∀ c ∈ cs, c.target? ≠ some r) (σ : Store V) :
    enact I jump cs σ frame r = σ frame r := by
  induction cs generalizing σ with
  | nil => rfl
  | cons c rest ih =>
    have hrest := ih (fun d hd => hcs d (List.mem_cons_of_mem c hd)) (c.enact I jump σ)
    exact hrest.trans (Command.enact_keeps I hjump (hcs c List.mem_cons_self) σ)

end Perform

/-! ## Copies -/

/-- The register was minted between two states of the allocator. -/
def MintedSince (a b : Allocator) (x : String) : Prop :=
  ∃ n, a.registers < n ∧ n ≤ b.registers ∧ x = mintedRegister n

theorem MintedSince.mono {a a' b : Allocator} (h : a.registers ≤ a'.registers) {x : String}
    (hx : MintedSince a' b x) : MintedSince a b x := by
  obtain ⟨n, hlo, hhi, rfl⟩ := hx
  exact ⟨n, by omega, hhi, rfl⟩

theorem MintedSince.registerLike {a b : Allocator} {x : String} (h : MintedSince a b x) :
    RegisterLike x := by
  obtain ⟨n, -, -, rfl⟩ := h
  exact ⟨n, rfl⟩

namespace Lower

variable (q : Surroundings)

/-- The commands of settled arguments up to those of one argument, its own included. -/
def settledTo : List (Emitted Operand) → Effects → Nat → List Command
  | [], _, _ => []
  | argument :: _, _, 0 => argument.commands
  | argument :: rest, fx, i + 1 =>
    let kept := protect q (rest.any fun later => !later.commands.isEmpty) argument.value fx
    argument.commands ++ kept.1.commands ++ settledTo rest kept.2 i

/-- They are where the commands of all arguments start. -/
theorem settledTo_starts (arguments : List (Emitted Operand)) (fx : Effects) (i : Nat) :
    settledTo q arguments fx i <+: (settle q arguments fx).1.commands := by
  induction arguments generalizing fx i with
  | nil => exact List.prefix_refl _
  | cons argument rest ih =>
    rw [settle_cons]
    dsimp only
    cases i with
    | zero =>
      rw [List.append_assoc]
      exact List.prefix_append _ _
    | succ i => exact (List.prefix_append_right_inj _).mpr (ih _ i)

/-- They end with the commands of that argument. -/
theorem settledTo_ends {arguments : List (Emitted Operand)} (fx : Effects) {i : Nat}
    {argument : Emitted Operand} (h : arguments[i]? = some argument) :
    argument.commands <:+ settledTo q arguments fx i := by
  induction arguments generalizing fx i with
  | nil => cases h
  | cons first rest ih =>
    cases i with
    | zero =>
      cases h
      exact List.suffix_refl _
    | succ i => exact (ih _ h).trans (List.suffix_append _ _)

variable {q}

/-- Arguments that emit nothing are settled by nothing. -/
theorem settle_silent {arguments : List (Emitted Operand)} (h : ∀ a ∈ arguments, a.commands = [])
    (fx : Effects) : (settle q arguments fx).1.commands = [] := by
  induction arguments generalizing fx with
  | nil => rfl
  | cons argument rest ih =>
    have hrest : ∀ a ∈ rest, a.commands = [] := fun a ha => h a (List.mem_cons_of_mem argument ha)
    have hlater : (rest.any fun later => !later.commands.isEmpty) = false := by
      refine List.any_eq_false.mpr fun later hin => ?_
      rw [hrest later hin]
      decide
    have hkept : (protect q false argument.value fx).1.commands = [] := by
      cases argument.value <;> rfl
    rw [settle_cons]
    dsimp only
    rw [hlater, h argument List.mem_cons_self, hkept, ih hrest]
    rfl

theorem length_settle (arguments : List (Emitted Operand)) (fx : Effects) :
    (settle q arguments fx).1.value.length = arguments.length := by
  induction arguments generalizing fx with
  | nil => rfl
  | cons argument rest ih => exact congrArg (· + 1) (ih _)

theorem length_values {args : List Expr} {fx gx : Effects} {arguments : List (Emitted Operand)}
    (hrun : (values q args).run fx = (.ok arguments, gx)) : arguments.length = args.length := by
  induction args generalizing fx arguments with
  | nil =>
    rw [values] at hrun
    cases hrun
    rfl
  | cons e rest ih =>
    obtain ⟨first, others, _, -, hrest, rfl⟩ := values_cons_ok hrun
    exact congrArg (· + 1) (ih hrest)

/-! ## Values -/

/-- **Settled operands have the values that were evaluated.**  The induction is on the arguments; the
store is that in which the first of them starts. -/
theorem settle_reads (I : Interpretation V) {jump : String → Store V → Store V} {P : String → Prop}
    {arguments : List (Emitted Operand)} {R : List String} (h : StagedAll P arguments R) (fx : Effects)
    (hR : MintedBy fx.allocator R)
    (hP : ∀ x, MintedSince fx.allocator (settle q arguments fx).2.allocator x → ¬P x)
    (hjump : ∀ x, MintedSince fx.allocator (settle q arguments fx).2.allocator x →
      ∀ path σ, jump path σ q.frame x = σ q.frame x)
    (σ : Store V) {i : Nat} {argument : Emitted Operand} {v : Operand}
    (hargument : arguments[i]? = some argument)
    (hv : (settle q arguments fx).1.value[i]? = some v) :
    v.read I q.frame (enact I jump (settle q arguments fx).1.commands σ) =
      argument.value.read I q.frame (enact I jump (settledTo q arguments fx i) σ) := by
  induction h generalizing fx σ i with
  | nil => cases hargument
  | @cons first rest R R' hfirst hvalue hrest hapart ih =>
    have hothers : MintedBy fx.allocator R' := fun x hx => hR x (List.mem_append_right _ hx)
    rw [settle_cons] at hP hjump hv ⊢
    dsimp only at hP hjump hv ⊢
    rcases protect_cases q first rest fx with ⟨hkept, hsafe⟩ | ⟨register, hslot, hkept⟩
    · rw [hkept] at hP hjump hv ⊢
      dsimp only at hP hjump hv ⊢
      rw [List.append_nil, enact_append]
      cases i with
      | zero =>
        cases hargument
        cases hv
        rcases hsafe with ⟨text, htext⟩ | hsilent
        · rw [htext]
          rfl
        · rw [settle_silent hsilent]
          rfl
      | succ i =>
        rw [settledTo, hkept]
        dsimp only
        rw [List.append_nil, enact_append]
        exact ih fx hothers hP hjump _ hargument hv
    · rw [hkept] at hP hjump hv ⊢
      dsimp only at hP hjump hv ⊢
      have hnext : fx.allocator.registers ≤ fx.scratched.allocator.registers := Nat.le_succ _
      obtain ⟨k, hk, hstaged, -⟩ := staged_settle (q := q) hrest fx.scratched (hothers.staged 1)
      cases i with
      | zero =>
        cases hargument
        cases hv
        have hlast : fx.scratched.allocator.registers ≤
            (settle q rest fx.scratched).2.allocator.registers := by
          rw [hk]
          exact Nat.le_add_right _ _
        have hcopy : MintedSince fx.allocator (settle q rest fx.scratched).2.allocator fx.scratch :=
          ⟨fx.allocator.registers + 1, Nat.lt_succ_self _, hlast, rfl⟩
        -- no later command names the copy
        have hfresh : ∀ c ∈ (settle q rest fx.scratched).1.commands, c.target? ≠ some fx.scratch := by
          intro c hc htarget
          have hcopied : MintedBy fx.scratched.allocator [fx.scratch] := .nextRegisters fx.allocator 1
          rcases hstaged.operands c hc _ (Command.target_mem_operands htarget) with hslot | hin
          · exact hP _ hcopy hslot
          · rcases List.mem_append.mp hin with hin | hin
            · exact hothers.disjoint 1 hin List.mem_cons_self
            · exact hcopied.disjoint k List.mem_cons_self hin
        rw [enact_append, enact_append, hslot]
        refine (enact_keeps I (hjump _ hcopy) hfresh _).trans ?_
        refine (Store.put_self _ _ _ _).trans ?_
        exact I.combine_assign _ _
      | succ i =>
        rw [settledTo, hkept]
        dsimp only
        rw [enact_append, enact_append (a := first.commands ++ _)]
        exact ih fx.scratched (hothers.staged 1) (fun x hx => hP x (hx.mono hnext))
          (fun x hx => hjump x (hx.mono hnext)) _ hargument hv

end Lower

/-! ## What names stand for -/

/-- No name stands for one of the registers, and no callable has one for a slot. -/
structure Surroundings.Spares (q : Surroundings) (R : String → Prop) : Prop where
  symbols : ∀ {name : String} {symbol : Symbol}, q.symbols.lookup name = some symbol →
    ¬R symbol.path
  callables : ∀ {id : DeclId} {k : Callable}, q.decls.callable? id = some k → ∀ x ∈ k.slots, ¬R x

theorem Surroundings.Spares.supplies {q : Surroundings} {R : String → Prop} (h : q.Spares R)
    (hR : ∀ x, R x → RegisterLike x) :
    q.Supplies (fun name => ¬RegisterLike name) (fun slot => ¬R slot) where
  name := fun hname hin => hname (hR _ hin)
  qualified := fun module name _ hin => qualify_notRegister module name (hR _ hin)
  symbol := fun _ hsymbol => h.symbols hsymbol
  callee := fun _ _ hk => h.callables hk
  constructor := fun _ _ hk => h.callables hk
  owner := fun hk => by
    obtain ⟨id, -, hk⟩ := Option.bind_eq_some_iff.mp hk
    exact h.callables hk

/-- What `Surroundings.Apart` says about symbols and callables.  This much holds wherever an expression
is lowered, whatever the names in the source are. -/
structure Surroundings.StandsApart (q : Surroundings) : Prop where
  inUnit : q.unit ≠ none
  symbols : q.symbols.All fun symbol => ¬RegisterLike symbol.path
  callables : ∀ id k, q.decls.callable? id = some k → ∀ x ∈ k.slots, ¬RegisterLike x

namespace Surroundings.StandsApart

theorem spares {q : Surroundings} (h : q.StandsApart) {R : String → Prop}
    (hR : ∀ x, R x → RegisterLike x) : q.Spares R where
  symbols := fun hsymbol hin => h.symbols.lookup hsymbol (hR _ hin)
  callables := fun hk x hx hin => h.callables _ _ hk x hx (hR _ hin)

theorem changed {s : Session} (h : s.StandsApart) {change : Change} (hchange : change.Apart) :
    (s.changed change).StandsApart := by
  cases change with
  | counts n => exact ⟨h.inUnit, h.symbols, h.callables⟩
  | names symbol => exact ⟨h.inUnit, h.symbols.register hchange, h.callables⟩
  | records id d =>
    refine ⟨h.inUnit, h.symbols, fun i k hk => ?_⟩
    rcases Session.recorded_callable_cases hk with rfl | hold
    · exact hchange
    · exact h.callables i k hold

theorem changes {s t : Session} {P : Change → Prop} (h : s.StandsApart) (hchanges : Changes P s t)
    (hP : ∀ change, P change → change.Apart) : t.StandsApart :=
  hchanges.keeps (I := fun s => s.StandsApart) (fun _ _ hchange hs => hs.changed (hP _ hchange)) h

theorem invariant : Surroundings.Invariant StandsApart where
  withVariable s name h :=
    ⟨h.inUnit, h.symbols.register (mintedId_notRegister name _), h.callables⟩
  function hdeclared h := by
    rcases hdeclared.changes rfl with rfl | ⟨-, hchanges⟩
    · exact h
    · exact h.changes hchanges fun _ hchange => hchange.apart h.inUnit
  classDef hdeclared h := by
    rcases hdeclared.changes rfl with rfl | ⟨-, info, hinfo, -, hchanges⟩
    · exact h
    · exact h.changes hchanges fun _ hchange => hchange.apart h.inUnit hinfo
  opened s scope slots h := ⟨h.inUnit, h.symbols.enter, h.callables⟩
  closed _ ht := ⟨ht.inUnit, ht.symbols.exit, ht.callables⟩

end Surroundings.StandsApart

/-- In a unit names and registers are apart, unless a module that is imported as a whole is spelled
like a register. -/
theorem Session.lowers_standsApart {s : Session} {u : CompilationUnit} {c : Compilation}
    (himports : ∀ line i, .imports line i ∈ u.statements → i.namespaceName ≠ none →
      ¬RegisterLike (moduleContext i.module))
    (hcompile : (s.compile u).1 = .ok c) {q : Surroundings} {e : Expr} (hq : .lowers q e ∈ s.log u) :
    q.StandsApart := by
  have hbegin : (s.begin u).StandsApart :=
    ⟨(begin_apart s u).inUnit, (begin_apart s u).symbols, (begin_apart s u).callables⟩
  refine lowers_keeps Surroundings.StandsApart.invariant hcompile hbegin (fun t line i hi ht => ?_) hq
  refine ht.changes (Changes.registeredAll (P := Change.Apart) (fun symbol hsymbol => ?_) t)
    fun _ hchange => hchange
  have hchange : UnitChange t.toSurroundings u.statements (.names symbol) := .imports hi hsymbol
  exact hchange.apart ht.inUnit himports

/-! ## Arguments -/

namespace Lower

/-- **Arguments keep their values.**  Some arguments are lowered, none of whose names is spelled like
a register, where no name stands for one of the copies that are minted for them.  However a script that
is run changes the store, if it leaves the copies alone, then from any store the commands lead to one
in which each operand that is passed on has the value that the operand of the argument had right after
the commands of that argument, with which `settledTo` ends. -/
theorem arguments_keep_values (I : Interpretation V) {jump : String → Store V → Store V}
    {q : Surroundings} {args : List Expr} {fx gx : Effects} {arguments : List (Emitted Operand)}
    (hnames : ∀ n ∈ exprNames args, ¬RegisterLike n)
    (hrun : (values q args).run fx = (.ok arguments, gx))
    (hspares : q.Spares (MintedSince gx.allocator (settle q arguments gx).2.allocator))
    (hjump : ∀ x, MintedSince gx.allocator (settle q arguments gx).2.allocator x →
      ∀ path σ, jump path σ q.frame x = σ q.frame x)
    (σ : Store V) :
    arguments.length = args.length ∧ (settle q arguments gx).1.value.length = args.length ∧
      ∀ (i : Nat) (argument : Emitted Operand) (v : Operand), arguments[i]? = some argument →
        (settle q arguments gx).1.value[i]? = some v →
        settledTo q arguments gx i <+: (settle q arguments gx).1.commands ∧
        argument.commands <:+ settledTo q arguments gx i ∧
        v.read I q.frame (enact I jump (settle q arguments gx).1.commands σ) =
          argument.value.read I q.frame (enact I jump (settledTo q arguments gx i) σ) := by
  have hlength := length_values hrun
  refine ⟨hlength, (length_settle arguments gx).trans hlength, fun i argument v hargument hv => ?_⟩
  have hsupplies := hspares.supplies fun x hx => hx.registerLike
  have hall : ∀ a ∈ args, StagesAll q _ a := fun a ha =>
    staged_expr hsupplies a fun n hn => hnames n (names_subset_exprNames ha hn)
  obtain ⟨k, hk, hstaged⟩ := staged_values hall hrun
  have hminted : MintedBy gx.allocator (fx.allocator.nextRegisters k) := by
    rw [hk]
    exact .nextRegisters _ k
  exact ⟨settledTo_starts q arguments gx i, settledTo_ends q gx hargument,
    settle_reads I hstaged gx hminted (fun x hx => not_not_intro hx) hjump σ hargument hv⟩

end Lower

namespace Session

/-! Two calls of one callable, which returns both of its arguments in one number. -/

/-- `f(1, 2)` and `f(3, 4)` -/
def twoCalls : List Expr :=
  let f (x y : Int) : Expr := .call ⟨0, none⟩ (.identifier ⟨0, none⟩ "f")
    [.number ⟨0, none⟩ (.ofInt x), .number ⟨0, none⟩ (.ofInt y)]
  [f 1 2, f 3 4]

/-- The return slot becomes the number with the two parameters as digits. -/
def joinParameters (_ : String) (σ : Store Int) : Store Int :=
  σ.put (some "main") "f_return_3" (10 * σ (some "main") "a_1" + σ (some "main") "b_2")

/-- The second call overwrites the return slot, from which the first result has been copied. -/
theorem arguments_keep_values_calls :
    ∃ arguments gx settled,
      (Lower.values forwardSession.toSurroundings twoCalls).run forwardSession.toEffects =
        (.ok arguments, gx) ∧
      (Lower.settle forwardSession.toSurroundings arguments gx).1 = settled ∧
      settled.value = [.slot "register1", .slot "f_return_3"] ∧
      ∀ σ : Store Int,
        enact integers joinParameters settled.commands σ (some "main") "register1" = 12 ∧
        enact integers joinParameters settled.commands σ (some "main") "f_return_3" = 34 := by
  obtain ⟨first, second, gx, hrun, hsettled, hfirst, hsecond, hown⟩ : ∃ first second gx,
      (Lower.values forwardSession.toSurroundings twoCalls).run forwardSession.toEffects =
        (.ok [first, second], gx) ∧
      (Lower.settle forwardSession.toSurroundings [first, second] gx).1.value =
        [.slot "register1", .slot "f_return_3"] ∧
      first.value = .slot "f_return_3" ∧ second.value = .slot "f_return_3" ∧
      ∀ (σ : Store Int), ∀ i < 2, enact integers joinParameters
        (Lower.settledTo forwardSession.toSurroundings [first, second] gx i) σ (some "main")
          "f_return_3" = [12, 34][i]?.getD 0 :=
    ⟨_, _, _, rfl, rfl, rfl, rfl, fun σ i hi => by
      match i, hi with
      | 0, _ => rfl
      | 1, _ => rfl⟩
  obtain ⟨c, hc⟩ : ∃ c, (compile {} forwardUnit).1 = .ok c := exists_compilation (by decide +kernel)
  have hlog : log {} forwardUnit = .lowers forwardSession.toSurroundings forwardCall ::
      (log {} forwardUnit).drop 1 := rfl
  have hapart : forwardSession.toSurroundings.StandsApart := by
    refine lowers_standsApart (fun line i hi => ?_) hc (hlog ▸ List.mem_cons_self)
    simp [forwardUnit] at hi
  have hnames : ∀ n ∈ exprNames twoCalls, ¬RegisterLike n := by
    have hstarts : ∀ n ∈ exprNames twoCalls, ¬"register".toList <+: n.toList := by decide +kernel
    exact fun n hn => notRegister_of_start (hstarts n hn)
  have hjump : ∀ x, MintedSince gx.allocator
      (Lower.settle forwardSession.toSurroundings [first, second] gx).2.allocator x → ∀ path σ,
      joinParameters path σ (some "main") x = σ (some "main") x := by
    rintro x hx path σ
    refine Store.put_other _ _ _ fun heq => ?_
    have hplain : ¬RegisterLike "f_return_3" := mintedId_notRegister "f_return" 3
    exact hplain (heq ▸ hx.registerLike)
  refine ⟨_, gx, _, hrun, rfl, hsettled, fun σ => ?_⟩
  obtain ⟨-, -, hkept⟩ := Lower.arguments_keep_values integers hnames hrun
    (hapart.spares fun x hx => hx.registerLike) hjump σ
  obtain ⟨-, -, hread⟩ := hkept 0 first (.slot "register1") rfl (by rw [hsettled]; rfl)
  obtain ⟨-, -, hread'⟩ := hkept 1 second (.slot "f_return_3") rfl (by rw [hsettled]; rfl)
  rw [hfirst] at hread
  rw [hsecond] at hread'
  exact ⟨hread.trans (hown σ 0 (by decide)), hread'.trans (hown σ 1 (by decide))⟩

/-! A module that is spelled like the copy of an argument. -/

/-- `import x from "./lib"; import * as ns from "./register2"; f(x, ns = 5); function f(a, b) {}` -/
def copyModuleDocument : Json.Value :=
  let name (x : String) : Json.Value := namedNode "Identifier" x []
  .object [("statements", .array [
    .object [("kind", .string "ImportDeclaration"), ("module", .string "./lib"),
      ("default", .string "x")],
    .object [("kind", .string "ImportDeclaration"), ("module", .string "./register2"),
      ("namespace", .string "ns")],
    .object [("kind", .string "ExpressionStatement"), ("expression", .object [
      ("kind", .string "CallExpression"), ("expression", name "f"),
      ("arguments", .array [name "x", .object [("kind", .string "BinaryExpression"),
        ("left", name "ns"), ("operator", .string "="),
        ("right", .object [("kind", .string "NumericLiteral"), ("value", .string "5")])]])])],
    namedNode "FunctionDeclaration" "f" [
      ("parameters", .array [.object [("name", .string "a")], .object [("name", .string "b")]]),
      ("body", .array [])]])]

/-- Its call. -/
def copyModuleCall : Expr :=
  .call ⟨0, none⟩ (.identifier ⟨0, none⟩ "f") [.identifier ⟨0, none⟩ "x",
    .binary ⟨0, none⟩ (.identifier ⟨0, none⟩ "ns") .assign (.number ⟨0, none⟩ (.ofInt 5))]

/-- The unit of the document. -/
def copyModuleUnit : CompilationUnit where
  fileName := "main.ts"
  context := "main"
  statements := [
    .imports 0 ⟨"./lib", some "x", none, []⟩,
    .imports 0 ⟨"./register2", none, some "ns", []⟩,
    .expression 0 copyModuleCall,
    .function ⟨0, some "f", [⟨.identifier "a", false, none, 0⟩, ⟨.identifier "b", false, none, 0⟩],
      some [], false, 0⟩]
  declCount := 1

/-- Where the call is lowered. -/
def copyModuleSession : Session := declared {} copyModuleUnit

/-- **The copy of an argument may be overwritten**: no name is spelled like a register, but the context
of an imported module is.  No script is run in between. -/
theorem argument_overwritten :
    ∃ arguments gx settled argument v, Document.load copyModuleDocument "main.ts" = .ok copyModuleUnit ∧
      (∀ n ∈ copyModuleUnit.names, ¬RegisterLike n) ∧
      .lowers copyModuleSession.toSurroundings copyModuleCall ∈ log {} copyModuleUnit ∧
      (Lower.values copyModuleSession.toSurroundings copyModuleCall.arguments).run
        copyModuleSession.toEffects = (.ok arguments, gx) ∧
      (Lower.settle copyModuleSession.toSurroundings arguments gx).1 = settled ∧
      arguments[0]? = some argument ∧ settled.value[0]? = some v ∧
      ∃ σ : Store Int,
        v.read integers (some "main") (enact integers (fun _ σ => σ) settled.commands σ) ≠
          argument.value.read integers (some "main") (enact integers (fun _ σ => σ)
            (Lower.settledTo copyModuleSession.toSurroundings arguments gx 0) σ) := by
  have hload : Document.load copyModuleDocument "main.ts" = .ok copyModuleUnit := rfl
  have hstarts : ∀ n ∈ copyModuleUnit.names, ¬"register".toList <+: n.toList := by decide +kernel
  have hlog : log {} copyModuleUnit =
      [.lowers copyModuleSession.toSurroundings copyModuleCall, .hoists 0] := rfl
  refine ⟨_, _, _, _, _, hload, fun n hn => notRegister_of_start (hstarts n hn),
    hlog ▸ List.mem_cons_self, rfl, rfl, rfl, rfl, fun _ _ => 1, ?_⟩
  -- the copy of 1 holds 5, which was assigned to the module
  show wholeNumber "5" ≠ 1
  decide

end Session

end FrameScript
