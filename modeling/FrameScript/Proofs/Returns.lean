/-
  Returned values and their slots.

  Whether a callable has a slot for its result is decided when it is declared, by a look at its body:
  does it return a value, in its blocks or itself?  The slot is used much later, when lowering comes to a
  `return v` and asks which callable it is in.  The two go through the body in ways of their own.  The
  look counts returns that lowering will never reach, and leaves out declarations, which have slots of
  their own; lowering leaves the callable for a nested declaration and comes back to it.

  1. `Lower.stmtsReturns` lists the `return v` that a run of lowering reaches, failing or not, each with the
     callable that is around it in the source.
  2. `Summary` says of each id of a unit whether its callable returns a value.  What is recorded agrees with
     it (`Summary.Holds`), and only callables are recorded for callables.
  3. `Accounts` is a triple for actions that reach returns.  Those in a callable have a slot there, and the
     others are just the ones that are warned about.
-/
import FrameScript.Proofs.Dangling
import FrameScript.Proofs.Stability
import FrameScript.Proofs.Units
import FrameScript.Proofs.Warnings

namespace FrameScript

open Source

/-! ## Values that go nowhere -/

/-- What is said about a value that is returned outside of all callables. -/
def discardMessage : String := "return value outside of a function is discarded"

/-- The warnings about such values. -/
def discards (ws : List Diagnostic) : List Diagnostic := ws.filter (·.message = discardMessage)

/-- Another warning makes no difference; the first letter tells it apart. -/
theorem discards_snoc {ws : List Diagnostic} {w : Diagnostic} (h : w.message.toList.head? ≠ some 'r') :
    discards (ws ++ [w]) = discards ws := by
  have hmessage : decide (w.message = discardMessage) = false := by
    refine decide_eq_false fun heq => h ?_
    rw [heq]
    rfl
  rw [discards, List.filter_append, List.filter_cons, if_neg (ne_true_of_eq_false hmessage)]
  exact List.append_nil _

theorem discards_snoc_self {ws : List Diagnostic} {w : Diagnostic} (h : w.message = discardMessage) :
    discards (ws ++ [w]) = discards ws ++ [w] := by
  rw [discards, List.filter_append, List.filter_cons, if_pos (decide_eq_true h)]
  rfl

/-- No value is discarded on the way. -/
def Effects.Hushed (fx gx : Effects) : Prop := discards gx.warnings = discards fx.warnings

theorem Effects.Hushed.admits : Effects.Admits Effects.Hushed where
  refl := fun _ => rfl
  trans := fun h h' => Eq.trans h' h
  scratched := fun _ => rfl
  square := fun s line fx => discards_snoc (by
    show "`**=` is lowered as a square by repeated multiplication".toList.head? ≠ some 'r'
    decide)
  surplus := fun s line path callable count fx =>
    discards_snoc (Lower.head?_surplus line path callable count (by decide))
  dropped := fun s line path fx => discards_snoc (by
    rw [Lower.head?_dropped]
    decide)

/-- No value is discarded on the way, nothing is recorded, and lowering ends where it began. -/
structure Session.Hushed (s t : Session) : Prop where
  discards : discards t.warnings = discards s.warnings
  decls : t.decls = s.decls
  scope : t.scope = s.scope

namespace Session.Hushed

variable {α β : Type} {s t u : Session}

theorem refl (s : Session) : Hushed s s := ⟨rfl, rfl, rfl⟩

theorem trans (h : Hushed s t) (h' : Hushed t u) : Hushed s u :=
  ⟨h'.discards.trans h.discards, h'.decls.trans h.decls, h'.scope.trans h.scope⟩

theorem warned (s : Session) (line : Nat) {message : String}
    (h : message.toList.head? ≠ some 'r') : Hushed s (s.warned line message) :=
  ⟨discards_snoc h, rfl, rfl⟩

theorem warnedIf (s : Session) (condition : Bool) (line : Nat) {message : String}
    (h : message.toList.head? ≠ some 'r') : Hushed s (s.warnedIf condition line message) := by
  cases condition with
  | true => exact warned s line h
  | false => exact refl s

theorem stored (s : Session) (name : String) (body : List Command) (line : Nat) :
    Hushed s (s.stored name body line) := by
  have hpushed : Hushed s { s with scripts := s.scripts.insert name body } := ⟨rfl, rfl, rfl⟩
  unfold Session.stored
  dsimp only
  split
  · refine hpushed.trans (warned _ line ?_)
    rw [producedTwice, head?_append (head?_append rfl)]
    decide
  · exact hpushed

theorem bind {m : SessionM α} {f : α → SessionM β} (hm : Keeps Hushed m) (hf : ∀ a, Keeps Hushed (f a)) :
    Keeps Hushed (m >>= f) :=
  Keeps.bind (R := Hushed) trans hm hf

theorem pure (a : α) : Keeps Hushed (Pure.pure a : SessionM α) := Keeps.pure refl a

theorem pushScript (name : String) (body : List Command) (line : Nat) :
    Keeps Hushed (SessionM.pushScript name body line) := fun s => by
  rw [SessionM.run_pushScript]
  exact stored s name body line

theorem lift {action : Surroundings → Lowering α} (h : ∀ q, Keeps Effects.Hushed (action q)) :
    Keeps Hushed (SessionM.lift action) := fun s => ⟨h s.toSurroundings s.toEffects, rfl, rfl⟩

theorem declarator (d : Declarator) : Keeps Hushed (Lower.declarator d) := by
  unfold Lower.declarator
  split
  · exact fun s => refl s
  · refine bind (fun s => ⟨rfl, rfl, rfl⟩) fun slot => bind (fun s => ⟨rfl, rfl, rfl⟩) fun _ => ?_
    refine bind (fun s => ⟨rfl, rfl, rfl⟩) fun _ => ?_
    split
    · exact pure _
    · have hadmits := Effects.Hushed.admits
      exact lift fun q => hadmits.bind (hadmits.value q _) fun _ => hadmits.pure _

theorem declarators (ds : List Declarator) : Keeps Hushed (Lower.declarators ds) := by
  induction ds with
  | nil => exact pure _
  | cons d rest ih =>
    rw [Lower.declarators]
    exact bind (declarator d) fun _ => bind ih fun _ => pure _

theorem fieldsScript (info : ClassInfo) (scope : ClassScope) (ms : List Member) (line : Nat) :
    Keeps Hushed (Lower.fieldsScript info scope ms line) := by
  have hbody : Keeps Hushed (do
      info.fields.forM fun field => SessionM.declare field.2
      SessionM.lift fun s => Lower.fields s info ms) := by
    refine bind (fun s => ?_) fun _ => lift fun q => Effects.Hushed.admits.fields q info ms
    rw [SessionM.run_forM_declare]
    exact ⟨rfl, rfl, rfl⟩
  unfold Lower.fieldsScript
  refine bind (fun s => ?_) fun script => pushScript _ _ _
  rw [Lower.run_inScript]
  have hinner := hbody (s.opened { enclosing := some scope } [])
  exact ⟨hinner.discards, hinner.decls, rfl⟩

end Session.Hushed

/-! ## The returns that are reached -/

/-- A `return v` that lowering reaches. -/
structure ReachedReturn where
  /-- The callable around it in the source. -/
  owner : Option DeclId
  line : Nat
  value : Expr
  /-- The session in which it is lowered. -/
  session : Session

namespace ReachedReturn

/-- It stands outside of all callables. -/
def topLevel (r : ReachedReturn) : Bool := r.owner.isNone

/-- The warning that its value is discarded. -/
def warning (r : ReachedReturn) : Diagnostic := r.session.warning r.line discardMessage

/-- The callable around it is known when it is lowered and has a return slot.  If it lowers, then its
commands evaluate the value, and end with the assignment of it to this slot. -/
def Stored (r : ReachedReturn) (id : DeclId) : Prop :=
  ∃ k slot, r.session.scope.owner = some id ∧ r.session.decls.callable? id = some k ∧
    k.returnSlot = some slot ∧ ∀ out t,
      (Lower.stmt (.returning r.line (some r.value))).run r.session = (.ok out, t) →
      ∃ evaluated v fx, (Lower.value r.session.toSurroundings r.value).run r.session.toEffects =
        (.ok ⟨evaluated, v⟩, fx) ∧
        out.commands = evaluated ++ [Lower.assign r.session.toSurroundings slot v]

end ReachedReturn

namespace Lower

/-- What is reached after a run, if the run does not fail. -/
def after {α : Type} (run : Except LowerError α × Session)
    (rest : α → Session → List ReachedReturn) : List ReachedReturn :=
  match run with
  | (.ok a, t) => rest a t
  | (.error _, _) => []

/-- The returns in the script of a callable, given those in its body. -/
def callableReturns (id : DeclId) (enclosing : Option ClassScope) (body : Session → List ReachedReturn)
    (s : Session) : List ReachedReturn :=
  match s.decls.callable? id with
  | none => []
  | some k => body (s.opened ⟨some id, enclosing⟩ k.slots)

mutual

/-- The returns that lowering some statements reaches, whether or not it gets to the end. -/
def stmtsReturns (owner : Option DeclId) : List Stmt → Session → List ReachedReturn
  | [], _ => []
  | first :: rest, s => stmtReturns owner first s ++ after ((stmt first).run s) fun lowered t =>
      match lowered.value with
      | .next => stmtsReturns owner rest t
      | .returned => []

def stmtReturns (owner : Option DeclId) : Stmt → Session → List ReachedReturn
  | .block _ body, s => stmtsReturns owner body s
  | .function f, s => functionReturns f s
  | .classDef c, s => classReturns c s
  | .returning line (some e), s => [⟨owner, line, e, s⟩]
  | _, _ => []

def functionReturns : FunctionDecl → Session → List ReachedReturn
  | ⟨id, name, params, some body, isAsync, line⟩, s =>
    after ((Declare.function ⟨id, name, params, some body, isAsync, line⟩).run s) fun _ t =>
      callableReturns id t.scope.enclosing (stmtsReturns (some id) body)
        (t.warnedIf isAsync line "async function is lowered synchronously")
  | ⟨_, _, _, none, _, _⟩, _ => []

def classReturns : ClassDecl → Session → List ReachedReturn
  | ⟨id, name, parent, isDeclared, isAbstract, members, line⟩, s =>
    if isDeclared || isAbstract then []
    else
      after ((Declare.classDef ⟨id, name, parent, isDeclared, isAbstract, members, line⟩).run s)
        fun _ t =>
        match t.decls.class? id with
        | none => []
        | some info =>
          let scope : ClassScope := ⟨info.name, parent⟩
          after ((fieldsScript info scope members line).run t) fun _ u =>
            let prologue := [Command.invoke (u.qualify (classScript info.name))]
            constructorReturns info scope members u ++
              after ((constructor info scope prologue members).run u) fun found v =>
                methodsReturns info scope members
                  (if found then v else v.stored (initScript info.name) prologue line)

def constructorReturns (info : ClassInfo) (scope : ClassScope) :
    List Member → Session → List ReachedReturn
  | [], _ => []
  | .constructor ⟨id, _, _, body, _, _⟩ :: rest, s =>
    if info.constructor = some id then
      match body with
      | some body => callableReturns id (some scope) (stmtsReturns (some id) body) s
      | none => []
    else constructorReturns info scope rest s
  | _ :: rest, s => constructorReturns info scope rest s

def methodsReturns (info : ClassInfo) (scope : ClassScope) :
    List Member → Session → List ReachedReturn
  | [], _ => []
  | .method ⟨id, _, _, some body, isAsync, line⟩ _ :: rest, s =>
    let t := s.warnedIf isAsync line "async method is lowered synchronously"
    callableReturns id (some scope) (stmtsReturns (some id) body) t ++
      after ((callableScript id line (some scope) [] (stmts body)).run t) fun _ u =>
        methodsReturns info scope rest u
  | .other line kind :: rest, s =>
    methodsReturns info scope rest (s.warned line s!"unsupported class member {kind} in `{info.name}`")
  | _ :: rest, s => methodsReturns info scope rest s

end

end Lower

/-! ## What a unit says of its callables -/

/-- A callable returns a value or it does not; a class is no callable. -/
def Source.Decl.returnsValue? : Decl → Option Bool
  | .function f => some ((f.body.map bodyReturnsValue).getD false)
  | .classDef _ => none

/-- For the id of a callable, whether the callable returns a value. -/
abbrev Summary := DeclId → Option Bool

namespace Summary

/-- The summary is right about some declarations. -/
def Covers (V : Summary) (ds : List Decl) : Prop := ∀ d ∈ ds, V d.id = d.returnsValue?

/-- The callables that are recorded have return slots as the summary says. -/
def Holds (V : Summary) (t : DeclTable) : Prop :=
  ∀ id k, t.callable? id = some k → V id = some k.returnSlot.isSome

/-- From one session to the next the records stay right, and known callables stay known. -/
structure Keeping (V : Summary) (s t : Session) : Prop where
  holds : V.Holds s.decls → V.Holds t.decls
  callables : V.Holds s.decls → ∀ id, (s.decls.callable? id).isSome → (t.decls.callable? id).isSome
  scope : t.scope = s.scope

/-- What is known when a piece of work begins: the records are right, and the callable around is one of
them. -/
structure Ready (V : Summary) (owner : Option DeclId) (s : Session) : Prop where
  holds : V.Holds s.decls
  owner_eq : s.scope.owner = owner
  known : ∀ id, owner = some id → (s.decls.callable? id).isSome

variable {V : Summary} {s t u : Session}

theorem Covers.append {ds es : List Decl} : V.Covers (ds ++ es) ↔ V.Covers ds ∧ V.Covers es :=
  List.forall_mem_append

theorem Covers.function {f : FunctionDecl} (h : V.Covers f.decls) :
    V.Covers (bodyDecls f.body) ∧ V f.id = (Decl.function f).returnsValue? := by
  rw [f.decls_eq, Covers.append] at h
  exact ⟨h.1, h.2 _ (List.mem_singleton_self _)⟩

theorem Covers.classDef {c : ClassDecl} (h : V.Covers c.decls) :
    V.Covers (memberDecls c.members) ∧ V c.id = none := by
  rw [c.decls_eq, Covers.append] at h
  exact ⟨h.1, h.2 _ (List.mem_singleton_self _)⟩

namespace Keeping

theorem refl (s : Session) : V.Keeping s s := ⟨id, fun _ _ => id, rfl⟩

theorem trans (h : V.Keeping s t) (h' : V.Keeping t u) : V.Keeping s u where
  holds := fun hs => h'.holds (h.holds hs)
  callables := fun hs i hi => h'.callables (h.holds hs) i (h.callables hs i hi)
  scope := h'.scope.trans h.scope

theorem of_decls (hdecls : t.decls = s.decls) (hscope : t.scope = s.scope) : V.Keeping s t := by
  refine ⟨?_, ?_, hscope⟩ <;> rw [hdecls]
  · exact id
  · exact fun _ _ => id

theorem of_hushed (h : s.Hushed t) : V.Keeping s t := .of_decls h.decls h.scope

theorem callable {i : DeclId} {k : Callable} (hk : V i = some k.returnSlot.isSome) :
    V.Keeping s (s.recorded i (.callable k)) where
  holds := fun hs j l hl => by
    by_cases hj : j = i
    · subst hj
      rw [s.recorded_callable] at hl
      cases hl
      exact hk
    · rw [DeclTable.callable?_congr (s.recorded_other _ hj)] at hl
      exact hs j l hl
  callables := fun _ j hsome => by
    by_cases hj : j = i
    · subst hj
      rw [s.recorded_callable]
      rfl
    · rw [DeclTable.callable?_congr (s.recorded_other _ hj)]
      exact hsome
  scope := rfl

/-- A class is recorded under an id that no callable has. -/
theorem classInfo {i : DeclId} (info : ClassInfo) (hi : V i = none) :
    V.Keeping s (s.recorded i (.classInfo info)) where
  holds := fun hs j l hl => by
    by_cases hj : j = i
    · subst hj
      rw [DeclTable.callable?_of_class (s.recorded_class j info)] at hl
      cases hl
    · rw [DeclTable.callable?_congr (s.recorded_other _ hj)] at hl
      exact hs j l hl
  callables := fun hs j hsome => by
    obtain ⟨k, hk⟩ := Option.isSome_iff_exists.mp hsome
    have hj : j ≠ i := by
      rintro rfl
      cases hi.symm.trans (hs j k hk)
    rw [DeclTable.callable?_congr (s.recorded_other _ hj)]
    exact hsome
  scope := rfl

end Keeping

theorem Ready.keeping {owner : Option DeclId} (hs : V.Ready owner s) (h : V.Keeping s t) :
    V.Ready owner t where
  holds := h.holds hs.holds
  owner_eq := by rw [h.scope, hs.owner_eq]
  known := fun i hi => h.callables hs.holds i (hs.known i hi)

end Summary

/-! ## Declaring follows the summary -/

/-- A callable has a return slot if its body returns a value: its slots are as many as the stems. -/
theorem Callable.MadeOf.returnSlot_isSome {k : Callable} {s : Session} {script : String} {f : FunctionDecl}
    (h : k.MadeOf s script f) : k.returnSlot.isSome = (f.body.map bodyReturnsValue).getD false := by
  have hslots := Declare.length_slots h
  have hparams : k.params.length = f.params.length := by
    have hlength := congrArg List.length h.names_eq
    rw [List.length_map, List.length_map] at hlength
    exact hlength
  unfold Callable.slots FunctionDecl.stems at hslots
  rw [List.length_append, List.length_append, List.length_map, List.length_map, hparams] at hslots
  have hone := Nat.add_left_cancel hslots
  cases hslot : k.returnSlot <;> cases hvalue : (f.body.map bodyReturnsValue).getD false <;>
    simp [hslot, hvalue] at hone ⊢

section Declaring

variable {V : Summary} {s t : Session}

/-- A callable is recorded for a function that the summary is right about. -/
theorem Callable.MadeOf.keeping {k : Callable} {s₀ : Session} {script : String} {f : FunctionDecl}
    (hk : k.MadeOf s₀ script f) (hV : V.Covers f.decls) (s : Session) :
    V.Keeping s (s.withCallable f.id k) := by
  have hid : V f.id = some k.returnSlot.isSome := by
    rw [hV.function.2, hk.returnSlot_isSome]
    rfl
  have hcounted : V.Keeping s (s.counted k.slots.length) := .of_decls rfl rfl
  exact hcounted.trans (.callable hid)

/-- A name is given and gets a meaning. -/
theorem Session.named_keeping (s : Session) (name : Option String) (symbol : Symbol) :
    V.Keeping s ((s.named name).2.registered symbol) :=
  .of_decls (s.named_decls name) (Session.Untouched.named s name).scope

theorem FunctionDeclared.keeping {f : FunctionDecl} (h : FunctionDeclared s f t)
    (hV : V.Covers f.decls) : V.Keeping s t := by
  cases h with
  | known _ => exact .refl s
  | fresh k _ _ hk => exact (s.named_keeping f.name _).trans (hk.keeping hV _)

theorem MembersDeclared.keeping {info info' : ClassInfo} {ms : List Member}
    (h : MembersDeclared info s ms info' t) (hV : V.Covers (memberDecls ms)) : V.Keeping s t := by
  induction h with
  | nil info s => exact .refl s
  | @cons info info' info'' s t u m rest hfirst _ ih =>
    obtain ⟨hm, hrest⟩ := Summary.Covers.append.mp hV
    refine Summary.Keeping.trans ?_ (ih hrest)
    cases hfirst with
    | method isStatic k _ _ hk =>
      have hregistered : ∀ symbol, V.Keeping s (s.registered symbol) := fun _ => .of_decls rfl rfl
      exact (hregistered _).trans (hk.keeping hm _)
    | constructor k _ hk => exact hk.keeping hm _
    | property p => exact .of_decls rfl rfl
    | nothing _ _ _ _ => exact .refl s

theorem ClassDeclared.keeping {c : ClassDecl} (h : ClassDeclared s c t) (hV : V.Covers c.decls) :
    V.Keeping s t := by
  obtain ⟨hmembers, hid⟩ := hV.classDef
  cases h with
  | known _ => exact .refl s
  | fresh _ _ hdeclared =>
    exact ((s.named_keeping c.name _).trans (hdeclared.keeping hmembers)).trans (.classInfo _ hid)

theorem StmtDeclared.keeping {st : Stmt} (h : StmtDeclared s st t) (hV : V.Covers st.decls) :
    V.Keeping s t := by
  cases h with
  | imports line i =>
    exact .of_decls (s.registeredAll_decls _).1 (Session.Untouched.registeredAll s _).scope
  | function h => exact h.keeping hV
  | classDef h => exact h.keeping hV
  | nothing _ => exact .refl s

theorem UnitDeclared.keeping {sts : List Stmt} (h : UnitDeclared s sts t) (hV : V.Covers (decls sts)) :
    V.Keeping s t := by
  induction h with
  | nil s => exact .refl s
  | cons hfirst _ ih =>
    obtain ⟨hst, hrest⟩ := Summary.Covers.append.mp hV
    exact (hfirst.keeping hst).trans (ih hrest)

end Declaring

/-- Declaring says nothing, failing or not. -/
theorem Declare.silent : Declare.Admits fun s t => t.warnings = s.warnings where
  refl := fun _ => rfl
  trans := fun h h' => h'.trans h
  counted := fun _ _ => rfl
  registered := fun _ _ => rfl
  recorded := fun _ _ _ => rfl

/-! ## Actions that reach returns -/

/-- An action reaches some returns.  Those inside a callable have a slot there, those outside are the ones
whose values are discarded, and if the action does not fail it leaves the records right. -/
structure Accounts {α : Type} (V : Summary) (s : Session) (m : SessionM α) (rs : List ReachedReturn) :
    Prop where
  stored : ∀ r ∈ rs, ∀ id, r.owner = some id → r.Stored id
  discards : discards (m.run s).2.warnings =
    discards s.warnings ++ (rs.filter (·.topLevel)).map (·.warning)
  keeping : ∀ a t, m.run s = (.ok a, t) → V.Keeping s t

namespace Accounts

variable {α β : Type} {V : Summary} {s : Session} {m : SessionM α} {rs : List ReachedReturn}

/-- An action that reaches none. -/
theorem none (hdiscards : FrameScript.discards (m.run s).2.warnings = FrameScript.discards s.warnings)
    (hkeeping : ∀ a t, m.run s = (.ok a, t) → V.Keeping s t) : Accounts V s m [] where
  stored := fun _ hr => absurd hr List.not_mem_nil
  discards := hdiscards.trans (List.append_nil _).symm
  keeping := hkeeping

theorem hushed (h : Keeps Session.Hushed m) : Accounts V s m [] := by
  refine .none (h s).discards fun a t hrun => ?_
  have hs := h s
  rw [hrun] at hs
  exact .of_hushed hs

theorem pure (a : α) : Accounts V s (Pure.pure a) [] := .hushed (Session.Hushed.pure a)

theorem bind {f : α → SessionM β} {rest : α → Session → List ReachedReturn} (hm : Accounts V s m rs)
    (hf : ∀ a t, V.Keeping s t → Accounts V t (f a) (rest a t)) :
    Accounts V s (m >>= f) (rs ++ Lower.after (m.run s) rest) := by
  cases hrun : m.run s with
  | mk r t =>
    have hdiscards := hm.discards
    rw [hrun] at hdiscards
    cases r with
    | ok a =>
      have hkeeping := hm.keeping a t hrun
      have hrest := hf a t hkeeping
      have hboth : (m >>= f).run s = (f a).run t := by rw [run_bind, hrun]
      refine ⟨List.forall_mem_append.mpr ⟨hm.stored, hrest.stored⟩, ?_, fun b u hb => ?_⟩
      · rw [hboth, hrest.discards, hdiscards, List.filter_append, List.map_append, List.append_assoc]
        rfl
      · exact hkeeping.trans (hrest.keeping b u (hboth ▸ hb))
    | error e =>
      have hboth : (m >>= f).run s = (.error e, t) := by rw [run_bind, hrun]
      refine ⟨?_, ?_, fun b u hb => ?_⟩
      · rw [Lower.after, List.append_nil]
        exact hm.stored
      · rw [hboth, Lower.after, List.append_nil]
        exact hdiscards
      · rw [hboth] at hb
        cases hb

/-- An action that reaches no return, and another one. -/
theorem next {f : α → SessionM β} {rest : α → Session → List ReachedReturn} (hm : Accounts V s m [])
    (hf : ∀ a t, V.Keeping s t → Accounts V t (f a) (rest a t)) :
    Accounts V s (m >>= f) (Lower.after (m.run s) rest) := by
  have hboth := hm.bind hf
  exact hboth

/-- The action does what another one does in a session that is no different. -/
theorem of_run {n : SessionM α} {t : Session} (h : Accounts V t n rs) (hrun : m.run s = n.run t)
    (hst : s.Hushed t) : Accounts V s m rs where
  stored := h.stored
  discards := by rw [hrun, h.discards, hst.discards]
  keeping := fun a u hu => (Summary.Keeping.of_hushed hst).trans (h.keeping a u (hrun ▸ hu))

/-- Asking for the session changes nothing. -/
theorem get {f : Session → SessionM α} (h : Accounts V s (f s) rs) :
    Accounts V s (do f (← MonadState.get)) rs :=
  h.of_run rfl (.refl s)

/-- A script of its own is left again. -/
theorem inScript {scope : LexicalScope} {prologue : List Command} {body : SessionM (List Command)}
    (h : Accounts V (s.opened scope []) body rs) : Accounts V s (Lower.inScript scope prologue body) rs where
  stored := h.stored
  discards := h.discards
  keeping := fun script u hrun => by
    obtain ⟨commands, t, hbody, -, rfl⟩ := Lower.inScript_ok hrun
    have hinner := h.keeping commands t hbody
    exact ⟨hinner.holds, hinner.callables, rfl⟩

/-- Nothing more is reached. -/
theorem last {f : α → SessionM β} (hm : Accounts V s m rs) (hf : ∀ a, Keeps Session.Hushed (f a)) :
    Accounts V s (m >>= f) rs := by
  have hboth : Accounts V s (m >>= f) (rs ++ Lower.after (m.run s) fun _ _ => []) :=
    hm.bind fun a t _ => .hushed (hf a)
  have hnil : Lower.after (m.run s) (fun _ _ => []) = [] := by
    rcases m.run s with ⟨_ | _, _⟩ <;> rfl
  rw [hnil, List.append_nil] at hboth
  exact hboth

end Accounts

/-- Wherever the action begins, if it is inside this callable, it reaches the returns that are listed. -/
def AccountsFrom {α : Type} (V : Summary) (owner : Option DeclId) (m : SessionM α)
    (rs : Session → List ReachedReturn) : Prop :=
  ∀ s, V.Ready owner s → Accounts V s m (rs s)

/-- If this is the body of a callable and returns a value, the summary says so of the callable. -/
def Summary.Expects (V : Summary) (owner : Option DeclId) (returnsValue : Bool) : Prop :=
  ∀ id, owner = some id → returnsValue = true → V id = some true

section Parts

variable {V : Summary} {owner : Option DeclId} {s : Session}

/-- The slot for a value that is returned here. -/
theorem Summary.Ready.returnSlot (hs : V.Ready owner s) (hV : V.Expects owner true) :
    (owner = none ∧ s.callable? = none) ∨ ∃ id k slot, owner = some id ∧
      s.decls.callable? id = some k ∧ k.returnSlot = some slot ∧ s.callable? = some k := by
  have hcallable : s.callable? = owner.bind s.decls.callable? := by
    rw [Surroundings.callable?, hs.owner_eq]
  cases owner with
  | none => exact .inl ⟨rfl, hcallable⟩
  | some id =>
    obtain ⟨k, hk⟩ := Option.isSome_iff_exists.mp (hs.known id rfl)
    have hsome : k.returnSlot.isSome = true :=
      Option.some.inj ((hs.holds id k hk).symm.trans (hV id rfl rfl))
    obtain ⟨slot, hslot⟩ := Option.isSome_iff_exists.mp hsome
    exact .inr ⟨id, k, slot, rfl, hk, hslot, hcallable.trans hk⟩

/-- Where there is a slot the value is stored into it. -/
theorem ReachedReturn.stored_of_slot {r : ReachedReturn} {id : DeclId} {k : Callable} {slot : String}
    (howner : r.session.scope.owner = some id) (hk : r.session.decls.callable? id = some k)
    (hslot : k.returnSlot = some slot) : r.Stored id := by
  refine ⟨k, slot, howner, hk, hslot, fun out t hrun => ?_⟩
  have hfound : r.session.callable?.bind (·.returnSlot) = some slot := by
    rw [Surroundings.callable?, howner]
    show (r.session.decls.callable? id).bind _ = _
    rw [hk]
    exact hslot
  rw [Lower.stmt] at hrun
  obtain ⟨commands, u, hlift, hpure⟩ := run_bind_ok hrun
  obtain ⟨rfl, rfl⟩ := ok_inj hpure
  obtain ⟨fx, hreturned, rfl⟩ := SessionM.lift_ok hlift
  unfold Lower.returned at hreturned
  rw [hfound] at hreturned
  obtain ⟨lowered, gx, hvalue, hend⟩ := run_bind_ok hreturned
  obtain ⟨rfl, rfl⟩ := ok_inj hend
  exact ⟨lowered.commands, lowered.value, _, hvalue, rfl⟩

/-- **A return that is reached** stores its value into the slot of the callable around it, or is warned
about. -/
theorem returning_accounts (hs : V.Ready owner s) (line : Nat) (e : Expr)
    (hV : V.Expects owner (Stmt.returning line (some e)).returnsValue) :
    Accounts V s (SessionM.lift fun q => Lower.returned q line (some e)) [⟨owner, line, e, s⟩] := by
  have hadmits := Effects.Hushed.admits
  have hkeeping : ∀ a t, (SessionM.lift fun q => Lower.returned q line (some e)).run s = (.ok a, t) →
      V.Keeping s t := by
    intro a t hrun
    obtain ⟨fx, -, rfl⟩ := SessionM.lift_ok hrun
    exact .of_decls rfl rfl
  rcases hs.returnSlot hV with ⟨rfl, hnone⟩ | ⟨id, k, slot, rfl, hk, hslot, hcallable⟩
  · refine ⟨fun r hr id hid => ?_, ?_, hkeeping⟩
    · cases List.mem_singleton.mp hr
      cases hid
    · -- the warning comes first
      have hrun : ((Lower.returned s.toSurroundings line (some e)).run s.toEffects).2 =
          ((Lower.expr s.toSurroundings e >>= fun lowered => pure lowered.commands).run
            (s.toEffects.warned (s.warning line discardMessage))).2 := by
        unfold Lower.returned
        rw [hnone]
        rfl
      have hexpr := (hadmits.bind (hadmits.expr s.toSurroundings e) fun lowered =>
        hadmits.pure lowered.commands) (s.toEffects.warned (s.warning line discardMessage))
      rw [SessionM.run_lift]
      show discards ((Lower.returned s.toSurroundings line (some e)).run s.toEffects).2.warnings = _
      rw [hrun]
      exact hexpr.trans (discards_snoc_self rfl)
  · refine ⟨fun r hr id' hid => ?_, ?_, hkeeping⟩
    · cases List.mem_singleton.mp hr
      cases hid
      exact ReachedReturn.stored_of_slot hs.owner_eq hk hslot
    · have hreturned : Keeps Effects.Hushed (Lower.returned s.toSurroundings line (some e)) := by
        unfold Lower.returned
        rw [hcallable, Option.bind_some, hslot]
        exact hadmits.bind (hadmits.value s.toSurroundings e) fun _ => hadmits.pure _
      rw [SessionM.run_lift]
      exact (hreturned s.toEffects).trans (List.append_nil _).symm

/-- The script of a callable. -/
theorem callable_accounts {id : DeclId} (line : Nat) (enclosing : Option ClassScope)
    (prologue : List Command) {body : SessionM (Emitted Flow)} {rs : Session → List ReachedReturn}
    (hbody : AccountsFrom V (some id) body rs) (hs : V.Ready owner s) :
    Accounts V s (Lower.callableScript id line enclosing prologue body)
      (Lower.callableReturns id enclosing rs s) := by
  cases hk : s.decls.callable? id with
  | none =>
    have hreached : Lower.callableReturns id enclosing rs s = [] := by rw [Lower.callableReturns, hk]
    have hrun : (Lower.callableScript id line enclosing prologue body).run s =
        (pure () : SessionM Unit).run s := by
      rw [Lower.callableScript, run_bind, run_get]
      dsimp only
      rw [hk]
    rw [hreached]
    exact (Accounts.pure ()).of_run hrun (.refl s)
  | some k =>
    have hreached : Lower.callableReturns id enclosing rs s =
        rs (s.opened ⟨some id, enclosing⟩ k.slots) := by rw [Lower.callableReturns, hk]
    have hrun : (Lower.callableScript id line enclosing prologue body).run s = (do
        let script ← Lower.inScript ⟨some id, enclosing⟩ prologue do
          k.params.forM fun param => SessionM.declare param.slot
          k.returnSlot.forM SessionM.declare
          return (← body).commands
        SessionM.pushScript k.script script line).run s := by
      rw [Lower.callableScript, run_bind, run_get]
      dsimp only
      rw [hk]
    have hready : V.Ready (some id) (s.opened ⟨some id, enclosing⟩ k.slots) :=
      ⟨hs.holds, rfl, fun i hi => by cases hi; exact Option.isSome_iff_exists.mpr ⟨k, hk⟩⟩
    have hinner := (hbody _ hready).last fun out =>
      Session.Hushed.pure out.commands
    rw [hreached]
    refine Accounts.of_run ?_ hrun (.refl s)
    refine Accounts.last (.inScript (hinner.of_run (Lower.run_declareSlots k s _ _) ?_)) fun script =>
      Session.Hushed.pushScript _ _ _
    exact ⟨rfl, rfl, rfl⟩

end Parts

/-! ## All of lowering -/

namespace Summary.Expects

variable {V : Summary} {owner : Option DeclId}

theorem head {st : Stmt} {rest : List Stmt} (h : V.Expects owner (bodyReturnsValue (st :: rest))) :
    V.Expects owner st.returnsValue := fun id hid hst =>
  h id hid (by rw [bodyReturnsValue, hst, Bool.true_or])

theorem tail {st : Stmt} {rest : List Stmt} (h : V.Expects owner (bodyReturnsValue (st :: rest))) :
    V.Expects owner (bodyReturnsValue rest) := fun id hid hrest =>
  h id hid (by rw [bodyReturnsValue, hrest, Bool.or_true])

/-- The summary is right about a callable, and so about its body. -/
theorem body {id : DeclId} {b : Bool} (h : V id = some b) : V.Expects (some id) b := by
  intro i hi hb
  cases hi
  rw [h, hb]

end Summary.Expects

section Lowering

variable {V : Summary}

open Lower

mutual

/-- **Lowering statements accounts for the returns that it reaches.** -/
theorem stmts_accounts : ∀ (body : List Stmt) (owner : Option DeclId), V.Covers (decls body) →
    V.Expects owner (bodyReturnsValue body) → AccountsFrom V owner (stmts body) (stmtsReturns owner body)
  | [], owner, _, _, s, hs => by
    rw [stmts, stmtsReturns]
    exact .pure _
  | first :: rest, owner, hV, hE, s, hs => by
    obtain ⟨hfirst, hrest⟩ := Summary.Covers.append.mp hV
    have hst := stmt_accounts first owner hfirst hE.head
    have hothers := stmts_accounts rest owner hrest hE.tail
    rw [stmts, stmtsReturns]
    refine (hst s hs).bind fun ⟨commands, flow⟩ t ht => ?_
    cases flow with
    | returned =>
      cases rest with
      | nil => exact .pure _
      | cons next others =>
        refine (Accounts.hushed fun u => ?_).last fun _ => Session.Hushed.pure _
        exact .warned u _ (by rw [head?_append (head?_append rfl)]; decide)
    | next => exact (hothers t (hs.keeping ht)).last fun _ => Session.Hushed.pure _

theorem stmt_accounts : ∀ (st : Stmt) (owner : Option DeclId), V.Covers st.decls →
    V.Expects owner st.returnsValue → AccountsFrom V owner (stmt st) (stmtReturns owner st)
  | .block line body, owner, hV, hE, s, hs => by
    rw [stmt, stmtReturns]
    exact stmts_accounts body owner hV hE s hs
  | .imports line i, owner, _, _, s, _ => by
    rw [stmt, stmtReturns]
    exact .pure _
    all_goals exact nofun
  | .bindings line ds, owner, _, _, s, _ => by
    rw [stmt, stmtReturns]
    exact (Accounts.hushed (Session.Hushed.declarators ds)).last fun _ => Session.Hushed.pure _
    all_goals exact nofun
  | .expression line e, owner, _, _, s, _ => by
    rw [stmt, stmtReturns]
    refine Accounts.last (.hushed (Session.Hushed.lift fun q => ?_)) fun _ => Session.Hushed.pure _
    exact Effects.Hushed.admits.expressionStmt q e
    all_goals exact nofun
  | .function f, owner, hV, _, s, hs => by
    rw [stmt, stmtReturns]
    exact (function_accounts f owner hV s hs).last fun _ => Session.Hushed.pure _
  | .classDef c, owner, hV, _, s, hs => by
    rw [stmt, stmtReturns]
    exact (class_accounts c owner hV s hs).last fun _ => Session.Hushed.pure _
  | .returning line none, owner, _, _, s, _ => by
    rw [stmt, stmtReturns]
    exact (Accounts.hushed fun u => ⟨rfl, rfl, rfl⟩).last fun _ => Session.Hushed.pure _
    all_goals exact nofun
  | .returning line (some e), owner, _, hE, s, hs => by
    rw [stmt, stmtReturns]
    exact (returning_accounts hs line e hE).last fun _ => Session.Hushed.pure _
  | .typeOnly line, owner, _, _, s, _ => by
    rw [stmt, stmtReturns]
    exact .pure _
    all_goals exact nofun
  | .empty line, owner, _, _, s, _ => by
    rw [stmt, stmtReturns]
    exact .pure _
    all_goals exact nofun
  | .other line kind, owner, _, _, s, _ => by
    rw [stmt, stmtReturns]
    refine (Accounts.hushed fun u => ?_).last fun _ => Session.Hushed.pure _
    exact .warned u line (by rw [head?_append (head?_append rfl)]; decide)
    all_goals exact nofun

theorem function_accounts : ∀ (f : FunctionDecl) (owner : Option DeclId), V.Covers f.decls →
    AccountsFrom V owner (function f) (functionReturns f)
  | ⟨id, name, params, some body, isAsync, line⟩, owner, hV, s, hs => by
    obtain ⟨hinner, hid⟩ := hV.function
    have hbody := stmts_accounts body (some id) hinner (.body hid)
    rw [function, functionReturns]
    refine Accounts.next (.none (congrArg discards (Declare.silent.function _ s)) fun _ t hrun =>
      (Declare.function_ok hrun).keeping hV) fun _ t ht => ?_
    have hwarned : t.Hushed (t.warnedIf isAsync line "async function is lowered synchronously") :=
      .warnedIf t isAsync line (by decide)
    have hready := (hs.keeping ht).keeping (.of_hushed hwarned)
    refine (callable_accounts line _ [] hbody hready).of_run ?_ hwarned
    rw [run_warnedIf, ← hwarned.scope]
    rfl
  | ⟨_, _, _, none, _, _⟩, owner, _, s, _ => by
    rw [function, functionReturns]
    exact .pure _

theorem class_accounts : ∀ (c : ClassDecl) (owner : Option DeclId), V.Covers c.decls →
    AccountsFrom V owner (classDef c) (classReturns c)
  | ⟨id, name, parent, isDeclared, isAbstract, members, line⟩, owner, hV, s, hs => by
    have hmembers := hV.classDef.1
    have hconstructor := fun info scope prologue =>
      constructor_accounts members info scope prologue owner hmembers
    have hmethods := fun info scope => methods_accounts members info scope owner hmembers
    rw [classDef, classReturns]
    split
    · exact .pure _
    · refine Accounts.next (.none (congrArg discards (Declare.silent.classDef _ s)) fun _ t hrun =>
        (Declare.class_ok hrun).keeping hV) fun _ t ht => .get ?_
      cases t.decls.class? id with
      | none => exact .pure _
      | some info =>
        refine Accounts.next (.hushed (Session.Hushed.fieldsScript _ _ _ _)) fun _ u hu => .get ?_
        have hready := (hs.keeping ht).keeping hu
        refine Accounts.bind (hconstructor _ _ _ u hready) fun found v hv => ?_
        cases found with
        | true => exact hmethods _ _ v (hready.keeping hv)
        | false =>
          have hstored := Session.Hushed.stored v (initScript info.name)
            [.invoke (u.qualify (classScript info.name))] line
          have hafter := (hready.keeping hv).keeping (.of_hushed hstored)
          refine (hmethods _ _ _ hafter).of_run ?_ hstored
          show (SessionM.pushScript _ _ _ >>= fun _ => methods _ _ _).run v = _
          rw [run_bind, SessionM.run_pushScript]

theorem constructor_accounts : ∀ (ms : List Member) (info : ClassInfo) (scope : ClassScope)
    (prologue : List Command) (owner : Option DeclId), V.Covers (memberDecls ms) →
    AccountsFrom V owner (constructor info scope prologue ms) (constructorReturns info scope ms)
  | [], info, scope, prologue, owner, _, s, _ => by
    rw [constructor, constructorReturns]
    exact .pure _
  | .constructor ⟨id, _, _, body, _, line⟩ :: rest, info, scope, prologue, owner, hV, s, hs => by
    obtain ⟨hfirst, hrest⟩ := Summary.Covers.append.mp hV
    obtain ⟨hinner, hid⟩ := Summary.Covers.function hfirst
    have hothers := constructor_accounts rest info scope prologue owner hrest
    rw [constructor.eq_def, constructorReturns.eq_def]
    dsimp only
    split
    · cases body with
      | some body =>
        have hbody := stmts_accounts body (some id) hinner (.body hid)
        exact (callable_accounts line _ _ hbody hs).last fun _ => Session.Hushed.pure _
      | none => exact .pure _
    · exact hothers s hs
  | .method f isStatic :: rest, info, scope, prologue, owner, hV, s, hs => by
    rw [constructor.eq_def, constructorReturns.eq_def]
    exact constructor_accounts rest info scope prologue owner (Summary.Covers.append.mp hV).2 s hs
  | .property p :: rest, info, scope, prologue, owner, hV, s, hs => by
    rw [constructor.eq_def, constructorReturns.eq_def]
    exact constructor_accounts rest info scope prologue owner hV s hs
  | .other line kind :: rest, info, scope, prologue, owner, hV, s, hs => by
    rw [constructor.eq_def, constructorReturns.eq_def]
    exact constructor_accounts rest info scope prologue owner hV s hs

theorem methods_accounts : ∀ (ms : List Member) (info : ClassInfo) (scope : ClassScope)
    (owner : Option DeclId), V.Covers (memberDecls ms) →
    AccountsFrom V owner (methods info scope ms) (methodsReturns info scope ms)
  | [], info, scope, owner, _, s, _ => by
    rw [methods, methodsReturns]
    exact .pure _
  | .method ⟨id, name, params, some body, isAsync, line⟩ isStatic :: rest, info, scope, owner, hV, s,
    hs => by
    obtain ⟨hfirst, hrest⟩ := Summary.Covers.append.mp hV
    obtain ⟨hinner, hid⟩ := Summary.Covers.function hfirst
    have hbody := stmts_accounts body (some id) hinner (.body hid)
    have hothers := methods_accounts rest info scope owner hrest
    have hwarned : s.Hushed (s.warnedIf isAsync line "async method is lowered synchronously") :=
      .warnedIf s isAsync line (by decide)
    have hready := hs.keeping (.of_hushed hwarned)
    rw [methods, methodsReturns]
    refine Accounts.of_run ?_ (run_warnedIf isAsync line _ s _) hwarned
    exact (callable_accounts line _ _ hbody hready).bind fun _ u hu => hothers u (hready.keeping hu)
  | .method ⟨id, name, params, none, isAsync, line⟩ isStatic :: rest, info, scope, owner, hV, s, hs => by
    rw [methods.eq_def, methodsReturns.eq_def]
    exact methods_accounts rest info scope owner (Summary.Covers.append.mp hV).2 s hs
  | .constructor f :: rest, info, scope, owner, hV, s, hs => by
    rw [methods.eq_def, methodsReturns.eq_def]
    exact methods_accounts rest info scope owner (Summary.Covers.append.mp hV).2 s hs
  | .property p :: rest, info, scope, owner, hV, s, hs => by
    rw [methods.eq_def, methodsReturns.eq_def]
    exact methods_accounts rest info scope owner hV s hs
  | .other line kind :: rest, info, scope, owner, hV, s, hs => by
    have hwarned : s.Hushed (s.warned line s!"unsupported class member {kind} in `{info.name}`") :=
      .warned s line (by
        rw [show (s!"unsupported class member {kind} in `{info.name}`").toList.head? = some 'u' from
          head?_append (head?_append (head?_append (head?_append rfl)))]
        decide)
    have hready := hs.keeping (.of_hushed hwarned)
    have hothers := methods_accounts rest info scope owner hV _ hready
    rw [methods, methodsReturns]
    exact hothers.of_run rfl hwarned

end

end Lowering

/-! ## Units -/

/-- What a unit says of its callables. -/
def Source.CompilationUnit.summary (u : CompilationUnit) : Summary := fun id =>
  ((decls u.statements).find? (·.id = id)).bind Decl.returnsValue?

/-- No two declarations have the same id. -/
theorem Source.CompilationUnit.summary_covers {u : CompilationUnit}
    (h : ((decls u.statements).map Decl.id).Nodup) : u.summary.Covers (decls u.statements) := by
  intro d hd
  have hfound : ((decls u.statements).find? (·.id = d.id)) = some d := by
    cases hfind : (decls u.statements).find? (·.id = d.id) with
    | none => exact absurd (List.find?_eq_none.mp hfind d hd) (by simp)
    | some e =>
      have hid : e.id = d.id := by simpa using List.find?_some hfind
      exact congrArg some (List.inj_on_of_nodup_map h (List.mem_of_find?_eq_some hfind) hd hid)
  rw [summary, hfound]
  rfl

namespace Session

/-- The returns that compiling a unit reaches. -/
def reachedReturns (s : Session) (u : CompilationUnit) : List ReachedReturn :=
  Lower.after ((Declare.unit u.statements).run (s.begin u)) fun _ t =>
    Lower.stmtsReturns none u.statements t

theorem lowerUnit_accounts (s : Session) {u : CompilationUnit}
    (hV : u.summary.Covers (decls u.statements)) :
    Accounts u.summary (s.begin u) (lowerUnit u) (s.reachedReturns u) := by
  have hbegin : u.summary.Ready none (s.begin u) :=
    ⟨fun id k hk => (nomatch (DeclTable.callable?_none (s.begin_free u id)).symm.trans hk), rfl, nofun⟩
  refine Accounts.next (.none (congrArg discards (Declare.silent.unit _ _)) fun _ t hrun =>
    (Declare.unit_ok hrun).keeping hV) fun _ t ht => ?_
  refine (stmts_accounts u.statements none hV nofun t (hbegin.keeping ht)).last fun body => ?_
  exact Hushed.bind (fun s => ⟨rfl, rfl, rfl⟩) fun _ => Hushed.bind (fun s => .refl s) fun _ =>
    Hushed.pushScript _ _ _

/-- What is said while a unit is compiled, failing or not. -/
theorem compile_warnings (s : Session) (u : CompilationUnit) :
    (∀ c, (s.compile u).1 = .ok c → c.warnings = ((lowerUnit u).run (s.begin u)).2.warnings) ∧
    ∀ e, (s.compile u).1 = .error e →
      (s.compile u).2.warnings = ((lowerUnit u).run (s.begin u)).2.warnings := by
  unfold compile
  rcases (lowerUnit u).run (s.begin u) with ⟨_ | _, t⟩
  · exact ⟨nofun, fun _ _ => rfl⟩
  · refine ⟨fun c hc => ?_, nofun⟩
    cases hc
    rfl

/-- **Returned values always have a slot.**  When a loaded unit is compiled, whether or not that succeeds,
each return of a value that lowering reaches in a callable stores it into the return slot of this callable.
A value is discarded, with a warning, once for each that is reached outside of all callables, and never
for another one. -/
theorem returned_values {document : Json.Value} {fallback : String} {u : CompilationUnit}
    (hload : Document.load document fallback = .ok u) (s : Session) :
    (∀ r ∈ s.reachedReturns u, ∀ id, r.owner = some id → r.Stored id) ∧
    (∀ c, (s.compile u).1 = .ok c →
      discards c.warnings = ((s.reachedReturns u).filter (·.topLevel)).map (·.warning)) ∧
    ∀ e, (s.compile u).1 = .error e →
      discards (s.compile u).2.warnings =
        ((s.reachedReturns u).filter (·.topLevel)).map (·.warning) := by
  have haccounts := s.lowerUnit_accounts (CompilationUnit.summary_covers (Document.load_numbers hload).1)
  obtain ⟨hok, herror⟩ := s.compile_warnings u
  refine ⟨haccounts.stored, fun c hc => ?_, fun e he => ?_⟩
  · rw [hok c hc]
    exact haccounts.discards
  · rw [herror e he]
    exact haccounts.discards

/-- Functions in functions, a method, and two returns at the top:
`function f() { function g() { return 1 } { return 2 } return 3 }`, `class C { m() { return 4 } }`,
`return 5`, `return 6`, where each value is the line of its return. -/
def returningDocument : Json.Value :=
  let returning (n : Int) : Json.Value :=
    .object [("kind", .string "ReturnStatement"), ("line", .number (.integer n)),
      ("expression", .object [("kind", .string "NumericLiteral"), ("value", .number (.integer n))])]
  .object [("statements", .array [
    namedNode "FunctionDeclaration" "f" [("body", .array [
      namedNode "FunctionDeclaration" "g" [("body", .array [returning 1])],
      .object [("kind", .string "Block"), ("statements", .array [returning 2])],
      returning 3])],
    namedNode "ClassDeclaration" "C" [("members", .array [
      namedNode "MethodDeclaration" "m" [("body", .array [returning 4])]])],
    returning 5, returning 6])]

/-- The unit of that document. -/
def returningUnit : CompilationUnit :=
  let returning (n : Nat) : Stmt := .returning n (some (.number ⟨n, none⟩ (.ofInt n)))
  { fileName := "main.ts"
    context := "main"
    statements := [
      .function ⟨1, some "f", [], some [
        .function ⟨0, some "g", [], some [returning 1], false, 0⟩,
        .block 0 [returning 2], returning 3], false, 0⟩,
      .classDef ⟨3, some "C", none, false, false,
        [.method ⟨2, some "m", [], some [returning 4], false, 0⟩ false], 0⟩,
      returning 5, returning 6]
    declCount := 4 }

/-- Four of the returns are reached, and one of them is at the top. -/
theorem returned_values_nested :
    ∃ c, Document.load returningDocument "main.ts" = .ok returningUnit ∧
      (compile {} returningUnit).1 = .ok c ∧
      (reachedReturns {} returningUnit).map (fun r => (r.owner, r.line)) =
        [(some 0, 1), (some 1, 2), (some 2, 4), (none, 5)] ∧
      (∀ r ∈ reachedReturns {} returningUnit, ∀ id, r.owner = some id → r.Stored id) ∧
      discards c.warnings = [⟨.warning, ⟨5, "main.ts"⟩, discardMessage⟩] := by
  have hload : Document.load returningDocument "main.ts" = .ok returningUnit := rfl
  obtain ⟨c, hc⟩ : ∃ c, (compile {} returningUnit).1 = .ok c := exists_compilation (by decide +kernel)
  obtain ⟨hstored, hcompiled, -⟩ := returned_values hload {}
  have hwarnings : ((reachedReturns {} returningUnit).filter (·.topLevel)).map (·.warning) =
      [⟨.warning, ⟨5, "main.ts"⟩, discardMessage⟩] := by decide +kernel
  exact ⟨c, hload, hc, by decide +kernel, hstored, (hcompiled c hc).trans hwarnings⟩

end Session

end FrameScript
