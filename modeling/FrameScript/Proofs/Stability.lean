/-
  What every run does to a session, failing or not.

  A successful run is told step by step elsewhere; here the run may stop anywhere.  Each action is
  made of a few steps, and where a relation between sessions is reflexive, transitive and admits each
  step, every action keeps it (`Keeps`), however far the action gets:

  1. `Declare.Admits R` lists the steps of declaring, and `Declare.Admits.unit` is the run over a unit;
  2. `Lower.Admits R H` lists the steps of lowering.  Two relations are needed: `R` is what statements
     may do to the script they stand in, and `H` what a hoisted script may do to the session around
     it.  They meet where a script is closed: what its body did by `R` comes to `H` outside.
  3. `Lower.Admits.stmts` is the run over statements, by induction over nested bodies.

  The proofs follow the program text.  A statement about failing runs is then a choice of `R` and `H`
  and one line per step.
-/
import FrameScript.Proofs.Logs

namespace FrameScript

open Source

/-- A relation between sessions that admits every step of declaring. -/
structure Declare.Admits (R : Session → Session → Prop) : Prop where
  refl : ∀ s, R s s
  trans : ∀ {s t u}, R s t → R t u → R s u
  counted : ∀ s n, R s (s.counted n)
  registered : ∀ s symbol, R s (s.registered symbol)
  recorded : ∀ s id d, R s (s.recorded id d)

/-- Two relations between sessions that admit every step of lowering: `R` inside a script and `H`
around a hoisted one. -/
structure Lower.Admits (R H : Session → Session → Prop) : Prop extends Declare.Admits R where
  declaring : ∀ s names, R s (s.declaring names)
  effects : ∀ s fx, s.toEffects.Extends fx → R s (s.withEffects fx)
  hoisted : ∀ {s t}, H s t → R s t
  around_refl : ∀ s, H s s
  around_trans : ∀ {s t u}, H s t → H t u → H s u
  warned : ∀ s line message, H s (s.warned line message)
  stored : ∀ s name body line, H s (s.stored name body line)
  script : ∀ s t scope, R (s.opened scope []) t → H s (s.closed t)

/-! ## Declaring -/

namespace Declare.Admits

variable {R : Session → Session → Prop} (h : Declare.Admits R) {α β : Type}
include h

theorem bind {m : SessionM α} {f : α → SessionM β} (hm : Keeps R m) (hf : ∀ a, Keeps R (f a)) :
    Keeps R (m >>= f) :=
  Keeps.bind (R := R) h.trans hm hf

theorem pure (a : α) : Keeps R (Pure.pure a : SessionM α) := Keeps.pure h.refl a

theorem get : Keeps R (MonadState.get : SessionM Session) := fun s => h.refl s

theorem fail (line : Nat) (cause : Cause) : Keeps R (SessionM.fail line cause : SessionM α) :=
  fun s => h.refl s

theorem freshId (stem : Option String) : Keeps R (SessionM.freshId stem) := fun s => h.counted s 1

theorem register (symbol : Symbol) : Keeps R (SessionM.register symbol) :=
  fun s => h.registered s symbol

theorem record (id : DeclId) (d : Declaration) : Keeps R (SessionM.record id d) :=
  fun s => h.recorded s id d

theorem forM {γ : Type} {f : γ → SessionM Unit} (hf : ∀ x, Keeps R (f x)) (xs : List γ) :
    Keeps R (xs.forM f) := by
  induction xs with
  | nil => exact h.pure _
  | cons x rest ih =>
    show Keeps R (f x >>= fun _ => rest.forM f)
    exact h.bind (hf x) fun _ => ih

theorem params (ps : List Param) : Keeps R (Declare.params ps) := by
  induction ps with
  | nil => exact h.pure _
  | cons p rest ih =>
    have hrest : ∀ name, Keeps R (do
        let slot ← SessionM.freshId name
        return { name, slot } :: (← Declare.params rest) : SessionM (List ParamSlot)) := fun name =>
      h.bind (h.freshId name) fun _ => h.bind ih fun _ => h.pure _
    rw [Declare.params]
    dsimp only
    split
    · exact h.bind (h.fail _ _) fun _ => hrest _
    · exact hrest _

theorem callable (script : String) (f : FunctionDecl) : Keeps R (Declare.callable script f) := by
  unfold Declare.callable
  refine h.bind h.get fun s => h.bind (h.params _) fun slots => ?_
  dsimp only
  split
  · refine h.bind ?_ fun _ => h.pure _
    intro s
    rw [run_map]
    exact h.freshId (some (script ++ "_return")) s
  · exact h.bind (h.pure _) fun _ => h.pure _

theorem nameOf (name : Option String) : Keeps R (Declare.nameOf name) := by
  cases name with
  | some name => exact h.pure name
  | none => exact h.freshId none

theorem function (f : FunctionDecl) : Keeps R (Declare.function f) := by
  unfold Declare.function
  refine h.bind h.get fun s => ?_
  split
  · exact h.pure _
  · refine h.bind (h.nameOf _) fun name => h.bind (h.callable _ _) fun c => ?_
    exact h.bind (h.register _) fun _ => h.record _ _

theorem member (info : ClassInfo) (m : Member) : Keeps R (Declare.member info m) := by
  cases m with
  | method f isStatic =>
    unfold Declare.member
    dsimp only
    split
    · refine h.bind (h.callable _ _) fun c => h.bind (h.register _) fun _ => ?_
      exact h.bind (h.record _ _) fun _ => h.pure _
    · exact h.pure _
  | constructor f =>
    unfold Declare.member
    dsimp only
    split
    · refine h.bind (h.callable _ _) fun c => ?_
      exact h.bind (h.record _ _) fun _ => h.pure _
    · exact h.pure _
  | property p =>
    exact h.bind (h.freshId _) fun slot => h.bind (h.register _) fun _ => h.pure _
  | other line kind => exact h.pure _

theorem members (ms : List Member) (info : ClassInfo) : Keeps R (ms.foldlM Declare.member info) := by
  induction ms generalizing info with
  | nil => exact h.pure info
  | cons m rest ih =>
    rw [List.foldlM_cons]
    exact h.bind (h.member info m) ih

theorem classDef (c : ClassDecl) : Keeps R (Declare.classDef c) := by
  unfold Declare.classDef
  refine h.bind h.get fun s => ?_
  split
  · exact h.pure _
  · refine h.bind (h.nameOf _) fun name => h.bind h.get fun s => ?_
    refine h.bind (h.register _) fun _ => h.bind (h.members _ _) fun info => ?_
    exact h.record _ _

theorem registeredAll (s : Session) (symbols : List Symbol) : R s (s.registeredAll symbols) := by
  induction symbols generalizing s with
  | nil => exact h.refl s
  | cons symbol rest ih => exact h.trans (h.registered s symbol) (ih _)

theorem stmt (st : Stmt) : Keeps R (Declare.stmt st) := by
  cases st with
  | imports line i =>
    intro s
    rw [Declare.stmt, Declare.run_imports]
    exact h.registeredAll s _
  | function f => exact h.function f
  | classDef c => exact h.classDef c
  | _ => exact h.pure _

/-- **Declaring a unit keeps what its steps keep**, however far it gets. -/
theorem unit (statements : List Stmt) : Keeps R (Declare.unit statements) := h.forM h.stmt statements

end Declare.Admits

/-! ## Lowering of expressions -/

namespace Effects.Admits

variable {R : Effects → Effects → Prop} (h : Admits R) (q : Surroundings)
include h

theorem expressionStmt (e : Expr) : Keeps R (Lower.expressionStmt q e) := by
  unfold Lower.expressionStmt
  dsimp only
  split
  · refine h.bind (h.fail q _ _) fun _ => ?_
    split
    · exact h.bind (h.update q _ _ _ _) fun _ => h.pure _
    · exact h.bind (h.expr q _) fun _ => h.pure _
  · split
    · exact h.bind (h.update q _ _ _ _) fun _ => h.pure _
    · exact h.bind (h.expr q _) fun _ => h.pure _

/-- Beyond its value a return may be warned about. -/
theorem returned (line : Nat)
    (hwarned : ∀ fx : Effects,
      R fx (fx.warned (q.warning line "return value outside of a function is discarded")))
    (value : Option Expr) : Keeps R (Lower.returned q line value) := by
  cases value with
  | none => exact h.pure _
  | some e =>
    unfold Lower.returned
    dsimp only
    split
    · exact h.bind (h.value q e) fun _ => h.pure _
    · have hwarn : Keeps R (Lower.warn q line "return value outside of a function is discarded") :=
        hwarned
      exact h.bind hwarn fun _ => h.bind (h.expr q e) fun _ => h.pure _

theorem fields (info : ClassInfo) (ms : List Member) : Keeps R (Lower.fields q info ms) := by
  induction ms with
  | nil => exact h.pure _
  | cons m rest ih =>
    cases m with
    | property p =>
      rw [Lower.fields]
      split
      · exact h.bind (h.value q _) fun _ => h.bind ih fun _ => h.pure _
      · exact ih
    | _ => simpa only [Lower.fields] using ih

end Effects.Admits

/-! ## Lowering of statements -/

/-- What is done after an action is done to the session that the action leaves, if it gets there. -/
theorem Keeps.after {ε σ α β : Type} {H : σ → σ → Prop} (hrefl : ∀ s, H s s)
    (m : ExceptT ε (StateM σ) α) {f : α → ExceptT ε (StateM σ) β} (hf : ∀ a, Keeps H (f a)) (s : σ) :
    H (m.run s).2 ((m >>= f).run s).2 := by
  rw [run_bind]
  rcases m.run s with ⟨r, t⟩
  cases r with
  | ok a => exact hf a t
  | error e => exact hrefl t

namespace Lower.Admits

variable {R H : Session → Session → Prop} (h : Lower.Admits R H) {α β : Type}
include h

theorem around_bind {m : SessionM α} {f : α → SessionM β} (hm : Keeps H m)
    (hf : ∀ a, Keeps H (f a)) : Keeps H (m >>= f) :=
  Keeps.bind (R := H) h.around_trans hm hf

theorem around_pure (a : α) : Keeps H (Pure.pure a : SessionM α) := Keeps.pure h.around_refl a

theorem around_get : Keeps H (MonadState.get : SessionM Session) := fun s => h.around_refl s

theorem warn (line : Nat) (message : String) : Keeps H (SessionM.warn line message) :=
  fun s => h.warned s line message

theorem pushScript (name : String) (body : List Command) (line : Nat) :
    Keeps H (SessionM.pushScript name body line) := by
  intro s
  rw [SessionM.run_pushScript]
  exact h.stored s name body line

theorem declare (name : String) : Keeps R (SessionM.declare name) := fun s => h.declaring s [name]

theorem lift {action : Surroundings → Lowering α} (ha : ∀ q, Keeps Effects.Extends (action q)) :
    Keeps R (SessionM.lift action) :=
  fun s => h.effects s _ (ha s.toSurroundings s.toEffects)

theorem inScript {scope : LexicalScope} {prologue : List Command} {body : SessionM (List Command)}
    (hbody : Keeps R body) : Keeps H (Lower.inScript scope prologue body) := by
  intro s
  rw [run_inScript]
  exact h.script s _ scope (hbody _)

theorem declarator (d : Declarator) : Keeps R (Lower.declarator d) := by
  unfold Lower.declarator
  split
  · exact h.fail _ _
  · refine h.bind (h.freshId _) fun slot => h.bind (h.declare _) fun _ => ?_
    refine h.bind (h.register _) fun _ => ?_
    split
    · exact h.pure _
    · have hextends := Effects.Extends.admits
      exact h.lift fun q => hextends.bind (hextends.value q _) fun _ => hextends.pure _

theorem declarators (ds : List Declarator) : Keeps R (Lower.declarators ds) := by
  induction ds with
  | nil => exact h.pure _
  | cons d rest ih =>
    rw [Lower.declarators]
    exact h.bind (h.declarator d) fun _ => h.bind ih fun _ => h.pure _

theorem callableScript {id : DeclId} {line : Nat} {enclosing : Option ClassScope}
    {prologue : List Command} {body : SessionM (Emitted Flow)} (hbody : Keeps R body) :
    Keeps H (Lower.callableScript id line enclosing prologue body) := by
  unfold Lower.callableScript
  refine h.around_bind h.around_get fun s => ?_
  split
  · exact h.around_pure _
  · next k _ =>
    have hreturn : Keeps R (k.returnSlot.forM SessionM.declare) := by
      cases k.returnSlot with
      | none => exact h.pure _
      | some slot => exact h.declare slot
    refine h.around_bind (h.inScript ?_) fun script => h.pushScript _ _ _
    refine h.bind (h.forM (fun _ => h.declare _) _) fun _ => ?_
    exact h.bind hreturn fun _ => h.bind hbody fun _ => h.pure _

theorem fieldsScript (info : ClassInfo) (scope : ClassScope) (ms : List Member) (line : Nat) :
    Keeps H (Lower.fieldsScript info scope ms line) := by
  unfold Lower.fieldsScript
  refine h.around_bind (h.inScript ?_) fun script => h.pushScript _ _ _
  refine h.bind (h.forM (fun _ => h.declare _) _) fun _ => ?_
  exact h.lift fun q => Effects.Extends.admits.fields q info ms

theorem warnIf (c : Bool) (line : Nat) (message : String) {rest : SessionM α} (hrest : Keeps H rest) :
    Keeps H (do
      if c then SessionM.warn line message
      rest) := by
  cases c with
  | true => exact h.around_bind (h.warn _ _) fun _ => hrest
  | false => exact hrest

/-- A hoisted statement is declared, and then only scripts around it are made. -/
theorem hoisting {m : SessionM Unit} {declare : SessionM Unit} (hdeclare : Keeps R declare)
    (hm : ∀ s, H (declare.run s).2 (m.run s).2) : Keeps R m :=
  fun s => h.trans (hdeclare s) (h.hoisted (hm s))

mutual

/-- **Lowering statements keeps what its steps keep**, however far it gets and however deep the
bodies are nested. -/
theorem stmts : ∀ body, Keeps R (Lower.stmts body)
  | [] => h.pure _
  | first :: rest => by
    have hfirst := stmt first
    have hrest := stmts rest
    rw [Lower.stmts]
    refine h.bind hfirst fun lowered => ?_
    split
    · split
      · exact h.bind (fun s => h.hoisted (h.warned s _ _)) fun _ => h.pure _
      · exact h.pure _
    · exact h.bind hrest fun _ => h.pure _

theorem stmt : ∀ st, Keeps R (Lower.stmt st)
  | .block _ body => stmts body
  | .imports .. => h.pure _
  | .bindings _ ds => h.bind (h.declarators ds) fun _ => h.pure _
  | .expression _ e => h.bind (h.lift fun q => Effects.Extends.admits.expressionStmt q e) fun _ => h.pure _
  | .function f => h.bind (h.hoisting (h.toAdmits.function f) (function f)) fun _ => h.pure _
  | .classDef c => h.bind (h.hoisting (h.toAdmits.classDef c) (classDef c)) fun _ => h.pure _
  | .returning line value => by
    refine h.bind (h.lift fun q => ?_) fun _ => h.pure _
    exact Effects.Extends.admits.returned q line (fun fx => .warned fx _) value
  | .typeOnly _ => h.pure _
  | .empty _ => h.pure _
  | .other _ _ => h.bind (fun s => h.hoisted (h.warned s _ _)) fun _ => h.pure _

/-- Beyond its declaration a function only makes a script. -/
theorem function : ∀ (f : FunctionDecl) (s : Session),
    H ((Declare.function f).run s).2 ((Lower.function f).run s).2
  | ⟨id, name, params, some body, isAsync, line⟩, s => by
    have hbody := stmts body
    rw [Lower.function]
    refine Keeps.after h.around_refl _ (fun _ => h.warnIf _ _ _ ?_) s
    exact h.around_bind h.around_get fun s => h.callableScript hbody
  | ⟨id, name, params, none, isAsync, line⟩, s => h.around_refl s

/-- Beyond its declaration a class only makes scripts. -/
theorem classDef : ∀ (c : ClassDecl) (s : Session),
    H ((Declare.classDef c).run s).2 ((Lower.classDef c).run s).2
  | ⟨id, name, parent, isDeclared, isAbstract, members, line⟩, s => by
    have hconstructor := fun info scope prologue => constructor info scope prologue members
    have hmethods := fun info scope => methods info scope members
    rw [Lower.classDef]
    by_cases hskip : (isDeclared || isAbstract) = true
    · have hdeclare : (Declare.classDef ⟨id, name, parent, isDeclared, isAbstract, members, line⟩).run
          s = (.ok (), s) := by
        rw [Declare.classDef, run_bind, run_get]
        dsimp only
        rw [if_pos (by rw [hskip]; rfl)]
        rfl
      rw [if_pos hskip, hdeclare]
      exact h.around_refl s
    · rw [if_neg hskip]
      refine Keeps.after h.around_refl _ (fun _ => h.around_bind h.around_get fun t => ?_) s
      split
      · exact h.around_pure _
      · refine h.around_bind (h.fieldsScript _ _ _ _) fun _ => h.around_bind h.around_get fun t => ?_
        refine h.around_bind (hconstructor _ _ _) fun found => ?_
        split
        · exact hmethods _ _
        · exact h.around_bind (h.pushScript _ _ _) fun _ => hmethods _ _

theorem constructor (info : ClassInfo) (scope : ClassScope) (prologue : List Command) :
    ∀ ms, Keeps H (Lower.constructor info scope prologue ms)
  | [] => h.around_pure _
  | .constructor ⟨id, _, _, some body, _, line⟩ :: rest => by
    have hbody := stmts body
    have hrest := constructor info scope prologue rest
    rw [Lower.constructor]
    split
    · exact h.around_bind (h.callableScript hbody) fun _ => h.around_pure _
    · exact hrest
  | .constructor ⟨id, _, _, none, _, line⟩ :: rest => by
    have hrest := constructor info scope prologue rest
    rw [Lower.constructor]
    split
    · exact h.around_pure _
    · exact hrest
  | .method .. :: rest => constructor info scope prologue rest
  | .property _ :: rest => constructor info scope prologue rest
  | .other .. :: rest => constructor info scope prologue rest

theorem methods (info : ClassInfo) (scope : ClassScope) :
    ∀ ms, Keeps H (Lower.methods info scope ms)
  | [] => h.around_pure _
  | .method ⟨id, _, _, some body, isAsync, line⟩ _ :: rest => by
    have hbody := stmts body
    have hrest := methods info scope rest
    rw [Lower.methods]
    refine h.warnIf _ _ _ ?_
    exact h.around_bind (h.callableScript hbody) fun _ => hrest
  | .method ⟨_, _, _, none, _, _⟩ _ :: rest => methods info scope rest
  | .constructor _ :: rest => methods info scope rest
  | .property _ :: rest => methods info scope rest
  | .other .. :: rest => h.around_bind (h.warn _ _) fun _ => methods info scope rest

end

/-- **Compiling a unit keeps what its steps keep**, from its first declaration on. -/
theorem lowerUnit (u : CompilationUnit)
    (hpreamble : ∀ s : Session, R s { s with allocator := { s.allocator with preamble := [] } }) :
    Keeps R (Session.lowerUnit u) := by
  refine h.bind (h.toAdmits.unit _) fun _ => h.bind (h.stmts _) fun body => ?_
  refine h.bind (fun s => hpreamble s) fun preamble => h.bind h.get fun s => ?_
  exact fun t => h.hoisted (h.pushScript _ _ _ t)

end Lower.Admits

end FrameScript
