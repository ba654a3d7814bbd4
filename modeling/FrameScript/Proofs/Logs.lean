/-
  The program follows the rules.

  `stmtsLog` computes the log of lowering some statements: it walks over the syntax as lowering does,
  and asks the program itself for the session in which the next piece starts.  `stmts_runs` shows
  that every successful run of the program is a run by the rules of `Runs`, with this log.
-/
import FrameScript.Proofs.Runs

namespace FrameScript

open Source

/-! ## The log of a run, computed -/

namespace Lower

def declaratorLog (d : Declarator) (s : Session) : List Event :=
  match d.binding, d.initializer with
  | .identifier name, some e => [.lowers (s.withVariable name).toSurroundings e]
  | _, _ => []

def declaratorsLog : List Declarator → Session → List Event
  | [], _ => []
  | d :: rest, s => declaratorLog d s ++ declaratorsLog rest ((declarator d).run s).2

def fieldsLog (q : Surroundings) (info : ClassInfo) : List Member → List Event
  | [] => []
  | .property p :: rest =>
    match p.initializer, info.fieldSlot? p.name with
    | some e, some _ => .lowers q e :: fieldsLog q info rest
    | _, _ => fieldsLog q info rest
  | _ :: rest => fieldsLog q info rest

/-- The log of the script of a callable, given that of its body. -/
def callableLog (id : DeclId) (enclosing : Option ClassScope) (body : Session → List Event)
    (s : Session) : List Event :=
  match s.decls.callable? id with
  | none => []
  | some k => .hoists id :: body (s.opened ⟨some id, enclosing⟩ k.slots)

/-- The constructor of a class, or the script that stands for one. -/
def initializer (info : ClassInfo) (scope : ClassScope) (ms : List Member) (line : Nat) :
    SessionM Unit := do
  let prologue := [Command.invoke ((← get).qualify (classScript info.name))]
  unless ← constructor info scope prologue ms do
    SessionM.pushScript (initScript info.name) prologue line

mutual

/-- The log of lowering statements from a session. -/
def stmtsLog : List Stmt → Session → List Event
  | [], _ => []
  | first :: rest, s =>
    match (stmt first).run s with
    | (.ok ⟨_, .next⟩, t) => stmtLog first s ++ stmtsLog rest t
    | _ => stmtLog first s

def stmtLog : Stmt → Session → List Event
  | .block _ body, s => stmtsLog body s
  | .bindings _ ds, s => declaratorsLog ds s
  | .expression _ e, s => [.lowers s.toSurroundings e.unwrapped]
  | .function f, s => functionLog f s
  | .classDef c, s => classLog c s
  | .returning _ (some e), s => [.lowers s.toSurroundings e]
  | _, _ => []

def functionLog : FunctionDecl → Session → List Event
  | ⟨id, name, params, some body, isAsync, line⟩, s =>
    let t := ((Declare.function ⟨id, name, params, some body, isAsync, line⟩).run s).2
    callableLog id t.scope.enclosing (stmtsLog body)
      (t.warnedIf isAsync line "async function is lowered synchronously")
  | ⟨_, _, _, none, _, _⟩, _ => []

def classLog : ClassDecl → Session → List Event
  | ⟨id, name, parent, isDeclared, isAbstract, members, line⟩, s =>
    if isDeclared || isAbstract then []
    else
      let t := ((Declare.classDef ⟨id, name, parent, isDeclared, isAbstract, members, line⟩).run s).2
      match t.decls.class? id with
      | none => []
      | some info =>
        let scope : ClassScope := ⟨info.name, parent⟩
        let u := ((fieldsScript info scope members line).run t).2
        let v := ((initializer info scope members line).run u).2
        fieldsLog (t.opened ⟨none, some scope⟩ []).toSurroundings info members ++
          (constructorLog info scope members u ++ methodsLog info scope members v)

def constructorLog (info : ClassInfo) (scope : ClassScope) : List Member → Session → List Event
  | [], _ => []
  | .constructor ⟨id, _, _, body, _, _⟩ :: rest, s =>
    if info.constructor = some id then
      match body with
      | some body => callableLog id (some scope) (stmtsLog body) s
      | none => []
    else constructorLog info scope rest s
  | _ :: rest, s => constructorLog info scope rest s

def methodsLog (info : ClassInfo) (scope : ClassScope) : List Member → Session → List Event
  | [], _ => []
  | .method ⟨id, _, _, some body, isAsync, line⟩ _ :: rest, s =>
    let t := s.warnedIf isAsync line "async method is lowered synchronously"
    callableLog id (some scope) (stmtsLog body) t ++
      methodsLog info scope rest ((callableScript id line (some scope) [] (stmts body)).run t).2
  | .other line kind :: rest, s =>
    methodsLog info scope rest
      (s.warned line s!"unsupported class member {kind} in `{info.name}`")
  | _ :: rest, s => methodsLog info scope rest s

end

end Lower

/-! ## Successful runs of the parts -/

namespace Lower

open SessionM

theorem declarator_runs {d : Declarator} {s t : Session} {commands : List Command}
    (h : (declarator d).run s = (.ok commands, t)) :
    Runs (.declarator d) s (declaratorLog d s) ⟨commands, .next⟩ t := by
  unfold declarator at h
  unfold declaratorLog
  cases hbinding : d.binding with
  | pattern =>
    rw [hbinding] at h
    cases h
  | identifier name =>
    rw [hbinding] at h
    dsimp only at h
    simp only [run_bind, run_freshId, run_declare, run_register] at h
    cases hinit : d.initializer with
    | none =>
      rw [hinit] at h
      obtain ⟨rfl, rfl⟩ := ok_inj h
      exact .declares hbinding hinit s
    | some e =>
      rw [hinit] at h
      obtain ⟨fx, hrun, rfl⟩ := lift_ok h
      obtain ⟨lowered, gx, hvalue, hpure⟩ := run_bind_ok hrun
      obtain ⟨rfl, rfl⟩ := ok_inj hpure
      exact .evaluates (.initializer hbinding hinit s) (.stored _ (value_ok hvalue))

theorem declarators_runs {ds : List Declarator} {s t : Session} {commands : List Command}
    (h : (declarators ds).run s = (.ok commands, t)) :
    Runs (.declarators ds) s (declaratorsLog ds s) ⟨commands, .next⟩ t := by
  induction ds generalizing s commands with
  | nil =>
    obtain ⟨rfl, rfl⟩ := ok_inj h
    exact .idle (.noDeclarators s)
  | cons d rest ih =>
    rw [declarators] at h
    obtain ⟨first, s₁, hfirst, h₁⟩ := run_bind_ok h
    obtain ⟨others, s₂, hrest, h₂⟩ := run_bind_ok h₁
    obtain ⟨rfl, rfl⟩ := ok_inj h₂
    have hlog : declaratorsLog (d :: rest) s = declaratorLog d s ++ declaratorsLog rest s₁ := by
      rw [declaratorsLog, hfirst]
    rw [hlog]
    exact .seq rfl (declarator_runs hfirst) (ih hrest)

theorem expression_runs {line : Nat} {e : Expr} {s t : Session} {commands : List Command}
    (h : (lift (expressionStmt · e)).run s = (.ok commands, t)) :
    Runs (.stmt (.expression line e)) s [.lowers s.toSurroundings e.unwrapped]
      ⟨commands, .next⟩ t := by
  obtain ⟨fx, hrun, rfl⟩ := lift_ok h
  refine .evaluates (.expression line e s) ?_
  unfold expressionStmt at hrun
  dsimp only at hrun
  by_cases heffect : isEffect e.unwrapped = true
  · simp only [heffect, Bool.not_true, Bool.false_eq_true, if_false] at hrun
    split at hrun
    · next m op fixity operand hroot =>
      rw [hroot]
      obtain ⟨out, gx, hupdate, hpure⟩ := run_bind_ok hrun
      obtain ⟨rfl, rfl⟩ := ok_inj hpure
      cases hop : updateOp? op with
      | none =>
        obtain ⟨err, herr⟩ : ∃ err, (update s.toSurroundings m.line op operand false).run
            s.toEffects = (.error err, s.toEffects) := run_update_error _ _ _ _ (.inl hop)
        rw [herr] at hupdate
        cases hupdate
      | some code =>
        cases htarget : s.targetSlot operand with
        | error err =>
          obtain ⟨err', herr⟩ : ∃ err, (update s.toSurroundings m.line op operand false).run
              s.toEffects = (.error err, s.toEffects) :=
            run_update_error _ _ _ _ (.inr ⟨err, htarget⟩)
          rw [herr] at hupdate
          cases hupdate
        | ok target =>
          rw [run_update_ok s.toSurroundings hop htarget] at hupdate
          obtain ⟨rfl, rfl⟩ := ok_inj hupdate
          exact .updated m fixity _ hop htarget
    · next root _ =>
      obtain ⟨out, gx, hexpr, hpure⟩ := run_bind_ok hrun
      obtain ⟨rfl, rfl⟩ := ok_inj hpure
      exact .dropped hexpr
  · simp only [heffect, Bool.not_false, if_true] at hrun
    obtain ⟨_, _, hfail, _⟩ := run_bind_ok hrun
    cases hfail

theorem returning_runs {line : Nat} {e : Expr} {s t : Session} {commands : List Command}
    (h : (lift (returned · line (some e))).run s = (.ok commands, t)) :
    Runs (.stmt (.returning line (some e))) s [.lowers s.toSurroundings e]
      ⟨commands, .returned⟩ t := by
  obtain ⟨fx, hrun, rfl⟩ := lift_ok h
  unfold returned at hrun
  dsimp only at hrun
  split at hrun
  · next slot hslot =>
    obtain ⟨lowered, gx, hvalue, hpure⟩ := run_bind_ok hrun
    obtain ⟨rfl, rfl⟩ := ok_inj hpure
    exact .evaluates (.returned line e hslot) (.stored _ (value_ok hvalue))
  · next hslot =>
    obtain ⟨_, fx₁, hwarn, h₁⟩ := run_bind_ok hrun
    rw [run_warn] at hwarn
    obtain ⟨-, rfl⟩ := ok_inj hwarn
    obtain ⟨out, gx, hexpr, hpure⟩ := run_bind_ok h₁
    obtain ⟨rfl, rfl⟩ := ok_inj hpure
    have heval : Evaluates
        (s.warned line "return value outside of a function is discarded").toSurroundings .dropped e
        (s.warned line "return value outside of a function is discarded").toEffects out.commands gx :=
      .dropped hexpr
    have hruns := Runs.evaluates (.discarded line e hslot) heval
    exact hruns

theorem fields_runs {info : ClassInfo} {ms : List Member} {s : Session} {fx : Effects}
    {commands : List Command}
    (h : (fields s.toSurroundings info ms).run s.toEffects = (.ok commands, fx)) :
    Runs (.fields info ms) s (fieldsLog s.toSurroundings info ms) ⟨commands, .next⟩
      (s.withEffects fx) := by
  induction ms generalizing s commands with
  | nil =>
    obtain ⟨rfl, rfl⟩ := ok_inj h
    exact .idle (.noFields info s)
  | cons m rest ih =>
    -- a member that is no initialized property is passed over
    have skip : (∀ p e slot, m = .property p → p.initializer = some e →
        info.fieldSlot? p.name ≠ some slot) →
        fields s.toSurroundings info (m :: rest) = fields s.toSurroundings info rest →
        fieldsLog s.toSurroundings info (m :: rest) = fieldsLog s.toSurroundings info rest →
        Runs (.fields info (m :: rest)) s (fieldsLog s.toSurroundings info (m :: rest))
          ⟨commands, .next⟩ (s.withEffects fx) := by
      intro hno hrun hlog
      rw [hrun] at h
      rw [hlog]
      exact .skip rfl (.field info m hno s) (ih h)
    cases m with
    | property p =>
      cases hinit : p.initializer with
      | none =>
        refine skip ?_ (by simp only [fields, hinit]) (by simp only [fieldsLog, hinit])
        intro p' e slot hp he
        cases hp
        rw [hinit] at he
        cases he
      | some e =>
        cases hslot : info.fieldSlot? p.name with
        | none =>
          refine skip ?_ (by simp only [fields, hinit, hslot])
            (by simp only [fieldsLog, hinit, hslot])
          intro p' e' slot hp _
          cases hp
          rw [hslot]
          exact Option.some_ne_none slot |>.symm
        | some slot =>
          simp only [fields, hinit, hslot] at h
          obtain ⟨lowered, gx, hvalue, h₁⟩ := run_bind_ok h
          obtain ⟨others, hx, hrest, h₂⟩ := run_bind_ok h₁
          obtain ⟨rfl, rfl⟩ := ok_inj h₂
          have hlog : fieldsLog s.toSurroundings info (.property p :: rest) =
              [.lowers s.toSurroundings e] ++ fieldsLog s.toSurroundings info rest := by
            simp only [fieldsLog, hinit, hslot, List.singleton_append]
          rw [hlog]
          have hruns : Runs (.fields info rest) (s.withEffects gx) _ ⟨others, .next⟩ _ := ih hrest
          exact .seq rfl (.evaluates (.field hinit hslot s) (.stored _ (value_ok hvalue))) hruns
    | _ =>
      exact skip (fun p e slot hp => nomatch hp) (by simp only [fields]) (by simp only [fieldsLog])

/-! ## Scripts -/

theorem run_inScript (scope : LexicalScope) (prologue : List Command)
    (body : SessionM (List Command)) (s : Session) :
    (inScript scope prologue body).run s =
      ((body.run (s.opened scope [])).1.map fun commands =>
        declarations (body.run (s.opened scope [])).2.allocator.preamble ++ prologue ++ commands,
        s.closed (body.run (s.opened scope [])).2) := rfl

/-- A successful script of its own. -/
theorem inScript_ok {scope : LexicalScope} {prologue : List Command}
    {body : SessionM (List Command)} {s u : Session} {script : List Command}
    (h : (inScript scope prologue body).run s = (.ok script, u)) :
    ∃ commands t, body.run (s.opened scope []) = (.ok commands, t) ∧
      script = declarations t.allocator.preamble ++ prologue ++ commands ∧ u = s.closed t := by
  rw [run_inScript] at h
  rcases hrun : body.run (s.opened scope []) with ⟨r, t⟩
  rw [hrun] at h
  cases r with
  | error e => cases h
  | ok commands =>
    obtain ⟨hscript, hu⟩ := ok_inj h
    exact ⟨commands, t, rfl, hscript.symm, hu.symm⟩

theorem declaring_opened (s : Session) (scope : LexicalScope) (xs ys : List String) :
    (s.opened scope xs).declaring ys = s.opened scope (xs ++ ys) := rfl

/-- The slots of a callable are declared first. -/
theorem run_declareSlots (k : Callable) (s : Session) (scope : LexicalScope)
    (rest : SessionM (List Command)) :
    (do
      k.params.forM fun param => declare param.slot
      k.returnSlot.forM declare
      rest).run (s.opened scope []) = rest.run (s.opened scope k.slots) := by
  rw [run_bind, run_forM_declare, declaring_opened]
  unfold Callable.slots
  cases k.returnSlot with
  | none =>
    rw [Option.toList_none, List.append_nil]
    rfl
  | some slot => rfl

/-- The bodies of these statements run by the rules. -/
def StmtsRun (body : List Stmt) : Prop :=
  ∀ {s t : Session} {out : Emitted Flow}, (stmts body).run s = (.ok out, t) →
    Runs (.stmts body) s (stmtsLog body s) out t

theorem callable_runs {id : DeclId} {line : Nat} {enclosing : Option ClassScope}
    {prologue : List Command} {body : List Stmt} (hbody : StmtsRun body) {s t : Session}
    (h : (callableScript id line enclosing prologue (stmts body)).run s = (.ok (), t)) :
    Runs (.callable id line enclosing prologue body) s
      (callableLog id enclosing (stmtsLog body) s) ⟨[], .next⟩ t := by
  unfold callableScript at h
  obtain ⟨_, _, hget, h₁⟩ := run_bind_ok h
  cases hget
  cases hk : s.decls.callable? id with
  | none =>
    rw [hk] at h₁
    obtain ⟨-, rfl⟩ := ok_inj h₁
    have hlog : callableLog id enclosing (stmtsLog body) s = [] := by rw [callableLog, hk]
    rw [hlog]
    exact .idle (.unknown hk line enclosing prologue body)
  | some k =>
    rw [hk] at h₁
    obtain ⟨script, s₁, hscript, h₂⟩ := run_bind_ok h₁
    obtain ⟨commands, u, hrun, rfl, rfl⟩ := inScript_ok hscript
    rw [run_declareSlots] at hrun
    obtain ⟨out, s₂, hout, hpure⟩ := run_bind_ok hrun
    obtain ⟨rfl, rfl⟩ := ok_inj hpure
    rw [run_pushScript] at h₂
    obtain ⟨-, rfl⟩ := ok_inj h₂
    have hlog : callableLog id enclosing (stmtsLog body) s =
        [.hoists id] ++ stmtsLog body (s.opened ⟨some id, enclosing⟩ k.slots) := by
      rw [callableLog, hk]
      rfl
    rw [hlog]
    exact .script (.callable hk line enclosing prologue body) (hbody hout)

theorem fieldsScript_runs {info : ClassInfo} {scope : ClassScope} {ms : List Member} {line : Nat}
    {s t : Session} (h : (fieldsScript info scope ms line).run s = (.ok (), t)) :
    Runs (.fieldsScript info scope ms line) s
      (fieldsLog (s.opened ⟨none, some scope⟩ []).toSurroundings info ms) ⟨[], .next⟩ t := by
  unfold fieldsScript at h
  obtain ⟨script, s₁, hscript, h₁⟩ := run_bind_ok h
  obtain ⟨commands, u, hrun, rfl, rfl⟩ := inScript_ok hscript
  obtain ⟨_, s₂, hdeclare, hlift⟩ := run_bind_ok hrun
  rw [run_forM_declare, declaring_opened] at hdeclare
  obtain ⟨-, rfl⟩ := ok_inj hdeclare
  obtain ⟨fx, hfields, rfl⟩ := lift_ok hlift
  rw [run_pushScript] at h₁
  obtain ⟨-, rfl⟩ := ok_inj h₁
  exact .script (.fields info scope ms line s) (fields_runs hfields)

/-! ## All of lowering -/

theorem run_warnedIf (c : Bool) (line : Nat) (message : String) (s : Session)
    {α : Type} (rest : SessionM α) :
    (do
      if c then SessionM.warn line message
      rest).run s = rest.run (s.warnedIf c line message) := by
  cases c <;> rfl

mutual

/-- **Every successful run of the program is a run by the rules.** -/
theorem stmts_runs : ∀ body : List Stmt, StmtsRun body
  | [], s, t, out, h => by
    obtain ⟨rfl, rfl⟩ := ok_inj h
    exact .idle (.noStmts s)
  | first :: rest, s, t, out, h => by
    rw [stmts] at h
    obtain ⟨lowered, s₁, hfirst, h₁⟩ := run_bind_ok h
    have hruns := stmt_runs first hfirst
    obtain ⟨commands, flow⟩ := lowered
    cases flow with
    | returned =>
      have hlog : stmtsLog (first :: rest) s = stmtLog first s := by rw [stmtsLog, hfirst]
      rw [hlog]
      cases rest with
      | nil =>
        obtain ⟨rfl, rfl⟩ := ok_inj h₁
        exact .returned [] hruns
      | cons next others =>
        obtain ⟨_, s₂, hwarn, h₂⟩ := run_bind_ok h₁
        rw [SessionM.run_warn] at hwarn
        obtain ⟨-, rfl⟩ := ok_inj hwarn
        obtain ⟨rfl, rfl⟩ := ok_inj h₂
        exact .returned (next :: others) hruns
    | next =>
      obtain ⟨others, s₂, hrest, h₂⟩ := run_bind_ok h₁
      obtain ⟨rfl, rfl⟩ := ok_inj h₂
      have hlog : stmtsLog (first :: rest) s = stmtLog first s ++ stmtsLog rest s₁ := by
        rw [stmtsLog, hfirst]
      rw [hlog]
      exact .seq rfl hruns (stmts_runs rest hrest)

theorem stmt_runs : ∀ (st : Stmt) {s t : Session} {out : Emitted Flow},
    (stmt st).run s = (.ok out, t) → Runs (.stmt st) s (stmtLog st s) out t
  | .block line body, s, t, out, h => by
    rw [stmt] at h
    rw [stmtLog]
    exact .inside rfl (stmts_runs body h)
  | .imports line i, s, t, out, h => by
    obtain ⟨rfl, rfl⟩ := ok_inj h
    exact .idle (.imports line i s)
  | .bindings line ds, s, t, out, h => by
    rw [stmt] at h
    obtain ⟨commands, s₁, hrun, hpure⟩ := run_bind_ok h
    obtain ⟨rfl, rfl⟩ := ok_inj hpure
    rw [stmtLog]
    exact .inside rfl (declarators_runs hrun)
  | .expression line e, s, t, out, h => by
    rw [stmt] at h
    obtain ⟨commands, s₁, hrun, hpure⟩ := run_bind_ok h
    obtain ⟨rfl, rfl⟩ := ok_inj hpure
    rw [stmtLog]
    exact expression_runs hrun
  | .function f, s, t, out, h => by
    rw [stmt] at h
    obtain ⟨_, s₁, hrun, hpure⟩ := run_bind_ok h
    obtain ⟨rfl, rfl⟩ := ok_inj hpure
    rw [stmtLog]
    exact function_runs f hrun
  | .classDef c, s, t, out, h => by
    rw [stmt] at h
    obtain ⟨_, s₁, hrun, hpure⟩ := run_bind_ok h
    obtain ⟨rfl, rfl⟩ := ok_inj hpure
    rw [stmtLog]
    exact class_runs c hrun
  | .returning line none, s, t, out, h => by
    obtain ⟨rfl, rfl⟩ := ok_inj h
    exact .idle (.bareReturn line s)
  | .returning line (some e), s, t, out, h => by
    rw [stmt] at h
    obtain ⟨commands, s₁, hrun, hpure⟩ := run_bind_ok h
    obtain ⟨rfl, rfl⟩ := ok_inj hpure
    rw [stmtLog]
    exact returning_runs hrun
  | .typeOnly line, s, t, out, h => by
    obtain ⟨rfl, rfl⟩ := ok_inj h
    exact .idle (.typeOnly line s)
  | .empty line, s, t, out, h => by
    obtain ⟨rfl, rfl⟩ := ok_inj h
    exact .idle (.empty line s)
  | .other line kind, s, t, out, h => by
    obtain ⟨rfl, rfl⟩ := ok_inj h
    exact .idle (.other line kind s)

theorem function_runs : ∀ (f : FunctionDecl) {s t : Session},
    (function f).run s = (.ok (), t) → Runs (.stmt (.function f)) s (functionLog f s) ⟨[], .next⟩ t
  | ⟨id, name, params, some body, isAsync, line⟩, s, t, h => by
    rw [function] at h
    obtain ⟨_, s₁, hdeclared, h₁⟩ := run_bind_ok h
    rw [run_warnedIf] at h₁
    obtain ⟨_, _, hget, h₂⟩ := run_bind_ok h₁
    obtain ⟨rfl, rfl⟩ := ok_inj hget
    rw [functionLog, hdeclared]
    have hscope : (s₁.warnedIf isAsync line "async function is lowered synchronously").scope =
        s₁.scope := by cases isAsync <;> rfl
    rw [hscope] at h₂
    exact .function rfl (Declare.function_ok hdeclared) (callable_runs (stmts_runs body) h₂)
  | ⟨id, name, params, none, isAsync, line⟩, s, t, h => by
    rw [function] at h
    obtain ⟨-, rfl⟩ := ok_inj h
    rw [functionLog]
    exact .idle (.signature rfl s)

theorem class_runs : ∀ (c : ClassDecl) {s t : Session},
    (classDef c).run s = (.ok (), t) → Runs (.stmt (.classDef c)) s (classLog c s) ⟨[], .next⟩ t
  | ⟨id, name, parent, isDeclared, isAbstract, members, line⟩, s, t, h => by
    rw [classDef] at h
    rw [classLog]
    cases hforeign : (isDeclared || isAbstract) with
    | true =>
      simp only [hforeign, if_true] at h ⊢
      obtain ⟨-, rfl⟩ := ok_inj h
      exact .idle (.foreign hforeign s)
    | false =>
      simp only [hforeign, Bool.false_eq_true, if_false] at h ⊢
      obtain ⟨_, s₁, hdeclared, h₁⟩ := run_bind_ok h
      rw [hdeclared]
      obtain ⟨_, _, hget, h₂⟩ := run_bind_ok h₁
      obtain ⟨rfl, rfl⟩ := ok_inj hget
      cases hinfo : s₁.decls.class? id with
      | none =>
        -- nothing was recorded, so nothing was declared
        rw [hinfo] at h₂
        obtain ⟨-, rfl⟩ := ok_inj h₂
        cases Declare.class_ok hdeclared with
        | known hknown =>
          refine .idle (.taken hinfo ?_)
          rcases hknown with hdeclared | habstract | hcontains
          · rw [show isDeclared = true from hdeclared, Bool.true_or] at hforeign
            cases hforeign
          · rw [show isAbstract = true from habstract, Bool.or_true] at hforeign
            cases hforeign
          · exact hcontains
        | fresh _ _ _ => simp [DeclTable.class?, Session.recorded] at hinfo
      | some info =>
        rw [hinfo] at h₂
        obtain ⟨_, s₂, hfields, h₃⟩ := run_bind_ok h₂
        obtain ⟨_, _, hget', h₄⟩ := run_bind_ok h₃
        obtain ⟨rfl, rfl⟩ := ok_inj hget'
        obtain ⟨found, s₃, hconstructor, h₅⟩ := run_bind_ok h₄
        have hfieldsRuns := fieldsScript_runs hfields
        rcases constructor_runs members hconstructor with ⟨rfl, cid, cline, body, hknown, hruns⟩ |
          ⟨rfl, hnone, rfl, hlog⟩
        · have hafter : (initializer info ⟨info.name, parent⟩ members line).run s₂ = (.ok (), s₃) := by
            simp only [initializer, run_bind, run_get, hconstructor]
            rfl
          simp only [hfields, hafter]
          have hmethods : (methods info ⟨info.name, parent⟩ members).run s₃ = (.ok (), t) := h₅
          have hbodies : Runs (.bodies info ⟨info.name, parent⟩ members line) s₂ _ ⟨[], .next⟩ t :=
            .seq rfl (.constructor hknown hruns) (methods_runs members hmethods)
          have hmembers : Runs (.members info ⟨info.name, parent⟩ members line) s₁ _ ⟨[], .next⟩ t :=
            .seq rfl hfieldsRuns hbodies
          exact .classDef hforeign (Declare.class_ok hdeclared) hinfo hmembers
        · have hafter : (initializer info ⟨info.name, parent⟩ members line).run s₃ = (.ok (),
              s₃.stored (initScript info.name) [.invoke (s₃.qualify (classScript info.name))]
                line) := by
            simp only [initializer, run_bind, run_get, hconstructor]
            exact run_pushScript _ _ _ _
          simp only [hfields, hafter, hlog]
          obtain ⟨_, s₄, hpush, h₆⟩ := run_bind_ok h₅
          rw [run_pushScript] at hpush
          obtain ⟨-, rfl⟩ := ok_inj hpush
          have hbodies : Runs (.bodies info ⟨info.name, parent⟩ members line) s₃ _ ⟨[], .next⟩ t :=
            .seq rfl (.defaulted _ line hnone s₃) (methods_runs members h₆)
          have hmembers : Runs (.members info ⟨info.name, parent⟩ members line) s₁ _ ⟨[], .next⟩ t :=
            .seq rfl hfieldsRuns hbodies
          exact .classDef hforeign (Declare.class_ok hdeclared) hinfo hmembers

theorem constructor_runs : ∀ (ms : List Member) {info : ClassInfo} {scope : ClassScope}
    {prologue : List Command} {s t : Session} {found : Bool},
    (constructor info scope prologue ms).run s = (.ok found, t) →
    (found = true ∧ ∃ id line body, knownConstructor info ms = some (id, line, body) ∧
      Runs (.callable id line (some scope) prologue body) s (constructorLog info scope ms s)
        ⟨[], .next⟩ t) ∨
    (found = false ∧ knownConstructor info ms = none ∧ t = s ∧ constructorLog info scope ms s = [])
  | [], info, scope, prologue, s, t, found, h => by
    rw [constructor] at h
    obtain ⟨rfl, rfl⟩ := ok_inj h
    exact .inr ⟨rfl, rfl, rfl, by rw [constructorLog]⟩
  | .constructor ⟨id, _, _, some body, _, line⟩ :: rest, info, scope, prologue, s, t, found, h => by
    rw [constructor] at h
    by_cases hid : info.constructor = some id
    · rw [if_pos hid] at h
      obtain ⟨_, s₁, hrun, hpure⟩ := run_bind_ok h
      obtain ⟨rfl, rfl⟩ := ok_inj hpure
      refine .inl ⟨rfl, id, line, body, ?_, ?_⟩
      · rw [knownConstructor, if_pos hid]
        rfl
      · rw [constructorLog, if_pos hid]
        exact callable_runs (stmts_runs body) hrun
    · rw [if_neg hid] at h
      rw [knownConstructor, if_neg hid, constructorLog, if_neg hid]
      exact constructor_runs rest h
  | .constructor ⟨id, _, _, none, _, line⟩ :: rest, info, scope, prologue, s, t, found, h => by
    rw [constructor] at h
    by_cases hid : info.constructor = some id
    · rw [if_pos hid] at h
      obtain ⟨rfl, rfl⟩ := ok_inj h
      refine .inr ⟨rfl, ?_, rfl, ?_⟩
      · rw [knownConstructor, if_pos hid]
        rfl
      · rw [constructorLog, if_pos hid]
    · rw [if_neg hid] at h
      rw [knownConstructor, if_neg hid, constructorLog, if_neg hid]
      exact constructor_runs rest h
  | .method f isStatic :: rest, info, scope, prologue, s, t, found, h => by
    rw [constructor.eq_def] at h
    rw [constructorLog.eq_def]
    exact constructor_runs rest h
  | .property p :: rest, info, scope, prologue, s, t, found, h => by
    rw [constructor.eq_def] at h
    rw [constructorLog.eq_def]
    exact constructor_runs rest h
  | .other line kind :: rest, info, scope, prologue, s, t, found, h => by
    rw [constructor.eq_def] at h
    rw [constructorLog.eq_def]
    exact constructor_runs rest h

theorem methods_runs : ∀ (ms : List Member) {info : ClassInfo} {scope : ClassScope} {s t : Session},
    (methods info scope ms).run s = (.ok (), t) →
    Runs (.methods info scope ms) s (methodsLog info scope ms s) ⟨[], .next⟩ t
  | [], info, scope, s, t, h => by
    obtain ⟨-, rfl⟩ := ok_inj h
    rw [methodsLog]
    exact .idle (.noMethods info scope s)
  | .method ⟨id, name, params, some body, isAsync, line⟩ isStatic :: rest, info, scope, s, t, h => by
    rw [methods, run_warnedIf] at h
    obtain ⟨_, s₁, hrun, hrest⟩ := run_bind_ok h
    rw [methodsLog, hrun]
    have hfirst := callable_runs (stmts_runs body) hrun
    exact .seq rfl (.method (f := ⟨id, name, params, some body, isAsync, line⟩) rfl hfirst)
      (methods_runs rest hrest)
  | .method ⟨id, name, params, none, isAsync, line⟩ isStatic :: rest, info, scope, s, t, h => by
    rw [methods.eq_def] at h
    rw [methodsLog.eq_def]
    refine .skip rfl (.method info scope _ ?_ s nofun) (methods_runs rest h)
    intro f b hf
    cases hf
    rfl
  | .constructor f :: rest, info, scope, s, t, h => by
    rw [methods.eq_def] at h
    rw [methodsLog.eq_def]
    exact .skip rfl (.method info scope (.constructor f) (fun f' b hf => nomatch hf) s nofun)
      (methods_runs rest h)
  | .property p :: rest, info, scope, s, t, h => by
    rw [methods.eq_def] at h
    rw [methodsLog.eq_def]
    exact .skip rfl (.method info scope (.property p) (fun f b hf => nomatch hf) s nofun)
      (methods_runs rest h)
  | .other line kind :: rest, info, scope, s, t, h => by
    rw [methods, run_bind, SessionM.run_warn] at h
    rw [methodsLog]
    exact .skip rfl (.otherMember info scope line kind s) (methods_runs rest h)

end

end Lower

/-! ## Units -/

namespace Session

/-- The session in which the statements of a unit are lowered: all of them are declared. -/
def declared (s : Session) (u : CompilationUnit) : Session :=
  ((Declare.unit u.statements).run (s.begin u)).2

/-- What happens while a unit is compiled. -/
def log (s : Session) (u : CompilationUnit) : List Event :=
  Lower.stmtsLog u.statements (s.declared u)

/-- The session after the primary script was stored. -/
def withPrimary (t : Session) (context : String) (commands : List Command) : Session :=
  stored { t with allocator := { t.allocator with preamble := [] } } context
    (declarations t.allocator.preamble ++ t.frame.bracket commands) 1

/-- The parts of a successful compilation: the statements are declared and lowered, and the primary
script is stored. -/
theorem compile_run {s : Session} {u : CompilationUnit} {c : Compilation}
    (h : (s.compile u).1 = .ok c) :
    ∃ out t, UnitDeclared (s.begin u) u.statements (s.declared u) ∧
      (Lower.stmts u.statements).run (s.declared u) = (.ok out, t) ∧
      c = ⟨u.context, (t.withPrimary u.context out.commands).scripts,
        (t.withPrimary u.context out.commands).warnings⟩ ∧
      (s.compile u).2 = { t.withPrimary u.context out.commands with unit := none, warnings := [] } := by
  unfold compile at h ⊢
  rcases hrun : (lowerUnit u).run (s.begin u) with ⟨r, final⟩
  rw [hrun] at h
  cases r with
  | error e => cases h
  | ok v =>
    have hparts := hrun
    unfold lowerUnit at hparts
    obtain ⟨_, s₁, hdeclare, h₁⟩ := run_bind_ok hparts
    obtain ⟨out, t, hstmts, h₂⟩ := run_bind_ok h₁
    simp only [run_bind, run_modifyGet, run_get, SessionM.run_pushScript] at h₂
    obtain ⟨-, rfl⟩ := ok_inj h₂
    have hdeclared : s.declared u = s₁ := by rw [declared, hdeclare]
    refine ⟨out, t, ?_, ?_, ?_, rfl⟩
    · rw [hdeclared]
      exact Declare.unit_ok hdeclare
    · rw [hdeclared]
      exact hstmts
    · exact (Except.ok.inj h).symm

/-- They follow the rules. -/
theorem compile_ok {s : Session} {u : CompilationUnit} {c : Compilation}
    (h : (s.compile u).1 = .ok c) :
    ∃ out t, UnitDeclared (s.begin u) u.statements (s.declared u) ∧
      Runs (.stmts u.statements) (s.declared u) (s.log u) out t ∧
      c = ⟨u.context, (t.withPrimary u.context out.commands).scripts,
        (t.withPrimary u.context out.commands).warnings⟩ ∧
      (s.compile u).2 = { t.withPrimary u.context out.commands with unit := none, warnings := [] } := by
  obtain ⟨out, t, hdeclared, hrun, hc, hafter⟩ := compile_run h
  exact ⟨out, t, hdeclared, Lower.stmts_runs u.statements hrun, hc, hafter⟩

end Session

end FrameScript
