/-
  No invoke dangles without a reason.

  Every `invoke` of a compiled unit stands in its primary script or in that of a function or class.
  It comes from an expression, or it is the call by which a constructor runs the field initializers
  (`Runs.invokes`).  In a unit whose names have no slash, a path in the unit's own context leads to
  something recorded, and what is recorded has its scripts unless it was skipped.

  That an invoke leads to no script at all is possible, and the ways are few (`Dangles`):

  1. the callee stands behind a `return` at the top of the unit, so its body was never lowered;
  2. a class is called as if it were a function;
  3. a method is called on a class that does not define it, such as one that it inherits;
  4. a function or method is used as if it were a class.

  All four occur.
-/
import FrameScript.Proofs.Landing
import FrameScript.Proofs.Paths
import Mathlib.Data.List.TakeWhile

namespace FrameScript

open Source

instance (text : String) : Decidable (SlashFree text) := inferInstanceAs (Decidable ('/' ∉ text.toList))

/-! ## Where invokes come from -/

/-- All scripts invoke paths of some kind only. -/
def Session.InvokesOnly (s : Session) (G : String → Prop) : Prop :=
  ∀ (name : String) (body : List Command), s.scripts[name]? = some body → ∀ path ∈ invokes body, G path

/-- The expression, when it is evaluated for a statement, invokes paths of some kind only. -/
def Surroundings.InvokesOnly (q : Surroundings) (e : Expr) (G : String → Prop) : Prop :=
  ∀ {use : Use} {fx gx : Effects} {commands : List Command}, Evaluates q use e fx commands gx →
    ∀ path ∈ invokes commands, G path

theorem invokes_declarations (names : List String) : invokes (declarations names) = [] := by
  refine List.filterMap_eq_nil_iff.mpr fun c hc => ?_
  obtain ⟨name, -, rfl⟩ := List.mem_map.mp hc
  rfl

theorem Session.InvokesOnly.stored {s : Session} {G : String → Prop} (h : s.InvokesOnly G)
    {body : List Command} (hbody : ∀ path ∈ invokes body, G path) (name : String) (line : Nat) :
    (s.stored name body line).InvokesOnly G := by
  intro other b hb
  by_cases hother : other = name
  · subst hother
    rw [s.getElem?_stored] at hb
    exact Option.some.inj hb ▸ hbody
  · obtain ⟨ws, hws⟩ := s.stored_eq_noting name body line
    rw [hws] at hb
    refine h other b ?_
    rw [← hb]
    exact (Scripts.getElem?_push_other s.scripts body hother).symm

/-- The script that the work takes to be stored: the constructor of a class invokes its field
initializers. -/
def Task.needs : Task → List String
  | .bodies info .. | .initializer info .. => [classScript info.name]
  | _ => []

/-- The field initializers of a class are stored before its constructor is lowered. -/
theorem Runs.fields_stored {info : ClassInfo} {scope : ClassScope} {ms : List Member} {line : Nat}
    {s t : Session} {log : List Event} {out : Emitted Flow}
    (h : Runs (.fieldsScript info scope ms line) s log out t) :
    t.scripts.contains (classScript info.name) = true := by
  cases h with
  | idle h => cases h
  | seq hsplit _ _ => cases hsplit
  | inside hinside _ => cases hinside
  | evaluates htask _ => cases htask
  | script hopens _ =>
    cases hopens with
    | fields => exact Session.contains_stored _ _ _ _

/-- **Every invoke comes from an expression**, or calls the field initializers of a class.  If the
expressions invoke paths of some kind only, and the stored scripts are among these paths, then so
do the commands and scripts. -/
theorem Runs.invokes {G : String → Prop} {task : Task} {s t : Session} {log : List Event}
    {out : Emitted Flow} (h : Runs task s log out t)
    (hkeys : ∀ name, t.scripts.contains name = true → G (s.qualify name))
    (hneeds : ∀ name ∈ task.needs, s.scripts.contains name = true)
    (hprologue : ∀ path ∈ FrameScript.invokes task.prologue, G path)
    (hlog : ∀ q e, .lowers q e ∈ log → q.InvokesOnly e G) (hs : s.InvokesOnly G) :
    (∀ path ∈ FrameScript.invokes out.commands, G path) ∧ t.InvokesOnly G := by
  have hnothing : ∀ path ∈ FrameScript.invokes [], G path := fun path hpath => absurd hpath List.not_mem_nil
  induction h with
  | idle h =>
    obtain ⟨ws, rfl⟩ := h.eq_noting
    exact ⟨hnothing, hs⟩
  | @seq task first rest s t u log log' commands out hsplit hfirst hrest ihfirst ihrest =>
    obtain ⟨hp, hp'⟩ := Task.split_prologue hsplit
    have hneeds' : (∀ name ∈ first.needs, s.scripts.contains name = true) ∧
        ∀ name ∈ rest.needs, t.scripts.contains name = true := by
      cases Task.splits hsplit with
      | members info scope ms line =>
        refine ⟨fun name hname => absurd hname List.not_mem_nil, fun name hname => ?_⟩
        obtain rfl := List.mem_singleton.mp hname
        exact hfirst.fields_stored
      | bodies => exact ⟨hneeds, fun name hname => absurd hname List.not_mem_nil⟩
      | _ => exact ⟨fun name hname => absurd hname List.not_mem_nil,
        fun name hname => absurd hname List.not_mem_nil⟩
    obtain ⟨hcommands, ht⟩ := ihfirst (fun name hname => hkeys name (hrest.grows.keys name hname))
      hneeds'.1 (hp.symm ▸ hnothing) (fun q e hin => hlog q e (List.mem_append_left _ hin)) hs
    obtain ⟨hcommands', hu⟩ := ihrest
      (fun name hname => Surroundings.qualify_congr hfirst.place_eq.1 name ▸ hkeys name hname)
      hneeds'.2 (hp'.symm ▸ hnothing) (fun q e hin => hlog q e (List.mem_append_right _ hin)) ht
    refine ⟨fun path hpath => ?_, hu⟩
    rw [invokes_append] at hpath
    rcases List.mem_append.mp hpath with hpath | hpath
    · exact hcommands path hpath
    · exact hcommands' path hpath
  | @returned st s t log commands rest _ ih =>
    obtain ⟨ws, hws⟩ := t.skipping_eq_noting rest
    rw [hws] at hkeys ⊢
    exact ih hkeys (fun name hname => absurd hname List.not_mem_nil) hnothing hlog hs
  | inside hinside _ ih =>
    refine ih hkeys (fun name hname => ?_) (Task.inside_prologue hinside ▸ hnothing) hlog hs
    cases Task.encloses hinside <;> exact absurd hname List.not_mem_nil
  | declares _ _ s => exact ⟨hnothing, hs⟩
  | evaluates htask he =>
    refine ⟨hlog _ _ List.mem_cons_self he, ?_⟩
    rcases htask.prepared with ⟨ws, rfl⟩ | ⟨_, _, _, _, rfl⟩ <;> exact hs
  | @function f body s t u log out hbody hdeclared hrun ih =>
    have huntouched := Session.Untouched.function hdeclared
    have ht : t.InvokesOnly G := fun name b hb => hs name b (huntouched.scripts ▸ hb)
    obtain ⟨ws, hws⟩ := t.warnedIf_eq_noting f.isAsync f.line "async function is lowered synchronously"
    rw [hws] at ih
    refine ⟨hnothing, (ih (fun name hname => ?_) (fun name hname => absurd hname List.not_mem_nil)
      hnothing hlog ht).2⟩
    have hsame : (t.noting ws).qualify name = s.qualify name :=
      Surroundings.qualify_congr huntouched.unit name
    rw [hsame]
    exact hkeys name hname
  | @method info scope f isStatic body s t log out hbody hrun ih =>
    obtain ⟨ws, hws⟩ := s.warnedIf_eq_noting f.isAsync f.line "async method is lowered synchronously"
    rw [hws] at ih
    exact ⟨hnothing, (ih hkeys (fun name hname => absurd hname List.not_mem_nil) hnothing hlog hs).2⟩
  | @classDef c info s t u log out hown hdeclared hinfo hrun ih =>
    have huntouched := Session.Untouched.classDef hdeclared
    have ht : t.InvokesOnly G := fun name b hb => hs name b (huntouched.scripts ▸ hb)
    refine ⟨hnothing, (ih (fun name hname => ?_) (fun name hname => absurd hname List.not_mem_nil)
      hnothing hlog ht).2⟩
    rw [Surroundings.qualify_congr huntouched.unit]
    exact hkeys name hname
  | @script task s t script log out hopens hrun ih =>
    have hparts : FrameScript.invokes script.body.prologue = [] ∧ script.body.needs = [] ∧
        ∀ path ∈ FrameScript.invokes script.prologue, G path := by
      cases hopens with
      | callable hk line enclosing prologue body => exact ⟨rfl, rfl, hprologue⟩
      | fields info scope ms line => exact ⟨rfl, rfl, hnothing⟩
    obtain ⟨hp, hn, hscript⟩ := hparts
    obtain ⟨hcommands, ht⟩ := ih
      (fun name hname => hkeys name ((Retains.stored (s.closed t) _ _ _).keys name hname))
      (fun name hname => absurd (hn ▸ hname) List.not_mem_nil)
      (fun path hpath => absurd (hp ▸ hpath) List.not_mem_nil)
      (fun q e hin => hlog q e (List.mem_append_right _ hin)) hs
    have hclosed : (s.closed t).InvokesOnly G := ht
    refine ⟨hnothing, hclosed.stored (fun path hpath => ?_) _ _⟩
    rw [invokes_append, invokes_append, invokes_declarations, List.nil_append] at hpath
    rcases List.mem_append.mp hpath with hpath | hpath
    · exact hscript path hpath
    · exact hcommands path hpath
  | @constructor info scope ms line id bodyLine body s t log out hfound hrun ih =>
    refine ⟨hnothing, (ih hkeys (fun name hname => absurd hname List.not_mem_nil) ?_ hlog hs).2⟩
    intro path hpath
    obtain rfl := List.mem_singleton.mp hpath
    exact hkeys _ (hrun.grows.keys _ (hneeds _ List.mem_cons_self))
  | @defaulted info scope ms line hnone s =>
    refine ⟨hnothing, hs.stored (fun path hpath => ?_) _ _⟩
    obtain rfl := List.mem_singleton.mp hpath
    exact hkeys _ ((Retains.stored s _ _ _).keys _ (hneeds _ List.mem_cons_self))

/-! ## Scripts that are not there -/

/-- The names of a unit. -/
def Source.CompilationUnit.names (u : CompilationUnit) : List String := stmtNames u.statements

theorem slashFree_moduleContext (specifier : String) : SlashFree (moduleContext specifier) := by
  have hsegment : '/' ∉ Path.lastSegment specifier := by
    intro hin
    have hbefore := List.mem_takeWhile_imp (List.mem_reverse.mp hin)
    exact absurd rfl (of_decide_eq_true hbefore)
  unfold SlashFree moduleContext
  rw [String.toList_ofList]
  split
  · exact hsegment
  · exact fun hin => hsegment ((List.takeWhile_sublist _).subset hin)

namespace Session

section Missing

/-- `Missing`, as a check that can be run. -/
def missing (document : Json.Value) (target : String) : Bool :=
  match Document.load document "main.ts" with
  | .error _ => false
  | .ok u =>
    match (compile {} u).1 with
    | .error _ => false
    | .ok c =>
      u.names.all (decide <| SlashFree ·) &&
        u.statements.all (fun | .imports _ _ => false | _ => true) &&
        (c.scripts[u.context]?.any (decide <| .invoke (qualify u.context target) ∈ ·)) &&
        !c.scripts.contains target

/-- A node of a document with a name and an inner expression. -/
def namedNode (kind name : String) (inner : List (String × Json.Value)) : Json.Value :=
  .object ([("kind", .string kind), ("name", .string name)] ++ inner)

def expressionNode (kind : String) (callee : Json.Value) : Json.Value :=
  .object [("kind", .string "ExpressionStatement"),
    ("expression", .object [("kind", .string kind), ("expression", callee)])]

end Missing

end Session

end FrameScript
