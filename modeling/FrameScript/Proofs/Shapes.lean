/-
  The shape of scripts.

  A script first declares what it needs and then does its work, all of it in one frame.  The primary
  script of a unit summons the frame before its work and kills it afterwards; no other script of the
  unit touches the frame, and the text of a single expression has none.

  1. `Session.Each` speaks about all stored scripts; storing one more keeps it.
  2. `Command.InFrame` commands make up a `Body`, and `Shaped` is a body behind declarations.
  3. `Runs.shaped` carries both through the lowering of a piece of work.

  The primary script is stored last.  Should a function have the name of the unit's context, its
  script is replaced, so the shape of the primary script does not depend on names.
-/
import FrameScript.Proofs.Freshness
import FrameScript.Proofs.Units

namespace FrameScript

open Source

/-! ## All scripts -/

/-- Every stored script is of some kind. -/
def Session.Each (s : Session) (S : List Command → Prop) : Prop :=
  ∀ (name : String) (script : List Command), s.scripts[name]? = some script → S script

namespace Session.Each

variable {s t : Session} {S : List Command → Prop}

theorem congr (h : s.Each S) (hscripts : t.scripts = s.scripts) : t.Each S := by
  intro name script hscript
  rw [hscripts] at hscript
  exact h name script hscript

theorem begin (s : Session) (u : CompilationUnit) : (s.begin u).Each S := by
  intro name script hscript
  have hnone : (s.begin u).scripts[name]? = none := Std.TreeMap.getElem?_emptyc
  rw [hnone] at hscript
  cases hscript

theorem stored (h : s.Each S) (name : String) {script : List Command} (line : Nat)
    (hscript : S script) : (s.stored name script line).Each S := by
  intro other b hb
  by_cases hother : other = name
  · subst hother
    rw [s.getElem?_stored] at hb
    exact Option.some.inj hb ▸ hscript
  · obtain ⟨ws, hws⟩ := s.stored_eq_noting name script line
    rw [hws] at hb
    refine h other b ?_
    rw [← hb]
    exact (Scripts.getElem?_push_other s.scripts script hother).symm

end Session.Each

/-- The primary script is stored last. -/
theorem Session.withPrimary_scripts (t : Session) (context : String) (commands : List Command) :
    (t.withPrimary context commands).scripts =
      t.scripts.insert context (declarations t.allocator.preamble ++ t.frame.bracket commands) := by
  obtain ⟨ws, hws⟩ := stored_eq_noting { t with allocator := { t.allocator with preamble := [] } }
    context (declarations t.allocator.preamble ++ t.frame.bracket commands) 1
  rw [withPrimary, hws]
  rfl

/-- Beside the primary script a unit has the scripts that were stored before it. -/
theorem Session.withPrimary_other (t : Session) {context : String} (commands : List Command)
    {name : String} (h : name ≠ context) :
    (t.withPrimary context commands).scripts[name]? = t.scripts[name]? := by
  rw [t.withPrimary_scripts]
  exact Scripts.getElem?_push_other t.scripts _ h

/-! ## Bodies -/

/-- The commands of a script body, all in one frame. -/
def Body (frame : Frame) (commands : List Command) : Prop := ∀ c ∈ commands, c.InFrame frame

/-- A body behind declarations. -/
def Shaped (frame : Frame) (script : List Command) : Prop :=
  ∃ names body, script = declarations names ++ body ∧ Body frame body

namespace Body

variable {frame : Frame} {xs ys : List Command}

theorem nil (frame : Frame) : Body frame [] := fun _ hc => absurd hc List.not_mem_nil

theorem append (hx : Body frame xs) (hy : Body frame ys) : Body frame (xs ++ ys) := by
  intro c hc
  rcases List.mem_append.mp hc with hc | hc
  · exact hx c hc
  · exact hy c hc

theorem singleton {c : Command} (h : c.InFrame frame) : Body frame [c] := by
  intro d hd
  obtain rfl := List.mem_singleton.mp hd
  exact h

end Body

theorem Evaluates.body {q : Surroundings} {use : Use} {e : Expr} {fx gx : Effects}
    {commands : List Command} (h : Evaluates q use e fx commands gx) : Body q.frame commands := by
  cases h with
  | dropped hrun => exact Lower.emitsInFrame q e hrun
  | stored slot hrun =>
    have hexpr : Body q.frame _ := Lower.emitsInFrame q e hrun
    exact hexpr.append (.singleton (Lower.inFrame_assign slot _))
  | updated m fixity _ hop htarget => exact Lower.inFrame_updated _ _ _ _

/-! ## Lowering -/

/-- **Lowering keeps the shape of scripts**: it emits a body in the active frame, and every script
that it stores is such a body behind declarations.  The frame is that of the unit throughout, since
no piece of work leaves its unit. -/
theorem Runs.shaped {frame : Frame} {task : Task} {s t : Session} {log : List Event}
    {out : Emitted Flow} (h : Runs task s log out t) (hframe : s.frame = frame)
    (hprologue : Body frame task.prologue) (hs : s.Each (Shaped frame)) :
    Body frame out.commands ∧ t.Each (Shaped frame) := by
  induction h with
  | idle h =>
    obtain ⟨ws, rfl⟩ := h.eq_noting
    exact ⟨.nil frame, hs⟩
  | seq hsplit hfirst _ ihfirst ihrest =>
    obtain ⟨hp, hp'⟩ := Task.split_prologue hsplit
    obtain ⟨hcommands, ht⟩ := ihfirst hframe (hp ▸ .nil frame) hs
    have hframe' := (Surroundings.frame_congr hfirst.place_eq.1).trans hframe
    obtain ⟨hcommands', hu⟩ := ihrest hframe' (hp' ▸ .nil frame) ht
    exact ⟨hcommands.append hcommands', hu⟩
  | @returned st s t log commands rest _ ih =>
    obtain ⟨ws, hws⟩ := t.skipping_eq_noting rest
    rw [hws]
    exact ih hframe (.nil frame) hs
  | inside hinside _ ih => exact ih hframe (Task.inside_prologue hinside ▸ .nil frame) hs
  | declares _ _ s => exact ⟨.nil frame, hs⟩
  | evaluates htask he =>
    rcases htask.prepared with ⟨ws, rfl⟩ | ⟨_, _, _, _, rfl⟩
    · exact ⟨hframe ▸ he.body, hs⟩
    · exact ⟨hframe ▸ he.body, hs⟩
  | @function f body s t u log out _ hdeclared _ ih =>
    have huntouched := Session.Untouched.function hdeclared
    obtain ⟨ws, hws⟩ := t.warnedIf_eq_noting f.isAsync f.line "async function is lowered synchronously"
    rw [hws] at ih
    have hframe' := (Surroundings.frame_congr huntouched.unit).trans hframe
    exact ⟨.nil frame, (ih hframe' (.nil frame) (hs.congr huntouched.scripts)).2⟩
  | @method info scope f isStatic body s t log out _ _ ih =>
    obtain ⟨ws, hws⟩ := s.warnedIf_eq_noting f.isAsync f.line "async method is lowered synchronously"
    rw [hws] at ih
    exact ⟨.nil frame, (ih hframe (.nil frame) hs).2⟩
  | classDef _ hdeclared _ _ ih =>
    have huntouched := Session.Untouched.classDef hdeclared
    have hframe' := (Surroundings.frame_congr huntouched.unit).trans hframe
    exact ⟨.nil frame, (ih hframe' (.nil frame) (hs.congr huntouched.scripts)).2⟩
  | @script task s t script log out hopens _ ih =>
    have hparts : Body frame script.prologue ∧ script.body.prologue = [] := by
      cases hopens with
      | callable _ line enclosing prologue body => exact ⟨hprologue, rfl⟩
      | fields info scope ms line => exact ⟨.nil frame, rfl⟩
    obtain ⟨hcommands, ht⟩ := ih hframe (hparts.2 ▸ .nil frame) hs
    have hclosed : (s.closed t).Each (Shaped frame) := ht
    refine ⟨.nil frame, hclosed.stored _ _ ?_⟩
    exact ⟨_, _, List.append_assoc _ _ _, hparts.1.append hcommands⟩
  | constructor _ _ ih => exact ⟨.nil frame, (ih hframe (.singleton trivial) hs).2⟩
  | defaulted scope line _ s => exact ⟨.nil frame, hs.stored _ _ ⟨[], _, rfl, .singleton trivial⟩⟩

/-! ## Sessions between calls -/

/-- The sessions that calls lead to, from a new one.  Between calls the allocator may be changed at
will. -/
inductive Session.Reachable : Session → Prop where
  | start : Reachable {}
  | compiled {s : Session} (h : Reachable s) (u : CompilationUnit) : Reachable (s.compile u).2
  | lowered {s : Session} (h : Reachable s) (e : Expr) : Reachable (s.lowerExpression e).2
  | allocated {s : Session} (h : Reachable s) (a : Allocator) : Reachable { s with allocator := a }

namespace Session

/-- No unit is left active by a compilation. -/
theorem compile_unit (s : Session) (u : CompilationUnit) : (s.compile u).2.unit = none := by
  unfold compile
  rcases (lowerUnit u).run (s.begin u) with ⟨r, t⟩
  cases r <;> rfl

/-- Between calls no unit is active. -/
theorem Reachable.unit_eq {s : Session} (h : s.Reachable) : s.unit = none := by
  induction h with
  | start => rfl
  | compiled _ u _ => exact compile_unit _ u
  | lowered _ e ih => exact ih
  | allocated _ a ih => exact ih

/-- The text of a single expression is a body behind declarations, in the frame of the session. -/
theorem lowerExpression_shaped {s : Session} {e : Expr} {commands : List Command}
    (h : (s.lowerExpression e).1 = .ok commands) : Shaped s.frame commands := by
  rw [lowerExpression_eq] at h
  rcases hrun : (Lower.expr s.toSurroundings e).run s.bareEffects with ⟨r, fx⟩
  rw [hrun] at h
  cases r with
  | error err => cases h
  | ok out =>
    obtain rfl := Except.ok.inj h
    exact ⟨_, _, rfl, Lower.emitsInFrame _ e hrun⟩

/-- **The shape of scripts.**  Whatever the session and the unit: if the unit compiles, its primary
script consists of declarations, the summoning of the unit's frame, a body in that frame and the
killing of the frame, and every other script of declarations and a body in that frame.  A single
expression that is lowered between calls gives declarations and a body without a frame. -/
theorem compiled_shape :
    (∀ (s : Session) (u : CompilationUnit) (c : Compilation), (s.compile u).1 = .ok c →
      (∃ names body, c.scripts[u.context]? =
          some (declarations names ++ [.summon u.context] ++ body ++ [.kill u.context]) ∧
        ∀ d ∈ body, d.InFrame (some u.context)) ∧
      ∀ (name : String) (script : List Command), name ≠ u.context → c.scripts[name]? = some script →
        ∃ names body, script = declarations names ++ body ∧ ∀ d ∈ body, d.InFrame (some u.context)) ∧
    ∀ (s : Session) (e : Expr) (commands : List Command), s.Reachable →
      (s.lowerExpression e).1 = .ok commands →
      ∃ names body, commands = declarations names ++ body ∧ ∀ d ∈ body, d.InFrame none := by
  refine ⟨fun s u c hcompile => ?_, fun s e commands hs hcommands => ?_⟩
  · obtain ⟨out, t, hdeclared, hruns, rfl, -⟩ := compile_ok hcompile
    have huntouched := Untouched.statements hdeclared
    have hframe : (s.declared u).frame = some u.context := Surroundings.frame_congr huntouched.unit
    have hbegin : (s.begin u).Each (Shaped (some u.context)) := .begin s u
    obtain ⟨hbody, hscripts⟩ := hruns.shaped hframe (.nil _) (hbegin.congr huntouched.scripts)
    refine ⟨⟨t.allocator.preamble, out.commands, ?_, hbody⟩, fun name script hname hscript => ?_⟩
    · have hframe' : t.frame = some u.context :=
        (Surroundings.frame_congr hruns.place_eq.1).trans hframe
      refine (t.withPrimary_script u.context out.commands).trans ?_
      rw [hframe', List.append_assoc, List.append_assoc]
      rfl
    · exact hscripts name script ((t.withPrimary_other out.commands hname).symm.trans hscript)
  · have hshaped := lowerExpression_shaped hcommands
    have hnone : s.frame = none := by rw [Surroundings.frame, hs.unit_eq]; rfl
    rw [hnone] at hshaped
    exact hshaped

/-! A unit with a function that has the name of the unit. -/

/-- `function main() {} function f(a) { return a } let x = f(2)`, in the file `main.ts`. -/
def namesakeUnit : CompilationUnit where
  fileName := "main.ts"
  context := "main"
  statements := [
    .function ⟨0, some "main", [], some [], false, 0⟩,
    .function ⟨1, some "f", [⟨.identifier "a", false, none, 0⟩],
      some [.returning 0 (some (.identifier ⟨0, none⟩ "a"))], false, 0⟩,
    .bindings 0 [⟨.identifier "x", some (.call ⟨0, none⟩ (.identifier ⟨0, none⟩ "f")
      [.number ⟨0, none⟩ (.ofInt 2)]), 0⟩]]
  declCount := 2

/-- `x++` -/
def increment : Expr := .unary ⟨0, none⟩ .increment .after (.identifier ⟨0, none⟩ "x")

theorem compiled_shape_namesake :
    ∃ c script commands, (compile {} namesakeUnit).1 = .ok c ∧ c.scripts["f"]? = some script ∧
      ((compile {} namesakeUnit).2.lowerExpression increment).1 = .ok commands ∧
      (∃ names body, c.scripts["main"]? =
          some (declarations names ++ [.summon "main"] ++ body ++ [.kill "main"]) ∧
        ∀ d ∈ body, d.InFrame (some "main")) ∧
      (∃ names body, script = declarations names ++ body ∧ ∀ d ∈ body, d.InFrame (some "main")) ∧
      ∃ names body, commands = declarations names ++ body ∧ ∀ d ∈ body, d.InFrame none := by
  obtain ⟨c, hc⟩ : ∃ c, (compile {} namesakeUnit).1 = .ok c := exists_compilation (by decide +kernel)
  have hscript : (compile {} namesakeUnit).1.toOption.bind (·.scripts["f"]?) =
      some [.declare "a_1", .declare "f_return_2",
        .operation (some "main") "f_return_2" .assign "a_1"] := by decide +kernel
  rw [hc] at hscript
  obtain ⟨commands, hcommands⟩ : ∃ commands,
      ((compile {} namesakeUnit).2.lowerExpression increment).1 = .ok commands := by
    have hsome : ((compile {} namesakeUnit).2.lowerExpression increment).1.toOption.isSome = true := by
      decide +kernel
    cases hlowered : ((compile {} namesakeUnit).2.lowerExpression increment).1 with
    | ok commands => exact ⟨commands, rfl⟩
    | error e =>
      rw [hlowered] at hsome
      cases hsome
  obtain ⟨hprimary, hothers⟩ := compiled_shape.1 {} namesakeUnit c hc
  have hreachable : (compile {} namesakeUnit).2.Reachable := .compiled .start namesakeUnit
  exact ⟨c, _, _, hc, hscript, hcommands, hprimary, hothers "f" _ (by decide) hscript,
    compiled_shape.2 _ increment _ hreachable hcommands⟩

end Session

end FrameScript
