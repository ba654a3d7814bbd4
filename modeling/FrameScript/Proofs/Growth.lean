/-
  What lowering adds, it does not take back.

  Warnings and declared names are added at the end, and a script stays under its name unless another
  one is stored there, in which case there is a warning about that name.  `Grows s t` says so of two
  sessions, and lowering a piece of work is a case of it (`Runs.grows`).

  With it the script of a callable can be followed from where it is stored to the end of the unit: it
  begins with the slots that are recorded for the callable (`Runs.hoisted`).
-/
import FrameScript.Proofs.Records

namespace FrameScript

open Source

/-- There is a warning that a script was produced twice. -/
def Session.Twice (s : Session) (name : String) : Prop :=
  ∃ w ∈ s.warnings, w.message = producedTwice name

/-- Warnings stay, and scripts stay unless there is a warning. -/
structure Retains (s t : Session) : Prop where
  warnings : s.warnings <+: t.warnings
  keys : ∀ name, s.scripts.contains name = true → t.scripts.contains name = true
  scripts : ∀ (name : String) (body : List Command), s.scripts[name]? = some body →
    t.scripts[name]? = some body ∨ t.Twice name

/-- The later session has what the earlier one had, and so has its current script. -/
structure Grows (s t : Session) : Prop extends Retains s t where
  preamble : s.allocator.preamble <+: t.allocator.preamble

theorem Session.Twice.mono {s t : Session} {name : String} (h : s.Twice name)
    (hw : s.warnings <+: t.warnings) : t.Twice name := by
  obtain ⟨w, hin, hmessage⟩ := h
  exact ⟨w, hw.subset hin, hmessage⟩

namespace Retains

variable {s t u : Session}

/-- Sessions with the same scripts. -/
theorem of_scripts (hw : s.warnings <+: t.warnings) (hs : t.scripts = s.scripts) : Retains s t where
  warnings := hw
  keys := fun name hname => by rw [hs]; exact hname
  scripts := fun name body hbody => .inl (by rw [hs]; exact hbody)

theorem trans (h : Retains s t) (h' : Retains t u) : Retains s u where
  warnings := h.warnings.trans h'.warnings
  keys := fun name hname => h'.keys name (h.keys name hname)
  scripts := by
    intro name body hbody
    rcases h.scripts name body hbody with hkept | htwice
    · exact h'.scripts name body hkept
    · exact .inr (htwice.mono h'.warnings)

theorem stored (s : Session) (name : String) (body : List Command) (line : Nat) :
    Retains s (s.stored name body line) := by
  have hscripts : (s.stored name body line).scripts = s.scripts.insert name body := by
    obtain ⟨ws, hws⟩ := s.stored_eq_noting name body line
    rw [hws]
    rfl
  refine ⟨?_, fun other hother => ?_, fun other b hb => ?_⟩
  · obtain ⟨ws, hws⟩ := s.stored_eq_noting name body line
    rw [hws]
    exact List.prefix_append _ _
  · rw [hscripts, Std.TreeMap.contains_insert, hother, Bool.or_true]
  · by_cases hother : other = name
    · -- the name is taken, and there is a warning
      subst hother
      refine .inr ⟨s.warning line (producedTwice other), ?_, rfl⟩
      rw [Session.stored, if_pos (by rw [hb]; rfl)]
      exact List.mem_append_right _ List.mem_cons_self
    · refine .inl ?_
      rw [hscripts]
      exact (Scripts.getElem?_push_other s.scripts body hother).trans hb

end Retains

namespace Grows

variable {s t u : Session}

theorem trans (h : Grows s t) (h' : Grows t u) : Grows s u where
  toRetains := h.toRetains.trans h'.toRetains
  preamble := h.preamble.trans h'.preamble

theorem noting (s : Session) (ws : List Diagnostic) : Grows s (s.noting ws) where
  toRetains := .of_scripts (List.prefix_append _ _) rfl
  preamble := List.prefix_refl _

theorem untouched (h : s.Untouched t) : Grows s t where
  toRetains := .of_scripts (h.warnings ▸ List.prefix_refl _) h.scripts
  preamble := h.preamble ▸ List.prefix_refl _

theorem withVariable (s : Session) (name : String) : Grows s (s.withVariable name) where
  toRetains := .of_scripts (List.prefix_refl _) rfl
  preamble := List.prefix_append _ _

theorem withEffects (s : Session) {fx : Effects} (h : s.toEffects.Extends fx) :
    Grows s (s.withEffects fx) where
  toRetains := .of_scripts h.warnings rfl
  preamble := by
    obtain ⟨k, hk⟩ := h.allocator
    show s.allocator.preamble <+: fx.allocator.preamble
    rw [hk]
    exact List.prefix_append _ _

theorem stored (s : Session) (name : String) (body : List Command) (line : Nat) :
    Grows s (s.stored name body line) where
  toRetains := .stored s name body line
  preamble := by
    obtain ⟨ws, hws⟩ := s.stored_eq_noting name body line
    rw [hws]
    exact List.prefix_refl _

/-- A script of its own leaves the preamble around it alone. -/
theorem closed {scope : LexicalScope} {slots : List String} (h : Grows (s.opened scope slots) t) :
    Grows s (s.closed t) where
  warnings := h.warnings
  keys := h.keys
  scripts := h.scripts
  preamble := List.prefix_refl _

end Grows

theorem Session.getElem?_stored (s : Session) (name : String) (body : List Command) (line : Nat) :
    (s.stored name body line).scripts[name]? = some body := by
  obtain ⟨ws, hws⟩ := s.stored_eq_noting name body line
  rw [hws]
  exact Scripts.getElem?_push_self s.scripts name body

/-- **Lowering only adds.** -/
theorem Runs.grows {task : Task} {s t : Session} {log : List Event} {out : Emitted Flow}
    (h : Runs task s log out t) : Grows s t := by
  induction h with
  | idle h =>
    obtain ⟨ws, rfl⟩ := h.eq_noting
    exact .noting _ ws
  | seq _ _ _ ihfirst ihrest => exact ihfirst.trans ihrest
  | @returned st s t log commands rest _ ih =>
    obtain ⟨ws, hws⟩ := t.skipping_eq_noting rest
    rw [hws]
    exact ih.trans (.noting t ws)
  | inside _ _ ih => exact ih
  | @declares d name _ _ s => exact .withVariable s name
  | @evaluates task s t use e flow commands fx htask he =>
    have hprepared : Grows s t := by
      rcases htask.prepared with ⟨ws, rfl⟩ | ⟨_, name, _, _, rfl⟩
      · exact .noting s ws
      · exact .withVariable s name
    exact hprepared.trans (.withEffects t he.extends)
  | @function f body s t u log out _ hdeclared _ ih =>
    obtain ⟨ws, hws⟩ := t.warnedIf_eq_noting f.isAsync f.line "async function is lowered synchronously"
    rw [hws] at ih
    exact (Grows.untouched (.function hdeclared)).trans ((Grows.noting t ws).trans ih)
  | @method info scope f isStatic body s t log out _ _ ih =>
    obtain ⟨ws, hws⟩ := s.warnedIf_eq_noting f.isAsync f.line "async method is lowered synchronously"
    rw [hws] at ih
    exact (Grows.noting s ws).trans ih
  | classDef _ hdeclared _ _ ih => exact (Grows.untouched (.classDef hdeclared)).trans ih
  | script _ _ ih => exact ih.closed.trans (.stored _ _ _ _)
  | constructor _ _ ih => exact ih
  | defaulted scope line _ s => exact .stored s _ _ _

/-- The script of a callable stands under its name and begins with its slots, unless another script
was stored under that name. -/
def Session.Carries (t : Session) (id : DeclId) : Prop :=
  ∃ k, t.decls.callable? id = some k ∧
    (t.Twice k.script ∨ ∃ rest, t.scripts[k.script]? = some (declarations k.slots ++ rest))

theorem Session.Carries.mono {s t : Session} {id : DeclId} (h : s.Carries id) (hretains : Retains s t)
    (hsub : s.decls.Sub t.decls) : t.Carries id := by
  obtain ⟨k, hk, hscript⟩ := h
  refine ⟨k, hsub.callable hk, ?_⟩
  rcases hscript with htwice | ⟨rest, hrest⟩
  · exact .inl (htwice.mono hretains.warnings)
  · rcases hretains.scripts _ _ hrest with hkept | htwice
    · exact .inr ⟨rest, hkept⟩
    · exact .inl htwice

/-- **A body that is reached becomes the script of its callable**, which begins with the slots that
callers use. -/
theorem Runs.hoisted {task : Task} {s t : Session} {log : List Event} {out : Emitted Flow}
    (h : Runs task s log out t) (hfit : task.Fit s.decls) {id : DeclId} (hid : .hoists id ∈ log) :
    t.Carries id := by
  induction h with
  | idle h => exact absurd hid List.not_mem_nil
  | seq hsplit hfirst hrest ihfirst ihrest =>
    have hfit' := hfit.rest hsplit hfirst
    rcases List.mem_append.mp hid with hid | hid
    · exact (ihfirst (hfit.first hsplit) hid).mono hrest.grows.toRetains (hrest.sub hfit')
    · exact ihrest hfit' hid
  | @returned st s t log commands rest _ ih =>
    obtain ⟨ws, hws⟩ := t.skipping_eq_noting rest
    rw [hws]
    exact (ih (hfit.first rfl) hid).mono (Grows.noting t ws).toRetains (.refl _)
  | inside hinside _ ih => exact ih (hfit.inside hinside) hid
  | declares _ _ s => exact absurd hid List.not_mem_nil
  | evaluates htask he => cases List.mem_singleton.mp hid
  | @function f body s t u log out hbody hdeclared _ ih =>
    rw [t.warnedIf_decls] at ih
    exact ih (hfit.function hbody hdeclared _ _ _) hid
  | @method info scope f isStatic body s t log out hbody _ ih =>
    rw [s.warnedIf_decls] at ih
    exact ih (hfit.method hbody _ _ _) hid
  | classDef _ hdeclared hinfo _ ih => exact ih (hfit.classDef hdeclared hinfo _ _) hid
  | @script task s t script log out hopens hrun ih =>
    have hbody := hfit.script hopens
    rcases List.mem_append.mp hid with hid | hid
    · -- the script of the callable itself
      cases hopens with
      | @callable id' s k hk line enclosing prologue body =>
        cases List.mem_singleton.mp hid
        have hk' : t.decls.callable? id = some k := (hrun.sub hbody).callable hk
        obtain ⟨more, hmore⟩ : k.slots <+: t.allocator.preamble := hrun.grows.preamble
        refine ⟨k, ?_, .inr ⟨declarations more ++ prologue ++ out.commands, ?_⟩⟩
        · rw [Session.stored_decls]
          exact hk'
        · rw [Session.getElem?_stored, ← hmore]
          simp only [declarations, List.map_append, List.append_assoc]
      | fields info scope ms line => exact absurd hid List.not_mem_nil
    · have hclosed : (s.closed t).Carries id := ih hbody hid
      refine hclosed.mono (.stored _ _ _ _) ?_
      rw [Session.stored_decls]
      exact .refl _
  | constructor hfound _ ih => exact ih (hfit.constructor hfound _ _) hid
  | defaulted scope line _ s => exact absurd hid List.not_mem_nil

end FrameScript
