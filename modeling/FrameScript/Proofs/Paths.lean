/-
  Where invokes lead.

  The path of an `invoke` is a name that was resolved, with a suffix where a method or constructor is
  meant.  In a unit whose names have no slash, a path that lies in the unit's own context can only
  come from a symbol of a function, method or class of the unit: a slot and an unresolved name have
  no slash, and an imported name lies in the context of its module.  `Points` lists what is left.

  The commands of an expression are looked at through the list of paths that they invoke
  (`invokes`).
-/
import FrameScript.Proofs.Calls

namespace FrameScript

open Source

/-! ## Texts without a slash -/

def SlashFree (text : String) : Prop := '/' ∉ text.toList

/-- The path leads to no script of the context. -/
def Leaves (context path : String) : Prop := ∀ target, path ≠ qualify context target

theorem toList_qualify (context script : String) :
    (qualify context script).toList = context.toList ++ '/' :: script.toList := by
  simp [qualify]

theorem SlashFree.append {a b : String} (ha : SlashFree a) (hb : SlashFree b) :
    SlashFree (a ++ b) := by
  unfold SlashFree
  rw [String.toList_append, List.mem_append]
  rintro (h | h)
  · exact ha h
  · exact hb h

theorem slashFree_number (n : Nat) : SlashFree (toString n) := by
  intro h
  rw [Nat.toString_eq_repr, Nat.toList_repr] at h
  have hdigit := Nat.isDigit_of_mem_toDigits (by decide) (by decide) h
  exact absurd hdigit (by decide)

theorem SlashFree.leaves {path : String} (h : SlashFree path) (context : String) :
    Leaves context path := by
  rintro target rfl
  refine h ?_
  rw [toList_qualify]
  exact List.mem_append_right _ List.mem_cons_self

/-- A path with something behind it that has no slash. -/
theorem Leaves.append {context path suffix : String} (h : Leaves context path)
    (hs : SlashFree suffix) : Leaves context (path ++ suffix) := by
  intro target heq
  have hlist := congrArg String.toList heq
  rw [String.toList_append, toList_qualify] at hlist
  -- the slash of the context lies in the path, since it cannot lie behind it
  rcases List.append_eq_append_iff.mp hlist with ⟨rest, -, hsuffix⟩ | ⟨rest, hpath, hsuffix⟩
  · refine hs ?_
    rw [hsuffix]
    exact List.mem_append_right _ List.mem_cons_self
  · cases rest with
    | nil =>
      refine hs ?_
      have hsame : '/' :: target.toList = suffix.toList := hsuffix
      rw [← hsame]
      exact List.mem_cons_self
    | cons c rest =>
      obtain ⟨rfl, -⟩ := List.cons.inj hsuffix
      refine h (String.ofList rest) (String.toList_inj.mp ?_)
      rw [toList_qualify, hpath, String.toList_ofList]

/-- A script of another context. -/
theorem leaves_qualify {context module name : String} (hm : SlashFree module) (hn : SlashFree name)
    (hne : module ≠ context) : Leaves context (qualify module name) := by
  intro target heq
  have hlist := congrArg String.toList heq
  rw [toList_qualify, toList_qualify] at hlist
  rcases List.append_eq_append_iff.mp hlist with ⟨rest, hcontext, hrest⟩ | ⟨rest, hmodule, hrest⟩
  · cases rest with
    | nil => exact hne (String.toList_inj.mp (by rw [hcontext, List.append_nil]))
    | cons c rest =>
      obtain ⟨-, htail⟩ := List.cons.inj hrest
      refine hn ?_
      rw [htail]
      exact List.mem_append_right _ List.mem_cons_self
  · cases rest with
    | nil => exact hne (String.toList_inj.mp (by rw [hmodule, List.append_nil]))
    | cons c rest =>
      obtain ⟨rfl, -⟩ := List.cons.inj hrest
      refine hm ?_
      rw [hmodule]
      exact List.mem_append_right _ List.mem_cons_self

/-- Names without a slash, and modules other than the unit itself. -/
def Naming.slashFree (context : String) : Naming where
  context
  plain := SlashFree
  foreign := fun module => SlashFree module ∧ module ≠ context
  plain_minted := fun n h => (h.append (by unfold SlashFree; decide)).append (slashFree_number n)
  plain_method := fun h h' => (h.append (by unfold SlashFree; decide)).append h'
  plain_init := fun h => h.append (by unfold SlashFree; decide)
  plain_return := fun h => h.append (by unfold SlashFree; decide)
  plain_default := by unfold SlashFree; decide

/-! ## Paths of a unit -/

section Resolution

variable {context : String} {q : Surroundings}

namespace Naming

namespace Coherent

variable (h : (slashFree context).Coherent q)

include h

/-- The slots of a callable lead nowhere. -/
theorem slot_slashFree {id : DeclId} {k : Callable} (hk : q.decls.callable? id = some k)
    {slot : String} (hslot : slot ∈ k.slots) : SlashFree slot := by
  unfold DeclTable.callable? at hk
  split at hk
  · next k' hrecord =>
    obtain rfl := Option.some.inj hk
    exact (h.records id _ hrecord).2 slot hslot
  · cases hk

theorem param_slashFree {name slot : String} (hslot : q.paramSlot? name = some slot) :
    SlashFree slot := by
  obtain ⟨k, hk, hparam⟩ := Option.bind_eq_some_iff.mp hslot
  obtain ⟨id, -, hk⟩ := Option.bind_eq_some_iff.mp hk
  obtain ⟨param, hfind, rfl⟩ := Option.map_eq_some_iff.mp hparam
  refine h.slot_slashFree hk (List.mem_append_left _ ?_)
  exact List.mem_map_of_mem (List.mem_of_find?_eq_some hfind)

theorem namespace_foreign {object : Expr} {module : String}
    (hmodule : q.namespace? object = some module) : SlashFree module ∧ module ≠ context := by
  unfold Surroundings.namespace? at hmodule
  split at hmodule
  · split at hmodule
    · next symbol hsymbol =>
      split at hmodule
      · next hkind =>
        cases hmodule
        have hsound := h.symbols.lookup hsymbol
        cases hsound with
        | slot name _ hslot => rcases hslot with rfl | rfl <;> cases hkind
        | imported bound _ _ => cases hkind
        | namespaceName bound hm => exact hm
        | callable name _ hcallable => rcases hcallable with rfl | rfl | rfl <;> cases hkind
        | classDef name _ => cases hkind
      · cases hmodule
    · cases hmodule
  · cases hmodule

end Coherent

end Naming

end Resolution

/-! ## The paths that an expression invokes -/

/-- The paths that commands invoke, in order. -/
def invokes (commands : List Command) : List String :=
  commands.filterMap fun
    | .invoke path => some path
    | _ => none

@[simp] theorem invokes_append (xs ys : List Command) : invokes (xs ++ ys) = invokes xs ++ invokes ys :=
  List.filterMap_append

namespace Lower

variable {s : Surroundings}

theorem invokes_stage (v : Operand) (fx : Effects) : invokes (stage s v fx).1.commands = [] := by
  cases v <;> rfl

theorem invokes_updated (target : String) (code : Op) (keepOld : Bool) (fx : Effects) :
    invokes (updated s target code keepOld fx).1.commands = [] := by
  cases keepOld <;> rfl

theorem invokes_protect (endangered : Bool) (v : Operand) (fx : Effects) :
    invokes (protect s endangered v fx).1.commands = [] := by
  cases v <;> cases endangered <;> rfl

/-- Settled arguments invoke what the arguments invoke. -/
theorem invokes_settle (arguments : List (Emitted Operand)) (fx : Effects) :
    invokes (settle s arguments fx).1.commands = arguments.flatMap fun a => invokes a.commands := by
  induction arguments generalizing fx with
  | nil => rfl
  | cons a rest ih =>
    rw [settle_cons]
    dsimp only
    rw [invokes_append, invokes_append, invokes_protect, List.append_nil, ih, List.flatMap_cons]

theorem invokes_copyIn (params : List ParamSlot) (vs : List Operand) :
    invokes (copyIn s params vs) = [] := by
  refine List.filterMap_eq_nil_iff.mpr fun c hc => ?_
  obtain ⟨⟨param, v⟩, -, rfl⟩ := List.mem_map.mp hc
  cases v <;> rfl

theorem invokes_callCommands (path : String) (k : Callable) (arguments : List (Emitted Operand))
    (fx : Effects) :
    invokes (callCommands s path k arguments fx) =
      (arguments.flatMap fun a => invokes a.commands) ++ [path] := by
  rw [callCommands, invokes_append, invokes_append, invokes_settle, invokes_copyIn, List.append_nil]
  rfl

variable {context : String}

end Lower

end FrameScript
