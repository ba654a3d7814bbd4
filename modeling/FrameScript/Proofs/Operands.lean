/-
  The registers that commands name.

  The operands of the commands of an expression are of two sorts: slots that its names stand for, and
  registers that were minted while it was lowered.  `Staged P cs R` says so of a list of commands,
  where `P` holds of the slots and `R` lists the minted registers, and it says how the registers are
  treated: each is given a value by one command, a `set` or an `operation` with `=`, which stands
  before all commands that read it (`Staged.assignedOnce`).

  Such lists are built by appending, with the registers of the parts apart.  The order in which the
  registers are minted is lost on the way: the copies that keep arguments from being overwritten are
  minted after all arguments were lowered, and stand between their commands.

  What the names stand for is left open as well.  `Surroundings.Supplies` asks that all slots that an
  expression can reach satisfy `P`; under it every expression lowers to such commands (`staged_expr`).
-/
import FrameScript.Proofs.Runs
import FrameScript.Proofs.Spelling

namespace FrameScript

open Source

/-! ## Commands -/

namespace Command

/-- The registers that a command names. -/
def operands : Command → List String
  | .set _ register _ => [register]
  | .operation _ lhs _ rhs => [lhs, rhs]
  | .declare _ | .invoke _ | .summon _ | .kill _ => []

/-- The register that a command changes. -/
def target? : Command → Option String
  | .set _ register _ => some register
  | .operation _ lhs _ _ => some lhs
  | .declare _ | .invoke _ | .summon _ | .kill _ => none

/-- The registers that a command takes values from; a compound operation reads its left side too. -/
def reads : Command → List String
  | .operation _ _ .assign rhs => [rhs]
  | .operation _ lhs _ rhs => [lhs, rhs]
  | .set .. | .declare _ | .invoke _ | .summon _ | .kill _ => []

/-- The command gives the register a value, whatever it held before. -/
def Defines (register : String) : Command → Prop
  | .set _ target _ => target = register
  | .operation _ lhs .assign _ => lhs = register
  | _ => False

theorem Defines.target_eq {register : String} {c : Command} (h : c.Defines register) :
    c.target? = some register := by
  cases c with
  | set frame target value => exact congrArg some h
  | operation frame lhs op rhs =>
    cases op with
    | assign => exact congrArg some h
    | _ => exact absurd h id
  | _ => exact absurd h id

/-- What a defining command names beside the register it defines, it reads. -/
theorem Defines.operands_eq {register : String} {c : Command} (h : c.Defines register) :
    c.operands = register :: c.reads := by
  cases c with
  | set frame target value =>
    obtain rfl : target = register := h
    rfl
  | operation frame lhs op rhs =>
    cases op with
    | assign =>
      obtain rfl : lhs = register := h
      rfl
    | _ => exact absurd h id
  | _ => exact absurd h id

theorem target_mem_operands {c : Command} {x : String} (h : c.target? = some x) : x ∈ c.operands := by
  cases c with
  | set frame target value => exact Option.some.inj h ▸ List.mem_cons_self
  | operation frame lhs op rhs => exact Option.some.inj h ▸ List.mem_cons_self
  | _ => cases h

theorem reads_subset_operands {c : Command} : c.reads ⊆ c.operands := by
  cases c with
  | operation frame lhs op rhs =>
    cases op with
    | assign => exact List.subset_cons_self _ _
    | _ => exact List.Subset.refl _
  | _ => exact List.nil_subset _

end Command

/-! ## Registers with one value -/

/-- The register gets its value by one command, which takes it from elsewhere: no command before
names the register, and no later command changes it. -/
def AssignedOnce (register : String) (commands : List Command) : Prop :=
  ∃ before c after, commands = before ++ c :: after ∧ c.Defines register ∧ register ∉ c.reads ∧
    (∀ d ∈ before, register ∉ d.operands) ∧ ∀ d ∈ after, d.target? ≠ some register

namespace AssignedOnce

variable {r : String} {xs ys : List Command}

/-- Commands behind that do not change the register. -/
theorem append (h : AssignedOnce r xs) (hy : ∀ d ∈ ys, d.target? ≠ some r) :
    AssignedOnce r (xs ++ ys) := by
  obtain ⟨before, c, after, rfl, hc, hreads, hbefore, hafter⟩ := h
  refine ⟨before, c, after ++ ys, by simp, hc, hreads, hbefore, fun d hd => ?_⟩
  rcases List.mem_append.mp hd with hd | hd
  · exact hafter d hd
  · exact hy d hd

/-- Commands in front that do not name the register. -/
theorem prepend (h : AssignedOnce r ys) (hx : ∀ d ∈ xs, r ∉ d.operands) :
    AssignedOnce r (xs ++ ys) := by
  obtain ⟨before, c, after, rfl, hc, hreads, hbefore, hafter⟩ := h
  refine ⟨xs ++ before, c, after, by simp, hc, hreads, fun d hd => ?_, hafter⟩
  rcases List.mem_append.mp hd with hd | hd
  · exact hx d hd
  · exact hbefore d hd

/-- The register has its value before it is read. -/
theorem defined_before_read {d : Command} (h : AssignedOnce r (xs ++ d :: ys)) (hread : r ∈ d.reads) :
    ∃ c ∈ xs, c.Defines r := by
  obtain ⟨before, c, after, heq, hc, hreads, hbefore, -⟩ := h
  rcases List.append_eq_append_iff.mp heq with ⟨_ | ⟨d', later⟩, rfl, htail⟩ | ⟨_ | ⟨c', later⟩, rfl, htail⟩
  · -- it would be the defining command itself
    obtain ⟨rfl, -⟩ := List.cons.inj htail
    exact absurd hread hreads
  · -- it would stand before the defining command
    obtain ⟨rfl, -⟩ := List.cons.inj htail
    exact absurd (Command.reads_subset_operands hread)
      (hbefore d (List.mem_append_right _ List.mem_cons_self))
  · obtain ⟨rfl, -⟩ := List.cons.inj htail
    exact absurd hread hreads
  · obtain ⟨rfl, -⟩ := List.cons.inj htail
    exact ⟨c, List.mem_append_right _ List.mem_cons_self, hc⟩

end AssignedOnce

/-- Commands whose operands are slots of some kind and registers, where each register is defined
before it is used and then left alone. -/
inductive Staged (P : String → Prop) : List Command → List String → Prop where
  | nil : Staged P [] []
  | uses {cs : List Command} {R : List String} {c : Command} (h : Staged P cs R)
      (htarget : ∀ x, c.target? = some x → P x) (hoperands : ∀ x ∈ c.operands, P x ∨ x ∈ R) :
      Staged P (cs ++ [c]) R
  | defines {cs : List Command} {R : List String} {c : Command} {r : String} (h : Staged P cs R)
      (hc : c.Defines r) (hfresh : r ∉ R) (hreads : ∀ x ∈ c.reads, P x ∨ x ∈ R) :
      Staged P (cs ++ [c]) (R ++ [r])
  | append {cs cs' : List Command} {R R' : List String} (h : Staged P cs R) (h' : Staged P cs' R')
      (hapart : R.Disjoint R') : Staged P (cs ++ cs') (R ++ R')
  | perm {cs : List Command} {R R' : List String} (h : Staged P cs R) (hperm : R.Perm R') :
      Staged P cs R'

namespace Staged

variable {P : String → Prop} {cs : List Command} {R : List String}

/-- Every operand is a slot or one of the registers. -/
theorem operands (h : Staged P cs R) : ∀ c ∈ cs, ∀ x ∈ c.operands, P x ∨ x ∈ R := by
  induction h with
  | nil => exact fun c hc => absurd hc List.not_mem_nil
  | uses _ _ hoperands ih =>
    intro c hc x hx
    rcases List.mem_append.mp hc with hc | hc
    · exact ih c hc x hx
    · exact hoperands x (List.mem_singleton.mp hc ▸ hx)
  | defines _ hc' _ hreads ih =>
    intro c hc x hx
    rcases List.mem_append.mp hc with hc | hc
    · exact (ih c hc x hx).imp_right (List.mem_append_left _)
    · rw [List.mem_singleton.mp hc, hc'.operands_eq] at hx
      rcases List.mem_cons.mp hx with rfl | hx
      · exact .inr (List.mem_append_right _ List.mem_cons_self)
      · exact (hreads x hx).imp_right (List.mem_append_left _)
  | append _ _ _ ih ih' =>
    intro c hc x hx
    rcases List.mem_append.mp hc with hc | hc
    · exact (ih c hc x hx).imp_right (List.mem_append_left _)
    · exact (ih' c hc x hx).imp_right (List.mem_append_right _)
  | perm _ hperm ih => exact fun c hc x hx => (ih c hc x hx).imp_right hperm.mem_iff.mp

/-- **Registers are assigned once.**  They have to be told apart from the slots. -/
theorem assignedOnce (h : Staged P cs R) (hR : ∀ r ∈ R, ¬P r) : ∀ r ∈ R, AssignedOnce r cs := by
  -- a command that names neither slots nor the registers of another part
  have hforeign : ∀ {cs' : List Command} {R' : List String} {r : String}, Staged P cs' R' → ¬P r →
      r ∉ R' → ∀ d ∈ cs', r ∉ d.operands := by
    intro cs' R' r h' hP hr d hd hx
    exact (h'.operands d hd r hx).elim hP hr
  induction h with
  | nil => exact fun r hr => absurd hr List.not_mem_nil
  | @uses cs R c _ htarget _ ih =>
    intro r hr
    refine (ih hR r hr).append fun d hd => ?_
    obtain rfl := List.mem_singleton.mp hd
    exact fun heq => hR r hr (htarget r heq)
  | @defines cs R c r' h hc hfresh hreads ih =>
    intro r hr
    rcases List.mem_append.mp hr with hr | hr
    · have hR' : ∀ r ∈ R, ¬P r := fun r hr => hR r (List.mem_append_left _ hr)
      refine (ih hR' r hr).append fun d hd => ?_
      obtain rfl := List.mem_singleton.mp hd
      rw [hc.target_eq]
      rintro heq
      exact hfresh (Option.some.inj heq ▸ hr)
    · obtain rfl := List.mem_singleton.mp hr
      have hP := hR r (List.mem_append_right _ List.mem_cons_self)
      have hother : r ∉ c.reads := fun hin => (hreads r hin).elim hP hfresh
      exact ⟨cs, c, [], rfl, hc, hother, hforeign h hP hfresh, fun d hd => absurd hd List.not_mem_nil⟩
  | @append cs cs' R R' h h' hapart ih ih' =>
    intro r hr
    have hP := hR r hr
    rcases List.mem_append.mp hr with hr | hr
    · refine (ih (fun r hr => hR r (List.mem_append_left _ hr)) r hr).append fun d hd heq => ?_
      exact hforeign h' hP (fun hr' => hapart hr hr') d hd (Command.target_mem_operands heq)
    · refine (ih' (fun r hr => hR r (List.mem_append_right _ hr)) r hr).prepend ?_
      exact hforeign h hP fun hr' => hapart hr' hr
  | perm _ hperm ih =>
    intro r hr
    exact ih (fun r hr => hR r (hperm.mem_iff.mp hr)) r (hperm.mem_iff.mpr hr)

/-- Commands that define nothing. -/
theorem uses_all (h : Staged P cs R) {ds : List Command}
    (htarget : ∀ d ∈ ds, ∀ x, d.target? = some x → P x)
    (hoperands : ∀ d ∈ ds, ∀ x ∈ d.operands, P x ∨ x ∈ R) : Staged P (cs ++ ds) R := by
  induction ds generalizing cs with
  | nil =>
    rw [List.append_nil]
    exact h
  | cons d rest ih =>
    rw [List.append_cons]
    refine ih (h.uses (htarget d List.mem_cons_self) (hoperands d List.mem_cons_self)) ?_ ?_
    · exact fun d' hd' => htarget d' (List.mem_cons_of_mem d hd')
    · exact fun d' hd' => hoperands d' (List.mem_cons_of_mem d hd')

/-- A command without operands. -/
theorem snoc (h : Staged P cs R) {c : Command} (hc : c.operands = []) : Staged P (cs ++ [c]) R := by
  have hno : ∀ x, x ∉ c.operands := fun x hx => by rw [hc] at hx; exact absurd hx List.not_mem_nil
  refine h.uses (fun x hx => absurd (Command.target_mem_operands hx) (hno x)) ?_
  exact fun x hx => absurd hx (hno x)

end Staged

/-! ## What names stand for -/

/-- The keys under which names of some spelling are looked up: the names themselves, and the members
of any class. -/
def LookupKey (plain : String → Prop) (key : String) : Prop :=
  plain key ∨ ∃ owner name, plain name ∧ key = memberKey owner name

/-- All slots that names of some spelling can stand for are of some kind. -/
structure Surroundings.Supplies (q : Surroundings) (plain P : String → Prop) : Prop where
  name : ∀ {name : String}, plain name → P name
  qualified : ∀ (module : String) {name : String}, plain name → P (FrameScript.qualify module name)
  symbol : ∀ {key : String} {symbol : Symbol}, LookupKey plain key →
    q.symbols.lookup key = some symbol → P symbol.path
  callee : ∀ {key : String} {symbol : Symbol} {id : DeclId} {k : Callable},
    q.symbols.lookup key = some symbol → symbol.decl = some id → q.decls.callable? id = some k →
    ∀ x ∈ k.slots, P x
  constructor : ∀ {i : DeclId} {info : ClassInfo} {id : DeclId} {k : Callable},
    q.decls.class? i = some info → info.constructor = some id → q.decls.callable? id = some k →
    ∀ x ∈ k.slots, P x
  owner : ∀ {k : Callable}, q.callable? = some k → ∀ x ∈ k.slots, P x

namespace Surroundings

/-- The slot of a member is that of a symbol, or lies in an imported module. -/
theorem memberSlot_ok {q : Surroundings} {object : Expr} {name slot : String}
    (h : q.memberSlot object name = .ok slot) :
    (∃ owner symbol, q.symbols.lookup (memberKey owner name) = some symbol ∧ slot = symbol.path) ∨
      ∃ module, slot = FrameScript.qualify module name := by
  have howned : ∀ {owner : String}, q.ownedSlot owner object name = .ok slot →
      ∃ owner symbol, q.symbols.lookup (memberKey owner name) = some symbol ∧ slot = symbol.path := by
    intro owner howned
    unfold ownedSlot at howned
    split at howned
    · next symbol hsymbol =>
      cases howned
      exact ⟨owner, symbol, hsymbol, rfl⟩
    · cases howned
  unfold memberSlot at h
  cases howner : q.memberOwner? object with
  | error e =>
    rw [howner] at h
    cases h
  | ok owner =>
    rw [howner] at h
    dsimp only [bind, Except.bind] at h
    split at h
    · exact .inl (howned h)
    · split at h
      · cases h
        exact .inr ⟨_, rfl⟩
      · exact .inl (howned h)

/-- The declaration of a constructor is known from a class. -/
theorem constructorDecl_ok {q : Surroundings} {className : String} {id : DeclId}
    (h : q.constructorDecl? className = some id) :
    ∃ i info, q.decls.class? i = some info ∧ info.constructor = some id := by
  unfold constructorDecl? at h
  obtain ⟨symbol, -, h⟩ := Option.bind_eq_some_iff.mp h
  obtain ⟨_, -, h⟩ := Option.bind_eq_some_iff.mp h
  obtain ⟨i, -, h⟩ := Option.bind_eq_some_iff.mp h
  obtain ⟨info, hinfo, h⟩ := Option.bind_eq_some_iff.mp h
  exact ⟨i, info, hinfo, h⟩

/-- The declaration of a named callee comes from a symbol, or is that of a constructor. -/
theorem namedCallee_decl {q : Surroundings} {callee : Expr} {head : Callee}
    (h : Lower.namedCallee? q callee = .ok (some head)) {id : DeclId} (hid : head.decl = some id) :
    (∃ key symbol, q.symbols.lookup key = some symbol ∧ symbol.decl = some id) ∨
      ∃ i info, q.decls.class? i = some info ∧ info.constructor = some id := by
  unfold Lower.namedCallee? at h
  split at h
  · -- `super`
    cases hparent : q.parentClass _ with
    | error e =>
      rw [hparent] at h
      cases h
    | ok parent =>
      rw [hparent] at h
      cases h
      exact .inr (constructorDecl_ok hid)
  · -- a method
    next object name _ =>
    unfold methodCallee at h
    cases howner : q.memberOwner? object with
    | error e =>
      rw [howner] at h
      cases h
    | ok owner =>
      rw [howner] at h
      dsimp only [bind, Except.bind] at h
      split at h
      · next callee hcallee =>
        cases h
        obtain ⟨name', -, hfound⟩ := Option.bind_eq_some_iff.mp hcallee
        unfold ownedCallee? at hfound
        split at hfound
        · next symbol hsymbol =>
          cases hfound
          exact .inl ⟨_, symbol, hsymbol, hid⟩
        · split at hfound <;> cases hfound
          cases hid
      · split at h <;> cases h <;> cases hid
  · -- a function
    cases h
    unfold functionCallee at hid
    split at hid
    · cases hid
    · split at hid
      · next symbol hsymbol => exact .inl ⟨_, symbol, hsymbol, hid⟩
      · cases hid
  · cases h

namespace Supplies

variable {q : Surroundings} {plain P : String → Prop} (h : q.Supplies plain P)

include h

theorem identifier {name : String} (hname : plain name) : P (q.identifierSlot name) := by
  unfold identifierSlot
  cases hparam : q.paramSlot? name with
  | some slot =>
    obtain ⟨k, hk, hslot⟩ := Option.bind_eq_some_iff.mp hparam
    obtain ⟨param, hfind, rfl⟩ := Option.map_eq_some_iff.mp hslot
    refine h.owner hk _ (List.mem_append_left _ ?_)
    exact List.mem_map_of_mem (List.mem_of_find?_eq_some hfind)
  | none =>
    show P (q.symbols.resolve name)
    unfold SymbolTable.resolve
    split
    · next symbol hsymbol => exact h.symbol (.inl hname) hsymbol
    · exact h.name hname

theorem member {object : Expr} {name slot : String} (hname : plain name)
    (hslot : q.memberSlot object name = .ok slot) : P slot := by
  rcases memberSlot_ok hslot with ⟨owner, symbol, hsymbol, rfl⟩ | ⟨module, rfl⟩
  · exact h.symbol (.inr ⟨owner, name, hname, rfl⟩) hsymbol
  · exact h.qualified module hname

theorem target {e : Expr} {slot : String} (hnames : ∀ n ∈ e.names, plain n)
    (hslot : q.targetSlot e = .ok slot) : P slot := by
  rw [← e.names_unwrapped] at hnames
  unfold targetSlot at hslot
  split at hslot
  · next m name heq =>
    cases hslot
    rw [heq] at hnames
    exact h.identifier (hnames name List.mem_cons_self)
  · next m object name heq =>
    rw [heq] at hnames
    exact h.member (hnames name List.mem_cons_self) hslot
  · next m _ =>
    cases hclass : q.enclosingClass m.line with
    | error e =>
      rw [hclass] at hslot
      cases hslot
    | ok scope =>
      rw [hclass] at hslot
      cases hslot
  · cases hslot

theorem named {callee : Expr} {head : Callee} {k : Callable}
    (hnamed : Lower.namedCallee? q callee = .ok (some head))
    (hknown : head.decl.bind q.decls.callable? = some k) : ∀ x ∈ k.slots, P x := by
  obtain ⟨id, hid, hk⟩ := Option.bind_eq_some_iff.mp hknown
  rcases namedCallee_decl hnamed hid with ⟨key, symbol, hsymbol, hdecl⟩ | ⟨i, info, hinfo, hcon⟩
  · exact h.callee hsymbol hdecl hk
  · exact h.constructor hinfo hcon hk

theorem constructed {className : String} {k : Callable}
    (hknown : (q.constructorDecl? className).bind q.decls.callable? = some k) :
    ∀ x ∈ k.slots, P x := by
  obtain ⟨id, hid, hk⟩ := Option.bind_eq_some_iff.mp hknown
  obtain ⟨i, info, hinfo, hcon⟩ := constructorDecl_ok hid
  exact h.constructor hinfo hcon hk

end Supplies

end Surroundings

/-! ## Registers that are minted -/

namespace Allocator

theorem mem_nextRegisters {a : Allocator} {k : Nat} {x : String} :
    x ∈ a.nextRegisters k ↔ ∃ n, a.registers < n ∧ n ≤ a.registers + k ∧ x = mintedRegister n := by
  unfold nextRegisters
  rw [List.mem_map]
  constructor
  · rintro ⟨n, hn, rfl⟩
    have hrange := List.mem_range'_1.mp hn
    exact ⟨n, by omega, by omega, rfl⟩
  · rintro ⟨n, hlo, hhi, rfl⟩
    exact ⟨n, List.mem_range'_1.mpr ⟨by omega, by omega⟩, rfl⟩

end Allocator

/-- All the registers have been minted. -/
def MintedBy (a : Allocator) (R : List String) : Prop := ∀ x ∈ R, ∃ n ≤ a.registers, x = mintedRegister n

namespace MintedBy

variable {a : Allocator} {R R' : List String}

theorem disjoint (h : MintedBy a R) (k : Nat) : R.Disjoint (a.nextRegisters k) := by
  intro x hx hx'
  obtain ⟨n, hn, rfl⟩ := h x hx
  obtain ⟨m, hm, -, heq⟩ := Allocator.mem_nextRegisters.mp hx'
  have hnm := mintedRegister_inj heq
  omega

theorem append (h : MintedBy a R) (h' : MintedBy a R') : MintedBy a (R ++ R') := by
  intro x hx
  rcases List.mem_append.mp hx with hx | hx
  · exact h x hx
  · exact h' x hx

theorem staged (h : MintedBy a R) (k : Nat) : MintedBy (a.staged k) R := by
  intro x hx
  obtain ⟨n, hn, rfl⟩ := h x hx
  exact ⟨n, Nat.le_trans hn (Nat.le_add_right _ _), rfl⟩

theorem nextRegisters (a : Allocator) (k : Nat) : MintedBy (a.staged k) (a.nextRegisters k) := by
  intro x hx
  obtain ⟨n, -, hn, rfl⟩ := Allocator.mem_nextRegisters.mp hx
  exact ⟨n, hn, rfl⟩

end MintedBy

namespace Lower

/-- Between two states of the allocator some registers were minted and some commands emitted, which
define just those registers.  The values listed may be used by later commands. -/
def Stages (P : String → Prop) (a b : Allocator) (commands : List Command) (values : List Operand) :
    Prop :=
  ∃ k, b = a.staged k ∧ Staged P commands (a.nextRegisters k) ∧
    ∀ x, .slot x ∈ values → P x ∨ x ∈ a.nextRegisters k

namespace Stages

variable {P : String → Prop} {a b c : Allocator} {cs cs' : List Command} {vs vs' : List Operand}

theorem nil (a : Allocator) (h : ∀ x, .slot x ∈ vs → P x) : Stages P a a [] vs :=
  ⟨0, (Allocator.staged_zero a).symm, .nil, fun x hx => .inl (h x hx)⟩

theorem mono (h : Stages P a b cs vs) (hvs : ∀ x, .slot x ∈ vs' → P x ∨ .slot x ∈ vs) :
    Stages P a b cs vs' := by
  obtain ⟨k, hb, hstaged, hvalues⟩ := h
  exact ⟨k, hb, hstaged, fun x hx => (hvs x hx).elim .inl (hvalues x)⟩

theorem append (h : Stages P a b cs vs) (h' : Stages P b c cs' vs') :
    Stages P a c (cs ++ cs') (vs ++ vs') := by
  obtain ⟨j, rfl, hstaged, hvalues⟩ := h
  obtain ⟨k, rfl, hstaged', hvalues'⟩ := h'
  refine ⟨j + k, Allocator.staged_staged a j k, ?_, fun x hx => ?_⟩
  · rw [Allocator.nextRegisters_add]
    exact hstaged.append hstaged' ((MintedBy.nextRegisters a j).disjoint k)
  · rw [Allocator.nextRegisters_add, List.mem_append, ← or_assoc]
    rcases List.mem_append.mp hx with hx | hx
    · exact .inl (hvalues x hx)
    · exact (hvalues' x hx).elim (fun hP => .inl (.inl hP)) .inr

/-- A command that defines the next register from values at hand. -/
theorem define (h : Stages P a b cs vs) {d : Command}
    (hd : d.Defines (mintedRegister (b.registers + 1)))
    (hreads : ∀ x ∈ d.reads, P x ∨ .slot x ∈ vs) :
    Stages P a (b.staged 1) (cs ++ [d]) (.slot (mintedRegister (b.registers + 1)) :: vs) := by
  obtain ⟨k, rfl, hstaged, hvalues⟩ := h
  have hnext : a.nextRegisters (k + 1) = a.nextRegisters k ++ [mintedRegister (a.registers + k + 1)] := by
    rw [Allocator.nextRegisters_add]
    rfl
  have hfresh : mintedRegister (a.registers + k + 1) ∉ a.nextRegisters k := by
    intro hin
    obtain ⟨n, -, hn, heq⟩ := Allocator.mem_nextRegisters.mp hin
    have := mintedRegister_inj heq
    omega
  refine ⟨k + 1, Allocator.staged_staged a k 1, ?_, fun x hx => ?_⟩
  · rw [hnext]
    exact hstaged.defines hd hfresh fun x hx => (hreads x hx).elim .inl (hvalues x)
  · rw [hnext, List.mem_append, ← or_assoc]
    rcases List.mem_cons.mp hx with hx | hx
    · cases hx
      exact .inr List.mem_cons_self
    · exact .inl (hvalues x hx)

/-- A command that changes a slot. -/
theorem use (h : Stages P a b cs vs) {d : Command} (htarget : ∀ x, d.target? = some x → P x)
    (hoperands : ∀ x ∈ d.operands, P x ∨ .slot x ∈ vs) : Stages P a b (cs ++ [d]) vs := by
  obtain ⟨k, hb, hstaged, hvalues⟩ := h
  exact ⟨k, hb, hstaged.uses htarget fun x hx => (hoperands x hx).elim .inl (hvalues x), hvalues⟩

theorem invoke (h : Stages P a b cs vs) (path : String) : Stages P a b (cs ++ [.invoke path]) vs :=
  h.use (fun _ hx => nomatch hx) (fun _ hx => absurd hx List.not_mem_nil)

/-- Storing a value at hand into a slot. -/
theorem assign (h : Stages P a b cs vs) (q : Surroundings) {slot : String} (hslot : P slot)
    {v : Operand} (hv : ∀ x, v = .slot x → P x ∨ .slot x ∈ vs) :
    Stages P a b (cs ++ [Lower.assign q slot v]) vs := by
  refine h.use (fun x hx => ?_) (fun x hx => ?_)
  · cases v <;> exact Option.some.inj hx ▸ hslot
  · cases v with
    | immediate text => exact .inl (List.mem_singleton.mp hx ▸ hslot)
    | slot register =>
      rcases List.mem_cons.mp hx with rfl | hx
      · exact .inl hslot
      · obtain rfl := List.mem_singleton.mp hx
        exact hv x rfl

/-- An operation on a slot with a value at hand. -/
theorem operate (h : Stages P a b cs vs) (q : Surroundings) {target : String} (htarget : P target)
    (op : Op) {x : String} (hx : P x ∨ .slot x ∈ vs) :
    Stages P a b (cs ++ [Lower.operate q target op x]) vs := by
  refine h.use (fun y hy => Option.some.inj hy ▸ htarget) fun y hy => ?_
  rcases List.mem_cons.mp hy with rfl | hy
  · exact .inl htarget
  · obtain rfl := List.mem_singleton.mp hy
    exact hx

end Stages

variable {q : Surroundings} {plain P : String → Prop}

/-- An operand as a register. -/
theorem staged_stage {a : Allocator} {fx : Effects} {cs : List Command} {v : Operand}
    (h : Stages P a fx.allocator cs [v]) :
    Stages P a (stage q v fx).2.allocator (cs ++ (stage q v fx).1.commands)
      [.slot (stage q v fx).1.value] := by
  cases v with
  | slot register =>
    rw [stage_slot, List.append_nil]
    exact h
  | immediate text =>
    rw [stage_immediate]
    have hset : (Command.set q.frame fx.scratch text).Defines fx.scratch := rfl
    refine (h.define hset fun x hx => absurd hx List.not_mem_nil).mono fun x hx => .inr ?_
    cases List.mem_singleton.mp hx
    exact List.mem_cons_self

theorem staged_updated {target : String} (htarget : P target) (code : Op) (keepOld : Bool)
    (fx : Effects) :
    Stages P fx.allocator (updated q target code keepOld fx).2.allocator
      (updated q target code keepOld fx).1.commands
      (updated q target code keepOld fx).1.value.toList := by
  have hset : ∀ gx : Effects, (Command.set q.frame gx.scratch "1").Defines gx.scratch := fun gx => rfl
  have hnone : Stages P fx.allocator fx.allocator [] [] := .nil _ fun x hx => absurd hx List.not_mem_nil
  cases keepOld with
  | true =>
    have hold : (Lower.operate q fx.scratch .assign target).Defines fx.scratch := rfl
    have hfirst := hnone.define hold fun x hx => .inl (List.mem_singleton.mp hx ▸ htarget)
    have hboth := hfirst.define (hset fx.scratched) fun x hx => absurd hx List.not_mem_nil
    refine (hboth.operate q htarget code (.inr List.mem_cons_self)).mono fun x hx => .inr ?_
    cases List.mem_singleton.mp hx
    exact List.mem_cons_of_mem _ List.mem_cons_self
  | false =>
    have hfirst := hnone.define (hset fx) fun x hx => absurd hx List.not_mem_nil
    refine (hfirst.operate q htarget code (.inr List.mem_cons_self)).mono fun x hx => .inl ?_
    cases List.mem_singleton.mp hx
    exact htarget

/-! ## Arguments -/

/-- Evaluated arguments, with the registers that their commands define. -/
inductive StagedAll (P : String → Prop) : List (Emitted Operand) → List String → Prop where
  | nil : StagedAll P [] []
  | cons {argument : Emitted Operand} {rest : List (Emitted Operand)} {R R' : List String}
      (h : Staged P argument.commands R) (hvalue : ∀ x, argument.value = .slot x → P x ∨ x ∈ R)
      (hrest : StagedAll P rest R') (hapart : R.Disjoint R') :
      StagedAll P (argument :: rest) (R ++ R')

/-- Settled arguments use their own registers, and those of the copies between them. -/
theorem staged_settle {arguments : List (Emitted Operand)} {R : List String}
    (h : StagedAll P arguments R) (fx : Effects) (hR : MintedBy fx.allocator R) :
    ∃ k, (settle q arguments fx).2.allocator = fx.allocator.staged k ∧
      Staged P (settle q arguments fx).1.commands (R ++ fx.allocator.nextRegisters k) ∧
      ∀ x, .slot x ∈ (settle q arguments fx).1.value → P x ∨ x ∈ R ++ fx.allocator.nextRegisters k := by
  induction h generalizing fx with
  | nil => exact ⟨0, (Allocator.staged_zero _).symm, .nil, fun x hx => absurd hx List.not_mem_nil⟩
  | @cons argument rest R R' hfirst hvalue _ hapart ih =>
    have hmine : MintedBy fx.allocator R := fun x hx => hR x (List.mem_append_left _ hx)
    have hothers : MintedBy fx.allocator R' := fun x hx => hR x (List.mem_append_right _ hx)
    rw [settle_cons]
    dsimp only
    rcases protect_cases q argument rest fx with ⟨hkept, -⟩ | ⟨register, hv, hkept⟩
    · rw [hkept]
      obtain ⟨k, hk, hstaged, hvalues⟩ := ih fx hothers
      refine ⟨k, hk, ?_, fun x hx => ?_⟩
      · rw [List.append_nil, List.append_assoc]
        refine hfirst.append hstaged ?_
        exact List.disjoint_append_right.mpr ⟨hapart, hmine.disjoint k⟩
      · rw [List.append_assoc]
        rcases List.mem_cons.mp hx with hx | hx
        · exact (hvalue x hx.symm).imp_right (List.mem_append_left _)
        · exact (hvalues x hx).imp_right (List.mem_append_right _)
    · rw [hkept]
      obtain ⟨k, hk, hstaged, hvalues⟩ := ih fx.scratched (hothers.staged 1)
      have hall : fx.allocator.nextRegisters (1 + k) =
          [fx.scratch] ++ fx.scratched.allocator.nextRegisters k := Allocator.nextRegisters_add _ 1 k
      have hnew : [fx.scratch] = fx.allocator.nextRegisters 1 := rfl
      have hfresh : fx.scratch ∉ R := fun hin => hmine.disjoint 1 hin List.mem_cons_self
      have hcopy : (operate q fx.scratch .assign register).Defines fx.scratch := rfl
      have hfirst' := hfirst.defines hcopy hfresh fun x hx => by
        obtain rfl := List.mem_singleton.mp hx
        exact hvalue x hv
      have hapart' : (R ++ [fx.scratch]).Disjoint (R' ++ fx.scratched.allocator.nextRegisters k) := by
        refine List.disjoint_append_left.mpr ⟨?_, ?_⟩
        · refine List.disjoint_append_right.mpr ⟨hapart, ?_⟩
          exact (hmine.staged 1).disjoint k
        · rw [hnew]
          refine List.disjoint_append_right.mpr ⟨fun x hx hx' => hothers.disjoint 1 hx' hx, ?_⟩
          exact (MintedBy.nextRegisters fx.allocator 1).disjoint k
      have hperm : (R ++ [fx.scratch] ++ (R' ++ fx.scratched.allocator.nextRegisters k)).Perm
          (R ++ R' ++ fx.allocator.nextRegisters (1 + k)) := by
        rw [hall]
        simp only [List.append_assoc]
        refine List.Perm.append_left R ?_
        rw [← List.append_assoc, ← List.append_assoc]
        exact List.perm_append_comm.append_right _
      refine ⟨1 + k, ?_, ?_, fun x hx => ?_⟩
      · rw [← Allocator.staged_staged]
        exact hk
      · exact (hfirst'.append hstaged hapart').perm hperm
      · rw [← hperm.mem_iff]
        rcases List.mem_cons.mp hx with hx | hx
        · cases hx
          exact .inr (List.mem_append_left _ (List.mem_append_right _ List.mem_cons_self))
        · exact (hvalues x hx).imp_right (List.mem_append_right _)

/-! ## Expressions -/

/-- The expression lowers to commands that name slots of some kind and registers of their own. -/
def StagesAll (q : Surroundings) (P : String → Prop) (e : Expr) : Prop :=
  ∀ {fx gx : Effects} {out : Emitted (Option Operand)}, (expr q e).run fx = (.ok out, gx) →
    Stages P fx.allocator gx.allocator out.commands out.value.toList

theorem staged_values {args : List Expr} (h : ∀ a ∈ args, StagesAll q P a) {fx gx : Effects}
    {arguments : List (Emitted Operand)} (hrun : (values q args).run fx = (.ok arguments, gx)) :
    ∃ k, gx.allocator = fx.allocator.staged k ∧
      StagedAll P arguments (fx.allocator.nextRegisters k) := by
  induction args generalizing fx arguments with
  | nil =>
    rw [values] at hrun
    cases hrun
    exact ⟨0, (Allocator.staged_zero _).symm, .nil⟩
  | cons e rest ih =>
    obtain ⟨first, others, hx, hexpr, hrest, rfl⟩ := values_cons_ok hrun
    obtain ⟨j, hj, hstaged, hvalue⟩ := h e List.mem_cons_self hexpr
    obtain ⟨k, hk, hothers⟩ := ih (fun a ha => h a (List.mem_cons_of_mem e ha)) hrest
    rw [hj] at hk hothers
    refine ⟨j + k, hk.trans (Allocator.staged_staged _ j k), ?_⟩
    rw [Allocator.nextRegisters_add]
    refine .cons hstaged (fun x hx => hvalue x ?_) hothers
      ((MintedBy.nextRegisters fx.allocator j).disjoint k)
    rw [Option.mem_toList, ← hx]

theorem staged_dropped {args : List Expr} (h : ∀ a ∈ args, StagesAll q P a) {fx gx : Effects}
    {out : List Command} (hrun : (dropped q args).run fx = (.ok out, gx)) :
    Stages P fx.allocator gx.allocator out [] := by
  induction args generalizing fx out with
  | nil =>
    rw [dropped] at hrun
    cases hrun
    exact .nil _ fun x hx => absurd hx List.not_mem_nil
  | cons e rest ih =>
    obtain ⟨first, others, hx, hexpr, hrest, rfl⟩ := dropped_cons_ok hrun
    have hfirst := h e List.mem_cons_self hexpr
    have hothers := ih (fun a ha => h a (List.mem_cons_of_mem e ha)) hrest
    exact (hfirst.append hothers).mono fun x hx => absurd hx List.not_mem_nil

theorem warnedIf_allocator (fx : Effects) (c : Prop) [Decidable c] (w : Diagnostic) :
    (fx.warnedIf c w).allocator = fx.allocator := by
  unfold Effects.warnedIf
  split <;> rfl

/-- A call of a callable whose slots are of that kind. -/
theorem staged_call {args : List Expr} (h : ∀ a ∈ args, StagesAll q P a) {fx gx : Effects}
    {arguments : List (Emitted Operand)} (hrun : (values q args).run fx = (.ok arguments, gx))
    {callable : Callable} (hslots : ∀ x ∈ callable.slots, P x) (line : Nat) (path : String)
    {values : List Operand} (hvalues : ∀ x, .slot x ∈ values → P x) :
    Stages P fx.allocator (callEffects q line path callable arguments gx).allocator
      (callCommands q path callable arguments gx) values := by
  obtain ⟨j, hj, harguments⟩ := staged_values h hrun
  have hminted : MintedBy gx.allocator (fx.allocator.nextRegisters j) := by
    rw [hj]
    exact .nextRegisters _ j
  obtain ⟨k, hk, hstaged, hsettled⟩ := staged_settle (q := q) harguments gx hminted
  rw [hj, ← Allocator.nextRegisters_add] at hstaged hsettled
  refine ⟨j + k, ?_, ?_, fun x hx => .inl (hvalues x hx)⟩
  · rw [callEffects, warnedIf_allocator, hk, hj, Allocator.staged_staged]
  · -- the copies into the parameter slots define nothing
    refine (hstaged.uses_all ?_ ?_).snoc rfl
    · intro d hd x hx
      obtain ⟨⟨param, v⟩, hin, rfl⟩ := List.mem_map.mp hd
      have hparam : P param.slot := hslots _ (List.mem_append_left _
        (List.mem_map_of_mem (List.of_mem_zip hin).1))
      cases v <;> exact Option.some.inj hx ▸ hparam
    · intro d hd x hx
      obtain ⟨⟨param, v⟩, hin, rfl⟩ := List.mem_map.mp hd
      have hparam : P param.slot := hslots _ (List.mem_append_left _
        (List.mem_map_of_mem (List.of_mem_zip hin).1))
      cases v with
      | immediate text => exact .inl (List.mem_singleton.mp hx ▸ hparam)
      | slot register =>
        rcases List.mem_cons.mp hx with rfl | hx
        · exact .inl hparam
        · obtain rfl := List.mem_singleton.mp hx
          exact hsettled x (List.of_mem_zip hin).2

/-- **The operands of an expression.**  Where names stand for slots of some kind, every expression
lowers to commands that name such slots and registers of their own. -/
theorem staged_expr (hq : q.Supplies plain P) (e : Expr) (hnames : ∀ n ∈ e.names, plain n) :
    StagesAll q P e := by
  induction e with
  | identifier m name =>
    intro fx gx out hrun
    cases lowered_of_run hrun with
    | identifier =>
      refine .nil _ fun x hx => ?_
      cases List.mem_singleton.mp hx
      exact hq.identifier (hnames name List.mem_cons_self)
  | binary m left op right _ ih =>
    intro fx gx out hrun
    have hleft : ∀ n ∈ left.names, plain n := fun n hn => hnames n (List.mem_append_left _ hn)
    have hright := fun n hn => hnames n (List.mem_append_right _ hn)
    cases lowered_of_run hrun with
    | store _ hcode htarget hvalue =>
      have hP := hq.target hleft htarget
      have hstage := staged_stage (q := q) (ih hright hvalue)
      refine (hstage.operate q hP _ (.inr List.mem_cons_self)).mono fun x hx => .inl ?_
      cases List.mem_singleton.mp hx
      exact hP
    | @square _ _ _ target commands _ gx htarget hvalue =>
      have hP := hq.target hleft htarget
      have hcopy : (operate q gx.scratch .assign target).Defines gx.scratch := rfl
      have hstage := (ih hright hvalue).define hcopy fun x hx => .inl (List.mem_singleton.mp hx ▸ hP)
      have hsquare := hstage.operate q hP .mul (.inr List.mem_cons_self)
      rw [List.append_assoc] at hsquare
      refine hsquare.mono fun x hx => .inl ?_
      cases List.mem_singleton.mp hx
      exact hP
  | unary m op fixity operand _ =>
    intro fx gx out hrun
    cases lowered_of_run hrun with
    | update _ _ _ hop htarget => exact staged_updated (hq.target (e := operand) hnames htarget) _ _ fx
  | call m callee args ihc iha =>
    intro fx gx out hrun
    have hcalleeNames := fun n hn => hnames n (List.mem_append_left _ hn)
    have hargs : ∀ a ∈ args, StagesAll q P a := fun a ha =>
      iha a ha fun n hn => hnames n (List.mem_append_right _ (names_subset_exprNames ha hn))
    cases lowered_of_run hrun with
    | callKnown _ hnamed hknown hvalues =>
      have hslots := hq.named hnamed hknown
      refine staged_call hargs hvalues hslots _ _ fun x hx => ?_
      obtain ⟨slot, hslot, hx⟩ := Option.map_eq_some_iff.mp (Option.mem_toList.mp hx)
      cases hx
      exact hslots _ (List.mem_append_right _ (Option.mem_toList.mpr hslot))
    | callUnknown _ hnamed hunknown hvalues =>
      rw [warnedIf_allocator]
      exact (staged_dropped hargs hvalues).invoke _
    | callComputed _ hnamed hcallee hvalues =>
      rw [warnedIf_allocator]
      have hhead := ihc hcalleeNames hcallee
      exact (hhead.append ((staged_dropped hargs hvalues).invoke _)).mono
        fun x hx => absurd hx List.not_mem_nil
  | construct m callee args _ iha =>
    intro fx gx out hrun
    have hargs : ∀ a ∈ args, StagesAll q P a := fun a ha =>
      iha a ha fun n hn => hnames n (List.mem_append_right _ (names_subset_exprNames ha hn))
    cases lowered_of_run hrun with
    | constructKnown _ hname hknown hvalues =>
      exact staged_call hargs hvalues (hq.constructed hknown) _ _
        fun x hx => absurd hx List.not_mem_nil
    | constructUnknown _ hname hunknown hvalues =>
      rw [warnedIf_allocator]
      exact (staged_dropped hargs hvalues).invoke _
  | member m object name _ =>
    intro fx gx out hrun
    cases lowered_of_run hrun with
    | member _ _ hslot =>
      refine .nil _ fun x hx => ?_
      cases List.mem_singleton.mp hx
      exact hq.member (hnames name List.mem_cons_self) hslot
  | wrapped m inner ih =>
    intro fx gx out hrun
    cases lowered_of_run hrun with
    | wrapped _ hinner => exact ih hnames hinner
  | _ =>
    -- literals, `this` and `super` name no register
    intro fx gx out hrun
    cases lowered_of_run hrun <;> exact .nil _ fun x hx => by simp at hx

end Lower

/-- The operands of an expression that is evaluated for a statement, where its value goes into a slot
of that kind. -/
theorem Evaluates.staged {q : Surroundings} {plain P : String → Prop} (hq : q.Supplies plain P)
    {use : Use} {e : Expr} {fx gx : Effects} {commands : List Command}
    (h : Evaluates q use e fx commands gx) (hnames : ∀ n ∈ e.names, plain n)
    (huse : ∀ slot, use = .stored slot → P slot) :
    Lower.Stages P fx.allocator gx.allocator commands [] := by
  have hdone : ∀ {cs : List Command} {vs : List Operand},
      Lower.Stages P fx.allocator gx.allocator cs vs → Lower.Stages P fx.allocator gx.allocator cs [] :=
    fun h => h.mono fun x hx => absurd hx List.not_mem_nil
  cases h with
  | dropped hrun => exact hdone (Lower.staged_expr hq e hnames hrun)
  | stored slot hrun =>
    refine hdone ((Lower.staged_expr hq e hnames hrun).assign q (huse slot rfl) fun x hx => .inr ?_)
    rw [hx]
    exact List.mem_cons_self
  | @updated m _ fixity operand _ _ _ hop htarget =>
    exact hdone (Lower.staged_updated (hq.target (e := operand) hnames htarget) _ _ fx)

/-! ## Around expressions -/

/-- The commands only run other scripts. -/
def Invoking (commands : List Command) : Prop := ∀ c ∈ commands, ∃ path, c = .invoke path

namespace Invoking

variable {commands : List Command}

theorem nil : Invoking [] := fun _ hc => absurd hc List.not_mem_nil

theorem single (path : String) : Invoking [.invoke path] :=
  fun _ hc => ⟨path, List.mem_singleton.mp hc⟩

theorem staged (h : Invoking commands) {P : String → Prop} : Staged P commands [] := by
  refine Staged.nil.uses_all (fun d hd x hx => ?_) fun d hd x hx => ?_
  · obtain ⟨path, rfl⟩ := h d hd
    cases hx
  · obtain ⟨path, rfl⟩ := h d hd
    exact absurd hx List.not_mem_nil

end Invoking

/-- The class whose fields a piece of work initializes. -/
def Task.info? : Task → Option ClassInfo
  | .members info .. | .fieldsScript info .. | .fields info _ | .field info _ => some info
  | _ => none

/-- What is known about that class is known in both parts of the work. -/
theorem Task.split_info {task first rest : Task} {I : ClassInfo → Prop}
    (h : task.split = some (first, rest)) (hinfo : ∀ info, task.info? = some info → I info) :
    (∀ info, first.info? = some info → I info) ∧ ∀ info, rest.info? = some info → I info := by
  cases Task.splits h with
  | members => exact ⟨hinfo, nofun⟩
  | fields => exact ⟨hinfo, hinfo⟩
  | _ => exact ⟨nofun, nofun⟩

/-- A script of its own starts by running other scripts, if the work does. -/
theorem Opens.invoking {task : Task} {s : Session} {script : Script} (h : Opens task s script)
    (hprologue : Invoking task.prologue) :
    Invoking script.prologue ∧ Invoking script.body.prologue := by
  cases h with
  | callable _ line enclosing prologue body => exact ⟨hprologue, .nil⟩
  | fields info scope ms line => exact ⟨.nil, .nil⟩

/-- The class whose fields a script initializes is that of the work. -/
theorem Opens.info {task : Task} {s : Session} {script : Script} {I : ClassInfo → Prop}
    (h : Opens task s script) (hinfo : ∀ info, task.info? = some info → I info) :
    ∀ info, script.body.info? = some info → I info := by
  cases h with
  | callable _ line enclosing prologue body => exact nofun
  | fields info scope ms line => exact hinfo

end FrameScript
