/-
  Scratch registers.

  Literals, squares, old values of updates and endangered arguments are put into anonymous registers
  on the way.  Such a register belongs to one script: it is declared there once, gets its value by
  one command and is only read afterwards.

  1. No name stands for a register, if none of the names of a unit is spelled like one.  Everything
     that is made from names has an underscore or a slash in it.  The one text that is taken over as
     it stands is the context of a module that is imported as a whole (`Surroundings.Apart`).
  2. The registers that the commands of a piece of work define are those that it minted into the
     preamble, and no register is declared by two scripts (`Draws`).
  3. Both are carried through a run (`Runs.draws`), for any unit, loaded or not.

  Where a module has a context like `register1`, its namespace and the first scratch register are one
  register.
-/
import FrameScript.Proofs.Changes
import FrameScript.Proofs.Operands
import FrameScript.Proofs.Dangling
import FrameScript.Proofs.Shapes

namespace FrameScript

open Source

/-! ## Spelled like a register -/

/-- The text is spelled like an anonymous register. -/
def RegisterLike (text : String) : Prop := ∃ n, text = mintedRegister n

theorem mintedId_notRegister (stem : String) (n : Nat) : ¬RegisterLike (mintedId stem n) := by
  rintro ⟨m, heq⟩
  exact mintedId_ne_mintedRegister stem n m heq

theorem slashFree_register (n : Nat) : SlashFree (mintedRegister n) := by
  have hword : SlashFree "register" := by unfold SlashFree; decide
  exact hword.append (slashFree_number n)

theorem qualify_notRegister (context script : String) : ¬RegisterLike (qualify context script) := by
  rintro ⟨n, heq⟩
  exact (slashFree_register n).leaves context script heq.symm

/-- A text is no register if it does not begin like one. -/
theorem notRegister_of_start {text : String} (h : ¬"register".toList <+: text.toList) :
    ¬RegisterLike text := by
  rintro ⟨n, rfl⟩
  exact h ⟨_, (toList_mintedRegister n).symm⟩

/-! ## Names and registers are apart -/

/-- What is known about a declaration mentions no register. -/
def Declaration.Apart : Declaration → Prop
  | .callable k => ∀ x ∈ k.slots, ¬RegisterLike x
  | .classInfo info => ∀ f ∈ info.fields, ¬RegisterLike f.2

/-- No name stands for a register. -/
structure Surroundings.Apart (q : Surroundings) : Prop where
  inUnit : q.unit ≠ none
  symbols : q.symbols.All fun symbol => ¬RegisterLike symbol.path
  callables : ∀ id k, q.decls.callable? id = some k → (Declaration.callable k).Apart
  classes : ∀ id info, q.decls.class? id = some info → (Declaration.classInfo info).Apart
  parents : ∀ c, q.scope.enclosing = some c → ∀ name ∈ c.names, ¬RegisterLike name

/-- The change brings in no register. -/
def Change.Apart : Change → Prop
  | .counts _ => True
  | .names symbol => ¬RegisterLike symbol.path
  | .records _ d => d.Apart

theorem minted_notRegister {x : String} (h : ∃ stem n, x = mintedId stem n) : ¬RegisterLike x := by
  obtain ⟨stem, n, rfl⟩ := h
  exact mintedId_notRegister stem n

namespace Surroundings.Apart

variable {s t : Session} {q : Surroundings}

theorem qualified (h : q.unit ≠ none) (script : String) : ¬RegisterLike (q.qualify script) := by
  unfold Surroundings.qualify
  cases hunit : q.unit with
  | none => exact absurd hunit h
  | some unit => exact qualify_notRegister unit.context script

theorem registered (h : s.Apart) {symbol : Symbol} (hsymbol : ¬RegisterLike symbol.path) :
    (s.registered symbol).Apart where
  inUnit := h.inUnit
  symbols := h.symbols.register hsymbol
  callables := h.callables
  classes := h.classes
  parents := h.parents

theorem recorded (h : s.Apart) (id : DeclId) {d : Declaration} (hd : d.Apart) :
    (s.recorded id d).Apart where
  inUnit := h.inUnit
  symbols := h.symbols
  callables := fun i k hk => by
    rcases Session.recorded_callable_cases hk with rfl | hold
    · exact hd
    · exact h.callables i k hold
  classes := fun i info hinfo => by
    rcases Session.recorded_class_cases hinfo with rfl | hold
    · exact hd
    · exact h.classes i info hold
  parents := h.parents

theorem changed (h : s.Apart) {change : Change} (hchange : change.Apart) : (s.changed change).Apart := by
  cases change with
  | counts n => exact ⟨h.inUnit, h.symbols, h.callables, h.classes, h.parents⟩
  | names symbol => exact h.registered hchange
  | records id d => exact h.recorded id hchange

theorem changes {P : Change → Prop} (h : s.Apart) (hchanges : Changes P s t)
    (hP : ∀ change, P change → change.Apart) : t.Apart :=
  hchanges.keeps (I := fun s => s.Apart) (fun _ _ hchange hs => hs.changed (hP _ hchange)) h

theorem opened (h : s.Apart) {scope : LexicalScope} (slots : List String)
    (hscope : ∀ c, scope.enclosing = some c → ∀ name ∈ c.names, ¬RegisterLike name) :
    (s.opened scope slots).Apart :=
  ⟨h.inUnit, h.symbols.enter, h.callables, h.classes, hscope⟩

theorem closed (h : s.Apart) (ht : t.Apart) : (s.closed t).Apart :=
  ⟨ht.inUnit, ht.symbols.exit, ht.callables, ht.classes, h.parents⟩

theorem stored (h : s.Apart) (name : String) (body : List Command) (line : Nat) :
    (s.stored name body line).Apart := by
  obtain ⟨ws, hws⟩ := s.stored_eq_noting name body line
  rw [hws]
  exact ⟨h.inUnit, h.symbols, h.callables, h.classes, h.parents⟩

end Surroundings.Apart

theorem FunctionChange.apart {q : Surroundings} (hq : q.unit ≠ none) {f : FunctionDecl} {change : Change}
    (h : FunctionChange q f change) : change.Apart := by
  cases h with
  | counts n => trivial
  | symbol _ => exact Surroundings.Apart.qualified hq _
  | record hk => exact fun x hx => minted_notRegister (hk.minted x hx)

theorem ClassChange.apart {q : Surroundings} (hq : q.unit ≠ none) {c : ClassDecl} {info : ClassInfo}
    {change : Change} (hinfo : info.Describes c) (h : ClassChange q c info change) : change.Apart := by
  cases h with
  | counts n => trivial
  | symbol => exact Surroundings.Apart.qualified hq _
  | member _ h =>
    cases h with
    | counts m n => trivial
    | method isStatic _ _ => exact Surroundings.Apart.qualified hq _
    | methodRecord isStatic _ hk => exact fun x hx => minted_notRegister (hk.minted x hx)
    | constructorRecord _ hk => exact fun x hx => minted_notRegister (hk.minted x hx)
    | property p hfield => exact minted_notRegister (hinfo.minted _ hfield)
  | record => exact fun f hf => minted_notRegister (hinfo.minted f hf)

theorem UnitChange.apart {q : Surroundings} (hq : q.unit ≠ none) {sts : List Stmt} {change : Change}
    (himports : ∀ line i, .imports line i ∈ sts → i.namespaceName ≠ none →
      ¬RegisterLike (moduleContext i.module))
    (h : UnitChange q sts change) : change.Apart := by
  cases h with
  | @imports line i symbol hst hsymbol =>
    rcases List.mem_append.mp hsymbol with hsymbol | hsymbol
    · rcases List.mem_append.mp hsymbol with hsymbol | hsymbol
      · obtain ⟨name, -, rfl⟩ := Option.map_eq_some_iff.mp (Option.mem_toList.mp hsymbol)
        exact qualify_notRegister _ _
      · obtain ⟨name, hname, rfl⟩ := Option.map_eq_some_iff.mp (Option.mem_toList.mp hsymbol)
        exact himports line i hst (by rw [hname]; exact Option.some_ne_none _)
    · obtain ⟨n, -, rfl⟩ := List.mem_map.mp hsymbol
      exact qualify_notRegister _ _
  | function _ _ h => exact h.apart hq
  | classDef _ _ hinfo h => exact h.apart hq hinfo

namespace Surroundings.Apart

variable {s t : Session}

theorem function {f : FunctionDecl} (hdeclared : FunctionDeclared s f t) (h : s.Apart) : t.Apart := by
  rcases hdeclared.changes rfl with rfl | ⟨-, hchanges⟩
  · exact h
  · exact h.changes hchanges fun _ hchange => hchange.apart h.inUnit

theorem classDef {c : ClassDecl} (hdeclared : ClassDeclared s c t) (h : s.Apart) : t.Apart := by
  rcases hdeclared.changes rfl with rfl | ⟨-, info, hinfo, -, hchanges⟩
  · exact h
  · exact h.changes hchanges fun _ hchange => hchange.apart h.inUnit hinfo

theorem withVariable (h : s.Apart) (name : String) : (s.withVariable name).Apart := by
  have hdeclaring : ((s.counted 1).declaring [s.variableSlot name]).Apart :=
    ⟨h.inUnit, h.symbols, h.callables, h.classes, h.parents⟩
  exact hdeclaring.registered (mintedId_notRegister name _)

/-- Names that are no registers stand for slots that are none. -/
theorem supplies {q : Surroundings} (h : q.Apart) :
    q.Supplies (fun name => ¬RegisterLike name) (fun slot => ¬RegisterLike slot) where
  name := fun hname => hname
  qualified := fun module name _ => qualify_notRegister module name
  symbol := fun _ hsymbol => h.symbols.lookup hsymbol
  callee := fun _ _ hk => h.callables _ _ hk
  constructor := fun _ _ hk => h.callables _ _ hk
  owner := fun hk => by
    obtain ⟨id, -, hk⟩ := Option.bind_eq_some_iff.mp hk
    exact h.callables id _ hk

end Surroundings.Apart

/-! ## The registers of a script -/

theorem Invoking.declaredBy_eq_nil {commands : List Command} (h : Invoking commands) :
    declaredBy commands = [] := by
  refine @declaredBy_inFrame none commands fun c hc => ?_
  obtain ⟨path, rfl⟩ := h c hc
  trivial

/-- The script declares just the registers that its body defines. -/
def Tidy (script : List Command) : Prop :=
  ∃ names body R, script = declarations names ++ body ∧ Staged (fun x => ¬RegisterLike x) body R ∧
    (∀ r ∈ R, RegisterLike r) ∧ ∀ n, mintedRegister n ∈ names ↔ mintedRegister n ∈ R

/-- Between two sessions some commands were emitted into the current script.  They define the
registers `R`, which were minted meanwhile and are now declared; and no register is declared more
often than before, unless it was minted meanwhile, and then once. -/
structure Draws (s t : Session) (commands : List Command) (R : List String) : Prop where
  counter : s.allocator.registers ≤ t.allocator.registers
  held : ∀ n, t.held.count (mintedRegister n) ≤ s.held.count (mintedRegister n) +
    if s.allocator.registers < n ∧ n ≤ t.allocator.registers then 1 else 0
  minted : ∀ r ∈ R, ∃ n, s.allocator.registers < n ∧ n ≤ t.allocator.registers ∧ r = mintedRegister n
  staged : Staged (fun x => ¬RegisterLike x) commands R
  preamble : ∀ n, mintedRegister n ∈ t.allocator.preamble ↔
    mintedRegister n ∈ s.allocator.preamble ∨ mintedRegister n ∈ R

namespace Draws

variable {s t u : Session} {cs cs' : List Command} {R R' : List String}

/-- Nothing was minted or declared. -/
theorem of_eq (hregisters : t.allocator.registers = s.allocator.registers)
    (hpreamble : t.allocator.preamble = s.allocator.preamble) (hscripts : t.scripts = s.scripts) :
    Draws s t [] [] where
  counter := hregisters.ge
  held := fun n => by
    rw [Session.held, hpreamble, hscripts]
    exact Nat.le_add_right _ _
  minted := fun r hr => absurd hr List.not_mem_nil
  staged := .nil
  preamble := fun n => by rw [hpreamble]; simp

theorem noting (s : Session) (ws : List Diagnostic) : Draws s (s.noting ws) [] [] := of_eq rfl rfl rfl

theorem untouched (h : s.Untouched t) : Draws s t [] [] := of_eq h.registers h.preamble h.scripts

theorem trans (h : Draws s t cs R) (h' : Draws t u cs' R') : Draws s u (cs ++ cs') (R ++ R') where
  counter := h.counter.trans h'.counter
  held := fun n => by
    have h₁ := h.held n
    have h₂ := h'.held n
    have h₃ := h.counter
    have h₄ := h'.counter
    split at h₁ <;> split at h₂ <;> split <;> omega
  minted := fun r hr => by
    have h₁ := h.counter
    have h₂ := h'.counter
    rcases List.mem_append.mp hr with hr | hr
    · obtain ⟨n, hlo, hhi, rfl⟩ := h.minted r hr
      exact ⟨n, hlo, by omega, rfl⟩
    · obtain ⟨n, hlo, hhi, rfl⟩ := h'.minted r hr
      exact ⟨n, by omega, hhi, rfl⟩
  staged := by
    refine h.staged.append h'.staged fun r hr hr' => ?_
    obtain ⟨n, -, hn, rfl⟩ := h.minted r hr
    obtain ⟨m, hm, -, heq⟩ := h'.minted _ hr'
    have hnm := mintedRegister_inj heq
    omega
  preamble := fun n => by
    rw [h'.preamble n, h.preamble n, List.mem_append, or_assoc]

theorem withVariable (s : Session) (name : String) : Draws s (s.withVariable name) [] [] where
  counter := Nat.le_refl _
  held := fun n => by
    have hne : s.variableSlot name ≠ mintedRegister n := mintedId_ne_mintedRegister _ _ n
    show (s.allocator.preamble ++ [s.variableSlot name] ++ s.scripts.declared).count _ ≤ _
    simp only [Session.held, List.count_append, List.count_singleton, beq_iff_eq, if_neg hne]
    omega
  minted := fun r hr => absurd hr List.not_mem_nil
  staged := .nil
  preamble := fun n => by
    have hne : mintedRegister n ≠ s.variableSlot name := (mintedId_ne_mintedRegister _ _ n).symm
    show _ ∈ s.allocator.preamble ++ [s.variableSlot name] ↔ _
    simp [hne]

/-- The registers that an expression mints. -/
theorem withEffects (s : Session) {fx : Effects}
    (h : Lower.Stages (fun x => ¬RegisterLike x) s.allocator fx.allocator cs []) :
    ∃ R, Draws s (s.withEffects fx) cs R := by
  obtain ⟨k, hk, hstaged, -⟩ := h
  have hallocator : (s.withEffects fx).allocator = s.allocator.staged k := hk
  refine ⟨s.allocator.nextRegisters k, ?_, fun n => ?_, fun r hr => ?_, hstaged, fun n => ?_⟩
  · rw [hallocator]
    exact Nat.le_add_right _ _
  · have hheld : (s.withEffects fx).held =
        s.allocator.preamble ++ s.allocator.nextRegisters k ++ s.scripts.declared := by
      rw [Session.held, hallocator]
      rfl
    have hregisters : (s.withEffects fx).allocator.registers = s.allocator.registers + k := by
      rw [hallocator]
      rfl
    have hnodup := (s.allocator.mints_staged k).nodup
    rw [hheld, hregisters]
    simp only [Session.held, List.count_append]
    by_cases hin : mintedRegister n ∈ s.allocator.nextRegisters k
    · obtain ⟨m, hlo, hhi, heq⟩ := Allocator.mem_nextRegisters.mp hin
      obtain rfl := mintedRegister_inj heq
      rw [List.count_eq_one_of_mem hnodup hin, if_pos ⟨hlo, hhi⟩]
      omega
    · rw [List.count_eq_zero_of_not_mem hin]
      omega
  · rw [hallocator]
    exact Allocator.mem_nextRegisters.mp hr
  · rw [hallocator]
    exact List.mem_append

/-- A script that declares nothing. -/
theorem stored (s : Session) (name : String) {body : List Command} (line : Nat)
    (h : declaredBy body = []) : Draws s (s.stored name body line) [] [] := by
  obtain ⟨ws, hws⟩ := s.stored_eq_noting name body line
  rw [hws]
  refine ⟨Nat.le_refl _, fun n => ?_, fun r hr => absurd hr List.not_mem_nil, .nil, fun n => ?_⟩
  · have hcount := Scripts.count_declared_insert s.scripts name body (mintedRegister n)
    rw [h, List.count_nil] at hcount
    show (s.allocator.preamble ++ Scripts.declared (s.scripts.insert name body)).count _ ≤ _
    simp only [Session.held, List.count_append]
    omega
  · exact ⟨.inl, fun h => h.resolve_right List.not_mem_nil⟩

/-- A script of its own keeps its registers to itself. -/
theorem script {scope : LexicalScope} {slots : List String} (hslots : ∀ x ∈ slots, ¬RegisterLike x)
    (h : Draws (s.opened scope slots) t cs R) (name : String) {body : List Command} (line : Nat)
    (hbody : declaredBy body = t.allocator.preamble) :
    Draws s ((s.closed t).stored name body line) [] [] := by
  obtain ⟨ws, hws⟩ := (s.closed t).stored_eq_noting name body line
  rw [hws]
  refine ⟨h.counter, fun n => ?_, fun r hr => absurd hr List.not_mem_nil, .nil, fun n => ?_⟩
  · have hinsert := Scripts.count_declared_insert t.scripts name body (mintedRegister n)
    have hn : (t.allocator.preamble ++ t.scripts.declared).count (mintedRegister n) ≤
        (slots ++ s.scripts.declared).count (mintedRegister n) +
          if s.allocator.registers < n ∧ n ≤ t.allocator.registers then 1 else 0 := h.held n
    have hnone : slots.count (mintedRegister n) = 0 :=
      List.count_eq_zero_of_not_mem fun hin => hslots _ hin ⟨n, rfl⟩
    rw [hbody] at hinsert
    show (s.allocator.preamble ++ Scripts.declared (t.scripts.insert name body)).count _ ≤
      (s.allocator.preamble ++ s.scripts.declared).count _ +
        if s.allocator.registers < n ∧ n ≤ t.allocator.registers then 1 else 0
    simp only [List.count_append] at hn ⊢
    omega
  · exact ⟨.inl, fun h => h.resolve_right List.not_mem_nil⟩

/-- The script of a body that was lowered for itself. -/
theorem tidy {scope : LexicalScope} {slots : List String} (hslots : ∀ x ∈ slots, ¬RegisterLike x)
    (h : Draws (s.opened scope slots) t cs R) {prologue : List Command} (hprologue : Invoking prologue) :
    Tidy (declarations t.allocator.preamble ++ prologue ++ cs) := by
  have hstart : Staged (fun x => ¬RegisterLike x) prologue [] := hprologue.staged
  refine ⟨t.allocator.preamble, prologue ++ cs, R, List.append_assoc _ _ _, ?_, fun r hr => ?_,
    fun n => ?_⟩
  · exact hstart.append h.staged (List.disjoint_nil_left R)
  · obtain ⟨n, -, -, rfl⟩ := h.minted r hr
    exact ⟨n, rfl⟩
  · rw [h.preamble n]
    exact ⟨fun hin => hin.resolve_left fun hslot => hslots _ hslot ⟨n, rfl⟩, .inr⟩

end Draws

/-! ## Lowering -/

/-- Work that emits nothing into the current script. -/
def Task.silent : Task → Bool
  | .callable .. | .members .. | .fieldsScript .. | .bodies .. | .initializer .. | .methods ..
  | .method .. => true
  | _ => false

theorem Runs.silent_eq {task : Task} {s t : Session} {log : List Event} {out : Emitted Flow}
    (h : Runs task s log out t) (hsilent : task.silent = true) : out.commands = [] := by
  induction h with
  | seq hsplit _ _ ihfirst ihrest =>
    have hparts : ∀ {task first rest : Task}, task.split = some (first, rest) → task.silent = true →
        first.silent = true ∧ rest.silent = true := by
      intro task first rest hsplit hsilent
      cases Task.splits hsplit <;> first | exact ⟨rfl, rfl⟩ | cases hsilent
    obtain ⟨hfirst, hrest⟩ := hparts hsplit hsilent
    have hnone : _ = [] := ihfirst hfirst
    rw [ihrest hrest, List.append_nil]
    exact hnone
  | returned => cases hsilent
  | inside hinside _ _ => cases Task.encloses hinside <;> cases hsilent
  | evaluates htask _ => cases htask <;> cases hsilent
  | _ => rfl

/-- **Scratch registers through a run.**  In a piece of work none of whose names is spelled like a
register, the commands define the registers that were minted for them, every script that is stored
declares just the registers that its body defines, and no register is declared twice. -/
theorem Runs.draws {task : Task} {s t : Session} {log : List Event} {out : Emitted Flow}
    (h : Runs task s log out t) (hnames : ∀ n ∈ task.names, ¬RegisterLike n)
    (hprologue : Invoking task.prologue)
    (hinfo : ∀ info, task.info? = some info → (Declaration.classInfo info).Apart) (hs : s.Apart) (hscripts : s.Each Tidy) :
    t.Apart ∧ t.Each Tidy ∧ ∃ R, Draws s t out.commands R := by
  have hnothing : Invoking [] := .nil
  have hnoInfo : ∀ info, (none : Option ClassInfo) = some info → (Declaration.classInfo info).Apart :=
    fun info hinfo => nomatch hinfo
  induction h with
  | idle h =>
    obtain ⟨ws, rfl⟩ := h.eq_noting
    exact ⟨hs, hscripts, [], .noting _ ws⟩
  | seq hsplit hfirst _ ihfirst ihrest =>
    obtain ⟨hn, hn'⟩ := Task.split_names hsplit
    obtain ⟨hp, hp'⟩ := Task.split_prologue hsplit
    obtain ⟨hi, hi'⟩ := Task.split_info hsplit hinfo
    obtain ⟨ht, htidy, R, hR⟩ := ihfirst (fun n hin => hnames n (hn hin)) (hp ▸ hnothing)
      hi hs hscripts
    obtain ⟨hu, hutidy, R', hR'⟩ := ihrest (fun n hin => hnames n (hn' hin)) (hp' ▸ hnothing)
      hi' ht htidy
    exact ⟨hu, hutidy, R ++ R', hR.trans hR'⟩
  | @returned st s t log commands rest _ ih =>
    obtain ⟨ws, hws⟩ := t.skipping_eq_noting rest
    rw [hws]
    obtain ⟨ht, htidy, R, hR⟩ := ih (fun n hin => hnames n (List.mem_append_left _ hin)) hnothing
      hnoInfo hs hscripts
    have hall := hR.trans (Draws.noting t ws)
    rw [List.append_nil, List.append_nil] at hall
    exact ⟨ht, htidy, R, hall⟩
  | inside hinside _ ih =>
    refine ih (Task.inside_names hinside ▸ hnames) (Task.inside_prologue hinside ▸ hnothing) ?_ hs hscripts
    cases Task.encloses hinside <;> exact hnoInfo
  | @declares d name hname hinit s => exact ⟨hs.withVariable name, hscripts, [], .withVariable s name⟩
  | @evaluates task s t use e flow commands fx htask he =>
    have hstored : ∀ slot, use = .stored slot → ¬RegisterLike slot := by
      intro slot huse
      cases htask with
      | initializer _ _ => cases huse; exact mintedId_notRegister _ _
      | expression line e => cases huse
      | @returned line e _ slot' hslot =>
        cases huse
        obtain ⟨k, hk, hslot⟩ := Option.bind_eq_some_iff.mp hslot
        obtain ⟨id, -, hk⟩ := Option.bind_eq_some_iff.mp hk
        exact hs.callables id k hk slot (List.mem_append_right _ (Option.mem_toList.mpr hslot))
      | discarded line e _ => cases huse
      | @field info p e slot' _ hslot =>
        cases huse
        obtain ⟨f, hfind, rfl⟩ := Option.map_eq_some_iff.mp hslot
        exact hinfo info rfl f (List.mem_of_find?_eq_some hfind)
    have hprepared : t.Apart ∧ t.Each Tidy ∧ Draws s t [] [] := by
      rcases htask.prepared with ⟨ws, rfl⟩ | ⟨_, name, _, _, rfl⟩
      · exact ⟨hs, hscripts, .noting s ws⟩
      · exact ⟨hs.withVariable name, hscripts, .withVariable s name⟩
    obtain ⟨ht, htidy, hbefore⟩ := hprepared
    have hstages := he.staged ht.supplies (fun n hn => hnames n (htask.names_subset hn)) hstored
    obtain ⟨R, hR⟩ := Draws.withEffects t hstages
    exact ⟨⟨ht.inUnit, ht.symbols, ht.callables, ht.classes, ht.parents⟩, htidy, R, hbefore.trans hR⟩
  | @function f body s t u log out hbody hdeclared hrun ih =>
    have ht : t.Apart := .function hdeclared hs
    have huntouched := Session.Untouched.function hdeclared
    obtain ⟨ws, hws⟩ := t.warnedIf_eq_noting f.isAsync f.line "async function is lowered synchronously"
    rw [hws] at ih
    have hinner : ∀ n ∈ (Task.callable f.id f.line t.scope.enclosing [] body).names, ¬RegisterLike n := by
      intro n hn
      rcases Task.function_names hbody hn with ⟨c, hc, hn⟩ | hn
      · exact ht.parents c hc n hn
      · exact hnames n hn
    obtain ⟨hu, htidy, R, hR⟩ := ih hinner hnothing hnoInfo ht (hscripts.congr huntouched.scripts)
    have hall := ((Draws.untouched huntouched).trans (Draws.noting t ws)).trans hR
    rw [hrun.silent_eq rfl] at hall
    exact ⟨hu, htidy, _, hall⟩
  | @method info scope f isStatic body s t log out hbody hrun ih =>
    obtain ⟨ws, hws⟩ := s.warnedIf_eq_noting f.isAsync f.line "async method is lowered synchronously"
    rw [hws] at ih
    have hinner : ∀ n ∈ (Task.callable f.id f.line (some scope) [] body).names, ¬RegisterLike n :=
      fun n hn => hnames n (Task.method_names hbody info scope isStatic _ _ hn)
    obtain ⟨ht, htidy, R, hR⟩ := ih hinner hnothing hnoInfo hs hscripts
    have hall := (Draws.noting s ws).trans hR
    rw [hrun.silent_eq rfl] at hall
    exact ⟨ht, htidy, _, hall⟩
  | @classDef c info s t u log out hown hdeclared hfound hrun ih =>
    have ht : t.Apart := .classDef hdeclared hs
    have huntouched := Session.Untouched.classDef hdeclared
    have hclass : ∀ info', (Task.members info ⟨info.name, c.parent⟩ c.members c.line).info? = some info' →
        (Declaration.classInfo info').Apart := by
      rintro _ ⟨⟩
      exact ht.classes c.id info hfound
    have hinner : ∀ n ∈ (Task.members info ⟨info.name, c.parent⟩ c.members c.line).names,
        ¬RegisterLike n := fun n hn => hnames n (Task.class_names c info c.line hn)
    obtain ⟨hu, htidy, R, hR⟩ := ih hinner hnothing hclass ht (hscripts.congr huntouched.scripts)
    have hall := (Draws.untouched huntouched).trans hR
    rw [hrun.silent_eq rfl] at hall
    exact ⟨hu, htidy, _, hall⟩
  | @script task s t script log out hopens hrun ih =>
    obtain ⟨hscope, hbody⟩ := hopens.names_subset
    obtain ⟨hstart, hnone⟩ := hopens.invoking hprologue
    have hslots : ∀ x ∈ script.slots, ¬RegisterLike x := by
      cases hopens with
      | callable hk line enclosing prologue body => exact hs.callables _ _ hk
      | fields info scope ms line =>
        intro x hx
        obtain ⟨f, hf, rfl⟩ := List.mem_map.mp hx
        exact hinfo info rfl f hf
    obtain ⟨ht, htidy, R, hR⟩ := ih (fun n hn => hnames n (hbody hn)) hnone (hopens.info hinfo)
      (hs.opened script.slots fun c hc n hn => hnames n (hscope c hc hn)) hscripts
    have hdeclared : declaredBy (declarations t.allocator.preamble ++ script.prologue ++ out.commands) =
        t.allocator.preamble := by
      rw [declaredBy_append, declaredBy_append, declaredBy_declarations, hstart.declaredBy_eq_nil,
        hrun.declaredBy_eq_nil, List.append_nil, List.append_nil]
    have hclosed : (s.closed t).Each Tidy := htidy
    exact ⟨(hs.closed ht).stored _ _ _, hclosed.stored _ _ (hR.tidy hslots hstart), [],
      hR.script hslots _ _ hdeclared⟩
  | @constructor info scope ms line id bodyLine body s t log out hfound hrun ih =>
    have hinner : ∀ n ∈ (Task.callable id bodyLine (some scope)
        [.invoke (s.qualify (classScript info.name))] body).names, ¬RegisterLike n :=
      fun n hn => hnames n (Task.constructor_names hfound _ _ _ hn)
    obtain ⟨ht, htidy, R, hR⟩ := ih hinner (.single _) hnoInfo hs hscripts
    rw [hrun.silent_eq rfl] at hR
    exact ⟨ht, htidy, R, hR⟩
  | @defaulted info scope ms line hnone s =>
    refine ⟨hs.stored _ _ _, hscripts.stored _ _ ?_, [], .stored s _ line rfl⟩
    refine ⟨[], _, [], rfl, .snoc .nil rfl, fun r hr => absurd hr List.not_mem_nil, fun n => ?_⟩
    exact Iff.rfl

/-! ## Units -/

/-- Scripts that declare a register between them at most once, and of which two declare it, are one
script. -/
theorem Scripts.name_eq_of_declared {scripts : Scripts (List Command)} {a b r : String}
    {x y : List Command} (ha : scripts[a]? = some x) (hb : scripts[b]? = some y)
    (hx : r ∈ declaredBy x) (hy : r ∈ declaredBy y) (hcount : scripts.declared.count r ≤ 1) :
    a = b := by
  by_contra hne
  have hnodup : [(a, x), (b, y)].Nodup := by simp [hne]
  have hsubset : [(a, x), (b, y)] ⊆ scripts.toList := by
    intro entry hentry
    rcases List.mem_pair.mp hentry with rfl | rfl
    · exact Std.TreeMap.mem_toList_iff_getElem?_eq_some.mpr ha
    · exact Std.TreeMap.mem_toList_iff_getElem?_eq_some.mpr hb
  obtain ⟨entries, hperm, hsub⟩ := hnodup.subperm hsubset
  have hle := (hsub.flatMap fun entry => declaredBy entry.2).count_le r
  have heq := (hperm.flatMap_right fun entry => declaredBy entry.2).count_eq r
  have hcx := List.count_pos_iff.mpr hx
  have hcy := List.count_pos_iff.mpr hy
  simp only [List.flatMap_cons, List.flatMap_nil, List.append_nil, List.count_append] at heq
  rw [Scripts.declared] at hcount
  omega

theorem Scripts.count_declaredBy_le {scripts : Scripts (List Command)} {name : String}
    {script : List Command} (h : scripts[name]? = some script) (r : String) :
    (declaredBy script).count r ≤ scripts.declared.count r := by
  have hin : (name, script) ∈ scripts.toList := Std.TreeMap.mem_toList_iff_getElem?_eq_some.mpr h
  have hsub := (List.singleton_sublist.mpr hin).flatMap fun entry => declaredBy entry.2
  have hle := hsub.count_le r
  simpa [Scripts.declared] using hle

/-- A register that a tidy script names is declared by it and assigned once. -/
theorem Tidy.assignedOnce {script : List Command} (h : Tidy script) {n : Nat}
    (hin : ∃ d ∈ script, mintedRegister n ∈ d.operands) :
    ∃ names body, script = declarations names ++ body ∧ mintedRegister n ∈ names ∧
      AssignedOnce (mintedRegister n) body := by
  obtain ⟨names, body, R, rfl, hstaged, hR, hnames⟩ := h
  have hregister : mintedRegister n ∈ R := by
    obtain ⟨d, hd, hx⟩ := hin
    rcases List.mem_append.mp hd with hd | hd
    · obtain ⟨name, -, rfl⟩ := List.mem_map.mp hd
      exact absurd hx List.not_mem_nil
    · exact (hstaged.operands d hd _ hx).resolve_left fun hslot => hslot ⟨n, rfl⟩
  refine ⟨names, body, rfl, (hnames n).mpr hregister, hstaged.assignedOnce (fun r hr => ?_) _ hregister⟩
  exact not_not_intro (hR r hr)

namespace Session

variable {s : Session} {u : CompilationUnit} {c : Compilation}

theorem begin_apart (s : Session) (u : CompilationUnit) : (s.begin u).Apart where
  inUnit := Option.some_ne_none _
  symbols := SymbolTable.all_empty _
  callables := fun id k hk => by
    rw [DeclTable.callable?_none (s.begin_free u id)] at hk
    cases hk
  classes := fun id info hinfo => by
    rw [DeclTable.class?_none (s.begin_free u id)] at hinfo
    cases hinfo
  parents := nofun

/-- The scripts of a unit are tidy, and no register is declared twice. -/
theorem compiled_tidy (hnames : ∀ n ∈ u.names, ¬RegisterLike n)
    (himports : ∀ line i, .imports line i ∈ u.statements → i.namespaceName ≠ none →
      ¬RegisterLike (moduleContext i.module))
    (hcompile : (s.compile u).1 = .ok c) :
    (∀ (name : String) (script : List Command), c.scripts[name]? = some script → Tidy script) ∧
      ∀ n, (Scripts.declared c.scripts).count (mintedRegister n) ≤ 1 := by
  obtain ⟨out, t, hdeclared, hruns, rfl, -⟩ := compile_ok hcompile
  have huntouched := Untouched.statements hdeclared
  have hstart : (s.declared u).Apart := (begin_apart s u).changes (hdeclared.changes rfl)
    fun _ hchange => hchange.apart (begin_apart s u).inUnit himports
  have hscripts : (s.declared u).Each Tidy := Each.congr (.begin s u) huntouched.scripts
  obtain ⟨ht, htidy, R, hdraws⟩ := hruns.draws hnames .nil nofun hstart hscripts
  have hframe : t.frame = some u.context :=
    (Surroundings.frame_congr (hruns.place_eq.1.trans huntouched.unit)).trans rfl
  have hempty : (s.declared u).allocator.preamble = [] := huntouched.preamble
  -- the primary script is the body between two commands without operands
  have hprimary : Tidy (declarations t.allocator.preamble ++ t.frame.bracket out.commands) := by
    have hsummon : Staged (fun x => ¬RegisterLike x) [.summon u.context] [] := .snoc .nil rfl
    have hbody := (hsummon.append hdraws.staged (List.disjoint_nil_left R)).snoc
      (show (Command.kill u.context).operands = [] from rfl)
    refine ⟨t.allocator.preamble, _, R, rfl, ?_, fun r hr => ?_, fun n => ?_⟩
    · rw [hframe]
      exact hbody
    · obtain ⟨n, -, -, rfl⟩ := hdraws.minted r hr
      exact ⟨n, rfl⟩
    · rw [hdraws.preamble n, hempty]
      exact ⟨fun hin => hin.resolve_left List.not_mem_nil, .inr⟩
  refine ⟨fun name script hscript => ?_, fun n => ?_⟩
  · by_cases hname : name = u.context
    · subst hname
      obtain rfl := Option.some.inj ((t.withPrimary_script u.context out.commands).symm.trans hscript)
      exact hprimary
    · exact htidy name script ((t.withPrimary_other out.commands hname).symm.trans hscript)
  · have hinsert := Scripts.count_declared_insert t.scripts u.context
      (declarations t.allocator.preamble ++ t.frame.bracket out.commands) (mintedRegister n)
    have hheld : (s.declared u).held = [] := by
      rw [held, huntouched.preamble, huntouched.scripts]
      exact held_begin s u
    have hn := hdraws.held n
    rw [declaredBy_append, declaredBy_declarations, declaredBy_bracket, hruns.declaredBy_eq_nil,
      List.append_nil] at hinsert
    rw [hheld, List.count_nil, held, List.count_append] at hn
    show (Scripts.declared (t.withPrimary u.context out.commands).scripts).count _ ≤ 1
    rw [withPrimary_scripts]
    split at hn <;> omega

/-- **Scratch registers belong to one script and have one value there.**  No name of the unit is
spelled like a register, and no module that is imported as a whole has a context that is.  Then any
register is named by at most one script of the compiled unit.  It is declared there once, at the
beginning; one command gives it its value, and this command stands before all commands that read it;
no other command changes it. -/
theorem scratch_assigned_once (hnames : ∀ n ∈ u.names, ¬RegisterLike n)
    (himports : ∀ line i, .imports line i ∈ u.statements → i.namespaceName ≠ none →
      ¬RegisterLike (moduleContext i.module))
    (hcompile : (s.compile u).1 = .ok c) (n : Nat) :
    (∀ (a b : String) (x y : List Command), c.scripts[a]? = some x → c.scripts[b]? = some y →
      (∃ d ∈ x, mintedRegister n ∈ d.operands) → (∃ d ∈ y, mintedRegister n ∈ d.operands) → a = b) ∧
    ∀ (name : String) (script : List Command), c.scripts[name]? = some script →
      (∃ d ∈ script, mintedRegister n ∈ d.operands) →
      ∃ names body, script = declarations names ++ body ∧ mintedRegister n ∈ names ∧
        (declaredBy script).count (mintedRegister n) = 1 ∧ AssignedOnce (mintedRegister n) body := by
  obtain ⟨htidy, hcount⟩ := compiled_tidy hnames himports hcompile
  have hdeclared : ∀ {names : List String} {body : List Command}, mintedRegister n ∈ names →
      mintedRegister n ∈ declaredBy (declarations names ++ body) := by
    intro names body hin
    rw [declaredBy_append, declaredBy_declarations]
    exact List.mem_append_left _ hin
  refine ⟨fun a b x y hx hy hin hin' => ?_, fun name script hscript hin => ?_⟩
  · obtain ⟨names, body, rfl, hnames, -⟩ := (htidy a x hx).assignedOnce hin
    obtain ⟨names', body', rfl, hnames', -⟩ := (htidy b y hy).assignedOnce hin'
    exact Scripts.name_eq_of_declared hx hy (hdeclared hnames) (hdeclared hnames') (hcount n)
  · obtain ⟨names, body, rfl, hnames, honce⟩ := (htidy name script hscript).assignedOnce hin
    have hle := (Scripts.count_declaredBy_le hscript (mintedRegister n)).trans (hcount n)
    have hpos := List.count_pos_iff.mpr hnames
    rw [declaredBy_append, declaredBy_declarations, List.count_append] at hle ⊢
    exact ⟨names, body, rfl, hnames, by omega, honce⟩

/-! A call whose arguments are copied, and a module that is spelled like a register. -/

/-- `import * as lib from "./lib"; function f(a, b) { a += 1; return a } let x = 2; x = f(x, x++)` -/
def copyingUnit : CompilationUnit where
  fileName := "main.ts"
  context := "main"
  statements := [
    .imports 0 ⟨"./lib", none, some "lib", []⟩,
    .function ⟨0, some "f", [⟨.identifier "a", false, none, 0⟩, ⟨.identifier "b", false, none, 0⟩],
      some [
        .expression 0 (.binary ⟨0, none⟩ (.identifier ⟨0, none⟩ "a") .addAssign
          (.number ⟨0, none⟩ (.ofInt 1))),
        .returning 0 (some (.identifier ⟨0, none⟩ "a"))], false, 0⟩,
    .bindings 0 [⟨.identifier "x", some (.number ⟨0, none⟩ (.ofInt 2)), 0⟩],
    .expression 0 (.binary ⟨0, none⟩ (.identifier ⟨0, none⟩ "x") .assign
      (.call ⟨0, none⟩ (.identifier ⟨0, none⟩ "f") [.identifier ⟨0, none⟩ "x",
        .unary ⟨0, none⟩ .increment .after (.identifier ⟨0, none⟩ "x")]))]
  declCount := 1

/-- The last register is minted for the first argument, and defined before those of the second. -/
theorem scratch_assigned_once_copying :
    ∃ c script, (compile {} copyingUnit).1 = .ok c ∧ c.scripts["main"]? = some script ∧
      (∃ d ∈ script, mintedRegister 4 ∈ d.operands) ∧
      (∀ (a b : String) (x y : List Command), c.scripts[a]? = some x → c.scripts[b]? = some y →
        (∃ d ∈ x, mintedRegister 4 ∈ d.operands) → (∃ d ∈ y, mintedRegister 4 ∈ d.operands) → a = b) ∧
      ∃ names body, script = declarations names ++ body ∧ mintedRegister 4 ∈ names ∧
        (declaredBy script).count (mintedRegister 4) = 1 ∧ AssignedOnce (mintedRegister 4) body := by
  have hnames : ∀ n ∈ copyingUnit.names, ¬RegisterLike n := by
    have hstarts : ∀ n ∈ copyingUnit.names, ¬"register".toList <+: n.toList := by decide +kernel
    exact fun n hn => notRegister_of_start (hstarts n hn)
  have himports : ∀ line i, .imports line i ∈ copyingUnit.statements → i.namespaceName ≠ none →
      ¬RegisterLike (moduleContext i.module) := by
    intro line i hi _
    simp only [copyingUnit, List.mem_cons, List.not_mem_nil, or_false, reduceCtorEq,
      Stmt.imports.injEq] at hi
    obtain ⟨-, rfl⟩ := hi
    exact notRegister_of_start (by decide +kernel)
  obtain ⟨c, hc⟩ : ∃ c, (compile {} copyingUnit).1 = .ok c := exists_compilation (by decide +kernel)
  have hscript : (compile {} copyingUnit).1.toOption.bind (·.scripts["main"]?) =
      some [.declare "x_4", .declare "register2", .declare "register3", .declare "register4",
        .summon "main", .set (some "main") "x_4" "2",
        .operation (some "main") "register4" .assign "x_4",
        .operation (some "main") "register2" .assign "x_4", .set (some "main") "register3" "1",
        .operation (some "main") "x_4" .add "register3",
        .operation (some "main") "a_1" .assign "register4",
        .operation (some "main") "b_2" .assign "register2", .invoke "main/f",
        .operation (some "main") "x_4" .assign "f_return_3", .kill "main"] := by decide +kernel
  rw [hc] at hscript
  obtain ⟨hone, honce⟩ := scratch_assigned_once hnames himports hc 4
  refine ⟨c, _, hc, hscript, ?_, hone, honce "main" _ hscript ?_⟩
  all_goals exact ⟨.operation (some "main") "register4" .assign "x_4", by decide, by decide⟩

/-- `import * as lib from "./register1"; let y = lib; y += 1` -/
def registerModuleDocument : Json.Value :=
  .object [("statements", .array [
    .object [("kind", .string "ImportDeclaration"), ("module", .string "./register1"),
      ("namespace", .string "lib")],
    .object [("kind", .string "VariableStatement"), ("declarations", .array [
      namedNode "VariableDeclaration" "y" [("initializer", namedNode "Identifier" "lib" [])]])],
    .object [("kind", .string "ExpressionStatement"), ("expression", .object [
      ("kind", .string "BinaryExpression"), ("left", namedNode "Identifier" "y" []),
      ("operator", .string "+="),
      ("right", .object [("kind", .string "NumericLiteral"), ("value", .string "1")])])]])]

/-- The unit of the document. -/
def registerModuleUnit : CompilationUnit where
  fileName := "main.ts"
  context := "main"
  statements := [
    .imports 0 ⟨"./register1", none, some "lib", []⟩,
    .bindings 0 [⟨.identifier "y", some (.identifier ⟨0, none⟩ "lib"), 0⟩],
    .expression 0 (.binary ⟨0, none⟩ (.identifier ⟨0, none⟩ "y") .addAssign
      (.number ⟨0, none⟩ (.ofInt 1)))]
  declCount := 0

/-- **A scratch register may be read before it has a value**: no name is spelled like a register, but
the context of an imported module is. -/
theorem scratch_read_unassigned :
    ∃ u c script, Document.load registerModuleDocument "main.ts" = .ok u ∧
      (∀ n ∈ u.names, ¬RegisterLike n) ∧ (compile {} u).1 = .ok c ∧
      (compile {} u).2.allocator.registers = 1 ∧ c.scripts["main"]? = some script ∧
      ¬AssignedOnce (mintedRegister 1) script := by
  have hload : Document.load registerModuleDocument "main.ts" = .ok registerModuleUnit := rfl
  have hstarts : ∀ n ∈ registerModuleUnit.names, ¬"register".toList <+: n.toList := by decide +kernel
  obtain ⟨c, hc⟩ : ∃ c, (compile {} registerModuleUnit).1 = .ok c :=
    exists_compilation (by decide +kernel)
  have hscript : (compile {} registerModuleUnit).1.toOption.bind (·.scripts["main"]?) =
      some ([.declare "y_1", .declare "register1", .summon "main"] ++
        .operation (some "main") "y_1" .assign "register1" ::
        [.set (some "main") "register1" "1", .operation (some "main") "y_1" .add "register1",
          .kill "main"]) := by decide +kernel
  rw [hc] at hscript
  refine ⟨_, c, _, hload, fun n hn => notRegister_of_start (hstarts n hn), hc, by decide +kernel,
    hscript, fun honce => ?_⟩
  obtain ⟨d, hd, hdefines⟩ := honce.defined_before_read (by decide)
  have hnone : ∀ d ∈ [Command.declare "y_1", .declare "register1", .summon "main"],
      d.target? ≠ some (mintedRegister 1) := by decide
  exact hnone d hd hdefines.target_eq

end Session

end FrameScript
