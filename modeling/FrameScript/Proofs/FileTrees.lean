/-
  Writing to a tree of files.

  A text that has been written is read back by the same path, until something is written to the same
  place (`readText_written`, `readText_kept`).  The reason is that writing never replaces a directory:
  where a path leads depends on directories alone, so all paths lead where they led before.

  The files of one directory have places of their own: two paths that differ in the last segment alone
  lead to places whose entries are kept apart (`path_child_inj`).
-/
import FrameScript.FileTree
import FrameScript.Proofs.FileNames

namespace FrameScript

/-- Two steps succeed if each of them does. -/
theorem except_bind_ok {ε α β : Type} {x : Except ε α} {f : α → Except ε β} {b : β} :
    (x >>= f) = .ok b ↔ ∃ a, x = .ok a ∧ f a = .ok b := by
  cases x with
  | error e =>
    constructor
    · intro h
      cases h
    · rintro ⟨_, h, _⟩
      cases h
  | ok a =>
    constructor
    · exact fun h => ⟨a, rfl, h⟩
    · rintro ⟨_, ha, h⟩
      cases ha
      exact h

namespace FileTree

variable {t u : FileTree}

/-! ## Following paths -/

/-- All directories of the one tree are directories of the other. -/
def KeepsDirectories (t u : FileTree) : Prop :=
  ∀ place, t.entry? place = some .directory → u.entry? place = some .directory

theorem directory_ok {place next : Location} (h : t.directory place = .ok next) :
    t.entry? place = some .directory ∧ next = place := by
  unfold directory at h
  split at h
  · exact ⟨‹_›, (Except.ok.inj h).symm⟩
  · cases h
  · cases h

theorem directory_of_entry {place : Location} (h : t.entry? place = some .directory) :
    t.directory place = .ok place := by
  rw [directory, h]

namespace KeepsDirectories

variable (h : KeepsDirectories t u)
include h

theorem descend {place next : Location} {segment : String}
    (hstep : t.descend place segment = .ok next) : u.descend place segment = .ok next := by
  obtain ⟨here, hdirectory, hnext⟩ := except_bind_ok.mp hstep
  obtain ⟨hentry, rfl⟩ := directory_ok hdirectory
  exact except_bind_ok.mpr ⟨here, directory_of_entry (h here hentry), hnext⟩

theorem follow {steps : List String} {start place : Location}
    (hsteps : steps.foldlM t.descend start = .ok place) : steps.foldlM u.descend start = .ok place := by
  induction steps generalizing start with
  | nil => exact hsteps
  | cons segment rest ih =>
    rw [List.foldlM_cons] at hsteps ⊢
    obtain ⟨next, hstep, hrest⟩ := except_bind_ok.mp hsteps
    exact except_bind_ok.mpr ⟨next, h.descend hstep, ih hrest⟩

end KeepsDirectories

/-- Where following a path begins. -/
def pathStart (p : String) : Location := if p.toList.head? = some '/' then .root else []

/-- The last segment of a path is a name. -/
def endsInName (p : String) : Bool :=
  match (segments p).getLast? with
  | none => false
  | some last => last ≠ "." && last ≠ ".."

/-- A path that can be followed at all. -/
structure Followable (p : String) : Prop where
  zeroFree : p.toList.contains '\x00' = false
  nonempty : p ≠ ""
  short : ¬ maxPathBytes < p.utf8ByteSize

theorem locate_of_followable (t : FileTree) {p : String} (hp : Followable p) :
    t.locate p =
      ((segments p).foldlM t.descend (pathStart p)).map fun place => (place, endsInName p) := by
  unfold locate
  simp only [hp.zeroFree, hp.nonempty, hp.short, if_false, Bool.false_eq_true]
  rw [pathStart]
  cases (segments p).foldlM t.descend (if p.toList.head? = some '/' then .root else []) with
  | error e => rfl
  | ok place => rfl

theorem followable_of_locate {p : String} {found : Location × Bool} (h : t.locate p = .ok found) :
    Followable p := by
  unfold locate at h
  by_cases hzero : p.toList.contains '\x00' = true
  · rw [if_pos hzero] at h
    cases h
  by_cases hempty : p = ""
  · rw [if_neg hzero, if_pos hempty] at h
    cases h
  by_cases hlong : maxPathBytes < p.utf8ByteSize
  · rw [if_neg hzero, if_neg hempty, if_pos hlong] at h
    cases h
  exact ⟨Bool.eq_false_iff.mpr hzero, hempty, hlong⟩

/-- Where a path leads, step by step. -/
theorem locate_ok {p : String} {place : Location} {named : Bool} (h : t.locate p = .ok (place, named)) :
    (segments p).foldlM t.descend (pathStart p) = .ok place ∧ named = endsInName p := by
  rw [locate_of_followable t (followable_of_locate h)] at h
  cases hsteps : (segments p).foldlM t.descend (pathStart p) with
  | error e =>
    rw [hsteps] at h
    cases h
  | ok here =>
    rw [hsteps] at h
    cases h
    exact ⟨rfl, rfl⟩

/-- A path leads where it led as long as the directories stay. -/
theorem KeepsDirectories.locate (h : KeepsDirectories t u) {p : String} {found : Location × Bool}
    (hfound : t.locate p = .ok found) : u.locate p = .ok found := by
  obtain ⟨place, named⟩ := found
  obtain ⟨hsteps, rfl⟩ := locate_ok hfound
  rw [locate_of_followable u (followable_of_locate hfound), h.follow hsteps]
  rfl

/-! ## Reading and writing -/

theorem readText_ok_iff {p text : String} :
    t.readText p = .ok text ↔
      ∃ place named, t.locate p = .ok (place, named) ∧ t.entry? place = some (.file text) ∧
        endsInSlash p = false := by
  rw [readText, except_bind_ok]
  constructor
  · rintro ⟨⟨place, named⟩, hlocate, h⟩
    dsimp only at h
    refine ⟨place, named, hlocate, ?_⟩
    split at h
    · cases h
    · cases h
    · rename_i content hentry
      cases hslash : endsInSlash p with
      | true =>
        rw [hslash, if_pos rfl] at h
        cases h
      | false =>
        rw [hslash, if_neg Bool.false_ne_true] at h
        cases h
        exact ⟨hentry, rfl⟩
  · rintro ⟨place, named, hlocate, hentry, hslash⟩
    refine ⟨(place, named), hlocate, ?_⟩
    dsimp only
    rw [hentry, hslash]
    rfl

/-- What a successful write does: a file is put in the place that the path leads to, which is none of
a directory. -/
theorem writeText_ok {p text : String} (h : t.writeText p text = .ok u) :
    ∃ place, t.locate p = .ok (place, true) ∧ endsInSlash p = false ∧
      t.entry? place ≠ some .directory ∧ u = t.put place (.file text) := by
  obtain ⟨⟨place, named⟩, hlocate, h⟩ := except_bind_ok.mp h
  dsimp only at h
  cases named with
  | false => cases h
  | true =>
    cases hslash : endsInSlash p with
    | true =>
      rw [hslash] at h
      cases h
    | false =>
      simp only [hslash, Bool.not_true, Bool.or_self, Bool.false_eq_true, if_false] at h
      refine ⟨place, hlocate, rfl, ?_⟩
      split at h
      · cases h
      · exact ⟨‹_›, (Except.ok.inj h).symm⟩

theorem entry_put_self {place : Location} (h : place.isFixed = false) (entry : Entry) :
    FileTree.entry? (t.put place entry) place = some entry := by
  unfold entry?
  rw [h]
  exact Std.TreeMap.getElem?_insert_self

theorem entry_put_other {place other : Location} (h : other.path ≠ place.path) (entry : Entry) :
    FileTree.entry? (t.put place entry) other = t.entry? other := by
  have hcompare : compare place.path other.path ≠ .eq := fun heq =>
    h (Std.LawfulEqCmp.eq_of_compare heq).symm
  unfold entry?
  rw [put, Std.TreeMap.getElem?_insert, if_neg hcompare]

/-- A place that is no directory is not one of those that are always there. -/
theorem isFixed_of_entry {place : Location} (h : t.entry? place ≠ some .directory) :
    place.isFixed = false := by
  cases hfixed : place.isFixed with
  | true =>
    have hdirectory : t.entry? place = some .directory := if_pos hfixed
    exact absurd hdirectory h
  | false => rfl

/-- A file put where no directory is replaces none. -/
theorem keepsDirectories_put {place : Location} (h : t.entry? place ≠ some .directory) (entry : Entry) :
    KeepsDirectories t (t.put place entry) := by
  have hplace := isFixed_of_entry h
  intro other hother
  cases hfixed : other.isFixed with
  | true => exact if_pos hfixed
  | false =>
    rw [entry_put_other _ entry, hother]
    -- at the path of the new file there was no directory
    intro hpath
    unfold entry? at h hother
    rw [hfixed, hpath] at hother
    rw [hplace] at h
    exact h hother

/-- **A text that was written is read back.** -/
theorem readText_written {p text : String} (h : t.writeText p text = .ok u) :
    u.readText p = .ok text := by
  obtain ⟨place, hlocate, hslash, hentry, rfl⟩ := writeText_ok h
  have hkeeps := keepsDirectories_put hentry (.file text)
  have hself := entry_put_self (t := t) (isFixed_of_entry hentry) (.file text)
  exact readText_ok_iff.mpr ⟨place, true, hkeeps.locate hlocate, hself, hslash⟩

/-! ## Files in one directory -/

theorem segments_child {directory name : String} (hname : Path.FileName name.toList) :
    segments (directory ++ "/" ++ name) = segments directory ++ [name] := by
  have hsplit : (directory ++ "/" ++ name).toList.splitOn '/' =
      directory.toList.splitOn '/' ++ [name.toList] := by
    rw [String.append_assoc, String.toList_append, String.toList_append]
    exact (List.splitOnP_append_cons _ _ (by decide)).trans
      (congrArg _ (List.splitOn_eq_singleton hname.slashFree))
  have hne : name ≠ "" := fun h => hname.nonempty (congrArg String.toList h)
  rw [segments, segments, hsplit, List.map_append, List.filter_append]
  simp [hne]

/-- A step by a name leads into the directory. -/
theorem descend_name {place next : Location} {name : String} (hname : Path.FileName name.toList)
    (h : t.descend place name = .ok next) : next = name :: place := by
  have hhere : name ≠ "." := fun h => hname.ne_here (congrArg String.toList h)
  have hup : name ≠ ".." := fun h => hname.ne_up (congrArg String.toList h)
  obtain ⟨here, hdirectory, hnext⟩ := except_bind_ok.mp h
  obtain ⟨-, rfl⟩ := directory_ok hdirectory
  simp only [hhere, hup, if_false] at hnext
  split at hnext
  · cases hnext
  · exact (Except.ok.inj hnext).symm

/-- A path in a directory begins like that of the directory. -/
theorem pathStart_child (directory name : String) :
    pathStart (directory ++ "/" ++ name) = pathStart (directory ++ "/") := by
  have hhead : (directory ++ "/" ++ name).toList.head? = (directory ++ "/").toList.head? := by
    rw [String.toList_append, List.head?_append]
    cases hlist : (directory ++ "/").toList with
    | nil => simp at hlist
    | cons c cs => rfl
  rw [pathStart, pathStart, hhead]

/-- The place of a file is in the place of its directory. -/
theorem locate_child {directory name : String} (hname : Path.FileName name.toList) {place : Location}
    {named : Bool} (h : t.locate (directory ++ "/" ++ name) = .ok (place, named)) :
    ∃ around, (segments directory).foldlM t.descend (pathStart (directory ++ "/")) = .ok around ∧
      place = name :: around := by
  obtain ⟨hsteps, -⟩ := locate_ok h
  rw [segments_child hname, List.foldlM_append, pathStart_child] at hsteps
  obtain ⟨around, haround, hlast⟩ := except_bind_ok.mp hsteps
  obtain ⟨next, hnext, hlast⟩ := except_bind_ok.mp hlast
  cases hlast
  exact ⟨around, haround, descend_name hname hnext⟩

/-- Two files of one directory are kept under different paths. -/
theorem path_child_inj {around : Location} {a b : String}
    (h : Location.path (a :: around) = Location.path (b :: around)) : a = b := by
  have hpath (name : String) : Location.path (name :: around) =
      (if around = [] then "" else String.intercalate "/" around.reverse ++ "/") ++ name := by
    rw [Location.path, List.reverse_cons]
    split
    · rename_i hempty
      subst hempty
      simp
    · rename_i hne
      rw [String.intercalate_append_of_ne_nil (by simpa using hne) (by simp),
        String.intercalate_singleton]
  rw [hpath, hpath] at h
  exact (String.append_right_inj _).mp h

/-- **A text stays when another file of its directory is written.** -/
theorem readText_kept {directory a b text other : String} (ha : Path.FileName a.toList)
    (hb : Path.FileName b.toList) (hab : a ≠ b)
    (hwrite : t.writeText (directory ++ "/" ++ a) text = .ok u)
    (hread : t.readText (directory ++ "/" ++ b) = .ok other) :
    u.readText (directory ++ "/" ++ b) = .ok other := by
  obtain ⟨place, hlocate, -, hentry, rfl⟩ := writeText_ok hwrite
  obtain ⟨place', named, hlocate', hentry', hslash⟩ := readText_ok_iff.mp hread
  obtain ⟨around, haround, rfl⟩ := locate_child ha hlocate
  obtain ⟨around', haround', rfl⟩ := locate_child hb hlocate'
  obtain rfl : around = around' := Except.ok.inj (haround.symm.trans haround')
  have hkeeps := keepsDirectories_put hentry (.file text)
  -- the second path leads where it led, and what is kept there has another path
  refine readText_ok_iff.mpr ⟨_, named, hkeeps.locate hlocate', ?_, hslash⟩
  rw [entry_put_other _ _, hentry']
  exact fun h => hab (path_child_inj h).symm

end FileTree

end FrameScript
