/-
  The files of scripts.

  A script is written to a file of its own in the directory of its unit: the name of the script, a
  point, and the extension that the user chose.  The path is made by giving the name another
  extension, so a point in the name matters:

  1. a name without an extension keeps all its letters (`scriptPath_plain`), and what is behind the
     last point of any other name is lost (`scriptPath_dotted`);
  2. writing the scripts one after the other keeps what has been written before, as long as their
     files are different ones (`writeEach_keeps`, `writeEach_reads`);
  3. so each script of a unit has its own file and is read back from it (`writeScripts_files`), unless
     a script is named after a file with two points (`writeScripts_collide`).
-/
import FrameScript.Bundle
import FrameScript.Proofs.FileTrees

namespace FrameScript

namespace Path

/-- A file name without an extension: a point stands at its beginning, if anywhere. -/
structure PlainName (name : List Char) : Prop extends FileName name where
  pointless : '.' ∉ name.tail

/-! ## Another extension -/

/-- A name behind a slash and the directory before it. -/
theorem splitName?_child {directory : String} {name : List Char} (hname : FileName name) :
    splitName? ((directory ++ "/").toList ++ name) = some ((directory ++ "/").toList, name) :=
  splitName?_append (by rw [String.toList_append]; exact .snoc _) hname

/-- What a path becomes once its extension is gone. -/
theorem withExtension_of_bare {directory stem extension : String} {p : String} {name : List Char}
    (hbare : dropExtension p.toList = (directory ++ "/").toList ++ name) (hname : FileName name)
    (hstem : (splitPoint name).1 = stem.toList) (hextension : extension ≠ "") :
    withExtension p extension = directory ++ "/" ++ (stem ++ "." ++ extension) := by
  unfold withExtension
  rw [hbare]
  dsimp only
  rw [splitName?_child hname]
  dsimp only
  rw [hstem, if_neg hextension, ← String.toList_append, String.ofList_toList]
  simp only [String.append_assoc]

/-- A name without an extension gets one. -/
theorem withExtension_plain {directory name extension : String} (hname : PlainName name.toList)
    (hextension : extension ≠ "") :
    withExtension (directory ++ "/" ++ name) extension =
      directory ++ "/" ++ (name ++ "." ++ extension) := by
  have hplain := splitPoint_of_plain hname.pointless
  refine withExtension_of_bare ?_ hname.toFileName (by rw [hplain]) hextension
  rw [String.toList_append, dropExtension, splitName?_child hname.toFileName, Option.bind_some]
  dsimp only
  rw [hplain]

/-- What is behind the last point of a name is replaced. -/
theorem withExtension_dotted {directory stem old extension : String} (hstem : FileName stem.toList)
    (hpoint : '.' ∉ old.toList) (hslash : '/' ∉ old.toList) (hextension : extension ≠ "") :
    withExtension (directory ++ "/" ++ (stem ++ "." ++ old)) extension =
      directory ++ "/" ++ (stem ++ "." ++ extension) := by
  have hlist : (directory ++ "/" ++ (stem ++ "." ++ old)).toList =
      (directory ++ "/").toList ++ (stem.toList ++ '.' :: old.toList) := by
    simp
  have hbare : dropExtension (directory ++ "/" ++ (stem ++ "." ++ old)).toList =
      (directory ++ "/").toList ++ (stem.toList ++ ['.']) := by
    have htake : (directory ++ "/").toList ++ (stem.toList ++ '.' :: old.toList) =
        (directory ++ "/").toList ++ (stem.toList ++ ['.']) ++ old.toList := by simp
    rw [hlist, dropExtension, splitName?_child (hstem.extended hslash), Option.bind_some]
    dsimp only
    rw [splitPoint_append hstem.nonempty hpoint]
    dsimp only
    -- the old extension is cut off, the point before it stays
    rw [htake]
    exact List.take_left' (by simp only [List.length_append, Nat.add_sub_cancel])
  refine withExtension_of_bare hbare (hstem.extended (by simp)) ?_ hextension
  rw [splitPoint_append hstem.nonempty (by simp)]

end Path

namespace Bundle

variable {out context extension : String}

/-! ## The path of a script -/

/-- A script in the directory of its context. -/
theorem join_context {name : String} (hcontext : Path.FileName context.toList)
    (hname : Path.FileName name.toList) :
    Path.join (contextDirectory out context) name = contextDirectory out context ++ "/" ++ name := by
  have hhead {s : String} (h : Path.FileName s.toList) : s.toList.head? ≠ some '/' := fun heq =>
    h.slashFree (List.mem_of_mem_head? heq)
  obtain ⟨before, hbefore⟩ : ∃ before, contextDirectory out context = before ++ context := by
    rw [contextDirectory, Path.join, if_neg (hhead hcontext)]
    split
    · exact ⟨out, rfl⟩
    · exact ⟨out ++ "/", rfl⟩
  have hne : contextDirectory out context ≠ "" := by
    intro h
    rw [hbefore] at h
    exact hcontext.nonempty (congrArg String.toList (String.append_eq_empty_iff.mp h).2)
  have hlast : (contextDirectory out context).toList.getLast? ≠ some '/' := by
    intro h
    rw [hbefore, String.toList_append, List.getLast?_append,
      List.getLast?_eq_some_getLast hcontext.nonempty, Option.some_or, Option.some_inj] at h
    exact hcontext.slashFree (h ▸ List.getLast_mem hcontext.nonempty)
  rw [Path.join, if_neg (hhead hname), if_neg (not_or.mpr ⟨hne, hlast⟩)]

/-- The name of a script with the extension names a file. -/
theorem fileName_script {name : String} (hname : Path.FileName name.toList)
    (hslash : '/' ∉ extension.toList) : Path.FileName (name ++ "." ++ extension).toList := by
  simpa using hname.extended hslash

/-- The file of a script whose name has no extension. -/
theorem scriptPath_plain {name : String} (hcontext : Path.FileName context.toList)
    (hname : Path.PlainName name.toList) (hextension : extension ≠ "") :
    scriptPath out context name extension =
      contextDirectory out context ++ "/" ++ (name ++ "." ++ extension) := by
  rw [scriptPath, join_context hcontext hname.toFileName, Path.withExtension_plain hname hextension]

/-- The file of a script whose name has an extension: it is that of the script named without. -/
theorem scriptPath_dotted {stem old : String} (hcontext : Path.FileName context.toList)
    (hstem : Path.FileName stem.toList) (hpoint : '.' ∉ old.toList) (hslash : '/' ∉ old.toList)
    (hextension : extension ≠ "") :
    scriptPath out context (stem ++ "." ++ old) extension =
      contextDirectory out context ++ "/" ++ (stem ++ "." ++ extension) := by
  rw [scriptPath, join_context hcontext (fileName_script hstem hslash),
    Path.withExtension_dotted hstem hpoint hslash hextension]

/-! ## Writing one script after the other -/

theorem run_writeText (p text : String) (w : Workspace) :
    (Host.writeText p text : StateM Workspace _).run w =
      match w.files.writeText p text with
      | .ok files => (.ok (), { w with files })
      | .error e => (.error e, w) := rfl

/-- The first script is written, then the others. -/
theorem run_writeEach_cons (name : String) (body : List Command) (rest : List (String × List Command))
    (w : Workspace) :
    (writeEach out context extension ((name, body) :: rest) : StateM Workspace _).run w =
      if extension.toList.contains '/' then (.error .slashInExtension, w)
      else
        match w.files.writeText (scriptPath out context name extension) (render body) with
        | .error e => (.error (.file e), w)
        | .ok files =>
          let others := (writeEach out context extension rest : StateM Workspace _).run { w with files }
          (others.1.map fun paths => scriptPath out context name extension :: paths, others.2) := by
  rw [writeEach]
  split
  · rfl
  · rw [StateT.run_bind, run_writeText]
    cases w.files.writeText (scriptPath out context name extension) (render body) with
    | error e => rfl
    | ok files =>
      refine (StateT.run_bind (writeEach out context extension rest : StateM Workspace _) _
        { w with files }).trans ?_
      dsimp only
      rcases (writeEach out context extension rest : StateM Workspace _).run { w with files } with
        ⟨written, w'⟩
      cases written <;> rfl

/-- A successful writing is one of the first script and one of the others. -/
theorem writeEach_cons_ok {name : String} {body : List Command} {rest : List (String × List Command)}
    {w w' : Workspace} {paths : List String}
    (h : (writeEach out context extension ((name, body) :: rest) : StateM Workspace _).run w =
      (.ok paths, w')) :
    ∃ files others, w.files.writeText (scriptPath out context name extension) (render body) = .ok files ∧
      (writeEach out context extension rest : StateM Workspace _).run { w with files } =
        (.ok others, w') ∧
      paths = scriptPath out context name extension :: others := by
  rw [run_writeEach_cons] at h
  split at h
  · cases h
  split at h
  · cases h
  · rename_i files hfiles
    dsimp only at h
    rcases hrest : (writeEach out context extension rest : StateM Workspace _).run { w with files } with
      ⟨written, t⟩
    rw [hrest] at h
    cases written with
    | error e => cases h
    | ok others =>
      cases h
      exact ⟨files, others, hfiles, hrest, rfl⟩

section Plain

variable (hcontext : Path.FileName context.toList) (hextension : extension ≠ "")
  (hslash : '/' ∉ extension.toList)
include hcontext hextension

theorem writeEach_paths {scripts : List (String × List Command)}
    (hnames : ∀ x ∈ scripts, Path.PlainName x.1.toList) {w w' : Workspace} {paths : List String}
    (h : (writeEach out context extension scripts : StateM Workspace _).run w = (.ok paths, w')) :
    paths = scripts.map fun x => contextDirectory out context ++ "/" ++ (x.1 ++ "." ++ extension) := by
  induction scripts generalizing w paths with
  | nil => cases h; rfl
  | cons x rest ih =>
    obtain ⟨hx, hothers⟩ := List.forall_mem_cons.mp hnames
    obtain ⟨files, others, -, hrest, rfl⟩ := writeEach_cons_ok h
    rw [List.map_cons, scriptPath_plain hcontext hx hextension]
    exact congrArg _ (ih hothers hrest)

include hslash

/-- What is in another file of the directory stays there. -/
theorem writeEach_keeps {scripts : List (String × List Command)}
    (hnames : ∀ x ∈ scripts, Path.PlainName x.1.toList) {w w' : Workspace} {paths : List String}
    (h : (writeEach out context extension scripts : StateM Workspace _).run w = (.ok paths, w'))
    {other text : String} (hother : Path.FileName other.toList)
    (hfresh : ∀ x ∈ scripts, x.1 ++ "." ++ extension ≠ other)
    (hread : w.files.readText (contextDirectory out context ++ "/" ++ other) = .ok text) :
    w'.files.readText (contextDirectory out context ++ "/" ++ other) = .ok text := by
  induction scripts generalizing w paths with
  | nil => cases h; exact hread
  | cons x rest ih =>
    obtain ⟨hx, hothers⟩ := List.forall_mem_cons.mp hnames
    obtain ⟨hne, hfresh⟩ := List.forall_mem_cons.mp hfresh
    obtain ⟨files, others, hwrite, hrest, -⟩ := writeEach_cons_ok h
    rw [scriptPath_plain hcontext hx hextension] at hwrite
    have hkept := FileTree.readText_kept (fileName_script hx.toFileName hslash) hother hne hwrite hread
    exact ih hothers hrest hfresh hkept

/-- Scripts with different names are all read back. -/
theorem writeEach_reads {scripts : List (String × List Command)}
    (hnames : ∀ x ∈ scripts, Path.PlainName x.1.toList) (hnodup : (scripts.map Prod.fst).Nodup)
    {w w' : Workspace} {paths : List String}
    (h : (writeEach out context extension scripts : StateM Workspace _).run w = (.ok paths, w')) :
    ∀ x ∈ scripts,
      w'.files.readText (contextDirectory out context ++ "/" ++ (x.1 ++ "." ++ extension)) =
        .ok (render x.2) := by
  induction scripts generalizing w paths with
  | nil => exact fun x hx => absurd hx List.not_mem_nil
  | cons x rest ih =>
    obtain ⟨hx, hothers⟩ := List.forall_mem_cons.mp hnames
    obtain ⟨hfresh, hnodup⟩ := List.nodup_cons.mp hnodup
    obtain ⟨files, others, hwrite, hrest, -⟩ := writeEach_cons_ok h
    rw [scriptPath_plain hcontext hx hextension] at hwrite
    intro y hy
    rcases List.mem_cons.mp hy with rfl | hy
    · -- the first file is there at once, and the others leave it alone
      refine writeEach_keeps hcontext hextension hslash hothers hrest
        (fileName_script hx.toFileName hslash) ?_ (FileTree.readText_written hwrite)
      intro z hz heq
      have hname : z.1 = y.1 := (String.append_left_inj _).mp ((String.append_left_inj _).mp heq)
      exact hfresh (hname ▸ List.mem_map_of_mem hz)
    · exact ih hothers hnodup hrest y hy

end Plain

/-! ## All scripts of a unit -/

theorem run_writeScripts_ok {c : Compilation} {w w' : Workspace} {paths : List String}
    (h : (writeScripts out c extension : StateM Workspace _).run w = (.ok paths, w')) :
    ∃ v, (writeEach out c.context extension c.scripts.toList : StateM Workspace _).run v =
      (.ok paths, w') := by
  rw [writeScripts, StateT.run_bind] at h
  rcases hdirectories : (Host.createDirectories (contextDirectory out c.context) :
    StateM Workspace _).run w with ⟨made, v⟩
  rw [hdirectories] at h
  cases made with
  | error e => cases h
  | ok _ => exact ⟨v, h⟩

/-- **Each script has a file of its own.**  Let the context and the scripts of a unit have names that
can be those of files, and let no script have a name with an extension.  Then the files are, in the
order of the scripts, those named after the scripts in the directory of the context.  No two are the
same, and once they are written without an error each holds the text of its script. -/
theorem writeScripts_files (out extension : String) (c : Compilation)
    (hcontext : Path.FileName c.context.toList)
    (hnames : ∀ name ∈ c.scripts.keys, Path.PlainName name.toList) (hextension : extension ≠ "")
    (hslash : '/' ∉ extension.toList) :
    let file := fun name => contextDirectory out c.context ++ "/" ++ (name ++ "." ++ extension)
    c.scripts.keys.map (scriptPath out c.context · extension) = c.scripts.keys.map file ∧
    (c.scripts.keys.map file).Nodup ∧
    ∀ (w w' : Workspace) (paths : List String),
      (writeScripts out c extension : StateM Workspace _).run w = (.ok paths, w') →
      paths = c.scripts.keys.map file ∧
      ∀ name body, c.scripts[name]? = some body → w'.files.readText (file name) = .ok (render body) := by
  intro file
  have hfile (a b : String) (heq : file a = file b) : a = b :=
    (String.append_left_inj _).mp <| (String.append_left_inj _).mp <| (String.append_right_inj _).mp heq
  have hkeys : c.scripts.toList.map Prod.fst = c.scripts.keys := Std.TreeMap.map_fst_toList_eq_keys
  have hnodup : c.scripts.keys.Nodup := Std.TreeMap.nodup_keys
  have hplain : ∀ x ∈ c.scripts.toList, Path.PlainName x.1.toList := fun x hx =>
    hnames x.1 (hkeys ▸ List.mem_map_of_mem hx)
  refine ⟨?_, List.Pairwise.map file (fun a b hab heq => hab (hfile a b heq)) hnodup, ?_⟩
  · exact List.map_congr_left fun name hname => scriptPath_plain hcontext (hnames name hname) hextension
  · intro w w' paths hrun
    obtain ⟨v, hrun⟩ := run_writeScripts_ok hrun
    constructor
    · rw [writeEach_paths hcontext hextension hplain hrun, ← hkeys, List.map_map]
      rfl
    · intro name body hbody
      exact writeEach_reads hcontext hextension hslash hplain (hkeys ▸ hnodup) hrun (name, body)
        (Std.TreeMap.mem_toList_iff_getElem?_eq_some.mpr hbody)

/-- Two scripts, one of which has the name of the unit. -/
def pairCompilation : Compilation where
  context := "main"
  scripts := (∅ : Scripts (List Command)).insert "main" [.summon "main", .kill "main"]
    |>.insert "add" [.declare "a_1"]
  warnings := []

/-- Both are written under `out` and read back. -/
theorem writeScripts_files_pair :
    Path.FileName "main".toList ∧ (∀ name ∈ pairCompilation.scripts.keys, Path.PlainName name.toList) ∧
    ∃ w', (writeScripts "out" pairCompilation "cmd" : StateM Workspace _).run {} =
        (.ok ["out/main/add.cmd", "out/main/main.cmd"], w') ∧
      w'.files.readText "out/main/add.cmd" = .ok "declare-register a_1\n" ∧
      w'.files.readText "out/main/main.cmd" = .ok "frame-summon main\nframe-kill main\n" := by
  have hcontext : Path.FileName "main".toList := ⟨by decide, by decide, by decide, by decide⟩
  have hkeys : pairCompilation.scripts.keys = ["add", "main"] := by decide +kernel
  have hnames : ∀ name ∈ pairCompilation.scripts.keys, Path.PlainName name.toList := by
    rw [hkeys]
    rintro name (_ | ⟨_, _ | ⟨_, ⟨⟩⟩⟩) <;>
      exact ⟨⟨by decide, by decide, by decide, by decide⟩, by decide⟩
  obtain ⟨-, -, hfiles⟩ :=
    writeScripts_files "out" "cmd" pairCompilation hcontext hnames (by decide) (by decide)
  have hok : ((writeScripts "out" pairCompilation "cmd" : StateM Workspace _).run {}).1.toOption =
      some ["out/main/add.cmd", "out/main/main.cmd"] := by decide +kernel
  rcases hrun : (writeScripts "out" pairCompilation "cmd" : StateM Workspace _).run {} with ⟨r, w'⟩
  rw [hrun] at hok
  cases r with
  | error e => cases hok
  | ok paths =>
    cases hok
    obtain ⟨-, hreads⟩ := hfiles _ _ _ hrun
    refine ⟨hcontext, hnames, w', rfl, ?_, ?_⟩
    · exact hreads "add" [.declare "a_1"] (by decide +kernel)
    · exact hreads "main" [.summon "main", .kill "main"] (by decide +kernel)

/-- The file `a.b.ts` with `function a() {}` -/
def dottedUnit : Source.CompilationUnit :=
  .ofFile "a.b.ts" [.function ⟨0, some "a", [], some [], false, 0⟩] 1

/-- **A unit named after a file with two points loses a script.**  The primary script of `a.b.ts` is
`a.b`, and its file is that of the function `a`, which is overwritten. -/
theorem writeScripts_collide :
    let compiled := (Session.compile {} dottedUnit).1.toOption
    let written := compiled.map fun c => (writeScripts "out" c "cmd" : StateM Workspace _).run {}
    compiled.map (fun c => (c.context, c.scripts.keys)) = some ("a.b", ["a", "a.b"]) ∧
    written.bind (·.1.toOption) = some ["out/a.b/a.cmd", "out/a.b/a.cmd"] ∧
    written.map (·.2.files.files) =
      some [("out/a.b/a.cmd", "frame-summon a.b\nframe-kill a.b\n")] := by
  refine ⟨?_, ?_, ?_⟩ <;> decide +kernel

end Bundle

end FrameScript
