/-
  The two programs.

  `compile` lowers source documents into a bundle of scripts, one session for all of them, so that
  register names stay apart across units.  `dump` prints the unit of one document as JSON.  Both
  answer with an exit code: 2 for arguments that are not understood, 1 for a failure, and 101 when
  the program breaks off.
-/
import FrameScript.Bundle
import FrameScript.CommandLine.Arguments
import FrameScript.Document.Load
import FrameScript.Source.Tree

namespace FrameScript.CommandLine

/-- Why a program stops before its end. -/
inductive Stop where
  /-- A failure that is reported. -/
  | failure (text : String)
  /-- The program breaks off. -/
  | abort
deriving Repr, DecidableEq

/-! ## Options -/

/-- The options of the compiler. -/
structure CompileOptions where
  inputs : List String
  outDir : String
  extension : String
  manifest : Bool
  denyWarnings : Bool
deriving Repr, DecidableEq

def CompileOptions.spec : Spec where
  valued := ["out-dir", "extension"]
  flags := ["manifest", "deny-warnings"]
  letters := [('o', "out-dir")]

/-- Refuse an empty path. -/
def nonempty? (path : String) : Option String := if path = "" then none else some path

def CompileOptions.read? (arguments : List String) : Option CompileOptions := do
  let items ← CompileOptions.spec.items? arguments
  let inputs ← (CommandLine.inputs items).mapM nonempty?
  guard (!inputs.isEmpty)
  let outDir ← nonempty? ((← value? items "out-dir").getD "out")
  let extension := (← value? items "extension").getD "cmd"
  let manifest ← flag? items "manifest"
  let denyWarnings ← flag? items "deny-warnings"
  return { inputs, outDir, extension, manifest, denyWarnings }

/-- The options of the dump. -/
structure DumpOptions where
  input : String
  compact : Bool
deriving Repr, DecidableEq

def DumpOptions.spec : Spec where
  valued := ["input"]
  flags := ["compact"]
  letters := [('i', "input")]

def DumpOptions.read? (arguments : List String) : Option DumpOptions := do
  let items ← DumpOptions.spec.items? arguments
  guard (CommandLine.inputs items).isEmpty
  let input ← nonempty? (← ← value? items "input")
  let compact ← flag? items "compact"
  return { input, compact }

/-! ## Running -/

section Run

variable {m : Type → Type} [Host m]

/-- How far the compiler has come. -/
structure Progress where
  session : Session := {}
  entries : List Bundle.UnitEntry := []
  failed : Nat := 0
  warned : Nat := 0

/-- Stop with a message, unless the host has done what it was asked for. -/
def orStop {α : Type} (what : String) : Except FileError α → ExceptT Stop m α
  | .ok a => return a
  | .error e => throw (.failure s!"{what}: {e.message}")

/-- Compile one document and write its scripts.  A unit that cannot be lowered is counted, and the
next one goes on. -/
def compileInput (options : CompileOptions) (progress : Progress) (input : String) :
    ExceptT Stop m Progress := do
  let source ← orStop s!"reading {input}" (← Host.readText input)
  let unit ← match Document.loadText source (Document.fallbackName input) with
    | .ok unit => pure unit
    | .error e => throw (.failure s!"loading {input}: {e.message}")
  match progress.session.compile unit with
  | (.error e, session) =>
    Host.report s!"Compilation error: {e.text}"
    return { progress with session, failed := progress.failed + 1 }
  | (.ok c, session) =>
    c.warnings.forM fun warning => Host.report warning.text
    match ← Bundle.writeScripts options.outDir c options.extension with
    | .error .slashInExtension => throw .abort
    | .error (.file e) => throw (.failure s!"writing scripts for {input}: {e.message}")
    | .ok written =>
      let directory := Bundle.contextDirectory options.outDir c.context
      Host.print s!"Compiled {input} -> {directory} ({written.length} scripts)"
      return { progress with
        session
        entries := progress.entries ++ [.ofCompilation input c]
        warned := progress.warned + c.warnings.length }

/-- Write the manifest into the output directory. -/
def writeManifest (options : CompileOptions) (entries : List Bundle.UnitEntry) :
    ExceptT Stop m Unit := do
  orStop s!"creating {options.outDir}" (← Host.createDirectories options.outDir)
  let path := Path.join options.outDir Bundle.manifestFile
  orStop s!"creating {path}" (← Host.writeText path (Bundle.manifest entries))

/-- Compile all inputs in order. -/
def compileAll (options : CompileOptions) : ExceptT Stop m Unit := do
  let progress ← options.inputs.foldlM (compileInput options) {}
  if options.manifest then writeManifest options progress.entries
  if 0 < progress.failed then
    throw (.failure s!"{progress.failed} of {options.inputs.length} unit(s) failed to compile")
  if options.denyWarnings && 0 < progress.warned then
    throw (.failure s!"{progress.warned} warning(s) reported and --deny-warnings is set")

/-- The compiler. -/
def compile (arguments : List String) : m Nat := do
  match CompileOptions.read? arguments with
  | none => return 2
  | some options =>
    match ← (compileAll options).run with
    | .ok _ => return 0
    | .error .abort => return 101
    | .error (.failure text) =>
      Host.report s!"Error: {text}"
      return 1

/-- The dump. -/
def dump (arguments : List String) : m Nat := do
  match DumpOptions.read? arguments with
  | none => return 2
  | some options =>
    match ← Host.readText options.input with
    | .error e =>
      Host.report s!"Error reading {options.input}: {e.message}"
      return 1
    | .ok source =>
      match Document.loadText source (Document.fallbackName options.input) with
      | .error e =>
        Host.report s!"Error loading {options.input}: {e.message}"
        return 1
      | .ok unit =>
        let tree := unit.toJson
        Host.print (if options.compact then tree.compact else tree.pretty)
        return 0

end Run

end FrameScript.CommandLine
