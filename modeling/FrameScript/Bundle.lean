/-
  Compiled scripts on disk.

  Each script of a unit is a file in the directory of the unit's context, so that the path in an
  `invoke` is also the path of a file.  A manifest beside the directories lists the units with their
  scripts and warnings.
-/
import FrameScript.Compile
import FrameScript.Host
import FrameScript.Json.Writer
import FrameScript.Path

namespace FrameScript.Bundle

open Json (Value)

/-- What the manifest says about a unit. -/
structure UnitEntry where
  context : String
  /-- The path of the source document. -/
  source : String
  /-- The names of the scripts, in order. -/
  scripts : List String
  warnings : List Diagnostic
deriving Repr, DecidableEq

def UnitEntry.ofCompilation (source : String) (c : Compilation) : UnitEntry :=
  { context := c.context, source, scripts := c.scripts.keys, warnings := c.warnings }

def UnitEntry.toJson (e : UnitEntry) : Value :=
  .object
    [("context", .string e.context), ("source", .string e.source),
      ("scripts", .array (e.scripts.map .string)),
      ("warnings", .array (e.warnings.map Diagnostic.toJson))]

def manifestFile : String := "manifest.json"

/-- The version of this program, as the manifest gives it. -/
def version : String := "0.1.0"

/-- The text of the manifest of some units. -/
def manifest (units : List UnitEntry) : String :=
  (Value.object
    [("version", .string version), ("format", .string "frame-commands-v1"),
      ("units", .array (units.map UnitEntry.toJson))]).pretty ++ "\n"

/-- Why scripts cannot be written. -/
inductive WriteError where
  | file (cause : FileError)
  /-- An extension that holds a slash is no extension: the program ends at once. -/
  | slashInExtension
deriving Repr, DecidableEq

/-- The directory of a unit's scripts. -/
def contextDirectory (out context : String) : String := Path.join out context

/-- The file of a script. -/
def scriptPath (out context name extension : String) : String :=
  Path.withExtension (Path.join (contextDirectory out context) name) extension

section Write

variable {m : Type → Type} [Host m]

/-- Write scripts in order and give the paths of their files.  The first failure ends the writing;
what has been written stays. -/
def writeEach (out context extension : String) :
    List (String × List Command) → m (Except WriteError (List String))
  | [] => return .ok []
  | (name, body) :: rest => do
    if extension.toList.contains '/' then return .error .slashInExtension
    let path := scriptPath out context name extension
    match ← Host.writeText path (render body) with
    | .error e => return .error (.file e)
    | .ok _ =>
      match ← writeEach out context extension rest with
      | .error e => return .error e
      | .ok paths => return .ok (path :: paths)

/-- Write every script of a compilation under the directory of its context. -/
def writeScripts (out : String) (c : Compilation) (extension : String) :
    m (Except WriteError (List String)) := do
  match ← Host.createDirectories (contextDirectory out c.context) with
  | .error e => return .error (.file e)
  | .ok _ => writeEach out c.context extension c.scripts.toList

end Write

end FrameScript.Bundle
