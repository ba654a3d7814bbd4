/-
  A tree of files in memory.

  Paths are followed segment by segment from the working directory: each segment but the last has
  to name a directory.  The directories above the working directory are taken to exist.  An entry
  is kept under its path without `.`, `..` and doubled slashes, so two ways to write one place are
  one place.
-/
import FrameScript.Host
import FrameScript.Path
import Std.Data.TreeMap

namespace FrameScript

/-- A file with its text, or a directory. -/
inductive Entry where
  | file (text : String)
  | directory
deriving Repr, DecidableEq

/-- The entries under the working directory by their paths, and those made elsewhere. -/
structure FileTree where
  entries : Std.TreeMap String Entry := ∅
deriving Inhabited

/-- A place in a tree: the segments that lead to it, the last one first.  The working directory is
the empty list, the root of the file system has one empty segment. -/
abbrev Location := List String

namespace Location

def root : Location := [""]

/-- The directory around a place. -/
def up : Location → Location
  | [] => [".."]
  | ".." :: rest => ".." :: ".." :: rest
  | [""] => [""]
  | _ :: rest => rest

/-- The path under which the entry of a place is kept. -/
def path (place : Location) : String := String.intercalate "/" place.reverse

/-- The working directory, the directories around it and the root are always there. -/
def isFixed (place : Location) : Bool := place = root || place.all (· = "..")

end Location

namespace FileTree

/-- The longest segment that a file name may be, in bytes. -/
def maxNameBytes : Nat := 255

/-- The longest path that can be followed, in bytes. -/
def maxPathBytes : Nat := 4095

/-- The segments of a path, without empty ones. -/
def segments (p : String) : List String :=
  ((p.toList.splitOn '/').map String.ofList).filter (· ≠ "")

def entry? (t : FileTree) (place : Location) : Option Entry :=
  if place.isFixed then some .directory else t.entries[place.path]?

def put (t : FileTree) (place : Location) (entry : Entry) : FileTree :=
  { t with entries := t.entries.insert place.path entry }

/-- A place that has to be a directory. -/
def directory (t : FileTree) (place : Location) : Except FileError Location :=
  match t.entry? place with
  | some .directory => .ok place
  | some (.file _) => .error .notADirectory
  | none => .error .notFound

/-- One segment from a place, which has to be a directory. -/
def descend (t : FileTree) (place : Location) (segment : String) : Except FileError Location := do
  let place ← t.directory place
  if segment = "." then return place
  else if segment = ".." then return place.up
  else if maxNameBytes < segment.utf8ByteSize then throw .nameTooLong
  else return segment :: place

/-- What a path leads to: the place, and whether it is named by a segment of its own rather than
by `.`, `..` or nothing. -/
def locate (t : FileTree) (p : String) : Except FileError (Location × Bool) := do
  if p.toList.contains '\x00' then throw .zeroInPath
  if p = "" then throw .notFound
  if maxPathBytes < p.utf8ByteSize then throw .nameTooLong
  let start := if p.toList.head? = some '/' then Location.root else []
  let steps := segments p
  let place ← steps.foldlM t.descend start
  return (place, match steps.getLast? with
    | none => false
    | some last => last ≠ "." && last ≠ "..")

/-- The path ends in a slash. -/
def endsInSlash (p : String) : Bool := p.toList.getLast? = some '/'

/-- The text of a file. -/
def readText (t : FileTree) (p : String) : Except FileError String := do
  let (place, _) ← t.locate p
  match t.entry? place with
  | none => throw .notFound
  | some .directory => throw .isADirectory
  | some (.file text) => if endsInSlash p then throw .notADirectory else return text

/-- The tree with a new text in a file. -/
def writeText (t : FileTree) (p text : String) : Except FileError FileTree := do
  let (place, named) ← t.locate p
  if !named || endsInSlash p then throw .isADirectory
  match t.entry? place with
  | some .directory => throw .isADirectory
  | _ => return t.put place (.file text)

/-- The tree with a new directory, whose own directory has to be there. -/
def makeDirectory (t : FileTree) (p : String) : Except FileError FileTree := do
  let (place, _) ← t.locate p
  match t.entry? place with
  | some _ => throw .alreadyExists
  | none => return t.put place .directory

/-- The path leads to a directory. -/
def isDirectory (t : FileTree) (p : String) : Bool :=
  match t.locate p with
  | .ok (place, _) => t.entry? place = some .directory
  | .error _ => false

/-- Make the first of some nested directories, given innermost first.  Where its own directory is
missing, that one is made before; what has been made stays, also if the rest fails. -/
def makeNested (t : FileTree) : List String → Except FileError Unit × FileTree
  | [] => (.error .notFound, t)
  | p :: around =>
    if p = "" then (.ok (), t)
    else
      let settle (t : FileTree) (e : FileError) : Except FileError Unit × FileTree :=
        (if t.isDirectory p then .ok () else .error e, t)
      match t.makeDirectory p with
      | .ok t => (.ok (), t)
      | .error .notFound =>
        match t.makeNested around with
        | (.error e, t) => (.error e, t)
        | (.ok _, t) =>
          match t.makeDirectory p with
          | .ok t => (.ok (), t)
          | .error e => settle t e
      | .error e => settle t e

/-- Make a directory and all directories around it that are missing. -/
def createDirectories (t : FileTree) (p : String) : Except FileError Unit × FileTree :=
  t.makeNested (Path.ancestors p)

/-- The files under the working directory with their texts, in the order of their paths. -/
def files (t : FileTree) : List (String × String) :=
  t.entries.toList.filterMap fun (p, entry) =>
    let outside := p.toList.head? = some '/' || (segments p).head? = some ".."
    match entry with
    | .file text => if outside then none else some (p, text)
    | .directory => none

/-- A tree that holds some files and the directories around them. -/
def ofFiles (files : List (String × String)) : FileTree :=
  let add (t : FileTree) (file : String × String) : FileTree :=
    let t := (t.createDirectories ((Path.parent? file.1).getD "")).2
    (t.writeText file.1 file.2).toOption.getD t
  files.foldl add {}

end FileTree

/-- A tree of files and what has been printed. -/
structure Workspace where
  files : FileTree := {}
  output : String := ""
  errors : String := ""
deriving Inhabited

instance : Host (StateM Workspace) where
  readText p := return (← get).files.readText p
  createDirectories p := modifyGet fun w =>
    let (result, files) := w.files.createDirectories p
    (result, { w with files })
  writeText p text := modifyGet fun w =>
    match w.files.writeText p text with
    | .ok files => (.ok (), { w with files })
    | .error e => (.error e, w)
  print line := modify fun w => { w with output := w.output ++ line ++ "\n" }
  report line := modify fun w => { w with errors := w.errors ++ line ++ "\n" }

end FrameScript
