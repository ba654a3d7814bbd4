/-
  Paths as texts of segments divided by slashes.

  Nothing here looks at a file system: a path is taken apart by its text alone.  Slashes and
  `.` segments at the end do not count, and a path that ends in `..` names no file.
-/

namespace FrameScript.Path

/-- A reversed path without the slashes and `.` segments at its end. -/
def dropTrailing : List Char → List Char
  | '/' :: rest => dropTrailing rest
  | '.' :: '/' :: rest => dropTrailing rest
  | rest => rest

/-- A path as what stands before its file name, with the slash, and the file name.  There is none
when the last segment is missing, `.` or `..`. -/
def splitName? (p : List Char) : Option (List Char × List Char) :=
  let reversed := dropTrailing p.reverse
  let name := (reversed.takeWhile (· ≠ '/')).reverse
  if name = [] ∨ name = ['.'] ∨ name = ['.', '.'] then none
  else some ((reversed.dropWhile (· ≠ '/')).reverse, name)

/-- A file name as its stem and what follows its last point.  A point that opens the name divides
nothing. -/
def splitPoint (name : List Char) : List Char × Option (List Char) :=
  match name.reverse.dropWhile (· ≠ '.') with
  | [] | [_] => (name, none)
  | _ :: stem => (stem.reverse, some (name.reverse.takeWhile (· ≠ '.')).reverse)

/-- The last segment of a path, if it names a file. -/
def fileName? (p : String) : Option String :=
  (splitName? p.toList).map fun (_, name) => String.ofList name

/-- The file name without its extension. -/
def fileStem? (p : String) : Option String :=
  (splitName? p.toList).map fun (_, name) => String.ofList (splitPoint name).1

/-- What follows the last point of the file name. -/
def extension? (p : String) : Option String :=
  (splitName? p.toList).bind fun (_, name) => (splitPoint name).2.map String.ofList

/-- The path up to the point before its extension: the text loses as many characters at its end as
the extension has. -/
def dropExtension (p : List Char) : List Char :=
  match (splitName? p).bind fun (_, name) => (splitPoint name).2 with
  | some old => p.take (p.length - old.length)
  | none => p

/-- The path with another extension; an empty one takes the old one away.  A path without a file
name stays as it is.  The old extension goes first and leaves its point, so `..b` turns into `..`,
which names no file, and gets no new one. -/
def withExtension (p extension : String) : String :=
  let bare := dropExtension p.toList
  match splitName? bare with
  | none => String.ofList bare
  | some (directory, name) =>
    String.ofList (directory ++ (splitPoint name).1)
      ++ (if extension = "" then "" else "." ++ extension)

/-- A path seen from a directory.  A path that opens with a slash stands for itself. -/
def join (directory p : String) : String :=
  if p.toList.head? = some '/' then p
  else if directory = "" ∨ directory.toList.getLast? = some '/' then directory ++ p
  else directory ++ "/" ++ p

/-- The path of the enclosing directory; it is empty for a single segment. -/
def parent? (p : String) : Option String :=
  match dropTrailing p.toList.reverse with
  | [] => none
  | reversed =>
    let up := dropTrailing (reversed.dropWhile (· ≠ '/'))
    if up = [] ∧ p.toList.head? = some '/' then some "/"
    else some (String.ofList up.reverse)

/-- A path and the directories around it, innermost first, at most `depth` of them. -/
def ancestorsWithin : (depth : Nat) → String → List String
  | 0, p => [p]
  | depth + 1, p =>
    match parent? p with
    | some up => p :: ancestorsWithin depth up
    | none => [p]

/-- A path and all directories around it, innermost first.  Each is shorter than the one before. -/
def ancestors (p : String) : List String := ancestorsWithin p.length p

/-- The text after the last slash. -/
def lastSegment (p : String) : List Char :=
  (p.toList.reverse.takeWhile (· ≠ '/')).reverse

end FrameScript.Path
