/-
  What programs ask of the system they run on: reading and writing files, and printing.

  Programs are written against `Host`, so the same program runs on a real file system and on a
  tree of files in memory.
-/

namespace FrameScript

/-- Why a file cannot be read or written. -/
inductive FileError where
  | notFound
  | alreadyExists
  | notADirectory
  | isADirectory
  | nameTooLong
  /-- A path cannot hold the character U+0000. -/
  | zeroInPath
  /-- Any other reason, as the system words it. -/
  | other (text : String)
deriving Repr, DecidableEq

def FileError.message : FileError → String
  | .notFound => "No such file or directory (os error 2)"
  | .alreadyExists => "File exists (os error 17)"
  | .notADirectory => "Not a directory (os error 20)"
  | .isADirectory => "Is a directory (os error 21)"
  | .nameTooLong => "File name too long (os error 36)"
  | .zeroInPath => "file name contained an unexpected NUL byte"
  | .other text => text

/-- A system with files and a console. -/
class Host (m : Type → Type) extends Monad m where
  /-- The text of a file. -/
  readText : String → m (Except FileError String)
  /-- Make a directory and all directories around it that are missing. -/
  createDirectories : String → m (Except FileError Unit)
  /-- Replace the text of a file; its directory has to be there. -/
  writeText : String → String → m (Except FileError Unit)
  /-- Print a line. -/
  print : String → m Unit
  /-- Print a line to the error stream. -/
  report : String → m Unit

/-- A program that may stop early runs on the same system. -/
instance {ε : Type} {m : Type → Type} [Host m] : Host (ExceptT ε m) where
  readText p := ExceptT.lift (Host.readText p)
  createDirectories p := ExceptT.lift (Host.createDirectories p)
  writeText p text := ExceptT.lift (Host.writeText p text)
  print line := ExceptT.lift (Host.print line)
  report line := ExceptT.lift (Host.report line)

end FrameScript
