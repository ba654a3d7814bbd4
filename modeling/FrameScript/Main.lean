/-
  The command line.

  One executable holds both programs: called by a name that ends in `-dump` it prints the unit of a
  document, called by any other name it compiles.
-/
import FrameScript.CommandLine.Program

namespace FrameScript

/-- The error of a file operation. -/
def FileError.ofSystem : IO.Error → FileError
  | .noFileOrDirectory .. => .notFound
  | .alreadyExists .. => .alreadyExists
  | .inappropriateType _ code _ => if code = 20 then .notADirectory else .isADirectory
  | e@(.invalidArgument _ code _) => if code = 36 then .nameTooLong else .other (toString e)
  | e => .other (toString e)

/-- Run a file operation of the system. -/
def attempt {α : Type} (action : IO α) : IO (Except FileError α) := do
  try
    return .ok (← action)
  catch e => return .error (FileError.ofSystem e)

instance : Host IO where
  readText path := attempt (IO.FS.readFile path)
  createDirectories path := attempt (IO.FS.createDirAll path)
  writeText path text := attempt (IO.FS.writeFile path text)
  print line := IO.println line
  report line := IO.eprintln line

end FrameScript

open FrameScript in
/-- Run the program that the executable is called by; its answer is the exit code. -/
def main (arguments : List String) : IO UInt32 := do
  let name := (← IO.appPath).fileName.getD ""
  let code ←
    if name.endsWith "-dump" then CommandLine.dump arguments else CommandLine.compile arguments
  return code.toUInt32
