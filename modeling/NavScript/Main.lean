import NavScript.Check.Run

/-!
# The command line
-/

namespace NavScript

/-- How a failure of the system to read a file is told. -/
def ReadFailure.ofError : IO.Error → ReadFailure
  | .noFileOrDirectory _ _ _ => missing
  | .inappropriateType _ code _ => if code == 21 then isDirectory else notDirectory
  | .permissionDenied _ _ _ => other "Permission denied (os error 13)"
  | .invalidArgument _ code detail => if code == 36 then tooLong else other detail
  | .userError _ => notText
  | e => other (toString e)

def readFile (path : String) : IO (Except ReadFailure String) := do
  match ← (IO.FS.readFile path).toBaseIO with
  | .ok text => return .ok text
  | .error e => return .error (.ofError e)

end NavScript

def main (arguments : List String) : IO UInt32 := do
  let outcome ← NavScript.check NavScript.readFile arguments
  IO.print outcome.out
  IO.eprint outcome.err
  return outcome.status.toUInt32
