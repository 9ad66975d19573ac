import Backend65816.Command.Run

/-!
# Command line

Runs the command over the files of the machine.
-/

namespace Backend65816

def fileError (path : String) : IO.Error → FileError
  | .noFileOrDirectory _ _ _ => .notFound path
  | error => .other (toString error)

def machineFiles : FileAccess IO where
  read path := do
    try return .ok (← IO.FS.readFile path) catch error => return .error (fileError path error)
  write path lines := do
    try
      IO.FS.writeFile path (String.join (lines.map (· ++ "\n")))
      return .ok ()
    catch error => return .error (fileError path error)

end Backend65816

open Backend65816 in
def main (arguments : List String) : IO UInt32 := do
  let outcome ← Command.run machineFiles arguments
  let output ← IO.getStdout
  let errors ← IO.getStderr
  outcome.errors.forM errors.putStrLn
  outcome.output.forM output.putStrLn
  return if outcome.succeeds then 0 else 1
