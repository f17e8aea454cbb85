/-
The program as it runs on a system.
-/
import ResourceSql.CommandLine.Program

namespace ResourceSql.CommandLine

/-- The message of an error that a file operation gives. -/
def systemMessage : IO.Error → String
  | .noFileOrDirectory .. => FileError.missing.message
  | .alreadyExists .. => FileError.present.message
  | .inappropriateType _ code _ =>
    if code = 21 then FileError.isDirectory.message else FileError.notDirectory.message
  | e => toString e

/-- What a file operation gives, or the message of its error. -/
def attemptAction {α : Type} (action : IO α) : IO (Except String α) := do
  try
    return .ok (← action)
  catch e =>
    return .error (systemMessage e)

/-- The files of the system. -/
def systemFiles : FileAccess IO where
  read path := attemptAction (IO.FS.readFile path)
  makeDirectory path := attemptAction (IO.FS.createDirAll path)
  write path text := attemptAction (IO.FS.writeFile path text)

/-- Runs the program on the files of the system. -/
def runOnSystem (arguments : List String) : IO UInt32 := do
  let outcome ← program systemFiles (← IO.getEnv "QUERY_ENGINE_CONFIGURATION") arguments
  IO.print outcome.output
  match outcome.failure with
  | some failure => IO.eprintln failure.message
  | none => if outcome.exitCode = 2 then IO.eprint usage
  return outcome.exitCode.toUInt32

end ResourceSql.CommandLine

def main (arguments : List String) : IO UInt32 := ResourceSql.CommandLine.runOnSystem arguments
