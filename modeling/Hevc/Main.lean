import Hevc.Command.Run

/-!
# The program

Reads the command line, the input and writes the output and the log. What is done with them is
said in `Hevc.Command.Run`.
-/

namespace Hevc

/-- The fault that a failed operation on a file stands for. -/
def faultOf : IO.Error → Fault
  | .noFileOrDirectory .. => .file .notFound
  | .inappropriateType _ code details
  | .invalidArgument _ code details
  | .permissionDenied _ code details
  | .resourceExhausted _ code details => .surroundings .other s!"{details} (os error {code})"
  | e => .surroundings .other (toString e)

/-- Does an operation on a file and keeps its fault. -/
def attempt {α : Type} (operation : IO α) : IO (Except Fault α) := do
  try
    return .ok (← operation)
  catch e =>
    return .error (faultOf e)

/-- Writes the lines that a verbosity shows. -/
def printLog (verbosity : Nat) (events : List Log.Event) : IO Unit :=
  (Log.lines verbosity events).forM (IO.eprintln ·)

/-- Reports a failure and gives its exit code. -/
def reportFailure (failure : Failure) : IO UInt32 := do
  IO.eprintln s!"Error: {failure.message}"
  return 1

/-- Writes an output and reports on it. -/
def storeFile (verbosity : Nat) (output : Command.Output) : IO UInt32 := do
  match ← attempt (IO.FS.Handle.mk output.path .write) with
  | .error fault => reportFailure (.io fault)
  | .ok handle =>
    match ← attempt (do handle.write (ByteArray.mk output.content.toArray); handle.flush) with
    | .error fault =>
      printLog verbosity (Command.reportedWithin Command.bufferSize output.parts)
      reportFailure (.io (output.refused fault))
    | .ok _ =>
      printLog verbosity (output.parts.map (·.event))
      match output.ending with
      | .ok written =>
        printLog verbosity [written]
        return 0
      | .error cause => reportFailure (.io cause)

/-- Does what a command asks for. -/
def runOnFiles (command : Command) (verbosity : Nat) : IO UInt32 := do
  match ← attempt (IO.FS.readBinFile command.input) with
  | .error fault => reportFailure (.io fault)
  | .ok data =>
    let performance := command.perform data.toList
    printLog verbosity performance.events
    match performance.result with
    | .error failure => reportFailure failure
    | .ok (.record _) => return 0
    | .ok (.output output) => storeFile verbosity output

/-- How the program is called. -/
def usageText : String :=
  "usage: hvcc [-v] build|annexb|split <input> -o <output>\n       hvcc [-v] inspect <input>"

end Hevc

/-- The program. -/
def main (arguments : List String) : IO UInt32 := do
  match Hevc.Arguments.parse arguments with
  | .usage =>
    IO.eprintln Hevc.usageText
    return 2
  | .info =>
    IO.println Hevc.usageText
    return 0
  | .run command verbosity => Hevc.runOnFiles command verbosity
