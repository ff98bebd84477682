import SqlOutline.CommandLine

/-!
# The program

Reads what the options ask for, prints the report, and ends with the exit status.
-/

namespace SqlOutline

/-- The failure that the system reports for a file or stream. -/
def readFailure : IO.Error → ReadFailure
  | .noFileOrDirectory .. => .noSuchFile
  | .permissionDenied .. => .system "Permission denied" 13
  | .inappropriateType _ code details => .system details code.toNat
  | error => .system error.toString 5

/-- The bytes of a file. -/
def readFileContents (path : String) : IO Contents := do
  try
    return .ok (← IO.FS.readBinFile path)
  catch error =>
    return .error (readFailure error)

/-- The bytes of the standard input. -/
def readStandardInput : IO Contents := do
  let stdin ← IO.getStdin
  let mut bytes := ByteArray.empty
  try
    repeat
      let chunk ← stdin.read 65536
      if chunk.isEmpty then break
      bytes := bytes ++ chunk
    return .ok bytes
  catch error =>
    return .error (readFailure error)

/-- The variable of the environment that may hold a filter for the log. -/
def logFilterVariable : String := "SQLSCOPE_LOG"

/-- Runs the program with options, reading only the place that they choose. It writes no lines
to a log, so every filter will do. -/
def runProgram (options : Options) : IO Outcome := do
  let logFilter ← IO.getEnv logFilterVariable
  let runWith (contents standardInput : Contents) : Outcome :=
    options.run ⟨fun _ => none, logFilter, fun _ => contents, standardInput⟩
  match options.file, options.statement with
  | some path, _ => return runWith (← readFileContents path) (.ok .empty)
  | none, some _ => return runWith (.error .noSuchFile) (.ok .empty)
  | none, none => return runWith (.error .noSuchFile) (← readStandardInput)

end SqlOutline

/-- Prints the report on the standard output, or a message on the standard error. -/
def main (arguments : List String) : IO UInt32 := do
  let outcome ←
    match SqlOutline.Options.ofArguments arguments with
    | .ok options => SqlOutline.runProgram options
    | .error error => pure (SqlOutline.Outcome.refused error)
  match outcome with
  | .report output => IO.print output
  | .refused error => IO.eprintln ("error: " ++ error.message)
  | .failed error => IO.eprintln error.message
  return outcome.exitStatus.toUInt32
