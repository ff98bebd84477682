import SqlOutline.CommandLine.LogFilter

/-!
# A run of the program

What the program prints for its arguments and what it finds around it, and its exit status. The
report ends with a line break. The log level has no bearing on the report, but without a valid
filter for the log there is none.
-/

namespace SqlOutline

/-- How a run ends. -/
inductive Outcome where
  | report (output : String)
  | refused (error : UsageError)
  | failed (error : RunError)
  deriving DecidableEq, Repr

namespace Outcome

/-- The exit status of the program. -/
def exitStatus : Outcome → UInt8
  | .report _ => 0
  | .refused _ => 2
  | .failed _ => 2

end Outcome

/-- The text with a line break at its end. -/
def endLine (text : String) : String :=
  if text.toList.getLast? = some '\n' then text else text ++ "\n"

namespace Options

/-- The places that the options name for the statement. -/
def sources (o : Options) (w : Surroundings) : InputSources :=
  { argument := o.statement
    file := o.file.map fun path => (path, w.contentsOf path)
    standardInput := w.standardInput }

/-- How a run with given options ends. No place is looked at if the filter of the
log is refused. -/
def run (o : Options) (w : Surroundings) : Outcome :=
  match o.logFilterError? w with
  | some error => .failed error
  | none =>
    match (o.sources w).read with
    | .ok sql => .report (endLine (Report.onText sql o.reportFormat o.pretty))
    | .error error => .failed (.input error)

end Options

/-- How a run with given arguments ends. -/
def runArguments (arguments : List String) (w : Surroundings) : Outcome :=
  match Options.ofArguments arguments with
  | .ok options => options.run w
  | .error error => .refused error

end SqlOutline
