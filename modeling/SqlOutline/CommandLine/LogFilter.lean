import SqlOutline.CommandLine.Options
import SqlOutline.Input

/-!
# The filter of the log

Which lines are written to the log is told by a filter. The options may ask for one, and if
they do not then the environment may; if it is blank, or there is none, then warnings are
written. A filter is checked before anything else is done. What filters there are is not laid
down here: who reads them also says what is wrong with one.
-/

namespace SqlOutline

/-- What a run finds around it. -/
structure Surroundings where
  /-- What is wrong with a filter of the log, if anything. -/
  filterFault : String → Option String
  /-- The filter of the log that the environment asks for. -/
  logFilter : Option String
  contentsOf : String → Contents
  standardInput : Contents

/-- Why a run fails. -/
inductive RunError where
  | invalidLogFilter (filter : String) (cause : String)
  | input (error : InputError)
  deriving DecidableEq, Repr

/-- The wording of an error. -/
def RunError.message : RunError → String
  | .invalidLogFilter filter cause =>
    "invalid log filter `" ++ filter ++ "`, source: " ++ cause
  | .input error => error.message

namespace Options

/-- The filter of the log if a given one is blank or there is none. -/
def defaultLogFilter : String := "warn"

/-- The filter of the log. A blank one in the options hides the one in the environment. -/
def logFilter (o : Options) (w : Surroundings) : String :=
  ((o.logLevel.or w.logFilter).filter fun filter => !filter.toList.all isBlank).getD
    defaultLogFilter

/-- The error for the filter of the log, if that is refused. -/
def logFilterError? (o : Options) (w : Surroundings) : Option RunError :=
  (w.filterFault (o.logFilter w)).map (.invalidLogFilter (o.logFilter w))

end Options

end SqlOutline
