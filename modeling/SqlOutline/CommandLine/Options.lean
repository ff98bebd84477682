import SqlOutline.Report

/-!
# Options of the command line

The arguments are at most one statement and the options `-f` or `--file`, `--format`,
`--pretty` and `--log-level`, in any order and each at most once. The value of an option
stands behind an equals sign, behind the letter of a short option, or in the next argument,
which must not look like an option itself. After `--` there are no more options.
-/

namespace SqlOutline

/-- Why arguments are refused. -/
inductive UsageError where
  | unknownOption (argument : String)
  | missingValue (option : String)
  | unexpectedValue (option : String)
  | invalidValue (option : String) (value : String)
  | repeatedOption (option : String)
  | unexpectedArgument (argument : String)
  deriving DecidableEq, Repr

/-- The wording of a refusal. -/
def UsageError.message : UsageError → String
  | .unknownOption argument => "unknown option " ++ argument
  | .missingValue option => "a value is required for " ++ option
  | .unexpectedValue option => "no value is allowed for " ++ option
  | .invalidValue option value => "invalid value '" ++ value ++ "' for " ++ option
  | .repeatedOption option => option ++ " cannot be used more than once"
  | .unexpectedArgument argument => "unexpected argument " ++ argument

/-- The options that take a value. -/
inductive ValueOption where
  | file
  | format
  | logLevel
  deriving DecidableEq, Repr

/-- The long form of an option. -/
def ValueOption.name : ValueOption → String
  | .file => "--file"
  | .format => "--format"
  | .logLevel => "--log-level"

/-- What one argument is by itself. A value in the same argument comes with its option. -/
inductive Argument where
  | statement (sql : String)
  | endOfOptions
  | valued (option : ValueOption) (value : Option String)
  | pretty
  | refused (error : UsageError)
  deriving DecidableEq, Repr

namespace Argument

/-- A long option by its name, with the value behind an equals sign. -/
def ofLongOption (name : String) (value : Option String) : Argument :=
  match name with
  | "file" => .valued .file value
  | "format" => .valued .format value
  | "log-level" => .valued .logLevel value
  | "pretty" => if value.isSome then .refused (.unexpectedValue "--pretty") else .pretty
  | _ => .refused (.unknownOption ("--" ++ name))

/-- The value behind the letter of a short option; an equals sign may stand between. -/
def shortValue : List Char → Option String
  | [] => none
  | '=' :: value => some (String.ofList value)
  | value => some (String.ofList value)

/-- Reads one argument. -/
def ofText (argument : String) : Argument :=
  match argument.toList with
  | ['-'] => .statement argument
  | ['-', '-'] => .endOfOptions
  | '-' :: '-' :: option =>
    let name := option.takeWhile (· != '=')
    let value := (option.drop name.length).tail?.map String.ofList
    ofLongOption (String.ofList name) value
  | '-' :: 'f' :: value => .valued .file (shortValue value)
  | '-' :: _ => .refused (.unknownOption argument)
  | _ => .statement argument

/-- Whether an argument looks like an option and so cannot be the value of one. -/
def looksLikeOption (argument : String) : Bool :=
  match argument.toList with
  | '-' :: _ :: _ => true
  | _ => false

end Argument

/-- What the arguments ask for. -/
structure Options where
  statement : Option String
  file : Option String
  format : Option Report.Format
  pretty : Bool
  logLevel : Option String
  deriving DecidableEq, Repr

namespace Options

/-- Nothing asked for yet. -/
def empty : Options := ⟨none, none, none, false, none⟩

/-- Takes the statement, of which there may be one. -/
def addStatement (o : Options) (sql : String) : Except UsageError Options :=
  if o.statement.isSome then .error (.unexpectedArgument sql)
  else .ok { o with statement := some sql }

/-- Asks for an indented layout. -/
def addPretty (o : Options) : Except UsageError Options :=
  if o.pretty then .error (.repeatedOption "--pretty") else .ok { o with pretty := true }

/-- Takes an option with its value. -/
def addValue (o : Options) (option : ValueOption) (value : String) :
    Except UsageError Options :=
  match option with
  | .file =>
    if o.file.isSome then .error (.repeatedOption option.name)
    else if value.isEmpty then .error (.invalidValue option.name value)
    else .ok { o with file := some value }
  | .format =>
    if o.format.isSome then .error (.repeatedOption option.name)
    else match Report.Format.ofName? value with
      | none => .error (.invalidValue option.name value)
      | some format => .ok { o with format := some format }
  | .logLevel =>
    if o.logLevel.isSome then .error (.repeatedOption option.name)
    else .ok { o with logLevel := some value }

/-- Reads the arguments after the end of the options. -/
def readStatements (o : Options) : List String → Except UsageError Options
  | [] => .ok o
  | sql :: rest => do readStatements (← o.addStatement sql) rest

/-- Reads arguments from the front. -/
def read (o : Options) : List String → Except UsageError Options
  | [] => .ok o
  | argument :: rest =>
    match Argument.ofText argument with
    | .statement sql => do read (← o.addStatement sql) rest
    | .endOfOptions => o.readStatements rest
    | .valued option (some value) => do read (← o.addValue option value) rest
    | .valued option none =>
      match rest with
      | [] => .error (.missingValue option.name)
      | value :: rest =>
        if Argument.looksLikeOption value then .error (.missingValue option.name)
        else do read (← o.addValue option value) rest
    | .pretty => do read (← o.addPretty) rest
    | .refused error => .error error

/-- What a list of arguments asks for. -/
def ofArguments (arguments : List String) : Except UsageError Options := empty.read arguments

/-- The form of the report, which is text unless another one is asked for. -/
def reportFormat (o : Options) : Report.Format := o.format.getD .text

end Options

end SqlOutline
