import SqlOutline.Character.Blank

/-!
# Where the statement comes from

A statement is taken from a file if one is named, else from the argument, else from the
standard input. The others are not looked at, even if the one that was chosen cannot be
read. The text must be UTF-8 and must not be blank; it is passed on as it is.
-/

namespace SqlOutline

/-- Why a file or stream could not be read as text. -/
inductive ReadFailure where
  | system (description : String) (code : Nat)
  | invalidUtf8
  deriving DecidableEq, Repr

namespace ReadFailure

/-- The failure to find a file. -/
def noSuchFile : ReadFailure := .system "No such file or directory" 2

/-- The wording of a failure. -/
def message : ReadFailure → String
  | .system description code => description ++ " (os error " ++ toString code ++ ")"
  | .invalidUtf8 => "stream did not contain valid UTF-8"

end ReadFailure

/-- Why there is no statement to work on. -/
inductive InputError where
  | unreadableFile (path : String) (cause : ReadFailure)
  | unreadableStandardInput (cause : ReadFailure)
  | empty
  deriving DecidableEq, Repr

/-- The wording of an error. -/
def InputError.message : InputError → String
  | .unreadableFile path cause =>
    "failed to read SQL from " ++ path ++ ", source: " ++ cause.message
  | .unreadableStandardInput cause =>
    "failed to read SQL from stdin, source: " ++ cause.message
  | .empty => "no query entered"

/-- The bytes of a file or stream, or why they are missing. -/
abbrev Contents := Except ReadFailure ByteArray

/-- The text in UTF-8 bytes. -/
def Contents.text (contents : Contents) : Except ReadFailure String :=
  match contents with
  | .error cause => .error cause
  | .ok bytes =>
    match String.fromUTF8? bytes with
    | some text => .ok text
    | none => .error .invalidUtf8

/-- The places that a statement can come from. -/
structure InputSources where
  argument : Option String
  /-- A named file, with what it holds. -/
  file : Option (String × Contents)
  standardInput : Contents

namespace InputSources

/-- The text of the first place that is given. -/
def text (sources : InputSources) : Except InputError String :=
  match sources.file, sources.argument with
  | some (path, contents), _ => contents.text.mapError (InputError.unreadableFile path)
  | none, some sql => .ok sql
  | none, none => sources.standardInput.text.mapError InputError.unreadableStandardInput

/-- The statement, unless there is none to be read or it is blank. -/
def read (sources : InputSources) : Except InputError String :=
  match sources.text with
  | .error e => .error e
  | .ok sql => if sql.toList.all isBlank then .error .empty else .ok sql

end InputSources

end SqlOutline
