import BuildArgs.Text.Utf8

/-!
What can be wrong with the inputs of a build: a file cannot be read, a text cannot be
understood, or what it says is not allowed.
-/

namespace BuildArgs

inductive ReadFault where
  | missing
  | denied
  | notADirectory
  | isADirectory
  | nameTooLong
  | zeroInName
  | other (message : String)
  deriving DecidableEq, Repr

def ReadFault.message : ReadFault → String
  | .missing => "No such file or directory (os error 2)"
  | .denied => "Permission denied (os error 13)"
  | .notADirectory => "Not a directory (os error 20)"
  | .isADirectory => "Is a directory (os error 21)"
  | .nameTooLong => "File name too long (os error 36)"
  | .zeroInName => "file name contained an unexpected NUL byte"
  | .other message => message

inductive Violation where
  | assignmentWithoutEquals (text : String)
  | notAnIdentifier (name : String)
  | emptyLabel
  | repeatedToolchain (label : String)
  | blockWithoutFile (label : String)
  deriving DecidableEq, Repr

def Violation.message : Violation → String
  | .assignmentWithoutEquals text => "expected name=value, got '" ++ text ++ "'"
  | .notAnIdentifier name => "invalid build argument name '" ++ name ++ "'"
  | .emptyLabel => "only a default toolchain may have an empty label"
  | .repeatedToolchain label => "toolchain '" ++ label ++ "' is listed twice"
  | .blockWithoutFile label => "declare_args block in toolchain '" ++ label ++ "' has no file"

inductive LoadError where
  | unreadable (path : String) (fault : ReadFault)
  | notText (path : String) (fault : Utf8.Fault)
  /-- The text is not TOML, or not of the form that is expected of it. -/
  | malformed (path : String)
  | invalid (violation : Violation)
  deriving DecidableEq, Repr

def LoadError.message : LoadError → String
  | .unreadable path fault => "IO error reading " ++ path ++ ": " ++ fault.message
  | .notText path fault => "Parse error in " ++ path ++ ": Invalid UTF-8: " ++ fault.message
  | .malformed path => "Parse error in " ++ path ++ ": TOML parse error"
  | .invalid violation => "Validation error: " ++ violation.message

end BuildArgs
