import BuildArgs.Origin
import BuildArgs.Text.Blank

/-!
What can be wrong with build arguments. An error says where it arose and what can be done
about it; a duplicate declaration also points to the declaration it collides with.
-/

namespace BuildArgs

inductive ArgError where
  | duplicateDeclaration (name : String) (origin previous : Option Origin)
  | unusedOverride (name : String) (origin : Option Origin) (suggestion : Option String)
  | unknownArchitecture (architecture : String)
  deriving DecidableEq, Repr

structure RelatedNote where
  origin : Option Origin
  message : String
  help : String
  deriving DecidableEq, Repr

namespace ArgError

def code : ArgError → String
  | .duplicateDeclaration _ _ _ => "DUPLICATE_DECLARATION"
  | .unusedOverride _ _ _ => "UNUSED_OVERRIDE"
  | .unknownArchitecture _ => "UNKNOWN_HOST_ARCHITECTURE"

def message : ArgError → String
  | .duplicateDeclaration _ _ _ => "Duplicate build argument declaration."
  | .unusedOverride _ _ _ => "Build argument has no effect."
  | .unknownArchitecture architecture =>
    "OS architecture not handled. (" ++ architecture ++ ")"

def name? : ArgError → Option String
  | .duplicateDeclaration name _ _ => some name
  | .unusedOverride name _ _ => some name
  | .unknownArchitecture _ => none

def origin? : ArgError → Option Origin
  | .duplicateDeclaration _ origin _ => origin
  | .unusedOverride _ origin _ => origin
  | .unknownArchitecture _ => none

def duplicateHelp : String :=
  "Here you're declaring an argument that was already declared elsewhere.\n" ++
  "You can only declare each argument once in the entire build so there is one\n" ++
  "canonical place for documentation and the default value. Either move this\n" ++
  "argument to the build config file (for visibility everywhere) or to a .gni file\n" ++
  "that you \"import\" from the files where you need it (preferred)."

def unusedHelp (name : String) : String :=
  "The variable \"" ++ name ++ "\" was set as a build argument\n" ++
  "but never appeared in a declare_args() block in any buildfile.\n\n" ++
  "To view all possible args, run \"build-args list\""

def help : ArgError → String
  | .duplicateDeclaration _ _ _ => duplicateHelp
  | .unusedOverride name _ (some suggestion) =>
    "Did you mean \"" ++ suggestion ++ "\"?\n\n" ++ unusedHelp name
  | .unusedOverride name _ none => unusedHelp name
  | .unknownArchitecture _ => "Every supported host must map to a known CPU tag."

def notes : ArgError → List RelatedNote
  | .duplicateDeclaration _ _ previous =>
    [⟨previous, "Previous declaration.",
      "See also \"build-args overview\" for more on how build arguments work."⟩]
  | _ => []

def block (origin : Option Origin) (message help : String) : String :=
  let headline :=
    match origin with
    | some origin => "ERROR at " ++ origin.text ++ ": " ++ message ++ "\n"
    | none => "ERROR: " ++ message ++ "\n"
  headline ++ String.join ((Text.lines help.toList).map fun line => String.ofList line ++ "\n")

def report (error : ArgError) : String :=
  block error.origin? error.message error.help ++
    String.join (error.notes.map fun note => "\n" ++ block note.origin note.message note.help)

def noteToJson (note : RelatedNote) : Json :=
  .object (("help", .string note.help) :: ("message", .string note.message) ::
    Json.optional "origin" (note.origin.map Origin.toJson))

def toJson (error : ArgError) : Json :=
  .object [
    ("code", .string error.code),
    ("help", .string error.help),
    ("message", .string error.message),
    ("name", Json.orNull (error.name?.map Json.string)),
    ("origin", Json.orNull (error.origin?.map Origin.toJson)),
    ("sub_errors", .array (error.notes.map noteToJson))]

end ArgError
end BuildArgs
