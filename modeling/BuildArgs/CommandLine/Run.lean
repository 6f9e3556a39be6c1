import BuildArgs.Build.Evaluation
import BuildArgs.CommandLine.Help
import BuildArgs.Listing

/-!
Running the program: from the words of its command line, the files it can read and the
name of the processor to what it prints and its exit status.
-/

namespace BuildArgs.CommandLine

structure Outcome where
  exit : UInt8
  stdout : String
  stderr : String
  deriving DecidableEq, Repr

def success (text : String) : Outcome := ⟨0, text, ""⟩

def failureStatus : UInt8 := 1

def usageStatus : UInt8 := 2

def misuse : Outcome :=
  ⟨usageStatus, "", "error: the arguments were not understood\n\n" ++
    "Usage: build-args <COMMAND>\n\nFor more information, try '--help'.\n"⟩

inductive Failure where
  | load (error : LoadError)
  | argument (error : ArgError)
  deriving DecidableEq, Repr

def loadErrorToJson (error : LoadError) : Json :=
  .object [("code", .string "CONFIG_ERROR"), ("message", .string error.message)]

def Failure.outcome (failure : Failure) (json : Bool) : Outcome :=
  match failure, json with
  | .argument error, true => ⟨failureStatus, error.toJson.compact ++ "\n", ""⟩
  | .argument error, false => ⟨failureStatus, "", error.report⟩
  | .load error, true => ⟨failureStatus, (loadErrorToJson error).compact ++ "\n", ""⟩
  | .load error, false => ⟨failureStatus, "", "Configuration error: " ++ error.message ++ "\n"⟩

def evaluate (read : ReadFile) (architecture : String) (options : InputOptions) :
    Except Failure Store :=
  match Inputs.load read options.manifest options.argsFile options.assignments with
  | .error error => .error (.load error)
  | .ok inputs =>
    match Host.detect architecture with
    | .error error => .error (.argument error)
    | .ok host =>
      match (inputs.prepare (.new host)).evaluate inputs.manifest with
      | (_, .error error) => .error (.argument error)
      | (store, .ok _) => .ok store

def list (listing : Listing) (short json : Bool) (name : Option String) : Outcome :=
  let shown : Listing := listing.filter fun other _ => name.all fun wanted => other == wanted
  match name, shown.isEmpty with
  | some name, true =>
    ⟨failureStatus, "", "Build argument '" ++ name ++ "' is not declared in any toolchain.\n"⟩
  | _, _ =>
    if json then success (shown.toJson.pretty ++ "\n")
    else if short then success shown.short
    else success shown.long

def checkReport (declared : Nat) (toolchains : List Toolchain) (json : Bool) : String :=
  if json then
    Json.compact (.object [
      ("declared", .integer declared),
      ("ok", .boolean true),
      ("toolchains", .array (toolchains.map fun toolchain => .object [
        ("is_default", .boolean toolchain.isDefault), ("label", .string toolchain.label)]))]) ++ "\n"
  else
    "Build arguments OK: " ++ toString declared ++ " declared across " ++
      toString toolchains.length ++ " toolchain(s).\n"

def checked (store : Store) (json : Bool) : Outcome :=
  success (checkReport (Listing.ofStore store).size store.toolchains json)

def check (store : Store) (json : Bool) : Outcome :=
  match store.verify with
  | .error error => Failure.outcome (.argument error) json
  | .ok () => checked store json

def perform (read : ReadFile) (architecture : String) : Request → Outcome
  | .list inputs short json name =>
    match evaluate read architecture inputs with
    | .error failure => failure.outcome json
    | .ok store => list (Listing.ofStore store) short json name
  | .check inputs json =>
    match evaluate read architecture inputs with
    | .error failure => failure.outcome json
    | .ok store => check store json
  | .overview => success overviewText
  | .showHelp topic => success topic.text
  | .showVersion => success versionText

def run (read : ReadFile) (architecture : String) (words : List SystemString) : Outcome :=
  match parse words with
  | none => misuse
  | some request => perform read architecture request

end BuildArgs.CommandLine
