import BuildArgs.SystemString

/-!
The words of a command line. Words are taken from left to right, and the first one that
does not fit, or asks for help, decides; so does an option whose value is missing. Paths may be any
words, and everything else has to be a text.
-/

namespace BuildArgs.CommandLine

structure InputOptions where
  manifest : SystemString
  argsFile : Option SystemString
  assignments : List String
  deriving DecidableEq, Repr

inductive Topic where
  | program
  | list
  | check
  | overview
  | help
  deriving DecidableEq, Repr

inductive Request where
  | list (inputs : InputOptions) (short json : Bool) (name : Option String)
  | check (inputs : InputOptions) (json : Bool)
  | overview
  | showHelp (topic : Topic)
  | showVersion
  deriving DecidableEq, Repr

inductive Command where
  | list
  | check
  | overview
  deriving DecidableEq, Repr

def Command.topic : Command → Topic
  | .list => .list
  | .check => .check
  | .overview => .overview

inductive Flag where
  | manifest
  | argsFile
  | assignment
  | short
  | json
  | help
  deriving DecidableEq, Repr

def Flag.takesValue : Flag → Bool
  | .manifest => true
  | .argsFile => true
  | .assignment => true
  | _ => false

def longFlag (command : Command) (name : String) : Option Flag :=
  match command, name with
  | _, "help" => some .help
  | .overview, _ => none
  | _, "manifest" => some .manifest
  | _, "args-file" => some .argsFile
  | _, "arg" => some .assignment
  | _, "json" => some .json
  | .list, "short" => some .short
  | _, _ => none

def byteOf (c : Char) : UInt8 := UInt8.ofNat c.toNat

def letterFlag (command : Command) (letter : UInt8) : Option Flag :=
  if letter = byteOf 'h' then some .help
  else if command ≠ .overview ∧ letter = byteOf 'm' then some .manifest
  else none

def splitEquals : List UInt8 → List UInt8 × Option (List UInt8)
  | [] => ([], none)
  | byte :: rest =>
    if byte = byteOf '=' then ([], some rest)
    else
      let (name, value) := splitEquals rest
      (byte :: name, value)

inductive Shape where
  /-- Two hyphens alone, after which no word is an option. -/
  | marker
  | long (name : SystemString) (value : Option SystemString)
  | letter (first : UInt8) (rest : List UInt8)
  | plain
  deriving DecidableEq, Repr

def longShape (rest : List UInt8) : Shape :=
  if rest = [] then .marker
  else
    let (name, value) := splitEquals rest
    .long ⟨name⟩ (value.map SystemString.mk)

def shape (word : SystemString) : Shape :=
  match word.bytes with
  | first :: second :: rest =>
    if first ≠ byteOf '-' then .plain
    else if second = byteOf '-' then longShape rest
    else .letter second rest
  | _ => .plain

def attached : List UInt8 → Option SystemString
  | [] => none
  | byte :: rest => some ⟨if byte = byteOf '=' then rest else byte :: rest⟩

def optionOf (command : Command) (word : SystemString) : Option (Flag × Option SystemString) :=
  match shape word with
  | .long name value => (name.text?.bind (longFlag command)).map fun flag => (flag, value)
  | .letter letter rest => (letterFlag command letter).map fun flag =>
    (flag, if flag.takesValue then attached rest else none)
  | _ => none

inductive Item where
  | option (flag : Flag) (value : SystemString)
  | name (word : SystemString)
  | malformed
  deriving DecidableEq, Repr

/-- The items of a command's words, up to the first that is malformed. Behind the marker, where
`literal` is set, no word is an option. The value of an option may be the next word, unless
that looks like an option itself. -/
def items (command : Command) (literal : Bool) : List SystemString → List Item
  | [] => []
  | word :: rest =>
    if literal then .name word :: items command true rest
    else
      match shape word with
      | .marker => items command true rest
      | .plain => .name word :: items command false rest
      | _ =>
        match optionOf command word with
        | none => [.malformed]
        | some (flag, some value) =>
          if flag.takesValue then .option flag value :: items command false rest
          else [.malformed]
        | some (flag, none) =>
          if flag.takesValue then
            match rest with
            | [] => [.malformed]
            | value :: rest =>
              if shape value = .plain then .option flag value :: items command false rest
              else [.malformed]
          else .option flag "" :: items command false rest

structure Given where
  manifest : Option SystemString
  argsFile : Option SystemString
  assignments : List String
  short : Bool
  json : Bool
  name : Option String
  deriving DecidableEq, Repr

def Given.nothing : Given := ⟨none, none, [], false, false, none⟩

def Given.note (given : Given) (flag : Flag) (value : SystemString) : Option Given :=
  match flag with
  | .manifest =>
    if given.manifest.isSome || value.isEmpty then none
    else some { given with manifest := some value }
  | .argsFile =>
    if given.argsFile.isSome || value.isEmpty then none
    else some { given with argsFile := some value }
  | .assignment =>
    value.text?.map fun text => { given with assignments := given.assignments ++ [text] }
  | .short => if given.short then none else some { given with short := true }
  | .json => if given.json then none else some { given with json := true }
  | .help => none

def Given.request (given : Given) (command : Command) : Request :=
  let inputs : InputOptions :=
    ⟨given.manifest.getD "build.toml", given.argsFile, given.assignments⟩
  match command with
  | .list => .list inputs given.short given.json given.name
  | .check => .check inputs given.json
  | .overview => .overview

def takeItems (command : Command) (given : Given) : List Item → Option Request
  | [] => some (given.request command)
  | .option .help _ :: _ => some (.showHelp command.topic)
  | .option flag value :: rest => (given.note flag value).bind fun given => takeItems command given rest
  | .name word :: rest =>
    if command = .list ∧ given.name = none then
      word.text?.bind fun name => takeItems command { given with name := some name } rest
    else none
  | .malformed :: _ => none

def commandOf (word : SystemString) : Option Command :=
  match word.text? with
  | some "list" => some .list
  | some "check" => some .check
  | some "overview" => some .overview
  | _ => none

def topicOf (words : List SystemString) : Option Topic :=
  match words with
  | [] => some .program
  | [word] => if word = "help" then some .help else (commandOf word).map Command.topic
  | _ => none

def parse (words : List SystemString) : Option Request :=
  match words with
  | [] => none
  | word :: rest =>
    match commandOf word with
    | some command => takeItems command .nothing (items command false rest)
    | none =>
      if word = "help" then (topicOf rest).map Request.showHelp
      else
        match shape word with
        | .long name none =>
          if name = "help" then some (.showHelp .program)
          else if name = "version" then some .showVersion
          else none
        | .letter first _ =>
          if first = byteOf 'h' then some (.showHelp .program)
          else if first = byteOf 'V' then some .showVersion
          else none
        | _ => none

end BuildArgs.CommandLine
