import BuildArgs.Toml.Draft
import BuildArgs.Toml.Quoted

/-!
Keys and values. Arrays and inline tables may be nested to a fixed depth, on which the
reader of values recurs.
-/

namespace BuildArgs.Toml

/-- The depth at which arrays, inline tables and dotted keys are refused. -/
def depthLimit : Nat := 80

def simpleKey : Reader String := fun text =>
  match text with
  | '"' :: rest => (basicString rest).map fun read => (String.ofList read.1, read.2)
  | '\'' :: rest => (literalString rest).map fun read => (String.ofList read.1, read.2)
  | _ =>
    let name := text.takeWhile isKeyChar
    if name.isEmpty then none else some (String.ofList name, text.dropWhile isKeyChar)

def keyParts : Nat → Reader (List String)
  | 0, _ => none
  | most + 1, text => do
    let (part, rest) ← simpleKey (skipBlank text)
    match skipBlank rest with
    | '.' :: rest =>
      let (parts, rest) ← keyParts most rest
      return (part :: parts, rest)
    | rest => return ([part], rest)

def readKey : Reader (List String) := keyParts (depthLimit - 1)

def arrayItems (item : Reader Node) : Nat → Reader (List Node)
  | 0, _ => none
  | steps + 1, text => do
    match ← skipLines false text with
    | ']' :: rest => return ([], rest)
    | start =>
      let (first, rest) ← item start
      match ← skipLines false rest with
      | ',' :: rest =>
        let (items, rest) ← arrayItems item steps rest
        return (first :: items, rest)
      | ']' :: rest => return ([first], rest)
      | _ => none

def readAssignment (item : Reader Node) : Reader (List String × Node) := fun text => do
  let (path, rest) ← readKey text
  let rest ← expect '=' rest
  let (node, rest) ← item (skipBlank rest)
  return ((path, node), rest)

def inlineAssignments (item : Reader Node) : Nat → Reader (List (List String × Node))
  | 0, _ => none
  | steps + 1, text => do
    let (first, rest) ← readAssignment item text
    match skipBlank rest with
    | ',' :: rest =>
      let (more, rest) ← inlineAssignments item steps rest
      return (first :: more, rest)
    | '\x7d' :: rest => return ([first], rest)
    | _ => none

def inlineTable (item : Reader Node) : Reader Node := fun text =>
  match skipBlank text with
  | '\x7d' :: rest => some (.table [], rest)
  | start => do
    let (assignments, rest) ← inlineAssignments item (start.length + 1) start
    let draft ← Draft.ofAssignments assignments
    return (draft.toNode, rest)

def readNumeral : Reader Node := fun text =>
  match readTemporal text with
  | some (value, rest) => some (.temporal value, rest)
  | none => do
    let (number, rest) ← readNumber text
    match number with
    | .integer value => return (.integer value, rest)
    | .float value => return (.float value, rest)

def readLeaf : Reader Node := fun text =>
  match text with
  | [] => none
  | c :: _ =>
    if c = '"' ∨ c = '\'' then
      (readString text).map fun read => (.string (String.ofList read.1), read.2)
    else if c = 't' then (expectAll "true".toList text).map fun rest => (.boolean true, rest)
    else if c = 'f' then (expectAll "false".toList text).map fun rest => (.boolean false, rest)
    else readNumeral text

def readValue : Nat → Reader Node
  | room, '[' :: rest =>
    match room with
    | 0 => none
    | room + 1 =>
      (arrayItems (readValue room) (rest.length + 1) rest).map fun read =>
        (.array read.1, read.2)
  | room, '\x7b' :: rest =>
    match room with
    | 0 => none
    | room + 1 => inlineTable (readValue room) rest
  | _, text => readLeaf text

end BuildArgs.Toml
