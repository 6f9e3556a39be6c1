import BuildArgs.Toml.Expression
import BuildArgs.Toml.Tagged

/-!
Whole texts. A text is a sequence of statements, each on a line of its own: headers, and
assignments to keys of the table that the last header opened.
-/

namespace BuildArgs.Toml

inductive Statement where
  | table (path : List String)
  | element (path : List String)
  | assignment (path : List String) (node : Node)

def readHeader : Reader Statement := fun text =>
  match text with
  | '[' :: rest => do
    let (path, rest) ← readKey rest
    let rest ← expectAll [']', ']'] rest
    return (.element path, rest)
  | _ => do
    let (path, rest) ← readKey text
    let rest ← expect ']' rest
    return (.table path, rest)

def readStatement : Reader Statement := fun text =>
  match text with
  | '[' :: rest => readHeader rest
  | _ => (readAssignment (readValue (depthLimit - 1)) text).map fun read =>
    (.assignment read.1.1 read.1.2, read.2)

/-- Reads all statements of a text, in at most `steps` steps. A step takes a line or, when a
line has no statement, the part of it that ends it. -/
def readStatements : Nat → List Char → Option (List Statement)
  | 0, _ => none
  | steps + 1, text =>
    match skipBlank text with
    | [] => some []
    | '#' :: rest => (lineEnd (rest.dropWhile isPlain)).bind (readStatements steps)
    | '\n' :: rest => readStatements steps rest
    | '\r' :: rest => (expect '\n' rest).bind (readStatements steps)
    | start => do
      let (statement, rest) ← readStatement start
      let rest ← trailing rest
      let statements ← readStatements steps rest
      return statement :: statements

/-- The tables built so far and the path of the table that assignments go to. -/
structure Progress where
  root : Draft
  current : List String

def Progress.run (progress : Progress) : Statement → Option Progress
  | .table path => do
    let key ← path.getLast?
    let root ← progress.root.changeAt .header (Draft.openTable key) path.dropLast
    return ⟨root, path⟩
  | .element path => do
    let key ← path.getLast?
    let root ← progress.root.changeAt .header (Draft.addElement key) path.dropLast
    return ⟨root, path⟩
  | .assignment path node => do
    let key ← path.getLast?
    let root ← progress.root.changeAt .header (Draft.assign path.dropLast key node) progress.current
    return ⟨root, progress.current⟩

def dropMark : List Char → List Char
  | '\ufeff' :: rest => rest
  | text => text

def parseUnresolved (text : String) : Option Table := do
  let text := dropMark text.toList
  let statements ← readStatements (text.length + 1) text
  let progress ← statements.foldlM Progress.run ⟨.empty, []⟩
  match progress.root.toNode with
  | .table entries => return .ofList entries
  | _ => none

def parse (text : String) : Option Table := (parseUnresolved text).bind Table.resolve

end BuildArgs.Toml
