import BuildArgs.LoadError
import BuildArgs.Text.Blank
import BuildArgs.Value.Toml

/-!
Values given one by one or in a file of their own. An assignment is a name, an equals sign
and a value; a value that is not TOML is the string that was written.
-/

namespace BuildArgs.Assignment

def commandLine : Origin := .ofFile "<command line>"

def isIdentifierStart (c : Char) : Bool := c.isAlpha || c == '_'

def isIdentifierChar (c : Char) : Bool := c.isAlphanum || c == '_'

def isIdentifier : List Char → Bool
  | [] => false
  | first :: rest => isIdentifierStart first && rest.all isIdentifierChar

/-- The value that a text stands for: it is read as the value of a key, and what may follow
that value in a TOML text is not looked at. -/
def readValue (raw : String) : Value :=
  match (Toml.parse ("value = " ++ raw)).bind fun table => table.get? "value" with
  | some node => .ofNode commandLine node
  | none => .string commandLine raw

def parse (text : String) : Except LoadError (String × Value) :=
  match Text.splitFirst '=' text.toList with
  | none => .error (.invalid (.assignmentWithoutEquals text))
  | some (name, raw) =>
    let name := Text.trim name
    if isIdentifier name then
      .ok (String.ofList name, readValue (String.ofList (Text.trim raw)))
    else .error (.invalid (.notAnIdentifier (String.ofList name)))

def parseFile (path text : String) : Except LoadError (NameMap Value) :=
  match Toml.parse text with
  | some table => .ok (Value.mapOfTable (.ofFile path) table)
  | none => .error (.malformed path)

end BuildArgs.Assignment
