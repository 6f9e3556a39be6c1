import BuildArgs.Toml.Node

/-!
Dates and times in tables. A table whose first key is the temporal key stands for the date or
time that the string under the key writes, whatever else is in the table. Whether a table may
do so depends on what it is taken for; a text is therefore read as it is written, and the
values in it are resolved when they are taken for values.
-/

namespace BuildArgs.Toml

/-- The key under which the text of a date or time stands in a table. -/
def temporalKey : String := "$__toml_private_datetime"

namespace Node

def tagged? : List (String × Node) → Option Node
  | (key, node) :: _ => if key = temporalKey then some node else none
  | [] => none

def temporal? : Node → Option Temporal
  | .string text => Temporal.ofText? text
  | _ => none

mutual

/-- Puts dates and times in the place of the tables that stand for them, and the entries of
all other tables in ascending order of their keys. -/
def resolve : Node → Option Node
  | .array items => (resolveItems items).map .array
  | .table entries =>
    match tagged? entries with
    | some node => node.temporal?.map .temporal
    | none => (resolveEntries entries).map fun resolved =>
      .table (SortedMap.ofList resolved).entries
  | .string value => some (.string value)
  | .integer value => some (.integer value)
  | .float value => some (.float value)
  | .boolean value => some (.boolean value)
  | .temporal value => some (.temporal value)

def resolveItems : List Node → Option (List Node)
  | [] => some []
  | node :: rest => do
    let first ← node.resolve
    let others ← resolveItems rest
    return first :: others

def resolveEntries : List (String × Node) → Option (List (String × Node))
  | [] => some []
  | (key, node) :: rest => do
    let first ← node.resolve
    let others ← resolveEntries rest
    return (key, first) :: others

end

end Node

def Table.resolve (table : Table) : Option Table :=
  (Node.resolveEntries table.entries).map .ofList

end BuildArgs.Toml
