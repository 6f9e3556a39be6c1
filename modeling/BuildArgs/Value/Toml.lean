import BuildArgs.Toml.Document
import BuildArgs.Value

/-!
Values from TOML. Build files have neither fractions nor dates, so these become strings.
Every value, however deeply nested, is attributed to the same place.
-/

namespace BuildArgs.Value

mutual

def ofNode (place : Origin) : Toml.Node → Value
  | .string value => .string place value
  | .integer value => .integer place value
  | .float value => .string place value.text
  | .boolean value => .boolean place value
  | .temporal value => .string place value.text
  | .array items => .list place (ofNodes place items)
  | .table entries => .scope place (ofNodeEntries place entries)

def ofNodes (place : Origin) : List Toml.Node → List Value
  | [] => []
  | node :: rest => ofNode place node :: ofNodes place rest

def ofNodeEntries (place : Origin) : List (String × Toml.Node) → List (String × Value)
  | [] => []
  | (name, node) :: rest => (name, ofNode place node) :: ofNodeEntries place rest

end

def mapOfTable (place : Origin) (table : Toml.Table) : NameMap Value := table.map (ofNode place)

theorem ofNodes_eq_map (place : Origin) (nodes : List Toml.Node) :
    ofNodes place nodes = nodes.map (ofNode place) := by
  induction nodes with
  | nil => rfl
  | cons node rest ih => simp [ofNodes, ih]

theorem ofNodeEntries_eq_map (place : Origin) (entries : List (String × Toml.Node)) :
    ofNodeEntries place entries = entries.map fun entry => (entry.1, ofNode place entry.2) := by
  induction entries with
  | nil => rfl
  | cons entry rest ih => simp [ofNodeEntries, ih]

@[simp] theorem origin_ofNode (place : Origin) (node : Toml.Node) :
    (ofNode place node).origin = some place := by
  cases node <;> rfl

end BuildArgs.Value
