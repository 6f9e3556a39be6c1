import BuildArgs.SortedMap
import BuildArgs.Toml.Number
import BuildArgs.Toml.Temporal

/-!
The tree that a TOML text describes.
-/

namespace BuildArgs.Toml

/-- A value. The entries of a table stand in the order in which the text brings them up, each
key once. -/
inductive Node where
  | string (value : String)
  | integer (value : Int64)
  | float (value : Binary64)
  | boolean (value : Bool)
  | temporal (value : Temporal)
  | array (items : List Node)
  | table (entries : List (String × Node))
  deriving Inhabited

abbrev Table := NameMap Node

theorem Node.induction {motive : Node → Prop}
    (string : ∀ value, motive (.string value))
    (integer : ∀ value, motive (.integer value))
    (float : ∀ value, motive (.float value))
    (boolean : ∀ value, motive (.boolean value))
    (temporal : ∀ value, motive (.temporal value))
    (array : ∀ items, (∀ item ∈ items, motive item) → motive (.array items))
    (table : ∀ entries, (∀ entry ∈ entries, motive entry.2) → motive (.table entries))
    (node : Node) : motive node :=
  match node with
  | .string value => string value
  | .integer value => integer value
  | .float value => float value
  | .boolean value => boolean value
  | .temporal value => temporal value
  | .array items => array items fun item _ =>
    Node.induction string integer float boolean temporal array table item
  | .table entries => table entries fun entry _ =>
    Node.induction string integer float boolean temporal array table entry.2
termination_by sizeOf node
decreasing_by
  · simp only [Node.array.sizeOf_spec]
    have smaller := List.sizeOf_lt_of_mem ‹item ∈ items›
    omega
  · simp only [Node.table.sizeOf_spec]
    have smaller := List.sizeOf_lt_of_mem ‹entry ∈ entries›
    have part : sizeOf entry = 1 + sizeOf entry.1 + sizeOf entry.2 := by cases entry; rfl
    omega

end BuildArgs.Toml
