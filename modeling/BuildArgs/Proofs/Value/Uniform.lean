import BuildArgs.Assignment
import BuildArgs.Host

/-! Values that come from one place: whatever is read from a table or given by an
assignment carries the place it was read from, however deeply it is nested. -/

namespace BuildArgs

/-- A value whose parts all have the same origin as the value itself. -/
inductive Value.Uniform (place : Option Origin) : Value → Prop
  | none : Uniform place (.none place)
  | boolean (value) : Uniform place (.boolean place value)
  | integer (value) : Uniform place (.integer place value)
  | string (value) : Uniform place (.string place value)
  | list {items} : (∀ item ∈ items, Uniform place item) → Uniform place (.list place items)
  | scope {entries} : (∀ entry ∈ entries, Uniform place entry.2) →
      Uniform place (.scope place entries)

def UniformMap (place : Option Origin) (values : NameMap Value) : Prop :=
  ∀ name value, values.get? name = some value → value.Uniform place

theorem Value.Uniform.origin_eq {place : Option Origin} {value : Value}
    (uniform : value.Uniform place) : value.origin = place := by
  cases uniform <;> rfl

theorem UniformMap.origin_of_mem {place : Option Origin} {values : NameMap Value}
    (uniform : UniformMap place values) {entry : String × Value}
    (member : entry ∈ values.entries) : entry.2.origin = place :=
  (uniform entry.1 entry.2 (SortedMap.get?_eq_some_iff.mpr member)).origin_eq

theorem uniformMap_empty (place : Option Origin) : UniformMap place ∅ := by
  intro name value found
  simp at found

theorem UniformMap.insert {place : Option Origin} {values : NameMap Value}
    (uniform : UniformMap place values) (name : String) {value : Value}
    (new : value.Uniform place) : UniformMap place (values.insert name value) := by
  intro other found same
  rw [SortedMap.get?_insert] at same
  split at same
  · exact Option.some.inj same ▸ new
  · exact uniform other found same

namespace Value

theorem uniform_ofNode (place : Origin) (node : Toml.Node) :
    (ofNode place node).Uniform (some place) := by
  induction node using Toml.Node.induction with
  | string value => exact .string value
  | integer value => exact .integer value
  | float value => exact .string value.text
  | boolean value => exact .boolean value
  | temporal value => exact .string value.text
  | array items each =>
    rw [ofNode, ofNodes_eq_map]
    exact .list (List.forall_mem_map.mpr each)
  | table entries each =>
    rw [ofNode, ofNodeEntries_eq_map]
    exact .scope (List.forall_mem_map.mpr each)

theorem uniform_mapOfTable (place : Origin) (table : Toml.Table) :
    UniformMap (some place) (mapOfTable place table) := by
  intro name value found
  simp only [mapOfTable, SortedMap.get?_map, Option.map_eq_some_iff] at found
  obtain ⟨node, _, rfl⟩ := found
  exact uniform_ofNode place node

end Value

namespace Assignment

theorem uniform_readValue (raw : String) : (readValue raw).Uniform (some commandLine) := by
  unfold readValue
  split
  · exact Value.uniform_ofNode _ _
  · exact .string raw

theorem uniform_of_parse {text name : String} {value : Value}
    (parsed : parse text = .ok (name, value)) : value.Uniform (some commandLine) := by
  unfold parse at parsed
  split at parsed
  · simp at parsed
  · simp only at parsed
    split at parsed
    · cases parsed
      exact uniform_readValue _
    · simp at parsed

end Assignment

theorem Host.uniform_systemDefaults (host : Host) : UniformMap none host.systemDefaults := by
  unfold systemDefaults SortedMap.ofList SortedMap.insertList
  simp only [List.foldl_cons, List.foldl_nil]
  repeat apply UniformMap.insert _ _ (.string _)
  exact uniformMap_empty none

end BuildArgs
