import BuildArgs.Toml.Tagged

/-! How tables are resolved. The entries are resolved one by one and keep their keys, and a table whose
entries are resolved and in order is left as it is. -/

namespace BuildArgs

theorem SortedMap.ofList_of_ascending {α : Type} {entries : List (String × α)}
    (ascending : entries.Pairwise fun left right => compare left.1 right.1 = .lt) :
    SortedMap.ofList entries = ⟨entries, ascending⟩ :=
  SortedMap.ext_get? fun name =>
    (SortedMap.get?_insertList _ ascending name).trans (Option.or_none ..)

namespace Toml

namespace Node

variable {entries resolved : List (String × Node)}

theorem isSome_resolveEntries_iff :
    (resolveEntries entries).isSome ↔ ∀ entry ∈ entries, entry.2.resolve.isSome := by
  induction entries with
  | nil => simp [resolveEntries]
  | cons entry entries ih =>
    obtain ⟨key, node⟩ := entry
    rw [List.forall_mem_cons, ← ih]
    cases here : node.resolve <;> cases found : resolveEntries entries <;>
      simp [resolveEntries, here, found]

theorem resolveItems_eq_self {nodes : List Node} (each : ∀ node ∈ nodes, node.resolve = some node) :
    resolveItems nodes = some nodes := by
  induction nodes with
  | nil => rfl
  | cons node nodes ih =>
    obtain ⟨first, others⟩ := List.forall_mem_cons.mp each
    simp [resolveItems, first, ih others]

theorem resolveEntries_eq_self (each : ∀ entry ∈ entries, entry.2.resolve = some entry.2) :
    resolveEntries entries = some entries := by
  induction entries with
  | nil => rfl
  | cons entry entries ih =>
    obtain ⟨first, others⟩ := List.forall_mem_cons.mp each
    simp [resolveEntries, first, ih others]

theorem keys_resolveEntries (found : resolveEntries entries = some resolved) :
    resolved.map Prod.fst = entries.map Prod.fst := by
  induction entries generalizing resolved with
  | nil =>
    cases found
    rfl
  | cons entry entries ih =>
    obtain ⟨key, node⟩ := entry
    simp only [resolveEntries, Option.bind_eq_bind, Option.bind_eq_some_iff] at found
    obtain ⟨first, _, others, rest, same⟩ := found
    cases same
    simp [ih rest]

theorem lookup_resolveEntries (found : resolveEntries entries = some resolved) (name : String) :
    (SortedMap.lookup name resolved).map some = (SortedMap.lookup name entries).map resolve := by
  induction entries generalizing resolved with
  | nil =>
    cases found
    rfl
  | cons entry entries ih =>
    obtain ⟨key, node⟩ := entry
    simp only [resolveEntries, Option.bind_eq_bind, Option.bind_eq_some_iff] at found
    obtain ⟨first, node, others, rest, same⟩ := found
    cases same
    simp only [SortedMap.lookup]
    split
    · exact congrArg some node.symm
    · exact ih rest

end Node

namespace Table

variable {table resolved : Table}

theorem isSome_resolve_iff :
    table.resolve.isSome ↔ ∀ name node, table.get? name = some node → node.resolve.isSome := by
  rw [resolve, Option.isSome_map, Node.isSome_resolveEntries_iff, Prod.forall]
  simp only [SortedMap.get?_eq_some_iff]

theorem get?_resolve (found : table.resolve = some resolved) (name : String) :
    (resolved.get? name).map some = (table.get? name).map Node.resolve := by
  obtain ⟨entries, read, rfl⟩ := Option.map_eq_some_iff.mp found
  have ascending : (entries.map Prod.fst).Pairwise fun left right => compare left right = .lt := by
    rw [Node.keys_resolveEntries read, List.pairwise_map]
    exact table.ascending
  rw [SortedMap.ofList_of_ascending (List.pairwise_map.mp ascending)]
  exact Node.lookup_resolveEntries read name

theorem get?_resolve_eq_none_iff (found : table.resolve = some resolved) (name : String) :
    resolved.get? name = none ↔ table.get? name = none := by
  rw [← Option.map_eq_none_iff, get?_resolve found, Option.map_eq_none_iff]

theorem isSome_resolve_insert_iff {key : String} {node : Node} (absent : table.get? key = none) :
    (resolve (table.insert key node)).isSome ↔ node.resolve.isSome ∧ table.resolve.isSome := by
  rw [isSome_resolve_iff, isSome_resolve_iff]
  constructor
  · intro every
    refine ⟨every key node (SortedMap.get?_insert_self ..), fun name other found => ?_⟩
    have apart : name ≠ key := by
      rintro rfl
      cases absent.symm.trans found
    exact every name other (found ▸ SortedMap.get?_insert_ne _ _ apart)
  · rintro ⟨here, every⟩ name other found
    by_cases same : name = key
    · rw [same, SortedMap.get?_insert_self] at found
      exact Option.some.inj found ▸ here
    · rw [SortedMap.get?_insert_ne _ _ same] at found
      exact every name other found

theorem resolve_insert_eq_some_iff {key : String} {node : Node} (absent : table.get? key = none) :
    resolve (table.insert key node) = some resolved ↔
      ∃ value others, node.resolve = some value ∧ table.resolve = some others ∧
        resolved = others.insert key value := by
  have eq_insert {value : Node} {others whole : Table} (here : node.resolve = some value)
      (rest : table.resolve = some others) (found : resolve (table.insert key node) = some whole) :
      whole = others.insert key value := by
    apply SortedMap.ext_get?
    intro name
    refine Option.map_injective (fun _ _ => Option.some.inj) ?_
    rw [get?_resolve found, SortedMap.get?_insert, SortedMap.get?_insert]
    split
    · exact congrArg some here
    · exact (get?_resolve rest name).symm
  constructor
  · intro found
    have ⟨here, rest⟩ := (isSome_resolve_insert_iff absent).mp (Option.isSome_of_eq_some found)
    obtain ⟨value, here⟩ := Option.isSome_iff_exists.mp here
    obtain ⟨others, rest⟩ := Option.isSome_iff_exists.mp rest
    exact ⟨value, others, here, rest, eq_insert here rest found⟩
  · rintro ⟨value, others, here, rest, rfl⟩
    have whole := (isSome_resolve_insert_iff absent).mpr
      ⟨Option.isSome_of_eq_some here, Option.isSome_of_eq_some rest⟩
    obtain ⟨resolved, found⟩ := Option.isSome_iff_exists.mp whole
    exact eq_insert here rest found ▸ found

end Table
end Toml
end BuildArgs
