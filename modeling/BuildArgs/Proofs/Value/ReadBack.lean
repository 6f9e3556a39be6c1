import BuildArgs.Proofs.Toml.Collections
import BuildArgs.Proofs.Toml.Leaves
import BuildArgs.Proofs.Toml.Resolving
import BuildArgs.Value.Toml

/-! The notation of a value as TOML. A value without none, with names that are identifiers and with
strings that the notation and TOML write alike, is read back whatever follows it, up to the depth of the
reader. -/

namespace BuildArgs

namespace Toml.Node

theorem resolve_table_eq_self {entries : List (String × Node)}
    (ascending : entries.Pairwise fun left right => compare left.1 right.1 = .lt)
    (named : ∀ entry ∈ entries, Assignment.isIdentifier entry.1.toList = true)
    (each : ∀ entry ∈ entries, entry.2.resolve = some entry.2) :
    (table entries).resolve = some (table entries) := by
  have untagged : tagged? entries = none := by
    cases entries with
    | nil => rfl
    | cons entry entries =>
      have apart : entry.1 ≠ temporalKey := by
        intro same
        have identifier := named entry List.mem_cons_self
        rw [same] at identifier
        exact absurd identifier (by decide)
      simp [tagged?, apart]
  simp [resolve, untagged, resolveEntries_eq_self each, SortedMap.ofList_of_ascending ascending]

end Toml.Node

namespace Value

open Toml (Node Reads readValue)

mutual

def nesting : Value → Nat
  | .list _ items => itemsNesting items + 1
  | .scope _ entries => entriesNesting entries + 1
  | _ => 0

def itemsNesting : List Value → Nat
  | [] => 0
  | item :: rest => max item.nesting (itemsNesting rest)

def entriesNesting : List (String × Value) → Nat
  | [] => 0
  | (_, value) :: rest => max value.nesting (entriesNesting rest)

end

variable {origin : Option Origin} {items : List Value} {entries : List (String × Value)} {room : Nat}

theorem itemsNesting_le_iff : itemsNesting items ≤ room ↔ ∀ item ∈ items, item.nesting ≤ room := by
  induction items with
  | nil => simp [itemsNesting]
  | cons item rest ih => rw [itemsNesting, Nat.max_le, ih, List.forall_mem_cons]

theorem entriesNesting_le_iff :
    entriesNesting entries ≤ room ↔ ∀ entry ∈ entries, entry.2.nesting ≤ room := by
  induction entries with
  | nil => simp [entriesNesting]
  | cons entry rest ih => rw [entriesNesting, Nat.max_le, ih, List.forall_mem_cons]

/-- Whether the entries of every scope in a value stand in the order of a map, each name once. -/
def Ascending (value : Value) : Prop :=
  ∀ part ∈ value.parts, part.names.Pairwise fun left right => compare left right = .lt

instance (value : Value) : Decidable value.Ascending :=
  inferInstanceAs (Decidable (∀ part ∈ value.parts, List.Pairwise _ _))

/-- Whether a value by itself, without those in it, is written as TOML writes it: TOML has no none, a
key without quotes is made of a few characters only, and in strings a dollar sign and most control
characters are written otherwise. -/
structure Plain (value : Value) : Prop where
  present : value.kindName ≠ "none"
  named : ∀ name ∈ value.names, Assignment.isIdentifier name.toList = true
  unmarked : ∀ text ∈ value.string?, ∀ c ∈ text.toList, c ≠ '$' ∧ Toml.isPlain c = true

theorem plain_iff (value : Value) : value.Plain ↔ value.kindName ≠ "none" ∧
    (∀ name ∈ value.names, Assignment.isIdentifier name.toList = true) ∧
    ∀ text ∈ value.string?, text.toList.all (fun c => c ≠ '$' && Toml.isPlain c) = true := by
  constructor
  · intro plain
    exact ⟨plain.present, plain.named, by simpa using plain.unmarked⟩
  · rintro ⟨present, named, unmarked⟩
    exact ⟨present, named, by simpa using unmarked⟩

instance (value : Value) : Decidable value.Plain := decidable_of_iff' _ value.plain_iff

/-- Whether a value and all values in it are written as TOML writes them. -/
def Readable (value : Value) : Prop := ∀ part ∈ value.parts, part.Plain

instance (value : Value) : Decidable value.Readable :=
  inferInstanceAs (Decidable (∀ part ∈ value.parts, part.Plain))

mutual

/-- What the notation of a value is as TOML. There is no none in TOML, only the text of it. -/
def toNode : Value → Node
  | .none origin => .string (text (.none origin))
  | .boolean _ value => .boolean value
  | .integer _ value => .integer value
  | .string _ value => .string value
  | .list _ items => .array (itemNodes items)
  | .scope _ entries => .table (entryNodes entries)

def itemNodes : List Value → List Node
  | [] => []
  | item :: rest => item.toNode :: itemNodes rest

def entryNodes : List (String × Value) → List (String × Node)
  | [] => []
  | (name, value) :: rest => (name, value.toNode) :: entryNodes rest

end

theorem itemNodes_eq_map (items : List Value) : itemNodes items = items.map toNode := by
  induction items with
  | nil => rfl
  | cons item rest ih => rw [itemNodes, ih, List.map_cons]

theorem entryNodes_eq_map (entries : List (String × Value)) :
    entryNodes entries = entries.map fun entry => (entry.1, entry.2.toNode) := by
  induction entries with
  | nil => rfl
  | cons entry rest ih => rw [entryNodes, ih, List.map_cons]

theorem nodup_of_ascending {names : List String}
    (ascending : names.Pairwise fun left right => compare left right = .lt) : names.Nodup :=
  ascending.imp fun below same => by
    rw [same] at below
    simp at below

theorem reads_chars {value : Value} (ascending : value.Ascending) (readable : value.Readable)
    (fits : value.nesting ≤ room) : Reads (readValue room) value.chars value.toNode := by
  induction value using Value.induction generalizing room with
  | none origin => exact absurd rfl (readable _ List.mem_cons_self).present
  | boolean origin value =>
    exact Toml.reads_readValue (leads_chars (.boolean origin value)) (by simp [rank])
      (Toml.reads_readLeaf_boolean value origin)
  | integer origin value =>
    exact Toml.reads_readValue (leads_chars (.integer origin value)) (by simp [rank])
      (Toml.reads_readLeaf_decimal value)
  | string origin value =>
    have plain := (readable _ List.mem_cons_self).unmarked value rfl
    exact Toml.reads_readValue (leads_chars (.string origin value)) (by simp [rank])
      (Toml.reads_readLeaf_quote plain)
  | list origin items each =>
    have ascending := (forall_parts_list.mp ascending).2
    have readable := (forall_parts_list.mp readable).2
    cases room with
    | zero => cases fits
    | succ room =>
      have fits := itemsNesting_le_iff.mp (Nat.le_of_succ_le_succ fits)
      rw [chars, itemChars_eq_joined, toNode, itemNodes_eq_map]
      exact Toml.reads_array (fun item _ => ⟨_, leads_chars item⟩) fun item member =>
        each item member (ascending item member) (readable item member) (fits item member)
  | scope origin entries each =>
    have ascending := forall_parts_scope.mp ascending
    have readable := forall_parts_scope.mp readable
    cases room with
    | zero => cases entries <;> cases fits
    | succ room =>
      have fits := entriesNesting_le_iff.mp (Nat.le_of_succ_le_succ fits)
      have named : ∀ entry ∈ entries, Assignment.isIdentifier entry.1.toList = true :=
        List.forall_mem_map.mp readable.1.named
      have inside : ∀ entry ∈ entries,
          Reads (readValue room) entry.2.chars entry.2.toNode := fun entry member =>
        each entry member (ascending.2 entry member) (readable.2 entry member) (fits entry member)
      rw [toNode, entryNodes_eq_map]
      cases entries with
      | nil => exact fun rest _ => rfl
      | cons entry entries =>
        rw [chars_scope_cons]
        exact Toml.reads_table named (nodup_of_ascending ascending.1)
          (fun entry _ => ⟨_, leads_chars entry.2⟩) inside

theorem resolve_toNode {value : Value} (ascending : value.Ascending) (readable : value.Readable) :
    value.toNode.resolve = some value.toNode := by
  induction value using Value.induction with
  | list origin items each =>
    have ascending := (forall_parts_list.mp ascending).2
    have readable := (forall_parts_list.mp readable).2
    have nodes : Node.resolveItems (items.map toNode) = some (items.map toNode) := by
      refine Node.resolveItems_eq_self (List.forall_mem_map.mpr fun item member => ?_)
      exact each item member (ascending item member) (readable item member)
    rw [toNode, itemNodes_eq_map, Node.resolve, nodes, Option.map_some]
  | scope origin entries each =>
    have ascending := forall_parts_scope.mp ascending
    have readable := forall_parts_scope.mp readable
    have named : ∀ entry ∈ entries, Assignment.isIdentifier entry.1.toList = true :=
      List.forall_mem_map.mp readable.1.named
    rw [toNode, entryNodes_eq_map]
    refine Node.resolve_table_eq_self ?_ ?_ ?_
    · rw [List.pairwise_map]
      exact List.pairwise_map.mp ascending.1
    · exact List.forall_mem_map.mpr named
    · refine List.forall_mem_map.mpr fun entry member => ?_
      exact each entry member (ascending.2 entry member) (readable.2 entry member)
  | _ => rfl

theorem bare_ofNode_toNode {value : Value} (readable : value.Readable) (place : Origin) :
    (ofNode place value.toNode).bare = value.bare := by
  induction value using Value.induction with
  | none origin => exact absurd rfl (readable _ List.mem_cons_self).present
  | list origin items each =>
    have readable := (forall_parts_list.mp readable).2
    rw [toNode, itemNodes_eq_map, ofNode, ofNodes_eq_map, bare, bare, bareItems_eq_map,
      bareItems_eq_map, List.map_map, List.map_map]
    refine congrArg _ (List.map_congr_left fun item member => ?_)
    exact each item member (readable item member)
  | scope origin entries each =>
    have readable := (forall_parts_scope.mp readable).2
    rw [toNode, entryNodes_eq_map, ofNode, ofNodeEntries_eq_map, bare, bare, bareEntries_eq_map,
      bareEntries_eq_map, List.map_map, List.map_map]
    refine congrArg _ (List.map_congr_left fun entry member => ?_)
    exact Prod.ext rfl (each entry member (readable entry member))
  | _ => rfl

end Value
end BuildArgs
