import BuildArgs.Assignment

/-! The parts of values, and what is asked of every part of a value. -/

namespace BuildArgs.Value

mutual

/-- A value and all values in it, at whatever depth. -/
def parts : Value → List Value
  | .list origin items => .list origin items :: itemsParts items
  | .scope origin entries => .scope origin entries :: entriesParts entries
  | value => [value]

def itemsParts : List Value → List Value
  | [] => []
  | item :: rest => item.parts ++ itemsParts rest

def entriesParts : List (String × Value) → List Value
  | [] => []
  | (_, value) :: rest => value.parts ++ entriesParts rest

end

theorem itemsParts_eq_flatMap (items : List Value) : itemsParts items = items.flatMap parts := by
  induction items with
  | nil => rfl
  | cons item rest ih => rw [itemsParts, ih, List.flatMap_cons]

theorem entriesParts_eq_flatMap (entries : List (String × Value)) :
    entriesParts entries = entries.flatMap fun entry => entry.2.parts := by
  induction entries with
  | nil => rfl
  | cons entry rest ih => rw [entriesParts, ih, List.flatMap_cons]

variable {property : Value → Prop} {origin : Option Origin}

theorem forall_parts_list {items : List Value} :
    (∀ part ∈ (list origin items).parts, property part) ↔
      property (.list origin items) ∧ ∀ item ∈ items, ∀ part ∈ item.parts, property part := by
  rw [parts, itemsParts_eq_flatMap, List.forall_mem_cons, List.forall_mem_flatMap]

theorem forall_parts_scope {entries : List (String × Value)} :
    (∀ part ∈ (scope origin entries).parts, property part) ↔
      property (.scope origin entries) ∧
        ∀ entry ∈ entries, ∀ part ∈ entry.2.parts, property part := by
  rw [parts, entriesParts_eq_flatMap, List.forall_mem_cons, List.forall_mem_flatMap]

def names : Value → List String
  | .scope _ entries => entries.map Prod.fst
  | _ => []

/-- Whether all names in a value are identifiers, at whatever depth. -/
def WellNamed (value : Value) : Prop :=
  ∀ part ∈ value.parts, ∀ name ∈ part.names, Assignment.isIdentifier name.toList = true

instance (value : Value) : Decidable value.WellNamed :=
  inferInstanceAs (Decidable (∀ part ∈ value.parts, ∀ name ∈ part.names, _ = true))

theorem wellNamed_list_iff {items : List Value} :
    (list origin items).WellNamed ↔ ∀ item ∈ items, item.WellNamed := by
  refine forall_parts_list.trans (and_iff_right ?_)
  simp [names]

theorem wellNamed_scope_iff {entries : List (String × Value)} :
    (scope origin entries).WellNamed ↔ ∀ entry ∈ entries,
      Assignment.isIdentifier entry.1.toList = true ∧ entry.2.WellNamed := by
  refine forall_parts_scope.trans ?_
  rw [names, List.forall_mem_map]
  exact ⟨fun both entry member => ⟨both.1 entry member, both.2 entry member⟩,
    fun each => ⟨fun entry member => (each entry member).1, fun entry member => (each entry member).2⟩⟩

end BuildArgs.Value
