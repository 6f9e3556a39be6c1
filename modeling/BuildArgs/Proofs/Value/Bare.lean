import BuildArgs.Value.Order

/-! Values without their origins. Two values are equal exactly when nothing else tells them apart. -/

namespace BuildArgs.Value

mutual

/-- The same value with no origins, neither its own nor those of the values in it. Values that
differ in their origins only, at whatever depth, are the same without them. -/
def bare : Value → Value
  | .none _ => .none Option.none
  | .boolean _ value => .boolean Option.none value
  | .integer _ value => .integer Option.none value
  | .string _ value => .string Option.none value
  | .list _ items => .list Option.none (bareItems items)
  | .scope _ entries => .scope Option.none (bareEntries entries)

def bareItems : List Value → List Value
  | [] => []
  | item :: rest => item.bare :: bareItems rest

def bareEntries : List (String × Value) → List (String × Value)
  | [] => []
  | (name, value) :: rest => (name, value.bare) :: bareEntries rest

end

theorem bareItems_eq_map (items : List Value) : bareItems items = items.map bare := by
  induction items with
  | nil => rfl
  | cons item rest ih => rw [bareItems, ih, List.map_cons]

theorem bareEntries_eq_map (entries : List (String × Value)) :
    bareEntries entries = entries.map fun entry => (entry.1, entry.2.bare) := by
  induction entries with
  | nil => rfl
  | cons entry rest ih => rw [bareEntries, ih, List.map_cons]

theorem sameItems_iff {items others : List Value}
    (each : ∀ item ∈ items, ∀ other, item.same other = true ↔ item.bare = other.bare) :
    sameItems items others = true ↔ bareItems items = bareItems others := by
  induction items generalizing others with
  | nil => cases others <;> simp [sameItems, bareItems]
  | cons item rest ih =>
    obtain ⟨first, later⟩ := List.forall_mem_cons.mp each
    cases others with
    | nil => simp [sameItems, bareItems]
    | cons other others => simp [sameItems, bareItems, first, ih later]

theorem sameEntries_iff {entries others : List (String × Value)}
    (each : ∀ entry ∈ entries, ∀ other, entry.2.same other = true ↔ entry.2.bare = other.bare) :
    sameEntries entries others = true ↔ bareEntries entries = bareEntries others := by
  induction entries generalizing others with
  | nil => cases others <;> simp [sameEntries, bareEntries]
  | cons entry rest ih =>
    obtain ⟨first, later⟩ := List.forall_mem_cons.mp each
    cases others with
    | nil => simp [sameEntries, bareEntries]
    | cons other others => simp [sameEntries, bareEntries, first, ih later, and_assoc]

theorem same_iff {left right : Value} : left.same right = true ↔ left.bare = right.bare := by
  induction left using Value.induction generalizing right with
  | list origin items each =>
    cases right with
    | list => simpa [same, bare] using sameItems_iff fun item member other => each item member
    | _ => simp [same, bare]
  | scope origin entries each =>
    cases right with
    | scope => simpa [same, bare] using sameEntries_iff fun entry member other => each entry member
    | _ => simp [same, bare]
  | _ => cases right <;> simp [same, bare]

theorem beq_iff {left right : Value} : (left == right) = true ↔ left.bare = right.bare := same_iff

theorem beq_congr {left other right another : Value} (first : left.bare = other.bare)
    (second : right.bare = another.bare) : (left == right) = (other == another) := by
  rw [Bool.eq_iff_iff, beq_iff, beq_iff, first, second]

end BuildArgs.Value
