import BuildArgs.Proofs.Toml.Building
import BuildArgs.Proofs.Toml.Strings

/-! What the readers of keys and values leave. -/

namespace BuildArgs.Toml

variable {α : Type} {text rest : List Char}

/-- Whether a reader leaves an end of every text that it accepts. -/
def Leaves (reader : Reader α) : Prop :=
  ∀ ⦃text value rest⦄, reader text = some (value, rest) → rest <:+ text

@[grind →]
theorem suffix_of_simpleKey {key : String} (found : simpleKey text = some (key, rest)) :
    rest <:+ text := by
  unfold simpleKey at found
  split at found
  · obtain ⟨⟨chars, later⟩, read, same⟩ := Option.map_eq_some_iff.mp found
    cases same
    exact ((fits_basicString read).skip ['"']).1
  · obtain ⟨⟨chars, later⟩, read, same⟩ := Option.map_eq_some_iff.mp found
    cases same
    exact ((fits_literalString read).skip ['\'']).1
  · grind [List.dropWhile_suffix]

@[grind →]
theorem suffix_of_keyParts {most : Nat} {path : List String}
    (found : keyParts most text = some (path, rest)) : rest <:+ text := by
  induction most generalizing text path rest with
  | zero => cases found
  | succ most ih =>
    simp only [keyParts, Option.bind_eq_bind, Option.bind_eq_some_iff, Prod.exists] at found
    obtain ⟨part, first, read, found⟩ := found
    have inside : skipBlank first <:+ text :=
      (skipBlank_suffix first).trans ((suffix_of_simpleKey read).trans (skipBlank_suffix text))
    split at found
    · rename_i after start
      obtain ⟨⟨parts, later⟩, more, same⟩ := Option.bind_eq_some_iff.mp found
      cases same
      exact (ih more).trans ((List.suffix_cons _ _).trans (start ▸ inside))
    · cases found
      exact inside

theorem suffix_of_arrayItems {item : Reader Node} (leaves : Leaves item) {steps : Nat}
    {items : List Node} (found : arrayItems item steps text = some (items, rest)) :
    rest <:+ text := by
  induction steps generalizing text items rest with
  | zero => cases found
  | succ steps ih =>
    simp only [arrayItems, Option.bind_eq_bind, Option.bind_eq_some_iff] at found
    obtain ⟨start, skipped, found⟩ := found
    have inside := suffix_of_skipLines skipped
    split at found
    · cases found
      exact (List.suffix_cons _ _).trans inside
    · obtain ⟨⟨first, after⟩, read, found⟩ := Option.bind_eq_some_iff.mp found
      obtain ⟨mark, passed, found⟩ := Option.bind_eq_some_iff.mp found
      have between := (suffix_of_skipLines passed).trans ((leaves read).trans inside)
      split at found
      · obtain ⟨⟨others, later⟩, more, same⟩ := Option.bind_eq_some_iff.mp found
        cases same
        exact (ih more).trans ((List.suffix_cons _ _).trans between)
      · cases found
        exact (List.suffix_cons _ _).trans between
      · cases found

theorem shorter_of_readAssignment {item : Reader Node} (leaves : Leaves item)
    {assignment : List String × Node}
    (found : readAssignment item text = some (assignment, rest)) :
    rest <:+ text ∧ rest.length < text.length := by
  simp only [readAssignment, Option.bind_eq_bind, Option.bind_eq_some_iff, Prod.exists] at found
  obtain ⟨path, sign, key, start, equals, value, later, read, same⟩ := found
  cases same
  have inside : '=' :: start <:+ text := expect_eq_some_iff.mp equals ▸ suffix_of_keyParts key
  have inner : rest <:+ start := (leaves read).trans (skipBlank_suffix start)
  exact ⟨inner.trans ((List.suffix_cons _ _).trans inside),
    Nat.lt_of_le_of_lt inner.length_le inside.length_le⟩

theorem suffix_of_inlineAssignments {item : Reader Node} (leaves : Leaves item) {steps : Nat}
    {assignments : List (List String × Node)}
    (found : inlineAssignments item steps text = some (assignments, rest)) : rest <:+ text := by
  induction steps generalizing text assignments rest with
  | zero => cases found
  | succ steps ih =>
    simp only [inlineAssignments, Option.bind_eq_bind, Option.bind_eq_some_iff, Prod.exists] at found
    obtain ⟨path, node, after, read, found⟩ := found
    have inside : skipBlank after <:+ text :=
      (skipBlank_suffix after).trans (shorter_of_readAssignment leaves read).1
    split at found
    · rename_i start
      obtain ⟨⟨others, later⟩, more, same⟩ := Option.bind_eq_some_iff.mp found
      cases same
      exact (ih more).trans ((List.suffix_cons _ _).trans (start ▸ inside))
    · rename_i start
      cases found
      exact (List.suffix_cons _ _).trans (start ▸ inside)
    · cases found

theorem suffix_of_inlineTable {item : Reader Node} (leaves : Leaves item) {node : Node}
    (found : inlineTable item text = some (node, rest)) : rest <:+ text := by
  unfold inlineTable at found
  split at found
  · rename_i start
    cases found
    exact (List.suffix_cons _ _).trans (start ▸ skipBlank_suffix text)
  · simp only [Option.bind_eq_bind, Option.bind_eq_some_iff, Prod.exists] at found
    obtain ⟨assignments, later, read, draft, _, same⟩ := found
    cases same
    exact (suffix_of_inlineAssignments leaves read).trans (skipBlank_suffix text)

@[grind →]
theorem suffix_of_readNumeral {node : Node} (found : readNumeral text = some (node, rest)) :
    rest <:+ text := by
  simp only [readNumeral, Option.bind_eq_bind] at found
  grind [Option.bind_eq_some_iff]

theorem suffix_of_readLeaf {node : Node} (found : readLeaf text = some (node, rest)) :
    rest <:+ text := by
  unfold readLeaf at found
  split at found
  · cases found
  · split at found
    · obtain ⟨⟨chars, later⟩, read, same⟩ := Option.map_eq_some_iff.mp found
      cases same
      exact (fits_readString read).1
    · grind [Option.map_eq_some_iff]

theorem leaves_readValue (room : Nat) : Leaves (readValue room) := by
  induction room with
  | zero =>
    intro text node rest found
    unfold readValue at found
    split at found
    · cases found
    · cases found
    · exact suffix_of_readLeaf found
  | succ room ih =>
    intro text node rest found
    unfold readValue at found
    split at found
    · obtain ⟨⟨items, later⟩, read, same⟩ := Option.map_eq_some_iff.mp found
      cases same
      exact (suffix_of_arrayItems ih read).trans (List.suffix_cons _ _)
    · exact (suffix_of_inlineTable ih found).trans (List.suffix_cons _ _)
    · exact suffix_of_readLeaf found

theorem readNumeral_ne_string {value : String} :
    readNumeral text ≠ some (.string value, rest) := by
  intro found
  unfold readNumeral at found
  split at found
  · cases found
  · obtain ⟨⟨number, later⟩, _, same⟩ := Option.bind_eq_some_iff.mp found
    cases number <;> cases same

theorem length_lt_of_readLeaf {value : String}
    (found : readLeaf text = some (.string value, rest)) : value.length < text.length := by
  unfold readLeaf at found
  split at found
  · cases found
  split at found
  · obtain ⟨⟨chars, later⟩, read, same⟩ := Option.map_eq_some_iff.mp found
    cases same
    rw [String.length_ofList]
    exact Nat.lt_of_le_of_lt (Nat.le_add_right _ _) (fits_readString read).2
  split at found
  · obtain ⟨_, _, same⟩ := Option.map_eq_some_iff.mp found
    cases same
  split at found
  · obtain ⟨_, _, same⟩ := Option.map_eq_some_iff.mp found
    cases same
  · exact absurd found readNumeral_ne_string

/-- A string is written with more characters than it has. -/
theorem length_lt_of_readValue {room : Nat} {value : String}
    (found : readValue room text = some (.string value, rest)) : value.length < text.length := by
  unfold readValue at found
  split at found
  · split at found
    · cases found
    · obtain ⟨_, _, same⟩ := Option.map_eq_some_iff.mp found
      cases same
  · split at found
    · cases found
    · unfold inlineTable at found
      split at found
      · cases found
      · simp only [Option.bind_eq_bind, Option.bind_eq_some_iff, Prod.exists] at found
        obtain ⟨_, _, _, draft, built, same⟩ := found
        obtain ⟨standing, entries, rfl⟩ := Draft.exists_table_of_ofAssignments built
        cases same
  · exact length_lt_of_readLeaf found

end BuildArgs.Toml
