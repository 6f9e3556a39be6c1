/-! Lists that are split at an element: in two ways, in one of their parts, in a prefix, at the first
element without a property, or where their keys reach a given one. -/

namespace BuildArgs

variable {α β : Type}

theorem append_cons_cases {left right after later : List α} {first second : α}
    (same : left ++ first :: after = right ++ second :: later) :
    (left = right ∧ first = second ∧ after = later) ∨
      (∃ between, right = left ++ first :: between ∧ after = between ++ second :: later) ∨
      ∃ between, left = right ++ second :: between ∧ later = between ++ first :: after := by
  rcases List.append_eq_append_iff.mp same with ⟨between, split, tail⟩ | ⟨between, split, tail⟩
  · cases between with
    | nil =>
      obtain ⟨here, rest⟩ := List.cons.inj tail
      exact Or.inl ⟨by simpa using split.symm, here, rest⟩
    | cons head between =>
      obtain ⟨rfl, rest⟩ := List.cons.inj tail
      exact Or.inr (Or.inl ⟨between, split, rest⟩)
  · cases between with
    | nil =>
      obtain ⟨here, rest⟩ := List.cons.inj tail
      exact Or.inl ⟨by simpa using split, here.symm, rest.symm⟩
    | cons head between =>
      obtain ⟨rfl, rest⟩ := List.cons.inj tail
      exact Or.inr (Or.inr ⟨between, split, rest⟩)

theorem exists_of_flatMap_eq {pieces : α → List β} {list : List α} {before after : List β}
    {item : β} (same : list.flatMap pieces = before ++ item :: after) :
    ∃ left middle right inner outer, list = left ++ middle :: right ∧
      pieces middle = inner ++ item :: outer ∧ before = left.flatMap pieces ++ inner := by
  induction list generalizing before with
  | nil => simp at same
  | cons head rest ih =>
    rw [List.flatMap_cons] at same
    rcases List.append_eq_append_iff.mp same with ⟨more, split, tail⟩ | ⟨more, split, tail⟩
    · obtain ⟨left, middle, right, inner, outer, rfl, piece, rfl⟩ := ih tail
      exact ⟨head :: left, middle, right, inner, outer, rfl, piece, by simp [split]⟩
    · cases more with
      | nil =>
        have start : rest.flatMap pieces = [] ++ item :: after := tail.symm
        obtain ⟨left, middle, right, inner, outer, rfl, piece, here⟩ := ih start
        refine ⟨head :: left, middle, right, inner, outer, rfl, piece, ?_⟩
        rw [List.flatMap_cons, List.append_assoc, ← here, split, List.append_nil, List.append_nil]
      | cons first more =>
        obtain ⟨rfl, _⟩ := List.cons.inj tail
        exact ⟨[], head, rest, before, more, rfl, split, rfl⟩

theorem mem_of_prefix {accepted list before after : List α} {first second : α}
    (start : accepted <+: list) (split : list = before ++ first :: after)
    (inside : second ∈ accepted) (outside : second ∉ before) : first ∈ accepted := by
  obtain ⟨rest, same⟩ := start
  rw [split] at same
  rcases List.append_eq_append_iff.mp same with ⟨more, here, _⟩ | ⟨more, here, tail⟩
  · exact absurd (here ▸ List.mem_append_left _ inside) outside
  · cases more with
    | nil =>
      rw [List.append_nil] at here
      exact absurd (here ▸ inside) outside
    | cons head more =>
      obtain ⟨rfl, _⟩ := List.cons.inj tail
      rw [here]
      simp

theorem exists_first_not {property : α → Prop} {list : List α}
    (some_not : ¬ ∀ item ∈ list, property item) :
    ∃ left item right, list = left ++ item :: right ∧ ¬ property item ∧
      ∀ other ∈ left, property other := by
  induction list with
  | nil => exact absurd (by simp) some_not
  | cons head rest ih =>
    by_cases holds : property head
    · have later : ¬ ∀ item ∈ rest, property item := fun all =>
        some_not (List.forall_mem_cons.mpr ⟨holds, all⟩)
      obtain ⟨left, item, right, rfl, broken, before⟩ := ih later
      exact ⟨head :: left, item, right, rfl, broken, List.forall_mem_cons.mpr ⟨holds, before⟩⟩
    · exact ⟨[], head, rest, rfl, holds, by simp⟩

theorem mem_left_of_below {κ : Type} [Ord κ] [Std.OrientedOrd κ] (key : α → κ)
    {left right : List α} {item other : α}
    (ascending : (left ++ item :: right).Pairwise fun one two => compare (key one) (key two) = .lt)
    (member : other ∈ left ++ item :: right) (below : compare (key other) (key item) = .lt) :
    other ∈ left := by
  rcases List.mem_append.mp member with inside | late
  · exact inside
  · exfalso
    rcases List.mem_cons.mp late with rfl | inside
    · simp at below
    · have above := (List.pairwise_cons.mp (List.pairwise_append.mp ascending).2.1).1 other inside
      exact Std.OrientedCmp.not_lt_of_lt above below

end BuildArgs
