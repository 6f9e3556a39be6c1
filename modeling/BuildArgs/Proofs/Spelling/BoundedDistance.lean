import BuildArgs.Proofs.Spelling.Edits

/-! The table of distances. Its rows belong to the beginnings of one text and its cells to those of
the other. Each row is computed from the one before, and once every cell of a row exceeds the bound
the distance of the whole texts does so too. -/

namespace BuildArgs.Spelling

/-- The distances of one text to the longer and longer beginnings of another, of which a part was
passed. Both texts stand backwards, the characters seen last in front. -/
def cellsAfter (seen : List Char) : List Char → List Char → List Nat
  | _, [] => []
  | passed, d :: right => distance seen (d :: passed) :: cellsAfter seen (d :: passed) right

def tableRow (seen right : List Char) : List Nat := distance seen [] :: cellsAfter seen [] right

theorem nextCells_cellsAfter (c : Char) (seen passed right : List Char) :
    nextCells c right (distance seen passed) (cellsAfter seen passed right)
      (distance (c :: seen) passed) = cellsAfter (c :: seen) passed right := by
  induction right generalizing passed with
  | nil => rfl
  | cons d right ih =>
    simp only [cellsAfter, nextCells]
    rw [← distance_cons_cons, ih]

theorem nextRow_tableRow (c : Char) (seen right : List Char) :
    nextRow c right (tableRow seen right) = tableRow (c :: seen) right := by
  have first : distance seen [] + 1 = distance (c :: seen) [] := by simp
  simp only [nextRow, tableRow]
  rw [first, nextCells_cellsAfter]

theorem range_eq_tableRow (right : List Char) :
    List.range (right.length + 1) = tableRow [] right := by
  have later : ∀ passed : List Char,
      List.range' (passed.length + 1) right.length = cellsAfter [] passed right := by
    induction right with
    | nil => intro passed; rfl
    | cons d right ih =>
      intro passed
      rw [cellsAfter, ← ih (d :: passed), distance_nil_left]
      rfl
  rw [List.range_eq_range', List.range'_succ, tableRow, ← later [], distance_nil_left]
  rfl

theorem getLastD_tableRow (seen right : List Char) :
    (tableRow seen right).getLastD 0 = distance seen right.reverse := by
  have later : ∀ passed : List Char,
      (distance seen passed :: cellsAfter seen passed right).getLastD 0 =
        distance seen (right.reverse ++ passed) := by
    induction right with
    | nil => intro passed; rfl
    | cons d right ih =>
      intro passed
      rw [List.reverse_cons, List.append_assoc]
      exact ih (d :: passed)
  exact (later []).trans (congrArg _ (List.append_nil _))

theorem distance_mem_tableRow {seen right early late : List Char} (split : right = early ++ late) :
    distance seen early.reverse ∈ tableRow seen right := by
  have later : ∀ passed : List Char,
      distance seen (early.reverse ++ passed) ∈
        distance seen passed :: cellsAfter seen passed right := by
    subst split
    induction early with
    | nil => intro passed; exact List.mem_cons_self
    | cons d early ih =>
      intro passed
      rw [List.reverse_cons, List.append_assoc]
      exact List.mem_cons_of_mem _ (ih (d :: passed))
  have member := later []
  rwa [List.append_nil] at member

/-- What is left of the computation gives the distance of the whole texts, or gives up on a bound
that the distance exceeds. -/
theorem finalCell_tableRow (bound : Nat) (seen right left : List Char) :
    let whole := distance (seen.reverse ++ left) right
    finalCell bound right left (tableRow seen right) = whole ∨
      finalCell bound right left (tableRow seen right) = bound + 1 ∧ bound < whole := by
  induction left generalizing seen with
  | nil =>
    intro whole
    left
    rw [finalCell, getLastD_tableRow, ← distance_reverse, List.reverse_reverse]
    exact congrArg (distance · right) (List.append_nil _).symm
  | cons c left ih =>
    have later := ih (c :: seen)
    rw [List.reverse_cons, List.append_assoc] at later
    simp only [finalCell, nextRow_tableRow]
    split
    · rename_i all
      refine Or.inr ⟨rfl, ?_⟩
      have cells : ∀ cell ∈ tableRow (c :: seen) right, bound < cell := by
        simpa [List.all_eq_true] using all
      have far : bound < distance ((c :: seen).reverse ++ left) right := by
        apply lt_distance_append
        intro early late split
        have cell := cells _ (distance_mem_tableRow split)
        rwa [← distance_reverse, List.reverse_reverse] at cell
      rwa [List.reverse_cons, List.append_assoc] at far
    · exact later

theorem boundedDistance_cases (left right : List Char) (bound : Nat) :
    boundedDistance left right bound = distance left right ∨
      boundedDistance left right bound = bound + 1 ∧ bound < distance left right := by
  rw [boundedDistance]
  split
  · rename_i short
    exact Or.inr ⟨rfl, Nat.lt_of_lt_of_le short (length_sub_le_distance left right)⟩
  · rw [range_eq_tableRow]
    exact finalCell_tableRow bound [] right left

theorem boundedDistance_of_le {left right : List Char} {bound : Nat}
    (near : distance left right ≤ bound) :
    boundedDistance left right bound = distance left right := by
  rcases boundedDistance_cases left right bound with exact | ⟨_, far⟩
  · exact exact
  · omega

theorem boundedDistance_le_iff {left right : List Char} {bound : Nat} :
    boundedDistance left right bound ≤ bound ↔ distance left right ≤ bound := by
  rcases boundedDistance_cases left right bound with exact | ⟨next, far⟩
  · rw [exact]
  · omega

end BuildArgs.Spelling
