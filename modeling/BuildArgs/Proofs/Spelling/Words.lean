import Mathlib
import BuildArgs.Proofs.Spelling.BoundedDistance

/-! The computation of the bounded distance as a machine does it, with two rows of words that change
places. Every access to a row or a text and every sum is checked. None of them fails, and the result
is the same. -/

namespace BuildArgs.Spelling

/-- The sum of two words, unless it exceeds the greatest word. -/
def addWords (greatest first second : Nat) : Option Nat :=
  if first + second ≤ greatest then some (first + second) else none

def writeCell (row : Array Nat) (index cell : Nat) : Option (Array Nat) :=
  if index < row.size then some (row.setIfInBounds index cell) else none

def fillCell (greatest : Nat) (left right : Array Char) (previous : Array Nat) (i : Nat)
    (filled : Array Nat × Nat) (j : Nat) : Option (Array Nat × Nat) := do
  let c ← left[i - 1]?
  let d ← right[j - 1]?
  let deletion ← addWords greatest (← previous[j]?) 1
  let insertion ← addWords greatest (← filled.1[j - 1]?) 1
  let substitution ← addWords greatest (← previous[j - 1]?) (if c = d then 0 else 1)
  let cell := min (min deletion insertion) substitution
  let row ← writeCell filled.1 j cell
  return (row, min filled.2 cell)

def fillRows (greatest bound : Nat) (left right : Array Char) :
    List Nat → Array Nat → Array Nat → Option Nat
  | [], previous, _ => previous[right.size]?
  | i :: rest, previous, current => do
    let current ← writeCell current 0 i
    let filled ← (List.range' 1 right.size).foldlM (fillCell greatest left right previous i)
      (current, i)
    if bound < filled.2 then addWords greatest bound 1
    else fillRows greatest bound left right rest filled.1 previous

def wordDistance? (greatest : Nat) (left right : List Char) (bound : Nat) : Option Nat :=
  if bound < max left.length right.length - min left.length right.length then
    addWords greatest bound 1
  else do
    let size ← addWords greatest right.length 1
    fillRows greatest bound left.toArray right.toArray (List.range' 1 left.length)
      (Array.range size) (Array.replicate size 0)

def cellAt (seen right : List Char) (place : Nat) : Nat := distance seen (right.take place).reverse

variable {seen left right : List Char} {greatest bound i j place : Nat} {c d : Char}

theorem length_tableRow (seen right : List Char) :
    (tableRow seen right).length = right.length + 1 := by
  have later : ∀ passed, (cellsAfter seen passed right).length = right.length := by
    induction right with
    | nil => intro passed; rfl
    | cons d right ih => intro passed; simp [cellsAfter, ih]
  simp [tableRow, later]

theorem getElem?_tableRow (inside : place ≤ right.length) :
    (tableRow seen right)[place]? = some (cellAt seen right place) := by
  have later : ∀ passed, (distance seen passed :: cellsAfter seen passed right)[place]? =
      some (distance seen ((right.take place).reverse ++ passed)) := by
    induction right generalizing place with
    | nil =>
      intro passed
      obtain rfl : place = 0 := by simpa using inside
      rfl
    | cons d right ih =>
      intro passed
      cases place with
      | zero => rfl
      | succ place =>
        have next := ih (Nat.le_of_succ_le_succ inside) (d :: passed)
        simpa [cellsAfter] using next
  have cell := later []
  rwa [List.append_nil] at cell

theorem cellAt_succ (here : right[j]? = some d) :
    cellAt (c :: seen) right (j + 1) =
      min (min (cellAt seen right (j + 1) + 1) (cellAt (c :: seen) right j + 1))
        (cellAt seen right j + if c = d then 0 else 1) := by
  have next : (right.take (j + 1)).reverse = d :: (right.take j).reverse := by
    rw [List.take_add_one, here]
    simp
  simp only [cellAt, next]
  exact distance_cons_cons c d seen (right.take j).reverse

theorem cellAt_le (seen right : List Char) (place : Nat) :
    cellAt seen right place ≤ max seen.length right.length := by
  have bounded := distance_le_length seen (right.take place).reverse
  rw [List.length_reverse, List.length_take] at bounded
  exact Nat.le_trans bounded (by omega)

/-- A row whose cells are filled up to a place, and the least of them. -/
structure Filled (seen right : List Char) (place : Nat) (filled : Array Nat × Nat) : Prop where
  size : filled.1.size = right.length + 1
  cells : ∀ k ≤ place, filled.1[k]? = some (cellAt seen right k)
  lower : ∀ k ≤ place, filled.2 ≤ cellAt seen right k
  reached : ∃ k ≤ place, filled.2 = cellAt seen right k

namespace Filled

variable {filled : Array Nat × Nat} {previous : Array Nat}

theorem write (held : Filled seen right place filled) (inside : place < right.length) :
    ∃ row, writeCell filled.1 (place + 1) (cellAt seen right (place + 1)) = some row ∧
      Filled seen right (place + 1) (row, min filled.2 (cellAt seen right (place + 1))) := by
  have room : place + 1 < filled.1.size := by
    rw [held.size]
    omega
  refine ⟨_, if_pos room, by simp [held.size], ?_, ?_, ?_⟩
  · intro k before
    rw [Array.getElem?_setIfInBounds]
    by_cases same : place + 1 = k
    · subst same
      rw [if_pos rfl, if_pos room]
    · rw [if_neg same]
      exact held.cells k (by omega)
  · intro k before
    by_cases same : k = place + 1
    · subst same
      exact Nat.min_le_right _ _
    · exact Nat.le_trans (Nat.min_le_left _ _) (held.lower k (by omega))
  · obtain ⟨k, before, least⟩ := held.reached
    rcases Nat.le_total filled.2 (cellAt seen right (place + 1)) with below | above
    · exact ⟨k, by omega, by rw [← least]; exact Nat.min_eq_left below⟩
    · exact ⟨place + 1, Nat.le_refl _, Nat.min_eq_right above⟩

theorem exists_next (held : Filled (c :: seen) right place filled)
    (above : previous.toList = tableRow seen right) (inside : place < right.length)
    (char : left[i]? = some c) (room : max (seen.length + 1) right.length < greatest) :
    ∃ next,
      fillCell greatest left.toArray right.toArray previous (i + 1) filled (place + 1) = some next ∧
      Filled (c :: seen) right (place + 1) next := by
  have reads : ∀ k ≤ right.length, previous[k]? = some (cellAt seen right k) := by
    intro k before
    rw [← Array.getElem?_toList, above, getElem?_tableRow before]
  have sums : ∀ k step, step ≤ 1 →
      addWords greatest (cellAt seen right k) step = some (cellAt seen right k + step) := by
    intro k step small
    have bounded := cellAt_le seen right k
    exact if_pos (by omega)
  have sum : addWords greatest (cellAt (c :: seen) right place) 1 =
      some (cellAt (c :: seen) right place + 1) := by
    have bounded := cellAt_le (c :: seen) right place
    rw [List.length_cons] at bounded
    exact if_pos (by omega)
  have here : right[place]? = some right[place] := List.getElem?_eq_getElem inside
  obtain ⟨row, written, next⟩ := held.write inside
  refine ⟨_, ?_, next⟩
  rw [cellAt_succ here] at written
  simp only [fillCell, Nat.add_sub_cancel, List.getElem?_toArray, char, here,
    reads _ inside, reads _ (Nat.le_of_lt inside), held.cells place (Nat.le_refl _), sum,
    sums _ 1 (Nat.le_refl _), sums _ (if c = right[place] then 0 else 1) (by split <;> omega),
    Option.bind_eq_bind, Option.bind_some, written, cellAt_succ here]
  rfl

theorem exists_final (held : Filled (c :: seen) right place filled)
    (above : previous.toList = tableRow seen right) (char : left[i]? = some c)
    (room : max (seen.length + 1) right.length < greatest) {count : Nat}
    (whole : place + count = right.length) :
    ∃ final, (List.range' (place + 1) count).foldlM
        (fillCell greatest left.toArray right.toArray previous (i + 1)) filled = some final ∧
      Filled (c :: seen) right right.length final := by
  induction count generalizing place filled with
  | zero => exact ⟨filled, rfl, whole ▸ held⟩
  | succ count ih =>
    obtain ⟨next, filling, later⟩ := held.exists_next above (by omega) char room
    obtain ⟨final, filled, all⟩ := ih later (by omega)
    refine ⟨final, ?_, all⟩
    rw [List.range'_succ, List.foldlM_cons, filling]
    exact filled

theorem toList_eq (held : Filled seen right right.length filled) :
    filled.1.toList = tableRow seen right := by
  apply List.ext_getElem?
  intro k
  rw [Array.getElem?_toList]
  by_cases inside : k ≤ right.length
  · rw [held.cells k inside, getElem?_tableRow inside]
  · rw [Array.getElem?_eq_none (by rw [held.size]; omega),
      List.getElem?_eq_none (by rw [length_tableRow]; omega)]

theorem lt_iff (held : Filled seen right right.length filled) :
    bound < filled.2 ↔ ((tableRow seen right).all fun cell => bound < cell) = true := by
  rw [List.all_eq_true]
  simp only [decide_eq_true_eq]
  constructor
  · intro below cell member
    obtain ⟨k, here⟩ := List.mem_iff_getElem?.mp member
    obtain ⟨inside, _⟩ := List.getElem?_eq_some_iff.mp here
    rw [length_tableRow] at inside
    rw [getElem?_tableRow (Nat.le_of_lt_succ inside)] at here
    exact Nat.lt_of_lt_of_le below (Option.some.inj here ▸ held.lower k (Nat.le_of_lt_succ inside))
  · intro all
    obtain ⟨k, inside, least⟩ := held.reached
    rw [least]
    exact all _ (List.mem_of_getElem? (getElem?_tableRow inside))

end Filled

theorem fillRows_eq_some {previous current : Array Nat} (above : previous.toList = tableRow seen right)
    (size : current.size = right.length + 1)
    (room : max (seen.reverse ++ left).length right.length < greatest) :
    fillRows greatest bound (seen.reverse ++ left).toArray right.toArray
        (List.range' (seen.length + 1) left.length) previous current =
      some (finalCell bound right left (tableRow seen right)) := by
  induction left generalizing seen previous current with
  | nil =>
    have last : (tableRow seen right)[right.length]? = some (cellAt seen right right.length) :=
      getElem?_tableRow (Nat.le_refl _)
    have cell : cellAt seen right right.length = distance seen right.reverse := by
      rw [cellAt, List.take_length]
    rw [finalCell, getLastD_tableRow, ← cell, ← last, ← above, Array.getElem?_toList]
    rfl
  | cons c left ih =>
    have first : cellAt (c :: seen) right 0 = seen.length + 1 := by simp [cellAt]
    have start : Filled (c :: seen) right 0 (current.setIfInBounds 0 (seen.length + 1),
        seen.length + 1) := by
      refine ⟨by simp [size], ?_, ?_, 0, Nat.le_refl 0, first.symm⟩
      · intro k zero
        obtain rfl : k = 0 := by omega
        rw [first]
        exact Array.getElem?_setIfInBounds_self_of_lt (by omega)
      · intro k zero
        obtain rfl : k = 0 := by omega
        exact Nat.le_of_eq first.symm
    have char : (seen.reverse ++ c :: left)[seen.length]? = some c := by simp
    rw [List.length_append, List.length_reverse, List.length_cons] at room
    have space : max (seen.length + 1) right.length < greatest := by omega
    obtain ⟨final, filling, all⟩ := start.exists_final above char space (Nat.zero_add _)
    have written : writeCell current 0 (seen.length + 1) =
        some (current.setIfInBounds 0 (seen.length + 1)) := if_pos (by omega)
    rw [Nat.zero_add] at filling
    rw [List.length_cons, List.range'_succ, fillRows, written]
    simp only [Option.bind_eq_bind, Option.bind_some, List.size_toArray, filling, finalCell,
      nextRow_tableRow]
    by_cases far : bound < final.2
    · obtain ⟨k, _, least⟩ := all.reached
      have bounded := cellAt_le (c :: seen) right k
      rw [List.length_cons] at bounded
      rw [if_pos far, if_pos (all.lt_iff.mp far), addWords, if_pos (by omega)]
    · rw [if_neg far, if_neg fun cells => far (all.lt_iff.mpr cells)]
      have whole : seen.reverse ++ c :: left = (c :: seen).reverse ++ left := by simp
      have turned : previous.size = right.length + 1 := by
        rw [← Array.length_toList, above, length_tableRow]
      rw [whole]
      apply ih all.toList_eq turned
      rw [← whole, List.length_append, List.length_reverse, List.length_cons]
      omega

theorem wordDistance?_eq_some (leftFits : left.length < greatest) (rightFits : right.length < greatest)
    (bound : Nat) :
    wordDistance? greatest left right bound = some (boundedDistance left right bound) := by
  rw [wordDistance?, boundedDistance]
  split
  · rw [addWords, if_pos (by omega)]
  · have size : addWords greatest right.length 1 = some (right.length + 1) := if_pos (by omega)
    have above : (Array.range (right.length + 1)).toList = tableRow [] right := by
      rw [Array.toList_range, range_eq_tableRow]
    have room : max (([] : List Char).reverse ++ left).length right.length < greatest :=
      Nat.max_lt.mpr ⟨leftFits, rightFits⟩
    rw [size, range_eq_tableRow]
    exact fillRows_eq_some above Array.size_replicate room

/-- The computation gives the distance if the bound allows it, and else something above the bound:
the distance or the next number. It does so on every machine with words for the lengths of the texts,
whatever the bound. -/
theorem boundedDistance_exact (left right : List Char) (bound : Nat) :
    (distance left right ≤ bound → boundedDistance left right bound = distance left right) ∧
    (bound < distance left right →
      bound < boundedDistance left right bound ∧
        (boundedDistance left right bound = distance left right ∨
          boundedDistance left right bound = bound + 1)) ∧
    ∀ greatest, left.length < greatest → right.length < greatest →
      wordDistance? greatest left right bound = some (boundedDistance left right bound) := by
  refine ⟨?_, ?_, fun greatest leftFits rightFits => wordDistance?_eq_some leftFits rightFits bound⟩
  · exact boundedDistance_of_le
  · intro far
    rcases boundedDistance_cases left right bound with exact | ⟨next, _⟩
    · exact ⟨exact ▸ far, Or.inl exact⟩
    · exact ⟨by omega, Or.inr next⟩

theorem boundedDistance_exact_kitten :
    let left := "kitten".toList
    let right := "sitting".toList
    distance left right = 3 ∧ boundedDistance left right 3 = 3 ∧
    2 < boundedDistance left right 2 ∧
    wordDistance? (2 ^ 64 - 1) left right (2 ^ 64 - 1) =
      some (boundedDistance left right (2 ^ 64 - 1)) := by
  intro left right
  have short : distance left right ≤ 7 := distance_le_length left right
  obtain ⟨generous, _, _⟩ := boundedDistance_exact left right 7
  have three : distance left right = 3 := (generous short).symm.trans (by decide +kernel)
  obtain ⟨near, _, _⟩ := boundedDistance_exact left right 3
  obtain ⟨_, far, _⟩ := boundedDistance_exact left right 2
  obtain ⟨_, _, words⟩ := boundedDistance_exact left right (2 ^ 64 - 1)
  refine ⟨three, ?_, (far (by omega)).1, words (2 ^ 64 - 1) (by decide) (by decide)⟩
  rw [near (by omega), three]

end BuildArgs.Spelling
