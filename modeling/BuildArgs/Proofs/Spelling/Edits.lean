import BuildArgs.Spelling

/-! Edit scripts. The distance between two texts is the least cost of a script that turns one into
the other. Scripts can be read backwards, from either end, and cut in two, and so the distance has
no direction, is kept by reversal and is at least the distance between fitting parts. -/

namespace BuildArgs.Spelling

/-- A way to turn one text into another, and how many characters it inserts, deletes or replaces. -/
inductive Edits : List Char → List Char → Nat → Prop where
  | done : Edits [] [] 0
  | keep {left right : List Char} {cost : Nat} (c : Char) :
    Edits left right cost → Edits (c :: left) (c :: right) cost
  | delete {left right : List Char} {cost : Nat} (c : Char) :
    Edits left right cost → Edits (c :: left) right (cost + 1)
  | insert {left right : List Char} {cost : Nat} (c : Char) :
    Edits left right cost → Edits left (c :: right) (cost + 1)
  | replace {left right : List Char} {cost : Nat} (c d : Char) :
    Edits left right cost → Edits (c :: left) (d :: right) (cost + 1)

variable {left right : List Char} {cost : Nat}

namespace Edits

theorem symm (edits : Edits left right cost) : Edits right left cost := by
  induction edits with
  | done => exact .done
  | keep c _ ih => exact .keep c ih
  | delete c _ ih => exact .insert c ih
  | insert c _ ih => exact .delete c ih
  | replace c d _ ih => exact .replace d c ih

theorem append {more others : List Char} {price : Nat} (first : Edits left right cost)
    (second : Edits more others price) : Edits (left ++ more) (right ++ others) (cost + price) := by
  induction first with
  | done => simpa using second
  | keep c _ ih => exact .keep c ih
  | delete c _ ih => exact Nat.succ_add _ price ▸ .delete c ih
  | insert c _ ih => exact Nat.succ_add _ price ▸ .insert c ih
  | replace c d _ ih => exact Nat.succ_add _ price ▸ .replace c d ih

theorem reverse (edits : Edits left right cost) : Edits left.reverse right.reverse cost := by
  induction edits with
  | done => exact .done
  | keep c _ ih => simpa using ih.append (.keep c .done)
  | delete c _ ih => simpa using ih.append (.delete c .done)
  | insert c _ ih => simpa using ih.append (.insert c .done)
  | replace c d _ ih => simpa using ih.append (.replace c d .done)

theorem exists_split_head {c : Char} (edits : Edits (c :: left) right cost) :
    ∃ early late first second, right = early ++ late ∧ Edits [c] early first ∧
      Edits left late second ∧ cost = first + second := by
  generalize whole : c :: left = text at edits
  induction edits with
  | done => cases whole
  | @keep _ right cost _ script =>
    cases whole
    exact ⟨[c], right, 0, cost, rfl, .keep c .done, script, by omega⟩
  | @delete _ right cost _ script =>
    cases whole
    exact ⟨[], right, 1, cost, rfl, .delete c .done, script, by omega⟩
  | @replace _ right cost _ d script =>
    cases whole
    exact ⟨[d], right, 1, cost, rfl, .replace c d .done, script, by omega⟩
  | insert d _ ih =>
    obtain ⟨early, late, first, second, rfl, before, after, rfl⟩ := ih whole
    exact ⟨d :: early, late, first + 1, second, rfl, .insert d before, after, by omega⟩

theorem exists_split {more : List Char} (edits : Edits (left ++ more) right cost) :
    ∃ early late first second, right = early ++ late ∧ Edits left early first ∧
      Edits more late second ∧ cost = first + second := by
  induction left generalizing right cost with
  | nil => exact ⟨[], right, 0, cost, rfl, .done, edits, by omega⟩
  | cons c left ih =>
    obtain ⟨early, late, first, second, rfl, head, tail, rfl⟩ := edits.exists_split_head
    obtain ⟨next, last, third, fourth, rfl, before, after, rfl⟩ := ih tail
    exact ⟨early ++ next, last, first + third, fourth, by rw [List.append_assoc],
      head.append before, after, by omega⟩

theorem length_le (edits : Edits left right cost) : left.length ≤ right.length + cost := by
  induction edits with
  | done => simp
  | _ => simp only [List.length_cons] at *; omega

end Edits

@[simp] theorem distance_nil_left (right : List Char) : distance [] right = right.length := by
  rw [distance]

@[simp] theorem distance_nil_right (left : List Char) : distance left [] = left.length := by
  cases left <;> simp [distance]

theorem edits_insertAll (right : List Char) : Edits [] right right.length := by
  induction right with
  | nil => exact .done
  | cons c right ih => exact .insert c ih

theorem edits_distance (left right : List Char) : Edits left right (distance left right) := by
  induction left, right using distance.induct with
  | case1 right => simpa using edits_insertAll right
  | case2 left => simpa using (edits_insertAll left).symm
  | case3 left c right ih =>
    rw [distance, if_pos rfl]
    exact .keep c ih
  | case4 a left b right apart kept deleted inserted =>
    rw [distance, if_neg apart, Nat.add_comm]
    rcases Nat.le_total (distance left right)
        (min (distance left (b :: right)) (distance (a :: left) right)) with least | other
    · rw [Nat.min_eq_left least]
      exact .replace a b kept
    · rw [Nat.min_eq_right other]
      rcases Nat.le_total (distance left (b :: right)) (distance (a :: left) right) with
        least | least
      · rw [Nat.min_eq_left least]
        exact .delete a deleted
      · rw [Nat.min_eq_right least]
        exact .insert b inserted

theorem distance_comm (left right : List Char) : distance left right = distance right left := by
  induction left, right using distance.induct with
  | case1 right => simp
  | case2 left => simp
  | case3 left c right ih => rw [distance, distance, if_pos rfl, if_pos rfl, ih]
  | case4 a left b right apart kept deleted inserted =>
    rw [distance, distance, if_neg apart, if_neg (Ne.symm apart), kept, deleted, inserted]
    congr 2
    exact Nat.min_comm _ _

theorem distance_cons_near (left right : List Char) (c : Char) :
    distance left (c :: right) ≤ distance left right + 1 ∧
      distance left right ≤ distance left (c :: right) + 1 := by
  match left with
  | [] => simp; omega
  | a :: left =>
    have turned := distance_cons_near right left a
    rw [distance_comm right, distance_comm right] at turned
    have shorter := distance_cons_near left right c
    rw [distance]
    split <;> omega
termination_by left.length + right.length

theorem Edits.distance_le (edits : Edits left right cost) : distance left right ≤ cost := by
  induction edits with
  | done => simp
  | keep c _ ih =>
    rw [distance, if_pos rfl]
    exact ih
  | @delete left right _ c _ ih =>
    have near := (distance_cons_near right left c).1
    rw [distance_comm right, distance_comm right] at near
    omega
  | @insert left right _ c _ ih =>
    have near := (distance_cons_near left right c).1
    omega
  | replace c d _ ih =>
    rw [distance]
    split <;> omega

/-- The recursion in which every cell of the table is computed alike. -/
theorem distance_cons_cons (a b : Char) (left right : List Char) :
    distance (a :: left) (b :: right) =
      min (min (distance left (b :: right) + 1) (distance (a :: left) right + 1))
        (distance left right + if a = b then 0 else 1) := by
  have deleted := (distance_cons_near right left a).2
  rw [distance_comm right, distance_comm right] at deleted
  have inserted := (distance_cons_near left right b).2
  rw [distance]
  split <;> omega

theorem distance_reverse (left right : List Char) :
    distance left.reverse right.reverse = distance left right := by
  apply Nat.le_antisymm
  · exact (edits_distance left right).reverse.distance_le
  · simpa using (edits_distance left.reverse right.reverse).reverse.distance_le

theorem length_sub_le_distance (left right : List Char) :
    max left.length right.length - min left.length right.length ≤ distance left right := by
  have edits := edits_distance left right
  have forth := edits.length_le
  have back := edits.symm.length_le
  omega

theorem distance_le_length (left right : List Char) :
    distance left right ≤ max left.length right.length := by
  induction left, right using distance.induct with
  | case1 right => simp
  | case2 left => simp
  | case3 left c right ih =>
    rw [distance, if_pos rfl]
    simp only [List.length_cons]
    omega
  | case4 a left b right apart kept deleted inserted =>
    rw [distance, if_neg apart]
    simp only [List.length_cons]
    omega

theorem lt_distance_append {bound : Nat} {more : List Char}
    (far : ∀ early late, right = early ++ late → bound < distance left early) :
    bound < distance (left ++ more) right := by
  obtain ⟨early, late, first, second, split, script, _, total⟩ :=
    (edits_distance (left ++ more) right).exists_split
  have beginning := far early late split
  have least := script.distance_le
  omega

end BuildArgs.Spelling
