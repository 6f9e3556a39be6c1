import Mathlib.Data.List.Nodup

/-! Lists that are sorted by the key of each entry. -/

namespace BuildArgs

variable {α κ : Type} [Ord κ] [Std.TransOrd κ]

theorem sorted_mergeSort (key : α → κ) (list : List α) :
    (list.mergeSort fun left right => (compare (key left) (key right)).isLE).Pairwise
      fun left right => (compare (key left) (key right)).isLE = true := by
  refine List.pairwise_mergeSort (fun _ _ _ => Std.TransCmp.isLE_trans) (fun left right => ?_) list
  rw [Std.OrientedOrd.eq_swap (a := key right)]
  cases compare (key left) (key right) <;> rfl

theorem ascending_mergeSort [Std.LawfulEqOrd κ] {key : α → κ} {list : List α}
    (distinct : (list.map key).Nodup) :
    (list.mergeSort fun left right => (compare (key left) (key right)).isLE).Pairwise
      fun left right => compare (key left) (key right) = .lt := by
  have apart : (list.mergeSort fun left right => (compare (key left) (key right)).isLE).Pairwise
      fun left right => key left ≠ key right :=
    List.pairwise_map.mp (((List.mergeSort_perm _ _).map key).nodup_iff.mpr distinct)
  refine ((sorted_mergeSort key list).and apart).imp fun {left right} both => ?_
  cases order : compare (key left) (key right) with
  | lt => rfl
  | eq => exact absurd (Std.LawfulEqOrd.eq_of_compare order) both.2
  | gt =>
    have here := both.1
    rw [order] at here
    cases here

end BuildArgs
