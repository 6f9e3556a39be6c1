import BuildArgs.Build.Evaluation
import BuildArgs.Proofs.Sorting
import BuildArgs.Proofs.Traversal

/-! What an evaluation returns, told from the outcomes of its toolchains. The order in which
the outcomes come in plays no part, as long as no two are of one toolchain. -/

namespace BuildArgs

namespace Store

def inOrder (outcomes : List Outcome) : List Outcome :=
  outcomes.mergeSort fun left right => (compare left.1 right.1).isLE

theorem inOrder_perm (outcomes : List Outcome) : (inOrder outcomes).Perm outcomes :=
  List.mergeSort_perm _ _

theorem ascending_inOrder {outcomes : List Outcome} (distinct : (outcomes.map Prod.fst).Nodup) :
    (inOrder outcomes).Pairwise fun left right => compare left.1 right.1 = .lt :=
  ascending_mergeSort distinct

theorem inOrder_congr {outcomes others : List Outcome} (perm : outcomes.Perm others)
    (distinct : (outcomes.map Prod.fst).Nodup) : inOrder outcomes = inOrder others := by
  refine List.Perm.eq_of_pairwise ?_ (ascending_inOrder distinct)
    (ascending_inOrder ((perm.map Prod.fst).nodup_iff.mp distinct))
    (((inOrder_perm outcomes).trans perm).trans (inOrder_perm others).symm)
  intro left right _ _ below above
  exact absurd below (Std.OrientedCmp.not_lt_of_lt above)

theorem scopesInOrder_congr {outcomes others : List Outcome} (perm : outcomes.Perm others)
    (distinct : (outcomes.map Prod.fst).Nodup) : scopesInOrder outcomes = scopesInOrder others :=
  congrArg (List.mapM Prod.snd) (inOrder_congr perm distinct)

theorem scopesInOrder_eq_error_iff {outcomes : List Outcome} {error : ArgError}
    (distinct : (outcomes.map Prod.fst).Nodup) :
    scopesInOrder outcomes = .error error ↔
      ∃ toolchain, (toolchain, .error error) ∈ outcomes ∧
        ∀ other ∈ outcomes, compare other.1 toolchain = .lt → ∃ scope, other.2 = .ok scope := by
  have ascending := ascending_inOrder distinct
  have member : ∀ outcome, outcome ∈ inOrder outcomes ↔ outcome ∈ outcomes :=
    fun _ => (inOrder_perm outcomes).mem_iff
  change (inOrder outcomes).mapM Prod.snd = .error error ↔ _
  rw [mapM_eq_error_iff]
  constructor
  · rintro ⟨before, ⟨toolchain, _⟩, after, split, fine, rfl⟩
    rw [split] at ascending
    refine ⟨toolchain, (member _).mp (split ▸ by simp), fun other inside below => ?_⟩
    rcases List.mem_append.mp (split ▸ (member other).mpr inside) with early | late
    · exact fine other early
    · exfalso
      rcases List.mem_cons.mp late with rfl | later
      · simp [Std.ReflOrd.compare_self] at below
      · have above := (List.pairwise_cons.mp (List.pairwise_append.mp ascending).2.1).1 other later
        exact Std.OrientedCmp.not_lt_of_lt above below
  · rintro ⟨toolchain, inside, least⟩
    obtain ⟨before, after, split⟩ := List.append_of_mem ((member _).mpr inside)
    refine ⟨before, (toolchain, .error error), after, split, fun other early => ?_, rfl⟩
    rw [split] at ascending
    apply least other ((member other).mp (split ▸ List.mem_append_left _ early))
    exact (List.pairwise_append.mp ascending).2.2 other early _ List.mem_cons_self

theorem isError_scopesInOrder_iff {outcomes : List Outcome} :
    (∃ error, scopesInOrder outcomes = .error error) ↔
      ∃ outcome ∈ outcomes, ∃ error, outcome.2 = .error error := by
  change (∃ error, (inOrder outcomes).mapM Prod.snd = .error error) ↔ _
  constructor
  · rintro ⟨error, failed⟩
    obtain ⟨before, outcome, after, split, _, bad⟩ := mapM_eq_error_iff.mp failed
    have inside : outcome ∈ inOrder outcomes := split ▸ by simp
    exact ⟨outcome, (inOrder_perm outcomes).mem_iff.mp inside, error, bad⟩
  · rintro ⟨outcome, inside, error, bad⟩
    cases result : (inOrder outcomes).mapM Prod.snd with
    | error found => exact ⟨found, rfl⟩
    | ok scopes =>
      obtain ⟨scope, _, fine⟩ := exists_of_mem_forall₂ (mapM_eq_ok_iff.mp result).flip
        ((inOrder_perm outcomes).mem_iff.mpr inside)
      cases bad.symm.trans fine

def Outcome.ofScope (scope : Scope) : Outcome := (scope.toolchain, .ok scope)

theorem scopesInOrder_of_ok {scopes : List Scope}
    (distinct : (scopes.map Scope.toolchain).Nodup) :
    ∃ ordered, scopesInOrder (scopes.map .ofScope) = .ok ordered ∧ ordered.Perm scopes ∧
      ordered.Pairwise fun left right => compare left.toolchain right.toolchain = .lt := by
  let ordered := scopes.mergeSort fun left right =>
    (compare left.toolchain right.toolchain).isLE
  have sorted : inOrder (scopes.map .ofScope) = ordered.map .ofScope :=
    (List.map_mergeSort (f := Outcome.ofScope) fun _ _ _ _ => rfl).symm
  have apart : ((scopes.map Outcome.ofScope).map Prod.fst).Nodup := by
    rw [List.map_map]
    exact distinct
  have ascending := ascending_inOrder apart
  rw [sorted, List.pairwise_map] at ascending
  refine ⟨ordered, ?_, List.mergeSort_perm _ _, ascending⟩
  change (inOrder _).mapM Prod.snd = _
  rw [sorted, mapM_eq_ok_iff]
  exact List.forall₂_map_right_iff.mpr (List.forall₂_same.mpr fun _ _ => rfl)

end Store
end BuildArgs
