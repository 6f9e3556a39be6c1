import BuildArgs.Listing
import BuildArgs.Proofs.Evaluation.FinalStore
import BuildArgs.Proofs.Store.Verification

/-! Every interleaving of the toolchains of a manifest ends like their evaluation one after
another: either both fail, or they cannot be told apart by what they show. -/

namespace BuildArgs

namespace Machine

variable {initial : Store} {specs : List ToolchainSpec} {progress otherProgress : Progress}
  {machine other : Machine}

theorem Valid.declared_eq (valid : Valid initial specs progress machine)
    (completed : machine.Completed specs) (otherValid : Valid initial specs otherProgress other)
    (otherCompleted : other.Completed specs) :
    machine.store.declared = other.store.declared := by
  apply SortedMap.ext_get?
  intro toolchain
  by_cases present : ∃ spec ∈ specs, spec.id = toolchain
  · obtain ⟨spec, member, rfl⟩ := present
    rw [valid.declared_of_completed completed member,
      otherValid.declared_of_completed otherCompleted member]
  · have left := Classical.not_not.mp (mt (valid.reflects.known toolchain) present)
    have right := Classical.not_not.mp (mt (otherValid.reflects.known toolchain) present)
    rw [left, right]

theorem Valid.place_of_supplied (valid : Valid initial specs progress machine)
    (completed : machine.Completed specs) {place : Option Origin}
    (uniform : ∀ spec ∈ specs, UniformMap place spec.overrides) (name : String) :
    (machine.store.supplied.get? name).map Value.origin =
      if ∃ spec ∈ specs, spec.overrides.contains name = true then some place
      else (initial.supplied.get? name).map Value.origin := by
  rcases valid.reflects.supplied name with ⟨spec, member, _, brought, same⟩ | ⟨none, same⟩
  · rw [if_pos ⟨spec, member, brought⟩, same]
    obtain ⟨value, found⟩ := Option.isSome_iff_exists.mp brought
    rw [found, Option.map_some, (uniform spec member name value found).origin_eq]
  · rw [if_neg, same]
    rintro ⟨spec, member, brought⟩
    have missing := none spec member (valid.prepared_of_completed completed member)
    simp [SortedMap.contains, missing] at brought

theorem Valid.verify_eq (valid : Valid initial specs progress machine)
    (completed : machine.Completed specs) (otherValid : Valid initial specs otherProgress other)
    (otherCompleted : other.Completed specs) {place : Option Origin}
    (uniform : ∀ spec ∈ specs, UniformMap place spec.overrides) :
    machine.store.verify = other.store.verify := by
  apply Store.verify_congr
  · exact valid.declared_eq completed otherValid otherCompleted
  · intro name
    rw [valid.place_of_supplied completed uniform,
      otherValid.place_of_supplied otherCompleted uniform]

end Machine

open Machine in
/-- Whichever toolchain is next at any time, and in whichever order the manifest lists them,
some toolchain fails exactly if one fails when they are evaluated one after another, and the
scopes, the contexts, the listing and the check of the supplied values come out the same. -/
theorem interleaving_matches_evaluate {path text : String} {manifest : Manifest}
    (parsed : Manifest.parse path text = .ok manifest) {initial : Store} (fresh : initial.Fresh)
    {specs : List ToolchainSpec} (order : specs.Perm manifest.toolchains) {machine : Machine}
    (interleaves : Interleaves initial specs machine) :
    ((∃ outcome ∈ machine.outcomes specs, ∃ error, outcome.2 = .error error) ↔
      ∃ error, (initial.evaluate manifest).2 = .error error) ∧
    ∀ scopes, (initial.evaluate manifest).2 = .ok scopes →
      Store.scopesInOrder (machine.outcomes specs) = .ok scopes ∧
      machine.store.toolchains = (initial.evaluate manifest).1.toolchains ∧
      Listing.ofStore machine.store = Listing.ofStore (initial.evaluate manifest).1 ∧
      machine.store.verify = (initial.evaluate manifest).1.verify := by
  have wellFormed := Manifest.wellFormed_of_parse parsed
  have separate := separate_of_perm wellFormed (.refl _)
  have listed := interleaves.perm order
  obtain ⟨progress, valid⟩ := listed.valid fresh separate
  obtain ⟨other, otherProgress, sequence, otherValid, result⟩ :=
    Store.exists_valid_evaluate wellFormed fresh
  have relisted := outcomes_perm order machine
  have distinct := outcomes_distinct (separate_of_perm wellFormed order).distinct machine
  have fails : (∃ outcome ∈ machine.outcomes specs, ∃ error, outcome.2 = .error error) ↔
      ¬ manifest.Consistent := by
    simp only [relisted.mem_iff]
    rw [some_error_iff listed.finished, valid.completed_iff listed.finished]
    rfl
  refine ⟨fails.trans (Store.evaluate_fails_iff wellFormed fresh).symm, fun scopes returned => ?_⟩
  have consistent := Store.consistent_of_scopes wellFormed fresh returned
  have completed := (valid.completed_iff listed.finished).mpr consistent
  have otherCompleted := (otherValid.completed_iff sequence.finished).mpr consistent
  have declared := valid.declared_eq completed otherValid otherCompleted
  rw [result] at returned ⊢
  refine ⟨?_, ?_, ?_, ?_⟩
  · rw [Store.scopesInOrder_congr relisted distinct, ← returned,
      valid.outcomes_of_completed completed, otherValid.outcomes_of_completed otherCompleted]
  · rw [Store.toolchains, declared, Store.toolchains]
  · rw [Listing.ofStore, declared, valid.reflects.active, Listing.ofStore,
      otherValid.reflects.active]
  · have uniform : ∀ spec ∈ manifest.toolchains,
        UniformMap (some (.ofFile manifest.path)) spec.overrides :=
      fun spec member => (wellFormed.toolchains spec member).overrides
    exact valid.verify_eq completed otherValid otherCompleted uniform

theorem interleaving_matches_evaluate_sharedBlock :
    ∃ machine scopes,
      Machine.Interleaves (.new ⟨"linux", "x64"⟩) sharedBlockManifest.toolchains.reverse machine ∧
      (Store.evaluate (.new ⟨"linux", "x64"⟩) sharedBlockManifest).2 = .ok scopes ∧
      Store.scopesInOrder (machine.outcomes sharedBlockManifest.toolchains.reverse) =
        .ok scopes := by
  have distinct : (sharedBlockManifest.toolchains.reverse.map ToolchainSpec.id).Nodup := by decide
  obtain ⟨machine, interleaves, _⟩ :=
    Machine.exists_interleaves_runToolchains distinct (.new ⟨"linux", "x64"⟩)
  have ends := interleaving_matches_evaluate parse_sharedBlockText (Store.fresh_new _)
    (List.reverse_perm _) interleaves
  have consistent : sharedBlockManifest.Consistent := by decide +kernel
  obtain ⟨scopes, returned⟩ := Store.exists_scopes_of_consistent
    (Manifest.wellFormed_of_parse parse_sharedBlockText) (Store.fresh_new _) consistent
  exact ⟨machine, scopes, interleaves, returned, (ends.2 scopes returned).1⟩

end BuildArgs
