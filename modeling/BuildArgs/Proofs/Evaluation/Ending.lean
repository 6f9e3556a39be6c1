import BuildArgs.Proofs.Evaluation.Machine
import BuildArgs.Proofs.Evaluation.Result

/-! How the interleavings of some toolchains end. Whether all of them come to the end of their
blocks depends on the declarations alone, and if they do so does everything they leave behind,
up to which of two toolchains brought a value last. -/

namespace BuildArgs

theorem Declaration.agree_perm {left right : List ToolchainSpec} (perm : left.Perm right) :
    Declaration.Agree (left.flatMap ToolchainSpec.declarations) ↔
      Declaration.Agree (right.flatMap ToolchainSpec.declarations) := by
  have same := perm.flatMap_right ToolchainSpec.declarations
  exact ⟨fun agree => agree.subset fun _ inside => same.mem_iff.mpr inside,
    fun agree => agree.subset fun _ inside => same.mem_iff.mp inside⟩

theorem Stage.of_outcome? {stage : Stage} {outcome : Except ArgError Scope}
    (done : stage.outcome? = some outcome) :
    (∃ error, stage = .failed error ∧ outcome = .error error) ∨
      ∃ scope, stage = .declaring scope [] ∧ outcome = .ok scope := by
  cases stage with
  | waiting => cases done
  | failed error => exact Or.inl ⟨error, rfl, (Option.some.inj done).symm⟩
  | declaring scope rest =>
    cases rest with
    | nil => exact Or.inr ⟨scope, rfl, (Option.some.inj done).symm⟩
    | cons _ _ => cases done

namespace Machine

variable {initial : Store} {specs : List ToolchainSpec} {progress : Progress} {machine : Machine}

def Completed (specs : List ToolchainSpec) (machine : Machine) : Prop :=
  ∀ spec ∈ specs, ∃ scope, machine.stage spec.id = .declaring scope []

theorem Interleaves.valid {machine : Machine} (fresh : initial.Fresh) (separate : Separate specs)
    (interleaves : Interleaves initial specs machine) :
    ∃ progress, Valid initial specs progress machine := by
  obtain ⟨progress, valid, _⟩ := interleaves.runs.valid separate (valid_start fresh specs)
  exact ⟨progress, valid⟩

theorem Step.perm {others : List ToolchainSpec} (perm : specs.Perm others) {next : Machine}
    (step : Step specs machine next) : Step others machine next := by
  cases step with
  | prepare member waiting => exact .prepare (perm.mem_iff.mp member) waiting
  | declare member declaring => exact .declare (perm.mem_iff.mp member) declaring

theorem Interleaves.perm {others : List ToolchainSpec} (perm : specs.Perm others)
    (interleaves : Interleaves initial specs machine) : Interleaves initial others machine where
  runs := Relation.ReflTransGen.mono (fun _ _ => Step.perm perm) _ _ interleaves.runs
  finished := fun spec member => interleaves.finished spec (perm.mem_iff.mpr member)

theorem outcomes_perm {others : List ToolchainSpec} (perm : specs.Perm others)
    (machine : Machine) : (machine.outcomes specs).Perm (machine.outcomes others) :=
  perm.filterMap _

theorem mem_outcomes_iff {outcome : Store.Outcome} :
    outcome ∈ machine.outcomes specs ↔
      ∃ spec ∈ specs, spec.id = outcome.1 ∧
        (machine.stage spec.id).outcome? = some outcome.2 := by
  obtain ⟨toolchain, result⟩ := outcome
  simp only [outcomes, List.mem_filterMap, Option.map_eq_some_iff, Prod.mk.injEq]
  constructor
  · rintro ⟨spec, member, _, done, same, rfl⟩
    exact ⟨spec, member, same, done⟩
  · rintro ⟨spec, member, same, done⟩
    exact ⟨spec, member, result, done, same, rfl⟩

theorem outcomes_distinct (distinct : (specs.map ToolchainSpec.id).Nodup) (machine : Machine) :
    ((machine.outcomes specs).map Prod.fst).Nodup := by
  refine distinct.sublist ?_
  unfold outcomes
  induction specs with
  | nil => simp
  | cons spec rest ih =>
    have later := ih (List.nodup_cons.mp distinct).2
    cases done : (machine.stage spec.id).outcome? with
    | none => simpa [done] using later.trans (List.sublist_cons_self _ _)
    | some outcome => simpa [done] using later

theorem Valid.mem_declarations (valid : Valid initial specs progress machine)
    {spec : ToolchainSpec} (member : spec ∈ specs) {declaration : Declaration}
    (declared : declaration ∈ progress.declarations spec.id) :
    declaration ∈ spec.declarations := by
  unfold Progress.declarations at declared
  unfold ToolchainSpec.declarations
  have stands := valid.stands spec member
  generalize machine.stage spec.id = stage at stands
  generalize progress spec.id = held at stands declared
  cases stands with
  | waiting => simp at declared
  | declaring left =>
    rw [left, List.map_append]
    exact List.mem_append_left _ declared
  | failed left =>
    rw [left, List.map_append]
    exact List.mem_append_left _ declared

theorem Valid.mem_of_declares (valid : Valid initial specs progress machine)
    {toolchain : Toolchain} {declaration : Declaration}
    (declares : machine.store.Declares toolchain declaration) :
    declaration ∈ specs.flatMap ToolchainSpec.declarations := by
  obtain ⟨spec, member, rfl, recorded⟩ := valid.reflects.exists_of_declares declares
  exact List.mem_flatMap.mpr ⟨spec, member, valid.mem_declarations member recorded⟩

theorem Valid.not_failed (valid : Valid initial specs progress machine)
    (agree : Declaration.Agree (specs.flatMap ToolchainSpec.declarations))
    {spec : ToolchainSpec} (member : spec ∈ specs) (error : ArgError) :
    machine.stage spec.id ≠ .failed error := by
  intro failed
  have stands := failed ▸ valid.stands spec member
  generalize progress spec.id = held at stands
  cases stands with
  | @failed _ entry later _ left refused =>
    obtain ⟨_, earlier, declares, clash⟩ := refused.exists_clash
    have inside : Declaration.ofEntry entry ∈ spec.declarations := by
      rw [ToolchainSpec.declarations, left]
      simp
    exact agree earlier (valid.mem_of_declares declares) _
      (List.mem_flatMap.mpr ⟨spec, member, inside⟩) clash

theorem Valid.of_completed (valid : Valid initial specs progress machine)
    (completed : machine.Completed specs) {spec : ToolchainSpec} (member : spec ∈ specs) :
    progress spec.id = some spec.entries ∧
      machine.stage spec.id = .declaring (spec.rootScope initial.host initial.active) [] := by
  obtain ⟨scope, declaring⟩ := completed spec member
  obtain ⟨entries, held, left, rfl⟩ := (declaring ▸ valid.stands spec member).of_declaring
  have all : spec.entries = entries := by simpa using left
  exact ⟨all ▸ held, by rw [declaring, ToolchainSpec.rootScope, all]⟩

theorem Valid.prepared_of_completed (valid : Valid initial specs progress machine)
    (completed : machine.Completed specs) {spec : ToolchainSpec} (member : spec ∈ specs) :
    (progress spec.id).isSome := by
  rw [(valid.of_completed completed member).1]
  rfl

/-- All toolchains come to the end of their blocks exactly if no two declarations clash. -/
theorem Valid.completed_iff (valid : Valid initial specs progress machine)
    (finished : machine.Finished specs) :
    machine.Completed specs ↔
      Declaration.Agree (specs.flatMap ToolchainSpec.declarations) := by
  constructor
  · intro completed left leftIn right rightIn
    have recorded : ∀ declaration ∈ specs.flatMap ToolchainSpec.declarations,
        ∃ toolchain, machine.store.Declares toolchain declaration := by
      intro declaration inside
      obtain ⟨spec, member, there⟩ := List.mem_flatMap.mp inside
      refine ⟨spec.id, (valid.reflects.declares_iff member _).mpr ?_⟩
      rw [Progress.declarations, (valid.of_completed completed member).1]
      exact there
    obtain ⟨first, leftDeclares⟩ := recorded left leftIn
    obtain ⟨second, rightDeclares⟩ := recorded right rightIn
    exact valid.reflects.agree first second left right leftDeclares rightDeclares
  · intro agree spec member
    obtain ⟨outcome, done⟩ := Option.isSome_iff_exists.mp (finished spec member)
    rcases Stage.of_outcome? done with ⟨error, failed, _⟩ | ⟨scope, declaring, _⟩
    · exact absurd failed (valid.not_failed agree member error)
    · exact ⟨scope, declaring⟩

theorem some_error_iff (finished : machine.Finished specs) :
    (∃ outcome ∈ machine.outcomes specs, ∃ error, outcome.2 = .error error) ↔
      ¬ machine.Completed specs := by
  constructor
  · rintro ⟨⟨toolchain, _⟩, inside, error, rfl⟩ completed
    obtain ⟨spec, member, rfl, failed⟩ := mem_outcomes_iff.mp inside
    obtain ⟨scope, declaring⟩ := completed spec member
    simp [declaring, Stage.outcome?] at failed
  · intro broken
    obtain ⟨spec, unmet⟩ := Classical.not_forall.mp broken
    obtain ⟨member, unfinished⟩ := Classical.not_imp.mp unmet
    obtain ⟨outcome, done⟩ := Option.isSome_iff_exists.mp (finished spec member)
    refine ⟨(spec.id, outcome), mem_outcomes_iff.mpr ⟨spec, member, rfl, done⟩, ?_⟩
    rcases Stage.of_outcome? done with ⟨error, _, same⟩ | ⟨scope, declaring, _⟩
    · exact ⟨error, same⟩
    · exact absurd ⟨scope, declaring⟩ unfinished

theorem Valid.outcomes_of_completed (valid : Valid initial specs progress machine)
    (completed : machine.Completed specs) :
    machine.outcomes specs =
      (specs.map fun spec => spec.rootScope initial.host initial.active).map .ofScope := by
  rw [List.map_map, ← List.filterMap_eq_map]
  apply List.filterMap_congr
  intro spec member
  rw [(valid.of_completed completed member).2]
  simp [Stage.outcome?, Store.Outcome.ofScope]

end Machine
end BuildArgs
