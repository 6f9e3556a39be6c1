import BuildArgs.Proofs.Evaluation.Ending

/-! Runs that leave all toolchains but one alone. Evaluating the toolchains one after another
is such a run after the other, so what holds of every interleaving holds of it. -/

namespace BuildArgs

theorem Stage.outcome?_after (result : Store.Declared) :
    (Stage.after result []).outcome? = some result.outcome := by
  unfold Stage.after Store.Declared.outcome
  cases result.error with
  | some error => rfl
  | none => rfl

namespace Machine

def declareBlocks (machine : Machine) (spec : ToolchainSpec) (scope : Scope)
    (blocks rest : List DeclareBlock) : Machine :=
  let result := machine.store.declareBlocks scope blocks
  ⟨result.store, Function.update machine.stage spec.id (.after result rest)⟩

def runToolchain (machine : Machine) (spec : ToolchainSpec) : Machine :=
  let result := machine.store.runToolchain spec
  ⟨result.store, Function.update machine.stage spec.id (.after result [])⟩

variable {specs : List ToolchainSpec} {machine : Machine} {spec : ToolchainSpec}

theorem runs_declareBlocks (member : spec ∈ specs) {scope : Scope}
    {blocks rest : List DeclareBlock}
    (declaring : machine.stage spec.id = .declaring scope (blocks ++ rest)) :
    Runs specs machine (machine.declareBlocks spec scope blocks rest) := by
  induction blocks generalizing machine scope with
  | nil =>
    have same : Stage.declaring scope rest = machine.stage spec.id := declaring.symm
    simp only [declareBlocks, Store.declareBlocks, Stage.after, same, Function.update_eq_self]
    exact .refl
  | cons block blocks ih =>
    have first : Step specs machine (machine.declare spec scope block (blocks ++ rest)) :=
      .declare member declaring
    apply Relation.ReflTransGen.head first
    cases failed : (machine.store.declare scope block.arguments).error with
    | some error =>
      simp only [declareBlocks, Store.declareBlocks, declare, Stage.after, failed]
      exact .refl
    | none =>
      have next : (machine.declare spec scope block (blocks ++ rest)).stage spec.id =
          .declaring (machine.store.declare scope block.arguments).scope (blocks ++ rest) := by
        simp [declare, Stage.after, failed]
      have later := ih next
      simp only [declareBlocks, Store.declareBlocks, declare, failed, Function.update_idem] at later ⊢
      exact later

theorem runs_runToolchain (member : spec ∈ specs) (waiting : machine.stage spec.id = .waiting) :
    Runs specs machine (machine.runToolchain spec) := by
  have first : Step specs machine (machine.prepare spec) := .prepare member waiting
  have ready : (machine.prepare spec).stage spec.id =
      .declaring (machine.store.setup (.new spec.id) spec.overrides).2 (spec.blocks ++ []) := by
    simp [prepare]
  have later := runs_declareBlocks member ready
  simp only [declareBlocks, prepare, Function.update_idem] at later
  exact .head first later

theorem stage_runToolchain_ne {toolchain : Toolchain} (apart : toolchain ≠ spec.id) :
    (machine.runToolchain spec).stage toolchain = machine.stage toolchain :=
  Function.update_of_ne apart _ _

theorem outcome?_runToolchain_self :
    ((machine.runToolchain spec).stage spec.id).outcome? =
      some (machine.store.runToolchain spec).outcome := by
  simp only [runToolchain, Function.update_self, Stage.outcome?_after]

theorem runs_runToolchains {todo : List ToolchainSpec} (subset : ∀ spec ∈ todo, spec ∈ specs)
    (distinct : (todo.map ToolchainSpec.id).Nodup)
    (waiting : ∀ spec ∈ todo, machine.stage spec.id = .waiting) :
    ∃ final, Runs specs machine final ∧ final.store = (machine.store.runToolchains todo).1 ∧
      final.Finished todo ∧ final.outcomes todo = (machine.store.runToolchains todo).2 ∧
      ∀ toolchain ∉ todo.map ToolchainSpec.id, final.stage toolchain = machine.stage toolchain := by
  induction todo generalizing machine with
  | nil => exact ⟨machine, .refl, rfl, by simp [Finished], rfl, by simp⟩
  | cons spec rest ih =>
    obtain ⟨apart, distinct⟩ := List.nodup_cons.mp distinct
    have first := runs_runToolchain (subset spec List.mem_cons_self)
      (waiting spec List.mem_cons_self)
    have stillWaiting : ∀ other ∈ rest,
        (machine.runToolchain spec).stage other.id = .waiting := by
      intro other inside
      have different : other.id ≠ spec.id := fun same =>
        apart (same ▸ List.mem_map_of_mem inside)
      rw [stage_runToolchain_ne different]
      exact waiting other (List.mem_cons_of_mem _ inside)
    obtain ⟨final, later, store, finished, outcomes, kept⟩ :=
      ih (fun other inside => subset other (List.mem_cons_of_mem _ inside)) distinct stillWaiting
    have done : (final.stage spec.id).outcome? =
        some (machine.store.runToolchain spec).outcome := by
      rw [kept spec.id apart, outcome?_runToolchain_self]
    refine ⟨final, first.trans later, store, ?_, ?_, ?_⟩
    · intro other inside
      rcases List.mem_cons.mp inside with rfl | inside
      · simp [done]
      · exact finished other inside
    · simp only [Machine.outcomes] at outcomes
      simp [Machine.outcomes, done, outcomes, Store.runToolchains, runToolchain]
    · intro toolchain outside
      simp only [List.map_cons, List.mem_cons, not_or] at outside
      rw [kept toolchain outside.2, stage_runToolchain_ne outside.1]

theorem exists_ended (member : spec ∈ specs) (machine : Machine) :
    ∃ next, Runs specs machine next ∧ (next.stage spec.id).outcome?.isSome ∧
      ∀ toolchain, (toolchain = spec.id → (machine.stage toolchain).outcome?.isSome) →
        next.stage toolchain = machine.stage toolchain := by
  by_cases done : (machine.stage spec.id).outcome?.isSome
  · exact ⟨machine, .refl, done, fun _ _ => rfl⟩
  · have apart : ∀ toolchain, (toolchain = spec.id → (machine.stage toolchain).outcome?.isSome) →
        toolchain ≠ spec.id :=
      fun toolchain ended same => done (same ▸ ended same)
    cases stage : machine.stage spec.id with
    | waiting =>
      refine ⟨_, runs_runToolchain member stage, ?_, fun toolchain ended => ?_⟩
      · rw [outcome?_runToolchain_self, Option.isSome_some]
      · exact stage_runToolchain_ne (apart toolchain ended)
    | failed error => simp [stage, Stage.outcome?] at done
    | declaring scope rest =>
      rw [← List.append_nil rest] at stage
      refine ⟨_, runs_declareBlocks member stage, ?_, fun toolchain ended => ?_⟩
      · simp only [declareBlocks, Function.update_self, Stage.outcome?_after, Option.isSome_some]
      · exact Function.update_of_ne (apart toolchain ended) _ _

theorem exists_finished {todo : List ToolchainSpec} (subset : ∀ spec ∈ todo, spec ∈ specs)
    (machine : Machine) :
    ∃ final, Runs specs machine final ∧ final.Finished todo ∧
      ∀ toolchain, (machine.stage toolchain).outcome?.isSome →
        final.stage toolchain = machine.stage toolchain := by
  induction todo generalizing machine with
  | nil => exact ⟨machine, .refl, by simp [Finished], fun _ _ => rfl⟩
  | cons spec rest ih =>
    obtain ⟨next, first, ended, kept⟩ := exists_ended (subset spec List.mem_cons_self) machine
    obtain ⟨final, later, finished, stay⟩ :=
      ih (fun other inside => subset other (List.mem_cons_of_mem _ inside)) next
    refine ⟨final, first.trans later, fun other inside => ?_, fun toolchain done => ?_⟩
    · rcases List.mem_cons.mp inside with rfl | inside
      · rw [stay _ ended]
        exact ended
      · exact finished other inside
    · have same := kept toolchain fun _ => done
      rw [stay toolchain (same ▸ done), same]

theorem exists_interleaves_runToolchains {specs : List ToolchainSpec}
    (distinct : (specs.map ToolchainSpec.id).Nodup) (store : Store) :
    ∃ machine, Interleaves store specs machine ∧
      (machine.store, machine.outcomes specs) = store.runToolchains specs := by
  have waiting : ∀ spec ∈ specs, (start store).stage spec.id = .waiting := fun _ _ => rfl
  obtain ⟨machine, runs, final, finished, outcomes, _⟩ :=
    runs_runToolchains (fun _ => id) distinct waiting
  exact ⟨machine, ⟨runs, finished⟩, Prod.ext final outcomes⟩

end Machine

namespace Store

variable {initial : Store} {manifest : Manifest}

open Machine

theorem exists_valid_evaluate (wellFormed : manifest.WellFormed) (fresh : initial.Fresh) :
    ∃ machine progress, Interleaves initial manifest.toolchains machine ∧
      Valid initial manifest.toolchains progress machine ∧
      initial.evaluate manifest =
        (machine.store, scopesInOrder (machine.outcomes manifest.toolchains)) := by
  obtain ⟨machine, interleaves, result⟩ :=
    exists_interleaves_runToolchains wellFormed.distinct initial
  obtain ⟨progress, valid⟩ := interleaves.valid fresh (separate_of_perm wellFormed (.refl _))
  exact ⟨machine, progress, interleaves, valid, by rw [evaluate, ← result]⟩

theorem evaluate_fails_iff (wellFormed : manifest.WellFormed) (fresh : initial.Fresh) :
    (∃ error, (initial.evaluate manifest).2 = .error error) ↔ ¬ manifest.Consistent := by
  obtain ⟨machine, progress, interleaves, valid, result⟩ := exists_valid_evaluate wellFormed fresh
  rw [result, isError_scopesInOrder_iff, some_error_iff interleaves.finished,
    valid.completed_iff interleaves.finished]
  rfl

theorem exists_scopes_of_consistent (wellFormed : manifest.WellFormed) (fresh : initial.Fresh)
    (consistent : manifest.Consistent) :
    ∃ scopes, (initial.evaluate manifest).2 = .ok scopes := by
  cases returned : (initial.evaluate manifest).2 with
  | ok scopes => exact ⟨scopes, rfl⟩
  | error error =>
    exact absurd consistent ((evaluate_fails_iff wellFormed fresh).mp ⟨error, returned⟩)

theorem consistent_of_scopes (wellFormed : manifest.WellFormed) (fresh : initial.Fresh)
    {scopes : List Scope} (returned : (initial.evaluate manifest).2 = .ok scopes) :
    manifest.Consistent := by
  by_contra inconsistent
  obtain ⟨error, failed⟩ := (evaluate_fails_iff wellFormed fresh).mpr inconsistent
  rw [returned] at failed
  cases failed

theorem scopes_of_evaluate (wellFormed : manifest.WellFormed) (fresh : initial.Fresh)
    {scopes : List Scope} (returned : (initial.evaluate manifest).2 = .ok scopes) :
    scopes.Perm (manifest.toolchains.map fun spec => spec.rootScope initial.host initial.active) ∧
      scopes.Pairwise fun left right => compare left.toolchain right.toolchain = .lt := by
  obtain ⟨machine, progress, interleaves, valid, result⟩ := exists_valid_evaluate wellFormed fresh
  have completed := (valid.completed_iff interleaves.finished).mpr
    (consistent_of_scopes wellFormed fresh returned)
  have distinct : ((manifest.toolchains.map fun spec =>
      spec.rootScope initial.host initial.active).map Scope.toolchain).Nodup := by
    simpa [Function.comp_def] using wellFormed.distinct
  obtain ⟨ordered, sorted, perm, ascending⟩ := scopesInOrder_of_ok distinct
  rw [result, valid.outcomes_of_completed completed, sorted] at returned
  cases returned
  exact ⟨perm, ascending⟩

end Store
end BuildArgs
