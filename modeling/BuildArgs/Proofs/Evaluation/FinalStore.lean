import BuildArgs.Proofs.Evaluation.Sequence
import BuildArgs.Proofs.Manifest.Blocks
import BuildArgs.Proofs.Store.Verification

/-! What an evaluation without errors leaves in the store: a context for each toolchain, the
names that are declared in them, and a record of the names that values were supplied for. -/

namespace BuildArgs

namespace Machine

variable {initial : Store} {specs : List ToolchainSpec} {progress : Progress} {machine : Machine}

theorem Valid.declared_of_completed (valid : Valid initial specs progress machine)
    (completed : machine.Completed specs) {spec : ToolchainSpec} (member : spec ∈ specs) :
    machine.store.declared.get? spec.id =
      some (Store.recordAll initial.host.systemDefaults spec.entries) := by
  have held := (valid.of_completed completed member).1
  rw [(valid.reflects.holds spec member _ held).declared, valid.reflects.host]

theorem Valid.contains_declared_iff (valid : Valid initial specs progress machine)
    (completed : machine.Completed specs) {toolchain : Toolchain} :
    machine.store.declared.contains toolchain = true ↔
      toolchain ∈ specs.map ToolchainSpec.id := by
  rw [List.mem_map, SortedMap.contains_eq_true_iff]
  constructor
  · rintro ⟨declared, context⟩
    exact valid.reflects.known toolchain (by simp [context])
  · rintro ⟨spec, member, rfl⟩
    exact ⟨_, valid.declared_of_completed completed member⟩

theorem Valid.contains_supplied_iff (valid : Valid initial specs progress machine)
    (completed : machine.Completed specs) {name : String} :
    machine.store.supplied.contains name = true ↔
      initial.supplied.contains name = true ∨
        ∃ spec ∈ specs, spec.overrides.contains name = true := by
  simp only [SortedMap.contains]
  rcases valid.reflects.supplied name with ⟨spec, member, _, brought, same⟩ | ⟨clear, same⟩
  · rw [same]
    exact ⟨fun _ => Or.inr ⟨spec, member, brought⟩, fun _ => brought⟩
  · rw [same]
    constructor
    · exact Or.inl
    · rintro (given | ⟨spec, member, brought⟩)
      · exact given
      · rw [clear spec member (valid.prepared_of_completed completed member)] at brought
        cases brought

end Machine

namespace ToolchainSpec

theorem get?_recordAll (spec : ToolchainSpec) (host : Host)
    (placed : ∀ entry ∈ spec.entries, entry.2.origin ≠ none) (name : String) :
    (Store.recordAll host.systemDefaults spec.entries).get? name =
      (spec.entries.lookup name).or (host.systemDefaults.get? name) := by
  have placeless : (host.systemDefaults.get? name).bind Value.origin = none := by
    cases found : host.systemDefaults.get? name with
    | none => rfl
    | some value => exact (host.uniform_systemDefaults name value found).origin_eq
  rw [Store.get?_recordAll placed, if_pos placeless]

theorem contains_recordAll_iff (spec : ToolchainSpec) (host : Host)
    (placed : ∀ entry ∈ spec.entries, entry.2.origin ≠ none) {name : String} :
    (Store.recordAll host.systemDefaults spec.entries).contains name = true ↔
      name ∈ Host.systemNames ∨ ∃ block ∈ spec.blocks, name ∈ block.arguments.keys := by
  rw [SortedMap.contains, spec.get?_recordAll host placed, Option.isSome_or,
    Bool.or_eq_true, Host.get?_systemDefaults_isSome_iff, or_comm, List.lookup_isSome_iff]
  simp only [entries, List.mem_flatMap, beq_iff_eq, SortedMap.keys, List.mem_map]
  constructor
  · rintro (system | ⟨entry, ⟨block, member, inside⟩, rfl⟩)
    · exact Or.inl system
    · exact Or.inr ⟨block, member, entry, inside, rfl⟩
  · rintro (system | ⟨block, member, entry, inside, rfl⟩)
    · exact Or.inl system
    · exact Or.inr ⟨entry, ⟨block, member, inside⟩, rfl⟩

end ToolchainSpec

namespace Store

open Machine

variable {initial final : Store} {manifest : Manifest} {scopes : List Scope}

theorem exists_completed_of_evaluate (wellFormed : manifest.WellFormed) (fresh : initial.Fresh)
    (evaluated : initial.evaluate manifest = (final, .ok scopes)) :
    ∃ machine progress, Valid initial manifest.toolchains progress machine ∧
      machine.Completed manifest.toolchains ∧ machine.store = final := by
  obtain ⟨machine, progress, interleaves, valid, result⟩ := exists_valid_evaluate wellFormed fresh
  have returned : (initial.evaluate manifest).2 = .ok scopes := by rw [evaluated]
  have completed := (valid.completed_iff interleaves.finished).mpr
    (consistent_of_scopes wellFormed fresh returned)
  rw [evaluated] at result
  exact ⟨machine, progress, valid, completed, (congrArg Prod.fst result).symm⟩

theorem isDeclared_of_evaluate (wellFormed : manifest.WellFormed) (fresh : initial.Fresh)
    (evaluated : initial.evaluate manifest = (final, .ok scopes)) {name : String} :
    final.isDeclared name = true ↔ name ∈ manifest.knownNames := by
  obtain ⟨machine, progress, valid, completed, rfl⟩ :=
    exists_completed_of_evaluate wellFormed fresh evaluated
  have separate := separate_of_perm wellFormed (.refl _)
  have context : ∀ spec ∈ manifest.toolchains,
      ((∃ value, (machine.store.declaredIn spec.id).get? name = some value) ↔
        name ∈ Host.systemNames ∨ ∃ block ∈ spec.blocks, name ∈ block.arguments.keys) := by
    intro spec member
    rw [declaredIn, valid.declared_of_completed completed member, Option.getD_some,
      ← SortedMap.contains_eq_true_iff]
    exact spec.contains_recordAll_iff initial.host (separate.placed spec member)
  rw [isDeclared_eq_true_iff, Manifest.mem_knownNames_iff, Manifest.mem_blockNames_iff]
  constructor
  · rintro ⟨toolchain, value, found⟩
    have present : machine.store.declared.get? toolchain ≠ none := by
      intro missing
      simp [declaredIn, missing] at found
    obtain ⟨spec, member, rfl⟩ := valid.reflects.known toolchain present
    rcases (context spec member).mp ⟨value, found⟩ with system | block
    · exact Or.inr ⟨system, List.ne_nil_of_mem member⟩
    · exact Or.inl ⟨spec, member, block⟩
  · rintro (⟨spec, member, block⟩ | ⟨system, inhabited⟩)
    · exact ⟨spec.id, (context spec member).mpr (Or.inr block)⟩
    · obtain ⟨spec, member⟩ := List.exists_mem_of_ne_nil _ inhabited
      exact ⟨spec.id, (context spec member).mpr (Or.inl system)⟩

theorem contains_supplied_of_evaluate (wellFormed : manifest.WellFormed) (fresh : initial.Fresh)
    (evaluated : initial.evaluate manifest = (final, .ok scopes)) {name : String} :
    final.supplied.contains name = true ↔
      initial.supplied.contains name = true ∨
        ∃ spec ∈ manifest.toolchains, name ∈ spec.overrides.keys := by
  obtain ⟨machine, progress, valid, completed, rfl⟩ :=
    exists_completed_of_evaluate wellFormed fresh evaluated
  simp only [valid.contains_supplied_iff completed, SortedMap.mem_keys_iff]

end Store
end BuildArgs
