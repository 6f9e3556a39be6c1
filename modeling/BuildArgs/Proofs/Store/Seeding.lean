import BuildArgs.Proofs.Store.Recording
import BuildArgs.Proofs.Store.Verification
import BuildArgs.Proofs.Value.Uniform

/-! What is recorded after a context was prepared or a declaration accepted: what was recorded
before, and besides it the system arguments or the new declaration. -/

namespace BuildArgs.Store

variable {store : Store} {scope : Scope} {overrides : NameMap Value} {toolchain other : Toolchain}
  {entry : String × Value} {name : String} {value : Value}

theorem declaredIn_setup (store : Store) (scope : Scope) (overrides : NameMap Value)
    (other : Toolchain) :
    (store.setup scope overrides).1.declaredIn other =
      if other = scope.toolchain then (store.declaredIn other).insertAll store.host.systemDefaults
      else store.declaredIn other := by
  by_cases same : other = scope.toolchain
  · simp [setup, declaredIn, same]
  · simp [setup, declaredIn, same, SortedMap.get?_insert_ne _ _ same]

theorem get?_setup (store : Store) (scope : Scope) (overrides : NameMap Value)
    (other : Toolchain) (name : String) :
    ((store.setup scope overrides).1.declaredIn other).get? name =
      if other = scope.toolchain then
        (store.host.systemDefaults.get? name).or ((store.declaredIn other).get? name)
      else (store.declaredIn other).get? name := by
  rw [declaredIn_setup]
  split
  · rw [SortedMap.get?_insertAll]
  · rfl

theorem declared_setup_congr {left right : Store} (hosts : left.host = right.host)
    (same : left.declared = right.declared) {leftScope rightScope : Scope}
    (context : leftScope.toolchain = rightScope.toolchain)
    (leftOverrides rightOverrides : NameMap Value) :
    (left.setup leftScope leftOverrides).1.declared =
      (right.setup rightScope rightOverrides).1.declared := by
  simp only [setup, declaredIn, hosts, same, context]

theorem recorded_of_setup
    (found : ((store.setup scope overrides).1.declaredIn other).get? name = some value) :
    (name ∈ Host.systemNames ∧ value.origin = none) ∨
      (store.declaredIn other).get? name = some value := by
  rw [get?_setup] at found
  split at found
  · rcases Option.or_eq_some_iff.mp found with system | ⟨_, old⟩
    · have known := Host.get?_systemDefaults_isSome_iff.mp (Option.isSome_of_eq_some system)
      exact Or.inl ⟨known, (store.host.uniform_systemDefaults name value system).origin_eq⟩
    · exact Or.inr old
  · exact Or.inr found

theorem recorded_of_recordEntry
    (found : ((store.recordEntry toolchain entry).declaredIn other).get? name = some value) :
    (other = toolchain ∧ entry = (name, value)) ∨
      (store.declaredIn other).get? name = some value := by
  rw [declaredIn_recordEntry] at found
  split at found
  · rename_i same
    rw [get?_record] at found
    split at found
    · rename_i new
      cases found
      exact Or.inl ⟨same, by rw [new.1]⟩
    · exact Or.inr (same ▸ found)
  · exact Or.inr found

theorem exists_recorded_setup :
    (∃ value, ((store.setup scope overrides).1.declaredIn other).get? name = some value) ↔
      (∃ value, (store.declaredIn other).get? name = some value) ∨
        other = scope.toolchain ∧ name ∈ Host.systemNames := by
  rw [get?_setup, ← @Host.get?_systemDefaults_isSome_iff store.host]
  simp only [← Option.isSome_iff_exists]
  split
  · rename_i same
    simp [same, or_comm]
  · rename_i apart
    simp [apart]

theorem exists_recorded_recordEntry :
    (∃ value, ((store.recordEntry toolchain entry).declaredIn other).get? name = some value) ↔
      (∃ value, (store.declaredIn other).get? name = some value) ∨
        other = toolchain ∧ entry.1 = name := by
  rw [declaredIn_recordEntry]
  split
  · rename_i same
    subst same
    rw [get?_record]
    by_cases named : name = entry.1
    · subst named
      cases recorded : (store.declaredIn other).get? entry.1 with
      | none => simp
      | some value => cases origin : value.origin <;> simp [origin]
    · simp [named, eq_comm (a := entry.1)]
  · rename_i apart
    simp [apart]

theorem isDeclared_setup :
    (store.setup scope overrides).1.isDeclared name = true ↔
      store.isDeclared name = true ∨ name ∈ Host.systemNames := by
  simp only [isDeclared_eq_true_iff, exists_recorded_setup, exists_or, exists_eq_left]

end BuildArgs.Store
