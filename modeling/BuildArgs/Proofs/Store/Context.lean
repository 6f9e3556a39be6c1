import BuildArgs.Proofs.Store.Batch
import BuildArgs.Proofs.Store.Settling

/-! One context of a shared store beside a store of its own. What is done in the context has the
same effects on both, unless the shared store refuses a declaration, and what is done in other
contexts of the shared store has none on it. -/

namespace BuildArgs.Store

/-- A store on which nothing is declared outside of one context, which is that of a shared
store. -/
structure Isolates (toolchain : Toolchain) (shared own : Store) : Prop where
  host : own.host = shared.host
  active : own.active = shared.active
  declared : own.declared.get? toolchain = shared.declared.get? toolchain
  overrides : own.toolchainOverrides.get? toolchain = shared.toolchainOverrides.get? toolchain
  alone : ∀ other, other ≠ toolchain → own.declared.get? other = none

namespace Isolates

variable {toolchain : Toolchain} {shared own : Store}

theorem of_new (toolchain : Toolchain) (host : Host) :
    Isolates toolchain (new host) (new host) where
  host := rfl
  active := rfl
  declared := rfl
  overrides := rfl
  alone := fun _ _ => rfl

theorem declaredIn (isolates : Isolates toolchain shared own) :
    own.declaredIn toolchain = shared.declaredIn toolchain := by
  rw [Store.declaredIn, Store.declaredIn, isolates.declared]

theorem give (isolates : Isolates toolchain shared own)
    (change : NameMap Value → NameMap Value) {sharedSupplied ownSupplied : NameMap Value} :
    Isolates toolchain { shared with active := change shared.active, supplied := sharedSupplied }
      { own with active := change own.active, supplied := ownSupplied } where
  host := isolates.host
  active := congrArg change isolates.active
  declared := isolates.declared
  overrides := isolates.overrides
  alone := isolates.alone

theorem conflict?_eq_none (isolates : Isolates toolchain shared own) {name : String}
    {value : Value} (clear : shared.conflict? toolchain name value = none) :
    own.conflict? toolchain name value = none := by
  rw [conflict?_eq_none_iff] at clear ⊢
  intro other recorded found
  by_cases same : other = toolchain
  · subst same
    rw [isolates.declaredIn] at found
    exact clear other recorded found
  · simp [Store.declaredIn, isolates.alone other same] at found

theorem resolveEntry (isolates : Isolates toolchain shared own) {scope : Scope}
    (context : scope.toolchain = toolchain) (entry : String × Value) :
    own.resolveEntry scope entry = shared.resolveEntry scope entry := by
  subst context
  simp only [Store.resolveEntry, resolve, isolates.overrides, isolates.active]

theorem recordEntry (isolates : Isolates toolchain shared own) (entry : String × Value) :
    Isolates toolchain (shared.recordEntry toolchain entry) (own.recordEntry toolchain entry) where
  host := isolates.host
  active := isolates.active
  declared := by simp [Store.recordEntry, isolates.declaredIn]
  overrides := isolates.overrides
  alone := by
    intro other apart
    rw [Store.recordEntry, SortedMap.get?_insert_ne _ _ apart]
    exact isolates.alone other apart

theorem declareEach (isolates : Isolates toolchain shared own) {scope : Scope}
    (context : scope.toolchain = toolchain) {entries : List (String × Value)}
    (succeeds : (shared.declareEach scope entries).error = none) :
    Isolates toolchain (shared.declareEach scope entries).store
      (own.declareEach scope entries).store ∧
    (own.declareEach scope entries).error = none ∧
    (own.declareEach scope entries).scope = (shared.declareEach scope entries).scope := by
  induction entries generalizing shared own scope with
  | nil => exact ⟨isolates, rfl, rfl⟩
  | cons entry rest ih =>
    subst context
    cases conflict : shared.conflict? scope.toolchain entry.1 entry.2 with
    | some error => simp [declareEach_refused conflict] at succeeds
    | none =>
      have clear := isolates.conflict?_eq_none conflict
      rw [declareEach_accepted conflict] at succeeds
      rw [declareEach_accepted conflict, declareEach_accepted clear, isolates.resolveEntry rfl]
      exact ih (isolates.recordEntry entry) (by simp) succeeds

theorem setup (isolates : Isolates toolchain shared own) {scope : Scope}
    (context : scope.toolchain = toolchain) (overrides : NameMap Value) :
    Isolates toolchain (shared.setup scope overrides).1 (own.setup scope overrides).1 ∧
      (own.setup scope overrides).2 = (shared.setup scope overrides).2 := by
  subst context
  refine ⟨⟨isolates.host, isolates.active, ?_, ?_, ?_⟩, ?_⟩
  · simp [Store.setup, isolates.declaredIn, isolates.host]
  · simp [Store.setup]
  · intro other apart
    simp only [Store.setup, SortedMap.get?_insert_ne _ _ apart]
    exact isolates.alone other apart
  · simp only [Store.setup, isolates.declaredIn, isolates.host, isolates.active]

theorem declareEach_elsewhere (isolates : Isolates toolchain shared own) {scope : Scope}
    (elsewhere : scope.toolchain ≠ toolchain) (entries : List (String × Value)) :
    Isolates toolchain (shared.declareEach scope entries).store own := by
  have kept : (shared.declareEach scope entries).store.declared.get? toolchain =
      shared.declared.get? toolchain := declared_declareEach_ne elsewhere.symm
  rw [declareEach_store]
  exact ⟨isolates.host, isolates.active, isolates.declared.trans kept.symm, isolates.overrides,
    isolates.alone⟩

theorem setup_elsewhere (isolates : Isolates toolchain shared own) {scope : Scope}
    (elsewhere : scope.toolchain ≠ toolchain) (overrides : NameMap Value) :
    Isolates toolchain (shared.setup scope overrides).1 own where
  host := isolates.host
  active := isolates.active
  declared := by
    rw [Store.setup, SortedMap.get?_insert_ne _ _ elsewhere.symm]
    exact isolates.declared
  overrides := by
    rw [Store.setup, SortedMap.get?_insert_ne _ _ elsewhere.symm]
    exact isolates.overrides
  alone := isolates.alone

end Isolates
end BuildArgs.Store
