import BuildArgs.Proofs.Store.Redeclaration

/-! Preparing a context, on any store and any scope. The names that the context knows take the first
value there is for them: the toolchain's, one given from outside, the system's, or the one that they
had. All other names are left alone. This says everything about the scope and the store that come
out of it, so to do the same a second time changes nothing. -/

namespace BuildArgs

theorem Scope.isUsed_of_get?_eq_none {scope : Scope} {name : String}
    (missing : scope.get? name = none) : scope.isUsed name = false := by
  have empty : scope.slots.get? name = none := Option.map_eq_none_iff.mp missing
  simp [isUsed, empty]

namespace Store

variable {store final : Store} {scope after : Scope} {overrides : NameMap Value}
  {toolchain : Toolchain} {name : String}

theorem isUsed_seedScope (defaults : NameMap Value) (scope : Scope) (name : String) :
    (seedScope defaults scope).isUsed name =
      (decide (name ∈ defaults.keys) || scope.isUsed name) := by
  unfold seedScope SortedMap.keys
  induction defaults.entries generalizing scope with
  | nil => rfl
  | cons entry rest ih =>
    rw [List.foldl_cons, ih, Scope.isUsed_set_markUsed, Bool.or_left_comm]
    simp only [List.map_cons, List.mem_cons, Bool.decide_or, Bool.or_assoc]

theorem isUsed_setup (overrides : NameMap Value) :
    (store.setup scope overrides).2.isUsed name = true ↔
      scope.isUsed name = true ∨ name ∈ Host.systemNames := by
  have system : name ∈ store.host.systemDefaults.keys ↔ name ∈ Host.systemNames := by
    rw [SortedMap.mem_keys_iff]
    exact Host.get?_systemDefaults_isSome_iff
  simp only [setup, isUsed_applyDeclared, isUsed_seedScope, Bool.or_eq_true, decide_eq_true_eq,
    system, or_comm]

/-- Whether a name is one of those that a context gives values to when it is prepared. -/
def Knows (store : Store) (toolchain : Toolchain) (name : String) : Prop :=
  name ∈ Host.systemNames ∨ ∃ value, (store.declaredIn toolchain).get? name = some value

theorem knows_iff_contains :
    store.Knows toolchain name ↔
      ((store.declaredIn toolchain).insertAll store.host.systemDefaults).contains name = true := by
  rw [Knows, ← @Host.get?_systemDefaults_isSome_iff store.host, ← Option.isSome_iff_exists,
    SortedMap.contains, SortedMap.get?_insertAll, Option.isSome_or, Bool.or_eq_true]

structure PreparesScope (store : Store) (scope : Scope) (overrides : NameMap Value)
    (after : Scope) : Prop where
  toolchain : after.toolchain = scope.toolchain
  known : ∀ name, store.Knows scope.toolchain name →
    after.get? name = ((overrides.get? name).or (store.active.get? name)).or
      ((store.host.systemDefaults.get? name).or (scope.get? name))
  unknown : ∀ name, ¬ store.Knows scope.toolchain name → after.get? name = scope.get? name
  system : ∀ name, name ∈ Host.systemNames → after.isUsed name = true
  plain : ∀ name, name ∉ Host.systemNames → after.isUsed name = scope.isUsed name
  created : ∀ name, name ∉ Host.systemNames → scope.get? name = none → after.isUsed name = false

structure PreparesStore (store : Store) (toolchain : Toolchain) (overrides : NameMap Value)
    (final : Store) : Prop where
  host : final.host = store.host
  active : final.active = store.active
  files : final.files = store.files
  declared : ∃ declared, final.declared.get? toolchain = some declared ∧
    ∀ name, declared.get? name =
      (store.host.systemDefaults.get? name).or ((store.declaredIn toolchain).get? name)
  elsewhere : ∀ other, other ≠ toolchain → final.declared.get? other = store.declared.get? other
  brought : final.toolchainOverrides.get? toolchain = some overrides
  broughtElsewhere : ∀ other, other ≠ toolchain →
    final.toolchainOverrides.get? other = store.toolchainOverrides.get? other
  supplied : ∀ name, final.supplied.get? name =
    (overrides.get? name).or (store.supplied.get? name)

theorem preparesScope_setup (store : Store) (scope : Scope) (overrides : NameMap Value) :
    store.PreparesScope scope overrides (store.setup scope overrides).2 := by
  have plain : ∀ name, name ∉ Host.systemNames →
      (store.setup scope overrides).2.isUsed name = scope.isUsed name := by
    intro name apart
    rw [Bool.eq_iff_iff, isUsed_setup, or_iff_left apart]
  refine ⟨toolchain_setup store scope overrides, ?_, ?_, ?_, plain, ?_⟩
  · intro name known
    have inside := knows_iff_contains.mp known
    simp only [setup, get?_applyDeclared, if_pos inside, get?_seedScope_systemDefaults,
      Option.or_assoc]
  · intro name unknown
    have outside := mt knows_iff_contains.mpr unknown
    have missing : store.host.systemDefaults.get? name = none := by
      rw [← Option.not_isSome_iff_eq_none, Host.get?_systemDefaults_isSome_iff]
      exact fun system => unknown (Or.inl system)
    simp only [setup, get?_applyDeclared, if_neg outside, get?_seedScope_systemDefaults, missing,
      Option.none_or]
  · intro name system
    exact (isUsed_setup overrides).mpr (Or.inr system)
  · intro name apart missing
    rw [plain name apart, Scope.isUsed_of_get?_eq_none missing]

theorem preparesStore_setup (store : Store) (scope : Scope) (overrides : NameMap Value) :
    store.PreparesStore scope.toolchain overrides (store.setup scope overrides).1 where
  host := rfl
  active := rfl
  files := rfl
  declared := ⟨_, SortedMap.get?_insert_self _ _ _, SortedMap.get?_insertAll _ _⟩
  elsewhere := fun _ apart => SortedMap.get?_insert_ne _ _ apart
  brought := SortedMap.get?_insert_self _ _ _
  broughtElsewhere := fun _ apart => SortedMap.get?_insert_ne _ _ apart
  supplied := SortedMap.get?_insertAll _ _

theorem PreparesScope.unique {left right : Scope}
    (one : store.PreparesScope scope overrides left)
    (other : store.PreparesScope scope overrides right) : left = right := by
  apply Scope.eq_of_get?
  · rw [one.toolchain, other.toolchain]
  · intro name
    by_cases known : store.Knows scope.toolchain name
    · rw [one.known name known, other.known name known]
    · rw [one.unknown name known, other.unknown name known]
  · intro name
    by_cases system : name ∈ Host.systemNames
    · rw [one.system name system, other.system name system]
    · rw [one.plain name system, other.plain name system]

theorem PreparesStore.unique {left right : Store}
    (one : store.PreparesStore toolchain overrides left)
    (other : store.PreparesStore toolchain overrides right) : left = right := by
  have hosts : left.host = right.host := one.host.trans other.host.symm
  have active : left.active = right.active := one.active.trans other.active.symm
  have files : left.files = right.files := one.files.trans other.files.symm
  have declared : left.declared = right.declared := by
    obtain ⟨leftOwn, leftFound, leftNames⟩ := one.declared
    obtain ⟨rightOwn, rightFound, rightNames⟩ := other.declared
    have own : leftOwn = rightOwn := by
      apply SortedMap.ext_get?
      intro name
      rw [leftNames, rightNames]
    apply SortedMap.ext_get?
    intro context
    by_cases same : context = toolchain
    · rw [same, leftFound, rightFound, own]
    · rw [one.elsewhere context same, other.elsewhere context same]
  have brought : left.toolchainOverrides = right.toolchainOverrides := by
    apply SortedMap.ext_get?
    intro context
    by_cases same : context = toolchain
    · rw [same, one.brought, other.brought]
    · rw [one.broughtElsewhere context same, other.broughtElsewhere context same]
  have supplied : left.supplied = right.supplied := by
    apply SortedMap.ext_get?
    intro name
    rw [one.supplied, other.supplied]
  cases left
  cases right
  simp_all

theorem PreparesStore.declaredIn (prepares : store.PreparesStore toolchain overrides final)
    (name : String) :
    (final.declaredIn toolchain).get? name =
      (store.host.systemDefaults.get? name).or ((store.declaredIn toolchain).get? name) := by
  obtain ⟨declared, found, names⟩ := prepares.declared
  rw [Store.declaredIn, found, Option.getD_some, names]

theorem PreparesStore.knows_iff (prepares : store.PreparesStore toolchain overrides final)
    (name : String) : final.Knows toolchain name ↔ store.Knows toolchain name := by
  have system : (store.host.systemDefaults.get? name).isSome ↔ name ∈ Host.systemNames :=
    Host.get?_systemDefaults_isSome_iff
  simp only [Knows, prepares.declaredIn, ← Option.isSome_iff_exists, Option.isSome_or,
    Bool.or_eq_true, system, ← or_assoc, or_self]

theorem PreparesStore.again (prepares : store.PreparesStore toolchain overrides final) :
    final.PreparesStore toolchain overrides final where
  host := rfl
  active := rfl
  files := rfl
  declared := by
    obtain ⟨declared, found, names⟩ := prepares.declared
    refine ⟨declared, found, fun name => ?_⟩
    rw [prepares.declaredIn, prepares.host, names, ← Option.or_assoc, Option.or_self]
  elsewhere := fun _ _ => rfl
  brought := prepares.brought
  broughtElsewhere := fun _ _ => rfl
  supplied := by
    intro name
    rw [prepares.supplied, ← Option.or_assoc, Option.or_self]

theorem PreparesScope.again (prepared : store.PreparesScope scope overrides after)
    (prepares : store.PreparesStore scope.toolchain overrides final) :
    final.PreparesScope after overrides after where
  toolchain := rfl
  known := by
    intro name known
    rw [prepared.toolchain, prepares.knows_iff] at known
    rw [prepares.active, prepares.host, prepared.known name known]
    cases (overrides.get? name).or (store.active.get? name) with
    | some value => rfl
    | none => rw [Option.none_or, Option.none_or, ← Option.or_assoc, Option.or_self]
  unknown := fun _ _ => rfl
  system := prepared.system
  plain := fun _ _ => rfl
  created := fun _ _ missing => Scope.isUsed_of_get?_eq_none missing

/-- Whatever the store and the scope hold: a name that the context knows takes the toolchain's
value, or else the one from outside, the system's or the one it had. System arguments count as used
and all others as they did before. In the store, the system arguments of the context are reset, the
values that the toolchain brings replace those that it brought, and the record of supplied values
takes them in. To do it all again changes nothing. -/
theorem setup_outcome (store : Store) (scope : Scope) (overrides : NameMap Value) :
    let result := store.setup scope overrides
    store.PreparesScope scope overrides result.2 ∧
      store.PreparesStore scope.toolchain overrides result.1 ∧
      result.1.setup result.2 overrides = result := by
  intro result
  have scopePrepared := preparesScope_setup store scope overrides
  have storePrepared := preparesStore_setup store scope overrides
  refine ⟨scopePrepared, storePrepared, Prod.ext ?_ ?_⟩
  · have second := preparesStore_setup result.1 result.2 overrides
    rw [scopePrepared.toolchain] at second
    exact second.unique storePrepared.again
  · exact (preparesScope_setup result.1 result.2 overrides).unique
      (scopePrepared.again storePrepared)

end Store
end BuildArgs
