import BuildArgs.Proofs.Store.Batch
import BuildArgs.Proofs.Store.RootScope
import BuildArgs.Proofs.Store.Seeding

/-! Declaring a second time what is recorded already. Preparing a context again puts the system
arguments back and sets the other arguments early, and when the same declarations are made again,
nothing is left of either. -/

namespace BuildArgs

namespace Scope

theorem get?_slots (scope : Scope) (name : String) :
    scope.slots.get? name = (scope.get? name).map fun value => ⟨value, scope.isUsed name⟩ := by
  unfold get? isUsed
  cases scope.slots.get? name with
  | none => rfl
  | some slot => rfl

theorem eq_of_get? {left right : Scope} (toolchain : left.toolchain = right.toolchain)
    (values : ∀ name, left.get? name = right.get? name)
    (used : ∀ name, left.isUsed name = right.isUsed name) : left = right := by
  have slots : left.slots = right.slots := by
    apply SortedMap.ext_get?
    intro name
    rw [get?_slots, get?_slots, values, used]
  cases left
  cases right
  simp_all

end Scope

namespace ToolchainSpec

variable (spec : ToolchainSpec) (active : NameMap Value)

theorem isUsed_foldl_settle (entries : List (String × Value)) (scope : Scope) (name : String) :
    (entries.foldl (spec.settle active) scope).isUsed name =
      (decide (name ∈ entries.map Prod.fst) || scope.isUsed name) := by
  induction entries generalizing scope with
  | nil => rfl
  | cons entry rest ih =>
    have first : (spec.settle active scope entry).isUsed name =
        (decide (name = entry.1) || scope.isUsed name) :=
      scope.isUsed_set_markUsed entry.1 name _ _
    rw [List.foldl_cons, ih, first, Bool.or_left_comm]
    simp only [List.map_cons, List.mem_cons, Bool.decide_or, Bool.or_assoc]

theorem foldl_settle_congr {entries : List (String × Value)} {scope other : Scope}
    (toolchain : scope.toolchain = other.toolchain)
    (elsewhere : ∀ name ∉ entries.map Prod.fst,
      scope.get? name = other.get? name ∧ scope.isUsed name = other.isUsed name) :
    entries.foldl (spec.settle active) scope = entries.foldl (spec.settle active) other := by
  apply Scope.eq_of_get?
  · simpa using toolchain
  · intro name
    rw [get?_foldl_settle, get?_foldl_settle]
    by_cases named : name ∈ entries.map Prod.fst
    · obtain ⟨entry, member, rfl⟩ := List.mem_map.mp named
      have settled : (entries.reverse.lookup entry.1).isSome :=
        List.lookup_isSome_iff.mpr ⟨entry, List.mem_reverse.mpr member, by simp⟩
      obtain ⟨value, found⟩ := Option.isSome_iff_exists.mp settled
      simp [found]
    · rw [(elsewhere name named).1]
  · intro name
    rw [isUsed_foldl_settle, isUsed_foldl_settle]
    by_cases named : name ∈ entries.map Prod.fst
    · simp [named]
    · rw [(elsewhere name named).2]

end ToolchainSpec

namespace Store

variable {store : Store} {spec : ToolchainSpec} {entry : String × Value}

/-- Whether a declaration may stand beside everything that is recorded of its name. -/
def Admits (store : Store) (entry : String × Value) : Prop :=
  ∀ toolchain value, (store.declaredIn toolchain).get? entry.1 = some value →
    Compatible entry.1 value entry.2

theorem Admits.setup (admits : store.Admits entry) (scope : Scope) (overrides : NameMap Value) :
    (store.setup scope overrides).1.Admits entry := by
  intro toolchain value found
  rcases recorded_of_setup found with ⟨system, missing⟩ | old
  · exact Or.inl ⟨missing, system⟩
  · exact admits toolchain value old

theorem Admits.recordEntry (admits : store.Admits entry) {other : String × Value}
    (clear : ¬ (Declaration.ofEntry entry).Clashes (.ofEntry other)) (toolchain : Toolchain) :
    (store.recordEntry toolchain other).Admits entry := by
  intro context value found
  rcases recorded_of_recordEntry found with ⟨_, rfl⟩ | old
  · exact Or.inr (Classical.not_not.mp fun differ => clear ⟨rfl, Ne.symm differ⟩)
  · exact admits context value old

theorem declareEach_of_admits {scope : Scope} {declared : NameMap Value}
    {entries : List (String × Value)} (own : scope.toolchain = spec.id)
    (context : store.declared.get? spec.id = some declared)
    (brought : store.toolchainOverrides.get? spec.id = some spec.overrides)
    (admits : ∀ entry ∈ entries, store.Admits entry)
    (agree : Declaration.Agree (entries.map .ofEntry)) :
    store.declareEach scope entries =
      ⟨{ store with declared := store.declared.insert spec.id (recordAll declared entries) },
        entries.foldl (spec.settle store.active) scope, none⟩ := by
  -- what the rest of the batch needs of the store is kept by each declaration that is accepted
  induction entries generalizing store scope declared with
  | nil => simp [declareEach, recordAll, SortedMap.insert_of_get? context]
  | cons entry rest ih =>
    obtain ⟨clear, later⟩ := Declaration.agree_cons_iff.mp agree
    have accepted : store.conflict? scope.toolchain entry.1 entry.2 = none :=
      conflict?_eq_none_iff.mpr (admits entry List.mem_cons_self)
    have resolved := resolveEntry_eq_settle own brought entry
    have recorded : (store.recordEntry spec.id entry).declared.get? spec.id =
        some (record declared entry.1 entry.2) := by
      simp [recordEntry, declaredIn, context]
    have admitted : ∀ other ∈ rest, (store.recordEntry spec.id entry).Admits other := by
      intro other member
      exact (admits other (List.mem_cons_of_mem _ member)).recordEntry
        (clear _ (List.mem_map_of_mem member)) spec.id
    have next : (spec.settle store.active scope entry).toolchain = spec.id := by
      simpa [ToolchainSpec.settle] using own
    have done := ih next recorded brought admitted later
    rw [declareEach_accepted accepted]
    simp only [resolved, own]
    rw [done]
    simp [recordEntry, recordAll, declaredIn, context, SortedMap.insert_insert]

theorem recordAll_insertAll {defaults : NameMap Value} {entries : List (String × Value)}
    (placeless : UniformMap none defaults) (placed : ∀ entry ∈ entries, entry.2.origin ≠ none) :
    recordAll ((recordAll defaults entries).insertAll defaults) entries =
      recordAll defaults entries := by
  apply SortedMap.ext_get?
  intro name
  rw [get?_recordAll placed, SortedMap.get?_insertAll, get?_recordAll placed]
  cases system : defaults.get? name with
  | some value => simp [(placeless name value system).origin_eq]
  | none => simp

theorem isUsed_applyDeclared (values declared : NameMap Value) (scope : Scope) (name : String) :
    (applyDeclared values declared scope).isUsed name = scope.isUsed name := by
  unfold applyDeclared
  induction values.entries generalizing scope with
  | nil => rfl
  | cons entry rest ih =>
    rw [List.foldl_cons, ih]
    split
    · exact Scope.isUsed_set _ _ _ _ _
    · rfl

theorem get?_recordAll_of_not_mem {declared : NameMap Value} {entries : List (String × Value)}
    {name : String} (undeclared : name ∉ entries.map Prod.fst) :
    (recordAll declared entries).get? name = declared.get? name := by
  induction entries generalizing declared with
  | nil => rfl
  | cons entry rest ih =>
    simp only [List.map_cons, List.mem_cons, not_or] at undeclared
    change (recordAll (record declared entry.1 entry.2) rest).get? name = _
    rw [ih undeclared.2, get?_record, if_neg fun new => undeclared.1 new.1]

/-- A context that has declared something before is prepared as it was at first, apart from the
names that it has declared. -/
theorem setup_scope_elsewhere {entries : List (String × Value)}
    (recorded : store.declared.get? spec.id =
      some (recordAll store.host.systemDefaults entries))
    {name : String} (undeclared : name ∉ entries.map Prod.fst) :
    let scope := (store.setup (.new spec.id) spec.overrides).2
    let fresh := spec.freshScope store.host store.active
    scope.get? name = fresh.get? name ∧ scope.isUsed name = fresh.isUsed name := by
  have same : ((recordAll store.host.systemDefaults entries).insertAll
      store.host.systemDefaults).contains name = store.host.systemDefaults.contains name := by
    simp only [SortedMap.contains, SortedMap.get?_insertAll, get?_recordAll_of_not_mem undeclared,
      Option.or_self]
  simp only [setup, declaredIn, Scope.new, recorded, Option.getD_some, ToolchainSpec.freshScope,
    get?_applyDeclared, isUsed_applyDeclared, same, and_self]

end Store
end BuildArgs
