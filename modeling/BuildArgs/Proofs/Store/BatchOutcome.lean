import BuildArgs.Proofs.Store.Batch
import Mathlib.Data.List.Induction

/-! How a batch of declarations ends. Its names differ, so no declaration of a batch gets in the
way of another, and what is recorded before the batch tells which of them is refused. What stands
before that one is done as if it were the whole batch. -/

namespace BuildArgs

namespace SortedMap

def below {α : Type} (map : NameMap α) (name : String) : NameMap α :=
  map.filter fun other _ => decide (other < name)

theorem entries_below {α : Type} {map : NameMap α} {before after : List (String × α)}
    {entry : String × α} (split : map.entries = before ++ entry :: after) :
    (map.below entry.1).entries = before := by
  have ascending := map.ascending
  rw [split] at ascending
  obtain ⟨_, tail, across⟩ := List.pairwise_append.mp ascending
  have kept : before.filter (fun other => decide (other.1 < entry.1)) = before := by
    rw [List.filter_eq_self]
    intro other member
    have under := across other member entry List.mem_cons_self
    exact decide_eq_true (compareOfLessAndEq_eq_lt.mp under)
  have dropped : (entry :: after).filter (fun other => decide (other.1 < entry.1)) = [] := by
    rw [List.filter_eq_nil_iff]
    intro other member
    rw [decide_eq_true_eq]
    rcases List.mem_cons.mp member with rfl | later
    · exact Std.lt_irrefl
    · have above := (List.pairwise_cons.mp tail).1 other later
      exact String.lt_asymm (compareOfLessAndEq_eq_lt.mp above)
  simp only [below, filter, split, List.filter_append, kept, dropped, List.append_nil]

end SortedMap

namespace Store

variable {store : Store} {scope : Scope} {toolchain : Toolchain} {entry : String × Value}
  {entries : List (String × Value)} {name : String} {value : Value}

/-- Whether something is recorded of a name at another place than that of a new declaration, in
whatever context. System arguments that nothing has declared do not count. -/
def Collides (store : Store) (name : String) (value : Value) : Prop :=
  ∃ toolchain recorded, (store.declaredIn toolchain).get? name = some recorded ∧
    recorded.origin ≠ value.origin ∧ ¬ (recorded.origin = none ∧ name ∈ Host.systemNames)

theorem conflict?_eq_none_iff_not_collides :
    store.conflict? toolchain name value = none ↔ ¬ store.Collides name value := by
  rw [conflict?_eq_none_iff]
  constructor
  · rintro compatible ⟨other, recorded, found, differ, explicit⟩
    exact (compatible other recorded found).elim explicit differ
  · intro clear other recorded found
    by_cases implicit : recorded.origin = none ∧ name ∈ Host.systemNames
    · exact Or.inl implicit
    · refine Or.inr (Classical.not_not.mp fun differ => ?_)
      exact clear ⟨other, recorded, found, differ, implicit⟩

theorem name?_of_conflict? {error : ArgError}
    (refused : store.conflict? toolchain name value = some error) : error.name? = some name := by
  obtain ⟨other, recorded, _, _, rfl, _⟩ := exists_of_conflict? refused
  rw [duplicate]
  split <;> rfl

theorem recordings_recordEntry_ne (apart : name ≠ entry.1) :
    (store.recordEntry toolchain entry).recordings toolchain name =
      store.recordings toolchain name := by
  have own : ((store.recordEntry toolchain entry).declaredIn toolchain).get? name =
      (store.declaredIn toolchain).get? name := by
    rw [declaredIn_recordEntry, if_pos rfl, get?_record, if_neg fun new => apart new.1]
  simp only [recordings, own]
  congr 1
  exact SortedMap.filterMap_put (fun _ => if_pos rfl) _ _

theorem conflict?_declareEach (absent : name ∉ entries.map Prod.fst) :
    (store.declareEach scope entries).store.conflict? scope.toolchain name value =
      store.conflict? scope.toolchain name value := by
  refine declareEach_induction (motive := fun _ later =>
    later.conflict? scope.toolchain name value = store.conflict? scope.toolchain name value)
    ?_ ?_ [] rfl rfl
  · intro _ later entry member held _
    have apart : name ≠ entry.1 := fun same => absent (same ▸ List.mem_map_of_mem member)
    rw [conflict?, recordings_recordEntry_ne apart]
    exact held
  · intro _ _ _ _ _ held _
    exact held

theorem error_declareEach (distinct : (entries.map Prod.fst).Nodup) :
    (store.declareEach scope entries).error =
      entries.findSome? fun entry => store.conflict? scope.toolchain entry.1 entry.2 := by
  -- from the end, so that what is before an entry is a batch on the same store
  induction entries using List.reverseRecOn with
  | nil => rfl
  | append_singleton done entry ih =>
    rw [List.map_append, List.nodup_append] at distinct
    obtain ⟨doneDistinct, _, apart⟩ := distinct
    have absent : entry.1 ∉ done.map Prod.fst := fun inside => apart _ inside entry.1 (by simp) rfl
    have last : (store.declareEach scope done).store.conflict?
        (store.declareEach scope done).scope.toolchain entry.1 entry.2 =
          store.conflict? scope.toolchain entry.1 entry.2 := by
      rw [toolchain_declareEach, conflict?_declareEach absent]
    rw [declareEach_append, List.findSome?_append, ← ih doneDistinct, List.findSome?_singleton]
    cases failed : (store.declareEach scope done).error with
    | some error => exact failed
    | none =>
      cases conflict : store.conflict? scope.toolchain entry.1 entry.2 with
      | some error => exact congrArg Declared.error (declareEach_refused (last.trans conflict) [])
      | none => exact congrArg Declared.error (declareEach_accepted (last.trans conflict) [])

theorem declareEach_of_absent (absent : name ∉ entries.map Prod.fst) :
    let result := store.declareEach scope entries
    (result.store.declaredIn scope.toolchain).get? name =
        (store.declaredIn scope.toolchain).get? name ∧
      result.scope.get? name = scope.get? name ∧ result.scope.isUsed name = scope.isUsed name := by
  suffices kept : (store.declareEach scope entries).scope.toolchain = scope.toolchain ∧ _ from
    kept.2
  refine declareEach_scope_induction (motive := fun _ later grown =>
    grown.toolchain = scope.toolchain ∧
    (later.declaredIn scope.toolchain).get? name = (store.declaredIn scope.toolchain).get? name ∧
      grown.get? name = scope.get? name ∧ grown.isUsed name = scope.isUsed name) ?_ ?_ [] ?_
  · rintro _ later grown entry member ⟨context, recorded, present, used⟩ _
    have apart : name ≠ entry.1 := fun same => absent (same ▸ List.mem_map_of_mem member)
    refine ⟨by simp [context], ?_, ?_, ?_⟩
    · rw [context, declaredIn_recordEntry, if_pos rfl, get?_record, if_neg fun new => apart new.1,
        recorded]
    · rw [get?_resolveEntry, if_neg apart, present]
    · simp [isUsed_resolveEntry, apart, used]
  · intro _ _ _ _ _ _ held _
    exact held
  · exact ⟨rfl, rfl, rfl, rfl⟩

/-- How a batch ends at the first of its names that is refused. -/
structure StopsAt (store : Store) (scope : Scope) (arguments : NameMap Value) (name : String)
    (error : ArgError) : Prop where
  refused : ∃ value, arguments.get? name = some value ∧ store.Collides name value ∧
    store.conflict? scope.toolchain name value = some error
  reported : error.name? = some name
  least : ∀ other value, arguments.get? other = some value → store.Collides other value →
    name ≤ other
  succeeds : (store.declare scope (arguments.below name)).error = none
  outcome : store.declare scope arguments =
    { store.declare scope (arguments.below name) with error := some error }
  untouched : ∀ other, name ≤ other →
    let result := store.declare scope arguments
    (result.store.declaredIn scope.toolchain).get? other =
        (store.declaredIn scope.toolchain).get? other ∧
      result.scope.get? other = scope.get? other ∧
      result.scope.isUsed other = scope.isUsed other

theorem stopsAt_of_split {arguments : NameMap Value} {before after : List (String × Value)}
    {error : ArgError} (split : arguments.entries = before ++ entry :: after)
    (clear : ∀ earlier ∈ before, store.conflict? scope.toolchain earlier.1 earlier.2 = none)
    (refused : store.conflict? scope.toolchain entry.1 entry.2 = some error) :
    store.StopsAt scope arguments entry.1 error := by
  have ascending := arguments.ascending
  rw [split] at ascending
  obtain ⟨_, tail, across⟩ := List.pairwise_append.mp ascending
  have under : ∀ earlier ∈ before, earlier.1 < entry.1 := fun earlier member =>
    compareOfLessAndEq_eq_lt.mp (across earlier member entry List.mem_cons_self)
  have absent : ∀ other, entry.1 ≤ other → other ∉ before.map Prod.fst := by
    intro other above inside
    obtain ⟨earlier, member, rfl⟩ := List.mem_map.mp inside
    exact String.not_lt.mpr above (under earlier member)
  have distinct : (before.map Prod.fst).Nodup := by
    have all : (arguments.entries.map Prod.fst).Nodup := arguments.keys_nodup
    rw [split, List.map_append] at all
    exact (List.nodup_append.mp all).1
  have fine : (store.declareEach scope before).error = none := by
    rw [error_declareEach distinct, List.findSome?_eq_none_iff]
    exact clear
  have stopped : (store.declareEach scope before).store.conflict?
      (store.declareEach scope before).scope.toolchain entry.1 entry.2 = some error := by
    rw [toolchain_declareEach, conflict?_declareEach (absent entry.1 (Std.le_refl _)), refused]
  have outcome : store.declareEach scope arguments.entries =
      { store.declareEach scope before with error := some error } := by
    rw [split, declareEach_append, fine]
    exact declareEach_refused stopped after
  have part := SortedMap.entries_below split
  have collides : store.Collides entry.1 entry.2 := by
    apply Classical.not_not.mp
    rw [← @conflict?_eq_none_iff_not_collides _ scope.toolchain, refused]
    exact Option.some_ne_none error
  exact {
    refused := ⟨entry.2, SortedMap.get?_eq_some_iff.mpr (split ▸ by simp), collides, refused⟩
    reported := name?_of_conflict? refused
    least := by
      intro other value found otherCollides
      have member := SortedMap.get?_eq_some_iff.mp found
      rw [split] at member
      rcases List.mem_append.mp member with early | late
      · exact absurd otherCollides (conflict?_eq_none_iff_not_collides.mp (clear _ early))
      · rcases List.mem_cons.mp late with rfl | later
        · exact Std.le_refl _
        · have above := (List.pairwise_cons.mp tail).1 _ later
          exact Std.le_of_lt (compareOfLessAndEq_eq_lt.mp above)
    succeeds := by rw [declare, part, fine]
    outcome := by rw [declare, declare, part, outcome]
    untouched := by
      intro other above
      rw [declare, outcome]
      exact declareEach_of_absent (absent other above) }

theorem store_of_nothing_accepted
    (nothing : ∀ attempt ∈ store.attempts scope entries, attempt.error ≠ none) :
    (store.declareEach scope entries).store = store := by
  refine declareEach_induction (motive := fun history later =>
    (∀ attempt ∈ history, attempt.error ≠ none) → later = store) ?_ ?_ [] rfl (fun _ => rfl) nothing
  · intro history later entry _ _ _ all
    have refused := all ⟨scope.toolchain, entry.1, entry.2, none⟩ (by simp)
    exact absurd rfl refused
  · intro history later error entry _ held _ all
    exact held fun attempt member => all attempt (List.mem_append_left _ member)

/-- A batch fails exactly if something in it collides with what is recorded before, in whatever
context. It then reports the least name that does, and leaves behind what the smaller names
alone would. Whether it fails or not, nothing but the declarations of its context changes in the
store, and if it accepts nothing, not even the list of contexts does. -/
theorem batch_outcome (store : Store) (scope : Scope) (arguments : NameMap Value) :
    let result := store.declare scope arguments
    (result.error ≠ none ↔
      ∃ name value, arguments.get? name = some value ∧ store.Collides name value) ∧
    (∀ error, result.error = some error → ∃ name, store.StopsAt scope arguments name error) ∧
    result.store = { store with declared := result.store.declared } ∧
    (∀ other, other ≠ scope.toolchain →
      result.store.declared.get? other = store.declared.get? other) ∧
    ((∀ attempt ∈ store.attempts scope arguments.entries, attempt.error ≠ none) →
      result.store.toolchains = store.toolchains) := by
  intro result
  have distinct : (arguments.entries.map Prod.fst).Nodup := arguments.keys_nodup
  have first : result.error = arguments.entries.findSome? fun entry =>
    store.conflict? scope.toolchain entry.1 entry.2 := error_declareEach distinct
  refine ⟨?_, ?_, declareEach_store _ _ _, fun _ => declared_declareEach_ne, ?_⟩
  · simp only [first, ne_eq, List.findSome?_eq_none_iff, conflict?_eq_none_iff_not_collides,
      Prod.forall, ← SortedMap.get?_eq_some_iff, not_forall, Classical.not_not, exists_prop]
  · intro error failed
    rw [first, List.findSome?_eq_some_iff] at failed
    obtain ⟨before, entry, after, split, refused, clear⟩ := failed
    exact ⟨entry.1, stopsAt_of_split split clear refused⟩
  · intro nothing
    exact congrArg toolchains (store_of_nothing_accepted nothing)

theorem batch_outcome_secondName :
    let store := ((new ⟨"linux", "x64"⟩).declare (.new ⟨"b", false⟩)
      (.ofList [("m", placedAt 1)])).store
    let scope : Scope := .new ⟨"a", false⟩
    let batch : NameMap Value := .ofList [("k", placedAt 2), ("m", placedAt 3), ("z", placedAt 4)]
    let error := .duplicateDeclaration "m" (some ⟨"f", some 1⟩) (some ⟨"f", some 3⟩)
    (store.declare scope batch).error = some error ∧ store.StopsAt scope batch "m" error := by
  intro store scope batch error
  have failed : (store.declare scope batch).error = some error := by decide +kernel
  obtain ⟨name, stops⟩ := (batch_outcome store scope batch).2.1 error failed
  have named : "m" = name := Option.some.inj stops.reported
  exact ⟨failed, named ▸ stops⟩

end Store
end BuildArgs
