import BuildArgs.Proofs.Store.BatchOutcome

/-! What becomes of one of the names of a batch. If the batch gets as far as the name and nothing
recorded is in its way, then it is accepted, and what its scope and its context hold afterwards
depends on what they had before the batch. If the batch does not get that far, all stays as it
was. -/

namespace BuildArgs.Store

variable {store : Store} {scope : Scope} {arguments : NameMap Value} {name : String} {value : Value}

def brought? (store : Store) (toolchain : Toolchain) (name : String) : Option Value :=
  (store.toolchainOverrides.get? toolchain).bind fun overrides => overrides.get? name

/-- Whether none of the smaller names of a batch is refused. -/
def Reaches (store : Store) (scope : Scope) (arguments : NameMap Value) (name : String) : Prop :=
  (store.declare scope (arguments.below name)).error = none

instance : Decidable (store.Reaches scope arguments name) :=
  inferInstanceAs (Decidable (_ = _))

def retain (found : Option Value) (value : Value) : Value :=
  (found.filter fun earlier => earlier.origin.isSome).getD value

theorem retain_some (earlier value : Value) :
    retain (some earlier) value = if earlier.origin.isSome then earlier else value := by
  unfold retain
  cases origin : earlier.origin <;> simp [Option.filter, origin]

/-- What a batch that accepts a name leaves behind of it. -/
structure TakesIn (store : Store) (scope : Scope) (arguments : NameMap Value) (name : String)
    (value : Value) : Prop where
  attempted : ∃ attempt ∈ store.attempts scope arguments.entries,
    attempt.error = none ∧ attempt.name = name
  held : (store.declare scope arguments).scope.get? name =
    some (store.resolve scope.toolchain name value)
  recorded : ((store.declare scope arguments).store.declaredIn scope.toolchain).get? name =
    some (retain ((store.declaredIn scope.toolchain).get? name) value)

theorem resolve_eq (store : Store) (toolchain : Toolchain) (name : String) (value : Value) :
    store.resolve toolchain name value =
      ((store.brought? toolchain name).or (store.override? name)).getD value := rfl

theorem get?_record_self (declared : NameMap Value) (name : String) (value : Value) :
    (record declared name value).get? name = some (retain (declared.get? name) value) := by
  rw [get?_record]
  cases declared.get? name with
  | none => simp [retain]
  | some earlier =>
    rw [retain_some]
    cases origin : earlier.origin <;> simp [origin]

theorem exists_split (batched : arguments.get? name = some value) :
    ∃ before after, arguments.entries = before ++ (name, value) :: after ∧
      (arguments.below name).entries = before ∧
      name ∉ before.map Prod.fst ∧ name ∉ after.map Prod.fst := by
  obtain ⟨before, after, split⟩ := List.append_of_mem (SortedMap.get?_eq_some_iff.mp batched)
  have distinct : (arguments.entries.map Prod.fst).Nodup := arguments.keys_nodup
  rw [split, List.map_append, List.map_cons, List.nodup_append, List.nodup_cons] at distinct
  obtain ⟨_, ⟨behind, _⟩, apart⟩ := distinct
  exact ⟨before, after, split, SortedMap.entries_below split,
    fun inside => apart name inside name List.mem_cons_self rfl, behind⟩

theorem declareEach_head (clear : store.conflict? scope.toolchain name value = none)
    {after : List (String × Value)} (behind : name ∉ after.map Prod.fst) :
    let result := store.declareEach scope ((name, value) :: after)
    result.scope.get? name = some (store.resolve scope.toolchain name value) ∧
      (result.store.declaredIn scope.toolchain).get? name =
        some (retain ((store.declaredIn scope.toolchain).get? name) value) := by
  intro result
  let recorded := store.recordEntry scope.toolchain (name, value)
  let resolved := store.resolveEntry scope (name, value)
  have whole : result = recorded.declareEach resolved after := declareEach_accepted clear after
  have context : resolved.toolchain = scope.toolchain := toolchain_resolveEntry _ _ _
  obtain ⟨kept, held, _⟩ : (result.store.declaredIn resolved.toolchain).get? name =
      (recorded.declaredIn resolved.toolchain).get? name ∧ result.scope.get? name =
        resolved.get? name ∧ result.scope.isUsed name = resolved.isUsed name := by
    rw [whole]
    exact declareEach_of_absent behind
  constructor
  · rw [held, get?_resolveEntry, if_pos rfl]
  · rw [← context, kept, context, declaredIn_recordEntry, if_pos rfl, get?_record_self]

theorem takesIn_of_reaches (batched : arguments.get? name = some value)
    (reaches : store.Reaches scope arguments name)
    (clear : store.conflict? scope.toolchain name value = none) :
    store.TakesIn scope arguments name value := by
  obtain ⟨before, after, split, part, absent, behind⟩ := exists_split batched
  rw [Reaches, declare, part] at reaches
  let reached := store.declareEach scope before
  have context : reached.scope.toolchain = scope.toolchain := toolchain_declareEach _ _ _
  have clearHere : reached.store.conflict? reached.scope.toolchain name value = none := by
    rw [context, conflict?_declareEach absent, clear]
  have whole : store.declare scope arguments =
      reached.store.declareEach reached.scope ((name, value) :: after) := by
    rw [declare, split, declareEach_append, reaches]
  obtain ⟨held, recorded⟩ := declareEach_head clearHere behind
  rw [context] at held recorded
  refine ⟨?_, ?_, ?_⟩
  · refine ⟨⟨reached.scope.toolchain, name, value, none⟩, ?_, rfl, rfl⟩
    rw [split, attempts_append, reaches]
    refine List.mem_append_right _ ?_
    rw [attempts_accepted clearHere]
    exact List.mem_cons_self
  · rw [whole, held, resolve_declareEach]
  · rw [whole, recorded, (declareEach_of_absent absent).1]

theorem conflict?_of_succeeds (batched : arguments.get? name = some value)
    (succeeds : (store.declare scope arguments).error = none) :
    store.conflict? scope.toolchain name value = none := by
  have distinct : (arguments.entries.map Prod.fst).Nodup := arguments.keys_nodup
  rw [declare, error_declareEach distinct, List.findSome?_eq_none_iff] at succeeds
  exact succeeds (name, value) (SortedMap.get?_eq_some_iff.mp batched)

theorem reaches_of_succeeds (batched : arguments.get? name = some value)
    (succeeds : (store.declare scope arguments).error = none) :
    store.Reaches scope arguments name := by
  obtain ⟨before, after, split, part, _, _⟩ := exists_split batched
  rw [Reaches, declare, part]
  rw [declare, split, declareEach_append] at succeeds
  cases failed : (store.declareEach scope before).error with
  | none => rfl
  | some error => simp [failed] at succeeds

theorem takesIn_of_attempted (batched : arguments.get? name = some value) {attempt : Attempt}
    (tried : attempt ∈ store.attempts scope arguments.entries) (accepted : attempt.error = none)
    (named : attempt.name = name) : store.TakesIn scope arguments name value := by
  obtain ⟨before, after, split, part, absent, _⟩ := exists_split batched
  have late : attempt ∉ store.attempts scope before := by
    intro early
    exact absent (named ▸ List.mem_map_of_mem (mem_of_mem_attempts early))
  rw [split, attempts_append] at tried
  cases reaches : (store.declareEach scope before).error with
  | some error =>
    rw [reaches] at tried
    exact absurd tried late
  | none =>
    simp only [reaches] at tried
    have here := (List.mem_append.mp tried).resolve_left late
    apply takesIn_of_reaches batched
    · rw [Reaches, declare, part, reaches]
    · rw [← conflict?_declareEach absent, ← toolchain_declareEach store scope before]
      cases conflict : (store.declareEach scope before).store.conflict?
          (store.declareEach scope before).scope.toolchain name value with
      | none => rfl
      | some error =>
        rw [attempts_refused conflict, List.mem_singleton] at here
        simp [here] at accepted

theorem recorded_of_not_reaches (batched : arguments.get? name = some value)
    (ends : ¬ store.Reaches scope arguments name) :
    ((store.declare scope arguments).store.declaredIn scope.toolchain).get? name =
      (store.declaredIn scope.toolchain).get? name := by
  obtain ⟨before, after, split, part, absent, _⟩ := exists_split batched
  rw [Reaches, declare, part] at ends
  obtain ⟨error, failed⟩ := Option.ne_none_iff_exists'.mp ends
  rw [declare, split, declareEach_append, failed]
  exact (declareEach_of_absent absent).1

end BuildArgs.Store
