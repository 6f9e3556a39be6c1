import BuildArgs.Proofs.Store.Recording

/-! Batches of declarations, one declaration at a time: which are tried, which of these are
accepted, and what the accepted ones add to the store. -/

namespace BuildArgs

/-- A declaration that was tried in a context, with the error if it was refused. -/
structure Attempt where
  toolchain : Toolchain
  name : String
  value : Value
  error : Option ArgError

def Attempt.declaration (attempt : Attempt) : Declaration :=
  ⟨attempt.name, attempt.value.origin⟩

namespace Store

def placedAt (line : UInt32) : Value := .integer (some ⟨"f", some line⟩) 0

/-- The declarations of a batch that are tried. Only the last of them can be refused. -/
def attempts (store : Store) (scope : Scope) : List (String × Value) → List Attempt
  | [] => []
  | (name, value) :: rest =>
    match store.declareOne scope name value with
    | .error error => [⟨scope.toolchain, name, value, some error⟩]
    | .ok (store, grown) => ⟨scope.toolchain, name, value, none⟩ :: store.attempts grown rest

def resolveEntry (store : Store) (scope : Scope) (entry : String × Value) : Scope :=
  let resolved := store.resolve scope.toolchain entry.1 entry.2
  (scope.set entry.1 resolved resolved.origin).markUsed entry.1

@[simp] theorem toolchain_resolveEntry (store : Store) (scope : Scope) (entry : String × Value) :
    (store.resolveEntry scope entry).toolchain = scope.toolchain := by
  simp [resolveEntry]

theorem get?_resolveEntry (store : Store) (scope : Scope) (entry : String × Value) (name : String) :
    (store.resolveEntry scope entry).get? name =
      if name = entry.1 then some (store.resolve scope.toolchain entry.1 entry.2)
      else scope.get? name := by
  rw [resolveEntry, Scope.get?_markUsed, Scope.get?_set, Value.withOrigin_origin]

theorem isUsed_resolveEntry (store : Store) (scope : Scope) (entry : String × Value)
    (name : String) :
    (store.resolveEntry scope entry).isUsed name =
      (decide (name = entry.1) || scope.isUsed name) :=
  scope.isUsed_set_markUsed entry.1 name _ _

theorem declareOne_eq_ok {store : Store} {scope : Scope} {entry : String × Value}
    (clear : store.conflict? scope.toolchain entry.1 entry.2 = none) :
    store.declareOne scope entry.1 entry.2 =
      .ok (store.recordEntry scope.toolchain entry, store.resolveEntry scope entry) := by
  simp [declareOne, clear, recordEntry, resolveEntry]

theorem declareOne_eq_error {store : Store} {scope : Scope} {entry : String × Value}
    {error : ArgError} (refused : store.conflict? scope.toolchain entry.1 entry.2 = some error) :
    store.declareOne scope entry.1 entry.2 = .error error := by
  simp [declareOne, refused]

theorem declareEach_refused {store : Store} {scope : Scope} {entry : String × Value}
    {error : ArgError} (refused : store.conflict? scope.toolchain entry.1 entry.2 = some error)
    (rest : List (String × Value)) :
    store.declareEach scope (entry :: rest) = ⟨store, scope, some error⟩ := by
  rw [declareEach, declareOne_eq_error refused]

theorem declareEach_accepted {store : Store} {scope : Scope} {entry : String × Value}
    (clear : store.conflict? scope.toolchain entry.1 entry.2 = none)
    (rest : List (String × Value)) :
    store.declareEach scope (entry :: rest) =
      (store.recordEntry scope.toolchain entry).declareEach (store.resolveEntry scope entry)
        rest := by
  rw [declareEach, declareOne_eq_ok clear]

theorem attempts_refused {store : Store} {scope : Scope} {entry : String × Value}
    {error : ArgError} (refused : store.conflict? scope.toolchain entry.1 entry.2 = some error)
    (rest : List (String × Value)) :
    store.attempts scope (entry :: rest) =
      [⟨scope.toolchain, entry.1, entry.2, some error⟩] := by
  rw [attempts, declareOne_eq_error refused]

theorem attempts_accepted {store : Store} {scope : Scope} {entry : String × Value}
    (clear : store.conflict? scope.toolchain entry.1 entry.2 = none)
    (rest : List (String × Value)) :
    store.attempts scope (entry :: rest) =
      ⟨scope.toolchain, entry.1, entry.2, none⟩ ::
        (store.recordEntry scope.toolchain entry).attempts (store.resolveEntry scope entry)
          rest := by
  rw [attempts, declareOne_eq_ok clear]

theorem declareEach_append (store : Store) (scope : Scope) (first second : List (String × Value)) :
    store.declareEach scope (first ++ second) =
      match (store.declareEach scope first).error with
      | some _ => store.declareEach scope first
      | none =>
        (store.declareEach scope first).store.declareEach (store.declareEach scope first).scope
          second := by
  induction first generalizing store scope with
  | nil => rfl
  | cons entry rest ih =>
    rw [List.cons_append]
    cases conflict : store.conflict? scope.toolchain entry.1 entry.2 with
    | some error => simp only [declareEach_refused conflict]
    | none =>
      simp only [declareEach_accepted conflict]
      exact ih _ _

theorem attempts_append (store : Store) (scope : Scope) (first second : List (String × Value)) :
    store.attempts scope (first ++ second) =
      match (store.declareEach scope first).error with
      | some _ => store.attempts scope first
      | none =>
        store.attempts scope first ++
          (store.declareEach scope first).store.attempts (store.declareEach scope first).scope
            second := by
  induction first generalizing store scope with
  | nil => rfl
  | cons entry rest ih =>
    rw [List.cons_append]
    cases conflict : store.conflict? scope.toolchain entry.1 entry.2 with
    | some error => simp only [attempts_refused conflict, declareEach_refused conflict]
    | none =>
      simp only [attempts_accepted conflict, declareEach_accepted conflict, ih]
      split <;> rfl

@[simp] theorem toolchain_declareEach (store : Store) (scope : Scope)
    (entries : List (String × Value)) :
    (store.declareEach scope entries).scope.toolchain = scope.toolchain := by
  induction entries generalizing store scope with
  | nil => rfl
  | cons entry rest ih =>
    cases conflict : store.conflict? scope.toolchain entry.1 entry.2 with
    | some error => rw [declareEach_refused conflict]
    | none => rw [declareEach_accepted conflict, ih, toolchain_resolveEntry]

theorem declareEach_store (store : Store) (scope : Scope) (entries : List (String × Value)) :
    (store.declareEach scope entries).store =
      { store with declared := (store.declareEach scope entries).store.declared } := by
  induction entries generalizing store scope with
  | nil => rfl
  | cons entry rest ih =>
    cases conflict : store.conflict? scope.toolchain entry.1 entry.2 with
    | some error => rw [declareEach_refused conflict]
    | none =>
      rw [declareEach_accepted conflict, ih]
      rfl

@[simp] theorem resolve_declareEach (store : Store) (scope : Scope)
    (entries : List (String × Value))
    (toolchain : Toolchain) (name : String) (value : Value) :
    (store.declareEach scope entries).store.resolve toolchain name value =
      store.resolve toolchain name value := by
  rw [declareEach_store]
  rfl

theorem conflict?_congr {left right : Store} (same : left.declared = right.declared)
    (toolchain : Toolchain) (name : String) (incoming : Value) :
    left.conflict? toolchain name incoming = right.conflict? toolchain name incoming := by
  simp only [conflict?, recordings, declaredIn, same]

theorem declared_declareEach_congr {left right : Store} (same : left.declared = right.declared)
    {leftScope rightScope : Scope} (context : leftScope.toolchain = rightScope.toolchain)
    (entries : List (String × Value)) :
    (left.declareEach leftScope entries).store.declared =
      (right.declareEach rightScope entries).store.declared := by
  induction entries generalizing left right leftScope rightScope with
  | nil => exact same
  | cons entry rest ih =>
    have agree := conflict?_congr same leftScope.toolchain entry.1 entry.2
    rw [context] at agree
    cases conflict : right.conflict? rightScope.toolchain entry.1 entry.2 with
    | some error =>
      have other := context ▸ agree.trans conflict
      rw [declareEach_refused conflict, declareEach_refused other]
      exact same
    | none =>
      have other := context ▸ agree.trans conflict
      rw [declareEach_accepted conflict, declareEach_accepted other]
      apply ih
      · simp only [recordEntry, declaredIn, same, context]
      · simp [context]

/-- What is kept by each attempt of a batch, accepted or refused, is kept by the batch. -/
theorem declareEach_scope_induction {motive : List Attempt → Store → Scope → Prop}
    {entries : List (String × Value)}
    (accept : ∀ history store scope, ∀ entry ∈ entries, motive history store scope →
      store.conflict? scope.toolchain entry.1 entry.2 = none →
        motive (history ++ [⟨scope.toolchain, entry.1, entry.2, none⟩])
          (store.recordEntry scope.toolchain entry) (store.resolveEntry scope entry))
    (refuse : ∀ history store scope error, ∀ entry ∈ entries, motive history store scope →
      store.conflict? scope.toolchain entry.1 entry.2 = some error →
        motive (history ++ [⟨scope.toolchain, entry.1, entry.2, some error⟩]) store scope)
    (history : List Attempt) {store : Store} {scope : Scope} (holds : motive history store scope) :
    motive (history ++ store.attempts scope entries) (store.declareEach scope entries).store
      (store.declareEach scope entries).scope := by
  induction entries generalizing history store scope with
  | nil => simpa [attempts, declareEach] using holds
  | cons entry rest ih =>
    cases conflict : store.conflict? scope.toolchain entry.1 entry.2 with
    | some error =>
      rw [attempts_refused conflict, declareEach_refused conflict]
      exact refuse history store scope error entry List.mem_cons_self holds conflict
    | none =>
      have next := accept history store scope entry List.mem_cons_self holds conflict
      rw [attempts_accepted conflict, declareEach_accepted conflict, List.append_cons]
      exact ih
        (fun history store scope entry member => accept history store scope entry (.tail _ member))
        (fun history store scope error entry member =>
          refuse history store scope error entry (.tail _ member)) _ next

theorem declareEach_induction {motive : List Attempt → Store → Prop} {toolchain : Toolchain}
    {entries : List (String × Value)}
    (accept : ∀ history store, ∀ entry ∈ entries, motive history store →
      store.conflict? toolchain entry.1 entry.2 = none →
        motive (history ++ [⟨toolchain, entry.1, entry.2, none⟩]) (store.recordEntry toolchain entry))
    (refuse : ∀ history store error, ∀ entry ∈ entries, motive history store →
      store.conflict? toolchain entry.1 entry.2 = some error →
        motive (history ++ [⟨toolchain, entry.1, entry.2, some error⟩]) store)
    (history : List Attempt) {store : Store} {scope : Scope} (context : scope.toolchain = toolchain)
    (holds : motive history store) :
    motive (history ++ store.attempts scope entries) (store.declareEach scope entries).store := by
  suffices both : (store.declareEach scope entries).scope.toolchain = toolchain ∧
      motive (history ++ store.attempts scope entries) (store.declareEach scope entries).store from
    both.2
  refine declareEach_scope_induction
    (motive := fun history store scope => scope.toolchain = toolchain ∧ motive history store)
    ?_ ?_ history ⟨context, holds⟩
  · rintro history store scope entry member ⟨rfl, held⟩ clear
    exact ⟨by simp, accept history store entry member held clear⟩
  · rintro history store scope error entry member ⟨rfl, held⟩ refused
    exact ⟨rfl, refuse history store error entry member held refused⟩

theorem declared_declareEach_ne {store : Store} {scope : Scope} {entries : List (String × Value)}
    {other : Toolchain} (apart : other ≠ scope.toolchain) :
    (store.declareEach scope entries).store.declared.get? other = store.declared.get? other := by
  refine declareEach_induction (motive := fun _ later =>
    later.declared.get? other = store.declared.get? other) ?_ ?_ [] rfl rfl
  · intro _ later entry _ held _
    rw [recordEntry, SortedMap.get?_insert_ne _ _ apart]
    exact held
  · intro _ _ _ _ _ held _
    exact held

theorem exists_of_attempts_eq {store : Store} {scope : Scope} {entries : List (String × Value)}
    {earlier later : List Attempt} {attempt : Attempt}
    (split : store.attempts scope entries = earlier ++ attempt :: later) :
    ∃ before after, entries = before ++ (attempt.name, attempt.value) :: after ∧
      store.attempts scope before = earlier ∧ attempt.toolchain = scope.toolchain ∧
      attempt.error = (store.declareEach scope before).store.conflict? scope.toolchain
        attempt.name attempt.value ∧
      ∀ error, attempt.error = some error →
        (store.declareEach scope entries).error = some error := by
  induction entries generalizing store scope earlier with
  | nil => simp [attempts] at split
  | cons entry rest ih =>
    cases conflict : store.conflict? scope.toolchain entry.1 entry.2 with
    | some error =>
      rw [attempts_refused conflict] at split
      cases earlier with
      | nil =>
        obtain ⟨rfl, rfl⟩ := List.cons.inj split
        exact ⟨[], rest, rfl, rfl, rfl, conflict.symm, by simp [declareEach_refused conflict]⟩
      | cons first earlier => simp at split
    | none =>
      rw [attempts_accepted conflict] at split
      cases earlier with
      | nil =>
        obtain ⟨rfl, rfl⟩ := List.cons.inj split
        exact ⟨[], rest, rfl, rfl, rfl, conflict.symm, by simp⟩
      | cons first earlier =>
        obtain ⟨rfl, left⟩ := List.cons.inj split
        obtain ⟨before, after, rfl, rfl, context, met, ends⟩ := ih left
        refine ⟨entry :: before, after, rfl, ?_, ?_, ?_, ?_⟩
        · rw [attempts_accepted conflict]
        · simpa using context
        · simpa [declareEach_accepted conflict] using met
        · simpa [declareEach_accepted conflict] using ends

theorem mem_of_mem_attempts {store : Store} {scope : Scope} {entries : List (String × Value)}
    {attempt : Attempt} (member : attempt ∈ store.attempts scope entries) :
    (attempt.name, attempt.value) ∈ entries := by
  obtain ⟨earlier, later, split⟩ := List.append_of_mem member
  obtain ⟨before, after, rfl, _⟩ := exists_of_attempts_eq split
  simp

end Store
end BuildArgs
