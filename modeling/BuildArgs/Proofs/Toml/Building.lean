import BuildArgs.Toml.Document

/-! How statements build the top level of a text. Every statement works at one key of it and leaves the
entries with other keys alone, so it makes no difference to a run of statements that a value stands
under a key that none of them works at. -/

namespace BuildArgs.Toml

theorem holds_of_foldlM {σ α : Type} {step : σ → α → Option σ} (holds : σ → Prop)
    (kept : ∀ state item next, holds state → step state item = some next → holds next)
    {items : List α} {start final : σ} (first : holds start)
    (ran : items.foldlM step start = some final) : holds final := by
  induction items generalizing start with
  | nil => exact Option.some.inj ran ▸ first
  | cons item items ih =>
    rw [List.foldlM_cons] at ran
    obtain ⟨next, stepped, ran⟩ := Option.bind_eq_some_iff.mp ran
    exact ih (kept _ _ _ first stepped) ran

namespace Draft

abbrev Entries := List (String × Draft)

variable {key other : String} {entries after : Entries}

@[simp] theorem lookup_put_self (key : String) (draft : Draft) (entries : Entries) :
    (put key draft entries).lookup key = some draft := by
  induction entries with
  | nil => simp [put]
  | cons entry entries ih =>
    obtain ⟨first, old⟩ := entry
    simp only [put]
    split
    · simp
    · rename_i apart
      rw [List.lookup_cons, beq_false_of_ne (Ne.symm apart)]
      exact ih

theorem lookup_cons_of_ne (apart : other ≠ key) (draft : Draft) (entries : Entries) :
    List.lookup other ((key, draft) :: entries) = entries.lookup other := by
  rw [List.lookup_cons, beq_false_of_ne apart]

theorem lookup_put_of_ne (apart : other ≠ key) (draft : Draft) (entries : Entries) :
    (put key draft entries).lookup other = entries.lookup other := by
  induction entries with
  | nil => exact lookup_cons_of_ne apart _ _
  | cons entry entries ih =>
    obtain ⟨first, old⟩ := entry
    simp only [put]
    split
    · rename_i same
      rw [lookup_cons_of_ne apart, lookup_cons_of_ne (same ▸ apart)]
    · rw [List.lookup_cons, List.lookup_cons, ih]

theorem lookup_filter_of_ne (apart : other ≠ key) (entries : Entries) :
    (entries.filter fun entry => entry.1 != key).lookup other = entries.lookup other := by
  induction entries with
  | nil => rfl
  | cons entry entries ih =>
    obtain ⟨first, old⟩ := entry
    by_cases same : first = key
    · simp [same, ih, lookup_cons_of_ne apart]
    · simp [same, List.lookup_cons, ih]

theorem entriesToNodes_eq_map (entries : Entries) :
    entriesToNodes entries = entries.map fun entry => (entry.1, entry.2.toNode) := by
  induction entries with
  | nil => rfl
  | cons entry entries ih => simp [entriesToNodes, ih]

def withEntry (entry : String × Draft) : Draft → Draft
  | .table standing entries => .table standing (entry :: entries)
  | draft => draft

/-- What a change of a table does if it works at one key of it. -/
structure WorksAt (key : String) (change : Change) : Prop where
  frame : ∀ {other : String} (draft standing entries), other ≠ key →
    change standing ((other, draft) :: entries) =
      (change standing entries).map (withEntry (other, draft))
  refused : ∀ node standing entries, change standing ((key, .value node) :: entries) = none
  result : ∀ {standing entries draft}, change standing entries = some draft →
    ∃ after, draft = .table standing after ∧ (after.lookup key).isSome ∧
      ∀ {other}, other ≠ key → after.lookup other = entries.lookup other

theorem worksAt_never (key : String) : WorksAt key fun _ _ => none where
  frame _ _ _ _ := rfl
  refused _ _ _ := rfl
  result found := nomatch found

theorem result_put (key : String) (draft : Draft) (standing : Standing) (entries : Entries) :
    ∃ after, Draft.table standing (put key draft entries) = .table standing after ∧
      (after.lookup key).isSome ∧
      ∀ {other}, other ≠ key → after.lookup other = entries.lookup other :=
  ⟨_, rfl, by simp, fun apart => lookup_put_of_ne apart _ _⟩

theorem worksAt_setValue (key : String) (node : Node) : WorksAt key (setValue key node) where
  frame draft standing entries apart := by
    simp only [setValue, lookup_cons_of_ne (Ne.symm apart)]
    split <;> simp [put, apart, withEntry]
  refused node standing entries := by simp [setValue]
  result found := by
    unfold setValue at found
    split at found
    · cases found
      exact result_put _ _ _ _
    · cases found

theorem worksAt_addElement (key : String) : WorksAt key (addElement key) where
  frame draft standing entries apart := by
    simp only [addElement, lookup_cons_of_ne (Ne.symm apart)]
    split <;> simp [put, apart, withEntry]
  refused node standing entries := by simp [addElement]
  result found := by
    unfold addElement at found
    split at found
    · cases found
      exact result_put _ _ _ _
    · cases found
      exact result_put _ _ _ _
    · cases found

theorem worksAt_openTable (key : String) : WorksAt key (openTable key) where
  frame draft standing entries apart := by
    simp only [openTable, lookup_cons_of_ne (Ne.symm apart)]
    split <;> simp [put, apart, withEntry]
  refused node standing entries := by simp [openTable]
  result found := by
    unfold openTable at found
    split at found
    · cases found
      exact result_put _ _ _ _
    · cases found
      refine ⟨_, rfl, by simp [List.lookup_append], fun apart => ?_⟩
      simp [List.lookup_append, lookup_filter_of_ne apart, lookup_cons_of_ne apart]
    · cases found

theorem worksAt_changeAt (route : Route) (change : Change) (key : String) (path : List String) :
    WorksAt key fun standing entries =>
      changeAt route change (key :: path) (.table standing entries) where
  frame draft standing entries apart := by
    simp only [changeAt, lookup_cons_of_ne (Ne.symm apart), Option.map_map]
    congr 1
    funext changed
    simp [put, apart, withEntry]
  refused node standing entries := by simp [changeAt]
  result found := by
    obtain ⟨draft, _, rfl⟩ := Option.map_eq_some_iff.mp found
    exact result_put _ _ _ _

theorem exists_worksAt_changeAt {change : Change} (works : ∃ key, WorksAt key change)
    (route : Route) (path : List String) :
    ∃ key, WorksAt key fun standing entries =>
      changeAt route change path (.table standing entries) := by
  cases path with
  | nil => simpa only [changeAt] using works
  | cons key path => exact ⟨key, worksAt_changeAt route change key path⟩

theorem exists_worksAt_assign (path : List String) (key : String) (node : Node) :
    ∃ first, WorksAt first (assign path key node) := by
  cases path with
  | nil =>
    have same : assign [] key node = setValue key node := by
      funext standing entries
      simp [assign, changeAt]
    exact ⟨key, same ▸ worksAt_setValue key node⟩
  | cons first path => exact ⟨first, worksAt_changeAt _ _ first path⟩

theorem exists_table_of_ofAssignments {assignments : List (List String × Node)} {draft : Draft}
    (found : ofAssignments assignments = some draft) :
    ∃ standing entries, draft = .table standing entries := by
  refine holds_of_foldlM (fun draft => ∃ standing entries, draft = .table standing entries) ?_
    ⟨_, _, rfl⟩ found
  rintro _ assignment next ⟨standing, entries, rfl⟩ step
  obtain ⟨key, _, changed⟩ := Option.bind_eq_some_iff.mp step
  obtain ⟨first, works⟩ := exists_worksAt_assign assignment.1.dropLast key assignment.2
  rw [changeAt] at changed
  obtain ⟨after, same, _⟩ := works.result changed
  exact ⟨standing, after, same⟩

end Draft

open Draft

namespace Progress

theorem exists_worksAt_root {change : String → Change}
    (works : ∀ last, ∃ key, WorksAt key (change last)) (last? : Option String)
    (path next : List String) :
    ∃ key act, WorksAt key act ∧ ∀ standing entries,
      (do
        let last ← last?
        let root ← changeAt .header (change last) path (.table standing entries)
        return Progress.mk root next) = (act standing entries).map (Progress.mk · next) := by
  cases last? with
  | none => exact ⟨"", _, worksAt_never "", fun _ _ => rfl⟩
  | some last =>
    obtain ⟨key, works⟩ := exists_worksAt_changeAt (works last) .header path
    refine ⟨key, _, works, fun standing entries => ?_⟩
    rw [Option.map_eq_bind]
    rfl

/-- Every statement works at one key of the top level. Which one, and the table that is open after
it, do not depend on what the top level has. -/
theorem exists_worksAt_run (statement : Statement) (current : List String) :
    ∃ key change next, WorksAt key change ∧ ∀ standing entries,
      run ⟨.table standing entries, current⟩ statement =
        (change standing entries).map (Progress.mk · next) := by
  cases statement with
  | table path =>
    obtain ⟨key, change, works, same⟩ :=
      exists_worksAt_root (fun last => ⟨last, worksAt_openTable last⟩) path.getLast? path.dropLast path
    exact ⟨key, change, path, works, same⟩
  | element path =>
    obtain ⟨key, change, works, same⟩ :=
      exists_worksAt_root (fun last => ⟨last, worksAt_addElement last⟩) path.getLast? path.dropLast path
    exact ⟨key, change, path, works, same⟩
  | assignment path node =>
    obtain ⟨key, change, works, same⟩ :=
      exists_worksAt_root (fun last => exists_worksAt_assign path.dropLast last node) path.getLast?
        current current
    exact ⟨key, change, current, works, same⟩

variable {statements : List Statement} {standing : Standing} {entries : Entries}
  {current : List String}

theorem exists_between_of_foldlM_cons {statement : Statement} {final : Progress}
    (ran : (statement :: statements).foldlM run ⟨.table standing entries, current⟩ = some final) :
    ∃ key between next, (between.lookup key).isSome ∧
      (∀ {other}, other ≠ key → between.lookup other = entries.lookup other) ∧
      statements.foldlM run ⟨.table standing between, next⟩ = some final := by
  obtain ⟨key, change, next, works, runs⟩ := exists_worksAt_run statement current
  rw [List.foldlM_cons, runs] at ran
  obtain ⟨progress, first, ran⟩ := Option.bind_eq_some_iff.mp ran
  obtain ⟨draft, changed, rfl⟩ := Option.map_eq_some_iff.mp first
  obtain ⟨between, rfl, present, untouched⟩ := works.result changed
  exact ⟨key, between, next, present, untouched, ran⟩

theorem exists_after_of_foldlM {final : Progress}
    (ran : statements.foldlM run ⟨.table standing entries, current⟩ = some final) :
    ∃ after, final.root = .table standing after ∧
      ∀ key, (entries.lookup key).isSome → (after.lookup key).isSome := by
  induction statements generalizing entries current with
  | nil =>
    cases ran
    exact ⟨entries, rfl, fun _ present => present⟩
  | cons statement statements ih =>
    obtain ⟨key, between, next, present, untouched, ran⟩ := exists_between_of_foldlM_cons ran
    obtain ⟨after, root, kept⟩ := ih ran
    refine ⟨after, root, fun other given => kept other ?_⟩
    by_cases same : other = key
    · exact same ▸ present
    · exact (untouched same).symm ▸ given

theorem eq_nil_of_foldlM {final : Progress}
    (ran : statements.foldlM run ⟨.table standing entries, current⟩ = some final)
    (bare : final.root = .table standing []) : statements = [] := by
  cases statements with
  | nil => rfl
  | cons statement statements =>
    obtain ⟨key, between, next, present, _, ran⟩ := exists_between_of_foldlM_cons ran
    obtain ⟨after, root, kept⟩ := exists_after_of_foldlM ran
    cases root.symm.trans bare
    cases kept key present

/-- A finished value in front of the other entries refuses the statements that work at its key and
does not show in a run of others. -/
theorem foldlM_withEntry_iff {key : String} {node : Node} (absent : entries.lookup key = none)
    {final : Progress} :
    statements.foldlM run ⟨.table standing ((key, .value node) :: entries), current⟩ = some final ↔
      ∃ after last, statements.foldlM run ⟨.table standing entries, current⟩ =
          some ⟨.table standing after, last⟩ ∧
        after.lookup key = none ∧ final = ⟨.table standing ((key, .value node) :: after), last⟩ := by
  induction statements generalizing entries current with
  | nil =>
    simp only [List.foldlM_nil]
    constructor
    · intro ran
      cases ran
      exact ⟨entries, current, rfl, absent, rfl⟩
    · rintro ⟨after, last, same, _, rfl⟩
      cases same
      rfl
  | cons statement statements ih =>
    obtain ⟨worked, change, next, works, runs⟩ := exists_worksAt_run statement current
    simp only [List.foldlM_cons, runs, Option.bind_eq_bind]
    by_cases same : key = worked
    -- On one side the statement is refused, on the other its key stays to the end.
    · subst same
      constructor
      · rw [works.refused]
        exact nofun
      · rintro ⟨after, last, ran, missing, _⟩
        obtain ⟨progress, first, ran⟩ := Option.bind_eq_some_iff.mp ran
        obtain ⟨draft, changed, rfl⟩ := Option.map_eq_some_iff.mp first
        obtain ⟨between, rfl, present, _⟩ := works.result changed
        obtain ⟨_, root, kept⟩ := exists_after_of_foldlM ran
        cases root
        exact absurd (kept key present) (by simp [missing])
    · rw [works.frame _ _ _ same]
      cases changed : change standing entries with
      | none => simp
      | some draft =>
        obtain ⟨between, rfl, _, untouched⟩ := works.result changed
        exact ih ((untouched same).trans absent)

end Progress
end BuildArgs.Toml
