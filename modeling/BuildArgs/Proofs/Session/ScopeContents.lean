import BuildArgs.Proofs.Session.Audit
import BuildArgs.Proofs.Store.Preparation

/-! What a scope holds if nothing but the operations of a run writes to it. Values for names that
its context has not declared are held back, and a name that was introduced in it stays used,
whichever value it is given later. -/

namespace BuildArgs

namespace Store

variable {store : Store} {scope : Scope} {name : String}

def Covers (store : Store) (scope : Scope) : Prop :=
  ∀ name value, scope.get? name = some value →
    ∃ recorded, (store.declaredIn scope.toolchain).get? name = some recorded

theorem Covers.mono (covers : store.Covers scope) {later : Store}
    (keeps : ∀ name, (∃ value, (store.declaredIn scope.toolchain).get? name = some value) →
      ∃ value, (later.declaredIn scope.toolchain).get? name = some value) :
    later.Covers scope :=
  fun name value found => keeps name (covers name value found)

theorem Covers.setup (covers : store.Covers scope) (overrides : NameMap Value) :
    (store.setup scope overrides).1.Covers (store.setup scope overrides).2 := by
  intro name value found
  rw [toolchain_setup]
  by_cases known : ((store.setup scope overrides).1.declaredIn scope.toolchain).contains name
  · exact SortedMap.contains_eq_true_iff.mp known
  · rw [declaredIn_setup, if_pos rfl] at known
    simp only [Store.setup, get?_applyDeclared, if_neg known, get?_seedScope] at found
    rcases Option.or_eq_some_iff.mp found with system | ⟨_, old⟩
    · obtain ⟨default, seeded, _⟩ := Option.map_eq_some_iff.mp system
      have named := Host.get?_systemDefaults_isSome_iff.mp (Option.isSome_of_eq_some seeded)
      exact exists_recorded_setup.mpr (Or.inr ⟨rfl, named⟩)
    · exact exists_recorded_setup.mpr (Or.inl (covers name value old))

theorem Covers.declareEach (covers : store.Covers scope) (entries : List (String × Value)) :
    (store.declareEach scope entries).store.Covers (store.declareEach scope entries).scope := by
  refine declareEach_scope_induction (motive := fun _ later grown => later.Covers grown)
    ?_ ?_ [] covers
  · intro _ later grown entry _ held _ name value found
    rw [get?_resolveEntry] at found
    rw [toolchain_resolveEntry, exists_recorded_recordEntry]
    split at found
    · rename_i same
      exact Or.inr ⟨rfl, same.symm⟩
    · exact Or.inl (held name value found)
  · intro _ _ _ _ _ _ held _
    exact held

theorem isUsed_declareEach {entries : List (String × Value)} :
    (store.declareEach scope entries).scope.isUsed name = true ↔
      scope.isUsed name = true ∨
        ∃ attempt ∈ store.attempts scope entries, attempt.error = none ∧ attempt.name = name := by
  refine declareEach_scope_induction (motive := fun history _ grown =>
    grown.isUsed name = true ↔ scope.isUsed name = true ∨
      ∃ attempt ∈ history, attempt.error = none ∧ attempt.name = name) ?_ ?_ [] (by simp)
  · intro history _ grown entry _ held _
    rw [isUsed_resolveEntry, Bool.or_eq_true, decide_eq_true_eq, held, or_comm]
    simp [or_and_right, exists_or, or_assoc, eq_comm (a := name)]
  · intro history _ _ error entry _ held _
    rw [held]
    simp [or_and_right, exists_or]

end Store

namespace Session

/-- Whether an operation introduces a name in a scope: as a system argument, or by a declaration
that is accepted. -/
def Introduces (session : Session) (handle : Handle) (name : String) : Operation → Prop
  | .setup other _ => other = handle ∧ name ∈ Host.systemNames
  | .declare other arguments => other = handle ∧
      ∃ attempt ∈ session.tries (.declare other arguments),
        attempt.error = none ∧ attempt.name = name
  | _ => False

variable {session : Session} {handle : Handle} {name : String}

theorem covers_step (covers : session.store.Covers (session.scope handle))
    (operation : Operation) :
    (session.step operation).store.Covers ((session.step operation).scope handle) := by
  cases operation with
  | setup other overrides =>
    rw [scope_step_setup]
    split
    · rename_i same
      subst same
      exact covers.setup overrides
    · exact covers.mono fun _ recorded => Store.exists_recorded_setup.mpr (Or.inl recorded)
  | declare other arguments =>
    rw [scope_step_declare]
    split
    · rename_i same
      subst same
      exact covers.declareEach arguments.entries
    · exact covers.mono fun _ recorded => Store.exists_recorded_declareEach.mpr (Or.inl recorded)
  | _ => exact covers

theorem covers_run (covers : session.store.Covers (session.scope handle))
    (operations : List Operation) :
    (session.run operations).store.Covers ((session.run operations).scope handle) := by
  induction operations generalizing session with
  | nil => exact covers
  | cons operation rest ih => exact ih (covers_step covers operation)

theorem isUsed_step (operation : Operation) :
    ((session.step operation).scope handle).isUsed name = true ↔
      (session.scope handle).isUsed name = true ∨ session.Introduces handle name operation := by
  cases operation with
  | setup other overrides =>
    rw [scope_step_setup]
    split
    · rename_i same
      subst same
      simp [Store.isUsed_setup, Introduces]
    · rename_i apart
      simp [Introduces, Ne.symm apart]
  | declare other arguments =>
    rw [scope_step_declare]
    split
    · rename_i same
      subst same
      simp [Store.declare, Store.isUsed_declareEach, Introduces, tries]
    · rename_i apart
      simp [Introduces, Ne.symm apart]
  | _ => exact ⟨Or.inl, fun used => used.elim id False.elim⟩

theorem isUsed_run (operations : List Operation) :
    ((session.run operations).scope handle).isUsed name = true ↔
      (session.scope handle).isUsed name = true ∨
        ∃ before operation after, operations = before ++ operation :: after ∧
          (session.run before).Introduces handle name operation := by
  induction operations generalizing session with
  | nil => simp [run]
  | cons first rest ih =>
    have later : session.run (first :: rest) = (session.step first).run rest := rfl
    rw [later, ih, isUsed_step, or_assoc]
    refine or_congr_right ⟨?_, ?_⟩
    · rintro (here | ⟨before, operation, after, rfl, there⟩)
      · exact ⟨[], first, rest, rfl, here⟩
      · exact ⟨first :: before, operation, after, rfl, there⟩
    · rintro ⟨before, operation, after, split, there⟩
      cases before with
      | nil =>
        cases split
        exact Or.inl there
      | cons _ before =>
        cases split
        exact Or.inr ⟨before, operation, after, rfl, there⟩

/-- At any time in a run, a scope that was empty at first holds no name but such as are declared in
its context, and in it the names count as used that some earlier operation on it has introduced,
no more and no fewer. -/
theorem scope_contents {host : Host} {slots : Handle → NameMap Slot} {handle : Handle}
    (fresh : slots handle = ∅) (operations : List Operation) :
    let final := (start host slots).run operations
    final.store.Covers (final.scope handle) ∧
    ∀ name, (final.scope handle).isUsed name = true ↔
      ∃ before operation after, operations = before ++ operation :: after ∧
        ((start host slots).run before).Introduces handle name operation := by
  intro final
  have empty : (start host slots).scope handle = .new handle.toolchain :=
    congrArg (Scope.mk handle.toolchain) fresh
  constructor
  · apply covers_run
    intro name value found
    rw [empty] at found
    cases found
  · intro name
    rw [isUsed_run, empty, or_iff_right]
    exact Bool.false_ne_true

/-- Another scope of the context declares an argument that has a value from outside. In this scope
it is refused, and the preparation that follows sets it, but does not count it as used. -/
def heldBackRun : List Operation :=
  [.addOverrides (.ofList [("x", .integer none 1), ("y", .integer none 2)]),
    .setup ⟨⟨"a", false⟩, 0⟩ ∅, .setup ⟨⟨"a", false⟩, 1⟩ ∅,
    .declare ⟨⟨"a", false⟩, 1⟩ (.ofList [("x", Store.placedAt 1)]),
    .declare ⟨⟨"a", false⟩, 0⟩ (.ofList [("k", Store.placedAt 2), ("x", Store.placedAt 3)]),
    .setup ⟨⟨"a", false⟩, 0⟩ ∅]

theorem scope_contents_heldBack :
    let slots : Handle → NameMap Slot := fun _ => ∅
    let handle : Handle := ⟨⟨"a", false⟩, 0⟩
    let final := (start ⟨"linux", "x64"⟩ slots).run heldBackRun
    let introduced := fun name => ∃ before operation after,
      heldBackRun = before ++ operation :: after ∧
        ((start ⟨"linux", "x64"⟩ slots).run before).Introduces handle name operation
    slots handle = ∅ ∧ final.store.Covers (final.scope handle) ∧
    (final.scope handle).values.keys =
      ["current_cpu", "current_os", "host_cpu", "host_os", "k", "target_cpu", "target_os", "x"] ∧
    introduced "host_os" ∧ introduced "k" ∧ ¬ introduced "x" := by
  intro slots handle final introduced
  have fresh : slots handle = ∅ := rfl
  obtain ⟨covers, used⟩ := @scope_contents ⟨"linux", "x64"⟩ slots handle fresh heldBackRun
  refine ⟨fresh, covers, by decide +kernel, (used _).mp ?_, (used _).mp ?_, fun early => ?_⟩
  · decide +kernel
  · decide +kernel
  · have wrong := (used "x").mpr early
    revert wrong
    decide +kernel

end Session
end BuildArgs
