import BuildArgs.Proofs.Session.Run
import BuildArgs.Proofs.Store.Seeding

/-! The check of the supplied values over whole runs. What it finds depends on which names were
supplied and which were declared in the course of a run, and not on the order of the two. -/

namespace BuildArgs

namespace Operation

def supplied : Operation → List (String × Value)
  | .addOverride name value => [(name, value)]
  | .addOverrides values => values.entries
  | .setup _ overrides => overrides.entries
  | _ => []

def addsDefaults : Operation → Bool
  | .addDefaults _ => true
  | _ => false

end Operation

def lastSupplied (operations : List Operation) (name : String) : Option Value :=
  lastGiven Operation.supplied operations name

namespace Session

/-- Whether a run declares a name: a system argument by preparing a context, and any name by a
declaration that is accepted. -/
def Declares (session : Session) (operations : List Operation) (name : String) : Prop :=
  (name ∈ Host.systemNames ∧ ∃ handle overrides, .setup handle overrides ∈ operations) ∨
    ∃ attempt ∈ session.history operations, attempt.error = none ∧ attempt.name = name

/-- Whether a run supplies a value for a name and nothing in it declares the name. -/
def Unused (session : Session) (operations : List Operation) (name : String) : Prop :=
  (∃ operation ∈ operations, ∃ value, (name, value) ∈ operation.supplied) ∧
    ¬ session.Declares operations name

theorem supplied_step (session : Session) (operation : Operation) :
    (session.step operation).store.supplied =
      session.store.supplied.insertList operation.supplied := by
  cases operation with
  | declare handle arguments =>
    rw [store_step_declare]
    rfl
  | _ => rfl

theorem get?_supplied_run (host : Host) (slots : Handle → NameMap Slot)
    (operations : List Operation) (name : String) :
    ((start host slots).run operations).store.supplied.get? name =
      lastSupplied operations name :=
  (get?_run (fun session => session.store.supplied) supplied_step _ operations name).trans
    Option.or_none

end Session

namespace Store

variable {store : Store} {scope : Scope} {entries : List (String × Value)} {name : String}

theorem exists_recorded_declareEach {other : Toolchain} :
    (∃ value, ((store.declareEach scope entries).store.declaredIn other).get? name = some value) ↔
      (∃ value, (store.declaredIn other).get? name = some value) ∨
        other = scope.toolchain ∧
          ∃ attempt ∈ store.attempts scope entries, attempt.error = none ∧ attempt.name = name := by
  refine declareEach_induction (motive := fun history later =>
    (∃ value, (later.declaredIn other).get? name = some value) ↔
      (∃ value, (store.declaredIn other).get? name = some value) ∨
        other = scope.toolchain ∧
          ∃ attempt ∈ history, attempt.error = none ∧ attempt.name = name) ?_ ?_ [] rfl (by simp)
  · intro history later entry _ held _
    rw [exists_recorded_recordEntry, held]
    simp [or_and_right, and_or_left, exists_or, or_assoc]
  · intro history later error entry _ held _
    rw [held]
    simp [or_and_right, exists_or]

theorem isDeclared_declareEach :
    (store.declareEach scope entries).store.isDeclared name = true ↔
      store.isDeclared name = true ∨
        ∃ attempt ∈ store.attempts scope entries, attempt.error = none ∧ attempt.name = name := by
  simp only [isDeclared_eq_true_iff, exists_recorded_declareEach, exists_or, exists_eq_left]

end Store

namespace Session

theorem isDeclared_step {session : Session} {operation : Operation} {name : String} :
    (session.step operation).store.isDeclared name = true ↔
      session.store.isDeclared name = true ∨
        (name ∈ Host.systemNames ∧ ∃ handle overrides, .setup handle overrides = operation) ∨
        ∃ attempt ∈ session.tries operation, attempt.error = none ∧ attempt.name = name := by
  cases operation with
  | setup handle overrides =>
    refine Store.isDeclared_setup.trans ?_
    simp [tries]
  | declare handle arguments =>
    refine Store.isDeclared_declareEach.trans ?_
    simp [tries]
  | _ =>
    refine Iff.trans (b := session.store.isDeclared name = true) Iff.rfl ?_
    simp [tries]

theorem isDeclared_run {host : Host} {slots : Handle → NameMap Slot}
    {operations : List Operation} {name : String} :
    ((start host slots).run operations).store.isDeclared name = true ↔
      (start host slots).Declares operations name := by
  induction operations using List.reverseRecOn with
  | nil =>
    simp [run, start, Store.isDeclared_eq_true_iff, Store.new, Store.declaredIn, Declares, history]
  | append_singleton done operation ih =>
    rw [run_concat, isDeclared_step, ih]
    simp only [Declares, history_concat, List.mem_append, List.mem_singleton, or_and_right,
      exists_or, and_or_left, or_assoc, or_left_comm]

structure SameDeclarations (left right : Session) : Prop where
  host : left.store.host = right.store.host
  declared : left.store.declared = right.store.declared

theorem SameDeclarations.step {left right : Session} (same : SameDeclarations left right)
    (operation : Operation) : SameDeclarations (left.step operation) (right.step operation) := by
  refine ⟨by rw [host_step, host_step, same.host], ?_⟩
  cases operation with
  | setup handle overrides =>
    have context : (left.scope handle).toolchain = (right.scope handle).toolchain := rfl
    exact Store.declared_setup_congr same.host same.declared context overrides overrides
  | declare handle arguments =>
    have context : (left.scope handle).toolchain = (right.scope handle).toolchain := rfl
    exact Store.declared_declareEach_congr same.declared context arguments.entries
  | _ => exact same.declared

theorem SameDeclarations.run_without_defaults {left right : Session}
    (same : SameDeclarations left right) (operations : List Operation) :
    SameDeclarations (left.run (operations.filter fun operation => !operation.addsDefaults))
      (right.run operations) := by
  induction operations generalizing left right with
  | nil => exact same
  | cons operation rest ih =>
    cases operation with
    | addDefaults values => exact ih ⟨same.host, same.declared⟩
    | _ => exact ih (same.step _)

theorem lastSupplied_without_defaults (operations : List Operation) (name : String) :
    lastSupplied (operations.filter fun operation => !operation.addsDefaults) name =
      lastSupplied operations name := by
  induction operations with
  | nil => rfl
  | cons operation rest ih =>
    have whole : lastSupplied (operation :: rest) name =
        (lastSupplied rest name).or (lastSupplied [operation] name) :=
      lastGiven_append _ [operation] rest name
    rw [whole, ← ih]
    cases operation with
    | addDefaults values => exact Option.or_none.symm
    | _ => exact lastGiven_append _ [_] _ name

/-- The check finds nothing wrong exactly if every name that was supplied was declared, before or
after. Otherwise it reports the least name that was not, at the origin of the value that was
supplied last. Project defaults make no difference to it. -/
theorem verify_run (host : Host) (slots : Handle → NameMap Slot) (operations : List Operation) :
    let session := start host slots
    let final := (session.run operations).store
    (final.verify = .ok () ↔ ∀ name, ¬ session.Unused operations name) ∧
    ((∃ name, session.Unused operations name) →
      ∃ name value, session.Unused operations name ∧
        (∀ other, session.Unused operations other → name ≤ other) ∧
        lastSupplied operations name = some value ∧
        final.verify = .error
          (.unusedOverride name value.origin (Spelling.nearest name final.declaredNames))) ∧
    (session.run (operations.filter fun operation => !operation.addsDefaults)).store.verify =
      final.verify := by
  intro session final
  have supplied : ∀ name, final.supplied.get? name = lastSupplied operations name :=
    get?_supplied_run host slots operations
  have unused : ∀ name, session.Unused operations name ↔
      final.supplied.contains name = true ∧ final.isDeclared name = false := by
    intro name
    rw [Unused, ← isSome_lastGiven_iff, ← lastSupplied, ← supplied, ← isDeclared_run,
      Bool.not_eq_true]
    rfl
  refine ⟨?_, ?_, ?_⟩
  · rw [Store.verify_eq_ok_iff]
    simp only [unused, not_and, Bool.not_eq_false]
  · rintro ⟨name, missing⟩
    obtain ⟨given, undeclared⟩ := (unused name).mp missing
    obtain ⟨value, found⟩ := SortedMap.contains_eq_true_iff.mp given
    obtain ⟨least, last, leastFound, leastUndeclared, below, result⟩ :=
      Store.verify_of_undeclared found undeclared
    refine ⟨least, last, ?_, ?_, (supplied least).symm.trans leastFound, result⟩
    · exact (unused least).mpr
        ⟨SortedMap.contains_eq_true_iff.mpr ⟨last, leastFound⟩, leastUndeclared⟩
    · intro other otherUnused
      obtain ⟨otherGiven, otherUndeclared⟩ := (unused other).mp otherUnused
      exact below other otherGiven otherUndeclared
  · have same : SameDeclarations session session := ⟨rfl, rfl⟩
    apply Store.verify_congr
    · exact (same.run_without_defaults operations).declared
    · intro name
      rw [supplied, get?_supplied_run, lastSupplied_without_defaults]

end Session
end BuildArgs
