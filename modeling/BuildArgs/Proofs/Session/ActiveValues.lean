import Mathlib
import BuildArgs.Proofs.Session.ScopeContents
import BuildArgs.Proofs.Store.BatchNames
import BuildArgs.Value.Order

/-! The values from outside over whole runs. Explicit values and project defaults go into one map,
in which the last one given of a name counts. So explicit values come first as long as no other
project default is given after them. -/

namespace BuildArgs

namespace Operation

def explicit : Operation → List (String × Value)
  | .addOverride name value => [(name, value)]
  | .addOverrides values => values.entries
  | _ => []

def projectDefaults : Operation → List (String × Value)
  | .addDefaults values => values.entries
  | _ => []

def given (operation : Operation) : List (String × Value) :=
  operation.explicit ++ operation.projectDefaults

end Operation

section Ranking

variable {alike : Value → Value → Prop} {operations : List Operation} {name : String}
  {value : Value}

/-- The value that is to count of a name: the last explicit one, else the last project default. -/
def ranked (operations : List Operation) (name : String) : Option Value :=
  (lastGiven Operation.explicit operations name).or
    (lastGiven Operation.projectDefaults operations name)

/-- Whether a project default is given for a name after its last explicit value, and the last such
default is not like that value. -/
def Displaced (alike : Value → Value → Prop) (operations : List Operation) (name : String) : Prop :=
  ∃ before after value default, operations = before ++ after ∧
    lastGiven Operation.explicit before name = some value ∧
    lastGiven Operation.explicit after name = none ∧
    lastGiven Operation.projectDefaults after name = some default ∧ ¬ alike default value

theorem lastGiven_given_single (operation : Operation) (name : String) :
    lastGiven Operation.given [operation] name = ranked [operation] name := by
  cases operation <;> simp [ranked, lastGiven, Operation.given, Operation.explicit,
    Operation.projectDefaults]

theorem lastGiven_given_of_unexplicit
    (unexplicit : lastGiven Operation.explicit operations name = none) :
    lastGiven Operation.given operations name =
      lastGiven Operation.projectDefaults operations name := by
  induction operations using List.reverseRecOn with
  | nil => rfl
  | append_singleton done operation ih =>
    rw [lastGiven_append, Option.or_eq_none_iff] at unexplicit
    rw [lastGiven_append, lastGiven_append, ih unexplicit.2, lastGiven_given_single, ranked,
      unexplicit.1, Option.none_or]

theorem exists_cut (found : lastGiven Operation.explicit operations name = some value) :
    ∃ before after, operations = before ++ after ∧
      lastGiven Operation.explicit before name = some value ∧
      lastGiven Operation.given before name = some value ∧
      lastGiven Operation.explicit after name = none := by
  induction operations using List.reverseRecOn with
  | nil => cases found
  | append_singleton done operation ih =>
    have whole := found
    rw [lastGiven_append] at found
    rcases Option.or_eq_some_iff.mp found with here | ⟨absent, earlier⟩
    · refine ⟨done ++ [operation], [], (List.append_nil _).symm, whole, ?_, rfl⟩
      rw [lastGiven_append, lastGiven_given_single, ranked, here]
      rfl
    · obtain ⟨before, after, rfl, explicit, given, rest⟩ := ih earlier
      refine ⟨before, after ++ [operation], List.append_assoc _ _ _, explicit, given, ?_⟩
      rw [lastGiven_append, absent, rest]
      rfl

theorem rel_ranked_iff (alike : Value → Value → Prop) (refl : ∀ value, alike value value)
    (operations : List Operation) (name : String) :
    Option.Rel alike (lastGiven Operation.given operations name) (ranked operations name) ↔
      ¬ Displaced alike operations name := by
  constructor
  · rintro agree ⟨before, after, value, default, rfl, early, late, displacing, differ⟩
    rw [ranked, lastGiven_append, lastGiven_append, lastGiven_given_of_unexplicit late, displacing,
      late, early] at agree
    exact differ (Option.rel_some_some.mp agree)
  · intro undisplaced
    cases explicit : lastGiven Operation.explicit operations name with
    | none =>
      rw [ranked, explicit, lastGiven_given_of_unexplicit explicit, Option.none_or]
      cases lastGiven Operation.projectDefaults operations name with
      | none => exact .none
      | some default => exact .some (refl default)
    | some value =>
      obtain ⟨before, after, rfl, early, given, late⟩ := exists_cut explicit
      rw [ranked, explicit, lastGiven_append, given, lastGiven_given_of_unexplicit late]
      cases displacing : lastGiven Operation.projectDefaults after name with
      | none => exact .some (refl value)
      | some default =>
        refine .some (by_contra fun differ => undisplaced ?_)
        exact ⟨before, after, value, default, rfl, early, late, displacing, differ⟩

theorem rel_eq_iff {left right : Option Value} :
    Option.Rel (fun one other => one = other) left right ↔ left = right := by
  constructor
  · rintro (same | _)
    · exact congrArg some same
    · rfl
  · rintro rfl
    cases left with
    | none => exact .none
    | some value => exact .some rfl

def DefaultsFirst (operations : List Operation) : Prop :=
  operations.Pairwise fun earlier later => earlier.explicit = [] ∨ later.projectDefaults = []

theorem not_displaced (first : DefaultsFirst operations) : ¬ Displaced alike operations name := by
  rintro ⟨before, after, value, default, rfl, early, _, late, _⟩
  obtain ⟨earlier, inside, _, explicit⟩ := isSome_lastGiven_iff.mp (Option.isSome_of_eq_some early)
  obtain ⟨later, outside, _, defaults⟩ := isSome_lastGiven_iff.mp (Option.isSome_of_eq_some late)
  have apart := (List.pairwise_append.mp first).2.2 earlier inside later outside
  exact apart.elim (List.ne_nil_of_mem explicit) (List.ne_nil_of_mem defaults)

end Ranking

namespace Session

theorem active_step (session : Session) (operation : Operation) :
    (session.step operation).store.active = session.store.active.insertList operation.given := by
  cases operation with
  | addOverrides values => exact congrArg session.store.active.insertList (List.append_nil _).symm
  | declare handle arguments =>
    rw [store_step_declare]
    rfl
  | _ => rfl

theorem override?_run (host : Host) (slots : Handle → NameMap Slot) (operations : List Operation)
    (name : String) : ((start host slots).run operations).store.override? name =
      lastGiven Operation.given operations name :=
  (get?_run (fun session => session.store.active) active_step _ operations name).trans
    Option.or_none

/-- The value from outside that counts of a name is the last one given, of whatever kind. It is the
one that should come first exactly if that was not displaced by a project default, and it is what
the name comes to in a scope in which it is declared, unless the toolchain of the scope brings a
value. -/
theorem explicit_first_iff (host : Host) (slots : Handle → NameMap Slot)
    (operations : List Operation) (name : String) :
    let final := (start host slots).run operations
    let active := final.store.override? name
    active = lastGiven Operation.given operations name ∧
    (active = ranked operations name ↔
      ¬ Displaced (fun left right => left = right) operations name) ∧
    (Option.Rel (fun left right => left.same right = true) active (ranked operations name) ↔
      ¬ Displaced (fun left right => left.same right = true) operations name) ∧
    ∀ handle arguments value, arguments.get? name = some value →
      final.store.brought? handle.toolchain name = none →
      final.Introduces handle name (.declare handle arguments) →
      ((final.step (.declare handle arguments)).scope handle).get? name =
        some (active.getD value) := by
  intro final active
  have last : active = lastGiven Operation.given operations name := override?_run ..
  refine ⟨last, ?_, ?_, ?_⟩
  · rw [last, ← rel_eq_iff]
    exact rel_ranked_iff _ (fun _ => rfl) operations name
  · rw [last]
    exact rel_ranked_iff _ Value.same_self operations name
  · rintro handle arguments value batched unbrought ⟨_, attempt, tried, accepted, named⟩
    obtain ⟨_, held, _⟩ := Store.takesIn_of_attempted batched tried accepted named
    have context : (final.scope handle).toolchain = handle.toolchain := rfl
    rw [scope_step_declare, if_pos rfl, held, Store.resolve_eq, context, unbrought, Option.none_or]

def defaultsFirstRun : List Operation :=
  [.addDefaults (.ofList [("x", .integer none 1), ("y", .integer none 2)]),
    .setup ⟨⟨"a", false⟩, 0⟩ (.ofList [("y", .integer none 3)]),
    .addOverrides (.ofList [("x", .integer none 4)]), .setup ⟨⟨"b", false⟩, 0⟩ ∅,
    .addOverride "x" (.integer none 5)]

theorem explicit_first_iff_defaultsFirst :
    let handle : Handle := ⟨⟨"b", false⟩, 0⟩
    let batch : NameMap Value := .ofList [("x", Store.placedAt 1), ("y", Store.placedAt 2)]
    let final := (start ⟨"linux", "x64"⟩ fun _ => ∅).run defaultsFirstRun
    DefaultsFirst defaultsFirstRun ∧
    ranked defaultsFirstRun "x" = some (.integer none 5) ∧
    final.store.override? "x" = ranked defaultsFirstRun "x" ∧
    final.store.brought? handle.toolchain "x" = none ∧
    final.Introduces handle "x" (.declare handle batch) ∧
    ((final.step (.declare handle batch)).scope handle).get? "x" = some (.integer none 5) := by
  intro handle batch final
  have first : DefaultsFirst defaultsFirstRun := by
    simp [DefaultsFirst, defaultsFirstRun, Operation.explicit, Operation.projectDefaults]
  obtain ⟨_, counts, _, declared⟩ :=
    explicit_first_iff ⟨"linux", "x64"⟩ (fun _ => ∅) defaultsFirstRun "x"
  have active := counts.mpr (not_displaced first)
  have wanted : ranked defaultsFirstRun "x" = some (.integer none 5) := by cbv
  have batched : batch.get? "x" = some (Store.placedAt 1) := by cbv
  have unbrought : final.store.brought? handle.toolchain "x" = none := by decide +kernel
  have introduces : final.Introduces handle "x" (.declare handle batch) := by
    refine ⟨rfl, ?_⟩
    decide +kernel
  have held := declared handle batch _ batched unbrought introduces
  rw [active, wanted] at held
  exact ⟨first, wanted, active, unbrought, introduces, held⟩

/-- A project default that is given after an explicit value takes its place. -/
theorem explicit_displaced_defaultAfter :
    let operations := [.addOverride "x" (.integer none 1),
      .addDefaults (.ofList [("x", .integer none 2)])]
    let final := (start ⟨"linux", "x64"⟩ fun _ => ∅).run operations
    let handle : Handle := ⟨⟨"a", false⟩, 0⟩
    lastGiven Operation.explicit operations "x" = some (.integer none 1) ∧
    final.store.override? "x" = some (.integer none 2) ∧
    final.store.brought? handle.toolchain "x" = none ∧
    ((final.step (.declare handle (.ofList [("x", Store.placedAt 1)]))).scope handle).get? "x" =
      some (.integer none 2) := by
  refine ⟨?_, ?_, ?_, ?_⟩ <;> cbv

end Session
end BuildArgs
