import BuildArgs.Listing
import BuildArgs.Proofs.Session.Audit
import BuildArgs.Proofs.Store.BatchOutcome

/-! The declarations of a run are kept apart from the values that are supplied in it. Two runs that
prepare the same contexts and declare the same in them get the same answers and leave the same
record behind, whatever values each of them is given on the way. -/

namespace BuildArgs

/-- What an operation has to do with declarations: the values that it supplies are left out, and so
is which scope of its context it is done on. -/
def Operation.bare? : Operation → Option Operation
  | .setup handle _ => some (.setup ⟨handle.toolchain, 0⟩ ∅)
  | .declare handle arguments => some (.declare ⟨handle.toolchain, 0⟩ arguments)
  | _ => none

/-- Whether two runs differ in nothing but supplied values and the scopes of their contexts. -/
def Alike (left right : List Operation) : Prop :=
  left.filterMap Operation.bare? = right.filterMap Operation.bare?

theorem Store.error_declare_congr {left right : Store} (same : left.declared = right.declared)
    {leftScope rightScope : Scope} (context : leftScope.toolchain = rightScope.toolchain)
    (arguments : NameMap Value) :
    (left.declare leftScope arguments).error = (right.declare rightScope arguments).error := by
  have distinct : (arguments.entries.map Prod.fst).Nodup := arguments.keys_nodup
  rw [declare, declare, error_declareEach distinct, error_declareEach distinct]
  simp only [conflict?_congr same, context]

theorem Listing.defaults_congr {left right : Store} (same : left.declared = right.declared) :
    (ofStore left).map ListedArgument.defaultValue =
      (ofStore right).map ListedArgument.defaultValue := by
  have listed : ∀ (store : Store) (name : String),
      ((ofStore store).map ListedArgument.defaultValue).get? name =
        store.firstDeclaration? name := by
    intro store name
    rw [SortedMap.get?_map, get?_ofStore, Option.map_map]
    exact Option.map_id'
  apply SortedMap.ext_get?
  intro name
  rw [listed, listed, Store.firstDeclaration?, Store.firstDeclaration?, same]

namespace Session

def answers (session : Session) : List Operation → List (Option ArgError)
  | [] => []
  | .declare handle arguments :: rest =>
    session.error? (.declare handle arguments) ::
      (session.step (.declare handle arguments)).answers rest
  | operation :: rest => (session.step operation).answers rest

structure SameRecord (left right : Session) : Prop where
  declared : left.store.declared = right.store.declared
  toolchains : left.store.toolchains = right.store.toolchains
  listed : (Listing.ofStore left.store).map ListedArgument.defaultValue =
    (Listing.ofStore right.store).map ListedArgument.defaultValue

namespace SameDeclarations

variable {left right : Session} {operation bare : Operation}

theorem symm (same : SameDeclarations left right) : SameDeclarations right left :=
  ⟨same.host.symm, same.declared.symm⟩

theorem trans {other : Session} (first : SameDeclarations left right)
    (second : SameDeclarations right other) : SameDeclarations left other :=
  ⟨first.host.trans second.host, first.declared.trans second.declared⟩

theorem sameRecord (same : SameDeclarations left right) : SameRecord left right where
  declared := same.declared
  toolchains := congrArg SortedMap.keys same.declared
  listed := Listing.defaults_congr same.declared

theorem step_silent (same : SameDeclarations left right) (silent : operation.bare? = none) :
    SameDeclarations (left.step operation) right := by
  cases operation with
  | setup handle overrides => cases silent
  | declare handle arguments => cases silent
  | _ => exact ⟨same.host, same.declared⟩

theorem step_bare (same : SameDeclarations left right) (shown : operation.bare? = some bare) :
    SameDeclarations (left.step operation) (right.step bare) := by
  refine ⟨by rw [host_step, host_step, same.host], ?_⟩
  cases operation with
  | setup handle overrides =>
    cases shown
    have context : (left.scope handle).toolchain =
        (right.scope ⟨handle.toolchain, 0⟩).toolchain := rfl
    exact Store.declared_setup_congr same.host same.declared context overrides ∅
  | declare handle arguments =>
    cases shown
    have context : (left.scope handle).toolchain =
        (right.scope ⟨handle.toolchain, 0⟩).toolchain := rfl
    exact Store.declared_declareEach_congr same.declared context arguments.entries
  | _ => cases shown

theorem run_bare (same : SameDeclarations left right) (operations : List Operation) :
    left.answers operations = right.answers (operations.filterMap Operation.bare?) ∧
      SameDeclarations (left.run operations)
        (right.run (operations.filterMap Operation.bare?)) := by
  induction operations generalizing left right with
  | nil => exact ⟨rfl, same⟩
  | cons operation rest ih =>
    cases operation with
    | setup handle overrides =>
      have next : SameDeclarations (left.step (.setup handle overrides))
          (right.step (.setup ⟨handle.toolchain, 0⟩ ∅)) := same.step_bare rfl
      exact ih next
    | declare handle arguments =>
      have context : (left.scope handle).toolchain =
          (right.scope ⟨handle.toolchain, 0⟩).toolchain := rfl
      have answer := Store.error_declare_congr same.declared context arguments
      have next : SameDeclarations (left.step (.declare handle arguments))
          (right.step (.declare ⟨handle.toolchain, 0⟩ arguments)) := same.step_bare rfl
      exact ⟨congrArg₂ List.cons answer (ih next).1, (ih next).2⟩
    | _ => exact ih (same.step_silent rfl)

theorem run_alike (same : SameDeclarations left right) {one other : List Operation}
    (alike : Alike one other) :
    left.answers one = right.answers other ∧
      SameDeclarations (left.run one) (right.run other) := by
  -- both runs are compared with the one that is supplied with nothing
  have self : SameDeclarations right right := ⟨rfl, rfl⟩
  obtain ⟨leftAnswers, leftFinal⟩ := same.run_bare one
  obtain ⟨rightAnswers, rightFinal⟩ := self.run_bare other
  rw [← alike] at rightAnswers rightFinal
  exact ⟨leftAnswers.trans rightAnswers.symm, leftFinal.trans rightFinal.symm⟩

end SameDeclarations

/-- Every declaration has the same result in two runs that are alike. At any time in the one there
is a time in the other up to which they are alike, and then what they tell of their declarations
is the same. -/
theorem declarations_ignore_values (host : Host) (leftSlots rightSlots : Handle → NameMap Slot)
    {left right : List Operation} (alike : Alike left right) :
    (start host leftSlots).answers left = (start host rightSlots).answers right ∧
    ∀ leftDone, leftDone <+: left →
      (∃ rightDone, rightDone <+: right ∧ Alike leftDone rightDone) ∧
      ∀ rightDone, rightDone <+: right → Alike leftDone rightDone →
        SameRecord ((start host leftSlots).run leftDone) ((start host rightSlots).run rightDone) := by
  have same : SameDeclarations (start host leftSlots) (start host rightSlots) := ⟨rfl, rfl⟩
  refine ⟨(same.run_alike alike).1, fun leftDone reached => ⟨?_, ?_⟩⟩
  · have part : leftDone.filterMap Operation.bare? <+: right.filterMap Operation.bare? :=
      alike ▸ reached.filterMap Operation.bare?
    obtain ⟨rightDone, inside, shown⟩ := List.prefix_filterMap_iff.mp part
    exact ⟨rightDone, inside, shown⟩
  · intro rightDone _ partly
    exact (same.run_alike partly).2.sameRecord

def plainRun : List Operation :=
  [.setup ⟨⟨"a", false⟩, 0⟩ ∅, .declare ⟨⟨"a", false⟩, 0⟩ (.ofList [("x", Store.placedAt 1)]),
    .setup ⟨⟨"b", false⟩, 0⟩ ∅, .declare ⟨⟨"b", false⟩, 0⟩ (.ofList [("x", Store.placedAt 2)])]

def suppliedRun : List Operation :=
  [.addOverride "x" (.integer none 7),
    .setup ⟨⟨"a", false⟩, 3⟩ (.ofList [("host_os", .none none), ("x", .integer none 9)]),
    .addDefaults (.ofList [("x", .integer none 8)]),
    .declare ⟨⟨"a", false⟩, 3⟩ (.ofList [("x", Store.placedAt 1)]),
    .setup ⟨⟨"b", false⟩, 0⟩ (.ofList [("x", .integer none 5)]),
    .addOverrides (.ofList [("x", .integer none 6)]),
    .declare ⟨⟨"b", false⟩, 0⟩ (.ofList [("x", Store.placedAt 2)])]

theorem declarations_ignore_values_supplied :
    let session := start ⟨"linux", "x64"⟩ fun _ => ∅
    Alike plainRun suppliedRun ∧
    session.answers suppliedRun =
      [none, some (.duplicateDeclaration "x" (some ⟨"f", some 2⟩) (some ⟨"f", some 1⟩))] ∧
    SameRecord (session.run plainRun) (session.run suppliedRun) ∧
    (((session.run plainRun).scope ⟨⟨"a", false⟩, 0⟩).get? "x").bind Value.integer? = some 0 ∧
    (((session.run suppliedRun).scope ⟨⟨"a", false⟩, 3⟩).get? "x").bind Value.integer? = some 9 := by
  intro session
  have alike : Alike plainRun suppliedRun := rfl
  have refused : session.answers plainRun =
      [none, some (.duplicateDeclaration "x" (some ⟨"f", some 2⟩) (some ⟨"f", some 1⟩))] := by
    decide +kernel
  obtain ⟨answers, records⟩ :=
    declarations_ignore_values ⟨"linux", "x64"⟩ (fun _ => ∅) (fun _ => ∅) alike
  refine ⟨alike, answers.symm.trans refused, ?_, ?_, ?_⟩
  · exact (records plainRun List.prefix_rfl).2 suppliedRun List.prefix_rfl alike
  · decide +kernel
  · decide +kernel

end Session
end BuildArgs
