import Mathlib
import BuildArgs.Proofs.Session.Run
import BuildArgs.Proofs.Store.Seeding

/-! What becomes of a recorded declaration in the course of a run. No operation changes it but one:
preparing its context again puts the system arguments back to what they were. -/

namespace BuildArgs

def Operation.Seeds (toolchain : Toolchain) : Operation → Prop
  | .setup handle _ => handle.toolchain = toolchain
  | _ => False

namespace Store

variable {store : Store} {toolchain : Toolchain} {name : String} {value : Value}

theorem recorded_setup_iff (recorded : (store.declaredIn toolchain).get? name = some value)
    (placed : value.origin ≠ none) (scope : Scope) (overrides : NameMap Value) :
    ((store.setup scope overrides).1.declaredIn toolchain).get? name = some value ↔
      ¬ (scope.toolchain = toolchain ∧ name ∈ Host.systemNames) := by
  have seeds : (store.host.systemDefaults.get? name).isSome ↔ name ∈ Host.systemNames :=
    Host.get?_systemDefaults_isSome_iff
  constructor
  · rintro kept ⟨rfl, system⟩
    rw [get?_setup, if_pos rfl] at kept
    obtain ⟨default, seeded⟩ := Option.isSome_iff_exists.mp (seeds.mpr system)
    rw [seeded, Option.some_or, Option.some.injEq] at kept
    have placeless := (store.host.uniform_systemDefaults name default seeded).origin_eq
    exact placed (kept ▸ placeless)
  · intro spared
    rw [get?_setup]
    split
    · rename_i same
      have plain : name ∉ Host.systemNames := fun system => spared ⟨same.symm, system⟩
      rw [← seeds, Option.not_isSome_iff_eq_none] at plain
      rw [plain, Option.none_or, recorded]
    · exact recorded

theorem recorded_declareEach (recorded : (store.declaredIn toolchain).get? name = some value)
    (placed : value.origin ≠ none) (scope : Scope) (entries : List (String × Value)) :
    ((store.declareEach scope entries).store.declaredIn toolchain).get? name = some value :=
  declareEach_induction
    (motive := fun _ later => (later.declaredIn toolchain).get? name = some value)
    (fun _ _ entry _ held _ => recorded_recordEntry held placed scope.toolchain entry)
    (fun _ _ _ _ _ held _ => held) [] rfl recorded

end Store

namespace Session

variable {session : Session} {toolchain : Toolchain} {name : String} {value : Value}

def Records (session : Session) (toolchain : Toolchain) (name : String) (value : Value) : Prop :=
  (session.store.declaredIn toolchain).get? name = some value

theorem records_step_iff (recorded : session.Records toolchain name value)
    (placed : value.origin ≠ none) (operation : Operation) :
    (session.step operation).Records toolchain name value ↔
      ¬ (operation.Seeds toolchain ∧ name ∈ Host.systemNames) := by
  cases operation with
  | setup handle overrides =>
    exact Store.recorded_setup_iff recorded placed (session.scope handle) overrides
  | declare handle arguments =>
    have kept := Store.recorded_declareEach recorded placed (session.scope handle) arguments.entries
    exact iff_of_true kept fun seeds => seeds.1
  | _ => exact iff_of_true recorded fun seeds => seeds.1

theorem records_run_iff (recorded : session.Records toolchain name value)
    (placed : value.origin ≠ none) (later : List Operation) :
    (∀ before after, later = before ++ after →
        (session.run before).Records toolchain name value) ↔
      (name ∈ Host.systemNames → ∀ operation ∈ later, ¬ operation.Seeds toolchain) := by
  constructor
  · intro kept system operation member seeds
    obtain ⟨before, after, rfl⟩ := List.append_of_mem member
    have reached := kept before (operation :: after) rfl
    have next := kept (before ++ [operation]) after (List.append_cons before operation after)
    rw [run_concat] at next
    exact (records_step_iff reached placed operation).mp next ⟨seeds, system⟩
  · rintro spared before after rfl
    induction before using List.reverseRecOn generalizing after with
    | nil => exact recorded
    | append_singleton done operation ih =>
      rw [List.append_assoc] at spared
      rw [run_concat, records_step_iff (ih _ spared) placed]
      rintro ⟨seeds, system⟩
      exact spared system operation (by simp) seeds

/-- Of any state that a run can reach, and any declaration with an origin that is recorded in it:
an operation leaves the declaration as it is, unless the name is a system argument and its context
is prepared anew. So it is there for good exactly if that does not happen any more. -/
theorem declaration_kept_iff (host : Host) (slots : Handle → NameMap Slot)
    (done : List Operation)
    (recorded : ((start host slots).run done).Records toolchain name value)
    (placed : value.origin ≠ none) :
    (∀ operation, ((start host slots).run (done ++ [operation])).Records toolchain name value ↔
      ¬ (operation.Seeds toolchain ∧ name ∈ Host.systemNames)) ∧
    ∀ later, (∀ before after, later = before ++ after →
        ((start host slots).run (done ++ before)).Records toolchain name value) ↔
      (name ∈ Host.systemNames → ∀ operation ∈ later, ¬ operation.Seeds toolchain) := by
  constructor
  · intro operation
    rw [run_concat]
    exact records_step_iff recorded placed operation
  · intro later
    simp only [run_append]
    exact records_run_iff recorded placed later

def hostAt (line : UInt32) : NameMap Value :=
  .ofList [("host_os", .string (some ⟨"f", some line⟩) "haiku")]

def takeover : List Operation := [.setup ⟨⟨"a", false⟩, 0⟩ ∅, .declare ⟨⟨"a", false⟩, 0⟩ (hostAt 1)]

theorem declaration_kept_iff_takeover :
    let session := start ⟨"linux", "x64"⟩ fun _ => ∅
    let declared : Value := .string (some ⟨"f", some 1⟩) "haiku"
    (session.run takeover).Records ⟨"a", false⟩ "host_os" declared ∧ declared.origin ≠ none ∧
    (session.run (takeover ++ [.setup ⟨⟨"b", false⟩, 0⟩ ∅])).Records ⟨"a", false⟩ "host_os"
      declared ∧
    ¬ (session.run (takeover ++ [.setup ⟨⟨"a", false⟩, 1⟩ ∅])).Records ⟨"a", false⟩ "host_os"
      declared := by
  intro session declared
  have recorded : (session.run takeover).Records ⟨"a", false⟩ "host_os" declared := by
    unfold Records
    cbv
  have placed : declared.origin ≠ none := by simp [declared, Value.origin]
  have step := (declaration_kept_iff ⟨"linux", "x64"⟩ (fun _ => ∅) takeover recorded placed).1
  refine ⟨recorded, placed, (step _).mpr ?_, fun kept => (step _).mp kept ?_⟩
  · rintro ⟨seeds, _⟩
    simp [Operation.Seeds] at seeds
  · exact ⟨rfl, by decide⟩

/-- Once the context is prepared again, the declaration is lost, and the argument can be declared
at another place. -/
theorem declaration_lost_preparedAgain :
    let session := start ⟨"linux", "x64"⟩ fun _ => ∅
    let again := takeover ++ [.setup ⟨⟨"a", false⟩, 1⟩ ∅]
    (session.run takeover).Records ⟨"a", false⟩ "host_os"
      (.string (some ⟨"f", some 1⟩) "haiku") ∧
    (session.run again).Records ⟨"a", false⟩ "host_os" (.string none "linux") ∧
    (session.run again).error? (.declare ⟨⟨"a", false⟩, 1⟩ (hostAt 2)) = none ∧
    (session.run (again ++ [.declare ⟨⟨"a", false⟩, 1⟩ (hostAt 2)])).Records ⟨"a", false⟩ "host_os"
      (.string (some ⟨"f", some 2⟩) "haiku") := by
  unfold Records
  refine ⟨?_, ?_, ?_, ?_⟩ <;> cbv

end Session
end BuildArgs
