import BuildArgs.Proofs.Session.Run
import BuildArgs.Proofs.Store.History
import Mathlib

/-! Duplicate declarations over whole runs. In every state that a run can reach an argument is
declared at one place, and a declaration is refused exactly if the run has accepted it at
another place before. -/

namespace BuildArgs

def Operation.declared : Operation → List (String × Value)
  | .declare _ arguments => arguments.entries
  | _ => []

def Operation.Placed (operation : Operation) : Prop :=
  ∀ entry ∈ operation.declared, entry.2.origin ≠ none

instance (operation : Operation) : Decidable operation.Placed :=
  inferInstanceAs (Decidable (∀ _ ∈ _, _))

/-- Whether an operation prepares a context in which an earlier one declares. -/
def Operation.Reseeds : Operation → Operation → Prop
  | .setup later _, .declare earlier _ => later.toolchain = earlier.toolchain
  | _, _ => False

/-- No context is prepared after something was to be declared in it. -/
def PreparedFirst (operations : List Operation) : Prop :=
  operations.Pairwise fun earlier later => ¬ later.Reseeds earlier

namespace Session

theorem singleDeclaration_step {session : Session} (single : session.store.SingleDeclaration)
    (operation : Operation) : (session.step operation).store.SingleDeclaration := by
  cases operation with
  | setup handle overrides => exact single.setup _ _
  | declare handle arguments =>
    exact Store.declareEach_induction (motive := fun _ store => store.SingleDeclaration)
      (fun _ _ _ _ held clear => held.recordEntry clear) (fun _ _ _ _ _ held _ => held)
      [] rfl single
  | _ => exact single.congr rfl

theorem singleDeclaration_run (host : Host) (slots : Handle → NameMap Slot)
    (operations : List Operation) :
    ((start host slots).run operations).store.SingleDeclaration := by
  induction operations using List.reverseRecOn with
  | nil => exact .of_new host
  | append_singleton done operation ih =>
    rw [run_concat]
    exact singleDeclaration_step ih operation

/-- However often contexts are prepared, and whatever was refused: all that is recorded of a name
has one origin, for a system argument as far as it has an origin. -/
theorem recorded_origins_agree (host : Host) (slots : Handle → NameMap Slot)
    (operations : List Operation) (name : String) :
    let store := ((start host slots).run operations).store
    (name ∉ Host.systemNames → ∀ first second left right,
      (store.declaredIn first).get? name = some left →
      (store.declaredIn second).get? name = some right → left.origin = right.origin) ∧
    (name ∈ Host.systemNames → ∀ first second left right,
      (store.declaredIn first).get? name = some left →
      (store.declaredIn second).get? name = some right →
      left.origin ≠ none → right.origin ≠ none → left.origin = right.origin) := by
  intro store
  have single := singleDeclaration_run host slots operations name
  constructor
  · intro plain first second left right leftFound rightFound
    exact single first second left right leftFound rightFound
      (fun implicit => plain implicit.2) (fun implicit => plain implicit.2)
  · intro _ first second left right leftFound rightFound leftPlaced rightPlaced
    exact single first second left right leftFound rightFound
      (fun implicit => leftPlaced implicit.1) (fun implicit => rightPlaced implicit.1)

theorem exists_declare_of_mem_history {session : Session} {operations : List Operation}
    {attempt : Attempt} (member : attempt ∈ session.history operations) :
    ∃ handle arguments, .declare handle arguments ∈ operations ∧
      handle.toolchain = attempt.toolchain := by
  induction operations generalizing session with
  | nil => simp [history] at member
  | cons operation rest ih =>
    rcases List.mem_append.mp member with here | later
    · cases operation with
      | declare handle arguments =>
        obtain ⟨earlier, later, split⟩ := List.append_of_mem here
        obtain ⟨_, _, _, _, context, _⟩ := Store.exists_of_attempts_eq split
        exact ⟨handle, arguments, List.mem_cons_self, context.symm⟩
      | _ => simp [tries] at here
    · obtain ⟨handle, arguments, inside, context⟩ := ih later
      exact ⟨handle, arguments, List.mem_cons_of_mem _ inside, context⟩

theorem recounts_step {session : Session} {history : List Attempt}
    (held : Store.Recounts history session.store) {operation : Operation}
    (placed : operation.Placed)
    (fresh : ∀ handle overrides, operation = .setup handle overrides →
      ∀ attempt ∈ history, attempt.toolchain ≠ handle.toolchain) :
    Store.Recounts (history ++ session.tries operation) (session.step operation).store := by
  cases operation with
  | declare handle arguments => exact held.declareEach placed _
  | setup handle overrides =>
    simp only [tries, List.append_nil]
    exact held.setup overrides (fresh handle overrides rfl)
  | _ =>
    simp only [tries, List.append_nil]
    exact held.congr rfl

theorem recounts_run (host : Host) (slots : Handle → NameMap Slot) {operations : List Operation}
    (prepared : PreparedFirst operations) (placed : ∀ operation ∈ operations, operation.Placed) :
    Store.Recounts ((start host slots).history operations)
      ((start host slots).run operations).store := by
  induction operations using List.reverseRecOn with
  | nil => exact .of_new host
  | append_singleton done operation ih =>
    obtain ⟨preparedBefore, _, apart⟩ := List.pairwise_append.mp prepared
    have held := ih preparedBefore fun earlier inside =>
      placed earlier (List.mem_append_left _ inside)
    rw [run_concat, history_concat]
    apply recounts_step held (placed operation (by simp))
    rintro handle overrides rfl attempt member same
    obtain ⟨other, arguments, inside, context⟩ := exists_declare_of_mem_history member
    exact apart _ inside _ List.mem_cons_self (same.symm.trans context.symm)

/-- A declaration that is tried is refused exactly if the run has accepted the name at another
origin, in whatever context. All that it has accepted of the name then has one origin, and this
and the new one are those that the error of the whole operation gives. -/
theorem refused_iff_accepted_elsewhere {host : Host} {slots : Handle → NameMap Slot}
    {done : List Operation} {handle : Handle} {arguments : NameMap Value}
    (prepared : PreparedFirst (done ++ [.declare handle arguments]))
    (placed : ∀ operation ∈ done ++ [.declare handle arguments], operation.Placed)
    {earlier later : List Attempt} {attempt : Attempt}
    (tried : ((start host slots).run done).tries (.declare handle arguments) =
      earlier ++ attempt :: later) :
    let before := (start host slots).history done ++ earlier
    (attempt.error.isSome ↔ ∃ prior ∈ before, prior.error = none ∧ prior.name = attempt.name ∧
      prior.value.origin ≠ attempt.value.origin) ∧
    ∀ error, attempt.error = some error →
      ((start host slots).run done).error? (.declare handle arguments) = some error ∧
      ∃ origin, (∀ prior ∈ before, prior.error = none → prior.name = attempt.name →
          prior.value.origin = origin) ∧
        (error = .duplicateDeclaration attempt.name attempt.value.origin origin ∨
          error = .duplicateDeclaration attempt.name origin attempt.value.origin) := by
  intro before
  obtain ⟨front, back, split, rfl, _, met, fails⟩ := Store.exists_of_attempts_eq tried
  have held := recounts_run host slots (List.pairwise_append.mp prepared).1
    fun operation inside => placed operation (List.mem_append_left _ inside)
  have frontPlaced : ∀ entry ∈ front, entry.2.origin ≠ none := by
    intro entry inside
    have whole : (Operation.declare handle arguments).Placed := placed _ (by simp)
    have member : entry ∈ arguments.entries := split ▸ List.mem_append_left _ inside
    exact whole entry member
  have reached := held.declareEach frontPlaced (((start host slots).run done).scope handle)
  constructor
  · rw [met]
    exact reached.conflict?_isSome_iff
  · intro error refused
    rw [met] at refused
    exact ⟨fails error (met.trans refused), reached.exists_origin_of_conflict? refused⟩

def takeoverRun : List Operation :=
  [.setup ⟨⟨"a", false⟩, 0⟩ ∅, .setup ⟨⟨"b", false⟩, 0⟩ ∅,
    .declare ⟨⟨"b", false⟩, 0⟩ (.ofList [("host_os", Store.placedAt 1), ("x", Store.placedAt 2)])]

theorem refused_iff_accepted_elsewhere_takeover :
    let batch := .declare ⟨⟨"a", false⟩, 0⟩
      (.ofList [("host_os", Store.placedAt 1), ("x", Store.placedAt 3)])
    let accepted : Attempt := ⟨⟨"a", false⟩, "host_os", Store.placedAt 1, none⟩
    let refused : Attempt := ⟨⟨"a", false⟩, "x", Store.placedAt 3,
      some (.duplicateDeclaration "x" (some ⟨"f", some 2⟩) (some ⟨"f", some 3⟩))⟩
    let session := start ⟨"linux", "x64"⟩ fun _ => ∅
    PreparedFirst (takeoverRun ++ [batch]) ∧
    (∀ operation ∈ takeoverRun ++ [batch], operation.Placed) ∧
    (session.run takeoverRun).tries batch = [accepted] ++ refused :: [] ∧
    (∃ prior ∈ session.history takeoverRun ++ [accepted], prior.error = none ∧ prior.name = "x" ∧
      prior.value.origin ≠ some ⟨"f", some 3⟩) ∧
    (session.run takeoverRun).error? batch = refused.error := by
  intro batch accepted refused session
  have prepared : PreparedFirst (takeoverRun ++ [batch]) := by
    simp [PreparedFirst, takeoverRun, batch, Operation.Reseeds]
  have placed : ∀ operation ∈ takeoverRun ++ [batch], operation.Placed := by decide +kernel
  have tried : (session.run takeoverRun).tries batch = [accepted] ++ refused :: [] := by cbv
  obtain ⟨verdict, returned⟩ := refused_iff_accepted_elsewhere prepared placed tried
  exact ⟨prepared, placed, tried, verdict.mp rfl, (returned _ rfl).1⟩

end Session
end BuildArgs
