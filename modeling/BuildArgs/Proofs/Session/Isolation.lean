import BuildArgs.Proofs.Session.Run
import BuildArgs.Proofs.Store.Context

/-! The contexts of a session do not see each other. As long as nothing is refused in a context,
its callers cannot tell a run from the one that is left without the operations that others do
in theirs. -/

namespace BuildArgs

def Operation.concerns (toolchain : Toolchain) (operation : Operation) : Bool :=
  match operation.context? with
  | some other => other = toolchain
  | none => true

namespace Session

def Succeeds (toolchain : Toolchain) (session : Session) : List Operation → Prop
  | [] => True
  | operation :: rest =>
    (operation.context? = some toolchain → session.error? operation = none) ∧
      (session.step operation).Succeeds toolchain rest

instance decidableSucceeds (toolchain : Toolchain) (session : Session) :
    (operations : List Operation) → Decidable (session.Succeeds toolchain operations)
  | [] => isTrue trivial
  | operation :: rest =>
    have := decidableSucceeds toolchain (session.step operation) rest
    inferInstanceAs (Decidable ((_ → _) ∧ _))

structure SameView (toolchain : Toolchain) (left right : Session) : Prop where
  scopes : ∀ handle, handle.toolchain = toolchain → left.scope handle = right.scope handle
  declarations : left.store.declared.get? toolchain = right.store.declared.get? toolchain
  overrides : left.store.toolchainOverrides.get? toolchain =
    right.store.toolchainOverrides.get? toolchain

/-- A session that runs beside another one, without the operations in foreign contexts. -/
structure Mirrors (toolchain : Toolchain) (shared own : Session) : Prop where
  stores : Store.Isolates toolchain shared.store own.store
  scopes : ∀ handle, handle.toolchain = toolchain → own.scope handle = shared.scope handle

namespace Mirrors

variable {toolchain : Toolchain} {shared own : Session} {operation : Operation}

theorem sameView (mirrors : Mirrors toolchain shared own) : SameView toolchain shared own where
  scopes := fun handle context => (mirrors.scopes handle context).symm
  declarations := mirrors.stores.declared.symm
  overrides := mirrors.stores.overrides.symm

theorem step_general (mirrors : Mirrors toolchain shared own) (general : operation.context? = none) :
    Mirrors toolchain (shared.step operation) (own.step operation) := by
  cases operation with
  | addOverride name value => exact ⟨mirrors.stores.give (·.insert name value), mirrors.scopes⟩
  | addOverrides values => exact ⟨mirrors.stores.give (·.insertAll values), mirrors.scopes⟩
  | addDefaults values => exact ⟨mirrors.stores.give (·.insertAll values), mirrors.scopes⟩
  | setup handle overrides => cases general
  | declare handle arguments => cases general

theorem step_own (mirrors : Mirrors toolchain shared own)
    (context : operation.context? = some toolchain) (succeeds : shared.error? operation = none) :
    Mirrors toolchain (shared.step operation) (own.step operation) ∧
      own.error? operation = none := by
  cases operation with
  | setup handle overrides =>
    cases context
    have same := mirrors.scopes handle rfl
    have here : (shared.scope handle).toolchain = handle.toolchain := rfl
    obtain ⟨stores, scope⟩ := mirrors.stores.setup here overrides
    refine ⟨⟨?_, fun other context => ?_⟩, rfl⟩
    · simp only [step, put, same]
      exact stores
    · rw [scope_step_setup, scope_step_setup, same, scope, mirrors.scopes other context]
  | declare handle arguments =>
    cases context
    have same := mirrors.scopes handle rfl
    have here : (shared.scope handle).toolchain = handle.toolchain := rfl
    obtain ⟨stores, fine, scope⟩ := mirrors.stores.declareEach here succeeds
    refine ⟨⟨?_, fun other context => ?_⟩, ?_⟩
    · simp only [step, put, same]
      exact stores
    · rw [scope_step_declare, scope_step_declare, same, Store.declare, scope,
        mirrors.scopes other context]
      rfl
    · rw [error?, same]
      exact fine
  | _ => cases context

theorem step_foreign (mirrors : Mirrors toolchain shared own) {other : Toolchain}
    (context : operation.context? = some other) (foreign : other ≠ toolchain) :
    Mirrors toolchain (shared.step operation) own := by
  have apart : ∀ here elsewhere : Handle, here.toolchain = toolchain →
      elsewhere.toolchain = other → here ≠ elsewhere := by
    rintro here _ inside outside rfl
    exact foreign (outside.symm.trans inside)
  cases operation with
  | setup handle overrides =>
    cases context
    refine ⟨mirrors.stores.setup_elsewhere foreign overrides, fun here inside => ?_⟩
    rw [scope_step_setup, if_neg (apart here handle inside rfl)]
    exact mirrors.scopes here inside
  | declare handle arguments =>
    cases context
    refine ⟨mirrors.stores.declareEach_elsewhere foreign arguments.entries, fun here inside => ?_⟩
    rw [scope_step_declare, if_neg (apart here handle inside rfl)]
    exact mirrors.scopes here inside
  | _ => cases context

theorem run (mirrors : Mirrors toolchain shared own) {operations : List Operation}
    (succeeds : shared.Succeeds toolchain operations) :
    own.Succeeds toolchain (operations.filter (Operation.concerns toolchain)) ∧
      Mirrors toolchain (shared.run operations)
        (own.run (operations.filter (Operation.concerns toolchain))) := by
  induction operations generalizing shared own with
  | nil => exact ⟨trivial, mirrors⟩
  | cons operation rest ih =>
    obtain ⟨here, later⟩ := succeeds
    cases context : operation.context? with
    | none =>
      have kept : operation.concerns toolchain = true := by simp [Operation.concerns, context]
      rw [List.filter_cons_of_pos kept]
      obtain ⟨done, final⟩ := ih (mirrors.step_general context) later
      exact ⟨⟨by simp [context], done⟩, final⟩
    | some other =>
      by_cases same : other = toolchain
      · subst same
        have kept : operation.concerns other = true := by simp [Operation.concerns, context]
        rw [List.filter_cons_of_pos kept]
        obtain ⟨next, fine⟩ := mirrors.step_own context (here context)
        obtain ⟨done, final⟩ := ih next later
        exact ⟨⟨fun _ => fine, done⟩, final⟩
      · have dropped : ¬ operation.concerns toolchain = true := by
          simp [Operation.concerns, context, same]
        rw [List.filter_cons_of_neg dropped]
        exact ih (mirrors.step_foreign context same) later

end Mirrors

theorem succeeds_of_append {toolchain : Toolchain} {session : Session}
    {before after : List Operation} (succeeds : session.Succeeds toolchain (before ++ after)) :
    session.Succeeds toolchain before := by
  induction before generalizing session with
  | nil => trivial
  | cons operation rest ih => exact ⟨succeeds.1, ih succeeds.2⟩

/-- If all operations in a context succeed, they do so without the operations in other contexts,
and what their callers see at any time is the same. -/
theorem context_isolated {host : Host} {slots : Handle → NameMap Slot} {toolchain : Toolchain}
    {operations : List Operation} (succeeds : (start host slots).Succeeds toolchain operations) :
    (start host slots).Succeeds toolchain
        (operations.filter (Operation.concerns toolchain)) ∧
      ∀ before after, operations = before ++ after →
        SameView toolchain ((start host slots).run before)
          ((start host slots).run (before.filter (Operation.concerns toolchain))) := by
  have mirrors : Mirrors toolchain (start host slots) (start host slots) :=
    ⟨.of_new toolchain host, fun _ _ => rfl⟩
  refine ⟨(mirrors.run succeeds).1, ?_⟩
  rintro before after rfl
  exact (mirrors.run (succeeds_of_append succeeds)).2.sameView

def argumentAt (line : UInt32) : NameMap Value := .ofList [("x", .integer (some ⟨"f", some line⟩) 0)]

def sharedArgumentRun : List Operation :=
  [.setup ⟨⟨"a", false⟩, 0⟩ ∅, .declare ⟨⟨"a", false⟩, 0⟩ (argumentAt 1),
    .declare ⟨⟨"a", false⟩, 0⟩ (argumentAt 2), .addOverride "x" (.integer none 1),
    .setup ⟨⟨"b", false⟩, 0⟩ (.ofList [("x", .integer none 2)]),
    .declare ⟨⟨"b", false⟩, 0⟩ (argumentAt 1)]

theorem context_isolated_sharedArgument :
    let session := start ⟨"linux", "x64"⟩ fun _ => ∅
    session.Succeeds ⟨"b", false⟩ sharedArgumentRun ∧
    sharedArgumentRun.filter (Operation.concerns ⟨"b", false⟩) = sharedArgumentRun.drop 3 ∧
    SameView ⟨"b", false⟩ (session.run sharedArgumentRun)
      (session.run (sharedArgumentRun.drop 3)) := by
  intro session
  have succeeds : session.Succeeds ⟨"b", false⟩ sharedArgumentRun := by decide +kernel
  have kept : sharedArgumentRun.filter (Operation.concerns ⟨"b", false⟩) =
      sharedArgumentRun.drop 3 := rfl
  have views := (context_isolated succeeds).2 sharedArgumentRun [] (List.append_nil _).symm
  exact ⟨succeeds, kept, kept ▸ views⟩

end Session
end BuildArgs
