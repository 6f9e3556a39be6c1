import BuildArgs.Proofs.Store.Batch
import BuildArgs.Proofs.Store.Settling
import Mathlib.Data.List.Induction
import Mathlib.Logic.Function.Basic

/-! One store, the scopes that its callers hold, and the operations that they ask for: in any
order, in any contexts, also those that fail. -/

namespace BuildArgs

/-- A scope that a caller holds. A toolchain may have several of them. -/
structure Handle where
  toolchain : Toolchain
  number : Nat
  deriving DecidableEq

inductive Operation where
  | addOverride (name : String) (value : Value)
  | addOverrides (values : NameMap Value)
  | addDefaults (values : NameMap Value)
  | setup (handle : Handle) (overrides : NameMap Value)
  | declare (handle : Handle) (arguments : NameMap Value)

def Operation.context? : Operation → Option Toolchain
  | .setup handle _ => some handle.toolchain
  | .declare handle _ => some handle.toolchain
  | _ => none

def lastGiven (gives : Operation → List (String × Value)) (operations : List Operation)
    (name : String) : Option Value :=
  (operations.flatMap gives).reverse.lookup name

theorem lastGiven_append (gives : Operation → List (String × Value))
    (before after : List Operation) (name : String) :
    lastGiven gives (before ++ after) name =
      (lastGiven gives after name).or (lastGiven gives before name) := by
  simp [lastGiven, List.lookup_append]

theorem isSome_lastGiven_iff {gives : Operation → List (String × Value)}
    {operations : List Operation} {name : String} :
    (lastGiven gives operations name).isSome ↔
      ∃ operation ∈ operations, ∃ value, (name, value) ∈ gives operation := by
  rw [lastGiven, List.lookup_isSome_iff]
  constructor
  · rintro ⟨⟨other, value⟩, inside, same⟩
    obtain ⟨operation, member, there⟩ := List.mem_flatMap.mp (List.mem_reverse.mp inside)
    have equal : name = other := by simpa using same
    exact ⟨operation, member, value, equal ▸ there⟩
  · rintro ⟨operation, member, value, there⟩
    exact ⟨(name, value), List.mem_reverse.mpr (List.mem_flatMap.mpr ⟨operation, member, there⟩),
      by simp⟩

structure Session where
  store : Store
  slots : Handle → NameMap Slot

namespace Session

def start (host : Host) (slots : Handle → NameMap Slot) : Session := ⟨.new host, slots⟩

def scope (session : Session) (handle : Handle) : Scope := ⟨handle.toolchain, session.slots handle⟩

def put (session : Session) (handle : Handle) (store : Store) (scope : Scope) : Session :=
  ⟨store, Function.update session.slots handle scope.slots⟩

def step (session : Session) : Operation → Session
  | .addOverride name value => { session with store := session.store.addOverride name value }
  | .addOverrides values => { session with store := session.store.addOverrides values }
  | .addDefaults values => { session with store := session.store.addDefaults values }
  | .setup handle overrides =>
    let result := session.store.setup (session.scope handle) overrides
    session.put handle result.1 result.2
  | .declare handle arguments =>
    let result := session.store.declare (session.scope handle) arguments
    session.put handle result.store result.scope

def error? (session : Session) : Operation → Option ArgError
  | .declare handle arguments => (session.store.declare (session.scope handle) arguments).error
  | _ => none

def run (session : Session) (operations : List Operation) : Session := operations.foldl step session

def tries (session : Session) : Operation → List Attempt
  | .declare handle arguments => session.store.attempts (session.scope handle) arguments.entries
  | _ => []

/-- The declarations that the operations of a run try to make, in order. -/
def history (session : Session) : List Operation → List Attempt
  | [] => []
  | operation :: rest => session.tries operation ++ (session.step operation).history rest

theorem run_append (session : Session) (before after : List Operation) :
    session.run (before ++ after) = (session.run before).run after :=
  List.foldl_append

theorem run_concat (session : Session) (done : List Operation) (operation : Operation) :
    session.run (done ++ [operation]) = (session.run done).step operation :=
  session.run_append done [operation]

theorem get?_run (field : Session → NameMap Value) {gives : Operation → List (String × Value)}
    (each : ∀ session operation,
      field (session.step operation) = (field session).insertList (gives operation))
    (session : Session) (operations : List Operation) (name : String) :
    (field (session.run operations)).get? name =
      (lastGiven gives operations name).or ((field session).get? name) := by
  rw [lastGiven, ← SortedMap.get?_insertList_names]
  congr 1
  induction operations generalizing session with
  | nil => rfl
  | cons operation rest ih =>
    have later := ih (session.step operation)
    rw [each, ← SortedMap.insertList_append] at later
    exact later

theorem history_concat (session : Session) (done : List Operation) (operation : Operation) :
    session.history (done ++ [operation]) =
      session.history done ++ (session.run done).tries operation := by
  induction done generalizing session with
  | nil => simp [history, run]
  | cons first rest ih => simp [history, run, ih]

theorem store_step_declare (session : Session) (handle : Handle) (arguments : NameMap Value) :
    (session.step (.declare handle arguments)).store =
      { session.store with declared := (session.step (.declare handle arguments)).store.declared } :=
  Store.declareEach_store _ _ _

theorem host_step (session : Session) (operation : Operation) :
    (session.step operation).store.host = session.store.host := by
  cases operation with
  | declare handle arguments => rw [store_step_declare]
  | _ => rfl

theorem scope_put (session : Session) {handle : Handle} (store : Store) {scope : Scope}
    (context : scope.toolchain = handle.toolchain) (other : Handle) :
    (session.put handle store scope).scope other =
      if other = handle then scope else session.scope other := by
  by_cases same : other = handle
  · subst same
    simp only [put, Session.scope, Function.update_self, if_pos, ← context]
  · simp only [put, Session.scope, Function.update_of_ne same, if_neg same]

theorem scope_step_setup (session : Session) (handle other : Handle) (overrides : NameMap Value) :
    (session.step (.setup handle overrides)).scope other =
      if other = handle then (session.store.setup (session.scope handle) overrides).2
      else session.scope other :=
  session.scope_put _ (Store.toolchain_setup _ _ _) other

theorem scope_step_declare (session : Session) (handle other : Handle)
    (arguments : NameMap Value) :
    (session.step (.declare handle arguments)).scope other =
      if other = handle then (session.store.declare (session.scope handle) arguments).scope
      else session.scope other :=
  session.scope_put _ (Store.toolchain_declareEach _ _ _) other

end Session
end BuildArgs
