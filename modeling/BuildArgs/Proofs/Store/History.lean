import BuildArgs.Proofs.Store.Batch
import BuildArgs.Proofs.Store.Refusal
import BuildArgs.Proofs.Store.SingleDeclaration

/-! A store and the declarations that were tried on it. As long as contexts are prepared first
and every declaration has a place, the store holds the accepted ones and no others, so what it
refuses next can be told from the history. -/

namespace BuildArgs

def Accepts (history : List Attempt) (toolchain : Toolchain) (declaration : Declaration) : Prop :=
  ∃ attempt ∈ history, attempt.error = none ∧ attempt.toolchain = toolchain ∧
    attempt.declaration = declaration

theorem accepts_concat_iff {history : List Attempt} {attempt : Attempt} {toolchain : Toolchain}
    {declaration : Declaration} :
    Accepts (history ++ [attempt]) toolchain declaration ↔
      Accepts history toolchain declaration ∨
        attempt.error = none ∧ attempt.toolchain = toolchain ∧
          attempt.declaration = declaration := by
  simp [Accepts, or_and_right, exists_or]

namespace Store

variable {store : Store} {toolchain : Toolchain} {entry : String × Value}

theorem PlacedUnlessSystem.setup (implicit : store.PlacedUnlessSystem) (scope : Scope)
    (overrides : NameMap Value) : (store.setup scope overrides).1.PlacedUnlessSystem := by
  intro toolchain name value found missing
  rcases recorded_of_setup found with ⟨system, _⟩ | old
  · exact system
  · exact implicit toolchain name value old missing

theorem PlacedUnlessSystem.recordEntry (implicit : store.PlacedUnlessSystem)
    (placed : entry.2.origin ≠ none) :
    (store.recordEntry toolchain entry).PlacedUnlessSystem := by
  intro other name value found missing
  rcases recorded_of_recordEntry found with ⟨_, rfl⟩ | old
  · exact absurd missing placed
  · exact implicit other name value old missing

theorem declares_recordEntry_iff (implicit : store.PlacedUnlessSystem)
    (placed : entry.2.origin ≠ none)
    (clear : store.conflict? toolchain entry.1 entry.2 = none) {other : Toolchain}
    {declaration : Declaration} :
    (store.recordEntry toolchain entry).Declares other declaration ↔
      store.Declares other declaration ∨ toolchain = other ∧ .ofEntry entry = declaration := by
  have apart := (conflict?_eq_none_iff_not_clashes implicit).mp clear toolchain
  constructor
  · intro declares
    rcases declares.of_recordEntry with old | ⟨rfl, rfl⟩
    · exact Or.inl old
    · exact Or.inr ⟨rfl, rfl⟩
  · rintro (old | ⟨rfl, rfl⟩)
    · exact old.recordEntry _ _
    · exact declares_recordEntry_self placed apart

theorem declares_setup_iff {scope : Scope} (overrides : NameMap Value)
    (fresh : ∀ declaration, ¬ store.Declares scope.toolchain declaration) {other : Toolchain}
    {declaration : Declaration} :
    (store.setup scope overrides).1.Declares other declaration ↔
      store.Declares other declaration := by
  constructor
  · intro declares
    obtain ⟨value, found, place⟩ := declares.recorded
    rcases recorded_of_setup found with ⟨_, missing⟩ | old
    · exact absurd (place.symm.trans missing) declares.1
    · exact ⟨declares.1, by rw [old, Option.map_some, place]⟩
  · intro declares
    have apart : other ≠ scope.toolchain := by
      rintro rfl
      exact fresh declaration declares
    refine ⟨declares.1, ?_⟩
    rw [get?_setup, if_neg apart]
    exact declares.2

/-- A store that holds the declarations that were accepted so far. -/
structure Recounts (history : List Attempt) (store : Store) : Prop where
  implicit : store.PlacedUnlessSystem
  single : store.SingleDeclaration
  declares_iff : ∀ toolchain declaration,
    store.Declares toolchain declaration ↔ Accepts history toolchain declaration

namespace Recounts

variable {history : List Attempt}

theorem of_new (host : Host) : Recounts [] (new host) where
  implicit := by
    intro toolchain name value found
    simp [new, declaredIn] at found
  single := .of_new host
  declares_iff := by
    intro toolchain declaration
    simp [Declares, Accepts, new, declaredIn]

theorem congr (recounts : Recounts history store) {other : Store}
    (same : other.declared = store.declared) : Recounts history other := by
  have contexts : other.declaredIn = store.declaredIn := by
    funext toolchain
    rw [declaredIn, declaredIn, same]
  refine ⟨?_, recounts.single.congr same, ?_⟩
  · rw [PlacedUnlessSystem, contexts]
    exact recounts.implicit
  · simp only [Declares, contexts]
    exact recounts.declares_iff

theorem setup (recounts : Recounts history store) {scope : Scope} (overrides : NameMap Value)
    (fresh : ∀ attempt ∈ history, attempt.toolchain ≠ scope.toolchain) :
    Recounts history (store.setup scope overrides).1 where
  implicit := recounts.implicit.setup scope overrides
  single := recounts.single.setup scope overrides
  declares_iff := by
    intro toolchain declaration
    rw [declares_setup_iff overrides]
    · exact recounts.declares_iff toolchain declaration
    · intro earlier declares
      obtain ⟨attempt, member, _, context, _⟩ := (recounts.declares_iff _ _).mp declares
      exact fresh attempt member context

theorem accept (recounts : Recounts history store) (placed : entry.2.origin ≠ none)
    (clear : store.conflict? toolchain entry.1 entry.2 = none) :
    Recounts (history ++ [⟨toolchain, entry.1, entry.2, none⟩])
      (store.recordEntry toolchain entry) where
  implicit := recounts.implicit.recordEntry placed
  single := recounts.single.recordEntry clear
  declares_iff := by
    intro other declaration
    rw [declares_recordEntry_iff recounts.implicit placed clear, accepts_concat_iff,
      recounts.declares_iff]
    simp [Attempt.declaration, Declaration.ofEntry]

theorem refuse (recounts : Recounts history store) (name : String) (value : Value)
    (error : ArgError) : Recounts (history ++ [⟨toolchain, name, value, some error⟩]) store where
  implicit := recounts.implicit
  single := recounts.single
  declares_iff := by
    intro other declaration
    rw [accepts_concat_iff, recounts.declares_iff]
    simp

theorem declareEach (recounts : Recounts history store) {entries : List (String × Value)}
    (placed : ∀ entry ∈ entries, entry.2.origin ≠ none) (scope : Scope) :
    Recounts (history ++ store.attempts scope entries) (store.declareEach scope entries).store :=
  declareEach_induction
    (fun _ _ entry member held clear => held.accept (placed entry member) clear)
    (fun _ _ error entry _ held _ => held.refuse entry.1 entry.2 error) history rfl recounts

theorem conflict?_isSome_iff (recounts : Recounts history store) {name : String} {value : Value} :
    (store.conflict? toolchain name value).isSome ↔
      ∃ prior ∈ history, prior.error = none ∧ prior.name = name ∧
        prior.value.origin ≠ value.origin := by
  constructor
  · intro refused
    obtain ⟨error, conflict⟩ := Option.isSome_iff_exists.mp refused
    obtain ⟨other, earlier, declares, clash⟩ :=
      (refused_of_conflict? recounts.implicit conflict).exists_clash
    obtain ⟨prior, member, accepted, _, rfl⟩ := (recounts.declares_iff _ _).mp declares
    exact ⟨prior, member, accepted, clash.1, clash.2⟩
  · rintro ⟨prior, member, accepted, rfl, differ⟩
    have declares : store.Declares prior.toolchain prior.declaration :=
      (recounts.declares_iff _ _).mpr ⟨prior, member, accepted, rfl, rfl⟩
    cases conflict : store.conflict? toolchain prior.name value with
    | some error => rfl
    | none =>
      have apart := (conflict?_eq_none_iff_not_clashes recounts.implicit).mp conflict
      exact absurd ⟨rfl, differ⟩ (apart prior.toolchain prior.declaration declares)

/-- What was accepted of a name before a refusal has one origin, and the error gives it together
with that of the refused declaration. -/
theorem exists_origin_of_conflict? (recounts : Recounts history store) {name : String}
    {value : Value} {error : ArgError} (conflict : store.conflict? toolchain name value = some error) :
    ∃ origin, (∀ prior ∈ history, prior.error = none → prior.name = name →
        prior.value.origin = origin) ∧
      (error = .duplicateDeclaration name value.origin origin ∨
        error = .duplicateDeclaration name origin value.origin) := by
  obtain ⟨other, earlier, declares, clash, report⟩ :=
    (refused_of_conflict? recounts.implicit conflict).exists_report
  refine ⟨earlier.place, ?_, report⟩
  rintro prior member accepted rfl
  have priorDeclares : store.Declares prior.toolchain prior.declaration :=
    (recounts.declares_iff _ _).mpr ⟨prior, member, accepted, rfl, rfl⟩
  have sameName : earlier.name = prior.declaration.name := clash.1
  have equal := Declaration.eq_of_not_clashes sameName
    (recounts.single.not_clashes declares priorDeclares)
  exact congrArg Declaration.place equal.symm

end Recounts
end Store
end BuildArgs
