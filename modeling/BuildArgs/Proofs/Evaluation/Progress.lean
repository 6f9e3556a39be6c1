import BuildArgs.Build.Evaluation
import BuildArgs.Proofs.Manifest.WellFormed
import BuildArgs.Proofs.Store.Refusal
import BuildArgs.Proofs.Store.Settling
import Mathlib.Logic.Function.Basic

/-! What a store holds while several toolchains are evaluated on it, told by how far each of
them has come. Every operation of a toolchain keeps this up to date. -/

namespace BuildArgs

abbrev Progress := Toolchain → Option (List (String × Value))

def Progress.declarations (progress : Progress) (toolchain : Toolchain) : List Declaration :=
  ((progress toolchain).getD []).map .ofEntry

namespace Progress

/-- Nothing that was declared is taken back. -/
def ExtendedBy (before after : Progress) : Prop :=
  ∀ toolchain entries, before toolchain = some entries →
    ∃ more, after toolchain = some (entries ++ more)

theorem ExtendedBy.refl (progress : Progress) : progress.ExtendedBy progress :=
  fun _ entries held => ⟨[], by simpa using held⟩

theorem ExtendedBy.trans {first second third : Progress} (one : first.ExtendedBy second)
    (two : second.ExtendedBy third) : first.ExtendedBy third := by
  intro toolchain entries held
  obtain ⟨more, heldSecond⟩ := one toolchain entries held
  obtain ⟨yet, heldThird⟩ := two toolchain _ heldSecond
  exact ⟨more ++ yet, by simpa using heldThird⟩

theorem ExtendedBy.declarations {before after : Progress} (extended : before.ExtendedBy after)
    {toolchain : Toolchain} {declaration : Declaration}
    (member : declaration ∈ before.declarations toolchain) :
    declaration ∈ after.declarations toolchain := by
  unfold Progress.declarations at member ⊢
  cases held : before toolchain with
  | none => simp [held] at member
  | some entries =>
    obtain ⟨more, heldAfter⟩ := extended toolchain entries held
    simp only [held, Option.getD_some] at member
    rw [heldAfter, Option.getD_some, List.map_append]
    exact List.mem_append_left _ member

theorem extendedBy_update {progress : Progress} {toolchain : Toolchain}
    {entries : List (String × Value)} (grown : ∀ old, progress toolchain = some old →
      ∃ more, entries = old ++ more) :
    progress.ExtendedBy (Function.update progress toolchain (some entries)) := by
  intro other old held
  by_cases same : other = toolchain
  · subst same
    obtain ⟨more, rfl⟩ := grown old held
    exact ⟨more, by simp⟩
  · exact ⟨[], by simp [Function.update_of_ne same, held]⟩

end Progress

namespace Store

structure Holds (store : Store) (spec : ToolchainSpec) (entries : List (String × Value)) :
    Prop where
  declared : store.declared.get? spec.id = some (recordAll store.host.systemDefaults entries)
  overrides : store.toolchainOverrides.get? spec.id = some spec.overrides
  placed : ∀ entry ∈ entries, entry.2.origin ≠ none
  recorded : ∀ entry ∈ entries, store.Declares spec.id (.ofEntry entry)

def SuppliedBy (initial : Store) (specs : List ToolchainSpec) (progress : Progress)
    (store : Store) : Prop :=
  ∀ name,
    (∃ spec ∈ specs, (progress spec.id).isSome ∧ (spec.overrides.get? name).isSome ∧
      store.supplied.get? name = spec.overrides.get? name) ∨
    ((∀ spec ∈ specs, (progress spec.id).isSome → spec.overrides.get? name = none) ∧
      store.supplied.get? name = initial.supplied.get? name)

/-- A store on which some toolchains are evaluated, each as far as the progress says. -/
structure Reflects (initial : Store) (specs : List ToolchainSpec) (progress : Progress)
    (store : Store) : Prop where
  host : store.host = initial.host
  active : store.active = initial.active
  files : store.files = initial.files
  waiting : ∀ spec ∈ specs, progress spec.id = none → store.declared.get? spec.id = none
  holds : ∀ spec ∈ specs, ∀ entries, progress spec.id = some entries → store.Holds spec entries
  known : ∀ toolchain, store.declared.get? toolchain ≠ none → ∃ spec ∈ specs, spec.id = toolchain
  agree : ∀ first second left right, store.Declares first left → store.Declares second right →
    ¬ left.Clashes right
  supplied : SuppliedBy initial specs progress store

def Fresh (store : Store) : Prop := store.declared = ∅

theorem fresh_new (host : Host) : (Store.new host).Fresh := rfl

theorem fresh_prepare (inputs : Inputs) (host : Host) : (inputs.prepare (.new host)).Fresh := rfl

theorem Fresh.get?_eq_none {store : Store} (fresh : store.Fresh) (toolchain : Toolchain) :
    store.declared.get? toolchain = none := by
  rw [fresh]
  rfl

theorem Declares.context_ne_none {store : Store} {toolchain : Toolchain}
    {declaration : Declaration} (declares : store.Declares toolchain declaration) :
    store.declared.get? toolchain ≠ none := by
  intro missing
  obtain ⟨value, recorded, _⟩ := declares.recorded
  simp [declaredIn, missing] at recorded

theorem declares_congr {store other : Store} {toolchain : Toolchain}
    (same : store.declared.get? toolchain = other.declared.get? toolchain)
    (declaration : Declaration) :
    store.Declares toolchain declaration ↔ other.Declares toolchain declaration := by
  simp [Declares, declaredIn, same]

theorem Fresh.reflects {initial : Store} (fresh : initial.Fresh) (specs : List ToolchainSpec) :
    Reflects initial specs (fun _ => none) initial where
  host := rfl
  active := rfl
  files := rfl
  waiting := fun spec _ _ => fresh.get?_eq_none spec.id
  holds := by simp
  known := fun toolchain present => absurd (fresh.get?_eq_none toolchain) present
  agree := fun first _ _ _ declares =>
    absurd (fresh.get?_eq_none first) declares.context_ne_none
  supplied := by simp [SuppliedBy]

theorem Holds.declares_iff {store : Store} {spec : ToolchainSpec}
    {entries : List (String × Value)} (holds : store.Holds spec entries)
    (declaration : Declaration) :
    store.Declares spec.id declaration ↔ declaration ∈ entries.map .ofEntry := by
  constructor
  · intro declares
    obtain ⟨value, recorded, place⟩ := declares.recorded
    simp only [declaredIn, holds.declared, Option.getD_some] at recorded
    rcases mem_of_get?_recordAll recorded with member | system
    · exact List.mem_map.mpr ⟨_, member, by simp [Declaration.ofEntry, place]⟩
    · have missing := (store.host.uniform_systemDefaults _ _ system).origin_eq
      exact absurd (place.symm.trans missing) declares.1
  · intro member
    obtain ⟨entry, inside, rfl⟩ := List.mem_map.mp member
    exact holds.recorded entry inside

namespace Reflects

variable {initial store : Store} {specs : List ToolchainSpec} {progress : Progress}
  {spec : ToolchainSpec} {entries : List (String × Value)}

theorem declares_iff (reflects : Reflects initial specs progress store) (member : spec ∈ specs)
    (declaration : Declaration) :
    store.Declares spec.id declaration ↔ declaration ∈ progress.declarations spec.id := by
  unfold Progress.declarations
  cases held : progress spec.id with
  | none =>
    have missing := reflects.waiting spec member held
    simpa using fun declares : store.Declares _ _ => declares.context_ne_none missing
  | some entries => simpa using (reflects.holds spec member entries held).declares_iff declaration

theorem exists_of_declares (reflects : Reflects initial specs progress store)
    {toolchain : Toolchain} {declaration : Declaration}
    (declares : store.Declares toolchain declaration) :
    ∃ spec ∈ specs, spec.id = toolchain ∧ declaration ∈ progress.declarations toolchain := by
  obtain ⟨spec, member, rfl⟩ := reflects.known toolchain declares.context_ne_none
  exact ⟨spec, member, rfl, (reflects.declares_iff member declaration).mp declares⟩

theorem placedUnlessSystem (reflects : Reflects initial specs progress store) :
    store.PlacedUnlessSystem := by
  intro toolchain name value recorded missing
  cases context : store.declared.get? toolchain with
  | none => simp [declaredIn, context] at recorded
  | some declared =>
    obtain ⟨spec, member, rfl⟩ := reflects.known toolchain (by simp [context])
    cases held : progress spec.id with
    | none => simp [reflects.waiting spec member held] at context
    | some entries =>
      have holds := reflects.holds spec member entries held
      simp only [declaredIn, holds.declared, Option.getD_some] at recorded
      rcases mem_of_get?_recordAll recorded with inside | system
      · exact absurd missing (holds.placed _ inside)
      · exact Host.get?_systemDefaults_isSome_iff.mp (Option.isSome_of_eq_some system)

theorem update (reflects : Reflects initial specs progress store) (member : spec ∈ specs)
    (distinct : ∀ other ∈ specs, other.id = spec.id → other = spec) {after : Store}
    (same : after.host = store.host ∧ after.active = store.active ∧ after.files = store.files)
    (elsewhere : ∀ toolchain, toolchain ≠ spec.id →
      after.declared.get? toolchain = store.declared.get? toolchain ∧
        after.toolchainOverrides.get? toolchain = store.toolchainOverrides.get? toolchain)
    (holds : after.Holds spec entries)
    (agree : ∀ first second left right, after.Declares first left → after.Declares second right →
      ¬ left.Clashes right)
    (supplied : SuppliedBy initial specs (Function.update progress spec.id (some entries)) after) :
    Reflects initial specs (Function.update progress spec.id (some entries)) after where
  host := same.1.trans reflects.host
  active := same.2.1.trans reflects.active
  files := same.2.2.trans reflects.files
  waiting := by
    intro other otherMember otherWaiting
    have apart : other.id ≠ spec.id := by
      intro equal
      simp [equal] at otherWaiting
    rw [(elsewhere _ apart).1]
    rw [Function.update_of_ne apart] at otherWaiting
    exact reflects.waiting other otherMember otherWaiting
  holds := by
    intro other otherMember otherEntries held
    by_cases equal : other.id = spec.id
    · obtain rfl := distinct other otherMember equal
      rw [Function.update_self] at held
      cases held
      exact holds
    · rw [Function.update_of_ne equal] at held
      have before := reflects.holds other otherMember otherEntries held
      obtain ⟨context, overrides⟩ := elsewhere _ equal
      refine ⟨?_, ?_, before.placed, fun entry inside => ?_⟩
      · rw [context, same.1]
        exact before.declared
      · rw [overrides]
        exact before.overrides
      · exact (declares_congr context _).mpr (before.recorded entry inside)
  known := by
    intro toolchain present
    by_cases equal : toolchain = spec.id
    · exact ⟨spec, member, equal.symm⟩
    · rw [(elsewhere _ equal).1] at present
      exact reflects.known toolchain present
  agree := agree
  supplied := supplied

theorem declared_setup (reflects : Reflects initial specs progress store) (member : spec ∈ specs)
    (waiting : progress spec.id = none) :
    (store.setup (.new spec.id) spec.overrides).1.declared =
      store.declared.insert spec.id store.host.systemDefaults := by
  have untouched : store.declaredIn spec.id = ∅ := by
    simp [declaredIn, reflects.waiting spec member waiting]
  simp [Store.setup, Scope.new, untouched]

theorem supplied_setup (supplied : SuppliedBy initial specs progress store) (member : spec ∈ specs)
    (distinct : ∀ other ∈ specs, other.id = spec.id → other = spec) :
    SuppliedBy initial specs (Function.update progress spec.id (some []))
      (store.setup (.new spec.id) spec.overrides).1 := by
  intro name
  have overlaid : (store.setup (.new spec.id) spec.overrides).1.supplied.get? name =
      (spec.overrides.get? name).or (store.supplied.get? name) :=
    SortedMap.get?_insertAll _ _ _
  have prepared : ∀ other : ToolchainSpec,
      (Function.update progress spec.id (some []) other.id).isSome ↔
        other.id = spec.id ∨ (progress other.id).isSome := by
    intro other
    by_cases same : other.id = spec.id
    · simp [same]
    · simp [same]
  cases brought : spec.overrides.get? name with
  | some value =>
    left
    exact ⟨spec, member, by simp, by simp [brought], by simp [overlaid, brought]⟩
  | none =>
    rw [overlaid, brought, Option.none_or]
    rcases supplied name with ⟨other, otherMember, done, has, same⟩ | ⟨clear, same⟩
    · exact Or.inl ⟨other, otherMember, (prepared other).mpr (Or.inr done), has, same⟩
    · refine Or.inr ⟨fun other otherMember done => ?_, same⟩
      rcases (prepared other).mp done with here | earlier
      · exact distinct other otherMember here ▸ brought
      · exact clear other otherMember earlier

theorem setup (reflects : Reflects initial specs progress store) (member : spec ∈ specs)
    (waiting : progress spec.id = none)
    (distinct : ∀ other ∈ specs, other.id = spec.id → other = spec) :
    Reflects initial specs (Function.update progress spec.id (some []))
      (store.setup (.new spec.id) spec.overrides).1 := by
  have context := reflects.declared_setup member waiting
  have elsewhere : ∀ toolchain, toolchain ≠ spec.id →
      (store.setup (.new spec.id) spec.overrides).1.declared.get? toolchain =
        store.declared.get? toolchain := by
    intro toolchain apart
    rw [context, SortedMap.get?_insert_ne _ _ apart]
  have before : ∀ toolchain declaration,
      (store.setup (.new spec.id) spec.overrides).1.Declares toolchain declaration →
        store.Declares toolchain declaration := by
    intro toolchain declaration declares
    by_cases same : toolchain = spec.id
    · subst same
      obtain ⟨value, recorded, place⟩ := declares.recorded
      simp only [declaredIn, context, SortedMap.get?_insert_self, Option.getD_some] at recorded
      have missing := (store.host.uniform_systemDefaults _ _ recorded).origin_eq
      exact absurd (place.symm.trans missing) declares.1
    · exact (declares_congr (elsewhere toolchain same) declaration).mp declares
  refine reflects.update member distinct ⟨rfl, rfl, rfl⟩ ?_ ?_ ?_ ?_
  · intro toolchain apart
    exact ⟨elsewhere toolchain apart, SortedMap.get?_insert_ne _ _ apart⟩
  · refine ⟨?_, ?_, by simp, by simp⟩
    · rw [context, SortedMap.get?_insert_self]
      rfl
    · simp [Store.setup, Scope.new]
  · intro first second left right leftDeclares rightDeclares
    exact reflects.agree first second left right (before _ _ leftDeclares) (before _ _ rightDeclares)
  · exact supplied_setup reflects.supplied member distinct

theorem accept (reflects : Reflects initial specs progress store) (member : spec ∈ specs)
    (held : progress spec.id = some entries)
    (distinct : ∀ other ∈ specs, other.id = spec.id → other = spec) {entry : String × Value}
    (placed : entry.2.origin ≠ none)
    (accepted : store.conflict? spec.id entry.1 entry.2 = none) :
    Reflects initial specs (Function.update progress spec.id (some (entries ++ [entry])))
      (store.recordEntry spec.id entry) := by
  have holds := reflects.holds spec member entries held
  have clear := (conflict?_eq_none_iff_not_clashes reflects.placedUnlessSystem).mp accepted
  have new : (store.recordEntry spec.id entry).Declares spec.id (.ofEntry entry) :=
    declares_recordEntry_self placed (clear spec.id)
  refine reflects.update member distinct ⟨rfl, rfl, rfl⟩ ?_ ?_ ?_ ?_
  · intro toolchain apart
    exact ⟨SortedMap.get?_insert_ne _ _ apart, rfl⟩
  · refine ⟨?_, holds.overrides, ?_, ?_⟩
    · simp [recordEntry, declaredIn, holds.declared, recordAll]
    · intro found inside
      rcases List.mem_append.mp inside with old | last
      · exact holds.placed found old
      · exact List.mem_singleton.mp last ▸ placed
    · intro found inside
      rcases List.mem_append.mp inside with old | last
      · exact (holds.recorded found old).recordEntry _ _
      · exact List.mem_singleton.mp last ▸ new
  · intro first second left right leftDeclares rightDeclares
    rcases leftDeclares.of_recordEntry with leftOld | ⟨_, rfl⟩
    · rcases rightDeclares.of_recordEntry with rightOld | ⟨_, rfl⟩
      · exact reflects.agree first second left right leftOld rightOld
      · exact clear first left leftOld
    · rcases rightDeclares.of_recordEntry with rightOld | ⟨_, rfl⟩
      · exact fun clash => clear second right rightOld clash.symm
      · exact Declaration.not_clashes_self _
  · intro name
    have prepared : ∀ other : ToolchainSpec,
        (Function.update progress spec.id (some (entries ++ [entry])) other.id).isSome =
          (progress other.id).isSome := by
      intro other
      by_cases same : other.id = spec.id
      · simp [same, held]
      · simp [same]
    simp only [prepared]
    exact reflects.supplied name

theorem declareEach (reflects : Reflects initial specs progress store) (member : spec ∈ specs)
    (held : progress spec.id = some entries)
    (distinct : ∀ other ∈ specs, other.id = spec.id → other = spec)
    {block : List (String × Value)} (placed : ∀ entry ∈ block, entry.2.origin ≠ none) :
    ∃ accepted,
      let result := store.declareEach (spec.scopeAfter initial.host initial.active entries) block
      Reflects initial specs (Function.update progress spec.id (some (entries ++ accepted)))
        result.store ∧
      (accepted = block ∧ result.error = none ∧
          result.scope = spec.scopeAfter initial.host initial.active (entries ++ block) ∨
        ∃ entry later error, block = accepted ++ entry :: later ∧ result.error = some error ∧
          result.store.Refused spec.id (.ofEntry entry) error) := by
  induction block generalizing store progress entries with
  | nil =>
    refine ⟨[], ?_, Or.inl ⟨rfl, rfl, by simp [Store.declareEach]⟩⟩
    rw [List.append_nil, ← held, Function.update_eq_self]
    exact reflects
  | cons entry rest ih =>
    have first : entry.2.origin ≠ none := placed entry List.mem_cons_self
    have later : ∀ entry ∈ rest, entry.2.origin ≠ none :=
      fun entry inside => placed entry (List.mem_cons_of_mem _ inside)
    have own := spec.toolchain_scopeAfter initial.host initial.active entries
    cases conflict : store.conflict? spec.id entry.1 entry.2 with
    | some error =>
      have refused := refused_of_conflict? reflects.placedUnlessSystem conflict
      rw [declareEach_refused (own.symm ▸ conflict) rest]
      refine ⟨[], ?_, Or.inr ⟨entry, rest, error, rfl, rfl, refused⟩⟩
      rw [List.append_nil, ← held, Function.update_eq_self]
      exact reflects
    | none =>
      have next := reflects.accept member held distinct first conflict
      have brought := (reflects.holds spec member entries held).overrides
      have step : store.declareEach (spec.scopeAfter initial.host initial.active entries)
          (entry :: rest) = (store.recordEntry spec.id entry).declareEach
            (spec.scopeAfter initial.host initial.active (entries ++ [entry])) rest := by
        rw [declareEach_accepted (own.symm ▸ conflict), resolveEntry_eq_settle own brought, own,
          ToolchainSpec.scopeAfter_append, reflects.active]
      obtain ⟨accepted, done, outcome⟩ := ih next (Function.update_self ..) later
      refine ⟨entry :: accepted, ?_, ?_⟩
      · rw [step]
        simpa using done
      · rw [step]
        rcases outcome with ⟨rfl, none, scope⟩ | ⟨last, tail, error, rfl, failed, refused⟩
        · exact Or.inl ⟨rfl, none, by simpa using scope⟩
        · exact Or.inr ⟨last, tail, error, rfl, failed, refused⟩

end Reflects
end Store
end BuildArgs
