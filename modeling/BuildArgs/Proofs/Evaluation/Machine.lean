import BuildArgs.Proofs.Evaluation.Progress
import Mathlib.Data.List.Nodup
import Mathlib.Logic.Relation

/-! Toolchains evaluated side by side on one store. Each prepares its scope and declares its
blocks in order, up to its own first error; any of them may be the next to do so. What
`Valid` says of a machine is kept by every step, whichever toolchain takes it. -/

namespace BuildArgs

inductive Stage where
  | waiting
  | declaring (scope : Scope) (rest : List DeclareBlock)
  | failed (error : ArgError)

def Stage.outcome? : Stage → Option (Except ArgError Scope)
  | .declaring scope [] => some (.ok scope)
  | .failed error => some (.error error)
  | _ => none

/-- The stage of a toolchain that has declared some blocks and has others left. -/
def Stage.after (result : Store.Declared) (rest : List DeclareBlock) : Stage :=
  match result.error with
  | some error => .failed error
  | none => .declaring result.scope rest

structure Machine where
  store : Store
  stage : Toolchain → Stage

namespace Machine

def start (store : Store) : Machine := ⟨store, fun _ => .waiting⟩

def prepare (machine : Machine) (spec : ToolchainSpec) : Machine :=
  let (store, scope) := machine.store.setup (.new spec.id) spec.overrides
  ⟨store, Function.update machine.stage spec.id (.declaring scope spec.blocks)⟩

def declare (machine : Machine) (spec : ToolchainSpec) (scope : Scope) (block : DeclareBlock)
    (rest : List DeclareBlock) : Machine :=
  let result := machine.store.declare scope block.arguments
  ⟨result.store, Function.update machine.stage spec.id (.after result rest)⟩

inductive Step (specs : List ToolchainSpec) : Machine → Machine → Prop
  | prepare {machine spec} : spec ∈ specs → machine.stage spec.id = .waiting →
      Step specs machine (machine.prepare spec)
  | declare {machine spec scope block rest} : spec ∈ specs →
      machine.stage spec.id = .declaring scope (block :: rest) →
      Step specs machine (machine.declare spec scope block rest)

abbrev Runs (specs : List ToolchainSpec) : Machine → Machine → Prop :=
  Relation.ReflTransGen (Step specs)

def Finished (specs : List ToolchainSpec) (machine : Machine) : Prop :=
  ∀ spec ∈ specs, (machine.stage spec.id).outcome?.isSome

def outcomes (machine : Machine) (specs : List ToolchainSpec) : List Store.Outcome :=
  specs.filterMap fun spec =>
    (machine.stage spec.id).outcome?.map fun outcome => (spec.id, outcome)

/-- A machine that some interleaving of the toolchains' operations ends with. -/
structure Interleaves (store : Store) (specs : List ToolchainSpec) (machine : Machine) : Prop where
  runs : Runs specs (start store) machine
  finished : machine.Finished specs

/-- Toolchains that have contexts of their own and declare nothing without a place. -/
structure Separate (specs : List ToolchainSpec) : Prop where
  distinct : (specs.map ToolchainSpec.id).Nodup
  placed : ∀ spec ∈ specs, ∀ entry ∈ spec.entries, entry.2.origin ≠ none

theorem Separate.eq_of_id {specs : List ToolchainSpec} (separate : Separate specs)
    {spec : ToolchainSpec} (member : spec ∈ specs) :
    ∀ other ∈ specs, other.id = spec.id → other = spec :=
  fun _ otherMember same => List.inj_on_of_nodup_map separate.distinct otherMember member same

theorem separate_of_perm {manifest : Manifest} (wellFormed : manifest.WellFormed)
    {specs : List ToolchainSpec} (order : specs.Perm manifest.toolchains) : Separate specs where
  distinct := (order.map ToolchainSpec.id).nodup_iff.mpr wellFormed.distinct
  placed := by
    intro spec member entry inside
    obtain ⟨block, blockMember, found⟩ := List.mem_flatMap.mp inside
    have uniform := (wellFormed.toolchains spec (order.mem_iff.mp member)).blocks block blockMember
    simp [uniform.origin_of_mem found]

inductive Stands (initial store : Store) (spec : ToolchainSpec) :
    Option (List (String × Value)) → Stage → Prop
  | waiting : Stands initial store spec none .waiting
  | declaring {entries rest} :
      spec.entries = entries ++ rest.flatMap DeclareBlock.entries →
      Stands initial store spec (some entries)
        (.declaring (spec.scopeAfter initial.host initial.active entries) rest)
  | failed {entries entry later error} : spec.entries = entries ++ entry :: later →
      store.Refused spec.id (.ofEntry entry) error →
      Stands initial store spec (some entries) (.failed error)

structure Valid (initial : Store) (specs : List ToolchainSpec) (progress : Progress)
    (machine : Machine) : Prop where
  reflects : Store.Reflects initial specs progress machine.store
  stands : ∀ spec ∈ specs,
    Stands initial machine.store spec (progress spec.id) (machine.stage spec.id)

theorem Stands.progress_of_waiting {initial store : Store} {spec : ToolchainSpec}
    {held : Option (List (String × Value))} (stands : Stands initial store spec held .waiting) :
    held = none := by
  cases stands
  rfl

theorem Stands.of_declaring {initial store : Store} {spec : ToolchainSpec}
    {held : Option (List (String × Value))} {scope : Scope} {rest : List DeclareBlock}
    (stands : Stands initial store spec held (.declaring scope rest)) :
    ∃ entries, held = some entries ∧
      spec.entries = entries ++ rest.flatMap DeclareBlock.entries ∧
      scope = spec.scopeAfter initial.host initial.active entries := by
  cases stands with
  | declaring left => exact ⟨_, rfl, left, rfl⟩

theorem Stands.mono {initial store later : Store} {spec : ToolchainSpec}
    {held : Option (List (String × Value))} {stage : Stage}
    (stands : Stands initial store spec held stage)
    (kept : ∀ other earlier, store.Declares other earlier → later.Declares other earlier)
    (own : ∀ earlier, later.Declares spec.id earlier → store.Declares spec.id earlier) :
    Stands initial later spec held stage := by
  cases stands with
  | waiting => exact .waiting
  | declaring left => exact .declaring left
  | failed left refused => exact .failed left (refused.mono kept own)

variable {initial : Store} {specs : List ToolchainSpec} {progress : Progress} {machine : Machine}

theorem Valid.update (valid : Valid initial specs progress machine) {spec : ToolchainSpec}
    (only : ∀ other ∈ specs, other.id = spec.id → other = spec)
    {entries : List (String × Value)} {stage : Stage} {store : Store}
    (grown : ∀ old, progress spec.id = some old → ∃ more, entries = old ++ more)
    (reflects : Store.Reflects initial specs (Function.update progress spec.id (some entries)) store)
    (stands : Stands initial store spec (some entries) stage) :
    Valid initial specs (Function.update progress spec.id (some entries))
      ⟨store, Function.update machine.stage spec.id stage⟩ := by
  refine ⟨reflects, fun other otherMember => ?_⟩
  by_cases same : other.id = spec.id
  · rw [only other otherMember same]
    simpa using stands
  · simp only [Function.update_of_ne same]
    apply (valid.stands other otherMember).mono
    · intro toolchain earlier declares
      obtain ⟨found, member, rfl, recorded⟩ := valid.reflects.exists_of_declares declares
      exact (reflects.declares_iff member earlier).mpr
        ((Progress.extendedBy_update grown).declarations recorded)
    · intro earlier declares
      have recorded := (reflects.declares_iff otherMember earlier).mp declares
      apply (valid.reflects.declares_iff otherMember earlier).mpr
      simpa [Progress.declarations, Function.update_of_ne same] using recorded

theorem Valid.prepare (separate : Separate specs) (valid : Valid initial specs progress machine)
    {spec : ToolchainSpec} (member : spec ∈ specs) (waiting : progress spec.id = none) :
    Valid initial specs (Function.update progress spec.id (some [])) (machine.prepare spec) := by
  have only := separate.eq_of_id member
  have untouched := valid.reflects.waiting spec member waiting
  have reflects := valid.reflects.setup member waiting only
  have scope := Store.setup_scope untouched
  rw [valid.reflects.host, valid.reflects.active] at scope
  have stands : Stands initial (machine.store.setup (.new spec.id) spec.overrides).1 spec
      (some []) (.declaring (machine.store.setup (.new spec.id) spec.overrides).2 spec.blocks) := by
    rw [scope]
    exact .declaring rfl
  exact valid.update only (by simp [waiting]) reflects stands

theorem Valid.declareEach (separate : Separate specs)
    (valid : Valid initial specs progress machine) {spec : ToolchainSpec} (member : spec ∈ specs)
    {entries pending : List (String × Value)} {rest : List DeclareBlock}
    (held : progress spec.id = some entries)
    (left : spec.entries = entries ++ pending ++ rest.flatMap DeclareBlock.entries) :
    let result := machine.store.declareEach
      (spec.scopeAfter initial.host initial.active entries) pending
    ∃ accepted,
      Valid initial specs (Function.update progress spec.id (some (entries ++ accepted)))
        ⟨result.store, Function.update machine.stage spec.id (.after result rest)⟩ ∧
      (accepted = pending ∧ Stage.after result rest = .declaring result.scope rest ∨
        ∃ entry later error, pending = accepted ++ entry :: later ∧
          Stage.after result rest = .failed error ∧
          result.store.Refused spec.id (.ofEntry entry) error) := by
  have only := separate.eq_of_id member
  have placed : ∀ entry ∈ pending, entry.2.origin ≠ none := by
    intro entry inside
    apply separate.placed spec member
    rw [left]
    exact List.mem_append_left _ (List.mem_append_right _ inside)
  obtain ⟨accepted, reflects, outcome⟩ := valid.reflects.declareEach member held only placed
  have grown : ∀ old, progress spec.id = some old → ∃ more, entries ++ accepted = old ++ more := by
    intro old same
    rw [held] at same
    cases same
    exact ⟨accepted, rfl⟩
  rcases outcome with ⟨rfl, fine, scope⟩ | ⟨entry, later, error, rfl, failed, refused⟩
  · have stage : Stage.after (machine.store.declareEach
        (spec.scopeAfter initial.host initial.active entries) accepted) rest =
          .declaring (spec.scopeAfter initial.host initial.active (entries ++ accepted)) rest := by
      rw [Stage.after, fine, ← scope]
    refine ⟨accepted, valid.update only grown reflects ?_, Or.inl ⟨rfl, scope ▸ stage⟩⟩
    rw [stage]
    exact .declaring left
  · have stage : Stage.after (machine.store.declareEach
        (spec.scopeAfter initial.host initial.active entries) (accepted ++ entry :: later)) rest =
          .failed error := by
      rw [Stage.after, failed]
    refine ⟨accepted, valid.update only grown reflects ?_,
      Or.inr ⟨entry, later, error, rfl, stage, refused⟩⟩
    have split : spec.entries = entries ++ accepted ++
        entry :: (later ++ rest.flatMap DeclareBlock.entries) := by
      simpa using left
    rw [stage]
    exact .failed split refused

theorem Step.valid (separate : Separate specs) (valid : Valid initial specs progress machine)
    {next : Machine} (step : Step specs machine next) :
    ∃ after, Valid initial specs after next ∧ progress.ExtendedBy after := by
  cases step with
  | @prepare spec member waiting =>
    have held := (waiting ▸ valid.stands spec member).progress_of_waiting
    exact ⟨_, valid.prepare separate member held, Progress.extendedBy_update (by simp [held])⟩
  | @declare spec scope block rest member declaring =>
    obtain ⟨entries, held, left, rfl⟩ := (declaring ▸ valid.stands spec member).of_declaring
    have split : spec.entries = entries ++ block.entries ++
        rest.flatMap DeclareBlock.entries := by
      simpa using left
    obtain ⟨accepted, next, _⟩ := valid.declareEach separate member held split
    refine ⟨_, next, Progress.extendedBy_update fun old same => ?_⟩
    rw [held] at same
    cases same
    exact ⟨accepted, rfl⟩

theorem valid_start (fresh : initial.Fresh) (specs : List ToolchainSpec) :
    Valid initial specs (fun _ => none) (start initial) :=
  ⟨fresh.reflects specs, fun _ _ => .waiting⟩

theorem Runs.valid (separate : Separate specs) (valid : Valid initial specs progress machine)
    {final : Machine} (runs : Runs specs machine final) :
    ∃ after, Valid initial specs after final ∧ progress.ExtendedBy after := by
  induction runs with
  | refl => exact ⟨progress, valid, .refl progress⟩
  | tail _ step ih =>
    obtain ⟨middle, middleValid, first⟩ := ih
    obtain ⟨after, afterValid, second⟩ := step.valid separate middleValid
    exact ⟨after, afterValid, first.trans second⟩

end Machine
end BuildArgs
