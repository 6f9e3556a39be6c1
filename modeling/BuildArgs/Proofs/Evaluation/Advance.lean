import BuildArgs.Proofs.Evaluation.Sequence
import BuildArgs.Proofs.Splitting
import BuildArgs.Proofs.Store.Batch

/-! Letting one toolchain go on for some blocks while the others stand still: what it has
declared then, and what it was refused if it failed. Runs are put together from such parts. -/

namespace BuildArgs

namespace Store

theorem declareBlocks_eq_declareEach (store : Store) (scope : Scope)
    (blocks : List DeclareBlock) :
    store.declareBlocks scope blocks =
      store.declareEach scope (blocks.flatMap DeclareBlock.entries) := by
  induction blocks generalizing store scope with
  | nil => rfl
  | cons block rest ih =>
    rw [List.flatMap_cons, declareEach_append, declareBlocks, declare]
    cases (store.declareEach scope block.entries).error with
    | some error => rfl
    | none => exact ih _ _

end Store

def Progress.Has (progress : Progress) (specs : List ToolchainSpec) (declaration : Declaration) :
    Prop :=
  ∃ spec ∈ specs, declaration ∈ progress.declarations spec.id

namespace Machine

/-- How a toolchain comes out of declaring some defaults: either all of them were accepted, or
it failed at one of them. -/
inductive Emerges (machine : Machine) (spec : ToolchainSpec) (rest : List DeclareBlock) :
    List Declaration → List Declaration → Prop
  | fully {pending scope} : machine.stage spec.id = .declaring scope rest →
      Emerges machine spec rest pending pending
  | partly {accepted declaration later error} : machine.stage spec.id = .failed error →
      machine.store.Refused spec.id declaration error →
      Emerges machine spec rest (accepted ++ declaration :: later) accepted

/-- A toolchain has gone on for some blocks, and the others have stood still. -/
structure Advanced (initial : Store) (specs : List ToolchainSpec) (spec : ToolchainSpec)
    (rest : List DeclareBlock) (pending accepted : List Declaration) (machine : Machine)
    (progress : Progress) (next : Machine) (after : Progress) : Prop where
  runs : Runs specs machine next
  valid : Valid initial specs after next
  stage : ∀ toolchain, toolchain ≠ spec.id → next.stage toolchain = machine.stage toolchain
  others : ∀ toolchain, toolchain ≠ spec.id →
    after.declarations toolchain = progress.declarations toolchain
  own : after.declarations spec.id = progress.declarations spec.id ++ accepted
  emerges : Emerges next spec rest pending accepted

variable {initial : Store} {specs : List ToolchainSpec} {progress : Progress} {machine : Machine}
  {spec : ToolchainSpec}

theorem Valid.agree_declared (valid : Valid initial specs progress machine)
    {first second : ToolchainSpec} (firstMember : first ∈ specs) (secondMember : second ∈ specs)
    {left right : Declaration} (leftDeclared : left ∈ progress.declarations first.id)
    (rightDeclared : right ∈ progress.declarations second.id) : ¬ left.Clashes right :=
  valid.reflects.agree first.id second.id left right
    ((valid.reflects.declares_iff firstMember left).mpr leftDeclared)
    ((valid.reflects.declares_iff secondMember right).mpr rightDeclared)

theorem Valid.declarations_of_declaring (valid : Valid initial specs progress machine)
    (member : spec ∈ specs) {scope : Scope} {rest : List DeclareBlock}
    (declaring : machine.stage spec.id = .declaring scope rest) :
    spec.declarations =
      progress.declarations spec.id ++ rest.flatMap DeclareBlock.declarations := by
  obtain ⟨entries, held, left, _⟩ := (declaring ▸ valid.stands spec member).of_declaring
  rw [ToolchainSpec.declarations, left, List.map_append, List.map_flatMap, Progress.declarations,
    held]
  rfl

theorem Valid.declarations_of_failed (valid : Valid initial specs progress machine)
    (member : spec ∈ specs) {error : ArgError}
    (failed : machine.stage spec.id = .failed error) :
    ∃ declaration later, spec.declarations =
        progress.declarations spec.id ++ declaration :: later ∧
      machine.store.Refused spec.id declaration error := by
  have stands := failed ▸ valid.stands spec member
  unfold Progress.declarations
  generalize progress spec.id = held at stands
  cases stands with
  | @failed _ entry later _ left refused =>
    exact ⟨.ofEntry entry, later.map .ofEntry, by simp [ToolchainSpec.declarations, left], refused⟩

theorem Valid.declared_prefix (valid : Valid initial specs progress machine)
    (member : spec ∈ specs) : progress.declarations spec.id <+: spec.declarations := by
  cases stage : machine.stage spec.id with
  | waiting =>
    have held := (stage ▸ valid.stands spec member).progress_of_waiting
    simp [Progress.declarations, held]
  | declaring scope rest =>
    exact ⟨_, (valid.declarations_of_declaring member stage).symm⟩
  | failed error =>
    obtain ⟨declaration, later, split, _⟩ := valid.declarations_of_failed member stage
    exact ⟨_, split.symm⟩

/-- Whatever others have declared, a toolchain gets no further than it would alone. -/
theorem Valid.declared_prefix_alone (valid : Valid initial specs progress machine)
    (member : spec ∈ specs) : progress.declarations spec.id <+: spec.alone :=
  ToolchainSpec.prefix_alone (valid.declared_prefix member)
    fun _ leftIn _ rightIn => valid.agree_declared member member leftIn rightIn

theorem Valid.advance (separate : Separate specs) (valid : Valid initial specs progress machine)
    (member : spec ∈ specs) {scope : Scope} {blocks rest : List DeclareBlock}
    (declaring : machine.stage spec.id = .declaring scope (blocks ++ rest)) :
    ∃ accepted next after, Advanced initial specs spec rest
      (blocks.flatMap DeclareBlock.declarations) accepted machine progress next after := by
  obtain ⟨entries, held, left, rfl⟩ := (declaring ▸ valid.stands spec member).of_declaring
  have split : spec.entries = entries ++ blocks.flatMap DeclareBlock.entries ++
      rest.flatMap DeclareBlock.entries := by
    simpa using left
  have pending : blocks.flatMap DeclareBlock.declarations =
      (blocks.flatMap DeclareBlock.entries).map .ofEntry :=
    List.map_flatMap.symm
  obtain ⟨accepted, after, outcome⟩ := valid.declareEach separate member held split
  rw [← Store.declareBlocks_eq_declareEach] at after outcome
  refine ⟨accepted.map .ofEntry, _, _, runs_declareBlocks member declaring, after, ?_, ?_, ?_, ?_⟩
  · intro toolchain apart
    exact Function.update_of_ne apart _ _
  · intro toolchain apart
    simp [Progress.declarations, Function.update_of_ne apart]
  · simp [Progress.declarations, held]
  · rw [pending]
    rcases outcome with ⟨rfl, stage⟩ | ⟨entry, later, error, same, stage, refused⟩
    · exact .fully (by simp only [declareBlocks, Function.update_self]; exact stage)
    · rw [same, List.map_append, List.map_cons]
      exact .partly (by simp only [declareBlocks, Function.update_self]; exact stage) refused

theorem Valid.declarations_of_waiting (valid : Valid initial specs progress machine)
    (member : spec ∈ specs) (waiting : machine.stage spec.id = .waiting) :
    progress.declarations spec.id = [] := by
  have held := (waiting ▸ valid.stands spec member).progress_of_waiting
  simp [Progress.declarations, held]

theorem Valid.launch (separate : Separate specs) (valid : Valid initial specs progress machine)
    (member : spec ∈ specs) (waiting : machine.stage spec.id = .waiting)
    {blocks rest : List DeclareBlock} (split : spec.blocks = blocks ++ rest) :
    ∃ accepted next after, Advanced initial specs spec rest
      (blocks.flatMap DeclareBlock.declarations) accepted machine progress next after := by
  have held := (waiting ▸ valid.stands spec member).progress_of_waiting
  have first : Step specs machine (machine.prepare spec) := .prepare member waiting
  have ready : (machine.prepare spec).stage spec.id =
      .declaring (machine.store.setup (.new spec.id) spec.overrides).2 (blocks ++ rest) := by
    simp [Machine.prepare, split]
  obtain ⟨accepted, next, after, advanced⟩ :=
    (valid.prepare separate member held).advance separate member ready
  refine ⟨accepted, next, after, .head first advanced.runs, advanced.valid, ?_, ?_, ?_,
    advanced.emerges⟩
  · intro toolchain apart
    rw [advanced.stage toolchain apart]
    exact Function.update_of_ne apart _ _
  · intro toolchain apart
    rw [advanced.others toolchain apart]
    simp [Progress.declarations, Function.update_of_ne apart]
  · rw [advanced.own]
    simp [Progress.declarations, held]

namespace Advanced

variable {rest : List DeclareBlock} {pending accepted : List Declaration} {next : Machine}
  {after : Progress}

theorem has_iff
    (advanced : Advanced initial specs spec rest pending accepted machine progress next after)
    (member : spec ∈ specs) {declaration : Declaration} :
    after.Has specs declaration ↔ progress.Has specs declaration ∨ declaration ∈ accepted := by
  constructor
  · rintro ⟨other, otherMember, declared⟩
    by_cases same : other.id = spec.id
    · rw [same, advanced.own] at declared
      rcases List.mem_append.mp declared with old | new
      · exact Or.inl ⟨spec, member, old⟩
      · exact Or.inr new
    · rw [advanced.others other.id same] at declared
      exact Or.inl ⟨other, otherMember, declared⟩
  · rintro (⟨other, otherMember, declared⟩ | new)
    · refine ⟨other, otherMember, ?_⟩
      by_cases same : other.id = spec.id
      · rw [same, advanced.own]
        exact List.mem_append_left _ (same ▸ declared)
      · rw [advanced.others other.id same]
        exact declared
    · exact ⟨spec, member, by rw [advanced.own]; exact List.mem_append_right _ new⟩

theorem stage_of_mem
    (advanced : Advanced initial specs spec rest pending accepted machine progress next after)
    {others : List ToolchainSpec} (outside : spec.id ∉ others.map ToolchainSpec.id)
    {other : ToolchainSpec} (inside : other ∈ others) :
    next.stage other.id = machine.stage other.id :=
  advanced.stage _ fun same => outside (same ▸ List.mem_map_of_mem inside)

theorem completed
    (advanced : Advanced initial specs spec rest pending accepted machine progress next after)
    {others : List ToolchainSpec} (outside : spec.id ∉ others.map ToolchainSpec.id)
    (completed : machine.Completed others) : next.Completed others := by
  intro other inside
  rw [advanced.stage_of_mem outside inside]
  exact completed other inside

theorem not_clashes
    (advanced : Advanced initial specs spec rest pending accepted machine progress next after)
    {left right : Declaration} (leftHas : after.Has specs left) (rightHas : after.Has specs right) :
    ¬ left.Clashes right := by
  obtain ⟨first, firstMember, leftDeclared⟩ := leftHas
  obtain ⟨second, secondMember, rightDeclared⟩ := rightHas
  exact advanced.valid.agree_declared firstMember secondMember leftDeclared rightDeclared

theorem accepted_prefix
    (advanced : Advanced initial specs spec rest pending accepted machine progress next after) :
    accepted <+: pending := by
  cases advanced.emerges with
  | fully _ => exact List.prefix_refl _
  | partly _ _ => exact List.prefix_append _ _

theorem clear_prefix
    (advanced : Advanced initial specs spec rest pending accepted machine progress next after)
    (member : spec ∈ specs) {clear later : List Declaration} (split : pending = clear ++ later)
    (agree : Declaration.Agree clear)
    (apart : ∀ earlier, progress.Has specs earlier → ∀ declaration ∈ clear,
      ¬ earlier.Clashes declaration) : clear <+: accepted := by
  have emerges := advanced.emerges
  rw [split] at emerges
  generalize whole : clear ++ later = all at emerges
  cases emerges with
  | fully _ => exact ⟨later, whole⟩
  | @partly _ declaration more error _ refused =>
    rcases List.append_eq_append_iff.mp whole with ⟨between, same, _⟩ | ⟨between, same, tail⟩
    · exact ⟨between, same.symm⟩
    · cases between with
      | nil => exact ⟨[], by simpa using same⟩
      | cons head between =>
        exfalso
        obtain ⟨rfl, _⟩ := List.cons.inj tail
        have inside : declaration ∈ clear := same ▸ by simp
        obtain ⟨toolchain, earlier, declares, clash⟩ := refused.exists_clash
        obtain ⟨other, otherMember, rfl, recorded⟩ :=
          advanced.valid.reflects.exists_of_declares declares
        rcases (advanced.has_iff member).mp ⟨other, otherMember, recorded⟩ with old | new
        · exact apart earlier old declaration inside clash
        · exact agree earlier (same ▸ List.mem_append_left _ new) declaration inside clash

theorem complete
    (advanced : Advanced initial specs spec rest pending accepted machine progress next after)
    (member : spec ∈ specs) (agree : Declaration.Agree pending)
    (apart : ∀ earlier, progress.Has specs earlier → ∀ declaration ∈ pending,
      ¬ earlier.Clashes declaration) :
    accepted = pending ∧ ∃ scope, next.stage spec.id = .declaring scope rest := by
  have all := advanced.clear_prefix member (List.append_nil pending).symm agree apart
  have emerges := advanced.emerges
  cases emerges with
  | fully declaring => exact ⟨rfl, _, declaring⟩
  | @partly _ declaration later _ _ _ =>
    have short := all.length_le
    rw [List.length_append, List.length_cons] at short
    omega

theorem refused
    (advanced : Advanced initial specs spec rest pending accepted machine progress next after)
    (member : spec ∈ specs) {clear later : List Declaration} {declaration : Declaration}
    (split : pending = clear ++ declaration :: later) (agree : Declaration.Agree clear)
    (apart : ∀ earlier, progress.Has specs earlier → ∀ other ∈ clear, ¬ earlier.Clashes other)
    {earlier : Declaration} (present : progress.Has specs earlier ∨ earlier ∈ clear)
    (clash : earlier.Clashes declaration) :
    accepted = clear ∧ ∃ error, next.stage spec.id = .failed error ∧
      next.store.Refused spec.id declaration error := by
  obtain ⟨more, start⟩ := advanced.clear_prefix member split agree apart
  have earlierHas : after.Has specs earlier := by
    refine (advanced.has_iff member).mpr (present.imp_right fun inside => ?_)
    exact start ▸ List.mem_append_left _ inside
  have unaccepted : declaration ∉ accepted := fun inside =>
    advanced.not_clashes earlierHas ((advanced.has_iff member).mpr (Or.inr inside)) clash
  have emerges := advanced.emerges
  rw [split] at emerges
  generalize whole : clear ++ declaration :: later = all at emerges
  cases emerges with
  | fully _ => exact absurd (whole ▸ by simp) unaccepted
  | @partly _ found tail error failed refused =>
    rcases append_cons_cases whole with ⟨rfl, rfl, _⟩ | ⟨between, late, _⟩ | ⟨between, early, _⟩
    · exact ⟨rfl, error, failed, refused⟩
    · exact absurd (late ▸ by simp) unaccepted
    · have longer := congrArg List.length start
      rw [early] at longer
      simp at longer

end Advanced

theorem Valid.complete (separate : Separate specs) (valid : Valid initial specs progress machine)
    {todo : List ToolchainSpec} (subset : ∀ spec ∈ todo, spec ∈ specs)
    (distinct : (todo.map ToolchainSpec.id).Nodup)
    (waiting : ∀ spec ∈ todo, machine.stage spec.id = .waiting)
    (agree : Declaration.Agree (todo.flatMap ToolchainSpec.declarations))
    (apart : ∀ earlier, progress.Has specs earlier →
      ∀ declaration ∈ todo.flatMap ToolchainSpec.declarations, ¬ earlier.Clashes declaration) :
    ∃ next after, Runs specs machine next ∧ Valid initial specs after next ∧
      next.Completed todo ∧
      (∀ toolchain ∉ todo.map ToolchainSpec.id,
        next.stage toolchain = machine.stage toolchain ∧
          after.declarations toolchain = progress.declarations toolchain) ∧
      ∀ declaration, after.Has specs declaration ↔ progress.Has specs declaration ∨
        declaration ∈ todo.flatMap ToolchainSpec.declarations := by
  induction todo generalizing machine progress with
  | nil => exact ⟨machine, progress, .refl, valid, by simp [Completed], by simp, by simp⟩
  | cons spec rest ih =>
    obtain ⟨other, distinct⟩ := List.nodup_cons.mp distinct
    have member := subset spec List.mem_cons_self
    have own : ∀ declaration ∈ spec.declarations,
        declaration ∈ (spec :: rest).flatMap ToolchainSpec.declarations :=
      fun _ inside => List.mem_flatMap.mpr ⟨spec, List.mem_cons_self, inside⟩
    have later : ∀ declaration ∈ rest.flatMap ToolchainSpec.declarations,
        declaration ∈ (spec :: rest).flatMap ToolchainSpec.declarations := by
      intro declaration inside
      rw [List.flatMap_cons]
      exact List.mem_append_right _ inside
    obtain ⟨accepted, middle, between, advanced⟩ := valid.launch separate member
      (waiting spec List.mem_cons_self) (List.append_nil spec.blocks).symm
    rw [← spec.declarations_eq] at advanced
    obtain ⟨rfl, scope, declaring⟩ := advanced.complete member (agree.subset own)
      fun earlier has declaration inside => apart earlier has declaration (own declaration inside)
    have different : ∀ further ∈ rest, further.id ≠ spec.id :=
      fun further inside same => other (same ▸ List.mem_map_of_mem inside)
    have stillWaiting : ∀ further ∈ rest, middle.stage further.id = .waiting := by
      intro further inside
      rw [advanced.stage _ (different further inside)]
      exact waiting further (List.mem_cons_of_mem _ inside)
    have stillApart : ∀ earlier, between.Has specs earlier →
        ∀ declaration ∈ rest.flatMap ToolchainSpec.declarations,
          ¬ earlier.Clashes declaration := by
      intro earlier has declaration inside
      rcases (advanced.has_iff member).mp has with old | new
      · exact apart earlier old declaration (later declaration inside)
      · exact agree earlier (own earlier new) declaration (later declaration inside)
    obtain ⟨next, after, runs, nextValid, completed, kept, has⟩ :=
      ih advanced.valid (fun further inside => subset further (List.mem_cons_of_mem _ inside)) distinct
        stillWaiting (agree.subset later) stillApart
    refine ⟨next, after, advanced.runs.trans runs, nextValid, ?_, ?_, ?_⟩
    · intro further inside
      rcases List.mem_cons.mp inside with rfl | inside
      · exact ⟨scope, (kept _ other).1.trans declaring⟩
      · exact completed further inside
    · intro toolchain outside
      simp only [List.map_cons, List.mem_cons, not_or] at outside
      obtain ⟨stage, same⟩ := kept toolchain outside.2
      exact ⟨stage.trans (advanced.stage toolchain outside.1),
        same.trans (advanced.others toolchain outside.1)⟩
    · intro declaration
      rw [has, advanced.has_iff member, List.flatMap_cons, List.mem_append, or_assoc]

theorem scopesInOrder_of_failed (distinct : (specs.map ToolchainSpec.id).Nodup)
    (member : spec ∈ specs) {error : ArgError} (failed : machine.stage spec.id = .failed error)
    (before : ∀ other ∈ specs, compare other.id spec.id = .lt →
      ∃ scope, machine.stage other.id = .declaring scope []) :
    Store.scopesInOrder (machine.outcomes specs) = .error error := by
  rw [Store.scopesInOrder_eq_error_iff (outcomes_distinct distinct machine)]
  have outcome : (spec.id, .error error) ∈ machine.outcomes specs :=
    mem_outcomes_iff.mpr ⟨spec, member, rfl, by simp [failed, Stage.outcome?]⟩
  refine ⟨spec.id, outcome, ?_⟩
  rintro ⟨_, result⟩ inside below
  obtain ⟨other, otherMember, rfl, ended⟩ := mem_outcomes_iff.mp inside
  obtain ⟨scope, declaring⟩ := before other otherMember below
  rw [declaring] at ended
  exact ⟨scope, (Option.some.inj ended).symm⟩

theorem exists_interleaves_of_failed (distinct : (specs.map ToolchainSpec.id).Nodup)
    (runs : Runs specs (start initial) machine) (member : spec ∈ specs) {error : ArgError}
    (failed : machine.stage spec.id = .failed error)
    (before : ∀ other ∈ specs, compare other.id spec.id = .lt →
      ∃ scope, machine.stage other.id = .declaring scope []) :
    ∃ final, Interleaves initial specs final ∧
      Store.scopesInOrder (final.outcomes specs) = .error error := by
  obtain ⟨final, later, finished, kept⟩ := exists_finished (fun _ => id) machine
  refine ⟨final, ⟨runs.trans later, finished⟩, ?_⟩
  have same : final.stage spec.id = .failed error := by
    rw [kept spec.id (by simp [failed, Stage.outcome?]), failed]
  refine scopesInOrder_of_failed distinct member same fun other otherMember below => ?_
  obtain ⟨scope, declaring⟩ := before other otherMember below
  exact ⟨scope, by rw [kept other.id (by simp [declaring, Stage.outcome?]), declaring]⟩

end Machine
end BuildArgs
