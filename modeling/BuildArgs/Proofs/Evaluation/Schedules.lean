import BuildArgs.Proofs.Evaluation.Advance
import BuildArgs.Proofs.Evaluation.Steadiness

/-! Schedules that let a toolchain run ahead of those before it, until one of them is stopped by
what it has declared. -/

namespace BuildArgs

open Declaration (Agree)

namespace Machine

variable {initial : Store} {specs left right : List ToolchainSpec} {spec ahead : ToolchainSpec}
  {declaration : Declaration} {error : ArgError} {progress : Progress} {machine : Machine}

/-- The toolchains before one have come to the end of their blocks when it was refused a
declaration. -/
structure Stopped (initial : Store) (specs left : List ToolchainSpec) (spec : ToolchainSpec)
    (declaration : Declaration) (error : ArgError) (machine : Machine) (progress : Progress) :
    Prop where
  runs : Runs specs (start initial) machine
  valid : Valid initial specs progress machine
  completed : machine.Completed left
  failed : machine.stage spec.id = .failed error
  refused : machine.store.Refused spec.id declaration error

theorem Advanced.stopped {rest : List DeclareBlock} {pending accepted clear later : List Declaration}
    {next : Machine} {after : Progress} {earlier : Declaration}
    (advanced : Advanced initial specs spec rest pending accepted machine progress next after)
    (runs : Runs specs (start initial) machine) (completed : machine.Completed left)
    (outside : spec.id ∉ left.map ToolchainSpec.id) (member : spec ∈ specs)
    (split : pending = clear ++ declaration :: later) (agree : Agree clear)
    (apart : ∀ earlier, progress.Has specs earlier → ∀ other ∈ clear, ¬ earlier.Clashes other)
    (present : progress.Has specs earlier ∨ earlier ∈ clear)
    (clash : earlier.Clashes declaration) :
    accepted = clear ∧ ∃ error, Stopped initial specs left spec declaration error next after := by
  obtain ⟨same, error, failed, refused⟩ :=
    advanced.refused member split agree apart present clash
  exact ⟨same, error, runs.trans advanced.runs, advanced.valid,
    advanced.completed outside completed, failed, refused⟩

theorem not_has_start (declaration : Declaration) :
    ¬ Progress.Has (fun _ => none) specs declaration := by
  rintro ⟨spec, _, declared⟩
  simp [Progress.declarations] at declared

theorem exists_completed_first (fresh : initial.Fresh) (separate : Separate specs)
    (subset : ∀ spec ∈ left, spec ∈ specs) (distinct : (left.map ToolchainSpec.id).Nodup)
    (agree : Agree (left.flatMap ToolchainSpec.declarations)) :
    ∃ machine progress, Runs specs (start initial) machine ∧
      Valid initial specs progress machine ∧ machine.Completed left ∧
      (∀ toolchain ∉ left.map ToolchainSpec.id, machine.stage toolchain = .waiting) ∧
      ∀ declaration, progress.Has specs declaration ↔
        declaration ∈ left.flatMap ToolchainSpec.declarations := by
  obtain ⟨machine, progress, runs, valid, completed, kept, has⟩ :=
    (valid_start fresh specs).complete separate subset distinct (fun _ _ => rfl) agree
      fun earlier declared => absurd declared (not_has_start earlier)
  refine ⟨machine, progress, runs, valid, completed, fun toolchain outside => ?_, fun declaration => ?_⟩
  · exact (kept toolchain outside).1
  · rw [has]
    exact or_iff_right (not_has_start declaration)

theorem exists_alone_first (fresh : initial.Fresh) (separate : Separate specs)
    (member : spec ∈ specs) :
    ∃ machine progress, Runs specs (start initial) machine ∧
      Valid initial specs progress machine ∧
      (∀ toolchain, toolchain ≠ spec.id → machine.stage toolchain = .waiting) ∧
      ∀ declaration, progress.Has specs declaration ↔ declaration ∈ spec.alone := by
  obtain ⟨accepted, machine, progress, advanced⟩ := (valid_start fresh specs).launch separate
    member rfl (List.append_nil spec.blocks).symm
  rw [← spec.declarations_eq] at advanced
  obtain ⟨later, split⟩ := spec.alone_prefix
  have atLeast := advanced.clear_prefix member split.symm spec.agree_alone
    fun earlier declared => absurd declared (not_has_start earlier)
  have own : progress.declarations spec.id = accepted := by
    rw [advanced.own]
    simp [Progress.declarations]
  have atMost := own ▸ advanced.valid.declared_prefix_alone member
  have same : accepted = spec.alone := atMost.eq_of_length_le atLeast.length_le
  refine ⟨machine, progress, advanced.runs, advanced.valid, advanced.stage, fun declaration => ?_⟩
  rw [advanced.has_iff member, same]
  exact or_iff_right (not_has_start declaration)

theorem exists_reached (fresh : initial.Fresh) (separate : Separate specs)
    (ascending : Ascending specs) (split : specs = left ++ spec :: right)
    {done rest : List DeclareBlock} (blocks : spec.blocks = done ++ rest)
    (agree : Agree (left.flatMap ToolchainSpec.declarations ++
      done.flatMap DeclareBlock.declarations)) :
    ∃ machine progress scope, Runs specs (start initial) machine ∧
      Valid initial specs progress machine ∧ machine.Completed left ∧
      machine.stage spec.id = .declaring scope rest ∧
      progress.declarations spec.id = done.flatMap DeclareBlock.declarations ∧
      (∀ toolchain ∉ left.map ToolchainSpec.id, toolchain ≠ spec.id →
        machine.stage toolchain = .waiting) ∧
      ∀ declaration, progress.Has specs declaration ↔
        declaration ∈ left.flatMap ToolchainSpec.declarations ++
          done.flatMap DeclareBlock.declarations := by
  have sorted := split ▸ ascending
  have member : spec ∈ specs := split ▸ by simp
  have outside := sorted.not_mem_before
  obtain ⟨machine, progress, runs, valid, completed, waiting, has⟩ :=
    exists_completed_first fresh separate (fun other inside => split ▸ by simp [inside])
      sorted.left.distinct (agree.subset fun _ => List.mem_append_left _)
  obtain ⟨accepted, next, after, advanced⟩ :=
    valid.launch separate member (waiting _ outside) blocks
  obtain ⟨rfl, scope, declaring⟩ := advanced.complete member
    (agree.subset fun _ => List.mem_append_right _)
    fun earlier declared declaration inside =>
      agree earlier (List.mem_append_left _ ((has earlier).mp declared)) declaration
        (List.mem_append_right _ inside)
  refine ⟨next, after, scope, runs.trans advanced.runs, advanced.valid,
    advanced.completed outside completed, declaring, ?_, ?_, ?_⟩
  · rw [advanced.own, valid.declarations_of_waiting member (waiting _ outside), List.nil_append]
  · intro toolchain apart different
    rw [advanced.stage _ different]
    exact waiting toolchain apart
  · intro declaration
    rw [advanced.has_iff member, has, List.mem_append]

theorem exists_stopped_after (fresh : initial.Fresh) (separate : Separate specs)
    (ascending : Ascending specs) (split : specs = left ++ spec :: right) (member : ahead ∈ specs)
    (above : compare spec.id ahead.id = .lt) {own later : List Declaration} {cause : Declaration}
    (ownSplit : spec.declarations = own ++ declaration :: later)
    (agree : Agree (left.flatMap ToolchainSpec.declarations ++ own))
    (clear : ∀ declaration ∈ left.flatMap ToolchainSpec.declarations ++ own,
      ∀ other ∈ ahead.alone, ¬ other.Clashes declaration)
    (causeIn : cause ∈ ahead.alone) (clash : cause.Clashes declaration) :
    ∃ machine progress error,
      Stopped initial specs left spec declaration error machine progress ∧
      progress.declarations spec.id = own ∧
      ∀ declaration, progress.Has specs declaration →
        declaration ∈ ahead.alone ∨ declaration ∈ left.flatMap ToolchainSpec.declarations ++ own := by
  have sorted := split ▸ ascending
  have specMember : spec ∈ specs := split ▸ by simp
  have outside := sorted.not_mem_before
  have aheadOutside := sorted.not_mem_left (Std.OrientedCmp.not_lt_of_lt above)
  obtain ⟨machine, progress, runs, valid, waiting, has⟩ :=
    exists_alone_first fresh separate member
  have leftWaiting : ∀ other ∈ left, machine.stage other.id = .waiting := by
    intro other inside
    exact waiting _ fun same => aheadOutside (same ▸ List.mem_map_of_mem inside)
  obtain ⟨middle, between, moreRuns, middleValid, completed, kept, middleHas⟩ :=
    valid.complete separate (fun other inside => split ▸ by simp [inside]) sorted.left.distinct
      leftWaiting (agree.subset fun _ => List.mem_append_left _)
      fun earlier declared declaration inside =>
        clear declaration (List.mem_append_left _ inside) earlier ((has earlier).mp declared)
  have specWaiting : middle.stage spec.id = .waiting := by
    rw [(kept _ outside).1, waiting _ (ne_of_compare_lt above)]
  obtain ⟨accepted, next, after, advanced⟩ := middleValid.launch separate specMember specWaiting
    (List.append_nil spec.blocks).symm
  rw [← spec.declarations_eq] at advanced
  have ownClear : ∀ earlier, between.Has specs earlier → ∀ declaration ∈ own,
      ¬ earlier.Clashes declaration := by
    intro earlier declared declaration inside
    rcases (middleHas earlier).mp declared with alone | lower
    · exact clear declaration (List.mem_append_right _ inside) earlier ((has earlier).mp alone)
    · exact agree earlier (List.mem_append_left _ lower) declaration
        (List.mem_append_right _ inside)
  have present : between.Has specs cause :=
    (middleHas cause).mpr (Or.inl ((has cause).mpr causeIn))
  obtain ⟨rfl, error, stopped⟩ := advanced.stopped (runs.trans moreRuns) completed outside
    specMember ownSplit (agree.subset fun _ => List.mem_append_right _) ownClear (Or.inl present)
    clash
  refine ⟨next, after, error, stopped, ?_, fun declaration declared => ?_⟩
  · rw [advanced.own, middleValid.declarations_of_waiting specMember specWaiting, List.nil_append]
  · rw [List.mem_append, ← has, ← or_assoc, ← middleHas]
    exact (advanced.has_iff specMember).mp declared

/-- A toolchain is stopped by a later one before those that come before it have begun. Unless
it clashes with itself, the later declaration is then the one that is reported. -/
theorem exists_stopped_early (fresh : initial.Fresh) (separate : Separate specs)
    (ascending : Ascending specs) (split : specs = left ++ spec :: right) (member : ahead ∈ specs)
    (above : compare spec.id ahead.id = .lt) {own later : List Declaration} {cause : Declaration}
    (ownSplit : spec.declarations = own ++ declaration :: later)
    (agree : Agree (left.flatMap ToolchainSpec.declarations ++ own))
    (clear : ∀ declaration ∈ left.flatMap ToolchainSpec.declarations ++ own,
      ∀ other ∈ ahead.alone, ¬ other.Clashes declaration)
    (causeIn : cause ∈ ahead.alone) (clash : cause.Clashes declaration) :
    ∃ machine error, Runs specs (start initial) machine ∧ machine.Completed left ∧
      machine.stage spec.id = .failed error ∧
      ((∃ earlier ∈ own, earlier.Clashes declaration) ∨
        ∃ earlier : Declaration,
          error = .duplicateDeclaration declaration.name earlier.place declaration.place) := by
  have sorted := split ▸ ascending
  have specMember : spec ∈ specs := split ▸ by simp
  have outside := sorted.not_mem_before
  have aheadOutside := sorted.not_mem_left (Std.OrientedCmp.not_lt_of_lt above)
  obtain ⟨machine, progress, runs, valid, waiting, has⟩ :=
    exists_alone_first fresh separate member
  have specWaiting := waiting _ (ne_of_compare_lt above)
  obtain ⟨accepted, middle, between, advanced⟩ := valid.launch separate specMember specWaiting
    (List.append_nil spec.blocks).symm
  rw [← spec.declarations_eq] at advanced
  have ownClear : ∀ earlier, progress.Has specs earlier → ∀ declaration ∈ own,
      ¬ earlier.Clashes declaration :=
    fun earlier declared declaration inside =>
      clear declaration (List.mem_append_right _ inside) earlier ((has earlier).mp declared)
  obtain ⟨rfl, error, failed, refused⟩ := advanced.refused specMember ownSplit
    (agree.subset fun _ => List.mem_append_right _) ownClear (Or.inl ((has _).mpr causeIn)) clash
  have leftWaiting : ∀ other ∈ left, middle.stage other.id = .waiting := by
    intro other inside
    rw [advanced.stage_of_mem outside inside]
    exact waiting _ fun same => aheadOutside (same ▸ List.mem_map_of_mem inside)
  have leftClear : ∀ earlier, between.Has specs earlier →
      ∀ declaration ∈ left.flatMap ToolchainSpec.declarations, ¬ earlier.Clashes declaration := by
    intro earlier declared declaration inside
    rcases (advanced.has_iff specMember).mp declared with old | new
    · exact clear declaration (List.mem_append_left _ inside) earlier ((has earlier).mp old)
    · exact agree earlier (List.mem_append_right _ new) declaration (List.mem_append_left _ inside)
  obtain ⟨next, after, moreRuns, _, completed, kept, _⟩ := advanced.valid.complete separate
    (fun other inside => split ▸ by simp [inside]) sorted.left.distinct leftWaiting
    (agree.subset fun _ => List.mem_append_left _) leftClear
  refine ⟨next, error, runs.trans (advanced.runs.trans moreRuns), completed, ?_, ?_⟩
  · rw [(kept _ outside).1, failed]
  · cases refused with
    | @own earlier declares clash =>
      have recorded := (advanced.valid.reflects.declares_iff specMember _).mp declares
      rw [advanced.own, valid.declarations_of_waiting specMember specWaiting,
        List.nil_append] at recorded
      exact Or.inl ⟨earlier, recorded, clash⟩
    | @lower toolchain earlier _ below declares clash =>
      obtain ⟨other, otherMember, rfl, recorded⟩ :=
        advanced.valid.reflects.exists_of_declares declares
      have inside := sorted.mem_left_of_lt (split ▸ otherMember) below
      rw [advanced.valid.declarations_of_waiting otherMember (leftWaiting other inside)] at recorded
      cases recorded
    | @upper toolchain earlier _ _ _ _ => exact Or.inr ⟨earlier, rfl⟩

theorem exists_ahead_of (fresh : initial.Fresh) (separate : Separate specs)
    (ascending : Ascending specs) (split : specs = left ++ spec :: right) (member : ahead ∈ specs)
    (above : compare spec.id ahead.id = .lt) {done more aheadDone aheadMore : List DeclareBlock}
    (blocks : spec.blocks = done ++ more) (aheadBlocks : ahead.blocks = aheadDone ++ aheadMore)
    (agree : Agree (left.flatMap ToolchainSpec.declarations ++
      done.flatMap DeclareBlock.declarations))
    {clear later : List Declaration}
    (pending : aheadDone.flatMap DeclareBlock.declarations = clear ++ later)
    (aheadAgree : Agree clear)
    (apart : ∀ earlier ∈ left.flatMap ToolchainSpec.declarations ++
      done.flatMap DeclareBlock.declarations, ∀ declaration ∈ clear,
        ¬ earlier.Clashes declaration) :
    ∃ machine progress scope accepted, Runs specs (start initial) machine ∧
      Valid initial specs progress machine ∧ machine.Completed left ∧
      machine.stage spec.id = .declaring scope more ∧
      progress.declarations spec.id = done.flatMap DeclareBlock.declarations ∧
      clear <+: accepted ∧ accepted <+: aheadDone.flatMap DeclareBlock.declarations ∧
      ∀ declaration, progress.Has specs declaration ↔
        declaration ∈ left.flatMap ToolchainSpec.declarations ++
          done.flatMap DeclareBlock.declarations ∨ declaration ∈ accepted := by
  have sorted := split ▸ ascending
  have aheadOutside := sorted.not_mem_left (Std.OrientedCmp.not_lt_of_lt above)
  have different := ne_of_compare_lt above
  obtain ⟨machine, progress, scope, runs, valid, completed, declaring, declared, waiting, has⟩ :=
    exists_reached fresh separate ascending split blocks agree
  obtain ⟨accepted, next, after, advanced⟩ :=
    valid.launch separate member (waiting _ aheadOutside different.symm) aheadBlocks
  have through := advanced.clear_prefix member pending aheadAgree
    fun earlier held => apart earlier ((has earlier).mp held)
  refine ⟨next, after, scope, accepted, runs.trans advanced.runs, advanced.valid,
    advanced.completed aheadOutside completed, ?_, ?_, through, advanced.accepted_prefix, ?_⟩
  · rw [advanced.stage _ different, declaring]
  · rw [advanced.others _ different, declared]
  · intro declaration
    rw [advanced.has_iff member, has]

/-- A toolchain pauses before a block, and is stopped within it by a later one that has come up
to the end of one of its own blocks in the meantime. -/
theorem exists_stopped_within (fresh : initial.Fresh) (separate : Separate specs)
    (ascending : Ascending specs) (split : specs = left ++ spec :: right) (member : ahead ∈ specs)
    (above : compare spec.id ahead.id = .lt)
    {done more aheadDone aheadMore : List DeclareBlock} {block : DeclareBlock}
    (blocks : spec.blocks = done ++ block :: more) (aheadBlocks : ahead.blocks = aheadDone ++ aheadMore)
    {inner outer clear later : List Declaration} {target found : Declaration}
    (blockSplit : block.declarations = inner ++ target :: outer)
    (agree : Agree (left.flatMap ToolchainSpec.declarations ++
      done.flatMap DeclareBlock.declarations ++ inner))
    (pending : aheadDone.flatMap DeclareBlock.declarations = (clear ++ [found]) ++ later)
    (aheadAgree : Agree (clear ++ [found]))
    (apart : ∀ earlier ∈ left.flatMap ToolchainSpec.declarations ++
      done.flatMap DeclareBlock.declarations, ∀ declaration ∈ clear ++ [found],
        ¬ earlier.Clashes declaration)
    (clash : found.Clashes target) :
    ∃ machine progress error hit free rest,
      Stopped initial specs left spec hit error machine progress ∧
      block.declarations = free ++ hit :: rest ∧
      progress.declarations spec.id = done.flatMap DeclareBlock.declarations ++ free ∧
      (free = inner ∧ hit = target ∨
        ∃ between, inner = free ++ hit :: between ∧ rest = between ++ target :: outer) ∧
      ∀ declaration, progress.Has specs declaration →
        declaration ∈ aheadDone.flatMap DeclareBlock.declarations ∨
          declaration ∈ left.flatMap ToolchainSpec.declarations ++
            done.flatMap DeclareBlock.declarations ++ free := by
  have specMember : spec ∈ specs := split ▸ by simp
  obtain ⟨machine, progress, scope, accepted, runs, valid, completed, declaring, declared,
    through, upTo, has⟩ := exists_ahead_of fresh separate ascending split member above blocks
      aheadBlocks (agree.subset fun _ => List.mem_append_left _) pending aheadAgree apart
  have foundAccepted : found ∈ accepted := through.subset (by simp)
  have single : machine.stage spec.id = .declaring scope ([block] ++ more) := declaring
  obtain ⟨yielded, next, after, resumed⟩ := valid.advance separate specMember single
  have targetIn : target ∈ block.declarations := blockSplit ▸ by simp
  obtain ⟨hit, isHit⟩ := exists_firstClash? targetIn foundAccepted clash
  obtain ⟨⟨cause, causeAccepted, causeClash⟩, _⟩ := firstClash?_eq_some isHit
  obtain ⟨free, rest, hitSplit, hitClear, place⟩ :=
    firstClash?_before isHit blockSplit foundAccepted clash
  have freeInner : ∀ declaration ∈ free, declaration ∈ inner := by
    rcases place with ⟨rfl, _⟩ | ⟨gap, rfl, _⟩
    · exact fun _ => id
    · exact fun _ => List.mem_append_left _
  have resumedClear : ∀ earlier, progress.Has specs earlier → ∀ declaration ∈ free,
      ¬ earlier.Clashes declaration := by
    intro earlier earlierHas declaration inside
    rcases (has earlier).mp earlierHas with old | new
    · exact agree earlier (List.mem_append_left _ old) declaration
        (List.mem_append_right _ (freeInner declaration inside))
    · exact hitClear declaration inside earlier new
  have row : [block].flatMap DeclareBlock.declarations = free ++ hit :: rest := by
    simp [hitSplit]
  obtain ⟨rfl, error, stopped⟩ := resumed.stopped runs completed (split ▸ ascending).not_mem_before
    specMember row (agree.subset fun _ inside => List.mem_append_right _ (freeInner _ inside))
    resumedClear (Or.inl ((has cause).mpr (Or.inr causeAccepted))) causeClash
  refine ⟨next, after, error, hit, yielded, rest, stopped, hitSplit, ?_, place, ?_⟩
  · rw [resumed.own, declared]
  · intro declaration declarationHas
    rw [List.mem_append]
    rcases (resumed.has_iff specMember).mp declarationHas with old | new
    · rcases (has declaration).mp old with older | there
      · exact Or.inr (Or.inl older)
      · exact Or.inl (upTo.subset there)
    · exact Or.inr (Or.inr new)

end Machine
end BuildArgs
