import BuildArgs.Proofs.Evaluation.Schedules
import BuildArgs.Proofs.Evaluation.StableReport

/-! If all interleavings return the same error, it is that of the first conflict in the order of
the toolchains, and no toolchain that is run ahead can bring up another one. -/

namespace BuildArgs

open Declaration (Agree)

namespace Refusal.FirstOf

variable {refusal : Refusal} {specs : List ToolchainSpec}

theorem not_held (first : refusal.FirstOf specs) : refusal.declaration ∉ refusal.held :=
  fun inside => first.agree _ first.earlier _ inside first.clash

theorem locate (first : refusal.FirstOf specs) {before after : List Declaration}
    {declaration : Declaration} (split : refusal.held = before ++ declaration :: after) :
    ∃ left spec right own later, specs = left ++ spec :: right ∧
      spec.declarations = own ++ declaration :: later ∧
      before = left.flatMap ToolchainSpec.declarations ++ own := by
  obtain ⟨lower, upper, own, later, listed, ownSplit, held⟩ := first.position
  have all : specs.flatMap ToolchainSpec.declarations = before ++ declaration ::
      (after ++ refusal.declaration :: later ++ upper.flatMap ToolchainSpec.declarations) := by
    have start : before ++ declaration :: after =
        lower.flatMap ToolchainSpec.declarations ++ own := split.symm.trans held
    rw [listed, List.flatMap_append, List.flatMap_cons, ownSplit]
    calc
      _ = (lower.flatMap ToolchainSpec.declarations ++ own) ++ (refusal.declaration :: later ++
          upper.flatMap ToolchainSpec.declarations) := by simp
      _ = _ := by rw [← start]; simp
  obtain ⟨left, spec, right, inner, outer, listed, ownSplit, same⟩ := exists_of_flatMap_eq all
  exact ⟨left, spec, right, inner, outer, listed, ownSplit, same⟩

theorem later_of_clash (first : refusal.FirstOf specs) (ascending : Ascending specs)
    {left right : List ToolchainSpec} {spec other : ToolchainSpec} {own later after : List Declaration}
    {declaration earlier : Declaration} (split : specs = left ++ spec :: right)
    (ownSplit : spec.declarations = own ++ declaration :: later)
    (held : refusal.held = left.flatMap ToolchainSpec.declarations ++ own ++ declaration :: after)
    (member : other ∈ specs) (alone : earlier ∈ other.alone)
    (clash : earlier.Clashes declaration) : compare spec.id other.id = .lt := by
  have here : declaration ∈ refusal.held := held ▸ by simp
  rcases List.mem_append.mp (split ▸ member) with inside | late
  · exfalso
    refine first.agree earlier ?_ declaration here clash
    have declared := other.alone_prefix.subset alone
    rw [held]
    exact List.mem_append_left _ (List.mem_append_left _
      (List.mem_flatMap.mpr ⟨other, inside, declared⟩))
  · rcases List.mem_cons.mp late with rfl | inside
    · exfalso
      have start : own ++ [declaration] <+: other.declarations := ⟨later, by simp [ownSplit]⟩
      have agree : Agree (own ++ [declaration]) := by
        refine first.agree.subset fun found there => ?_
        rw [held]
        simp only [List.mem_append, List.mem_cons, List.not_mem_nil, or_false] at there ⊢
        rcases there with there | there
        · exact Or.inl (Or.inr there)
        · exact Or.inr (Or.inl there)
      have accepted := (ToolchainSpec.prefix_alone start agree).subset (by simp : declaration ∈ _)
      exact other.agree_alone earlier alone declaration accepted clash
    · exact (List.pairwise_cons.mp (List.pairwise_append.mp (split ▸ ascending)).2.1).1 other inside

end Refusal.FirstOf

theorem ToolchainSpec.exists_block_of_alone {spec : ToolchainSpec}
    {before after : List Declaration} {declaration : Declaration}
    (split : spec.alone = before ++ declaration :: after) :
    ∃ done block more inner outer, spec.blocks = done ++ block :: more ∧
      block.declarations = inner ++ declaration :: outer ∧
      before = done.flatMap DeclareBlock.declarations ++ inner := by
  obtain ⟨unreached, start⟩ := spec.alone_prefix
  rw [split, spec.declarations_eq, List.append_assoc, List.cons_append] at start
  exact exists_of_flatMap_eq start.symm

namespace Machine

variable {initial : Store} {specs : List ToolchainSpec} {refusal : Refusal} {error : ArgError}
  {ahead : ToolchainSpec}

def Returns (initial : Store) (specs : List ToolchainSpec) (error : ArgError) : Prop :=
  ∀ machine, Interleaves initial specs machine →
    Store.scopesInOrder (machine.outcomes specs) = .error error

theorem Returns.eq_of_failed (returns : Returns initial specs error) (ascending : Ascending specs)
    {machine : Machine} (runs : Runs specs (start initial) machine)
    {left right : List ToolchainSpec} {spec : ToolchainSpec} (split : specs = left ++ spec :: right)
    {found : ArgError} (failed : machine.stage spec.id = .failed found)
    (completed : machine.Completed left) : found = error := by
  have before : ∀ other ∈ specs, compare other.id spec.id = .lt →
      ∃ scope, machine.stage other.id = .declaring scope [] :=
    fun other member below =>
      completed other ((split ▸ ascending).mem_left_of_lt (split ▸ member) below)
  obtain ⟨final, interleaves, result⟩ := exists_interleaves_of_failed ascending.distinct runs
    (split ▸ by simp) failed before
  rw [returns final interleaves] at result
  exact (Except.error.inj result).symm

theorem Returns.eq_report (returns : Returns initial specs error) (fresh : initial.Fresh)
    (separate : Separate specs) (ascending : Ascending specs) (first : refusal.FirstOf specs) :
    error = refusal.report := by
  obtain ⟨lower, upper, own, later, split, ownSplit, held⟩ := first.position
  have member := first.member
  have sorted := split ▸ ascending
  have outside := sorted.not_mem_before
  have lowerHeld : ∀ declaration ∈ lower.flatMap ToolchainSpec.declarations,
      declaration ∈ refusal.held := fun _ inside => held ▸ List.mem_append_left _ inside
  have ownHeld : ∀ declaration ∈ own, declaration ∈ refusal.held :=
    fun _ inside => held ▸ List.mem_append_right _ inside
  obtain ⟨machine, progress, runs, valid, completed, waiting, has⟩ :=
    exists_completed_first fresh separate (fun other inside => split ▸ by simp [inside])
      sorted.left.distinct (first.agree.subset lowerHeld)
  obtain ⟨accepted, next, after, advanced⟩ := valid.launch separate member
    (waiting _ outside) (List.append_nil refusal.spec.blocks).symm
  rw [← refusal.spec.declarations_eq] at advanced
  have clear : ∀ earlier, progress.Has specs earlier → ∀ declaration ∈ own,
      ¬ earlier.Clashes declaration := by
    intro earlier declared declaration inside
    exact first.agree earlier (lowerHeld earlier ((has earlier).mp declared)) declaration
      (ownHeld declaration inside)
  have present : progress.Has specs refusal.earlier ∨ refusal.earlier ∈ own := by
    rw [has, ← List.mem_append, ← held]
    exact first.earlier
  obtain ⟨rfl, found, stopped⟩ := advanced.stopped runs completed outside member ownSplit
    (first.agree.subset ownHeld) clear present first.clash
  rw [← returns.eq_of_failed ascending stopped.runs split stopped.failed stopped.completed]
  refine stopped.valid.report_of_refusal first.clash member
    ((advanced.has_iff member).mpr present) ?_ stopped.refused
  intro other otherMember above declared
  exfalso
  have idle : next.stage other.id = .waiting := by
    rw [advanced.stage _ (ne_of_compare_lt above).symm]
    exact waiting _ (sorted.not_mem_left (Std.OrientedCmp.not_lt_of_lt above))
  rw [stopped.valid.declarations_of_waiting otherMember idle] at declared
  cases declared

theorem same_of_report {declaration earlier : Declaration}
    (clash : earlier.Clashes declaration) (first : refusal.FirstOf specs)
    (same : ArgError.duplicateDeclaration declaration.name earlier.place declaration.place =
      refusal.report) :
    declaration = refusal.earlier ∧ earlier = refusal.declaration := by
  obtain ⟨name, place⟩ := declaration
  obtain ⟨earlierName, earlierPlace⟩ := earlier
  have names := first.clash.1
  have sameName := clash.1
  simp only [Refusal.report, ArgError.duplicateDeclaration.injEq] at same sameName
  obtain ⟨rfl, rfl, rfl⟩ := same
  subst sameName
  constructor
  · rw [← names]
  · rfl

theorem Returns.of_stopped (returns : Returns initial specs error) (fresh : initial.Fresh)
    (separate : Separate specs) (ascending : Ascending specs) (first : refusal.FirstOf specs)
    {left right : List ToolchainSpec} {spec : ToolchainSpec} (split : specs = left ++ spec :: right)
    {machine : Machine} {progress : Progress} {declaration : Declaration} {found : ArgError}
    (stopped : Stopped initial specs left spec declaration found machine progress)
    {tail : List Declaration}
    (held : refusal.held = left.flatMap ToolchainSpec.declarations ++
      progress.declarations spec.id ++ declaration :: tail) :
    declaration = refusal.earlier ∧ progress.Has specs refusal.declaration := by
  obtain ⟨other, otherMember, _, earlier, recorded, clash, rfl⟩ :=
    stopped.valid.overtaken ascending first split stopped.completed stopped.refused held
  have same :=
    returns.eq_of_failed ascending stopped.runs split stopped.failed stopped.completed
  rw [returns.eq_report fresh separate ascending first] at same
  obtain ⟨rfl, rfl⟩ := same_of_report clash first same
  exact ⟨rfl, other, otherMember, recorded⟩

theorem Returns.clashing (returns : Returns initial specs error) (fresh : initial.Fresh)
    (separate : Separate specs) (ascending : Ascending specs) (first : refusal.FirstOf specs)
    (member : ahead ∈ specs) {found : Declaration}
    (isFound : firstClash? refusal.held ahead.alone = some found) :
    found = refusal.earlier ∧ refusal.declaration ∈ ahead.alone := by
  obtain ⟨⟨cause, causeAlone, causeClash⟩, before, after, heldSplit, clear⟩ :=
    firstClash?_eq_some isFound
  obtain ⟨left, spec, right, own, later, split, ownSplit, rfl⟩ := first.locate heldSplit
  have above := first.later_of_clash ascending split ownSplit heldSplit member causeAlone causeClash
  have beforeHeld : ∀ declaration ∈ left.flatMap ToolchainSpec.declarations ++ own,
      declaration ∈ refusal.held := fun _ inside => heldSplit ▸ List.mem_append_left _ inside
  obtain ⟨machine, progress, result, stopped, declared, has⟩ :=
    exists_stopped_after fresh separate ascending split member above ownSplit
      (first.agree.subset beforeHeld) clear causeAlone causeClash
  obtain ⟨rfl, refused⟩ := returns.of_stopped fresh separate ascending first split stopped
    (declared ▸ heldSplit)
  exact ⟨rfl, (has _ refused).resolve_right fun inside => first.not_held (beforeHeld _ inside)⟩

/-- A later toolchain that declares what the refused declaration clashes with can be run ahead,
and then the conflict is reported the other way round. -/
theorem Returns.turned (returns : Returns initial specs error) (fresh : initial.Fresh)
    (separate : Separate specs) (ascending : Ascending specs) (first : refusal.FirstOf specs)
    (member : ahead ∈ specs) (above : compare refusal.spec.id ahead.id = .lt)
    (alone : refusal.earlier ∈ ahead.alone) : refusal.earlier ∈ refusal.spec.alone := by
  obtain ⟨lower, upper, own, later, split, ownSplit, held⟩ := first.position
  have free : ∀ declaration ∈ refusal.held, ∀ earlier ∈ ahead.alone,
      ¬ earlier.Clashes declaration := by
    intro declaration inside earlier earlierAlone clash
    obtain ⟨found, isFound⟩ := exists_firstClash? inside earlierAlone clash
    obtain ⟨rfl, _⟩ := returns.clashing fresh separate ascending first member isFound
    obtain ⟨⟨cause, causeAlone, causeClash⟩, _⟩ := firstClash?_eq_some isFound
    exact ahead.agree_alone cause causeAlone _ alone causeClash
  obtain ⟨machine, found, runs, completed, failed, blamed⟩ :=
    exists_stopped_early fresh separate ascending split member above ownSplit
      (held ▸ first.agree) (held ▸ free) alone first.clash
  have same := returns.eq_of_failed ascending runs split failed completed
  rw [returns.eq_report fresh separate ascending first] at same
  rcases blamed with ⟨earlier, recorded, clash⟩ | ⟨earlier, rfl⟩
  · have ownHeld : ∀ declaration ∈ own, declaration ∈ refusal.held :=
      fun _ inside => held ▸ List.mem_append_right _ inside
    have known : earlier = refusal.earlier := Declaration.eq_of_not_clashes
      (clash.1.trans first.clash.1.symm)
      (first.agree earlier (ownHeld earlier recorded) _ first.earlier)
    have start : own <+: refusal.spec.declarations := ⟨_, ownSplit.symm⟩
    exact (ToolchainSpec.prefix_alone start (first.agree.subset ownHeld)).subset
      (known ▸ recorded)
  · simp only [Refusal.report, ArgError.duplicateDeclaration.injEq] at same
    exact absurd same.2.2.symm first.clash.2

theorem name_lt_of_split {block : DeclareBlock} {before after : List Declaration}
    {first second : Declaration} (split : block.declarations = before ++ first :: after)
    (later : second ∈ after) : compare first.name second.name = .lt := by
  have ascending : block.declarations.Pairwise fun left right =>
      compare left.name right.name = .lt :=
    List.pairwise_map.mpr block.arguments.ascending
  rw [split] at ascending
  exact (List.pairwise_cons.mp (List.pairwise_append.mp ascending).2.1).1 second later

/-- A toolchain that runs ahead up to its first clash gets in the way of what it clashes with. -/
theorem Returns.refused (returns : Returns initial specs error) (fresh : initial.Fresh)
    (separate : Separate specs) (ascending : Ascending specs) (first : refusal.FirstOf specs)
    (member : ahead ∈ specs) {found : Declaration}
    (isFound : firstClash? ahead.alone refusal.held = some found) :
    found = refusal.declaration := by
  by_contra differ
  obtain ⟨⟨cause, causeHeld, causeClash⟩, start, rest, aloneSplit, startClear⟩ :=
    firstClash?_eq_some isFound
  have foundAlone : found ∈ ahead.alone := aloneSplit ▸ by simp
  have refusedAlone : refusal.declaration ∈ ahead.alone := by
    obtain ⟨other, isOther⟩ := exists_firstClash? causeHeld foundAlone causeClash.symm
    exact (returns.clashing fresh separate ascending first member isOther).2
  obtain ⟨target, isTarget⟩ := exists_firstClash? causeHeld (List.mem_singleton_self found)
    causeClash.symm
  obtain ⟨⟨other, same, clash⟩, before, after, heldSplit, beforeClear⟩ :=
    firstClash?_eq_some isTarget
  rw [List.mem_singleton.mp same] at clash
  have notEarlier : target ≠ refusal.earlier := by
    rintro rfl
    exact differ (Declaration.eq_of_not_clashes (clash.1.trans first.clash.1)
      (ahead.agree_alone _ foundAlone _ refusedAlone))
  obtain ⟨left, spec, right, own, later, split, ownSplit, rfl⟩ := first.locate heldSplit
  have above := first.later_of_clash ascending split ownSplit heldSplit member foundAlone clash
  rw [spec.declarations_eq] at ownSplit
  obtain ⟨done, block, more, inner, outer, blocks, blockSplit, rfl⟩ := exists_of_flatMap_eq ownSplit
  obtain ⟨aheadDone, aheadBlock, aheadMore, aheadInner, aheadOuter, aheadBlocks, aheadBlockSplit,
    rfl⟩ := ToolchainSpec.exists_block_of_alone aloneSplit
  have reached : ahead.blocks = (aheadDone ++ [aheadBlock]) ++ aheadMore := by
    rw [aheadBlocks]
    simp
  have pending : (aheadDone ++ [aheadBlock]).flatMap DeclareBlock.declarations =
      (aheadDone.flatMap DeclareBlock.declarations ++ aheadInner ++ [found]) ++ aheadOuter := by
    simp [aheadBlockSplit]
  have beforeHeld : ∀ declaration ∈ left.flatMap ToolchainSpec.declarations ++
      done.flatMap DeclareBlock.declarations ++ inner, declaration ∈ refusal.held := by
    intro declaration inside
    rw [heldSplit, ← List.append_assoc]
    exact List.mem_append_left _ inside
  have aheadAgree : Agree (aheadDone.flatMap DeclareBlock.declarations ++ aheadInner ++ [found]) :=
    ahead.agree_alone.subset fun _ inside => aloneSplit ▸ by
      rw [List.append_cons]
      exact List.mem_append_left _ inside
  have apart : ∀ earlier ∈ left.flatMap ToolchainSpec.declarations ++
      done.flatMap DeclareBlock.declarations, ∀ declaration ∈
        aheadDone.flatMap DeclareBlock.declarations ++ aheadInner ++ [found],
          ¬ earlier.Clashes declaration := by
    intro earlier early declaration inside
    rcases List.mem_append.mp inside with inStart | same
    · exact startClear declaration inStart earlier (beforeHeld earlier (List.mem_append_left _ early))
    · intro clash
      refine beforeClear earlier ?_ declaration same clash.symm
      rw [← List.append_assoc]
      exact List.mem_append_left _ early
  obtain ⟨machine, progress, result, hit, free, beyond, stopped, hitSplit, declared, place, has⟩ :=
    exists_stopped_within fresh separate ascending split member above blocks reached blockSplit
      (first.agree.subset beforeHeld) pending aheadAgree apart clash
  rcases place with ⟨rfl, rfl⟩ | ⟨gap, rfl, rfl⟩
  · exact notEarlier (returns.of_stopped fresh separate ascending first split stopped
      (declared ▸ heldSplit)).1
  · have hitHeld : refusal.held = left.flatMap ToolchainSpec.declarations ++
        progress.declarations spec.id ++ hit :: (gap ++ target :: after) := by
      rw [heldSplit, declared]
      simp
    obtain ⟨rfl, refusedHas⟩ :=
      returns.of_stopped fresh separate ascending first split stopped hitHeld
    -- the two conflicts would have to cross over in the two blocks, where names ascend
    have targetLater : compare refusal.earlier.name target.name = .lt :=
      name_lt_of_split hitSplit (by simp)
    have inPending := (has _ refusedHas).resolve_right fun inside => by
      apply first.not_held
      rw [hitHeld, declared, ← List.append_assoc]
      exact List.mem_append_left _ inside
    rw [pending, List.mem_append, List.mem_append, List.mem_singleton] at inPending
    rcases inPending with (early | same) | late
    · exact startClear _ early _ first.earlier first.clash
    · exact differ same.symm
    · have foundEarlier : compare found.name refusal.declaration.name = .lt :=
        name_lt_of_split aheadBlockSplit late
      rw [clash.1, ← first.clash.1] at foundEarlier
      exact Std.OrientedCmp.not_lt_of_lt targetLater foundEarlier

end Machine
end BuildArgs
