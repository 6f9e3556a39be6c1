import BuildArgs.Proofs.Evaluation.Advance
import BuildArgs.Proofs.Evaluation.Steadiness

/-! If no toolchain can bring up another conflict than the first one in the order of the
toolchains, every interleaving returns the report of that one. -/

namespace BuildArgs

open Declaration (Agree)

namespace Machine

variable {initial : Store} {specs : List ToolchainSpec} {progress : Progress} {machine : Machine}
  {spec : ToolchainSpec} {refusal : Refusal}

theorem Valid.error_of_later (valid : Valid initial specs progress machine)
    (member : spec ∈ specs) {declaration : Declaration} {error : ArgError}
    (refused : machine.store.Refused spec.id declaration error)
    (clear : ∀ other ∈ specs, compare spec.id other.id ≠ .lt →
      ∀ earlier ∈ progress.declarations other.id, ¬ earlier.Clashes declaration) :
    ∃ other ∈ specs, compare spec.id other.id = .lt ∧
      ∃ earlier ∈ progress.declarations other.id, earlier.Clashes declaration ∧
        error = .duplicateDeclaration declaration.name earlier.place declaration.place := by
  cases refused with
  | own declares clash =>
    exfalso
    have recorded := (valid.reflects.declares_iff member _).mp declares
    exact clear spec member (by simp [Std.ReflOrd.compare_self]) _ recorded clash
  | lower _ below declares clash =>
    exfalso
    obtain ⟨other, otherMember, rfl, recorded⟩ := valid.reflects.exists_of_declares declares
    exact clear other otherMember (Std.OrientedCmp.not_lt_of_lt below) _ recorded clash
  | @upper toolchain earlier _ above declares clash =>
    obtain ⟨other, otherMember, rfl, recorded⟩ := valid.reflects.exists_of_declares declares
    exact ⟨other, otherMember, Std.OrientedCmp.lt_of_gt above, earlier, recorded, clash, rfl⟩

theorem Valid.declarations_of_completed (valid : Valid initial specs progress machine)
    (member : spec ∈ specs) (completed : ∃ scope, machine.stage spec.id = .declaring scope []) :
    progress.declarations spec.id = spec.declarations := by
  obtain ⟨scope, declaring⟩ := completed
  simpa using (valid.declarations_of_declaring member declaring).symm

/-- A toolchain that fails at a declaration which is accepted in the order of the toolchains was
overtaken by a later one. -/
theorem Valid.overtaken (valid : Valid initial specs progress machine)
    (ascending : Ascending specs) (first : refusal.FirstOf specs)
    {left right : List ToolchainSpec} (split : specs = left ++ spec :: right)
    (completed : machine.Completed left)
    {declaration : Declaration} {error : ArgError}
    (refused : machine.store.Refused spec.id declaration error) {tail : List Declaration}
    (held : refusal.held = left.flatMap ToolchainSpec.declarations ++
      progress.declarations spec.id ++ declaration :: tail) :
    ∃ other ∈ specs, compare spec.id other.id = .lt ∧
      ∃ earlier ∈ progress.declarations other.id, earlier.Clashes declaration ∧
        error = .duplicateDeclaration declaration.name earlier.place declaration.place := by
  apply valid.error_of_later (split ▸ by simp) refused
  intro other otherMember notAbove earlier recorded
  have inHeld : earlier ∈ refusal.held := by
    rw [held]
    apply List.mem_append_left
    rcases (split ▸ ascending).mem_of_not_lt (split ▸ otherMember) notAbove with inside | rfl
    · rw [valid.declarations_of_completed otherMember (completed other inside)] at recorded
      exact List.mem_append_left _ (List.mem_flatMap.mpr ⟨other, inside, recorded⟩)
    · exact List.mem_append_right _ recorded
  exact first.agree earlier inHeld declaration (held ▸ by simp)

/-- If all toolchains are steady, the conflict with the later toolchain is the one that the
refusal names. -/
theorem Valid.report_of_overtaken (valid : Valid initial specs progress machine)
    (ascending : Ascending specs) (steady : ∀ spec ∈ specs, refusal.SteadyFor spec)
    (first : refusal.FirstOf specs) {left right : List ToolchainSpec}
    (split : specs = left ++ spec :: right)
    (completed : machine.Completed left)
    {declaration : Declaration} {error : ArgError}
    (refused : machine.store.Refused spec.id declaration error)
    {tail : List Declaration}
    (held : refusal.held = left.flatMap ToolchainSpec.declarations ++
      progress.declarations spec.id ++ declaration :: tail) :
    error = refusal.report := by
  obtain ⟨other, otherMember, above, earlier, recorded, clash, rfl⟩ :=
    valid.overtaken ascending first split completed refused held
  have here : declaration ∈ refusal.held := held ▸ by simp
  have alone := valid.declared_prefix_alone otherMember
  have earlierAlone : earlier ∈ other.alone := alone.subset recorded
  obtain ⟨found, isFound⟩ := exists_firstClash? earlierAlone here clash.symm
  obtain rfl := (steady other otherMember).refused found isFound
  obtain ⟨_, before, after, aloneSplit, aloneClear⟩ := firstClash?_eq_some isFound
  have notBefore : earlier ∉ before := fun inside =>
    aloneClear earlier inside declaration here clash.symm
  have refusedDeclared := mem_of_prefix alone aloneSplit recorded notBefore
  have refusedAlone : refusal.declaration ∈ other.alone := alone.subset refusedDeclared
  obtain ⟨found, isFound⟩ := exists_firstClash? here earlierAlone clash
  obtain rfl := (steady other otherMember).clashing found isFound
  obtain ⟨_, before, after, heldSplit, heldClear⟩ := firstClash?_eq_some isFound
  have same : declaration = refusal.earlier := by
    rcases append_cons_cases (held.symm.trans heldSplit) with
      ⟨_, same, _⟩ | ⟨between, early, _⟩ | ⟨between, late, _⟩
    · exact same
    · exact absurd clash (heldClear declaration (early ▸ by simp) earlier earlierAlone)
    · exfalso
      have declared : refusal.earlier ∈ left.flatMap ToolchainSpec.declarations ++
          progress.declarations spec.id := late ▸ by simp
      rcases List.mem_append.mp declared with inside | inside
      · obtain ⟨owner, ownerIn, owned⟩ := List.mem_flatMap.mp inside
        have ownerMember : owner ∈ specs := split ▸ by simp [ownerIn]
        rw [← valid.declarations_of_completed ownerMember (completed owner ownerIn)] at owned
        exact valid.agree_declared ownerMember otherMember owned refusedDeclared first.clash
      · exact valid.agree_declared (split ▸ by simp) otherMember inside refusedDeclared first.clash
  subst same
  have sameName : earlier.name = refusal.declaration.name :=
    clash.1.trans first.clash.1
  have sameRefused : earlier = refusal.declaration :=
    Declaration.eq_of_not_clashes sameName
      (other.agree_alone earlier earlierAlone _ refusedAlone)
  rw [sameRefused, Refusal.report, first.clash.1]

theorem mem_own_of_mem_alone {own later : List Declaration} {declaration earlier : Declaration}
    (split : spec.declarations = own ++ declaration :: later) (inside : earlier ∈ spec.alone)
    (clash : earlier.Clashes declaration) : earlier ∈ own := by
  by_contra outside
  have accepted := mem_of_prefix spec.alone_prefix split inside outside
  exact spec.agree_alone earlier inside declaration accepted clash

theorem Valid.report_of_refusal (valid : Valid initial specs progress machine)
    (clash : refusal.earlier.Clashes refusal.declaration) (member : refusal.spec ∈ specs)
    (present : progress.Has specs refusal.earlier)
    (straight : ∀ other ∈ specs, compare refusal.spec.id other.id = .lt →
      refusal.earlier ∈ progress.declarations other.id →
        refusal.earlier ∈ progress.declarations refusal.spec.id)
    {error : ArgError}
    (refused : machine.store.Refused refusal.spec.id refusal.declaration error) :
    error = refusal.report := by
  obtain ⟨owner, ownerMember, owned⟩ := present
  have unique : ∀ other ∈ specs, ∀ found ∈ progress.declarations other.id,
      found.Clashes refusal.declaration → found = refusal.earlier := by
    intro other otherMember found recorded foundClash
    exact Declaration.eq_of_not_clashes (foundClash.1.trans clash.1.symm)
      (valid.agree_declared otherMember ownerMember recorded owned)
  cases refused with
  | @own found declares foundClash =>
    have recorded := (valid.reflects.declares_iff member _).mp declares
    rw [unique _ member found recorded foundClash, Refusal.report]
  | @lower toolchain found _ below declares foundClash =>
    obtain ⟨other, otherMember, rfl, recorded⟩ := valid.reflects.exists_of_declares declares
    rw [unique other otherMember found recorded foundClash, Refusal.report]
  | @upper toolchain found clear above declares foundClash =>
    exfalso
    obtain ⟨other, otherMember, rfl, recorded⟩ := valid.reflects.exists_of_declares declares
    rw [unique other otherMember found recorded foundClash] at recorded
    have ownDeclared := straight other otherMember (Std.OrientedCmp.lt_of_gt above) recorded
    exact clear _ ((valid.reflects.declares_iff member _).mpr ownDeclared) clash

theorem Finished.failed (finished : machine.Finished specs) (member : spec ∈ specs)
    (unfinished : ¬ ∃ scope, machine.stage spec.id = .declaring scope []) :
    ∃ error, machine.stage spec.id = .failed error := by
  obtain ⟨outcome, done⟩ := Option.isSome_iff_exists.mp (finished spec member)
  rcases Stage.of_outcome? done with ⟨error, failed, _⟩ | ⟨scope, declaring, _⟩
  · exact ⟨error, failed⟩
  · exact absurd ⟨scope, declaring⟩ unfinished

theorem Valid.has_earlier (valid : Valid initial specs progress machine)
    (first : refusal.FirstOf specs) {lower upper : List ToolchainSpec} {own : List Declaration}
    (split : specs = lower ++ refusal.spec :: upper)
    (held : refusal.held = lower.flatMap ToolchainSpec.declarations ++ own)
    (completed : machine.Completed lower)
    (reached : ∀ declaration ∈ own, declaration ∈ progress.declarations refusal.spec.id) :
    progress.Has specs refusal.earlier := by
  rcases List.mem_append.mp (held ▸ first.earlier) with inside | inside
  · obtain ⟨owner, ownerIn, owned⟩ := List.mem_flatMap.mp inside
    have ownerMember : owner ∈ specs := split ▸ by simp [ownerIn]
    rw [← valid.declarations_of_completed ownerMember (completed owner ownerIn)] at owned
    exact ⟨owner, ownerMember, owned⟩
  · exact ⟨refusal.spec, first.member, reached _ inside⟩

theorem Valid.not_declared_of_has (valid : Valid initial specs progress machine)
    (first : refusal.FirstOf specs) (present : progress.Has specs refusal.earlier) :
    refusal.declaration ∉ progress.declarations refusal.spec.id := by
  intro accepted
  obtain ⟨owner, ownerMember, owned⟩ := present
  exact valid.agree_declared ownerMember first.member owned accepted first.clash

theorem Valid.failed_with_report (valid : Valid initial specs progress machine)
    (ascending : Ascending specs) (steady : ∀ spec ∈ specs, refusal.SteadyFor spec)
    (first : refusal.FirstOf specs) (finished : machine.Finished specs)
    {lower upper : List ToolchainSpec} {own later : List Declaration}
    (split : specs = lower ++ refusal.spec :: upper)
    (ownSplit : refusal.spec.declarations = own ++ refusal.declaration :: later)
    (held : refusal.held = lower.flatMap ToolchainSpec.declarations ++ own)
    (completed : machine.Completed lower) :
    machine.stage refusal.spec.id = .failed refusal.report := by
  have unaccepted : (∀ declaration ∈ own, declaration ∈ progress.declarations refusal.spec.id) →
      refusal.declaration ∉ progress.declarations refusal.spec.id :=
    fun reached => valid.not_declared_of_has first
      (valid.has_earlier first split held completed reached)
  have unfinished : ¬ ∃ scope, machine.stage refusal.spec.id = .declaring scope [] := by
    intro complete
    rw [valid.declarations_of_completed first.member complete, ownSplit] at unaccepted
    exact unaccepted (fun _ inside => List.mem_append_left _ inside) (by simp)
  obtain ⟨error, failed⟩ := finished.failed first.member unfinished
  obtain ⟨declaration, tail, declarations, refused⟩ :=
    valid.declarations_of_failed first.member failed
  suffices error = refusal.report from this ▸ failed
  rcases append_cons_cases (declarations.symm.trans ownSplit) with
    ⟨same, rfl, rfl⟩ | ⟨between, early, _⟩ | ⟨between, late, _⟩
  · have present := valid.has_earlier first split held completed fun _ inside => same ▸ inside
    refine valid.report_of_refusal first.clash first.member present ?_ refused
    intro other otherMember above declared
    have alone := (valid.declared_prefix_alone otherMember).subset declared
    exact mem_own_of_mem_alone declarations ((steady other otherMember).turned above alone)
      first.clash
  · have overtaken : refusal.held = lower.flatMap ToolchainSpec.declarations ++
        progress.declarations refusal.spec.id ++ declaration :: between := by
      rw [held, early, List.append_assoc]
    exact valid.report_of_overtaken ascending steady first split completed refused overtaken
  · rw [late] at unaccepted
    exact absurd (by simp) (unaccepted fun _ inside => List.mem_append_left _ inside)

theorem Valid.returns_of_steady (valid : Valid initial specs progress machine)
    (ascending : Ascending specs) (steady : ∀ spec ∈ specs, refusal.SteadyFor spec)
    (first : refusal.FirstOf specs) (finished : machine.Finished specs) :
    Store.scopesInOrder (machine.outcomes specs) = .error refusal.report := by
  obtain ⟨lower, upper, own, later, split, ownSplit, held⟩ := first.position
  have decided : ∀ left spec right, specs = left ++ spec :: right → machine.Completed left →
      machine.stage spec.id = .failed refusal.report →
      Store.scopesInOrder (machine.outcomes specs) = .error refusal.report := by
    intro left spec right here completed failed
    refine scopesInOrder_of_failed ascending.distinct (here ▸ by simp) failed ?_
    intro other otherMember below
    exact completed other ((here ▸ ascending).mem_left_of_lt (here ▸ otherMember) below)
  by_cases completed : machine.Completed lower
  · exact decided lower refusal.spec upper split completed
      (valid.failed_with_report ascending steady first finished split ownSplit held completed)
  · obtain ⟨left, spec, right, rfl, unfinished, before⟩ := exists_first_not completed
    have here : specs = left ++ spec :: (right ++ refusal.spec :: upper) := by simpa using split
    have member : spec ∈ specs := here ▸ by simp
    obtain ⟨error, failed⟩ := finished.failed member unfinished
    obtain ⟨declaration, tail, declarations, refused⟩ := valid.declarations_of_failed member failed
    have overtaken : refusal.held = left.flatMap ToolchainSpec.declarations ++
        progress.declarations spec.id ++
          declaration :: (tail ++ right.flatMap ToolchainSpec.declarations ++ own) := by
      rw [held, List.flatMap_append, List.flatMap_cons, declarations]
      simp
    obtain rfl :=
      valid.report_of_overtaken ascending steady first here before refused overtaken
    exact decided left spec _ here before failed

end Machine
end BuildArgs
