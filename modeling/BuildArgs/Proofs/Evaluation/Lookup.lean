import BuildArgs.Proofs.Evaluation.Advance
import BuildArgs.Proofs.Evaluation.ScheduleIndependence

/-! Looking names up after an evaluation. The record of supplied values comes first, and of several
toolchains that bring a value for a name it has that of the one that was prepared last. So what is
found depends on the schedule exactly if two of them bring different values. -/

namespace BuildArgs

namespace Store

theorem supplied_runToolchain (store : Store) (spec : ToolchainSpec) :
    (store.runToolchain spec).store.supplied = store.supplied.insertAll spec.overrides := by
  simp only [runToolchain, declareBlocks_eq_declareEach]
  rw [declareEach_store]
  rfl

theorem supplied_runToolchains (store : Store) (specs : List ToolchainSpec) :
    (store.runToolchains specs).1.supplied =
      store.supplied.insertList (specs.flatMap fun spec => spec.overrides.entries) := by
  induction specs generalizing store with
  | nil => rfl
  | cons spec rest ih =>
    rw [List.flatMap_cons, SortedMap.insertList_append]
    have later := ih (store.runToolchain spec).store
    rw [supplied_runToolchain] at later
    exact later

theorem find?_of_last (store : Store) (others : List ToolchainSpec) {spec : ToolchainSpec}
    {name : String} {value : Value} (brought : spec.overrides.get? name = some value) :
    (store.runToolchains (others ++ [spec])).1.find? name = some value := by
  have recorded : (store.runToolchains (others ++ [spec])).1.supplied.get? name = some value := by
    rw [supplied_runToolchains, List.flatMap_append, SortedMap.insertList_append,
      List.flatMap_singleton]
    refine (SortedMap.get?_insertAll _ spec.overrides name).trans ?_
    rw [brought, Option.some_or]
  rw [find?, recorded, Option.some_or]

end Store

namespace Machine

variable {initial : Store} {specs : List ToolchainSpec} {progress : Progress} {machine : Machine}
  {name : String}

theorem Valid.find?_of_brought (valid : Valid initial specs progress machine)
    (completed : machine.Completed specs) {spec : ToolchainSpec} (member : spec ∈ specs)
    {value : Value} (brought : spec.overrides.get? name = some value)
    (agree : ∀ other ∈ specs, ∀ given, other.overrides.get? name = some given → given = value) :
    machine.store.find? name = some value := by
  have recorded : machine.store.supplied.get? name = some value := by
    rcases valid.reflects.supplied name with ⟨other, otherMember, _, brings, same⟩ | ⟨none, _⟩
    · obtain ⟨given, found⟩ := Option.isSome_iff_exists.mp brings
      rw [same, found, agree other otherMember given found]
    · rw [none spec member (valid.prepared_of_completed completed member)] at brought
      cases brought
  rw [Store.find?, recorded, Option.some_or]

theorem Valid.find?_of_unbrought (valid : Valid initial specs progress machine)
    (unbrought : ∀ spec ∈ specs, spec.overrides.get? name = none) :
    machine.store.find? name =
      (initial.supplied.get? name).or (machine.store.firstDeclaration? name) := by
  rcases valid.reflects.supplied name with ⟨other, member, _, brings, _⟩ | ⟨_, same⟩
  · rw [unbrought other member] at brings
    cases brings
  · rw [Store.find?, same]

end Machine

namespace Manifest

variable {manifest : Manifest} {initial : Store} {name : String}

/-- Looking a name up finds the same after every interleaving of the toolchains, in whichever
order the manifest lists them. -/
def StableLookup (initial : Store) (manifest : Manifest) (name : String) : Prop :=
  ∃ found, ∀ specs machine, specs.Perm manifest.toolchains →
    Machine.Interleaves initial specs machine → machine.store.find? name = found

theorem exists_interleaves_last (wellFormed : manifest.WellFormed) {spec : ToolchainSpec}
    (member : spec ∈ manifest.toolchains) {value : Value}
    (brought : spec.overrides.get? name = some value) (initial : Store) :
    ∃ specs machine, specs.Perm manifest.toolchains ∧
      Machine.Interleaves initial specs machine ∧ machine.store.find? name = some value := by
  obtain ⟨before, after, split⟩ := List.append_of_mem member
  have order : ((before ++ after) ++ [spec]).Perm manifest.toolchains := by
    rw [split]
    exact (List.perm_append_singleton spec _).trans List.perm_middle.symm
  have distinct := (Machine.separate_of_perm wellFormed order).distinct
  obtain ⟨machine, interleaves, result⟩ :=
    Machine.exists_interleaves_runToolchains distinct initial
  refine ⟨_, machine, order, interleaves, ?_⟩
  have store := congrArg Prod.fst result
  simp only at store
  rw [store]
  exact initial.find?_of_last _ brought

theorem StableLookup.agree (stable : manifest.StableLookup initial name)
    (wellFormed : manifest.WellFormed) {first second : ToolchainSpec}
    (firstMember : first ∈ manifest.toolchains) (secondMember : second ∈ manifest.toolchains)
    {left right : Value} (leftBrought : first.overrides.get? name = some left)
    (rightBrought : second.overrides.get? name = some right) : left = right := by
  obtain ⟨found, same⟩ := stable
  obtain ⟨specs, machine, order, interleaves, leftFound⟩ :=
    exists_interleaves_last wellFormed firstMember leftBrought initial
  obtain ⟨others, other, otherOrder, otherInterleaves, rightFound⟩ :=
    exists_interleaves_last wellFormed secondMember rightBrought initial
  rw [same specs machine order interleaves] at leftFound
  rw [same others other otherOrder otherInterleaves, leftFound] at rightFound
  exact Option.some.inj rightFound

theorem stableLookup_of_agree (wellFormed : manifest.WellFormed) (fresh : initial.Fresh)
    (consistent : manifest.Consistent)
    (agree : ∀ first ∈ manifest.toolchains, ∀ second ∈ manifest.toolchains, ∀ left right,
      first.overrides.get? name = some left → second.overrides.get? name = some right →
        left = right) :
    manifest.StableLookup initial name := by
  have separate := Machine.separate_of_perm wellFormed (.refl _)
  have ends : ∀ specs machine, specs.Perm manifest.toolchains →
      Machine.Interleaves initial specs machine → ∃ progress,
        Machine.Valid initial manifest.toolchains progress machine ∧
        machine.Completed manifest.toolchains := by
    intro specs machine order interleaves
    have listed := interleaves.perm order
    obtain ⟨progress, valid⟩ := listed.valid fresh separate
    exact ⟨progress, valid, (valid.completed_iff listed.finished).mpr consistent⟩
  by_cases some_brings : ∃ spec ∈ manifest.toolchains, (spec.overrides.get? name).isSome
  · obtain ⟨spec, member, brings⟩ := some_brings
    obtain ⟨value, brought⟩ := Option.isSome_iff_exists.mp brings
    refine ⟨some value, fun specs machine order interleaves => ?_⟩
    obtain ⟨progress, valid, completed⟩ := ends specs machine order interleaves
    exact valid.find?_of_brought completed member brought fun other otherMember given there =>
      agree other otherMember spec member given value there brought
  · have unbrought : ∀ spec ∈ manifest.toolchains, spec.overrides.get? name = none := by
      intro spec member
      exact Option.not_isSome_iff_eq_none.mp fun brings => some_brings ⟨spec, member, brings⟩
    -- what is declared is the same after all interleavings, so one of them tells what is found
    obtain ⟨other, otherProgress, sequence, otherValid, _⟩ :=
      Store.exists_valid_evaluate wellFormed fresh
    have otherCompleted := (otherValid.completed_iff sequence.finished).mpr consistent
    refine ⟨other.store.find? name, fun specs machine order interleaves => ?_⟩
    obtain ⟨progress, valid, completed⟩ := ends specs machine order interleaves
    have declared := valid.declared_eq completed otherValid otherCompleted
    rw [valid.find?_of_unbrought unbrought, otherValid.find?_of_unbrought unbrought,
      Store.firstDeclaration?, declared, Store.firstDeclaration?]

end Manifest

/-- After an evaluation without errors, looking a name up finds the same whatever the schedule was
exactly if all toolchains that bring a value for the name bring the same one. -/
theorem lookup_stable_iff {path text : String} {manifest : Manifest}
    (parsed : Manifest.parse path text = .ok manifest) {initial : Store} (fresh : initial.Fresh)
    {scopes : List Scope} (returned : (initial.evaluate manifest).2 = .ok scopes) (name : String) :
    manifest.StableLookup initial name ↔
      ∀ first ∈ manifest.toolchains, ∀ second ∈ manifest.toolchains, ∀ left right,
        first.overrides.get? name = some left → second.overrides.get? name = some right →
          left = right := by
  have wellFormed := Manifest.wellFormed_of_parse parsed
  constructor
  · intro stable first firstMember second secondMember left right leftBrought rightBrought
    exact stable.agree wellFormed firstMember secondMember leftBrought rightBrought
  · exact Manifest.stableLookup_of_agree wellFormed fresh
      (Store.consistent_of_scopes wellFormed fresh returned)

theorem lookup_stable_iff_sharedBlock :
    Manifest.parse "m" sharedBlockText = .ok sharedBlockManifest ∧
    (∃ scopes, (Store.evaluate (.new ⟨"linux", "x64"⟩) sharedBlockManifest).2 = .ok scopes) ∧
    sharedBlockManifest.StableLookup (.new ⟨"linux", "x64"⟩) "x" := by
  have consistent : sharedBlockManifest.Consistent := by decide +kernel
  obtain ⟨scopes, returned⟩ := Store.exists_scopes_of_consistent
    (Manifest.wellFormed_of_parse parse_sharedBlockText) (Store.fresh_new ⟨"linux", "x64"⟩)
    consistent
  refine ⟨parse_sharedBlockText, ⟨scopes, returned⟩,
    (lookup_stable_iff parse_sharedBlockText (Store.fresh_new _) returned "x").mpr ?_⟩
  have only : ∀ spec ∈ sharedBlockManifest.toolchains,
      spec.overrides.get? "x" = none ∨
        spec.overrides.get? "x" = some (.integer (some (.ofFile "m")) 1) := by
    simp only [sharedBlockManifest, List.forall_mem_cons]
    refine ⟨Or.inr ?_, Or.inl ?_, by simp⟩ <;> cbv
  intro first firstMember second secondMember left right leftBrought rightBrought
  rcases only first firstMember with missing | one
  · rw [missing] at leftBrought
    cases leftBrought
  · rcases only second secondMember with missing | other
    · rw [missing] at rightBrought
      cases rightBrought
    · rw [leftBrought, ← other, rightBrought] at one
      exact Option.some.inj one

def bringing (label : String) (value : Int64) : ToolchainSpec :=
  ⟨⟨label, false⟩, .ofList [("x", .integer (some (.ofFile "m")) value)], [sharedBlock]⟩

def twoValuesText : String :=
  "[[toolchain]]\nlabel = 'a'\ntoolchain_args.x = 1\n" ++
  "declare_args = [\x7bfile = 'f', line = 3, args.x = 0\x7d]\n" ++
  "[[toolchain]]\nlabel = 'b'\ntoolchain_args.x = 2\n" ++
  "declare_args = [\x7bfile = 'f', line = 3, args.x = 0\x7d]\n"

def twoValuesManifest : Manifest := ⟨"m", ∅, [bringing "a" 1, bringing "b" 2]⟩

set_option maxRecDepth 4000 in
theorem lookup_unstable_twoValues :
    Manifest.parse "m" twoValuesText = .ok twoValuesManifest ∧
    twoValuesManifest.Consistent ∧
    (Store.evaluate (.new ⟨"linux", "x64"⟩) twoValuesManifest).1.find? "x" =
      some (.integer (some (.ofFile "m")) 2) ∧
    (Store.evaluate (.new ⟨"linux", "x64"⟩) ⟨"m", ∅, [bringing "b" 2, bringing "a" 1]⟩).1.find? "x" =
      some (.integer (some (.ofFile "m")) 1) ∧
    ¬ twoValuesManifest.StableLookup (.new ⟨"linux", "x64"⟩) "x" := by
  have parsed : Manifest.parse "m" twoValuesText = .ok twoValuesManifest := by cbv
  have one : (bringing "a" 1).overrides.get? "x" = some (.integer (some (.ofFile "m")) 1) := rfl
  have two : (bringing "b" 2).overrides.get? "x" = some (.integer (some (.ofFile "m")) 2) := rfl
  refine ⟨parsed, by decide +kernel, Store.find?_of_last _ [bringing "a" 1] two,
    Store.find?_of_last _ [bringing "b" 2] one, fun stable => ?_⟩
  have same := stable.agree (Manifest.wellFormed_of_parse parsed)
    (List.mem_cons_self) (List.mem_cons_of_mem _ List.mem_cons_self) one two
  simp at same

end BuildArgs
