import BuildArgs.Proofs.Evaluation.FinalStore
import BuildArgs.Proofs.Evaluation.Lookup
import BuildArgs.Proofs.Store.Redeclaration

/-! Evaluating a manifest a second time on the store that the first time left behind. Each toolchain
finds everything that it declares declared already, by itself and by nobody else at another place,
so it ends with the scope that it had and leaves the store as it is. -/

namespace BuildArgs

namespace Store

variable {store : Store} {spec : ToolchainSpec} {specs : List ToolchainSpec}

/-- A store that holds all declarations of a toolchain, and no others that they clash with. -/
structure Settled (store : Store) (spec : ToolchainSpec) : Prop where
  holds : store.Holds spec spec.entries
  admits : ∀ entry ∈ spec.entries, store.Admits entry
  agree : Declaration.Agree spec.declarations

theorem Settled.supply (settled : store.Settled spec) (supplied : NameMap Value) :
    Settled { store with supplied } spec where
  holds := ⟨settled.holds.declared, settled.holds.overrides, settled.holds.placed,
    settled.holds.recorded⟩
  admits := settled.admits
  agree := settled.agree

theorem Settled.runToolchain (settled : store.Settled spec) :
    store.runToolchain spec =
      ⟨{ store with supplied := store.supplied.insertAll spec.overrides },
        spec.rootScope store.host store.active, none⟩ := by
  have holds := settled.holds
  let known := (recordAll store.host.systemDefaults spec.entries).insertAll
    store.host.systemDefaults
  let ready := (store.setup (.new spec.id) spec.overrides).1
  let scope := (store.setup (.new spec.id) spec.overrides).2
  have declared : ready.declared = store.declared.insert spec.id known := by
    simp [ready, known, setup, Scope.new, declaredIn, holds.declared]
  have brought : ready.toolchainOverrides = store.toolchainOverrides := by
    simp [ready, setup, Scope.new, SortedMap.insert_of_get? holds.overrides]
  have own : scope.toolchain = spec.id := toolchain_setup store _ _
  have batch := declareEach_of_admits own (by rw [declared, SortedMap.get?_insert_self])
    (by rw [brought, holds.overrides])
    (fun entry member => (settled.admits entry member).setup _ _) settled.agree
  have settles : spec.entries.foldl (spec.settle store.active) scope =
      spec.rootScope store.host store.active := by
    apply spec.foldl_settle_congr store.active
    · rw [own, ToolchainSpec.toolchain_freshScope]
    · exact fun name => setup_scope_elsewhere holds.declared
  have kept : ready.declared.insert spec.id (recordAll known spec.entries) = store.declared := by
    rw [declared, SortedMap.insert_insert,
      recordAll_insertAll store.host.uniform_systemDefaults holds.placed,
      SortedMap.insert_of_get? holds.declared]
  have run : store.runToolchain spec = ready.declareEach scope spec.entries :=
    declareBlocks_eq_declareEach ready scope spec.blocks
  rw [run, batch, kept, brought]
  exact congrArg (Declared.mk _ · none) settles

theorem runToolchains_of_settled (settled : ∀ spec ∈ specs, store.Settled spec) :
    store.runToolchains specs =
      ({ store with supplied :=
          store.supplied.insertList (specs.flatMap fun spec => spec.overrides.entries) },
        (specs.map fun spec => spec.rootScope store.host store.active).map .ofScope) := by
  induction specs generalizing store with
  | nil => rfl
  | cons spec rest ih =>
    have first := (settled spec List.mem_cons_self).runToolchain
    have later := ih fun other member =>
      (settled other (List.mem_cons_of_mem _ member)).supply
        (store.supplied.insertAll spec.overrides)
    simp only [Store.runToolchains, first, later, List.flatMap_cons, SortedMap.insertList_append]
    simp [Outcome.ofScope, Declared.outcome, SortedMap.insertAll]

end Store

theorem Machine.Valid.settled {initial : Store} {specs : List ToolchainSpec} {progress : Progress}
    {machine : Machine} (valid : Valid initial specs progress machine)
    (completed : machine.Completed specs)
    (agree : Declaration.Agree (specs.flatMap ToolchainSpec.declarations))
    {spec : ToolchainSpec} (member : spec ∈ specs) : machine.store.Settled spec where
  holds := valid.reflects.holds spec member _ (valid.of_completed completed member).1
  admits := by
    intro entry inside
    have clear : machine.store.conflict? spec.id entry.1 entry.2 = none := by
      rw [Store.conflict?_eq_none_iff_not_clashes valid.reflects.placedUnlessSystem]
      intro other earlier declares
      exact agree earlier (valid.mem_of_declares declares) _
        (List.mem_flatMap.mpr ⟨spec, member, List.mem_map_of_mem inside⟩)
    exact Store.conflict?_eq_none_iff.mp clear
  agree := agree.subset fun declaration inside => List.mem_flatMap.mpr ⟨spec, member, inside⟩

/-- To evaluate a manifest again after it was evaluated without errors gives the same scopes and
leaves the store as it is. -/
theorem evaluate_again {path text : String} {manifest : Manifest}
    (parsed : Manifest.parse path text = .ok manifest) {initial final : Store}
    (fresh : initial.Fresh) {scopes : List Scope}
    (evaluated : initial.evaluate manifest = (final, .ok scopes)) :
    final.evaluate manifest = (final, .ok scopes) := by
  have wellFormed := Manifest.wellFormed_of_parse parsed
  obtain ⟨machine, progress, interleaves, valid, result⟩ :=
    Store.exists_valid_evaluate wellFormed fresh
  rw [evaluated] at result
  obtain ⟨rfl, returned⟩ := Prod.mk.inj result
  have consistent := Store.consistent_of_scopes wellFormed fresh (congrArg Prod.snd evaluated)
  have completed := (valid.completed_iff interleaves.finished).mpr consistent
  have again := Store.runToolchains_of_settled fun spec member =>
    valid.settled completed consistent member
  have outcomes := valid.outcomes_of_completed completed
  rw [← valid.reflects.host, ← valid.reflects.active] at outcomes
  have supplied : machine.store.supplied.insertList
      (manifest.toolchains.flatMap fun spec => spec.overrides.entries) =
        machine.store.supplied := by
    have store : (initial.runToolchains manifest.toolchains).1 = machine.store :=
      congrArg Prod.fst evaluated
    rw [← store, initial.supplied_runToolchains, SortedMap.insertList_insertList]
  rw [Store.evaluate, again, supplied, ← outcomes]
  exact congrArg (Prod.mk machine.store) returned.symm

def systemBlockText : String :=
  "[[toolchain]]\nlabel = 'a'\ntoolchain_args.host_os = 'haiku'\n" ++
  "declare_args = [\x7bfile = 'f', line = 3, args.host_os = 'beos', args.x = 0\x7d]\n" ++
  "[[toolchain]]\nlabel = 'b'\n" ++
  "declare_args = [\x7bfile = 'f', line = 3, args.host_os = 'beos', args.x = 0\x7d]\n"

def systemBlock : DeclareBlock :=
  ⟨⟨"f", some 3⟩, .ofList [("host_os", .string (some ⟨"f", some 3⟩) "beos"),
    ("x", .integer (some ⟨"f", some 3⟩) 0)]⟩

def systemBlockManifest : Manifest :=
  ⟨"m", ∅, [⟨⟨"a", false⟩, .ofList [("host_os", .string (some (.ofFile "m")) "haiku")], [systemBlock]⟩,
    ⟨⟨"b", false⟩, ∅, [systemBlock]⟩]⟩

theorem evaluate_again_systemBlock :
    let given := (Store.new ⟨"linux", "x64"⟩).addOverride "x" (.integer none 2)
    Manifest.parse "m" systemBlockText = .ok systemBlockManifest ∧ given.Fresh ∧
    ∃ final scopes, given.evaluate systemBlockManifest = (final, .ok scopes) ∧
      final.evaluate systemBlockManifest = (final, .ok scopes) := by
  intro given
  have parsed : Manifest.parse "m" systemBlockText = .ok systemBlockManifest := by cbv
  have fresh : given.Fresh := rfl
  have consistent : systemBlockManifest.Consistent := by decide +kernel
  obtain ⟨scopes, returned⟩ := Store.exists_scopes_of_consistent
    (Manifest.wellFormed_of_parse parsed) fresh consistent
  have evaluated : given.evaluate systemBlockManifest =
      ((given.evaluate systemBlockManifest).1, .ok scopes) := by rw [← returned]
  exact ⟨parsed, fresh, _, scopes, evaluated, evaluate_again parsed fresh evaluated⟩

end BuildArgs
