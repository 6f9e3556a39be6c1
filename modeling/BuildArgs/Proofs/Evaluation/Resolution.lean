import BuildArgs.Proofs.Build.Loading
import BuildArgs.Proofs.Evaluation.Sequence
import BuildArgs.Proofs.Store.RootScope

/-! Where the values of an evaluation come from. An argument of a toolchain takes the value of
the highest layer that has one for it, and that value carries the place of the layer. -/

namespace BuildArgs

structure Layer where
  place : Option Origin
  value? : String → Option Value

/-- The value of the first layer that has one, with the layer's place. -/
def highest (layers : List Layer) (name : String) : Option (Option Origin × Value) :=
  layers.findSome? fun layer => (layer.value? name).map fun value => (layer.place, value)

def Layer.ofTable (place : Origin) (table : Toml.Table) : Layer :=
  ⟨some place, (Value.mapOfTable place table).get?⟩

/-- The layers of a toolchain from the highest to the lowest: its own values, the command line
with its last assignment first, the file of assignments, the project's defaults, its blocks
with the last one first, the system. -/
def ToolchainSpec.layers (spec : ToolchainSpec) (path : SystemString) (defaults : Toml.Table)
    (file : Option SystemString) (fileTable : Toml.Table) (assigned : List (String × Value))
    (host : Host) : List Layer :=
  [⟨some (.ofFile path.shown), spec.overrides.get?⟩,
    ⟨some Assignment.commandLine, fun name => assigned.reverse.lookup name⟩] ++
  file.toList.map (fun given => .ofTable (.ofFile given.shown) fileTable) ++
  [.ofTable (.ofFile path.shown) defaults] ++
  spec.blocks.reverse.map (fun block => ⟨some block.origin, block.arguments.get?⟩) ++
  [⟨none, host.systemDefaults.get?⟩]

theorem findSome?_cons_eq_or {α β : Type} (pick : α → Option β) (first : α) (rest : List α) :
    (first :: rest).findSome? pick = (pick first).or (rest.findSome? pick) := by
  rw [List.findSome?_cons]
  cases pick first with
  | none => rfl
  | some value => rfl

theorem value_of_highest (layers : List Layer) (name : String) :
    (highest layers name).map Prod.snd = layers.findSome? fun layer => layer.value? name := by
  induction layers with
  | nil => rfl
  | cons layer rest ih =>
    simp only [highest, List.findSome?_cons] at ih ⊢
    cases layer.value? name with
    | some value => rfl
    | none => exact ih

theorem layer_of_highest {layers : List Layer} {name : String} {place : Option Origin}
    {value : Value} (found : highest layers name = some (place, value)) :
    ∃ layer ∈ layers, layer.place = place ∧ layer.value? name = some value := by
  obtain ⟨layer, member, here⟩ := List.exists_of_findSome?_eq_some found
  obtain ⟨_, there, same⟩ := Option.map_eq_some_iff.mp here
  cases same
  exact ⟨layer, member, rfl, there⟩

theorem lookup_reverse_entries (values : NameMap Value) (name : String) :
    values.entries.reverse.lookup name = values.get? name := by
  obtain ⟨entries, ascending⟩ := values
  simp only [SortedMap.get?]
  induction entries with
  | nil => rfl
  | cons entry rest ih =>
    obtain ⟨above, sorted⟩ := List.pairwise_cons.mp ascending
    rw [List.reverse_cons, List.lookup_append, ih sorted]
    by_cases same : name = entry.1
    · subst same
      simp [SortedMap.lookup, SortedMap.lookup_eq_none_of_below above, List.lookup]
    · have apart : (name == entry.1) = false := by simp [same]
      simp [SortedMap.lookup, same, List.lookup, apart]

namespace ToolchainSpec

theorem lookup_entries (spec : ToolchainSpec) (name : String) :
    spec.entries.reverse.lookup name =
      spec.blocks.reverse.findSome? fun block => block.arguments.get? name := by
  unfold entries
  induction spec.blocks with
  | nil => rfl
  | cons block rest ih =>
    rw [List.flatMap_cons, List.reverse_append, List.lookup_append, ih, List.reverse_cons,
      List.findSome?_append, lookup_reverse_entries]
    simp

theorem mem_keys_rootScope_iff (spec : ToolchainSpec) (host : Host) (active : NameMap Value)
    (name : String) :
    name ∈ (spec.rootScope host active).values.keys ↔
      name ∈ Host.systemNames ∨ ∃ block ∈ spec.blocks, name ∈ block.arguments.keys := by
  rw [Scope.mem_keys_values_iff, get?_rootScope, ← Option.isSome_iff_exists, Option.isSome_map,
    Option.isSome_or, Bool.or_eq_true, Host.get?_systemDefaults_isSome_iff, or_comm,
    lookup_entries, List.findSome?_isSome_iff]
  simp only [List.mem_reverse, SortedMap.mem_keys_iff, SortedMap.contains]

variable {spec : ToolchainSpec} {read : ReadFile} {path : SystemString} {file : Option SystemString}
  {assignments : List String} {inputs : Inputs} {defaults fileTable : Toml.Table}
  {assigned : List (String × Value)}

theorem findSome?_file (name : String) :
    file.toList.findSome?
      (fun given => (Value.mapOfTable (.ofFile given.shown) fileTable).get? name) =
        (Inputs.fileValues file fileTable).get? name := by
  cases file with
  | none => rfl
  | some given =>
    rw [Option.toList_some, findSome?_cons_eq_or, List.findSome?_nil, Option.or_none]
    rfl

theorem highest_of_rootScope
    (loaded : Inputs.Loaded read path file assignments inputs defaults fileTable assigned) (host : Host)
    {name : String} {value : Value}
    (found : (spec.rootScope host (inputs.prepare (.new host)).active).get? name = some value) :
    ∃ place, highest (spec.layers path defaults file fileTable assigned host) name =
      some (place, value) := by
  rw [get?_rootScope, lookup_entries] at found
  obtain ⟨default, known, rfl⟩ := Option.map_eq_some_iff.mp found
  have first := value_of_highest (spec.layers path defaults file fileTable assigned host) name
  have all : (spec.layers path defaults file fileTable assigned host).findSome?
      (fun layer => layer.value? name) =
        some (spec.chosen (inputs.prepare (.new host)).active name default) := by
    simp only [layers, Layer.ofTable, List.findSome?_append, findSome?_cons_eq_or, List.findSome?_nil,
      List.findSome?_map, Function.comp_def, findSome?_file, Option.or_none, Option.or_assoc, known,
      chosen, loaded.get?_active, ← Option.or_some]
  rw [all] at first
  obtain ⟨⟨place, _⟩, there, rfl⟩ := Option.map_eq_some_iff.mp first
  exact ⟨place, there⟩

theorem uniform_of_layers
    (loaded : Inputs.Loaded read path file assignments inputs defaults fileTable assigned)
    (member : spec ∈ inputs.manifest.toolchains) (host : Host) :
    ∀ layer ∈ spec.layers path defaults file fileTable assigned host, ∀ name value,
      layer.value? name = some value → value.Uniform layer.place := by
  have own := loaded.wellFormed.toolchains spec member
  intro layer inside name value found
  simp only [layers, List.cons_append, List.nil_append, List.mem_cons, List.mem_append,
    List.mem_map, List.mem_reverse, List.not_mem_nil, or_false, or_assoc] at inside
  rcases inside with rfl | rfl | ⟨given, _, rfl⟩ | rfl | ⟨block, blockMember, rfl⟩ | rfl
  · exact loaded.located ▸ own.overrides name value found
  · obtain ⟨before, after, split, _⟩ := List.lookup_eq_some_iff.mp found
    have given : (name, value) ∈ assigned := List.mem_reverse.mp (split ▸ by simp)
    exact Inputs.uniform_of_mapM_parse loaded.commandLine (name, value) given
  · exact Value.uniform_mapOfTable _ _ name value found
  · exact Value.uniform_mapOfTable _ _ name value found
  · exact own.blocks block blockMember name value found
  · exact host.uniform_systemDefaults name value found

end ToolchainSpec

/-- An evaluation without errors gives one scope for each toolchain that is written in the manifest, in
the order of their identities. A scope holds the system arguments and those that the toolchain's blocks
declare, none of them unused, and each with the value of the highest layer that has one. The layers are
told from what is written in the manifest, in the file of assignments and on the command line. -/
theorem scopes_resolve {read : ReadFile} {path : SystemString} {file : Option SystemString}
    {assignments : List String} {inputs : Inputs} {host : Host} {scopes : List Scope}
    (loaded : Inputs.load read path file assignments = .ok inputs)
    (returned : ((inputs.prepare (.new host)).evaluate inputs.manifest).2 = .ok scopes) :
    ∃ defaults fileTable assigned,
      Inputs.Written read path file assignments inputs.manifest defaults fileTable assigned ∧
      (scopes.map Scope.toolchain).Perm (inputs.manifest.toolchains.map ToolchainSpec.id) ∧
      scopes.Pairwise (fun left right => compare left.toolchain right.toolchain = .lt) ∧
      ∀ spec ∈ inputs.manifest.toolchains, ∀ scope ∈ scopes, scope.toolchain = spec.id →
        scope.unusedNames = [] ∧
        (∀ name, name ∈ scope.values.keys ↔
          name ∈ Host.systemNames ∨ ∃ block ∈ spec.blocks, name ∈ block.arguments.keys) ∧
        ∀ name value, scope.get? name = some value →
          ∃ place, highest (spec.layers path defaults file fileTable assigned host) name =
            some (place, value) ∧ value.Uniform place := by
  obtain ⟨defaults, fileTable, assigned, all⟩ := Inputs.exists_loaded loaded
  have wellFormed := all.wellFormed
  obtain ⟨perm, ascending⟩ := Store.scopes_of_evaluate wellFormed (Store.fresh_prepare _ _) returned
  refine ⟨defaults, fileTable, assigned, all.toWritten, ?_, ascending, ?_⟩
  · simpa [ToolchainSpec.rootScope, Function.comp_def] using perm.map Scope.toolchain
  · intro spec member scope inside same
    obtain ⟨other, otherMember, rfl⟩ := List.mem_map.mp (perm.mem_iff.mp inside)
    have equal : other = spec := by
      apply List.inj_on_of_nodup_map wellFormed.distinct otherMember member
      simpa [ToolchainSpec.rootScope] using same
    subst equal
    refine ⟨Scope.unusedNames_eq_nil_iff.mpr (other.allUsed_rootScope _ _),
      other.mem_keys_rootScope_iff _ _, fun name value found => ?_⟩
    obtain ⟨place, first⟩ := ToolchainSpec.highest_of_rootScope all host found
    obtain ⟨layer, layerMember, rfl, given⟩ := layer_of_highest first
    exact ⟨layer.place, first,
      ToolchainSpec.uniform_of_layers all member host layer layerMember name value given⟩

theorem layers_of_written {spec : ToolchainSpec} {defaults fileTable : Toml.Table}
    {assigned : List (String × Value)} {host : Host}
    (written : Inputs.Written layeredFiles "m" (some "l") ["z = 3"] layeredManifest defaults fileTable
      assigned) :
    spec.layers "m" defaults (some "l") fileTable assigned host =
      [⟨some (.ofFile "m"), spec.overrides.get?⟩,
        ⟨some Assignment.commandLine,
          fun name => [("z", .integer Assignment.commandLine 3)].reverse.lookup name⟩,
        ⟨some (.ofFile "l"), (integersAt (.ofFile "l") [("y", 2), ("z", 2)]).get?⟩,
        ⟨some (.ofFile "m"), (integersAt (.ofFile "m") [("w", 1), ("y", 1), ("z", 1)]).get?⟩] ++
      spec.blocks.reverse.map (fun block => ⟨some block.origin, block.arguments.get?⟩) ++
      [⟨none, host.systemDefaults.get?⟩] := by
  obtain ⟨located, ⟨_, _, _, _, saysDefaults⟩, given, commandLine⟩ := written
  have ofDefaults : Value.mapOfTable (.ofFile "m") defaults =
      integersAt (.ofFile "m") [("w", 1), ("y", 1), ("z", 1)] :=
    saysDefaults.values.symm
  have ofCommandLine : assigned = [("z", .integer Assignment.commandLine 3)] :=
    Except.ok.inj (commandLine.symm.trans parse_assignment)
  rw [ToolchainSpec.layers, Layer.ofTable, SystemString.shown_ofText, ofDefaults, ofCommandLine]
  simp only [Option.toList_some, List.map_singleton, Layer.ofTable, SystemString.shown_ofText,
    mapOfTable_layeredFile given]
  rfl

theorem get?_of_highest {scope : Scope} {layers : List Layer} {known : String → Prop}
    (keys : ∀ name, name ∈ scope.values.keys ↔ known name)
    (values : ∀ name value, scope.get? name = some value →
      ∃ place, highest layers name = some (place, value) ∧ value.Uniform place)
    {name : String} {place : Option Origin} {value : Value} (here : known name)
    (first : highest layers name = some (place, value)) : scope.get? name = some value := by
  obtain ⟨other, found⟩ := Scope.mem_keys_values_iff.mp ((keys name).mpr here)
  obtain ⟨_, same, _⟩ := values name other found
  rw [first] at same
  cases same
  exact found

theorem scopes_resolve_layered :
    Inputs.load layeredFiles "m" (some "l") ["z = 3"] = .ok layeredInputs ∧
    ∃ scopes,
      ((layeredInputs.prepare (.new ⟨"linux", "x64"⟩)).evaluate layeredManifest).2 = .ok scopes ∧
      (scopes.map Scope.toolchain).Perm [⟨"a", true⟩, ⟨"b", false⟩] ∧
      ∀ scope ∈ scopes,
        (scope.toolchain = ⟨"a", true⟩ →
          scope.get? "v" = some (.integer (some ⟨"f", some 3⟩) 0) ∧
          scope.get? "w" = some (.integer (some (.ofFile "m")) 1) ∧
          scope.get? "y" = some (.integer (some (.ofFile "l")) 2) ∧
          scope.get? "z" = some (.integer (some (.ofFile "m")) 4) ∧
          scope.get? "host_os" = some (.string none "linux")) ∧
        (scope.toolchain = ⟨"b", false⟩ →
          scope.get? "v" = some (.integer (some ⟨"f", some 3⟩) 5) ∧
          scope.get? "z" = some (.integer Assignment.commandLine 3)) := by
  have consistent : layeredManifest.Consistent := by decide +kernel
  obtain ⟨scopes, returned⟩ := Store.exists_scopes_of_consistent
    (Manifest.wellFormed_of_parse parse_layeredText) (Store.fresh_prepare layeredInputs _) consistent
  obtain ⟨defaults, fileTable, assigned, written, perm, _, each⟩ :=
    scopes_resolve load_layeredInputs returned
  refine ⟨load_layeredInputs, scopes, returned, perm, fun scope inside => ⟨fun same => ?_, fun same => ?_⟩⟩
  · obtain ⟨_, keys, values⟩ := each _ List.mem_cons_self scope inside same
    rw [layers_of_written written] at values
    exact ⟨get?_of_highest keys values (by decide +kernel) (by cbv),
      get?_of_highest keys values (by decide +kernel) (by cbv),
      get?_of_highest keys values (by decide +kernel) (by cbv),
      get?_of_highest keys values (by decide +kernel) (by cbv),
      get?_of_highest keys values (by decide +kernel) (by cbv)⟩
  · obtain ⟨_, keys, values⟩ := each _ (List.mem_cons_of_mem _ List.mem_cons_self) scope inside same
    rw [layers_of_written written] at values
    exact ⟨get?_of_highest keys values (by decide +kernel) (by cbv),
      get?_of_highest keys values (by decide +kernel) (by cbv)⟩

end BuildArgs
