import BuildArgs.Proofs.Build.Loading

/-! Values that are made of TOML. A value has the shape of the node that it is made of and, with all that
is in it, the one place that it is attributed to; both together leave no choice. -/

namespace BuildArgs

open Toml (Node)

namespace Value

/-- Whether a value is built like a node, wherever it comes from. Fractions and dates are kept as the
texts that they have. -/
inductive Mirrors : Node → Value → Prop
  | string {origin} (text) : Mirrors (.string text) (.string origin text)
  | integer {origin} (number) : Mirrors (.integer number) (.integer origin number)
  | boolean {origin} (truth) : Mirrors (.boolean truth) (.boolean origin truth)
  | float {origin} (number) : Mirrors (.float number) (.string origin number.text)
  | temporal {origin} (time) : Mirrors (.temporal time) (.string origin time.text)
  | array {origin nodes items} : List.Forall₂ Mirrors nodes items →
      Mirrors (.array nodes) (.list origin items)
  | table {origin nodes entries} : nodes.map Prod.fst = entries.map Prod.fst →
      List.Forall₂ Mirrors (nodes.map Prod.snd) (entries.map Prod.snd) →
      Mirrors (.table nodes) (.scope origin entries)

/-- Whether a map is what a table becomes at a place: it has the keys of the table and no others, its
values are built like the nodes under their keys, and the place is theirs at every depth. -/
structure MirrorsTable (place : Origin) (table : Toml.Table) (values : NameMap Value) : Prop where
  keys : values.keys = table.keys
  mirrored : ∀ name node, table.get? name = some node →
    ∃ value, values.get? name = some value ∧ Mirrors node value
  attributed : UniformMap (some place) values

variable {place : Origin} {node : Node} {value : Value} {table : Toml.Table} {values : NameMap Value}

theorem mirrors_ofNode (place : Origin) (node : Node) : Mirrors node (ofNode place node) := by
  induction node using Node.induction with
  | string text => exact .string text
  | integer number => exact .integer number
  | float number => exact .float number
  | boolean truth => exact .boolean truth
  | temporal time => exact .temporal time
  | array nodes each =>
    rw [ofNode, ofNodes_eq_map]
    exact .array (List.forall₂_map_right_iff.mpr (List.forall₂_same.mpr each))
  | table nodes each =>
    rw [ofNode, ofNodeEntries_eq_map]
    refine .table (by simp) ?_
    rw [List.map_map, List.forall₂_map_left_iff, List.forall₂_map_right_iff]
    exact List.forall₂_same.mpr each

theorem eq_map_of_mirrors {nodes : List Node} {items : List Value}
    (paired : List.Forall₂ Mirrors nodes items)
    (each : ∀ item ∈ items, ∀ node, Mirrors node item → item = ofNode place node) :
    items = nodes.map (ofNode place) := by
  induction paired with
  | nil => rfl
  | cons mirrors _ ih =>
    obtain ⟨first, others⟩ := List.forall_mem_cons.mp each
    rw [List.map_cons, ← first _ mirrors, ← ih others]

theorem eq_ofNode_of_mirrors (mirrors : Mirrors node value) (uniform : value.Uniform (some place)) :
    value = ofNode place node := by
  induction value using Value.induction generalizing node with
  | none origin => cases mirrors
  | boolean origin truth =>
    cases mirrors
    cases uniform
    rfl
  | integer origin number =>
    cases mirrors
    cases uniform
    rfl
  | string origin text =>
    cases uniform
    cases mirrors <;> rfl
  | list origin items each =>
    cases mirrors with
    | array paired =>
      cases uniform with
      | list uniform =>
        rw [ofNode, ofNodes_eq_map, eq_map_of_mirrors paired fun item member node mirrors =>
          each item member mirrors (uniform item member)]
  | scope origin entries each =>
    cases mirrors with
    | @table _ nodes _ keys paired =>
      cases uniform with
      | scope uniform =>
        have made : entries.map Prod.snd = (nodes.map Prod.snd).map (ofNode place) := by
          refine eq_map_of_mirrors paired (List.forall_mem_map.mpr fun entry member node mirrors => ?_)
          exact each entry member mirrors (uniform entry member)
        rw [ofNode, ofNodeEntries_eq_map, List.zip_of_prod keys.symm made]
        exact congrArg _ (List.zip_of_prod (by simp) (by simp)).symm

theorem eq_mapOfTable_iff : values = mapOfTable place table ↔ MirrorsTable place table values := by
  constructor
  · rintro rfl
    refine ⟨SortedMap.keys_map _ _, fun name node found => ?_, uniform_mapOfTable place table⟩
    exact ⟨ofNode place node, by simp [mapOfTable, found], mirrors_ofNode place node⟩
  · rintro ⟨keys, mirrored, attributed⟩
    apply SortedMap.ext_get?
    intro name
    rw [mapOfTable, SortedMap.get?_map]
    cases found : table.get? name with
    | none =>
      have absent := SortedMap.get?_eq_none_iff.mp found
      exact SortedMap.get?_eq_none_iff.mpr (keys ▸ absent)
    | some node =>
      obtain ⟨value, here, mirrors⟩ := mirrored name node found
      rw [here, Option.map_some, eq_ofNode_of_mirrors mirrors (attributed name value here)]

/-- A table becomes the one map with its keys and its shape in which every value, at every depth, has the
place given. So the values of a file all come from that file, those of an assignment from the command
line, those that a manifest gives itself or for a toolchain from the manifest, and those of a block from
the place of the block. -/
theorem conversion_exact :
    (∀ place table values, values = mapOfTable place table ↔ MirrorsTable place table values) ∧
      (∀ read (path : SystemString) values sources,
        Inputs.loadFile read (some path) = .ok (values, sources) →
          UniformMap (some (.ofFile path.shown)) values) ∧
      (∀ text name value, Assignment.parse text = .ok (name, value) →
        value.Uniform (some Assignment.commandLine)) ∧
      ∀ path table manifest, Manifest.ofTable? path table = some manifest →
        manifest.path = path ∧ UniformMap (some (.ofFile path)) manifest.defaults ∧
          ∀ spec ∈ manifest.toolchains, UniformMap (some (.ofFile path)) spec.overrides ∧
            ∀ block ∈ spec.blocks, UniformMap (some block.origin) block.arguments := by
  refine ⟨fun _ _ _ => eq_mapOfTable_iff, fun _ _ _ _ loaded => ?_,
    fun _ _ _ parsed => Assignment.uniform_of_parse parsed, ?_⟩
  · obtain ⟨_, table, _, _, rfl, _⟩ := Inputs.loadFile_some_eq_ok_iff.mp loaded
    exact uniform_mapOfTable _ table
  intro path table manifest described
  obtain ⟨same, defaults, toolchains⟩ := Manifest.attributed_of_ofTable? described
  refine ⟨same, defaults, fun spec member => ?_⟩
  exact ⟨(toolchains spec member).overrides, (toolchains spec member).blocks⟩

def everyKindTable : Toml.Table :=
  .ofList [("a", .array [.integer 1, .table [("b", .float (.finite false 4503599627370496 (-53)))]]),
    ("c", .table [("d", .temporal (.date ⟨1979, 5, 27⟩)), ("e", .boolean true)]),
    ("f", .string "g")]

def everyKind (place : Origin) : NameMap Value :=
  .ofList [("a", .list place [.integer place 1, .scope place [("b", .string place "0.5")]]),
    ("c", .scope place [("d", .string place "1979-05-27"), ("e", .boolean place true)]),
    ("f", .string place "g")]

def listValues (place : Origin) : NameMap Value :=
  .ofList [("x", .list place [.boolean place true])]

theorem load_listValues :
    Inputs.loadFile (.ofTexts [("f", "x = [true]")]) (some "f") =
      .ok (listValues (.ofFile "f"), [.ofText "f" "x = [true]"]) := by
  have made : (Toml.parse "x = [true]").map (mapOfTable (.ofFile "f")) =
      some (listValues (.ofFile "f")) := by
    cbv
  obtain ⟨table, read, same⟩ := Option.map_eq_some_iff.mp made
  rw [Inputs.loadFile_some_eq_ok_iff, SystemString.shown_ofText]
  exact ⟨_, table, holds_ofTexts rfl, read, same.symm, rfl⟩

theorem conversion_exact_everyKind :
    MirrorsTable (.ofFile "f") everyKindTable (everyKind (.ofFile "f")) ∧
      (∃ sources, Inputs.loadFile (.ofTexts [("f", "x = [true]")]) (some "f") =
        .ok (listValues (.ofFile "f"), sources)) ∧
      UniformMap (some (.ofFile "f")) (listValues (.ofFile "f")) ∧
      Assignment.parse "x=word" = .ok ("x", .string Assignment.commandLine "word") ∧
      (Value.string Assignment.commandLine "word").Uniform (some Assignment.commandLine) ∧
      ∃ table, Manifest.ofTable? "m" table = some sharedBlockManifest ∧
        UniformMap (some (.ofFile "m")) sharedBlockManifest.defaults ∧
        ∀ spec ∈ sharedBlockManifest.toolchains, UniformMap (some (.ofFile "m")) spec.overrides ∧
          ∀ block ∈ spec.blocks, UniformMap (some block.origin) block.arguments := by
  obtain ⟨converted, file, assignment, manifest⟩ := conversion_exact
  have ofFile := file _ _ _ _ load_listValues
  rw [SystemString.shown_ofText] at ofFile
  have word : Assignment.parse "x=word" = .ok ("x", .string Assignment.commandLine "word") := by cbv
  obtain ⟨table, _, described, _⟩ := Manifest.parse_eq_ok_iff.mp parse_sharedBlockText
  exact ⟨(converted _ _ _).mp rfl, ⟨_, load_listValues⟩, ofFile, word, assignment _ _ _ word, table,
    described, (manifest _ _ _ described).2⟩

end Value
end BuildArgs
