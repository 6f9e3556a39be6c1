import BuildArgs.Build.Evaluation
import BuildArgs.Proofs.Manifest.WellFormed
import BuildArgs.Proofs.Text.Utf8

/-! What the inputs of a build are, told from the texts of its files: the manifest is the one that is
written at its path, and of the explicit values those of the command line stand over those of the file,
and later ones over earlier ones. -/

namespace BuildArgs

def ReadFile.Holds (read : ReadFile) (path : SystemString) (text : String) : Prop :=
  read path = .ok (Utf8.encode text.toList)

/-- What the file of assignments says, if one is named. -/
inductive ReadFile.HoldsTable (read : ReadFile) : Option SystemString → Toml.Table → Prop
  | missing : HoldsTable read none ∅
  | text {given text table} : read.Holds given text → Toml.parse text = some table →
      HoldsTable read (some given) table

variable {read : ReadFile} {path : SystemString} {file : Option SystemString}
  {assignments : List String} {inputs : Inputs} {defaults fileTable : Toml.Table}
  {assigned : List (String × Value)} {text : String}

def Source.ofText (path : SystemString) (text : String) : Source :=
  ⟨path.shown, Digest.ofBytes (Utf8.encode text.toList)⟩

theorem ReadFile.Holds.unique {other : String} (holds : read.Holds path text)
    (also : read.Holds path other) : text = other := by
  have same : Utf8.encode text.toList = Utf8.encode other.toList :=
    Except.ok.inj (holds.symm.trans also)
  have decoded := Utf8.decode_eq_ok_iff.mpr same
  rw [Utf8.decode_eq_ok_iff.mpr rfl] at decoded
  exact String.toList_inj.mp (Except.ok.inj decoded)

theorem Source.load_eq_ok_iff {source : Source} :
    load read path = .ok (text, source) ↔ read.Holds path text ∧ source = .ofText path text := by
  unfold load ReadFile.Holds
  constructor
  · intro loaded
    split at loaded
    · cases loaded
    · rename_i bytes found
      split at loaded
      · cases loaded
      · rename_i chars decoded
        obtain rfl := Utf8.decode_eq_ok_iff.mp decoded
        cases loaded
        simp [found, ofText]
  · rintro ⟨found, rfl⟩
    simp [found, Utf8.decode_eq_ok_iff.mpr rfl, ofText]

namespace Inputs

theorem addAssignments_eq_ok_iff {overrides result : NameMap Value} {assignments : List String} :
    addAssignments overrides assignments = .ok result ↔
      ∃ assigned, assignments.mapM Assignment.parse = .ok assigned ∧
        result = overrides.insertList assigned := by
  induction assignments generalizing overrides with
  | nil => simp [addAssignments, pure, Except.pure, SortedMap.insertList, eq_comm]
  | cons text rest ih =>
    simp only [addAssignments, List.mapM_cons, bind_eq_ok_iff, ih]
    constructor
    · rintro ⟨entry, parsed, assigned, later, rfl⟩
      exact ⟨entry :: assigned, ⟨entry, parsed, assigned, later, rfl⟩, rfl⟩
    · rintro ⟨_, ⟨entry, parsed, assigned, later, same⟩, rfl⟩
      cases same
      exact ⟨entry, parsed, assigned, later, rfl⟩

/-- What is written in the texts of a build: in the manifest, with the project's defaults, in the file
of assignments if one is named, and in the assignments of the command line. -/
structure Written (read : ReadFile) (path : SystemString) (file : Option SystemString)
    (assignments : List String) (manifest : Manifest) (defaults fileTable : Toml.Table)
    (assigned : List (String × Value)) : Prop where
  located : manifest.path = path.shown
  said : ∃ text table, read.Holds path text ∧ Toml.parseUnresolved text = some table ∧
    manifest.WrittenAs table defaults
  given : read.HoldsTable file fileTable
  commandLine : assignments.mapM Assignment.parse = .ok assigned

def fileValues (file : Option SystemString) (table : Toml.Table) : NameMap Value :=
  match file with
  | none => ∅
  | some given => Value.mapOfTable (.ofFile given.shown) table

structure Loaded (read : ReadFile) (path : SystemString) (file : Option SystemString)
    (assignments : List String) (inputs : Inputs) (defaults fileTable : Toml.Table)
    (assigned : List (String × Value)) : Prop extends
    Written read path file assignments inputs.manifest defaults fileTable assigned where
  wellFormed : inputs.manifest.WellFormed
  overrides : inputs.overrides = (fileValues file fileTable).insertList assigned
  sources : inputs.sources.map Source.path = path.shown :: (file.map SystemString.shown).toList

theorem loadFile_some_eq_ok_iff {values : NameMap Value} {sources : List Source} :
    loadFile read (some path) = .ok (values, sources) ↔
      ∃ text table, read.Holds path text ∧ Toml.parse text = some table ∧
        values = Value.mapOfTable (.ofFile path.shown) table ∧ sources = [.ofText path text] := by
  have parsed {text : String} {place : String} : Assignment.parseFile place text = .ok values ↔
      ∃ table, Toml.parse text = some table ∧ values = Value.mapOfTable (.ofFile place) table := by
    unfold Assignment.parseFile
    cases Toml.parse text <;> simp [eq_comm]
  constructor
  · intro loaded
    simp only [loadFile, bind_eq_ok_iff, Prod.exists, Source.load_eq_ok_iff] at loaded
    obtain ⟨text, _, ⟨found, rfl⟩, _, parsedFile, same⟩ := loaded
    cases same
    obtain ⟨table, known, made⟩ := parsed.mp parsedFile
    exact ⟨text, table, found, known, made, rfl⟩
  · rintro ⟨text, table, found, known, made, rfl⟩
    simp only [loadFile, bind_eq_ok_iff, Prod.exists, Source.load_eq_ok_iff]
    exact ⟨text, _, ⟨found, rfl⟩, _, parsed.mpr ⟨table, known, made⟩, rfl⟩

theorem exists_loaded (loaded : load read path file assignments = .ok inputs) :
    ∃ defaults fileTable assigned,
      Loaded read path file assignments inputs defaults fileTable assigned := by
  simp only [load, bind_eq_ok_iff, Prod.exists, Source.load_eq_ok_iff] at loaded
  obtain ⟨text, _, ⟨held, rfl⟩, manifest, parsed, values, sources, fromFile, overrides, added, same⟩ :=
    loaded
  cases same
  obtain ⟨assigned, all, rfl⟩ := addAssignments_eq_ok_iff.mp added
  obtain ⟨table, read, described, _⟩ := Manifest.parse_eq_ok_iff.mp parsed
  obtain ⟨same, defaults, written⟩ := Manifest.ofTable?_eq_some_iff.mp described
  have wellFormed := Manifest.wellFormed_of_parse parsed
  cases file with
  | none =>
    cases fromFile
    exact ⟨defaults, ∅, assigned, ⟨same, ⟨text, table, held, read, written⟩, .missing, all⟩,
      wellFormed, rfl, rfl⟩
  | some given =>
    obtain ⟨fileText, fileTable, fileHeld, fileRead, rfl, rfl⟩ := loadFile_some_eq_ok_iff.mp fromFile
    exact ⟨defaults, fileTable, assigned,
      ⟨same, ⟨text, table, held, read, written⟩, .text fileHeld fileRead, all⟩, wellFormed, rfl, rfl⟩

theorem load_eq_ok {manifest : Manifest} {values : NameMap Value} {sources : List Source}
    (held : read.Holds path text) (parsed : Manifest.parse path.shown text = .ok manifest)
    (fromFile : loadFile read file = .ok (values, sources))
    (commandLine : assignments.mapM Assignment.parse = .ok assigned) :
    load read path file assignments =
      .ok ⟨manifest, values.insertList assigned, .ofText path text :: sources⟩ := by
  have opened : Source.load read path = .ok (text, .ofText path text) :=
    Source.load_eq_ok_iff.mpr ⟨held, rfl⟩
  have added : addAssignments values assignments = .ok (values.insertList assigned) :=
    addAssignments_eq_ok_iff.mpr ⟨assigned, commandLine, rfl⟩
  simp only [load, bind_eq_ok_iff]
  exact ⟨_, opened, _, parsed, _, fromFile, _, added, rfl⟩

theorem uniform_of_mapM_parse (parsed : assignments.mapM Assignment.parse = .ok assigned) :
    ∀ entry ∈ assigned, entry.2.Uniform (some Assignment.commandLine) := by
  intro entry member
  obtain ⟨text, _, here⟩ := exists_of_mem_forall₂ (mapM_eq_ok_iff.mp parsed) member
  exact Assignment.uniform_of_parse here

theorem keys_fileValues (given : read.HoldsTable file fileTable) :
    (fileValues file fileTable).keys = fileTable.keys := by
  cases given with
  | missing => rfl
  | text => exact SortedMap.keys_map _ _

theorem Loaded.get?_active
    (loaded : Loaded read path file assignments inputs defaults fileTable assigned) (host : Host)
    (name : String) :
    (inputs.prepare (.new host)).active.get? name =
      ((assigned.reverse.lookup name).or ((fileValues file fileTable).get? name)).or
        ((Value.mapOfTable (.ofFile path.shown) defaults).get? name) := by
  have given : (inputs.prepare (.new host)).active =
      inputs.manifest.defaults.insertAll inputs.overrides :=
    congrArg (·.insertAll inputs.overrides) (SortedMap.empty_insertAll _)
  obtain ⟨text, table, _, _, written⟩ := loaded.said
  rw [given, SortedMap.get?_insertAll, loaded.overrides, SortedMap.get?_insertList_names,
    written.values, loaded.located]

theorem Loaded.contains_supplied_iff
    (loaded : Loaded read path file assignments inputs defaults fileTable assigned) (host : Host)
    {name : String} :
    (inputs.prepare (.new host)).supplied.contains name = true ↔
      name ∈ fileTable.keys ∨ name ∈ assigned.map Prod.fst := by
  have given : (inputs.prepare (.new host)).supplied = inputs.overrides :=
    SortedMap.empty_insertAll _
  rw [given, loaded.overrides, ← SortedMap.mem_keys_iff, SortedMap.mem_keys_insertList_iff,
    keys_fileValues loaded.given]

end Inputs

def ReadFile.ofTexts (texts : List (String × String)) : ReadFile := fun path =>
  match path.text?.bind fun name => texts.lookup name with
  | some text => .ok (Utf8.encode text.toList)
  | none => .error .missing

theorem holds_ofTexts {texts : List (String × String)} {name : String}
    (found : texts.lookup name = some text) : (ReadFile.ofTexts texts).Holds name text := by
  simp [ReadFile.Holds, ReadFile.ofTexts, found]

/-- A build that gives one argument in every way there is, and each of the others in fewer ways. -/
def layeredText : String :=
  "default_args = \x7bw = 1, y = 1, z = 1\x7d\n" ++
  "[[toolchain]]\nlabel = 'a'\ndefault = true\ntoolchain_args.z = 4\n" ++
  "declare_args = [['f', 3, \x7bv = 0, w = 0, y = 0, z = 0\x7d]]\n" ++
  "[[toolchain]]\nlabel = 'b'\n" ++
  "declare_args = [['f', 3, \x7bv = 0, z = 0\x7d], ['f', 3, \x7bv = 5\x7d]]\n"

def layeredFileText : String := "y = 2\nz = 2\n"

def integersAt (place : Origin) (entries : List (String × Int64)) : NameMap Value :=
  .ofList (entries.map fun entry => (entry.1, .integer (some place) entry.2))

def layeredManifest : Manifest :=
  let block (entries : List (String × Int64)) : DeclareBlock :=
    ⟨⟨"f", some 3⟩, integersAt ⟨"f", some 3⟩ entries⟩
  ⟨"m", integersAt (.ofFile "m") [("w", 1), ("y", 1), ("z", 1)],
    [⟨⟨"a", true⟩, integersAt (.ofFile "m") [("z", 4)],
        [block [("v", 0), ("w", 0), ("y", 0), ("z", 0)]]⟩,
      ⟨⟨"b", false⟩, ∅, [block [("v", 0), ("z", 0)], block [("v", 5)]]⟩]⟩

def layeredFiles : ReadFile := .ofTexts [("m", layeredText), ("l", layeredFileText)]

def layeredInputs : Inputs :=
  ⟨layeredManifest, (integersAt (.ofFile "l") [("y", 2), ("z", 2)]).insertList
    [("z", .integer Assignment.commandLine 3)],
    [.ofText "m" layeredText, .ofText "l" layeredFileText]⟩

theorem parse_assignment :
    ["z = 3"].mapM Assignment.parse = .ok [("z", .integer Assignment.commandLine 3)] := by
  cbv

theorem parse_layeredText : Manifest.parse "m" layeredText = .ok layeredManifest := by
  cbv

set_option maxRecDepth 4000 in
theorem parse_layeredFileText : (Toml.parse layeredFileText).map (Value.mapOfTable (.ofFile "l")) =
    some (integersAt (.ofFile "l") [("y", 2), ("z", 2)]) := by
  cbv

theorem mapOfTable_layeredFile {table : Toml.Table} (given : layeredFiles.HoldsTable (some "l") table) :
    Value.mapOfTable (.ofFile "l") table = integersAt (.ofFile "l") [("y", 2), ("z", 2)] := by
  cases given with
  | text held read =>
    have same := held.unique (holds_ofTexts rfl)
    have made := parse_layeredFileText
    rw [← same, read] at made
    exact Option.some.inj made

theorem load_layeredInputs :
    Inputs.load layeredFiles "m" (some "l") ["z = 3"] = .ok layeredInputs := by
  have fromFile : Inputs.loadFile layeredFiles (some "l") =
      .ok (integersAt (.ofFile "l") [("y", 2), ("z", 2)], [.ofText "l" layeredFileText]) := by
    obtain ⟨table, read, made⟩ := Option.map_eq_some_iff.mp parse_layeredFileText
    rw [Inputs.loadFile_some_eq_ok_iff, SystemString.shown_ofText]
    exact ⟨_, table, holds_ofTexts rfl, read, made.symm, rfl⟩
  have parsed : Manifest.parse (SystemString.ofText "m").shown layeredText = .ok layeredManifest := by
    rw [SystemString.shown_ofText, parse_layeredText]
  exact Inputs.load_eq_ok (holds_ofTexts rfl) parsed fromFile parse_assignment

end BuildArgs
