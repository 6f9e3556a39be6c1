import BuildArgs.Proofs.Build.Loading
import BuildArgs.Proofs.Manifest.Blocks
import BuildArgs.Proofs.Path.Texts
import BuildArgs.Proofs.Sorting

/-! The files that a build depends on. The build files of the blocks are a set of texts before they
join the files that were read in a set of paths; what is left of them there is told from the blocks
alone, without the first set. The files that were read are in the set by the texts that are shown for
their paths, which are spellings of other paths where these are no texts. -/

namespace BuildArgs

open BuildArgs.Path (Same Below LastSpelling)

namespace Manifest

variable {manifest : Manifest} {front : List SystemString} {path : SystemString} {name : String}

def blockFiles (manifest : Manifest) : List String :=
  manifest.blocks.map fun block => block.origin.file

def sortedBlockFiles (manifest : Manifest) : List String :=
  manifest.blockFiles.mergeSort fun one other => (compare one other).isLE

theorem mem_sortedBlockFiles_iff : name ∈ manifest.sortedBlockFiles ↔ name ∈ manifest.blockFiles :=
  (List.mergeSort_perm ..).mem_iff

theorem mem_buildFiles_iff : name ∈ manifest.buildFiles ↔ name ∈ manifest.blockFiles := by
  have entered : manifest.buildFiles =
      (SortedMap.ofList (manifest.blockFiles.map fun file => (file, ()))).keys := by
    rw [blockFiles, blocks, List.map_flatMap]
    rfl
  rw [entered, SortedMap.ofList, SortedMap.mem_keys_insertList_iff, List.map_map]
  simp [Function.comp_def, SortedMap.keys, SortedMap.empty]

theorem sorted_buildFiles (manifest : Manifest) :
    manifest.buildFiles.Pairwise fun one other => (compare one other).isLE = true := by
  rw [buildFiles, SortedMap.keys, List.pairwise_map]
  exact (SortedMap.ascending _).imp Ordering.isLE_of_eq_lt

theorem lastSpelling_buildFiles_iff :
    LastSpelling (front ++ manifest.buildFiles.map .ofText) path ↔
      LastSpelling (front ++ manifest.sortedBlockFiles.map .ofText) path :=
  Path.lastSpelling_congr_of_sorted manifest.sorted_buildFiles (sorted_mergeSort id _) fun _ =>
    mem_buildFiles_iff.trans mem_sortedBlockFiles_iff.symm

end Manifest

namespace Inputs

variable {read : ReadFile} {path : SystemString} {file : Option SystemString}
  {assignments : List String} {inputs : Inputs}

/-- That the files of inputs are those of a manifest path, a file of assignments and the blocks. -/
structure ListsDependencies (path : SystemString) (file : Option SystemString) (inputs : Inputs) :
    Prop where
  ascending : inputs.files.paths.Pairwise fun one other : String => Below one other
  complete : ∀ name : SystemString, (∃ spelled ∈ inputs.files.paths, Same spelled name) ↔
    Same path name ∨ (∃ given, file = some given ∧ Same given name) ∨
      ∃ block ∈ inputs.manifest.blocks, Same block.origin.file name
  spelling : ∀ spelled ∈ inputs.files.paths,
    LastSpelling (path :: file.toList ++ inputs.manifest.sortedBlockFiles.map .ofText) spelled

theorem paths_of_load (loaded : load read path file assignments = .ok inputs) :
    inputs.sources.map Source.path = path.shown :: (file.map SystemString.shown).toList := by
  obtain ⟨_, _, _, all⟩ := exists_loaded loaded
  exact all.sources

theorem files_of_load (loaded : load read path file assignments = .ok inputs) :
    inputs.files =
      .ofPaths (path.shown :: (file.map SystemString.shown).toList ++ inputs.manifest.buildFiles) := by
  rw [files, paths_of_load loaded]

theorem lastSpelling_of_mem_files (loaded : load read path file assignments = .ok inputs)
    {spelled : String} (member : spelled ∈ inputs.files.paths) :
    LastSpelling (.ofText path.shown :: (file.map fun given => .ofText given.shown).toList ++
      inputs.manifest.sortedBlockFiles.map .ofText) spelled := by
  rw [files_of_load loaded, FileSet.mem_paths_iff, List.map_append,
    Manifest.lastSpelling_buildFiles_iff] at member
  cases file <;> exact member

theorem listsDependencies_of_load (loaded : load read path file assignments = .ok inputs) :
    ListsDependencies path.shown (file.map fun given => .ofText given.shown) inputs where
  ascending := FileSet.paths_ascending _
  spelling _ member := lastSpelling_of_mem_files loaded member
  complete name := by
    rw [files_of_load loaded, FileSet.exists_same_iff]
    simp only [List.cons_append, List.mem_cons, List.mem_append, Option.mem_toList,
      Option.map_eq_some_iff, Manifest.mem_buildFiles_iff, Manifest.blockFiles, List.mem_map,
      or_and_right, exists_or, exists_eq_left, exists_exists_and_eq_and]

theorem shown_of_isText {word : SystemString} (known : word.IsText) : .ofText word.shown = word := by
  obtain ⟨text, rfl⟩ := known
  rw [SystemString.shown_ofText]

/-- The set is that of the paths themselves exactly if these are texts. -/
theorem listsDependencies_iff (loaded : load read path file assignments = .ok inputs) :
    ListsDependencies path file inputs ↔ path.IsText ∧ ∀ given, file = some given → given.IsText := by
  constructor
  · intro lists
    refine ⟨?_, fun given named => ?_⟩
    · obtain ⟨spelled, _, same⟩ := (lists.complete path).mpr (.inl rfl)
      exact Path.isText_of_same same
    · obtain ⟨spelled, _, same⟩ := (lists.complete given).mpr (.inr (.inl ⟨given, named, rfl⟩))
      exact Path.isText_of_same same
  · rintro ⟨known, knownFile⟩
    have lists := listsDependencies_of_load loaded
    have here : file.map (fun given => .ofText given.shown) = file := by
      cases file with
      | none => rfl
      | some given => exact congrArg some (shown_of_isText (knownFile given rfl))
    rwa [shown_of_isText known, here] at lists

/-- Of loaded inputs the files are in order, complete and spelled as they were given last exactly if the
paths that were given are texts; otherwise they are so of the texts that are shown for the paths. No
other inputs with the same paths and the same build files in blocks have different ones, in whatever
order and however often the blocks name them. -/
theorem files_canonical_iff (loaded : load read path file assignments = .ok inputs) :
    (ListsDependencies path file inputs ↔
      path.IsText ∧ ∀ given, file = some given → given.IsText) ∧
    ListsDependencies path.shown (file.map fun given => .ofText given.shown) inputs ∧
      ∀ otherRead otherAssignments other,
        load otherRead path file otherAssignments = .ok other →
        (∀ name, name ∈ other.manifest.blockFiles ↔ name ∈ inputs.manifest.blockFiles) →
          other.files = inputs.files := by
  refine ⟨listsDependencies_iff loaded, listsDependencies_of_load loaded,
    fun otherRead otherAssignments other reloaded same => ?_⟩
  rw [files_of_load loaded, files_of_load reloaded]
  refine FileSet.ofPaths_congr fun spelled => ?_
  rw [List.map_append, List.map_append]
  refine Path.lastSpelling_congr_of_sorted other.manifest.sorted_buildFiles
    inputs.manifest.sorted_buildFiles fun name => ?_
  rw [Manifest.mem_buildFiles_iff, Manifest.mem_buildFiles_iff, same name]

end Inputs

/-- Two spellings of one path in different toolchains, beside one with a leading dot, which is another
path, and a second spelling of the manifest's own path. -/
def respelledText : String :=
  "[[toolchain]]\nlabel = 'a'\ndeclare_args = [['b//c'], ['m/']]\n" ++
  "[[toolchain]]\nlabel = 'b'\ndeclare_args = [['b/c'], ['./b/c']]\n"

def respelled : Manifest :=
  ⟨"m", ∅, [⟨⟨"a", false⟩, ∅, [⟨.ofFile "b//c", ∅⟩, ⟨.ofFile "m/", ∅⟩]⟩,
    ⟨⟨"b", false⟩, ∅, [⟨.ofFile "b/c", ∅⟩, ⟨.ofFile "./b/c", ∅⟩]⟩]⟩

def reorderedText : String :=
  "[[toolchain]]\nlabel = 'b'\ndeclare_args = [['./b/c'], ['b/c'], ['./b/c']]\n" ++
  "[[toolchain]]\nlabel = 'a'\ndeclare_args = [['m/'], ['b//c']]\n"

def reordered : Manifest :=
  ⟨"m", ∅, [⟨⟨"b", false⟩, ∅, [⟨.ofFile "./b/c", ∅⟩, ⟨.ofFile "b/c", ∅⟩, ⟨.ofFile "./b/c", ∅⟩]⟩,
    ⟨⟨"a", false⟩, ∅, [⟨.ofFile "m/", ∅⟩, ⟨.ofFile "b//c", ∅⟩]⟩]⟩

theorem load_beside {text : String} {manifest : Manifest}
    (parsed : Manifest.parse "m" text = .ok manifest) :
    ∃ inputs, Inputs.load (.ofTexts [("m", text), ("b/./c", "")]) "m" (some "b/./c") [] = .ok inputs ∧
      inputs.manifest = manifest := by
  have empty : Toml.parse "" = some ∅ := by cbv
  have fromFile : Inputs.loadFile (.ofTexts [("m", text), ("b/./c", "")]) (some "b/./c") =
      .ok (∅, [.ofText "b/./c" ""]) :=
    Inputs.loadFile_some_eq_ok_iff.mpr ⟨_, _, holds_ofTexts rfl, empty, rfl, rfl⟩
  have shown : Manifest.parse (SystemString.ofText "m").shown text = .ok manifest := by
    rw [SystemString.shown_ofText, parsed]
  exact ⟨_, Inputs.load_eq_ok (holds_ofTexts rfl) shown fromFile rfl, rfl⟩

set_option maxRecDepth 4000 in
theorem files_canonical_respelled :
    ∃ inputs other,
      Inputs.load (.ofTexts [("m", respelledText), ("b/./c", "")]) "m" (some "b/./c") [] = .ok inputs ∧
      Inputs.load (.ofTexts [("m", reorderedText), ("b/./c", "")]) "m" (some "b/./c") [] = .ok other ∧
      inputs.files.paths = ["./b/c", "b/c", "m/"] ∧ inputs.ListsDependencies "m" (some "b/./c") ∧
      other.files = inputs.files := by
  have parsed : Manifest.parse "m" respelledText = .ok respelled := by cbv
  have reparsed : Manifest.parse "m" reorderedText = .ok reordered := by cbv
  obtain ⟨inputs, loaded, here⟩ := load_beside parsed
  obtain ⟨other, reloaded, there⟩ := load_beside reparsed
  have same : ∀ name, name ∈ other.manifest.blockFiles ↔ name ∈ inputs.manifest.blockFiles := by
    have forward : reordered.blockFiles ⊆ respelled.blockFiles := by decide
    have backward : respelled.blockFiles ⊆ reordered.blockFiles := by decide
    rw [here, there]
    exact fun name => ⟨fun member => forward member, fun member => backward member⟩
  have paths : inputs.files.paths = ["./b/c", "b/c", "m/"] := by
    rw [Inputs.files_of_load loaded, here, Option.map_some, SystemString.shown_ofText,
      SystemString.shown_ofText]
    decide +kernel
  obtain ⟨lists, _, unchanged⟩ := Inputs.files_canonical_iff loaded
  exact ⟨inputs, other, loaded, reloaded, paths, lists.mpr ⟨⟨_, rfl⟩, fun given named =>
    ⟨_, (Option.some.inj named).symm⟩⟩, unchanged _ _ other reloaded same⟩

def brokenName : SystemString := ⟨[0x6d, 0xff, 0x2e, 0x74, 0x6f, 0x6d, 0x6c]⟩

/-- An empty manifest with that name is loaded, and the only file in the set is another one. -/
theorem not_listsDependencies_brokenName :
    ∃ inputs, Inputs.load (fun _ => .ok []) brokenName none [] = .ok inputs ∧
      inputs.files.paths = ["m\ufffd.toml"] ∧
      ¬ Path.Same (SystemString.ofText "m\ufffd.toml") brokenName ∧
      ¬ inputs.ListsDependencies brokenName none := by
  have shown : brokenName.shown = "m\ufffd.toml" := by cbv
  have parsed : Manifest.parse brokenName.shown "" = .ok ⟨brokenName.shown, ∅, []⟩ := by
    rw [shown]
    cbv
  have broken : ¬ brokenName.IsText := by
    rintro ⟨text, same⟩
    have decoded := SystemString.text?_eq_some_iff.mpr same
    have none : brokenName.text? = none := by cbv
    rw [none] at decoded
    cases decoded
  have held : ReadFile.Holds (fun _ => .ok []) brokenName "" := rfl
  have noFile : Inputs.loadFile (fun _ => .ok []) none = .ok (∅, []) := rfl
  have noAssignments : ([] : List String).mapM Assignment.parse = .ok [] := rfl
  have loaded := Inputs.load_eq_ok held parsed noFile noAssignments
  refine ⟨_, loaded, ?_, fun same => broken (Path.isText_of_same same), fun lists =>
    broken ((Inputs.listsDependencies_iff loaded).mp lists).1⟩
  rw [Inputs.files_of_load loaded, shown]
  decide +kernel

end BuildArgs
