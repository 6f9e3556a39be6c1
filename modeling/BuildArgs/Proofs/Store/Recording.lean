import BuildArgs.Proofs.Declaration
import BuildArgs.Store

/-! What the operations of a store record, and when a declaration is refused. -/

namespace BuildArgs.Store

def Declares (store : Store) (toolchain : Toolchain) (declaration : Declaration) : Prop :=
  declaration.place ≠ none ∧
    ((store.declaredIn toolchain).get? declaration.name).map Value.origin = some declaration.place

def recordAll (declared : NameMap Value) (entries : List (String × Value)) : NameMap Value :=
  entries.foldl (fun declared entry => record declared entry.1 entry.2) declared

theorem get?_record (declared : NameMap Value) (name other : String) (value : Value) :
    (record declared name value).get? other =
      if other = name ∧ ((declared.get? name).bind Value.origin) = none then some value
      else declared.get? other := by
  unfold record
  split
  · rename_i existing found
    cases origin : existing.origin with
    | none => simp [found, origin, SortedMap.get?_insert]
    | some place => simp [found, origin]
  · rename_i missing
    simp [missing, SortedMap.get?_insert]

theorem get?_recordAll {declared : NameMap Value} {entries : List (String × Value)}
    (placed : ∀ entry ∈ entries, entry.2.origin ≠ none) (name : String) :
    (recordAll declared entries).get? name =
      if (declared.get? name).bind Value.origin = none then
        (entries.lookup name).or (declared.get? name)
      else declared.get? name := by
  induction entries generalizing declared with
  | nil => simp [recordAll]
  | cons entry rest ih =>
    obtain ⟨key, value⟩ := entry
    have later : ∀ entry ∈ rest, entry.2.origin ≠ none :=
      fun entry member => placed entry (List.mem_cons_of_mem _ member)
    have here : value.origin ≠ none := placed (key, value) List.mem_cons_self
    change (recordAll (record declared key value) rest).get? name = _
    rw [ih later, get?_record]
    by_cases same : name = key
    · subst same
      by_cases free : (declared.get? name).bind Value.origin = none
      · simp [free, here]
      · simp [free]
    · have other : (name == key) = false := by simp [same]
      simp [same, List.lookup_cons, other]

theorem mem_of_get?_recordAll {declared : NameMap Value} {entries : List (String × Value)}
    {name : String} {value : Value} (found : (recordAll declared entries).get? name = some value) :
    (name, value) ∈ entries ∨ declared.get? name = some value := by
  induction entries generalizing declared with
  | nil => exact Or.inr found
  | cons entry rest ih =>
    rcases ih found with later | recorded
    · exact Or.inl (List.mem_cons_of_mem _ later)
    · rw [get?_record] at recorded
      split at recorded
      · rename_i new
        cases recorded
        exact Or.inl (new.1 ▸ List.mem_cons_self)
      · exact Or.inr recorded

def recordEntry (store : Store) (toolchain : Toolchain) (entry : String × Value) : Store :=
  { store with declared :=
      store.declared.insert toolchain (record (store.declaredIn toolchain) entry.1 entry.2) }

theorem declaredIn_recordEntry (store : Store) (toolchain other : Toolchain)
    (entry : String × Value) :
    (store.recordEntry toolchain entry).declaredIn other =
      if other = toolchain then record (store.declaredIn toolchain) entry.1 entry.2
      else store.declaredIn other := by
  by_cases same : other = toolchain
  · simp [recordEntry, declaredIn, same]
  · simp [recordEntry, declaredIn, same, SortedMap.get?_insert_ne _ _ same]

theorem Declares.recorded {store : Store} {toolchain : Toolchain} {declaration : Declaration}
    (declares : store.Declares toolchain declaration) :
    ∃ value, (store.declaredIn toolchain).get? declaration.name = some value ∧
      value.origin = declaration.place :=
  Option.map_eq_some_iff.mp declares.2

theorem declares_of_recorded {store : Store} {toolchain : Toolchain} {name : String}
    {value : Value} (recorded : (store.declaredIn toolchain).get? name = some value)
    (placed : value.origin ≠ none) : store.Declares toolchain ⟨name, value.origin⟩ :=
  ⟨placed, by simp [recorded]⟩

theorem recorded_recordEntry {store : Store} {toolchain : Toolchain} {name : String}
    {value : Value} (recorded : (store.declaredIn toolchain).get? name = some value)
    (placed : value.origin ≠ none) (other : Toolchain) (entry : String × Value) :
    ((store.recordEntry other entry).declaredIn toolchain).get? name = some value := by
  rw [declaredIn_recordEntry]
  split
  · rename_i same
    subst same
    have kept : ¬ (name = entry.1 ∧
        (((store.declaredIn toolchain).get? entry.1).bind Value.origin) = none) := by
      rintro ⟨rfl, missing⟩
      rw [recorded, Option.bind_some] at missing
      exact placed missing
    rw [get?_record, if_neg kept, recorded]
  · exact recorded

theorem Declares.recordEntry {store : Store} {toolchain : Toolchain} {declaration : Declaration}
    (declares : store.Declares toolchain declaration) (other : Toolchain)
    (entry : String × Value) : (store.recordEntry other entry).Declares toolchain declaration := by
  obtain ⟨value, recorded, place⟩ := declares.recorded
  have kept := recorded_recordEntry recorded (place ▸ declares.1) other entry
  exact ⟨declares.1, by rw [kept, Option.map_some, place]⟩

theorem Declares.of_recordEntry {store : Store} {toolchain other : Toolchain}
    {declaration : Declaration} {entry : String × Value}
    (declares : (store.recordEntry other entry).Declares toolchain declaration) :
    store.Declares toolchain declaration ∨ toolchain = other ∧ declaration = .ofEntry entry := by
  obtain ⟨value, recorded, place⟩ := declares.recorded
  rw [declaredIn_recordEntry] at recorded
  split at recorded
  · rename_i same
    rw [get?_record] at recorded
    split at recorded
    · rename_i new
      cases recorded
      refine Or.inr ⟨same, ?_⟩
      cases declaration
      simp_all [Declaration.ofEntry]
    · exact Or.inl ⟨declares.1, by simp [same, recorded, place]⟩
  · exact Or.inl ⟨declares.1, by simp [recorded, place]⟩

theorem declares_recordEntry_self {store : Store} {toolchain : Toolchain} {entry : String × Value}
    (placed : entry.2.origin ≠ none)
    (clear : ∀ own, store.Declares toolchain own → ¬ own.Clashes (.ofEntry entry)) :
    (store.recordEntry toolchain entry).Declares toolchain (.ofEntry entry) := by
  refine ⟨placed, ?_⟩
  rw [declaredIn_recordEntry, if_pos rfl, get?_record]
  simp only [Declaration.ofEntry, true_and]
  split
  · simp
  · rename_i present
    cases recorded : (store.declaredIn toolchain).get? entry.1 with
    | none => simp [recorded] at present
    | some existing =>
      simp only [recorded, Option.bind_some] at present
      have apart := clear _ (declares_of_recorded recorded present)
      have place : existing.origin = entry.2.origin :=
        Classical.not_not.mp fun differ => apart ⟨rfl, differ⟩
      simp [place]

theorem mem_recordings_iff {store : Store} {toolchain : Toolchain} {name : String}
    {recording : Toolchain × Value} :
    recording ∈ store.recordings toolchain name ↔
      (store.declaredIn recording.1).get? name = some recording.2 := by
  obtain ⟨other, value⟩ := recording
  simp only [recordings, List.mem_append, List.mem_map, Option.mem_toList, Prod.mk.injEq,
    List.mem_filterMap]
  constructor
  · rintro (⟨found, own, rfl, rfl⟩ | ⟨entry, member, there⟩)
    · exact own
    · split at there
      · simp at there
      · obtain ⟨found, recorded, same⟩ := Option.map_eq_some_iff.mp there
        cases same
        simpa [declaredIn, SortedMap.get?_eq_some_iff.mpr member] using recorded
  · intro recorded
    by_cases same : other = toolchain
    · exact Or.inl ⟨value, same ▸ recorded, same.symm, rfl⟩
    · cases context : store.declared.get? other with
      | none => simp [declaredIn, context] at recorded
      | some declared =>
        refine Or.inr ⟨(other, declared), SortedMap.get?_eq_some_iff.mp context, ?_⟩
        simp only [declaredIn, context, Option.getD_some] at recorded
        simp [same, recorded]

theorem conflict?_eq_none_iff {store : Store} {toolchain : Toolchain} {name : String}
    {incoming : Value} :
    store.conflict? toolchain name incoming = none ↔
      ∀ other value, (store.declaredIn other).get? name = some value →
        Compatible name value incoming := by
  simp only [conflict?, Option.map_eq_none_iff, List.find?_eq_none, Prod.forall, mem_recordings_iff,
    Bool.not_eq_true', decide_eq_false_iff_not, Classical.not_not]

theorem exists_of_conflict? {store : Store} {toolchain : Toolchain} {name : String}
    {incoming : Value} {error : ArgError}
    (refused : store.conflict? toolchain name incoming = some error) :
    ∃ other value, (store.declaredIn other).get? name = some value ∧
      ¬ Compatible name value incoming ∧
      error = duplicate name toolchain incoming (other, value) ∧
      (other ≠ toolchain → ∀ own, (store.declaredIn toolchain).get? name = some own →
        Compatible name own incoming) := by
  unfold conflict? at refused
  obtain ⟨⟨other, value⟩, found, rfl⟩ := Option.map_eq_some_iff.mp refused
  have recorded := mem_recordings_iff.mp (List.mem_of_find?_eq_some found)
  have apart : ¬ Compatible name value incoming := by simpa using List.find?_some found
  refine ⟨other, value, recorded, apart, rfl, ?_⟩
  intro foreign own ownRecorded
  rw [recordings, ownRecorded] at found
  simp only [Option.toList_some, List.map_cons, List.map_nil, List.cons_append, List.nil_append,
    List.find?_cons] at found
  split at found
  · cases found
    exact absurd rfl foreign
  · rename_i compatible
    simpa using compatible

end BuildArgs.Store
