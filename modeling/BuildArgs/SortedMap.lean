/-!
Finite maps kept as strictly ascending lists of entries. The order is part of the
type, so a listing is reproducible, and two maps with the same look-ups are equal:
every statement about a map can be made through `get?`.
-/

namespace BuildArgs

/-- Entries with distinct keys, smallest key first. -/
structure SortedMap (κ α : Type) [Ord κ] where
  entries : List (κ × α)
  ascending : entries.Pairwise fun left right => compare left.1 right.1 = .lt

abbrev NameMap (α : Type) := SortedMap String α

namespace SortedMap

variable {κ α β : Type} [Ord κ]

def lookup (key : κ) : List (κ × α) → Option α
  | [] => none
  | (first, value) :: rest => if compare key first = .eq then some value else lookup key rest

def put (key : κ) (value : α) : List (κ × α) → List (κ × α)
  | [] => [(key, value)]
  | (first, old) :: rest =>
    match compare key first with
    | .lt => (key, value) :: (first, old) :: rest
    | .eq => (key, value) :: rest
    | .gt => (first, old) :: put key value rest

theorem mem_put {key : κ} {value : α} {entries : List (κ × α)} {entry : κ × α}
    (member : entry ∈ put key value entries) : entry = (key, value) ∨ entry ∈ entries := by
  induction entries with
  | nil => simpa [put] using member
  | cons head rest ih =>
    obtain ⟨first, old⟩ := head
    simp only [put] at member
    split at member
    · simpa using member
    · rcases List.mem_cons.mp member with same | later
      · exact Or.inl same
      · exact Or.inr (List.mem_cons_of_mem _ later)
    · rcases List.mem_cons.mp member with same | later
      · exact Or.inr (same ▸ List.mem_cons_self)
      · rcases ih later with new | old
        · exact Or.inl new
        · exact Or.inr (List.mem_cons_of_mem _ old)

theorem put_ascending [Std.TransOrd κ] [Std.LawfulEqOrd κ] (key : κ) (value : α)
    {entries : List (κ × α)}
    (ascending : entries.Pairwise fun left right => compare left.1 right.1 = .lt) :
    (put key value entries).Pairwise fun left right => compare left.1 right.1 = .lt := by
  induction entries with
  | nil => simp [put]
  | cons head rest ih =>
    obtain ⟨first, old⟩ := head
    obtain ⟨above, sorted⟩ := List.pairwise_cons.mp ascending
    simp only [put]
    split
    · rename_i below
      refine List.pairwise_cons.mpr ⟨fun entry member => ?_, ascending⟩
      rcases List.mem_cons.mp member with same | later
      · exact same ▸ below
      · exact Std.TransCmp.lt_trans below (above entry later)
    · rename_i same
      have equal : key = first := Std.LawfulEqOrd.eq_of_compare same
      exact List.pairwise_cons.mpr ⟨fun entry member => equal ▸ above entry member, sorted⟩
    · rename_i beyond
      refine List.pairwise_cons.mpr ⟨fun entry member => ?_, ih sorted⟩
      rcases mem_put member with new | later
      · exact new ▸ Std.OrientedCmp.lt_of_gt beyond
      · exact above entry later

def empty : SortedMap κ α := ⟨[], .nil⟩

instance : EmptyCollection (SortedMap κ α) := ⟨empty⟩

instance : Inhabited (SortedMap κ α) := ⟨empty⟩

instance [DecidableEq κ] [DecidableEq α] : DecidableEq (SortedMap κ α) := fun left right =>
  decidable_of_iff (left.entries = right.entries)
    ⟨fun same => by cases left; cases right; simp_all, fun same => same ▸ rfl⟩

def get? (map : SortedMap κ α) (key : κ) : Option α := lookup key map.entries

def contains (map : SortedMap κ α) (key : κ) : Bool := (map.get? key).isSome

def keys (map : SortedMap κ α) : List κ := map.entries.map Prod.fst

def values (map : SortedMap κ α) : List α := map.entries.map Prod.snd

def size (map : SortedMap κ α) : Nat := map.entries.length

def isEmpty (map : SortedMap κ α) : Bool := map.entries.isEmpty

def mapWithKey (change : κ → α → β) (table : SortedMap κ α) : SortedMap κ β :=
  ⟨table.entries.map fun entry => (entry.1, change entry.1 entry.2), by
    rw [List.pairwise_map]; exact table.ascending⟩

def map (change : α → β) (table : SortedMap κ α) : SortedMap κ β :=
  table.mapWithKey fun _ => change

def filter (keep : κ → α → Bool) (table : SortedMap κ α) : SortedMap κ α :=
  ⟨table.entries.filter fun entry => keep entry.1 entry.2, table.ascending.filter _⟩

theorem contains_eq_true_iff {map : SortedMap κ α} {key : κ} :
    map.contains key = true ↔ ∃ value, map.get? key = some value := by
  simp [contains, Option.isSome_iff_exists]

theorem size_eq_length_keys (map : SortedMap κ α) : map.size = map.keys.length := by
  simp [size, keys]

variable [Std.TransOrd κ] [Std.LawfulEqOrd κ]

def insert (map : SortedMap κ α) (key : κ) (value : α) : SortedMap κ α :=
  ⟨put key value map.entries, put_ascending key value map.ascending⟩

def insertList (map : SortedMap κ α) (entries : List (κ × α)) : SortedMap κ α :=
  entries.foldl (fun done entry => done.insert entry.1 entry.2) map

def insertAll (map more : SortedMap κ α) : SortedMap κ α := map.insertList more.entries

def ofList (entries : List (κ × α)) : SortedMap κ α := insertList empty entries

omit [Std.TransOrd κ] in
theorem lookup_put (key other : κ) (value : α) (entries : List (κ × α)) :
    lookup other (put key value entries) =
      if compare other key = .eq then some value else lookup other entries := by
  induction entries with
  | nil => rfl
  | cons head rest ih =>
    obtain ⟨first, old⟩ := head
    simp only [put]
    split
    · rfl
    · rename_i same
      have equal : key = first := Std.LawfulEqOrd.eq_of_compare same
      subst equal
      simp only [lookup]
      split <;> rfl
    · rename_i beyond
      simp only [lookup, ih]
      by_cases found : compare other first = .eq
      · have equal : other = first := Std.LawfulEqOrd.eq_of_compare found
        subst equal
        have apart : compare other key ≠ .eq := by
          intro same
          have equal : other = key := Std.LawfulEqOrd.eq_of_compare same
          subst equal
          simp at beyond
        simp [apart]
      · simp [found]

omit [Std.TransOrd κ] in
theorem filterMap_put {pick : κ × α → Option β} {key : κ}
    (ignored : ∀ value, pick (key, value) = none) (value : α) (entries : List (κ × α)) :
    (put key value entries).filterMap pick = entries.filterMap pick := by
  induction entries with
  | nil => simp [put, ignored]
  | cons head rest ih =>
    obtain ⟨first, old⟩ := head
    simp only [put]
    split
    · exact List.filterMap_cons_none (ignored value)
    · rename_i same
      have equal : key = first := Std.LawfulEqOrd.eq_of_compare same
      subst equal
      rw [List.filterMap_cons_none (ignored value), List.filterMap_cons_none (ignored old)]
    · rw [List.filterMap_cons, List.filterMap_cons, ih]

omit [Std.TransOrd κ] in
theorem lookup_eq_some_iff [Std.OrientedOrd κ] {entries : List (κ × α)}
    (ascending : entries.Pairwise fun left right => compare left.1 right.1 = .lt)
    {key : κ} {value : α} : lookup key entries = some value ↔ (key, value) ∈ entries := by
  induction entries with
  | nil => simp [lookup]
  | cons head rest ih =>
    obtain ⟨first, old⟩ := head
    obtain ⟨above, sorted⟩ := List.pairwise_cons.mp ascending
    simp only [lookup]
    split
    · rename_i same
      have equal : key = first := Std.LawfulEqOrd.eq_of_compare same
      subst equal
      constructor
      · intro found
        exact Option.some.inj found ▸ List.mem_cons_self
      · intro member
        rcases List.mem_cons.mp member with here | later
        · exact congrArg some (Prod.mk.inj here).2.symm
        · have below := above _ later
          simp at below
    · rename_i apart
      rw [ih sorted]
      constructor
      · exact List.mem_cons_of_mem _
      · intro member
        rcases List.mem_cons.mp member with here | later
        · exact absurd ((Prod.mk.inj here).1 ▸ Std.ReflOrd.compare_self) apart
        · exact later

omit [Std.TransOrd κ] [Std.LawfulEqOrd κ] in
@[simp] theorem get?_empty (key : κ) : (∅ : SortedMap κ α).get? key = none := rfl

theorem get?_insert (map : SortedMap κ α) (key other : κ) (value : α) :
    (map.insert key value).get? other =
      if compare other key = .eq then some value else map.get? other :=
  lookup_put key other value map.entries

@[simp] theorem get?_insert_self (map : SortedMap κ α) (key : κ) (value : α) :
    (map.insert key value).get? key = some value := by
  simp [get?_insert]

theorem get?_insert_ne (map : SortedMap κ α) {key other : κ} (value : α) (apart : other ≠ key) :
    (map.insert key value).get? other = map.get? other := by
  rw [get?_insert, if_neg]
  exact fun same => apart (Std.LawfulEqOrd.eq_of_compare same)

theorem get?_eq_some_iff {map : SortedMap κ α} {key : κ} {value : α} :
    map.get? key = some value ↔ (key, value) ∈ map.entries :=
  lookup_eq_some_iff map.ascending

omit [Std.TransOrd κ] [Std.LawfulEqOrd κ] in
theorem eq_of_entries {left right : SortedMap κ α} (same : left.entries = right.entries) :
    left = right := by
  cases left; cases right; simp_all

theorem ext_get? {left right : SortedMap κ α} (same : ∀ key, left.get? key = right.get? key) :
    left = right := by
  have members : ∀ entry, entry ∈ left.entries ↔ entry ∈ right.entries := by
    intro entry
    rw [← get?_eq_some_iff, ← get?_eq_some_iff, same]
  have distinct : ∀ map : SortedMap κ α, map.entries.Nodup := fun map =>
    map.ascending.imp fun below equal => by subst equal; simp at below
  apply eq_of_entries
  refine List.Perm.eq_of_pairwise ?_ left.ascending right.ascending
    ((List.perm_ext_iff_of_nodup (distinct left) (distinct right)).mpr members)
  intro one other _ _ below above
  exact absurd above (Std.OrientedCmp.not_lt_of_lt below)

omit [Std.TransOrd κ] in
theorem get?_mapWithKey (change : κ → α → β) (map : SortedMap κ α) (key : κ) :
    (map.mapWithKey change).get? key = (map.get? key).map (change key) := by
  obtain ⟨entries, ascending⟩ := map
  simp only [get?, mapWithKey]
  induction entries with
  | nil => rfl
  | cons head rest ih =>
    simp only [List.map_cons, lookup]
    split
    · rename_i same
      have equal : key = head.1 := Std.LawfulEqOrd.eq_of_compare same
      rw [equal]; rfl
    · exact ih (List.pairwise_cons.mp ascending).2

omit [Std.TransOrd κ] in
@[simp] theorem get?_map (change : α → β) (map : SortedMap κ α) (key : κ) :
    (map.map change).get? key = (map.get? key).map change :=
  get?_mapWithKey _ map key

omit [Std.TransOrd κ] [Std.LawfulEqOrd κ] in
@[simp] theorem keys_map (change : α → β) (map : SortedMap κ α) : (map.map change).keys = map.keys := by
  simp [keys, SortedMap.map, mapWithKey]

theorem mem_keys_iff {map : SortedMap κ α} {key : κ} :
    key ∈ map.keys ↔ map.contains key = true := by
  simp only [keys, contains, List.mem_map, Option.isSome_iff_exists]
  constructor
  · rintro ⟨⟨found, value⟩, member, rfl⟩
    exact ⟨value, get?_eq_some_iff.mpr member⟩
  · rintro ⟨value, found⟩
    exact ⟨(key, value), get?_eq_some_iff.mp found, rfl⟩

theorem get?_eq_none_iff {map : SortedMap κ α} {key : κ} : map.get? key = none ↔ key ∉ map.keys := by
  rw [mem_keys_iff, contains, Option.isSome_iff_ne_none, Classical.not_not]

omit [Std.LawfulEqOrd κ] in
theorem keys_nodup (map : SortedMap κ α) : map.keys.Nodup := by
  rw [keys, List.nodup_iff_pairwise_ne, List.pairwise_map]
  exact map.ascending.imp fun below equal => by simp [equal] at below

theorem mem_values_iff {map : SortedMap κ α} {value : α} :
    value ∈ map.values ↔ ∃ key, map.get? key = some value := by
  simp only [values, List.mem_map, Prod.exists, exists_eq_right, get?_eq_some_iff]

theorem findSome?_values_of_least {map : SortedMap κ α} {key : κ} {value : α}
    {pick : α → Option β} {result : β} (found : map.get? key = some value) (picked : pick value = some result)
    (least : ∀ other, map.contains other = true → other ≠ key → compare key other = .lt) :
    map.values.findSome? pick = some result := by
  obtain ⟨entries, ascending⟩ := map
  cases entries with
  | nil => cases found
  | cons head rest =>
    have first : head = (key, value) := by
      rcases List.mem_cons.mp (get?_eq_some_iff.mp found) with here | later
      · exact here.symm
      · have below := (List.pairwise_cons.mp ascending).1 _ later
        have apart : head.1 ≠ key := by
          intro same
          simp [same] at below
        have present : get? ⟨head :: rest, ascending⟩ head.1 = some head.2 :=
          get?_eq_some_iff.mpr List.mem_cons_self
        have above := least head.1 (contains_eq_true_iff.mpr ⟨_, present⟩) apart
        exact absurd below (Std.OrientedCmp.not_lt_of_lt above)
    simp [values, first, picked]

omit [Std.TransOrd κ] [Std.LawfulEqOrd κ] in
theorem lookup_eq_none_of_below {key : κ} {entries : List (κ × α)}
    (below : ∀ entry ∈ entries, compare key entry.1 = .lt) : lookup key entries = none := by
  induction entries with
  | nil => rfl
  | cons head rest ih =>
    have apart : compare key head.1 = .lt := below head List.mem_cons_self
    simp [lookup, apart, ih fun entry member => below entry (List.mem_cons_of_mem _ member)]

theorem get?_insertList (map : SortedMap κ α) {entries : List (κ × α)}
    (ascending : entries.Pairwise fun left right => compare left.1 right.1 = .lt) (key : κ) :
    (map.insertList entries).get? key = (lookup key entries).or (map.get? key) := by
  induction entries generalizing map with
  | nil => rfl
  | cons head rest ih =>
    obtain ⟨above, sorted⟩ := List.pairwise_cons.mp ascending
    change ((map.insert head.1 head.2).insertList rest).get? key = _
    rw [ih (map.insert head.1 head.2) sorted, get?_insert]
    by_cases same : compare key head.1 = .eq
    · have equal : key = head.1 := Std.LawfulEqOrd.eq_of_compare same
      subst equal
      simp [lookup, lookup_eq_none_of_below above]
    · simp [lookup, same]

theorem get?_insertAll (map more : SortedMap κ α) (key : κ) :
    (map.insertAll more).get? key = (more.get? key).or (map.get? key) :=
  get?_insertList map more.ascending key

theorem list_lookup_eq (entries : List (String × α)) (name : String) :
    entries.lookup name = lookup name entries := by
  induction entries with
  | nil => rfl
  | cons entry rest ih =>
    obtain ⟨key, value⟩ := entry
    by_cases same : name = key
    · simp [lookup, same]
    · have apart : (name == key) = false := by simp [same]
      simp [lookup, List.lookup_cons, same, apart, ih]

theorem get?_insertList_names (map : NameMap α) (entries : List (String × α))
    (name : String) :
    (map.insertList entries).get? name = (entries.reverse.lookup name).or (map.get? name) := by
  induction entries generalizing map with
  | nil => rfl
  | cons entry rest ih =>
    obtain ⟨entered, value⟩ := entry
    change ((map.insert entered value).insertList rest).get? name = _
    rw [ih, get?_insert, List.reverse_cons, List.lookup_append, Option.or_assoc]
    congr 1
    by_cases same : name = entered
    · simp [same]
    · have apart : (name == entered) = false := by simp [same]
      simp [same, List.lookup_cons, apart]

theorem mem_keys_insertList_iff {map : NameMap α} {entries : List (String × α)} {name : String} :
    name ∈ (map.insertList entries).keys ↔ name ∈ map.keys ∨ name ∈ entries.map Prod.fst := by
  rw [mem_keys_iff, mem_keys_iff, contains, contains, get?_insertList_names, Option.isSome_or,
    Bool.or_eq_true, List.lookup_isSome_iff, or_comm]
  simp only [List.mem_reverse, List.mem_map, beq_iff_eq, eq_comm (a := name)]

theorem insert_insert (map : SortedMap κ α) (key : κ) (old value : α) :
    (map.insert key old).insert key value = map.insert key value := by
  apply ext_get?
  intro other
  simp only [get?_insert]
  split <;> rfl

theorem insert_of_get? {map : SortedMap κ α} {key : κ} {value : α}
    (found : map.get? key = some value) : map.insert key value = map := by
  apply ext_get?
  intro other
  rw [get?_insert]
  split
  · rename_i same
    rw [Std.LawfulEqOrd.eq_of_compare same, found]
  · rfl

theorem insertList_append (map : SortedMap κ α) (first second : List (κ × α)) :
    map.insertList (first ++ second) = (map.insertList first).insertList second :=
  List.foldl_append

theorem insertList_insertList (map : NameMap α) (entries : List (String × α)) :
    (map.insertList entries).insertList entries = map.insertList entries := by
  apply ext_get?
  intro name
  simp only [get?_insertList_names, ← Option.or_assoc, Option.or_self]

@[simp] theorem empty_insertAll (map : SortedMap κ α) : (∅ : SortedMap κ α).insertAll map = map := by
  apply ext_get?
  intro key
  simp [get?_insertAll]

end SortedMap
end BuildArgs
