import BuildArgs.Path
import BuildArgs.Proofs.Text.Utf8
import Mathlib.Data.List.Induction

/-! What a set of paths holds: the last spelling of each path that was put in, in the order of their
components. -/

namespace BuildArgs

namespace Path

def Same (one other : SystemString) : Prop := components one = components other

/-- Whether a path stands in front of another one, which is then not the same. -/
def Below (one other : SystemString) : Prop := compare (components one) (components other) = .lt

/-- Whether a spelling stands in a list with none of the same path after it. -/
def LastSpelling (paths : List SystemString) (path : SystemString) : Prop :=
  ∃ before after, paths = before ++ path :: after ∧ ∀ later ∈ after, ¬ Same later path

variable {front back paths : List SystemString} {path last : SystemString} {names others : List String}

theorem lastSpelling_append_iff : LastSpelling (front ++ back) path ↔
    LastSpelling back path ∨ LastSpelling front path ∧ ∀ later ∈ back, ¬ Same later path := by
  constructor
  · rintro ⟨before, after, split, apart⟩
    rcases List.append_eq_append_iff.mp split with ⟨more, rfl, rest⟩ | ⟨more, rfl, rest⟩
    · exact .inl ⟨more, after, rest, apart⟩
    · cases more with
      | nil => exact .inl ⟨[], after, rest.symm, apart⟩
      | cons head more =>
        obtain ⟨rfl, rfl⟩ := List.cons.inj rest
        obtain ⟨near, far⟩ := List.forall_mem_append.mp apart
        exact .inr ⟨⟨before, more, rfl, near⟩, far⟩
  · rintro (⟨before, after, rfl, apart⟩ | ⟨⟨before, after, rfl, near⟩, far⟩)
    · exact ⟨front ++ before, after, (List.append_assoc ..).symm, apart⟩
    · exact ⟨before, after ++ back, by simp, List.forall_mem_append.mpr ⟨near, far⟩⟩

theorem lastSpelling_singleton_iff : LastSpelling [last] path ↔ path = last := by
  constructor
  · rintro ⟨before, after, split, _⟩
    cases before with
    | nil => exact (List.cons.inj split).1.symm
    | cons head before => simp at split
  · rintro rfl
    exact ⟨[], [], rfl, nofun⟩

theorem LastSpelling.mem (spelled : LastSpelling paths path) : path ∈ paths := by
  obtain ⟨before, after, rfl, _⟩ := spelled
  exact List.mem_append_right _ List.mem_cons_self

theorem exists_lastSpelling (member : path ∈ paths) :
    ∃ spelled, LastSpelling paths spelled ∧ Same spelled path := by
  induction paths using List.reverseRecOn with
  | nil => cases member
  | append_singleton paths last ih =>
    by_cases same : Same last path
    · exact ⟨last, lastSpelling_append_iff.mpr (.inl (lastSpelling_singleton_iff.mpr rfl)), same⟩
    · have inside : path ∈ paths := by
        rcases List.mem_append.mp member with inside | final
        · exact inside
        · exact absurd (List.mem_singleton.mp final ▸ rfl) same
      obtain ⟨spelled, here, also⟩ := ih inside
      have apart : ∀ later ∈ [last], ¬ Same later spelled :=
        List.forall_mem_singleton.mpr fun alike => same (alike.trans also)
      exact ⟨spelled, lastSpelling_append_iff.mpr (.inr ⟨here, apart⟩), also⟩

theorem lastSpelling_iff_of_sorted
    (sorted : names.Pairwise fun one other => (compare one other).isLE = true) :
    LastSpelling (names.map .ofText) path ↔
      ∃ name ∈ names, path = .ofText name ∧
        ∀ other ∈ names, Same other name → (compare other name).isLE = true := by
  have greatest {name : String} (spelled : LastSpelling (names.map .ofText) (.ofText name)) :
      ∀ other ∈ names, Same other name → (compare other name).isLE = true := by
    obtain ⟨before, after, split, apart⟩ := spelled
    obtain ⟨front, rest, rfl, rfl, behind⟩ := List.map_eq_append_iff.mp split
    obtain ⟨found, back, rfl, here, rfl⟩ := List.map_eq_cons_iff.mp behind
    obtain rfl := SystemString.ofText_injective here
    intro other member same
    rcases List.mem_append.mp member with before | member
    · exact (List.pairwise_append.mp sorted).2.2 other before found List.mem_cons_self
    · rcases List.mem_cons.mp member with rfl | later
      · exact Std.ReflCmp.isLE_rfl
      · exact absurd same (apart other (List.mem_map_of_mem later))
  constructor
  · intro spelled
    obtain ⟨name, member, rfl⟩ := List.mem_map.mp spelled.mem
    exact ⟨name, member, rfl, greatest spelled⟩
  · rintro ⟨name, member, rfl, last⟩
    obtain ⟨spelled, final, same⟩ := exists_lastSpelling (List.mem_map_of_mem member)
    obtain ⟨other, otherMember, rfl⟩ := List.mem_map.mp final.mem
    have above : (compare other name).isLE = true := last other otherMember same
    have below : (compare name other).isLE = true := greatest final name member same.symm
    have equal : other = name :=
      Std.LawfulEqCmp.eq_of_compare (Std.OrientedCmp.isLE_antisymm above below)
    exact equal ▸ final

theorem lastSpelling_congr_of_sorted
    (sorted : names.Pairwise fun one other => (compare one other).isLE = true)
    (otherSorted : others.Pairwise fun one other => (compare one other).isLE = true)
    (same : ∀ name, name ∈ names ↔ name ∈ others) :
    LastSpelling (front ++ names.map .ofText) path ↔
      LastSpelling (front ++ others.map .ofText) path := by
  simp only [lastSpelling_append_iff, lastSpelling_iff_of_sorted sorted,
    lastSpelling_iff_of_sorted otherSorted, List.forall_mem_map, same]

end Path

namespace FileSet

open BuildArgs.Path (LastSpelling Same Below components)

variable {names others : List String} {name : String} {key : List Path.Component}

theorem get?_ofPaths_eq_some_iff : (ofPaths names).get? key = some name ↔
    components name = key ∧ LastSpelling (names.map .ofText) name := by
  induction names using List.reverseRecOn with
  | nil =>
    exact iff_of_false nofun fun found => absurd found.2.mem List.not_mem_nil
  | append_singleton names last ih =>
    have added : ofPaths (names ++ [last]) = (ofPaths names).insert (components last) last := by
      rw [ofPaths, List.map_append, SortedMap.ofList, SortedMap.insertList_append]
      rfl
    have reach : LastSpelling ((names ++ [last]).map .ofText) name ↔
        name = last ∨ LastSpelling (names.map .ofText) name ∧ ¬ Same last name := by
      rw [List.map_append, Path.lastSpelling_append_iff, List.map_singleton,
        Path.lastSpelling_singleton_iff, List.forall_mem_singleton,
        SystemString.ofText_injective.eq_iff]
    rw [added, SortedMap.get?_insert, reach]
    by_cases same : key = components last
    · subst same
      rw [if_pos Std.ReflOrd.compare_self, Option.some.injEq]
      constructor
      · rintro rfl
        exact ⟨rfl, .inl rfl⟩
      · rintro ⟨alike, rfl | ⟨_, apart⟩⟩
        · rfl
        · exact absurd alike.symm apart
    · rw [if_neg fun alike => same (Std.LawfulEqOrd.eq_of_compare alike), ih]
      constructor
      · rintro ⟨rfl, spelled⟩
        exact ⟨rfl, .inr ⟨spelled, fun alike => same alike.symm⟩⟩
      · rintro ⟨rfl, rfl | ⟨spelled, _⟩⟩
        · exact absurd rfl same
        · exact ⟨rfl, spelled⟩

theorem mem_paths_iff :
    name ∈ (ofPaths names).paths ↔ LastSpelling (names.map .ofText) name := by
  simp [FileSet.paths, SortedMap.mem_values_iff, get?_ofPaths_eq_some_iff]

theorem exists_same_iff {path : SystemString} :
    (∃ spelled ∈ (ofPaths names).paths, Same spelled path) ↔ ∃ name ∈ names, Same name path := by
  constructor
  · rintro ⟨spelled, member, same⟩
    obtain ⟨name, inside, equal⟩ := List.mem_map.mp (mem_paths_iff.mp member).mem
    exact ⟨spelled, SystemString.ofText_injective equal ▸ inside, same⟩
  · rintro ⟨name, member, same⟩
    obtain ⟨spelled, last, also⟩ := Path.exists_lastSpelling (List.mem_map_of_mem member)
    obtain ⟨other, _, rfl⟩ := List.mem_map.mp last.mem
    exact ⟨other, mem_paths_iff.mpr last, also.trans same⟩

theorem paths_ascending (names : List String) :
    (ofPaths names).paths.Pairwise fun one other : String => Below one other := by
  have keys : ∀ entry ∈ (ofPaths names).entries, entry.1 = components entry.2 := fun entry member =>
    (get?_ofPaths_eq_some_iff.mp (SortedMap.get?_eq_some_iff.mpr member)).1.symm
  rw [FileSet.paths, SortedMap.values, List.pairwise_map]
  refine (ofPaths names).ascending.imp_of_mem fun {one other} first second below => ?_
  rwa [keys one first, keys other second] at below

theorem ofPaths_congr (same : ∀ name : String,
    LastSpelling (names.map .ofText) name ↔ LastSpelling (others.map .ofText) name) :
    ofPaths names = ofPaths others := by
  refine SortedMap.ext_get? fun key => Option.ext fun name => ?_
  rw [get?_ofPaths_eq_some_iff, get?_ofPaths_eq_some_iff, same]

end FileSet
end BuildArgs
