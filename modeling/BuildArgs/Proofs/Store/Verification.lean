import BuildArgs.Store

/-! What the check of the supplied values finds. It reads the declared names, the supplied
names and the places that the values were given at, and not the values themselves. -/

namespace BuildArgs.Store

theorem isDeclared_eq_true_iff {store : Store} {name : String} :
    store.isDeclared name = true ↔
      ∃ toolchain value, (store.declaredIn toolchain).get? name = some value := by
  simp only [isDeclared, List.any_eq_true, SortedMap.mem_values_iff, SortedMap.contains_eq_true_iff]
  constructor
  · rintro ⟨declared, ⟨toolchain, context⟩, value, found⟩
    exact ⟨toolchain, value, by simp [declaredIn, context, found]⟩
  · rintro ⟨toolchain, value, found⟩
    cases context : store.declared.get? toolchain with
    | none => simp [declaredIn, context] at found
    | some declared =>
      refine ⟨declared, ⟨toolchain, context⟩, value, ?_⟩
      simpa [declaredIn, context] using found

theorem verify_eq_ok_iff {store : Store} :
    store.verify = .ok () ↔
      ∀ name, store.supplied.contains name = true → store.isDeclared name = true := by
  have known : (∀ name, store.supplied.contains name = true → store.isDeclared name = true) ↔
      (store.supplied.entries.find? fun entry => !store.isDeclared entry.1) = none := by
    rw [List.find?_eq_none]
    constructor
    · intro all entry member
      have given : store.supplied.contains entry.1 = true :=
        SortedMap.contains_eq_true_iff.mpr ⟨entry.2, SortedMap.get?_eq_some_iff.mpr member⟩
      simp [all entry.1 given]
    · intro all name given
      obtain ⟨value, found⟩ := SortedMap.contains_eq_true_iff.mp given
      simpa using all (name, value) (SortedMap.get?_eq_some_iff.mp found)
  rw [known, verify]
  cases store.supplied.entries.find? fun entry => !store.isDeclared entry.1 with
  | none => simp
  | some entry => simp

theorem verify_of_undeclared {store : Store} {name : String} {value : Value}
    (supplied : store.supplied.get? name = some value) (undeclared : store.isDeclared name = false) :
    ∃ name value, store.supplied.get? name = some value ∧ store.isDeclared name = false ∧
      (∀ other, store.supplied.contains other = true → store.isDeclared other = false →
        name ≤ other) ∧
      store.verify =
        .error (.unusedOverride name value.origin (Spelling.nearest name store.declaredNames)) := by
  have member := SortedMap.get?_eq_some_iff.mp supplied
  cases found : store.supplied.entries.find? fun entry => !store.isDeclared entry.1 with
  | none =>
    have declared := List.find?_eq_none.mp found (name, value) member
    simp [undeclared] at declared
  | some entry =>
    obtain ⟨unused, before, after, split, declared⟩ := List.find?_eq_some_iff_append.mp found
    refine ⟨entry.1, entry.2, ?_, by simpa using unused, ?_, by simp [verify, found]⟩
    · exact SortedMap.get?_eq_some_iff.mpr (split ▸ by simp)
    · intro other given missing
      obtain ⟨otherValue, there⟩ := SortedMap.contains_eq_true_iff.mp given
      have inside := SortedMap.get?_eq_some_iff.mp there
      have ascending := store.supplied.ascending
      rw [split] at inside ascending
      rcases List.mem_append.mp inside with early | late
      · have known := declared _ early
        simp [missing] at known
      · rcases List.mem_cons.mp late with same | later
        · exact same ▸ Std.le_refl _
        · have below := (List.pairwise_cons.mp (List.pairwise_append.mp ascending).2.1).1 _ later
          exact Std.le_of_lt (compareOfLessAndEq_eq_lt.mp below)

theorem verify_eq (store : Store) :
    store.verify =
      match (store.supplied.map Value.origin).entries.find? fun entry =>
          !store.isDeclared entry.1 with
      | none => .ok ()
      | some (name, place) =>
        .error (.unusedOverride name place (Spelling.nearest name store.declaredNames)) := by
  unfold verify
  simp only [SortedMap.map, SortedMap.mapWithKey, List.find?_map, Function.comp_def]
  cases store.supplied.entries.find? fun entry => !store.isDeclared entry.1 with
  | none => rfl
  | some entry => rfl

theorem verify_congr {store other : Store} (declared : store.declared = other.declared)
    (places : ∀ name, (store.supplied.get? name).map Value.origin =
      (other.supplied.get? name).map Value.origin) : store.verify = other.verify := by
  have same : store.supplied.map Value.origin = other.supplied.map Value.origin := by
    apply SortedMap.ext_get?
    intro name
    rw [SortedMap.get?_map, SortedMap.get?_map, places]
  simp only [verify_eq, same, isDeclared, declaredNames, declared]

end BuildArgs.Store
