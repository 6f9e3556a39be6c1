import BuildArgs.Proofs.Splitting
import BuildArgs.Proofs.Store.Verification

/-! The order in which the declarations of a store are walked: context by context, and by name within
each. What comes first in a walk is what no other context or name stands before. -/

namespace BuildArgs.Store

variable {store : Store} {toolchain other : Toolchain} {name : String} {value : Value}

theorem contains_declaredIn_iff :
    (store.declaredIn toolchain).contains name = true ↔
      ∃ declared, (toolchain, declared) ∈ store.declared.entries ∧ declared.contains name = true := by
  simp only [← SortedMap.get?_eq_some_iff]
  cases context : store.declared.get? toolchain with
  | none => simp [declaredIn, context, SortedMap.contains]
  | some declared => simp [declaredIn, context]

theorem mem_declaredNames_iff :
    name ∈ store.declaredNames ↔
      ∃ toolchain, (store.declaredIn toolchain).contains name = true := by
  simp only [declaredNames, SortedMap.values, List.mem_flatMap, List.mem_map, Prod.exists,
    exists_eq_right, SortedMap.mem_keys_iff, contains_declaredIn_iff]
  constructor
  · rintro ⟨declared, ⟨toolchain, member⟩, known⟩
    exact ⟨toolchain, declared, member, known⟩
  · rintro ⟨toolchain, declared, member, known⟩
    exact ⟨declared, ⟨toolchain, member⟩, known⟩

theorem mem_before_of_lt {before after : List (Toolchain × NameMap Value)}
    {declared : NameMap Value} (split : store.declared.entries = before ++ (toolchain, declared) :: after)
    (below : compare other toolchain = .lt) (known : (store.declaredIn other).contains name = true) :
    ∃ declared, (other, declared) ∈ before ∧ declared.contains name = true := by
  obtain ⟨names, member, known⟩ := contains_declaredIn_iff.mp known
  have ascending := store.declared.ascending
  rw [split] at ascending member
  exact ⟨names, mem_left_of_below Prod.fst ascending member below, known⟩

theorem exists_least_of_firstDeclaration? (found : store.firstDeclaration? name = some value) :
    ∃ toolchain, (store.declaredIn toolchain).get? name = some value ∧
      ∀ other, (store.declaredIn other).contains name = true →
        other = toolchain ∨ compare toolchain other = .lt := by
  rw [firstDeclaration?, SortedMap.values, List.findSome?_map] at found
  obtain ⟨before, ⟨toolchain, declared⟩, after, split, here, undeclared⟩ :=
    List.findSome?_eq_some_iff.mp found
  have context : store.declaredIn toolchain = declared := by
    have member : (toolchain, declared) ∈ store.declared.entries := by simp [split]
    simp [declaredIn, SortedMap.get?_eq_some_iff.mpr member]
  refine ⟨toolchain, context ▸ here, ?_⟩
  intro other known
  cases order : compare other toolchain with
  | lt =>
    obtain ⟨names, member, present⟩ := mem_before_of_lt split order known
    have absent : names.get? name = none := undeclared _ member
    simp [SortedMap.contains, absent] at present
  | eq => exact Or.inl (Std.LawfulEqOrd.eq_of_compare order)
  | gt => exact Or.inr (Std.OrientedCmp.lt_of_gt order)

theorem isSome_firstDeclaration?_iff :
    (store.firstDeclaration? name).isSome ↔
      ∃ toolchain, (store.declaredIn toolchain).contains name = true := by
  rw [← mem_declaredNames_iff, firstDeclaration?, List.findSome?_isSome_iff, declaredNames,
    List.mem_flatMap]
  simp only [SortedMap.mem_keys_iff, SortedMap.contains]

/-- Where the walk meets a name at some point, it has met before what stands before that name. -/
theorem exists_met_of_split {before after : List String}
    (split : store.declaredNames = before ++ name :: after) :
    ∃ toolchain, (store.declaredIn toolchain).contains name = true ∧
      ∀ other earlier, (store.declaredIn other).contains earlier = true →
        compare other toolchain = .lt ∨ other = toolchain ∧ earlier < name → earlier ∈ before := by
  rw [declaredNames, SortedMap.values, List.flatMap_map] at split
  obtain ⟨left, ⟨toolchain, declared⟩, right, inner, outer, contexts, names, rfl⟩ :=
    exists_of_flatMap_eq split
  have context : store.declaredIn toolchain = declared := by
    have member : (toolchain, declared) ∈ store.declared.entries := by simp [contexts]
    simp [declaredIn, SortedMap.get?_eq_some_iff.mpr member]
  have keys : declared.keys = inner ++ name :: outer := names
  refine ⟨toolchain, ?_, ?_⟩
  · rw [context, ← SortedMap.mem_keys_iff, keys]
    simp
  · intro other earlier known order
    rw [List.mem_append]
    rcases order with below | ⟨rfl, below⟩
    · obtain ⟨others, member, present⟩ := mem_before_of_lt contexts below known
      exact Or.inl (List.mem_flatMap.mpr ⟨_, member, SortedMap.mem_keys_iff.mpr present⟩)
    · right
      rw [context, ← SortedMap.mem_keys_iff, keys] at known
      have ascending : declared.keys.Pairwise fun one two => compare (id one) (id two) = .lt :=
        List.pairwise_map.mpr declared.ascending
      rw [keys] at ascending
      exact mem_left_of_below id ascending known (compareOfLessAndEq_eq_lt.mpr below)

end BuildArgs.Store
