import BuildArgs.Proofs.Store.Settling
import BuildArgs.Proofs.Value.Uniform

/-! What the scope of a toolchain holds in the end: which names, with which values, and that
all of them count as used. -/

namespace BuildArgs

namespace Scope

def AllUsed (scope : Scope) : Prop :=
  ∀ name value, scope.get? name = some value → scope.isUsed name = true

theorem mem_keys_values_iff {scope : Scope} {name : String} :
    name ∈ scope.values.keys ↔ ∃ value, scope.get? name = some value := by
  rw [values, SortedMap.keys_map, SortedMap.mem_keys_iff, SortedMap.contains, get?,
    ← Option.isSome_iff_exists, Option.isSome_map]

theorem unusedNames_eq_nil_iff {scope : Scope} : scope.unusedNames = [] ↔ scope.AllUsed := by
  simp only [unusedNames, SortedMap.keys, SortedMap.filter, List.map_eq_nil_iff,
    List.filter_eq_nil_iff]
  constructor
  · intro all name value found
    obtain ⟨slot, there, rfl⟩ := Option.map_eq_some_iff.mp found
    have used := all (name, slot) (SortedMap.get?_eq_some_iff.mp there)
    simpa [isUsed, there] using used
  · rintro all ⟨name, slot⟩ member
    have there := SortedMap.get?_eq_some_iff.mpr member
    have used := all name slot.value (by rw [get?, there]; rfl)
    simpa [isUsed, there] using used

theorem allUsed_new (toolchain : Toolchain) : (new toolchain).AllUsed := by
  intro name value found
  cases found

theorem AllUsed.set_markUsed {scope : Scope} (all : scope.AllUsed) (name : String) (value : Value)
    (origin : Option Origin) : ((scope.set name value origin).markUsed name).AllUsed := by
  intro other found there
  rw [get?_markUsed, get?_set] at there
  rw [isUsed_markUsed, get?_set, if_pos rfl, isUsed_set]
  split at there
  · rename_i same
    simp [same]
  · simp [all other found there]

theorem AllUsed.set {scope : Scope} (all : scope.AllUsed) {name : String} {old : Value}
    (present : scope.get? name = some old) (value : Value) (origin : Option Origin) :
    (scope.set name value origin).AllUsed := by
  intro other found there
  rw [get?_set] at there
  rw [isUsed_set]
  split at there
  · rename_i same
    exact all other old (same ▸ present)
  · exact all other found there

end Scope

namespace Store

theorem get?_seedScope (defaults : NameMap Value) (scope : Scope) (name : String) :
    (seedScope defaults scope).get? name =
      ((defaults.get? name).map (Value.withOrigin none)).or (scope.get? name) := by
  obtain ⟨entries, ascending⟩ := defaults
  simp only [seedScope, SortedMap.get?]
  induction entries generalizing scope with
  | nil => rfl
  | cons entry rest ih =>
    obtain ⟨above, sorted⟩ := List.pairwise_cons.mp ascending
    rw [List.foldl_cons, ih _ sorted, Scope.get?_markUsed, Scope.get?_set]
    by_cases same : name = entry.1
    · subst same
      simp [SortedMap.lookup, SortedMap.lookup_eq_none_of_below above]
    · simp [SortedMap.lookup, same]

theorem get?_seedScope_systemDefaults (host : Host) (scope : Scope) (name : String) :
    (seedScope host.systemDefaults scope).get? name =
      (host.systemDefaults.get? name).or (scope.get? name) := by
  rw [get?_seedScope]
  cases found : host.systemDefaults.get? name with
  | none => rfl
  | some value =>
    have placeless := (host.uniform_systemDefaults name value found).origin_eq
    have unchanged : value.withOrigin none = value := placeless ▸ value.withOrigin_origin
    simp [unchanged]

theorem get?_applyDeclared (values declared : NameMap Value) (scope : Scope) (name : String) :
    (applyDeclared values declared scope).get? name =
      if declared.contains name then (values.get? name).or (scope.get? name)
      else scope.get? name := by
  obtain ⟨entries, ascending⟩ := values
  simp only [applyDeclared, SortedMap.get?]
  induction entries generalizing scope with
  | nil => simp [SortedMap.lookup]
  | cons entry rest ih =>
    obtain ⟨above, sorted⟩ := List.pairwise_cons.mp ascending
    rw [List.foldl_cons, ih _ sorted]
    by_cases same : name = entry.1
    · subst same
      by_cases known : declared.contains entry.1 = true
      · simp [known, SortedMap.lookup, SortedMap.lookup_eq_none_of_below above, Scope.get?_set]
      · simp [known]
    · have kept : (if declared.contains entry.1 then scope.set entry.1 entry.2 entry.2.origin
          else scope).get? name = scope.get? name := by
        split
        · rw [Scope.get?_set, if_neg same]
        · rfl
      simp [kept, SortedMap.lookup, same]

theorem allUsed_seedScope (defaults : NameMap Value) {scope : Scope} (all : scope.AllUsed) :
    (seedScope defaults scope).AllUsed := by
  unfold seedScope
  induction defaults.entries generalizing scope with
  | nil => exact all
  | cons entry rest ih => exact ih (all.set_markUsed entry.1 entry.2 none)

theorem allUsed_applyDeclared (values : NameMap Value) {declared : NameMap Value} {scope : Scope}
    (all : scope.AllUsed)
    (present : ∀ name, declared.contains name = true → ∃ value, scope.get? name = some value) :
    (applyDeclared values declared scope).AllUsed := by
  unfold applyDeclared
  induction values.entries generalizing scope with
  | nil => exact all
  | cons entry rest ih =>
    rw [List.foldl_cons]
    split
    · rename_i known
      obtain ⟨old, found⟩ := present entry.1 known
      apply ih (all.set found _ _)
      intro name declares
      rw [Scope.get?_set]
      split
      · exact ⟨_, rfl⟩
      · exact present name declares
    · exact ih all present

end Store

namespace ToolchainSpec

variable (spec : ToolchainSpec) (host : Host) (active : NameMap Value)

theorem get?_freshScope (name : String) :
    (spec.freshScope host active).get? name =
      (host.systemDefaults.get? name).map (spec.chosen active name) := by
  have seeded : (Store.seedScope host.systemDefaults (.new spec.id)).get? name =
      host.systemDefaults.get? name := by
    rw [Store.get?_seedScope_systemDefaults]
    exact Option.or_none
  rw [freshScope, Store.get?_applyDeclared, Store.get?_applyDeclared, seeded, SortedMap.contains]
  cases found : host.systemDefaults.get? name with
  | none => rfl
  | some value =>
    simp only [Option.isSome_some, if_pos, Option.map_some, chosen]
    cases spec.overrides.get? name with
    | some brought => rfl
    | none =>
      cases active.get? name with
      | some given => rfl
      | none => rfl

theorem get?_settle (scope : Scope) (entry : String × Value) (name : String) :
    (spec.settle active scope entry).get? name =
      if name = entry.1 then some (spec.chosen active name entry.2) else scope.get? name := by
  rw [settle, Scope.get?_markUsed, Scope.get?_set, Value.withOrigin_origin]
  split
  · rename_i same
    rw [same]
  · rfl

theorem get?_foldl_settle (entries : List (String × Value)) (scope : Scope) (name : String) :
    (entries.foldl (spec.settle active) scope).get? name =
      ((entries.reverse.lookup name).map (spec.chosen active name)).or (scope.get? name) := by
  induction entries generalizing scope with
  | nil => rfl
  | cons entry rest ih =>
    obtain ⟨key, value⟩ := entry
    rw [List.foldl_cons, ih, get?_settle, List.reverse_cons, List.lookup_append]
    cases rest.reverse.lookup name with
    | some value => rfl
    | none =>
      by_cases same : name = key
      · simp [same]
      · have apart : (name == key) = false := by simp [same]
        simp [same, List.lookup_cons, apart]

/-- Among several defaults of a name it is the last that counts, and any default goes before
that of the system. -/
theorem get?_rootScope (name : String) :
    (spec.rootScope host active).get? name =
      ((spec.entries.reverse.lookup name).or (host.systemDefaults.get? name)).map
        (spec.chosen active name) := by
  rw [rootScope, scopeAfter, get?_foldl_settle, get?_freshScope]
  cases spec.entries.reverse.lookup name with
  | some value => rfl
  | none => rfl

theorem allUsed_rootScope : (spec.rootScope host active).AllUsed := by
  have seeded := Store.allUsed_seedScope host.systemDefaults (Scope.allUsed_new spec.id)
  have present : ∀ name, host.systemDefaults.contains name = true →
      ∃ value, (Store.seedScope host.systemDefaults (.new spec.id)).get? name = some value := by
    intro name known
    obtain ⟨value, found⟩ := SortedMap.contains_eq_true_iff.mp known
    exact ⟨value.withOrigin none, by simp [Store.get?_seedScope, found]⟩
  have given := Store.allUsed_applyDeclared active seeded present
  have fresh : (spec.freshScope host active).AllUsed := by
    apply Store.allUsed_applyDeclared spec.overrides given
    intro name known
    rw [Store.get?_applyDeclared, if_pos known]
    cases active.get? name with
    | some value => exact ⟨value, rfl⟩
    | none => exact present name known
  rw [rootScope, scopeAfter]
  generalize spec.freshScope host active = scope at fresh
  induction spec.entries generalizing scope with
  | nil => exact fresh
  | cons entry rest ih => exact ih _ (fresh.set_markUsed _ _ _)

end ToolchainSpec
end BuildArgs
