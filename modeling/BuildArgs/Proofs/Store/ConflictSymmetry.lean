import BuildArgs.Proofs.Store.Batch
import BuildArgs.Proofs.Store.Seeding

/-! Two contexts that declare a name at different places. Whichever of them comes first, the other
one is refused, and the error is the same. -/

namespace BuildArgs.Store

variable {store : Store} {first second : Toolchain} {name : String} {earlier later : Value}

def only (name : String) (value : Value) : NameMap Value := .ofList [(name, value)]

theorem error_declare_only (scope : Scope) (value : Value) :
    (store.declare scope (only name value)).error =
      store.conflict? scope.toolchain name value := by
  change (store.declareEach scope [(name, value)]).error = _
  cases conflict : store.conflict? scope.toolchain name value with
  | some error => rw [declareEach_refused conflict]
  | none => rw [declareEach_accepted conflict]; rfl

theorem store_declare_only {scope : Scope} {value : Value}
    (clear : store.conflict? scope.toolchain name value = none) :
    (store.declare scope (only name value)).store =
      store.recordEntry scope.toolchain (name, value) := by
  change (store.declareEach scope [(name, value)]).store = _
  rw [declareEach_accepted clear]
  rfl

theorem duplicate_comm (apart : first ≠ second) (name : String) (earlier later : Value) :
    duplicate name second later (first, earlier) = duplicate name first earlier (second, later) := by
  cases order : compare first second with
  | lt => simp [duplicate, order, Std.OrientedCmp.gt_of_lt order]
  | eq => exact absurd (Std.LawfulEqOrd.eq_of_compare order) apart
  | gt => simp [duplicate, order, Std.OrientedCmp.lt_of_gt order]

theorem recorded_of_clear_twice (differ : earlier.origin ≠ later.origin)
    (firstClear : store.conflict? first name earlier = none)
    (secondClear : store.conflict? second name later = none) :
    ((store.recordEntry first (name, earlier)).declaredIn first).get? name = some earlier := by
  have free : ((store.declaredIn first).get? name).bind Value.origin = none := by
    cases recorded : (store.declaredIn first).get? name with
    | none => rfl
    | some existing =>
      have beside := conflict?_eq_none_iff.mp firstClear first existing recorded
      have beyond := conflict?_eq_none_iff.mp secondClear first existing recorded
      rcases beside with ⟨missing, _⟩ | same
      · exact missing
      · rcases beyond with ⟨missing, _⟩ | equal
        · exact missing
        · exact absurd (same.symm.trans equal) differ
  rw [declaredIn_recordEntry, if_pos rfl, get?_record, if_pos ⟨rfl, free⟩]

theorem conflict?_of_clear_twice (placed : earlier.origin ≠ none)
    (differ : earlier.origin ≠ later.origin)
    (firstClear : store.conflict? first name earlier = none)
    (secondClear : store.conflict? second name later = none) :
    (store.recordEntry first (name, earlier)).conflict? second name later =
      some (duplicate name second later (first, earlier)) := by
  cases conflict : (store.recordEntry first (name, earlier)).conflict? second name later with
  | none =>
    have recorded := recorded_of_clear_twice differ firstClear secondClear
    rcases conflict?_eq_none_iff.mp conflict first earlier recorded with ⟨missing, _⟩ | same
    · exact absurd missing placed
    · exact absurd same differ
  | some error =>
    obtain ⟨other, value, found, collides, rfl, _⟩ := exists_of_conflict? conflict
    rcases recorded_of_recordEntry found with ⟨rfl, same⟩ | old
    · cases same
      rfl
    · exact absurd (conflict?_eq_none_iff.mp secondClear other value old) collides

/-- If a name can be declared at one place in a context and at another place in a second one, then
it cannot be declared in both. The one that comes later is refused, and the error is the same
either way: it is the context that is greater in the order of contexts whose declaration is at
fault, and that of the smaller one is the previous. -/
theorem pair_refused {left right : Scope} {leftValue rightValue : Value}
    (apart : left.toolchain ≠ right.toolchain)
    (leftPlaced : leftValue.origin ≠ none) (rightPlaced : rightValue.origin ≠ none)
    (differ : leftValue.origin ≠ rightValue.origin)
    (leftAlone : (store.declare left (only name leftValue)).error = none)
    (rightAlone : (store.declare right (only name rightValue)).error = none) :
    let afterLeft := (store.declare left (only name leftValue)).store
    let afterRight := (store.declare right (only name rightValue)).store
    ∃ error, (afterLeft.declare right (only name rightValue)).error = some error ∧
      (afterRight.declare left (only name leftValue)).error = some error ∧
      (compare left.toolchain right.toolchain = .lt →
        error = .duplicateDeclaration name rightValue.origin leftValue.origin) ∧
      (compare right.toolchain left.toolchain = .lt →
        error = .duplicateDeclaration name leftValue.origin rightValue.origin) := by
  rw [error_declare_only] at leftAlone rightAlone
  intro afterLeft afterRight
  have leftStore : afterLeft = store.recordEntry left.toolchain (name, leftValue) :=
    store_declare_only leftAlone
  have rightStore : afterRight = store.recordEntry right.toolchain (name, rightValue) :=
    store_declare_only rightAlone
  have leftFirst := conflict?_of_clear_twice leftPlaced differ leftAlone rightAlone
  have rightFirst := conflict?_of_clear_twice rightPlaced differ.symm rightAlone leftAlone
  rw [← duplicate_comm apart] at rightFirst
  refine ⟨duplicate name right.toolchain rightValue (left.toolchain, leftValue), ?_, ?_, ?_, ?_⟩
  · rw [error_declare_only, leftStore, leftFirst]
  · rw [error_declare_only, rightStore, rightFirst]
  · intro below
    simp [duplicate, below]
  · intro below
    simp [duplicate, Std.OrientedCmp.gt_of_lt below]

def plainContext : Toolchain := ⟨"a", false⟩

def defaultContext : Toolchain := ⟨"z", true⟩

def hostOsAt (line : UInt32) : Value := .string (some ⟨"f", some line⟩) "haiku"

theorem pair_refused_takeover :
    let prepared := (((new ⟨"linux", "x64"⟩).setup (.new plainContext) ∅).1.setup
      (.new defaultContext) ∅).1
    let plainFirst := (prepared.declare (.new plainContext) (only "host_os" (hostOsAt 1))).store
    let defaultFirst := (prepared.declare (.new defaultContext) (only "host_os" (hostOsAt 2))).store
    let error := some (.duplicateDeclaration "host_os" (some ⟨"f", some 1⟩) (some ⟨"f", some 2⟩))
    (prepared.declare (.new plainContext) (only "host_os" (hostOsAt 1))).error = none ∧
    (prepared.declare (.new defaultContext) (only "host_os" (hostOsAt 2))).error = none ∧
    (plainFirst.declare (.new defaultContext) (only "host_os" (hostOsAt 2))).error = error ∧
    (defaultFirst.declare (.new plainContext) (only "host_os" (hostOsAt 1))).error = error := by
  intro prepared plainFirst defaultFirst error
  have plainAlone : (prepared.declare (.new plainContext) (only "host_os" (hostOsAt 1))).error =
      none := by decide +kernel
  have defaultAlone : (prepared.declare (.new defaultContext) (only "host_os" (hostOsAt 2))).error =
      none := by decide +kernel
  have apart : (Scope.new plainContext).toolchain ≠ (Scope.new defaultContext).toolchain := by decide
  have placed : ∀ line, (hostOsAt line).origin ≠ none := fun _ => Option.some_ne_none _
  have differ : (hostOsAt 1).origin ≠ (hostOsAt 2).origin := by decide
  obtain ⟨found, refused, refusedToo, _, larger⟩ :=
    pair_refused apart (placed 1) (placed 2) differ plainAlone defaultAlone
  have below : compare defaultContext plainContext = .lt := by decide +kernel
  rw [larger below] at refused refusedToo
  exact ⟨plainAlone, defaultAlone, refused, refusedToo⟩

end BuildArgs.Store
