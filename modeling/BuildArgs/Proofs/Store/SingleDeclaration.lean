import BuildArgs.Proofs.Store.Seeding

/-! An argument is declared at one place in the whole build, however many contexts declare it.
What is recorded without a place for a system argument is no declaration. -/

namespace BuildArgs.Store

/-- Whether a recorded value is a system argument that nothing has declared. -/
def Implicit (name : String) (value : Value) : Prop :=
  value.origin = none ∧ name ∈ Host.systemNames

def SingleDeclaration (store : Store) : Prop :=
  ∀ name first second left right,
    (store.declaredIn first).get? name = some left →
    (store.declaredIn second).get? name = some right →
    ¬ Implicit name left → ¬ Implicit name right → left.origin = right.origin

namespace SingleDeclaration

variable {store : Store}

theorem of_new (host : Host) : (new host).SingleDeclaration := by
  intro name first second left right leftFound
  simp [new, declaredIn] at leftFound

theorem congr {other : Store} (single : store.SingleDeclaration)
    (same : other.declared = store.declared) : other.SingleDeclaration := by
  intro name first second left right leftFound rightFound
  rw [declaredIn, same] at leftFound rightFound
  exact single name first second left right leftFound rightFound

theorem setup (single : store.SingleDeclaration) (scope : Scope) (overrides : NameMap Value) :
    (store.setup scope overrides).1.SingleDeclaration := by
  intro name first second left right leftFound rightFound leftDeclared rightDeclared
  have leftOld := (recorded_of_setup leftFound).resolve_left
    fun seeded => leftDeclared ⟨seeded.2, seeded.1⟩
  have rightOld := (recorded_of_setup rightFound).resolve_left
    fun seeded => rightDeclared ⟨seeded.2, seeded.1⟩
  exact single name first second left right leftOld rightOld leftDeclared rightDeclared

theorem compatible_of_recordEntry {toolchain other : Toolchain} {entry : String × Value}
    {value : Value} (clear : store.conflict? toolchain entry.1 entry.2 = none)
    (found : ((store.recordEntry toolchain entry).declaredIn other).get? entry.1 = some value) :
    Compatible entry.1 value entry.2 := by
  rcases recorded_of_recordEntry found with ⟨_, same⟩ | old
  · rw [same]
    exact Or.inr rfl
  · exact conflict?_eq_none_iff.mp clear other value old

theorem recordEntry (single : store.SingleDeclaration) {toolchain : Toolchain}
    {entry : String × Value} (clear : store.conflict? toolchain entry.1 entry.2 = none) :
    (store.recordEntry toolchain entry).SingleDeclaration := by
  intro name first second left right leftFound rightFound leftDeclared rightDeclared
  by_cases same : name = entry.1
  · subst same
    have leftAgrees := (compatible_of_recordEntry clear leftFound).resolve_left leftDeclared
    have rightAgrees := (compatible_of_recordEntry clear rightFound).resolve_left rightDeclared
    exact leftAgrees.trans rightAgrees.symm
  · have old : ∀ other value,
        ((store.recordEntry toolchain entry).declaredIn other).get? name = some value →
          (store.declaredIn other).get? name = some value := by
      intro other value found
      refine (recorded_of_recordEntry found).resolve_left ?_
      rintro ⟨_, rfl⟩
      exact same rfl
    exact single name first second left right (old first left leftFound)
      (old second right rightFound) leftDeclared rightDeclared

theorem not_clashes (single : store.SingleDeclaration) {first second : Toolchain}
    {left right : Declaration} (leftDeclares : store.Declares first left)
    (rightDeclares : store.Declares second right) : ¬ left.Clashes right := by
  rintro ⟨sameName, differ⟩
  obtain ⟨leftValue, leftFound, leftPlace⟩ := leftDeclares.recorded
  obtain ⟨rightValue, rightFound, rightPlace⟩ := rightDeclares.recorded
  rw [← sameName] at rightFound
  apply differ
  rw [← leftPlace, ← rightPlace]
  apply single left.name first second leftValue rightValue leftFound rightFound
  · intro implicit
    exact leftDeclares.1 (leftPlace ▸ implicit.1)
  · intro implicit
    exact rightDeclares.1 (rightPlace ▸ implicit.1)

end SingleDeclaration
end BuildArgs.Store
