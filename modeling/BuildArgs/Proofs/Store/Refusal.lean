import BuildArgs.Proofs.Store.Recording

/-! Which declarations a store refuses, and what the error says about the place that is
reported first. Origins decide, once only system arguments are recorded without one. -/

namespace BuildArgs.Store

variable {store : Store} {toolchain : Toolchain} {name : String} {incoming : Value}

def PlacedUnlessSystem (store : Store) : Prop :=
  ∀ toolchain name value, (store.declaredIn toolchain).get? name = some value →
    value.origin = none → name ∈ Host.systemNames

/-- Why a declaration is refused in a context, and the error that says so. -/
inductive Refused (store : Store) (toolchain : Toolchain) (declaration : Declaration) :
    ArgError → Prop
  | own {earlier} : store.Declares toolchain earlier → earlier.Clashes declaration →
      Refused store toolchain declaration
        (.duplicateDeclaration declaration.name declaration.place earlier.place)
  | lower {other earlier} : (∀ own, store.Declares toolchain own → ¬ own.Clashes declaration) →
      compare other toolchain = .lt → store.Declares other earlier →
      earlier.Clashes declaration →
      Refused store toolchain declaration
        (.duplicateDeclaration declaration.name declaration.place earlier.place)
  | upper {other earlier} : (∀ own, store.Declares toolchain own → ¬ own.Clashes declaration) →
      compare other toolchain = .gt → store.Declares other earlier →
      earlier.Clashes declaration →
      Refused store toolchain declaration
        (.duplicateDeclaration declaration.name earlier.place declaration.place)

theorem conflict?_eq_none_iff_not_clashes (implicit : store.PlacedUnlessSystem) :
    store.conflict? toolchain name incoming = none ↔
      ∀ other earlier, store.Declares other earlier →
        ¬ earlier.Clashes ⟨name, incoming.origin⟩ := by
  rw [conflict?_eq_none_iff]
  constructor
  · rintro compatible other earlier declares ⟨sameName, differ⟩
    obtain ⟨value, recorded, place⟩ := declares.recorded
    simp only at sameName differ
    rcases compatible other value (sameName ▸ recorded) with ⟨missing, _⟩ | same
    · exact declares.1 (place.symm.trans missing)
    · exact differ (place.symm.trans same)
  · intro clear other value recorded
    by_cases missing : value.origin = none
    · exact Or.inl ⟨missing, implicit other name value recorded missing⟩
    · refine Or.inr (Classical.not_not.mp fun differ => ?_)
      exact clear other ⟨name, value.origin⟩ (declares_of_recorded recorded missing) ⟨rfl, differ⟩

theorem refused_of_conflict? (implicit : store.PlacedUnlessSystem) {error : ArgError}
    (conflict : store.conflict? toolchain name incoming = some error) :
    store.Refused toolchain ⟨name, incoming.origin⟩ error := by
  obtain ⟨other, value, recorded, apart, rfl, first⟩ := exists_of_conflict? conflict
  have present : value.origin ≠ none := fun missing =>
    apart (Or.inl ⟨missing, implicit other name value recorded missing⟩)
  have differ : value.origin ≠ incoming.origin := fun same => apart (Or.inr same)
  have declares := declares_of_recorded recorded present
  have clash : Declaration.Clashes ⟨name, value.origin⟩ ⟨name, incoming.origin⟩ := ⟨rfl, differ⟩
  by_cases same : other = toolchain
  · subst same
    simpa [duplicate, Std.ReflOrd.compare_self] using Refused.own declares clash
  · have clear : ∀ own, store.Declares toolchain own →
        ¬ own.Clashes ⟨name, incoming.origin⟩ := by
      rintro own ownDeclares ⟨sameName, ownDiffer⟩
      obtain ⟨ownValue, ownRecorded, place⟩ := ownDeclares.recorded
      simp only at sameName ownDiffer
      rcases first same ownValue (sameName ▸ ownRecorded) with ⟨missing, _⟩ | equal
      · exact ownDeclares.1 (place.symm.trans missing)
      · exact ownDiffer (place.symm.trans equal)
    cases order : compare other toolchain with
    | lt => simpa [duplicate, order] using Refused.lower clear order declares clash
    | eq => exact absurd (Std.LawfulEqOrd.eq_of_compare order) same
    | gt => simpa [duplicate, order] using Refused.upper clear order declares clash

theorem Refused.exists_report {declaration : Declaration} {error : ArgError}
    (refused : store.Refused toolchain declaration error) :
    ∃ other earlier, store.Declares other earlier ∧ earlier.Clashes declaration ∧
      (error = .duplicateDeclaration declaration.name declaration.place earlier.place ∨
        error = .duplicateDeclaration declaration.name earlier.place declaration.place) := by
  cases refused with
  | own declares clash => exact ⟨_, _, declares, clash, Or.inl rfl⟩
  | lower _ _ declares clash => exact ⟨_, _, declares, clash, Or.inl rfl⟩
  | upper _ _ declares clash => exact ⟨_, _, declares, clash, Or.inr rfl⟩

theorem Refused.exists_clash {declaration : Declaration} {error : ArgError}
    (refused : store.Refused toolchain declaration error) :
    ∃ other earlier, store.Declares other earlier ∧ earlier.Clashes declaration := by
  obtain ⟨other, earlier, declares, clash, _⟩ := refused.exists_report
  exact ⟨other, earlier, declares, clash⟩

theorem Refused.mono {later : Store} {declaration : Declaration} {error : ArgError}
    (refused : store.Refused toolchain declaration error)
    (kept : ∀ other earlier, store.Declares other earlier → later.Declares other earlier)
    (own : ∀ earlier, later.Declares toolchain earlier → store.Declares toolchain earlier) :
    later.Refused toolchain declaration error := by
  cases refused with
  | own declares clash => exact .own (kept _ _ declares) clash
  | lower clear order declares clash =>
    exact .lower (fun _ declared => clear _ (own _ declared)) order (kept _ _ declares) clash
  | upper clear order declares clash =>
    exact .upper (fun _ declared => clear _ (own _ declared)) order (kept _ _ declares) clash

end BuildArgs.Store
