import BuildArgs.Build.Inputs

/-! Declarations by name and place, which is all that decides whether two of them clash. -/

namespace BuildArgs

structure Declaration where
  name : String
  place : Option Origin
  deriving DecidableEq

namespace Declaration

def Clashes (left right : Declaration) : Prop :=
  left.name = right.name ∧ left.place ≠ right.place

instance (left right : Declaration) : Decidable (left.Clashes right) :=
  inferInstanceAs (Decidable (_ ∧ _))

def ofEntry (entry : String × Value) : Declaration := ⟨entry.1, entry.2.origin⟩

def Agree (declarations : List Declaration) : Prop :=
  ∀ left ∈ declarations, ∀ right ∈ declarations, ¬ left.Clashes right

instance (declarations : List Declaration) : Decidable (Agree declarations) :=
  inferInstanceAs (Decidable (∀ left ∈ declarations, ∀ right ∈ declarations, ¬ left.Clashes right))

theorem not_clashes_self (declaration : Declaration) : ¬ declaration.Clashes declaration :=
  fun clash => clash.2 rfl

theorem Clashes.symm {left right : Declaration} (clash : left.Clashes right) :
    right.Clashes left :=
  ⟨clash.1.symm, clash.2.symm⟩

theorem eq_of_not_clashes {left right : Declaration} (name : left.name = right.name)
    (apart : ¬ left.Clashes right) : left = right := by
  have place : left.place = right.place := Classical.not_not.mp fun differ => apart ⟨name, differ⟩
  cases left
  cases right
  simp_all

theorem Agree.subset {fewer more : List Declaration} (agree : Agree more)
    (subset : ∀ declaration ∈ fewer, declaration ∈ more) : Agree fewer :=
  fun left leftIn right rightIn => agree left (subset left leftIn) right (subset right rightIn)

theorem agree_cons_iff {declaration : Declaration} {held : List Declaration} :
    Agree (declaration :: held) ↔
      (∀ earlier ∈ held, ¬ earlier.Clashes declaration) ∧ Agree held := by
  constructor
  · intro agree
    exact ⟨fun earlier inside => agree earlier (List.mem_cons_of_mem _ inside) _ List.mem_cons_self,
      agree.subset fun _ => List.mem_cons_of_mem _⟩
  · rintro ⟨clear, agree⟩ left leftIn right rightIn
    rcases List.mem_cons.mp leftIn with rfl | leftHeld
    · rcases List.mem_cons.mp rightIn with rfl | rightHeld
      · exact not_clashes_self _
      · exact fun clash => clear right rightHeld clash.symm
    · rcases List.mem_cons.mp rightIn with rfl | rightHeld
      · exact clear left leftHeld
      · exact agree left leftHeld right rightHeld

/-- The declarations that can be accepted beside others, up to the first that clashes. -/
def admitted (held : List Declaration) : List Declaration → List Declaration
  | [] => []
  | declaration :: rest =>
    if ∃ earlier ∈ held, earlier.Clashes declaration then []
    else declaration :: admitted (declaration :: held) rest

theorem admitted_prefix (held declarations : List Declaration) :
    admitted held declarations <+: declarations := by
  induction declarations generalizing held with
  | nil => exact List.prefix_refl _
  | cons declaration rest ih =>
    unfold admitted
    split
    · exact List.nil_prefix
    · exact (List.prefix_cons_inj declaration).mpr (ih _)

theorem agree_admitted {held : List Declaration} (agree : Agree held)
    (declarations : List Declaration) : Agree (held ++ admitted held declarations) := by
  induction declarations generalizing held with
  | nil => simpa [admitted] using agree
  | cons declaration rest ih =>
    unfold admitted
    split
    · simpa using agree
    · rename_i clear
      have extended : Agree (declaration :: held) :=
        agree_cons_iff.mpr ⟨fun earlier inside clash => clear ⟨earlier, inside, clash⟩, agree⟩
      exact (ih extended).subset fun other inside => by
        simpa [or_left_comm, or_assoc] using inside

theorem prefix_admitted {held accepted declarations : List Declaration}
    (start : accepted <+: declarations) (agree : Agree (held ++ accepted)) :
    accepted <+: admitted held declarations := by
  induction declarations generalizing held accepted with
  | nil => exact start
  | cons declaration rest ih =>
    cases accepted with
    | nil => exact List.nil_prefix
    | cons first more =>
      obtain ⟨rfl, inside⟩ := List.cons_prefix_cons.mp start
      have clear : ¬ ∃ earlier ∈ held, earlier.Clashes first := by
        rintro ⟨earlier, member, clash⟩
        exact agree earlier (List.mem_append_left _ member) first (by simp) clash
      rw [admitted, if_neg clear, List.prefix_cons_inj]
      exact ih inside (agree.subset fun other there => by
        simpa [or_left_comm, or_assoc] using there)

end Declaration

abbrev DeclareBlock.entries (block : DeclareBlock) : List (String × Value) :=
  block.arguments.entries

def DeclareBlock.declarations (block : DeclareBlock) : List Declaration :=
  block.entries.map .ofEntry

def ToolchainSpec.entries (spec : ToolchainSpec) : List (String × Value) :=
  spec.blocks.flatMap DeclareBlock.entries

def ToolchainSpec.declarations (spec : ToolchainSpec) : List Declaration :=
  spec.entries.map .ofEntry

def ToolchainSpec.alone (spec : ToolchainSpec) : List Declaration :=
  Declaration.admitted [] spec.declarations

/-- No two blocks of a manifest declare a name at different places. -/
def Manifest.Consistent (manifest : Manifest) : Prop :=
  Declaration.Agree (manifest.toolchains.flatMap ToolchainSpec.declarations)

instance (manifest : Manifest) : Decidable manifest.Consistent :=
  inferInstanceAs (Decidable (Declaration.Agree _))

namespace ToolchainSpec

theorem declarations_eq (spec : ToolchainSpec) :
    spec.declarations = spec.blocks.flatMap DeclareBlock.declarations :=
  List.map_flatMap

theorem alone_prefix (spec : ToolchainSpec) : spec.alone <+: spec.declarations :=
  Declaration.admitted_prefix _ _

theorem agree_alone (spec : ToolchainSpec) : Declaration.Agree spec.alone :=
  have none : Declaration.Agree [] := by simp [Declaration.Agree]
  Declaration.agree_admitted none spec.declarations

theorem prefix_alone {spec : ToolchainSpec} {accepted : List Declaration}
    (start : accepted <+: spec.declarations) (agree : Declaration.Agree accepted) :
    accepted <+: spec.alone :=
  Declaration.prefix_admitted start agree

end ToolchainSpec

end BuildArgs
