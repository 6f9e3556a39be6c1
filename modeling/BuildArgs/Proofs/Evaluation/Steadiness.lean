import BuildArgs.Proofs.Evaluation.Result
import BuildArgs.Proofs.Manifest.WellFormed
import BuildArgs.Proofs.Splitting
import BuildArgs.Proofs.Declaration

/-! Which conflict is reported when toolchains are evaluated one after another in the order of
their identities, and when no other conflict can come first. Whether that is so is decided by
the declarations alone. -/

namespace BuildArgs

open Declaration (Agree admitted)

def Manifest.inOrder (manifest : Manifest) : List ToolchainSpec :=
  manifest.toolchains.mergeSort fun left right => (compare left.id right.id).isLE

theorem Manifest.inOrder_perm (manifest : Manifest) :
    manifest.inOrder.Perm manifest.toolchains :=
  List.mergeSort_perm _ _

def Ascending (specs : List ToolchainSpec) : Prop :=
  specs.Pairwise fun left right => compare left.id right.id = .lt

theorem ne_of_compare_lt {left right : Toolchain} (below : compare left right = .lt) :
    left ≠ right := by
  rintro rfl
  simp [Std.ReflOrd.compare_self] at below

theorem Ascending.distinct {specs : List ToolchainSpec} (ascending : Ascending specs) :
    (specs.map ToolchainSpec.id).Nodup := by
  rw [List.nodup_iff_pairwise_ne, List.pairwise_map]
  exact ascending.imp ne_of_compare_lt

theorem Ascending.mem_left_of_lt {left right : List ToolchainSpec} {spec other : ToolchainSpec}
    (ascending : Ascending (left ++ spec :: right)) (member : other ∈ left ++ spec :: right)
    (below : compare other.id spec.id = .lt) : other ∈ left :=
  mem_left_of_below ToolchainSpec.id ascending member below

theorem Ascending.mem_of_not_lt {left right : List ToolchainSpec} {spec other : ToolchainSpec}
    (ascending : Ascending (left ++ spec :: right)) (member : other ∈ left ++ spec :: right)
    (notAbove : compare spec.id other.id ≠ .lt) : other ∈ left ∨ other = spec := by
  rcases List.mem_append.mp member with inside | late
  · exact Or.inl inside
  · rcases List.mem_cons.mp late with same | inside
    · exact Or.inr same
    · have above := (List.pairwise_cons.mp (List.pairwise_append.mp ascending).2.1).1 other inside
      exact absurd above notAbove

theorem Ascending.not_mem_left {left right : List ToolchainSpec} {spec : ToolchainSpec}
    (ascending : Ascending (left ++ spec :: right)) {toolchain : Toolchain}
    (notBelow : compare toolchain spec.id ≠ .lt) : toolchain ∉ left.map ToolchainSpec.id := by
  intro inside
  obtain ⟨other, member, rfl⟩ := List.mem_map.mp inside
  exact notBelow ((List.pairwise_append.mp ascending).2.2 other member spec List.mem_cons_self)

theorem Ascending.not_mem_before {left right : List ToolchainSpec} {spec : ToolchainSpec}
    (ascending : Ascending (left ++ spec :: right)) : spec.id ∉ left.map ToolchainSpec.id :=
  ascending.not_mem_left (by simp [Std.ReflOrd.compare_self])

theorem Ascending.left {left right : List ToolchainSpec} (ascending : Ascending (left ++ right)) :
    Ascending left :=
  (List.pairwise_append.mp ascending).1

theorem Manifest.ascending_inOrder {manifest : Manifest} (wellFormed : manifest.WellFormed) :
    Ascending manifest.inOrder :=
  ascending_mergeSort wellFormed.distinct

def sequence (specs : List ToolchainSpec) : List (ToolchainSpec × Declaration) :=
  specs.flatMap fun spec => spec.declarations.map fun declaration => (spec, declaration)

/-- A declaration that is refused, the one it clashes with, and all that were accepted before. -/
structure Refusal where
  spec : ToolchainSpec
  held : List Declaration
  declaration : Declaration
  earlier : Declaration

def firstRefusal? (held : List Declaration) : List (ToolchainSpec × Declaration) → Option Refusal
  | [] => none
  | (spec, declaration) :: rest =>
    match held.find? fun earlier => earlier.Clashes declaration with
    | some earlier => some ⟨spec, held, declaration, earlier⟩
    | none => firstRefusal? (held ++ [declaration]) rest

def firstClash? (declarations others : List Declaration) : Option Declaration :=
  declarations.find? fun declaration => others.any fun other => other.Clashes declaration

namespace Refusal

def report (refusal : Refusal) : ArgError :=
  .duplicateDeclaration refusal.declaration.name refusal.declaration.place refusal.earlier.place

/-- A toolchain can bring up no other conflict, nor this one the other way round, however far
it has come before those that are evaluated in order. -/
structure SteadyFor (refusal : Refusal) (spec : ToolchainSpec) : Prop where
  refused : ∀ found ∈ firstClash? spec.alone refusal.held, found = refusal.declaration
  clashing : ∀ found ∈ firstClash? refusal.held spec.alone, found = refusal.earlier
  turned : compare refusal.spec.id spec.id = .lt → refusal.earlier ∈ spec.alone →
    refusal.earlier ∈ refusal.spec.alone

instance (refusal : Refusal) (spec : ToolchainSpec) : Decidable (refusal.SteadyFor spec) :=
  decidable_of_iff
    ((∀ found ∈ firstClash? spec.alone refusal.held, found = refusal.declaration) ∧
      (∀ found ∈ firstClash? refusal.held spec.alone, found = refusal.earlier) ∧
      (compare refusal.spec.id spec.id = .lt → refusal.earlier ∈ spec.alone →
        refusal.earlier ∈ refusal.spec.alone))
    ⟨fun ⟨refused, clashing, turned⟩ => ⟨refused, clashing, turned⟩,
      fun ⟨refused, clashing, turned⟩ => ⟨refused, clashing, turned⟩⟩

end Refusal

/-- The first conflict in the order of the toolchains is the only one that can be reported. -/
def Manifest.Steady (manifest : Manifest) : Prop :=
  ∀ refusal ∈ firstRefusal? [] (sequence manifest.inOrder),
    ∀ spec ∈ manifest.inOrder, refusal.SteadyFor spec

instance (manifest : Manifest) : Decidable manifest.Steady :=
  inferInstanceAs (Decidable (∀ refusal ∈ firstRefusal? [] (sequence manifest.inOrder),
    ∀ spec ∈ manifest.inOrder, refusal.SteadyFor spec))

structure Refusal.FirstOf (refusal : Refusal) (specs : List ToolchainSpec) : Prop where
  position : ∃ lower upper own later, specs = lower ++ refusal.spec :: upper ∧
    refusal.spec.declarations = own ++ refusal.declaration :: later ∧
    refusal.held = lower.flatMap ToolchainSpec.declarations ++ own
  agree : Agree refusal.held
  earlier : refusal.earlier ∈ refusal.held
  clash : refusal.earlier.Clashes refusal.declaration

theorem Refusal.FirstOf.member {refusal : Refusal} {specs : List ToolchainSpec}
    (first : refusal.FirstOf specs) : refusal.spec ∈ specs := by
  obtain ⟨lower, upper, _, _, split, _⟩ := first.position
  exact split ▸ by simp

theorem Declaration.agree_append_iff {held : List Declaration} {declaration : Declaration} :
    Agree (held ++ [declaration]) ↔
      (∀ earlier ∈ held, ¬ earlier.Clashes declaration) ∧ Agree held := by
  have same : ∀ other, other ∈ held ++ [declaration] ↔ other ∈ declaration :: held := by
    intro other
    simp [or_comm]
  rw [← agree_cons_iff]
  exact ⟨fun agree => agree.subset fun other => (same other).mpr,
    fun agree => agree.subset fun other => (same other).mp⟩

theorem firstRefusal?_eq_some {held : List Declaration} (agree : Agree held)
    {row : List (ToolchainSpec × Declaration)} {refusal : Refusal}
    (found : firstRefusal? held row = some refusal) :
    ∃ before after, row = before ++ (refusal.spec, refusal.declaration) :: after ∧
      refusal.held = held ++ before.map Prod.snd ∧ Agree refusal.held ∧
      refusal.earlier ∈ refusal.held ∧ refusal.earlier.Clashes refusal.declaration := by
  induction row generalizing held with
  | nil => cases found
  | cons first rest ih =>
    unfold firstRefusal? at found
    split at found
    · rename_i earlier clashing
      cases found
      refine ⟨[], rest, rfl, by simp, agree, List.mem_of_find?_eq_some clashing, ?_⟩
      simpa using List.find?_some clashing
    · rename_i clear
      have extended : Agree (held ++ [first.2]) := by
        refine Declaration.agree_append_iff.mpr ⟨?_, agree⟩
        simpa using clear
      obtain ⟨before, after, rfl, same, facts⟩ := ih extended found
      exact ⟨first :: before, after, rfl, by simp [same], facts⟩

theorem firstRefusal?_eq_none {held : List Declaration} (agree : Agree held)
    {row : List (ToolchainSpec × Declaration)} (none : firstRefusal? held row = none) :
    Agree (held ++ row.map Prod.snd) := by
  induction row generalizing held with
  | nil => simpa using agree
  | cons first rest ih =>
    unfold firstRefusal? at none
    split at none
    · cases none
    · rename_i clear
      have extended : Agree (held ++ [first.2]) := by
        refine Declaration.agree_append_iff.mpr ⟨?_, agree⟩
        simpa using clear
      simpa using ih extended none

theorem sequence_declarations (specs : List ToolchainSpec) :
    (sequence specs).map Prod.snd = specs.flatMap ToolchainSpec.declarations := by
  simp [sequence, List.map_flatMap, Function.comp_def]

theorem Refusal.firstOf {specs : List ToolchainSpec} {refusal : Refusal}
    (found : firstRefusal? [] (sequence specs) = some refusal) : refusal.FirstOf specs := by
  have empty : Agree [] := by simp [Agree]
  obtain ⟨before, after, split, held, agree, earlier, clash⟩ := firstRefusal?_eq_some empty found
  refine ⟨?_, agree, earlier, clash⟩
  obtain ⟨lower, spec, upper, inner, outer, rfl, own, rfl⟩ := exists_of_flatMap_eq split
  obtain ⟨first, second, declarations, firstSame, secondSame⟩ := List.map_eq_append_iff.mp own
  obtain ⟨declaration, later, rfl, same, _⟩ := List.map_eq_cons_iff.mp secondSame
  cases same
  refine ⟨lower, upper, first, later, rfl, declarations, ?_⟩
  rw [held, List.nil_append, List.map_append, ← firstSame]
  exact congrArg₂ (· ++ ·) (sequence_declarations lower) (by simp [Function.comp_def])

theorem exists_firstRefusal? {specs : List ToolchainSpec}
    (clash : ¬ Agree (specs.flatMap ToolchainSpec.declarations)) :
    ∃ refusal, firstRefusal? [] (sequence specs) = some refusal := by
  cases found : firstRefusal? [] (sequence specs) with
  | some refusal => exact ⟨refusal, rfl⟩
  | none =>
    have empty : Agree [] := by simp [Agree]
    have agree := firstRefusal?_eq_none empty found
    rw [List.nil_append, sequence_declarations] at agree
    exact absurd agree clash

theorem firstClash?_eq_some {declarations others : List Declaration} {found : Declaration}
    (first : firstClash? declarations others = some found) :
    (∃ other ∈ others, other.Clashes found) ∧ ∃ before after,
      declarations = before ++ found :: after ∧
        ∀ declaration ∈ before, ∀ other ∈ others, ¬ other.Clashes declaration := by
  obtain ⟨clash, before, after, split, clear⟩ := List.find?_eq_some_iff_append.mp first
  exact ⟨by simpa using clash, before, after, split, by simpa using clear⟩

theorem exists_firstClash? {declarations others : List Declaration} {declaration other : Declaration}
    (inside : declaration ∈ declarations) (otherIn : other ∈ others)
    (clash : other.Clashes declaration) : ∃ found, firstClash? declarations others = some found := by
  rw [← Option.isSome_iff_exists, firstClash?, List.find?_isSome]
  exact ⟨declaration, inside, by simpa using ⟨other, otherIn, clash⟩⟩

theorem firstClash?_before {declarations others before after : List Declaration}
    {hit target other : Declaration} (first : firstClash? declarations others = some hit)
    (split : declarations = before ++ target :: after) (otherIn : other ∈ others)
    (clash : other.Clashes target) :
    ∃ clear rest, declarations = clear ++ hit :: rest ∧
      (∀ declaration ∈ clear, ∀ other ∈ others, ¬ other.Clashes declaration) ∧
      (clear = before ∧ hit = target ∨
        ∃ between, before = clear ++ hit :: between ∧ rest = between ++ target :: after) := by
  obtain ⟨_, clear, rest, hitSplit, free⟩ := firstClash?_eq_some first
  refine ⟨clear, rest, hitSplit, free, ?_⟩
  rcases append_cons_cases (hitSplit.symm.trans split) with
    ⟨same, here, _⟩ | ⟨between, early, later⟩ | ⟨between, late, _⟩
  · exact Or.inl ⟨same, here⟩
  · exact Or.inr ⟨between, early, later⟩
  · exact absurd clash (free target (late ▸ by simp) other otherIn)

end BuildArgs
