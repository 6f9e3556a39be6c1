import Mathlib
import BuildArgs.Manifest

/-! What is asked of the toolchains of a manifest, and which fault is reported if it does not hold: that
of the first toolchain in order with which the toolchains up to there are no longer allowed. -/

namespace BuildArgs

namespace ToolchainSpec

def Unlabelled (spec : ToolchainSpec) : Prop := spec.id.isDefault = false ∧ spec.id.label = ""

/-- Whether a toolchain in front of this one has its label and is a default one if this one is. -/
def Repeats (before : List ToolchainSpec) (spec : ToolchainSpec) : Prop :=
  ∃ earlier ∈ before, earlier.id.label = spec.id.label ∧ earlier.id.isDefault = spec.id.isDefault

def HasFilelessBlock (spec : ToolchainSpec) : Prop := ∃ block ∈ spec.blocks, block.origin.file = ""

/-- The fault that is reported of a toolchain in its place, of several the first one of these. -/
inductive Fault (before : List ToolchainSpec) (spec : ToolchainSpec) : Violation → Prop
  | unlabelled : spec.Unlabelled → Fault before spec .emptyLabel
  | repeated : ¬ spec.Unlabelled → spec.Repeats before →
      Fault before spec (.repeatedToolchain spec.id.label)
  | fileless : ¬ spec.Unlabelled → ¬ spec.Repeats before → spec.HasFilelessBlock →
      Fault before spec (.blockWithoutFile spec.id.label)

end ToolchainSpec

namespace Manifest

open ToolchainSpec (Fault)

structure Allowed (specs : List ToolchainSpec) : Prop where
  labelled : ∀ spec ∈ specs, spec.id.isDefault = false → spec.id.label ≠ ""
  distinct : specs.Pairwise fun one other =>
    ¬ (one.id.label = other.id.label ∧ one.id.isDefault = other.id.isDefault)
  filed : ∀ spec ∈ specs, ∀ block ∈ spec.blocks, block.origin.file ≠ ""

def FirstFault (specs : List ToolchainSpec) (violation : Violation) : Prop :=
  ∃ before spec after, specs = before ++ spec :: after ∧ Allowed before ∧ Fault before spec violation

variable {before after specs : List ToolchainSpec} {spec : ToolchainSpec} {violation other : Violation}

theorem allowed_concat_iff : Allowed (before ++ [spec]) ↔
    Allowed before ∧ ¬ spec.Unlabelled ∧ ¬ spec.Repeats before ∧ ¬ spec.HasFilelessBlock := by
  constructor
  · rintro ⟨labelled, distinct, filed⟩
    have last : spec ∈ before ++ [spec] := List.mem_concat_self
    have front : ∀ earlier ∈ before, earlier ∈ before ++ [spec] := fun _ => List.mem_append_left _
    obtain ⟨among, _, apart⟩ := List.pairwise_append.mp distinct
    refine ⟨⟨fun one member => labelled one (front one member), among,
      fun one member => filed one (front one member)⟩, ?_, ?_, ?_⟩
    · exact fun unlabelled => labelled spec last unlabelled.1 unlabelled.2
    · rintro ⟨earlier, member, same⟩
      exact apart earlier member spec (List.mem_singleton_self _) same
    · rintro ⟨block, inside, fileless⟩
      exact filed spec last block inside fileless
  · rintro ⟨⟨labelled, distinct, filed⟩, named, fresh, placed⟩
    have each {property : ToolchainSpec → Prop} (front : ∀ one ∈ before, property one)
        (last : property spec) : ∀ one ∈ before ++ [spec], property one :=
      List.forall_mem_append.mpr ⟨front, List.forall_mem_singleton.mpr last⟩
    refine ⟨each labelled fun ordinary empty => named ⟨ordinary, empty⟩, ?_,
      each filed fun block inside fileless => placed ⟨block, inside, fileless⟩⟩
    refine List.pairwise_append.mpr ⟨distinct, List.pairwise_singleton _ _, ?_⟩
    intro earlier member one single same
    cases List.mem_singleton.mp single
    exact fresh ⟨earlier, member, same⟩

theorem Allowed.of_append (allowed : Allowed (before ++ after)) : Allowed before :=
  ⟨fun one member => allowed.labelled one (List.mem_append_left _ member),
    (List.pairwise_append.mp allowed.distinct).1,
    fun one member => allowed.filed one (List.mem_append_left _ member)⟩

theorem allowed_or_fault (allowed : Allowed before) (spec : ToolchainSpec) :
    Allowed (before ++ [spec]) ∨ ∃ violation, Fault before spec violation := by
  by_cases unlabelled : spec.Unlabelled
  · exact .inr ⟨_, .unlabelled unlabelled⟩
  · by_cases repeated : spec.Repeats before
    · exact .inr ⟨_, .repeated unlabelled repeated⟩
    · by_cases fileless : spec.HasFilelessBlock
      · exact .inr ⟨_, .fileless unlabelled repeated fileless⟩
      · exact .inl (allowed_concat_iff.mpr ⟨allowed, unlabelled, repeated, fileless⟩)

theorem not_allowed_of_fault (fault : Fault before spec violation) :
    ¬ Allowed (before ++ spec :: after) := by
  intro allowed
  have whole : Allowed ((before ++ [spec]) ++ after) := by simpa using allowed
  obtain ⟨_, labelled, fresh, placed⟩ := allowed_concat_iff.mp whole.of_append
  cases fault with
  | unlabelled unlabelled => exact labelled unlabelled
  | repeated _ repeated => exact fresh repeated
  | fileless _ _ fileless => exact placed fileless

theorem fault_unique (first : Fault before spec violation) (second : Fault before spec other) :
    violation = other := by
  cases first <;> cases second <;> first | rfl | contradiction

/-! The check of a list of toolchains, after those in `before` -/

theorem unlabelled_iff :
    (spec.id.label.isEmpty = true ∧ spec.id.isDefault = false) ↔ spec.Unlabelled := by
  rw [String.isEmpty_iff, and_comm, ToolchainSpec.Unlabelled]

theorem mem_seen_iff :
    spec.id ∈ (before.map ToolchainSpec.id).reverse ↔ spec.Repeats before := by
  simp only [List.mem_reverse, List.mem_map, ToolchainSpec.Repeats]
  constructor
  · rintro ⟨earlier, member, same⟩
    exact ⟨earlier, member, congrArg Toolchain.label same, congrArg Toolchain.isDefault same⟩
  · rintro ⟨earlier, member, label, kind⟩
    have same : Toolchain.mk earlier.id.label earlier.id.isDefault =
        .mk spec.id.label spec.id.isDefault := by
      rw [label, kind]
    exact ⟨earlier, member, same⟩

theorem any_fileless_iff :
    (spec.blocks.any fun block => block.origin.file.isEmpty) = true ↔ spec.HasFilelessBlock := by
  simp [ToolchainSpec.HasFilelessBlock]

theorem firstViolation?_of_fault (fault : Fault before spec violation) :
    firstViolation? (before.map ToolchainSpec.id).reverse (spec :: after) = some violation := by
  rw [firstViolation?]
  cases fault with
  | unlabelled unlabelled => rw [if_pos (unlabelled_iff.mpr unlabelled)]
  | repeated labelled repeated =>
    rw [if_neg (mt unlabelled_iff.mp labelled), if_pos (mem_seen_iff.mpr repeated)]
  | fileless labelled fresh fileless =>
    rw [if_neg (mt unlabelled_iff.mp labelled), if_neg (mt mem_seen_iff.mp fresh),
      if_pos (any_fileless_iff.mpr fileless)]

theorem firstViolation?_of_allowed (allowed : Allowed (before ++ [spec])) :
    firstViolation? (before.map ToolchainSpec.id).reverse (spec :: after) =
      firstViolation? ((before ++ [spec]).map ToolchainSpec.id).reverse after := by
  obtain ⟨_, labelled, fresh, placed⟩ := allowed_concat_iff.mp allowed
  rw [firstViolation?, if_neg (mt unlabelled_iff.mp labelled), if_neg (mt mem_seen_iff.mp fresh),
    if_neg (mt any_fileless_iff.mp placed), List.map_append, List.reverse_append]
  rfl

theorem firstViolation?_eq_none_iff (allowed : Allowed before) :
    firstViolation? (before.map ToolchainSpec.id).reverse after = none ↔
      Allowed (before ++ after) := by
  induction after generalizing before with
  | nil => simp [firstViolation?, allowed]
  | cons spec after ih =>
    rcases allowed_or_fault allowed spec with further | ⟨violation, fault⟩
    · rw [firstViolation?_of_allowed further, ih further, List.append_assoc]
      rfl
    · simp [firstViolation?_of_fault fault, not_allowed_of_fault fault]

theorem firstViolation?_eq_some_iff (allowed : Allowed before) :
    firstViolation? (before.map ToolchainSpec.id).reverse after = some violation ↔
      ∃ between spec rest, after = between ++ spec :: rest ∧ Allowed (before ++ between) ∧
        Fault (before ++ between) spec violation := by
  induction after generalizing before with
  | nil => simp [firstViolation?]
  | cons head after ih =>
    rcases allowed_or_fault allowed head with further | ⟨reported, fault⟩
    · rw [firstViolation?_of_allowed further, ih further]
      constructor
      · rintro ⟨between, spec, rest, rfl, upTo, fault⟩
        exact ⟨head :: between, spec, rest, rfl, by simpa using upTo, by simpa using fault⟩
      · rintro ⟨between, spec, rest, split, upTo, fault⟩
        cases between with
        | nil =>
          obtain ⟨rfl, _⟩ := List.cons.inj split
          rw [List.append_nil] at fault
          exact absurd further (not_allowed_of_fault fault)
        | cons one between =>
          obtain ⟨rfl, rfl⟩ := List.cons.inj split
          exact ⟨between, spec, rest, rfl, by simpa using upTo, by simpa using fault⟩
    · rw [firstViolation?_of_fault fault]
      constructor
      · intro same
        cases same
        exact ⟨[], head, after, rfl, by simpa using allowed, by simpa using fault⟩
      · rintro ⟨between, spec, rest, split, upTo, later⟩
        cases between with
        | nil =>
          obtain ⟨rfl, _⟩ := List.cons.inj split
          rw [List.append_nil] at later
          rw [fault_unique fault later]
        | cons one between =>
          obtain ⟨rfl, _⟩ := List.cons.inj split
          exact absurd upTo (not_allowed_of_fault fault)

theorem allowed_nil : Allowed [] := ⟨nofun, .nil, nofun⟩

/-- A manifest that can be read is accepted exactly if its toolchains are allowed, and the error for any
other is the first fault of its toolchains in order. -/
theorem parse_exact {path text : String} {manifest : Manifest}
    (read : (Toml.parseUnresolved text).bind (ofTable? path) = some manifest) :
    (∀ accepted, parse path text = .ok accepted ↔
        accepted = manifest ∧ Allowed manifest.toolchains) ∧
      ∀ error, parse path text = .error error ↔
        ∃ violation, error = .invalid violation ∧ FirstFault manifest.toolchains violation := by
  have accepted : firstViolation? [] manifest.toolchains = none ↔ Allowed manifest.toolchains :=
    firstViolation?_eq_none_iff allowed_nil
  have refused (violation : Violation) : firstViolation? [] manifest.toolchains = some violation ↔
      FirstFault manifest.toolchains violation :=
    firstViolation?_eq_some_iff allowed_nil
  rw [parse, read]
  simp only [← accepted, ← refused]
  cases firstViolation? [] manifest.toolchains with
  | none => simp [eq_comm]
  | some violation => simp [eq_comm]

end Manifest

/-- Two toolchains with one label, a default one and another, which is repeated with a second fault; after
that a toolchain without a label. -/
def severalFaultsText : String :=
  "[[toolchain]]\nlabel = 'a'\n[[toolchain]]\nlabel = 'a'\ndefault = true\n" ++
  "[[toolchain]]\nlabel = 'a'\ndeclare_args = [['']]\n[[toolchain]]\nlabel = ''\n"

def severalFaults : Manifest :=
  ⟨"m", ∅, [⟨⟨"a", false⟩, ∅, []⟩, ⟨⟨"a", true⟩, ∅, []⟩,
    ⟨⟨"a", false⟩, ∅, [⟨.ofFile "", ∅⟩]⟩, ⟨⟨"", false⟩, ∅, []⟩]⟩

theorem parse_exact_severalFaults :
    (Toml.parseUnresolved severalFaultsText).bind (Manifest.ofTable? "m") = some severalFaults ∧
      Manifest.parse "m" severalFaultsText = .error (.invalid (.repeatedToolchain "a")) := by
  have read : (Toml.parseUnresolved severalFaultsText).bind (Manifest.ofTable? "m") =
      some severalFaults := by
    cbv
  refine ⟨read, ((Manifest.parse_exact read).2 _).mpr ⟨_, rfl, ?_⟩⟩
  have before : Manifest.Allowed (severalFaults.toolchains.take 2) :=
    ⟨by decide, by decide, by decide⟩
  refine ⟨_, ⟨⟨"a", false⟩, ∅, [⟨.ofFile "", ∅⟩]⟩, _, rfl, before, .repeated ?_ ?_⟩
  · exact fun unlabelled => absurd unlabelled.2 (by decide)
  · exact ⟨⟨⟨"a", false⟩, ∅, []⟩, List.mem_cons_self, rfl, rfl⟩

end BuildArgs
