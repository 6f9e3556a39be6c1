import BuildArgs.Proofs.Evaluation.ReturnedError

/-! When the conflict that an evaluation reports does not depend on which toolchain came first. -/

namespace BuildArgs

namespace Manifest

variable {manifest : Manifest} {initial : Store}

/-- The toolchains of a manifest, listed and interleaved in any way, return one error. -/
def StableReport (initial : Store) (manifest : Manifest) : Prop :=
  ∃ error, ∀ specs machine, specs.Perm manifest.toolchains →
    Machine.Interleaves initial specs machine →
    Store.scopesInOrder (machine.outcomes specs) = .error error

theorem stableReport_of_steady (wellFormed : manifest.WellFormed) (fresh : initial.Fresh)
    (conflict : ¬ manifest.Consistent) (steady : manifest.Steady) :
    manifest.StableReport initial := by
  have ordered := manifest.inOrder_perm
  have clash : ¬ Declaration.Agree (manifest.inOrder.flatMap ToolchainSpec.declarations) :=
    fun agree => conflict ((Declaration.agree_perm ordered).mp agree)
  obtain ⟨refusal, found⟩ := exists_firstRefusal? clash
  refine ⟨refusal.report, fun specs machine order interleaves => ?_⟩
  have toOrder := order.trans ordered.symm
  have listed := interleaves.perm toOrder
  obtain ⟨progress, valid⟩ := listed.valid fresh (Machine.separate_of_perm wellFormed ordered)
  have distinct :=
    Machine.outcomes_distinct (Machine.separate_of_perm wellFormed order).distinct machine
  calc
    Store.scopesInOrder (machine.outcomes specs)
      = Store.scopesInOrder (machine.outcomes manifest.inOrder) :=
        Store.scopesInOrder_congr (Machine.outcomes_perm toOrder machine) distinct
    _ = .error refusal.report :=
        valid.returns_of_steady (ascending_inOrder wellFormed) (steady refusal found)
          (Refusal.firstOf found) listed.finished

theorem steady_of_stableReport (wellFormed : manifest.WellFormed) (fresh : initial.Fresh)
    (stable : manifest.StableReport initial) : manifest.Steady := by
  obtain ⟨error, same⟩ := stable
  intro refusal found ahead member
  have returns : Machine.Returns initial manifest.inOrder error :=
    fun machine interleaves => same manifest.inOrder machine manifest.inOrder_perm interleaves
  have separate := Machine.separate_of_perm wellFormed manifest.inOrder_perm
  have ascending := ascending_inOrder wellFormed
  have first := Refusal.firstOf found
  exact {
    refused := fun _ clash => returns.refused fresh separate ascending first member clash
    clashing := fun _ clash => (returns.clashing fresh separate ascending first member clash).1
    turned := returns.turned fresh separate ascending first member
  }

theorem StableReport.evaluate (stable : manifest.StableReport initial)
    (wellFormed : manifest.WellFormed) :
    ∃ error, ∀ other : Manifest, other.toolchains.Perm manifest.toolchains →
      (initial.evaluate other).2 = .error error := by
  obtain ⟨error, same⟩ := stable
  refine ⟨error, fun other order => ?_⟩
  have distinct := (Machine.separate_of_perm wellFormed order).distinct
  obtain ⟨machine, interleaves, result⟩ :=
    Machine.exists_interleaves_runToolchains distinct initial
  rw [Store.evaluate, ← result]
  exact same other.toolchains machine order interleaves

end Manifest

/-- Of a manifest with conflicts all interleavings and all orders of its toolchains return the
same error exactly if the first conflict in the order of their identities is steady. -/
theorem report_stable_iff {path text : String} {manifest : Manifest}
    (parsed : Manifest.parse path text = .ok manifest) (conflict : ¬ manifest.Consistent)
    {initial : Store} (fresh : initial.Fresh) :
    manifest.StableReport initial ↔ manifest.Steady := by
  have wellFormed := Manifest.wellFormed_of_parse parsed
  exact ⟨Manifest.steady_of_stableReport wellFormed fresh,
    Manifest.stableReport_of_steady wellFormed fresh conflict⟩

def declaringAt (label : String) (line : UInt32) : ToolchainSpec :=
  ⟨⟨label, false⟩, ∅, [⟨⟨"f", some line⟩, .ofList [("x", .integer (some ⟨"f", some line⟩) 0)]⟩]⟩

def twoPlacesText : String :=
  "[[toolchain]]\nlabel = 'a'\ndeclare_args = [\x7bfile = 'f', line = 1, args.x = 0\x7d]\n" ++
  "[[toolchain]]\nlabel = 'b'\ndeclare_args = [\x7bfile = 'f', line = 2, args.x = 0\x7d]\n"

def twoPlacesManifest : Manifest := ⟨"m", ∅, [declaringAt "a" 1, declaringAt "b" 2]⟩

theorem report_stable_iff_twoPlaces :
    Manifest.parse "m" twoPlacesText = .ok twoPlacesManifest ∧
    ¬ twoPlacesManifest.Consistent ∧ twoPlacesManifest.StableReport (.new ⟨"linux", "x64"⟩) := by
  have parsed : Manifest.parse "m" twoPlacesText = .ok twoPlacesManifest := by cbv
  have conflict : ¬ twoPlacesManifest.Consistent := by decide +kernel
  have ordered : twoPlacesManifest.inOrder = twoPlacesManifest.toolchains :=
    List.mergeSort_of_pairwise (by decide)
  have steady : twoPlacesManifest.Steady := by
    unfold Manifest.Steady
    rw [ordered]
    decide +kernel
  exact ⟨parsed, conflict, (report_stable_iff parsed conflict (Store.fresh_new _)).mpr steady⟩

def threePlacesText : String :=
  twoPlacesText ++
  "[[toolchain]]\nlabel = 'c'\ndeclare_args = [\x7bfile = 'f', line = 3, args.x = 0\x7d]\n"

def threePlacesManifest : Manifest :=
  ⟨"m", ∅, [declaringAt "a" 1, declaringAt "b" 2, declaringAt "c" 3]⟩

set_option maxRecDepth 4000 in
/-- With a third such toolchain, which of the others is reported beside the first depends on
whether the last came before it. -/
theorem report_unstable_threePlaces :
    Manifest.parse "m" threePlacesText = .ok threePlacesManifest ∧
    ¬ threePlacesManifest.Consistent ∧
    (Store.evaluate (.new ⟨"linux", "x64"⟩) threePlacesManifest).2 =
      .error (.duplicateDeclaration "x" (some ⟨"f", some 2⟩) (some ⟨"f", some 1⟩)) ∧
    (Store.evaluate (.new ⟨"linux", "x64"⟩)
      ⟨"m", ∅, [declaringAt "c" 3, declaringAt "a" 1, declaringAt "b" 2]⟩).2 =
      .error (.duplicateDeclaration "x" (some ⟨"f", some 3⟩) (some ⟨"f", some 1⟩)) ∧
    ¬ threePlacesManifest.StableReport (.new ⟨"linux", "x64"⟩) := by
  have parsed : Manifest.parse "m" threePlacesText = .ok threePlacesManifest := by cbv
  have inOrder : (Store.evaluate (.new ⟨"linux", "x64"⟩) threePlacesManifest).2 =
      .error (.duplicateDeclaration "x" (some ⟨"f", some 2⟩) (some ⟨"f", some 1⟩)) := by
    cbv
  have lastFirst : (Store.evaluate (.new ⟨"linux", "x64"⟩)
      ⟨"m", ∅, [declaringAt "c" 3, declaringAt "a" 1, declaringAt "b" 2]⟩).2 =
      .error (.duplicateDeclaration "x" (some ⟨"f", some 3⟩) (some ⟨"f", some 1⟩)) := by
    cbv
  refine ⟨parsed, by decide +kernel, inOrder, lastFirst, fun stable => ?_⟩
  obtain ⟨error, same⟩ := stable.evaluate (Manifest.wellFormed_of_parse parsed)
  have first := inOrder.symm.trans (same threePlacesManifest (.refl _))
  have rotated : [declaringAt "c" 3, declaringAt "a" 1, declaringAt "b" 2].Perm
      threePlacesManifest.toolchains :=
    (List.perm_append_singleton (declaringAt "c" 3) [declaringAt "a" 1, declaringAt "b" 2]).symm
  have second := lastFirst.symm.trans (same _ rotated)
  rw [← second] at first
  simp at first

end BuildArgs
