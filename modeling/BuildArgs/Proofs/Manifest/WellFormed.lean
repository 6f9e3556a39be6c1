import Mathlib
import BuildArgs.Build.Inputs
import BuildArgs.Proofs.Manifest.Description
import BuildArgs.Proofs.Value.Uniform

/-! What every manifest that was read and checked has: distinct toolchains, and values that
come from the manifest itself or, for declared defaults, from their block. -/

namespace BuildArgs

open Toml (Node)

structure ToolchainSpec.WellFormed (path : String) (spec : ToolchainSpec) : Prop where
  overrides : UniformMap (some (.ofFile path)) spec.overrides
  blocks : ∀ block ∈ spec.blocks, UniformMap (some block.origin) block.arguments

structure Manifest.WellFormed (manifest : Manifest) : Prop where
  defaults : UniformMap (some (.ofFile manifest.path)) manifest.defaults
  toolchains : ∀ spec ∈ manifest.toolchains, spec.WellFormed manifest.path
  distinct : (manifest.toolchains.map ToolchainSpec.id).Nodup

theorem DeclareBlock.WrittenAs.uniform {block : DeclareBlock} {node : Node}
    (written : block.WrittenAs node) : UniformMap (some block.origin) block.arguments := by
  obtain ⟨_, _, _, _, _, _, same⟩ := written
  exact same ▸ Value.uniform_mapOfTable _ _

theorem ToolchainSpec.WrittenAs.wellFormed {path : String} {spec : ToolchainSpec} {node : Node}
    (written : spec.WrittenAs path node) : spec.WellFormed path := by
  obtain ⟨_, _, _, _, _, _, _, own, _, blocks⟩ := written
  refine ⟨own ▸ Value.uniform_mapOfTable _ _, fun block member => ?_⟩
  obtain ⟨node, _, written⟩ := exists_of_mem_forall₂ blocks member
  exact written.uniform

namespace Manifest

theorem distinct_of_firstViolation? {seen : List Toolchain} {specs : List ToolchainSpec}
    (accepted : firstViolation? seen specs = none) :
    (∀ spec ∈ specs, spec.id ∉ seen) ∧ (specs.map ToolchainSpec.id).Nodup := by
  induction specs generalizing seen with
  | nil => simp
  | cons spec rest ih =>
    unfold firstViolation? at accepted
    split at accepted
    · simp at accepted
    · split at accepted
      · simp at accepted
      · rename_i unseen
        split at accepted
        · simp at accepted
        · obtain ⟨apart, distinct⟩ := ih accepted
          constructor
          · intro other member
            rcases List.mem_cons.mp member with here | later
            · exact here ▸ unseen
            · exact fun old => apart other later (List.mem_cons_of_mem _ old)
          · rw [List.map_cons, List.nodup_cons]
            refine ⟨fun repeated => ?_, distinct⟩
            obtain ⟨other, member, same⟩ := List.mem_map.mp repeated
            exact apart other member (same ▸ List.mem_cons_self)

theorem attributed_of_ofTable? {path : String} {table : Toml.Table} {manifest : Manifest}
    (described : ofTable? path table = some manifest) :
    manifest.path = path ∧ UniformMap (some (.ofFile path)) manifest.defaults ∧
      ∀ spec ∈ manifest.toolchains, spec.WellFormed path := by
  obtain ⟨rfl, defaults, _, values, nodes, _, each⟩ := ofTable?_eq_some_iff.mp described
  refine ⟨rfl, values ▸ Value.uniform_mapOfTable _ _, fun spec member => ?_⟩
  obtain ⟨node, _, written⟩ := exists_of_mem_forall₂ each member
  exact written.wellFormed

theorem parse_eq_ok_iff {path text : String} {manifest : Manifest} :
    parse path text = .ok manifest ↔ ∃ table, Toml.parseUnresolved text = some table ∧
      ofTable? path table = some manifest ∧ firstViolation? [] manifest.toolchains = none := by
  unfold parse
  constructor
  · intro parsed
    split at parsed
    · cases parsed
    · rename_i read found
      obtain ⟨table, here, described⟩ := Option.bind_eq_some_iff.mp found
      split at parsed
      · cases parsed
      · rename_i accepted
        cases parsed
        exact ⟨table, here, described, accepted⟩
  · rintro ⟨table, here, described, accepted⟩
    simp [here, described, accepted]

theorem wellFormed_of_parse {path text : String} {manifest : Manifest}
    (parsed : parse path text = .ok manifest) : manifest.WellFormed := by
  obtain ⟨table, _, described, accepted⟩ := parse_eq_ok_iff.mp parsed
  obtain ⟨rfl, defaults, toolchains⟩ := attributed_of_ofTable? described
  exact ⟨defaults, toolchains, (distinct_of_firstViolation? accepted).2⟩

end Manifest

def sharedBlockText : String :=
  "[[toolchain]]\nlabel = 'a'\ntoolchain_args.x = 1\n" ++
  "[[toolchain.declare_args]]\nfile = 'f'\nline = 3\nargs.x = 0\n" ++
  "[[toolchain]]\nlabel = 'b'\n" ++
  "[[toolchain.declare_args]]\nfile = 'f'\nline = 3\nargs.x = 0\n"

def sharedBlock : DeclareBlock :=
  ⟨⟨"f", some 3⟩, .ofList [("x", .integer (some ⟨"f", some 3⟩) 0)]⟩

def sharedBlockManifest : Manifest :=
  ⟨"m", ∅, [⟨⟨"a", false⟩, .ofList [("x", .integer (some (.ofFile "m")) 1)], [sharedBlock]⟩,
    ⟨⟨"b", false⟩, ∅, [sharedBlock]⟩]⟩

theorem parse_sharedBlockText :
    Manifest.parse "m" sharedBlockText = .ok sharedBlockManifest := by
  cbv

end BuildArgs
