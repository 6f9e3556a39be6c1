import BuildArgs.Proofs.Declaration
import BuildArgs.Proofs.Manifest.WellFormed
import BuildArgs.Proofs.Sorting
import Mathlib.Data.List.Dedup

/-! The toolchains of a manifest in their order, and the blocks of all of them with the names that they
declare. -/

namespace BuildArgs

namespace Manifest

def blocks (manifest : Manifest) : List DeclareBlock :=
  manifest.toolchains.flatMap ToolchainSpec.blocks

def blockNames (manifest : Manifest) : List String :=
  manifest.blocks.flatMap fun block => block.arguments.keys

/-- The names that some toolchain knows once all of them are evaluated: those in blocks, and
those of the system if there is a toolchain at all. -/
def knownNames (manifest : Manifest) : List String :=
  manifest.blockNames.dedup ++
    if manifest.toolchains = [] then []
    else Host.systemNames.filter fun name => name ∉ manifest.blockNames

variable {manifest : Manifest}

theorem mem_blocks_iff {block : DeclareBlock} :
    block ∈ manifest.blocks ↔ ∃ spec ∈ manifest.toolchains, block ∈ spec.blocks :=
  List.mem_flatMap

theorem mem_blockNames_iff {name : String} :
    name ∈ manifest.blockNames ↔
      ∃ spec ∈ manifest.toolchains, ∃ block ∈ spec.blocks, name ∈ block.arguments.keys := by
  simp only [blockNames, List.mem_flatMap, mem_blocks_iff]
  constructor
  · rintro ⟨block, ⟨spec, member, inside⟩, named⟩
    exact ⟨spec, member, block, inside, named⟩
  · rintro ⟨spec, member, block, inside, named⟩
    exact ⟨block, ⟨spec, member, inside⟩, named⟩

theorem mem_knownNames_iff {name : String} :
    name ∈ manifest.knownNames ↔
      name ∈ manifest.blockNames ∨ name ∈ Host.systemNames ∧ manifest.toolchains ≠ [] := by
  unfold knownNames
  by_cases empty : manifest.toolchains = []
  · simp [empty]
  · by_cases inside : name ∈ manifest.blockNames
    · simp [inside]
    · simp [empty, inside]

end Manifest
end BuildArgs
