import BuildArgs.CommandLine.Run
import BuildArgs.Proofs.Build.Loading
import BuildArgs.Proofs.Evaluation.FinalStore

/-! What the verdict of the `check` command means, in terms of the manifest and the values that
are given for its arguments. -/

namespace BuildArgs

variable {read : ReadFile} {inputs : Inputs} {host : Host}

theorem Inputs.Loaded.verify_eq_ok_iff {path : SystemString} {file : Option SystemString}
    {assignments : List String} {defaults fileTable : Toml.Table} {assigned : List (String × Value)}
    (loaded : Inputs.Loaded read path file assignments inputs defaults fileTable assigned)
    {final : Store} {scopes : List Scope}
    (evaluated : (inputs.prepare (.new host)).evaluate inputs.manifest = (final, .ok scopes)) :
    final.verify = .ok () ↔
      ∀ name, (name ∈ fileTable.keys ∨ name ∈ assigned.map Prod.fst ∨
        ∃ spec ∈ inputs.manifest.toolchains, name ∈ spec.overrides.keys) →
          name ∈ inputs.manifest.blockNames ∨
            name ∈ Host.systemNames ∧ inputs.manifest.toolchains ≠ [] := by
  have fresh := Store.fresh_prepare inputs host
  simp only [Store.verify_eq_ok_iff, Store.isDeclared_of_evaluate loaded.wellFormed fresh evaluated,
    Store.contains_supplied_of_evaluate loaded.wellFormed fresh evaluated,
    loaded.contains_supplied_iff host, Manifest.mem_knownNames_iff, or_assoc]

namespace CommandLine

variable {architecture : String} {words : List SystemString} {options : InputOptions} {json : Bool}

end CommandLine
end BuildArgs
