import BuildArgs.Build.Inputs
import BuildArgs.Store

/-!
Evaluating the toolchains of a manifest. Each toolchain prepares the scope of its context
and declares its blocks in order, up to its first error; the toolchains share one store.
-/

namespace BuildArgs

namespace Inputs

def prepare (inputs : Inputs) (store : Store) : Store :=
  { (store.addDefaults inputs.manifest.defaults).addOverrides inputs.overrides with
    files := inputs.files }

end Inputs

namespace Store

def declareBlocks (store : Store) (scope : Scope) : List DeclareBlock → Declared
  | [] => ⟨store, scope, none⟩
  | block :: rest =>
    let result := store.declare scope block.arguments
    match result.error with
    | some _ => result
    | none => declareBlocks result.store result.scope rest

def runToolchain (store : Store) (spec : ToolchainSpec) : Declared :=
  let (store, scope) := store.setup (.new spec.id) spec.overrides
  store.declareBlocks scope spec.blocks

abbrev Outcome := Toolchain × Except ArgError Scope

def Declared.outcome (result : Declared) : Except ArgError Scope :=
  match result.error with
  | some error => .error error
  | none => .ok result.scope

def runToolchains (store : Store) : List ToolchainSpec → Store × List Outcome
  | [] => (store, [])
  | spec :: rest =>
    let result := store.runToolchain spec
    let (final, outcomes) := runToolchains result.store rest
    (final, (spec.id, result.outcome) :: outcomes)

/-- The scopes in the order of their contexts, or the error of the first context with one. -/
def scopesInOrder (outcomes : List Outcome) : Except ArgError (List Scope) :=
  (outcomes.mergeSort fun left right => (compare left.1 right.1).isLE).mapM Prod.snd

def evaluate (store : Store) (manifest : Manifest) : Store × Except ArgError (List Scope) :=
  let (final, outcomes) := store.runToolchains manifest.toolchains
  (final, scopesInOrder outcomes)

end Store
end BuildArgs
