import BuildArgs.Assignment
import BuildArgs.Manifest
import BuildArgs.Path
import BuildArgs.Source

/-!
Everything that a build reads before it evaluates its toolchains: the manifest, a file of
assignments if one is named, and the assignments of the command line.
-/

namespace BuildArgs

structure Inputs where
  manifest : Manifest
  /-- The explicit values: those of the file, replaced by those of the command line. -/
  overrides : NameMap Value
  sources : List Source

namespace Inputs

def addAssignments (overrides : NameMap Value) : List String → Except LoadError (NameMap Value)
  | [] => .ok overrides
  | text :: rest => do
    let (name, value) ← Assignment.parse text
    addAssignments (overrides.insert name value) rest

def loadFile (read : ReadFile) (path : Option SystemString) :
    Except LoadError (NameMap Value × List Source) :=
  match path with
  | none => .ok (∅, [])
  | some path => do
    let (text, source) ← Source.load read path
    return (← Assignment.parseFile source.path text, [source])

def load (read : ReadFile) (manifest : SystemString) (file : Option SystemString)
    (assignments : List String) : Except LoadError Inputs := do
  let (text, source) ← Source.load read manifest
  let manifest ← Manifest.parse source.path text
  let (overrides, sources) ← loadFile read file
  let overrides ← addAssignments overrides assignments
  return ⟨manifest, overrides, source :: sources⟩

/-- The files whose contents can change the values of arguments: those that were read, then
the build files in order. -/
def files (inputs : Inputs) : FileSet :=
  .ofPaths (inputs.sources.map Source.path ++ inputs.manifest.buildFiles)

end Inputs
end BuildArgs
