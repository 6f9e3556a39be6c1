import BuildArgs.LoadError
import BuildArgs.Toolchain
import BuildArgs.Value.Toml

/-!
Build manifests. A manifest gives the project's default values and lists toolchains, each
with the values it brings along and the blocks of arguments that its build files declare.
-/

namespace BuildArgs

structure DeclareBlock where
  origin : Origin
  arguments : NameMap Value

structure ToolchainSpec where
  id : Toolchain
  overrides : NameMap Value
  blocks : List DeclareBlock

structure Manifest where
  path : String
  defaults : NameMap Value
  toolchains : List ToolchainSpec

namespace Toml.Node

def string? : Node → Option String
  | .string value => some value
  | _ => none

def boolean? : Node → Option Bool
  | .boolean value => some value
  | _ => none

def line? : Node → Option UInt32
  | .integer value =>
    if 0 ≤ value.toInt ∧ value.toInt < UInt32.size then some (UInt32.ofNat value.toInt.toNat)
    else none
  | _ => none

def array? : Node → Option (List Node)
  | .array items => some items
  | _ => none

/-- A table of values. A date or time that is written bare is one with its text in it, and no
table stands for a date or time itself. -/
def table? : Node → Option Table
  | .table entries => (resolveEntries entries).map .ofList
  | .temporal value => some (.ofList [(temporalKey, .string value.text)])
  | _ => none

/-- The fields of a record: a table with the fields by name, or an array with the fields in
order, of which the last ones may be missing. Other names and further items do not count. -/
def fields? (names : List String) : Node → Option (String → Option Node)
  | .array items => some fun name => (names.zip items).lookup name
  | .table entries => some fun name => entries.lookup name
  | .temporal _ => some fun _ => none
  | _ => none

end Toml.Node

namespace Manifest

open Toml (Node)

def fieldOr {α : Type} (missing : α) (read : Node → Option α) (field : Option Node) : Option α :=
  match field with
  | some node => read node
  | none => some missing

def required {α : Type} (read : Node → Option α) (field : Option Node) : Option α :=
  field.bind read

def readBlock (node : Node) : Option DeclareBlock := do
  let field ← node.fields? ["file", "line", "args"]
  let file ← required Node.string? (field "file")
  let line ← fieldOr none (fun node => node.line?.map some) (field "line")
  let arguments ← fieldOr ∅ Node.table? (field "args")
  return ⟨⟨file, line⟩, Value.mapOfTable ⟨file, line⟩ arguments⟩

def readToolchain (path : String) (node : Node) : Option ToolchainSpec := do
  let field ← node.fields? ["label", "default", "toolchain_args", "declare_args"]
  let label ← required Node.string? (field "label")
  let isDefault ← fieldOr false Node.boolean? (field "default")
  let overrides ← fieldOr ∅ Node.table? (field "toolchain_args")
  let blocks ← fieldOr [] (fun node => node.array?.bind (·.mapM readBlock)) (field "declare_args")
  return ⟨⟨label, isDefault⟩, Value.mapOfTable (.ofFile path) overrides, blocks⟩

def ofTable? (path : String) (table : Toml.Table) : Option Manifest := do
  let defaults ← fieldOr ∅ Node.table? (table.get? "default_args")
  let toolchains ← fieldOr [] (fun node => node.array?.bind (·.mapM (readToolchain path)))
    (table.get? "toolchain")
  return ⟨path, Value.mapOfTable (.ofFile path) defaults, toolchains⟩

/-- The first thing in a list of toolchains that is not allowed, given the identities that
stand before it. -/
def firstViolation? (seen : List Toolchain) : List ToolchainSpec → Option Violation
  | [] => none
  | spec :: rest =>
    if spec.id.label.isEmpty ∧ spec.id.isDefault = false then some .emptyLabel
    else if spec.id ∈ seen then some (.repeatedToolchain spec.id.label)
    else if spec.blocks.any fun block => block.origin.file.isEmpty then
      some (.blockWithoutFile spec.id.label)
    else firstViolation? (spec.id :: seen) rest

def parse (path text : String) : Except LoadError Manifest :=
  match (Toml.parseUnresolved text).bind (ofTable? path) with
  | none => .error (.malformed path)
  | some manifest =>
    match firstViolation? [] manifest.toolchains with
    | some violation => .error (.invalid violation)
    | none => .ok manifest

def buildFiles (manifest : Manifest) : List String :=
  let files := manifest.toolchains.flatMap fun spec => spec.blocks.map fun block => block.origin.file
  (SortedMap.ofList (files.map fun file => (file, ()))).keys

end Manifest
end BuildArgs
