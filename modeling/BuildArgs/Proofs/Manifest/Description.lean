import BuildArgs.Manifest
import BuildArgs.Proofs.Traversal

/-! What a manifest says, told from the table that it was written as: which nodes give its defaults, its
toolchains, and the values and blocks of each. -/

namespace BuildArgs

open Toml (Node)

namespace Toml

inductive HoldsTable : Option Node → Table → Prop
  | missing : HoldsTable none ∅
  | table {entries resolved} : Node.resolveEntries entries = some resolved →
      HoldsTable (some (.table entries)) (.ofList resolved)
  | temporal {value} :
      HoldsTable (some (.temporal value)) (.ofList [(temporalKey, .string value.text)])

inductive HoldsArray : Option Node → List Node → Prop
  | missing : HoldsArray none []
  | array {items} : HoldsArray (some (.array items)) items

inductive HoldsLine : Option Node → Option UInt32 → Prop
  | missing : HoldsLine none none
  | integer {value : Int64} {line : UInt32} : value.toInt = line.toNat →
      HoldsLine (some (.integer value)) (some line)

inductive HoldsFlag : Option Node → Bool → Prop
  | missing : HoldsFlag none false
  | boolean {value} : HoldsFlag (some (.boolean value)) value

end Toml

open Toml (HoldsTable HoldsArray HoldsLine HoldsFlag)

def DeclareBlock.WrittenAs (block : DeclareBlock) (node : Node) : Prop :=
  ∃ field arguments, node.fields? ["file", "line", "args"] = some field ∧
    field "file" = some (.string block.origin.file) ∧ HoldsLine (field "line") block.origin.line ∧
    HoldsTable (field "args") arguments ∧
    block.arguments = Value.mapOfTable block.origin arguments

def ToolchainSpec.WrittenAs (path : String) (spec : ToolchainSpec) (node : Node) : Prop :=
  ∃ field own nodes,
    node.fields? ["label", "default", "toolchain_args", "declare_args"] = some field ∧
    field "label" = some (.string spec.id.label) ∧
    HoldsFlag (field "default") spec.id.isDefault ∧ HoldsTable (field "toolchain_args") own ∧
    spec.overrides = Value.mapOfTable (.ofFile path) own ∧
    HoldsArray (field "declare_args") nodes ∧ List.Forall₂ DeclareBlock.WrittenAs spec.blocks nodes

/-- Whether a manifest says what is written in a table, where `defaults` are the project's. -/
structure Manifest.WrittenAs (manifest : Manifest) (table defaults : Toml.Table) : Prop where
  written : HoldsTable (table.get? "default_args") defaults
  values : manifest.defaults = Value.mapOfTable (.ofFile manifest.path) defaults
  toolchains : ∃ nodes, HoldsArray (table.get? "toolchain") nodes ∧
    List.Forall₂ (ToolchainSpec.WrittenAs manifest.path) manifest.toolchains nodes

namespace Manifest

variable {α : Type} {field : Option Node} {node : Node} {nodes : List Node} {table : Toml.Table}

theorem fieldOr_table_iff :
    fieldOr ∅ Node.table? field = some table ↔ HoldsTable field table := by
  constructor
  · intro found
    cases field with
    | none =>
      cases found
      exact .missing
    | some node =>
      cases node with
      | table entries =>
        obtain ⟨resolved, known, rfl⟩ := Option.map_eq_some_iff.mp found
        exact .table known
      | temporal value =>
        cases found
        exact .temporal
      | _ => cases found
  · rintro (_ | known | _)
    · rfl
    · exact Option.map_eq_some_iff.mpr ⟨_, known, rfl⟩
    · rfl

theorem fieldOr_array_iff {read : Node → Option α} {results : List α} :
    fieldOr [] (fun node => node.array?.bind (·.mapM read)) field = some results ↔
      ∃ nodes, HoldsArray field nodes ∧
        List.Forall₂ (fun result node => read node = some result) results nodes := by
  constructor
  · intro found
    cases field with
    | none =>
      cases found
      exact ⟨[], .missing, .nil⟩
    | some node =>
      cases node with
      | array items => exact ⟨items, .array, mapM_eq_some_iff.mp found⟩
      | _ => cases found
  · rintro ⟨nodes, _ | _, each⟩
    · cases each
      rfl
    · exact mapM_eq_some_iff.mpr each

theorem line?_eq_some_iff {line : UInt32} :
    node.line? = some line ↔ ∃ value, node = .integer value ∧ value.toInt = line.toNat := by
  cases node with
  | integer value =>
    have bound := line.toNat_lt
    simp only [Node.line?, Node.integer.injEq, exists_eq_left', Option.ite_none_right_eq_some,
      Option.some.injEq]
    constructor
    · rintro ⟨⟨positive, small⟩, rfl⟩
      rw [UInt32.toNat_ofNat_of_lt' (by omega)]
      omega
    · intro same
      refine ⟨⟨by omega, by rw [same]; exact_mod_cast bound⟩, ?_⟩
      rw [same, Int.toNat_natCast, UInt32.ofNat_toNat]
  | _ => simp [Node.line?]

theorem fieldOr_line_iff {line : Option UInt32} :
    fieldOr none (fun node => node.line?.map some) field = some line ↔ HoldsLine field line := by
  cases field with
  | none =>
    refine ⟨fun found => ?_, fun held => ?_⟩
    · cases found
      exact .missing
    · cases held
      rfl
  | some node =>
    simp only [fieldOr, Option.map_eq_some_iff, line?_eq_some_iff]
    constructor
    · rintro ⟨line, ⟨value, rfl, same⟩, rfl⟩
      exact .integer same
    · rintro (_ | same)
      exact ⟨_, ⟨_, rfl, same⟩, rfl⟩

theorem fieldOr_flag_iff {flag : Bool} :
    fieldOr false Node.boolean? field = some flag ↔ HoldsFlag field flag := by
  constructor
  · intro found
    cases field with
    | none =>
      cases found
      exact .missing
    | some node =>
      cases node with
      | boolean value =>
        cases found
        exact .boolean
      | _ => cases found
  · rintro (_ | _) <;> rfl

theorem required_string_iff {text : String} :
    required Node.string? field = some text ↔ field = some (.string text) := by
  cases field with
  | none => simp [required]
  | some node => cases node <;> simp [required, Node.string?]

theorem readBlock_eq_some_iff {block : DeclareBlock} :
    readBlock node = some block ↔ block.WrittenAs node := by
  simp only [readBlock, Option.pure_def, Option.bind_eq_bind, Option.bind_eq_some_iff,
    Option.some.injEq, required_string_iff, fieldOr_line_iff, fieldOr_table_iff]
  constructor
  · rintro ⟨field, fields, file, named, line, placed, arguments, held, rfl⟩
    exact ⟨field, arguments, fields, named, placed, held, rfl⟩
  · rintro ⟨field, arguments, fields, named, placed, held, same⟩
    exact ⟨field, fields, _, named, _, placed, arguments, held,
      congrArg (DeclareBlock.mk block.origin) same.symm⟩

theorem readToolchain_eq_some_iff {path : String} {spec : ToolchainSpec} :
    readToolchain path node = some spec ↔ spec.WrittenAs path node := by
  simp only [readToolchain, Option.pure_def, Option.bind_eq_bind, Option.bind_eq_some_iff,
    Option.some.injEq, required_string_iff, fieldOr_flag_iff, fieldOr_table_iff, fieldOr_array_iff,
    readBlock_eq_some_iff]
  constructor
  · rintro ⟨field, fields, label, named, flag, flagged, own, held, blocks, ⟨nodes, all, each⟩, rfl⟩
    exact ⟨field, own, nodes, fields, named, flagged, held, rfl, all, each⟩
  · rintro ⟨field, own, nodes, fields, named, flagged, held, same, all, each⟩
    refine ⟨field, fields, _, named, _, flagged, own, held, _, ⟨nodes, all, each⟩, ?_⟩
    exact congrArg (ToolchainSpec.mk spec.id · spec.blocks) same.symm

theorem ofTable?_eq_some_iff {path : String} {manifest : Manifest} :
    ofTable? path table = some manifest ↔
      manifest.path = path ∧ ∃ defaults, manifest.WrittenAs table defaults := by
  simp only [ofTable?, Option.pure_def, Option.bind_eq_bind, Option.bind_eq_some_iff,
    Option.some.injEq, fieldOr_table_iff, fieldOr_array_iff, readToolchain_eq_some_iff]
  constructor
  · rintro ⟨defaults, held, toolchains, ⟨nodes, all, each⟩, rfl⟩
    exact ⟨rfl, defaults, held, rfl, nodes, all, each⟩
  · rintro ⟨rfl, defaults, held, same, nodes, all, each⟩
    refine ⟨defaults, held, _, ⟨nodes, all, each⟩, ?_⟩
    exact congrArg (Manifest.mk manifest.path · manifest.toolchains) same.symm

end Manifest
end BuildArgs
