import BuildArgs.Proofs.Assignment.WholeValue

/-! Which texts are assignments. What stands before the first equals sign decides that alone; what stands
after it is always a value, as a text if not as TOML. -/

namespace BuildArgs

open Text (Trims)

namespace Assignment

def Parted (text : String) (before after : List Char) : Prop :=
  text.toList = before ++ '=' :: after ∧ '=' ∉ before

def BeginsName (c : Char) : Prop := ('A' ≤ c ∧ c ≤ 'Z') ∨ ('a' ≤ c ∧ c ≤ 'z') ∨ c = '_'

inductive IsName : List Char → Prop
  | intro {first rest} : BeginsName first →
      (∀ c ∈ rest, BeginsName c ∨ ('0' ≤ c ∧ c ≤ '9')) → IsName (first :: rest)

/-- Whether a text stands for a value: for the one that a key has in TOML if the text is assigned to it
and, where this is not TOML, for itself. -/
inductive StandsFor (raw : String) : Value → Prop
  | toml {table node} : Toml.parse ("value = " ++ raw) = some table → table.get? "value" = some node →
      StandsFor raw (.ofNode commandLine node)
  | itself : Toml.parse ("value = " ++ raw) = none → StandsFor raw (.string commandLine raw)

variable {text name raw : String} {value : Value} {before after : List Char} {c : Char}

theorem isAlpha_iff : c.isAlpha = true ↔ ('A' ≤ c ∧ c ≤ 'Z') ∨ ('a' ≤ c ∧ c ≤ 'z') := by
  simp only [Char.isAlpha, Char.isUpper, Char.isLower, Bool.or_eq_true, Bool.and_eq_true,
    decide_eq_true_eq]
  exact Iff.rfl

theorem isDigit_iff : c.isDigit = true ↔ '0' ≤ c ∧ c ≤ '9' := by
  simp only [Char.isDigit, Bool.and_eq_true, decide_eq_true_eq]
  exact Iff.rfl

theorem isIdentifierStart_iff : isIdentifierStart c = true ↔ BeginsName c := by
  rw [isIdentifierStart, Bool.or_eq_true, isAlpha_iff, beq_iff_eq, or_assoc, BeginsName]

theorem isIdentifierChar_iff : isIdentifierChar c = true ↔ BeginsName c ∨ ('0' ≤ c ∧ c ≤ '9') := by
  rw [← isIdentifierStart_iff, ← isDigit_iff, isIdentifierChar, isIdentifierStart, Char.isAlphanum,
    Bool.or_eq_true, Bool.or_eq_true, Bool.or_eq_true, or_right_comm]

theorem isIdentifier_iff {text : List Char} : isIdentifier text = true ↔ IsName text := by
  cases text with
  | nil => exact iff_of_false Bool.false_ne_true nofun
  | cons first rest =>
    simp only [isIdentifier, Bool.and_eq_true, List.all_eq_true, isIdentifierStart_iff,
      isIdentifierChar_iff]
    constructor
    · rintro ⟨start, others⟩
      exact .intro start others
    · rintro ⟨start, others⟩
      exact ⟨start, others⟩

theorem exists_node_of_parse {table : Toml.Table} (parsed : Toml.parse ("value = " ++ raw) = some table) :
    ∃ node, table.get? "value" = some node := by
  rw [value_append_eq, Toml.parse_valueIs_iff] at parsed
  obtain ⟨_, _, node, others, _, _, _, _, _, rfl⟩ := parsed
  exact ⟨node, SortedMap.get?_insert_self ..⟩

theorem standsFor_iff : StandsFor raw value ↔ value = readValue raw := by
  constructor
  · intro stands
    cases stands with
    | toml parsed found => rw [readValue, parsed, Option.bind_some, found]
    | itself unparsed => rw [readValue, unparsed, Option.bind_none]
  · rintro rfl
    cases parsed : Toml.parse ("value = " ++ raw) with
    | none =>
      rw [readValue, parsed, Option.bind_none]
      exact .itself parsed
    | some table =>
      obtain ⟨node, found⟩ := exists_node_of_parse parsed
      rw [readValue, parsed, Option.bind_some, found]
      exact .toml parsed found

theorem exists_parted_of_parse {result : String × Value} (accepted : parse text = .ok result) :
    ∃ before after, Parted text before after := by
  cases split : Text.splitFirst '=' text.toList with
  | none => simp [parse, split] at accepted
  | some parts => exact ⟨parts.1, parts.2, Text.splitFirst_eq_some_iff.mp split⟩

theorem parse_eq_ok_iff (parted : Parted text before after) :
    parse text = .ok (name, value) ↔ Trims before name.toList ∧ IsName name.toList ∧
      ∃ raw : String, Trims after raw.toList ∧ StandsFor raw value := by
  have split := Text.splitFirst_eq_some_iff.mpr parted
  simp only [parse, split, standsFor_iff]
  constructor
  · intro accepted
    split at accepted
    · rename_i identifier
      cases accepted
      rw [String.toList_ofList]
      refine ⟨Text.trims_trim before, isIdentifier_iff.mp identifier, _, ?_, rfl⟩
      rw [String.toList_ofList]
      exact Text.trims_trim after
    · cases accepted
  · rintro ⟨kept, named, raw, inside, rfl⟩
    rw [Text.trim_eq_iff.mpr kept, Text.trim_eq_iff.mpr inside, if_pos (isIdentifier_iff.mpr named),
      String.ofList_toList, String.ofList_toList]

theorem exists_value_iff (parted : Parted text before after) :
    (∃ value, parse text = .ok (name, value)) ↔ Trims before name.toList ∧ IsName name.toList := by
  simp only [parse_eq_ok_iff parted]
  constructor
  · rintro ⟨_, kept, named, _⟩
    exact ⟨kept, named⟩
  · rintro ⟨kept, named⟩
    refine ⟨readValue (String.ofList (Text.trim after)), kept, named, _, ?_, standsFor_iff.mpr rfl⟩
    rw [String.toList_ofList]
    exact Text.trims_trim after

/-- A text is accepted exactly if it has an equals sign and what stands before the first one is, without
the white space around it, a name. The result is this name with what the trimmed rest stands for; with any
other rest, a value is given to the same name. -/
theorem accepts_exactly_grammar (text : String) :
    ((∃ result, parse text = .ok result) ↔
        ∃ before after name, Parted text before after ∧ Trims before name ∧ IsName name) ∧
      ∀ before after, Parted text before after →
        (∀ name value, parse text = .ok (name, value) ↔ Trims before name.toList ∧ IsName name.toList ∧
          ∃ raw : String, Trims after raw.toList ∧ StandsFor raw value) ∧
        ∀ other rest name, Parted other before rest →
          (∃ value, parse text = .ok (name, value)) → ∃ value, parse other = .ok (name, value) := by
  refine ⟨⟨?_, ?_⟩, fun before after parted => ⟨fun name value => parse_eq_ok_iff parted, ?_⟩⟩
  · rintro ⟨⟨name, value⟩, accepted⟩
    obtain ⟨before, after, parted⟩ := exists_parted_of_parse accepted
    obtain ⟨kept, named⟩ := (exists_value_iff parted).mp ⟨value, accepted⟩
    exact ⟨before, after, name.toList, parted, kept, named⟩
  · rintro ⟨before, after, name, parted, kept, named⟩
    rw [← String.toList_ofList (l := name)] at kept named
    obtain ⟨value, accepted⟩ := (exists_value_iff parted).mpr ⟨kept, named⟩
    exact ⟨_, accepted⟩
  · intro other rest name otherParted accepted
    exact (exists_value_iff otherParted).mpr ((exists_value_iff parted).mp accepted)

theorem accepts_exactly_grammar_spaced :
    Parted "\u2003x_1\u0085=\u3000a == b\n" "\u2003x_1\u0085".toList "\u3000a == b\n".toList ∧
      parse "\u2003x_1\u0085=\u3000a == b\n" = .ok ("x_1", .string commandLine "a == b") ∧
      Parted "\u2003x_1\u0085=" "\u2003x_1\u0085".toList [] ∧
      ∃ value, parse "\u2003x_1\u0085=" = .ok ("x_1", value) := by
  have parted : Parted "\u2003x_1\u0085=\u3000a == b\n" "\u2003x_1\u0085".toList
      "\u3000a == b\n".toList := ⟨rfl, by decide⟩
  have bare : Parted "\u2003x_1\u0085=" "\u2003x_1\u0085".toList [] := ⟨rfl, by decide⟩
  have kept : Trims "\u2003x_1\u0085".toList "x_1".toList := Text.trim_eq_iff.mp (by cbv)
  have inside : Trims "\u3000a == b\n".toList "a == b".toList := Text.trim_eq_iff.mp (by cbv)
  have named : IsName "x_1".toList := isIdentifier_iff.mp (by decide)
  have unparsed : Toml.parse ("value = " ++ "a == b") = none := by cbv
  obtain ⟨results, others⟩ := (accepts_exactly_grammar "\u2003x_1\u0085=\u3000a == b\n").2 _ _ parted
  have accepted := (results _ _).mpr ⟨kept, named, "a == b", inside, .itself unparsed⟩
  exact ⟨parted, accepted, bare, others _ _ _ bare ⟨_, accepted⟩⟩

end Assignment
end BuildArgs
