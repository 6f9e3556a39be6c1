import BuildArgs.Proofs.Assignment.WholeValue
import BuildArgs.Proofs.Value.ReadBack

/-! An assignment that is written with the notation of a value gives that value. -/

namespace BuildArgs

namespace Text

def IsVisible (c : Char) : Prop := 32 < c.toNat ∧ c.toNat < 127

instance (c : Char) : Decidable (IsVisible c) := inferInstanceAs (Decidable (_ ∧ _))

theorem isBlank_of_visible {c : Char} (visible : IsVisible c) : isBlank c = false := by
  obtain ⟨after, before⟩ := visible
  have low (d : Char) : d ≤ c ↔ d.toNat ≤ c.toNat := Iff.rfl
  have high (d : Char) : c ≤ d ↔ c.toNat ≤ d.toNat := Iff.rfl
  have apart (d : Char) (outside : d.toNat ≤ 32 ∨ 127 ≤ d.toNat) : c ≠ d := by
    rintro rfl
    omega
  have lines : 13 < c.toNat := by omega
  have spaces : ¬ 8192 ≤ c.toNat := by omega
  simp [isBlank, low, high, apart, lines, spaces]

theorem visible_of_isDigit {c : Char} (digit : c.isDigit = true) : IsVisible c := by
  obtain ⟨low, high⟩ := Char.isDigit_iff_toNat.mp digit
  have zero : '0'.toNat = 48 := rfl
  have nine : '9'.toNat = 57 := rfl
  exact ⟨by omega, by omega⟩

end Text

namespace Assignment

theorem visible_of_isIdentifierChar {c : Char} (inside : isIdentifierChar c = true) :
    Text.IsVisible c := by
  rcases Bool.or_eq_true_iff.mp inside with letter | underscore
  · simp only [Char.isAlphanum, Char.isAlpha, Char.isUpper, Char.isLower, Bool.or_eq_true,
      Bool.and_eq_true, decide_eq_true_eq] at letter
    rcases letter with (⟨low, high⟩ | ⟨low, high⟩) | digit
    · have low : 65 ≤ c.toNat := low
      have high : c.toNat ≤ 90 := high
      exact ⟨by omega, by omega⟩
    · have low : 97 ≤ c.toNat := low
      have high : c.toNat ≤ 122 := high
      exact ⟨by omega, by omega⟩
    · exact Text.visible_of_isDigit digit
  · rw [beq_iff_eq.mp underscore]
    decide

theorem trim_name {text : List Char} (identifier : isIdentifier text = true) :
    Text.trim (text ++ [' ']) = text := by
  have visible : ∀ c ∈ text, Text.isBlank c = false := fun c member =>
    Text.isBlank_of_visible (visible_of_isIdentifierChar (isIdentifierChar_of_mem identifier member))
  refine Text.trim_eq_iff.mpr ⟨⟨[], [' '], rfl, nofun, List.forall_mem_singleton.mpr rfl⟩, ?_, ?_⟩
  · exact fun c first => visible c (List.mem_of_mem_head? first)
  · exact fun c last => visible c (List.mem_of_mem_getLast? last)

end Assignment

namespace Value

theorem visible_of_lead {c : Char} {rank : Nat} (lead : Text.leadRank? c = some rank) :
    Text.IsVisible c := by
  by_cases digit : c.isDigit = true
  · exact Text.visible_of_isDigit digit
  · have mark : c = 'n' ∨ c = '<' ∨ c = 't' ∨ c = 'f' ∨ c = '-' ∨ c = '"' ∨ c = '[' ∨ c = '\x7b' := by
      simp only [Text.leadRank?, digit] at lead
      grind
    rcases mark with rfl | rfl | rfl | rfl | rfl | rfl | rfl | rfl <;> decide

theorem visible_of_mem_decimal {number : Int} {c : Char} (member : c ∈ Json.decimal number) :
    Text.IsVisible c := by
  cases number with
  | ofNat number =>
    rw [Json.decimal_ofNat] at member
    exact Text.visible_of_isDigit (Json.isDigit_of_mem_toDigits member)
  | negSucc number =>
    rw [Json.decimal_negSucc] at member
    rcases List.mem_cons.mp member with rfl | inside
    · decide
    · exact Text.visible_of_isDigit (Json.isDigit_of_mem_toDigits inside)

theorem exists_last_chars (value : Value) :
    ∃ front c, value.chars = front ++ [c] ∧ Text.IsVisible c := by
  cases value with
  | none origin => exact ⟨"<void".toList, '>', rfl, by decide⟩
  | boolean origin value =>
    cases value
    · exact ⟨"fals".toList, 'e', rfl, by decide⟩
    · exact ⟨"tru".toList, 'e', rfl, by decide⟩
  | integer origin value =>
    obtain ⟨c, rest, written, _⟩ := Json.leads_decimal value.toInt
    have some : Json.decimal value.toInt ≠ [] := written ▸ List.cons_ne_nil c rest
    exact ⟨_, _, (List.dropLast_concat_getLast some).symm,
      visible_of_mem_decimal (List.getLast_mem some)⟩
  | string origin value => exact ⟨'"' :: value.toList.flatMap escape, '"', rfl, by decide⟩
  | list origin items => exact ⟨'[' :: itemChars items, ']', rfl, by decide⟩
  | scope origin entries =>
    cases entries with
    | nil => exact ⟨"\x7b ".toList, '\x7d', rfl, by decide⟩
    | cons entry entries =>
      exact ⟨'\x7b' :: ' ' :: entryChars (entry :: entries) ++ [' '], '\x7d', by simp [chars], by decide⟩

theorem trim_chars (value : Value) : Text.trim value.chars = value.chars := by
  obtain ⟨first, rest, start, lead⟩ := leads_chars value
  obtain ⟨front, last, ending, visible⟩ := exists_last_chars value
  refine Text.trim_eq_iff.mpr ⟨⟨[], [], by simp, nofun, nofun⟩, ?_, ?_⟩
  · rw [start]
    exact fun c head => Option.some.inj head ▸ Text.isBlank_of_visible (visible_of_lead lead)
  · rw [ending, List.getLast?_concat]
    exact fun c tail => Option.some.inj tail ▸ Text.isBlank_of_visible visible

end Value

namespace Assignment

variable {name : String} {value : Value}

theorem parse_written (identifier : isIdentifier name.toList = true) :
    parse (name ++ " = " ++ value.text) = .ok (name, readValue value.text) := by
  have absent : '=' ∉ name.toList ++ [' '] := by
    intro member
    rcases List.mem_append.mp member with inside | blank
    · exact absurd (isIdentifierChar_of_mem identifier inside) (by decide)
    · exact absurd blank (by decide)
  have split : Text.splitFirst '=' (name ++ " = " ++ value.text).toList =
      some (name.toList ++ [' '], ' ' :: value.chars) :=
    Text.splitFirst_eq_some_iff.mpr ⟨by simp [Value.text], absent⟩
  have value : Text.trim (' ' :: value.chars) = value.chars := value.trim_chars
  simp only [parse, split, value, trim_name identifier, identifier, if_true, String.ofList_toList]
  rfl

/-- What a listing writes after a name is read as the value that was written. -/
theorem parse_text (identifier : isIdentifier name.toList = true) (ascending : value.Ascending)
    (readable : value.Readable) (shallow : value.nesting < Toml.depthLimit) :
    ∃ read, parse (name ++ " = " ++ value.text) = .ok (name, read) ∧ (read == value) = true := by
  have front : Toml.skipBlank value.text.toList = value.text.toList := by
    rw [Value.text, String.toList_ofList, ← value.trim_chars, Toml.skipBlank_trim]
  have node : Toml.readValue (Toml.depthLimit - 1) value.text.toList = some (value.toNode, []) := by
    have read := Value.reads_chars ascending readable (Nat.le_sub_one_of_lt shallow) Text.delimited_nil
    rwa [List.append_nil, ← String.toList_ofList (l := value.chars)] at read
  have whole : Toml.parse ("value = " ++ value.text) =
      some ((∅ : Toml.Table).insert "value" value.toNode) :=
    (parse_value_iff front).mpr ⟨_, [], _, ∅, node, rfl, Value.resolve_toNode ascending readable,
      by cbv, rfl, rfl⟩
  refine ⟨.ofNode commandLine value.toNode, ?_, Value.beq_iff.mpr ?_⟩
  · rw [parse_written identifier, readValue_of_parse _ _ whole]
  · exact Value.bare_ofNode_toNode readable commandLine

def nestedValue : Value :=
  .scope (some commandLine) [("deep", .list none [.scope none [], .list none [.boolean none false]]),
    ("size", .integer none (-9223372036854775808)),
    ("text", .string (some (.ofFile "f")) "a = \"b\", \\]\t")]

theorem parse_text_nested :
    isIdentifier "x_1".toList = true ∧ nestedValue.Ascending ∧ nestedValue.Readable ∧
      nestedValue.nesting < Toml.depthLimit ∧
      ∃ read, parse ("x_1" ++ " = " ++ nestedValue.text) = .ok ("x_1", read) ∧
        (read == nestedValue) = true := by
  have identifier : isIdentifier "x_1".toList = true := by decide
  have ascending : nestedValue.Ascending := by decide +kernel
  have readable : nestedValue.Readable := by decide +kernel
  have shallow : nestedValue.nesting < Toml.depthLimit := by decide
  exact ⟨identifier, ascending, readable, shallow, parse_text identifier ascending readable shallow⟩

end Assignment
end BuildArgs
