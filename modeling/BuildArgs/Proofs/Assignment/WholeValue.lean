import Mathlib
import BuildArgs.Assignment
import BuildArgs.Proofs.Text.Trimming
import BuildArgs.Proofs.Toml.Rendering
import BuildArgs.Proofs.Toml.Splice

/-! How much of the text of a value is read. The text is put after an assignment, and of the TOML text
that this makes only the value assigned is taken. -/

namespace BuildArgs

open Toml (Insignificant Table depthLimit trailing)

theorem Text.isBlank_of_isBlank {c : Char} (blank : Toml.isBlank c = true) :
    Text.isBlank c = true := by
  rcases (by simpa [Toml.isBlank] using blank) with rfl | rfl <;> rfl

theorem Toml.skipBlank_trim (text : List Char) : skipBlank (Text.trim text) = Text.trim text := by
  have clear := (Text.trims_trim text).first
  cases front : Text.trim text with
  | nil => rfl
  | cons c rest =>
    have plain : isBlank c = false := by
      cases blank : isBlank c with
      | false => rfl
      | true => exact absurd (Text.isBlank_of_isBlank blank) (by simp [clear c (front ▸ rfl)])
    simp [skipBlank, plain]

theorem SortedMap.keys_insert_eq_singleton_iff {α : Type} {map : NameMap α} {key : String}
    (absent : map.get? key = none) (value : α) :
    (map.insert key value).keys = [key] ↔ map.keys = [] := by
  constructor
  · intro alone
    refine List.eq_nil_iff_forall_not_mem.mpr fun other member => ?_
    obtain ⟨old, found⟩ := SortedMap.contains_eq_true_iff.mp (SortedMap.mem_keys_iff.mp member)
    have apart : other ≠ key := by
      rintro rfl
      cases absent.symm.trans found
    have kept : other ∈ (map.insert key value).keys :=
      SortedMap.mem_keys_iff.mpr (SortedMap.contains_eq_true_iff.mpr
        ⟨old, (SortedMap.get?_insert_ne _ _ apart).trans found⟩)
    exact apart (List.mem_singleton.mp (alone ▸ kept))
  · intro bare
    have empty : map.entries = [] := List.map_eq_nil_iff.mp bare
    simp [keys, insert, empty, put]

namespace Assignment

def rawValue? (text : String) : Option String :=
  (Text.splitFirst '=' text.toList).map fun parts => String.ofList (Text.trim parts.2)

/-- Whether a value has all of its text: it is the text itself, or as a TOML text the value has no
other beside it. -/
def ReadWhole (raw : String) (value : Value) : Prop :=
  value = .string commandLine raw ∨
    ∃ table, Toml.parse ("value = " ++ raw) = some table ∧ table.keys = ["value"]

/-- Whether a value is what stands in front of `rest` in its text. -/
def ReadUpTo (raw : String) (value : Value) (rest : List Char) : Prop :=
  ∃ node resolved, Toml.readValue (depthLimit - 1) raw.toList = some (node, rest) ∧
    node.resolve = some resolved ∧ value = .ofNode commandLine resolved

/-- Whether a text goes on after the line of its value, with a TOML text that gives other keys. -/
def Continued (raw : String) : Prop :=
  ∃ value rest others, ReadUpTo raw value rest ∧ (trailing rest).isSome ∧
    Toml.parse (String.ofList rest) = some others ∧ others.keys ≠ [] ∧ "value" ∉ others.keys

variable {raw : String} {value : Value} {rest : List Char} {table : Table}

theorem value_append_eq (raw : String) :
    "value = " ++ raw = String.ofList (Toml.valueIs ++ raw.toList) := by
  rw [String.ofList_append, String.ofList_toList, String.ofList_toList]

theorem parse_value_iff (front : Toml.skipBlank raw.toList = raw.toList) :
    Toml.parse ("value = " ++ raw) = some table ↔
      ∃ node rest resolved others, Toml.readValue (depthLimit - 1) raw.toList = some (node, rest) ∧
        (trailing rest).isSome ∧ node.resolve = some resolved ∧
        Toml.parse (String.ofList rest) = some others ∧ others.get? "value" = none ∧
        table = others.insert "value" resolved := by
  rw [value_append_eq, Toml.parse_valueIs_iff, front]

theorem readValue_of_parse (resolved : Toml.Node) (others : Table)
    (found : Toml.parse ("value = " ++ raw) = some (others.insert "value" resolved)) :
    readValue raw = .ofNode commandLine resolved := by
  rw [readValue, found, Option.bind_some, SortedMap.get?_insert_self]

theorem eq_string_of_resolve {node : Toml.Node} {text : String}
    (found : node.resolve = some (.string text)) : node = .string text := by
  cases node with
  | string value =>
    cases found
    rfl
  | table entries =>
    simp only [Toml.Node.resolve] at found
    split at found
    all_goals
      obtain ⟨_, _, same⟩ := Option.map_eq_some_iff.mp found
      cases same
  | array items =>
    obtain ⟨_, _, same⟩ := Option.map_eq_some_iff.mp (Toml.Node.resolve.eq_1 items ▸ found)
    cases same
  | _ => cases found

theorem ReadUpTo.ne_string (upTo : ReadUpTo raw value rest) (newline : '\n' ∈ rest) :
    value ≠ .string commandLine raw := by
  obtain ⟨node, resolved, read, found, rfl⟩ := upTo
  have inside : '\n' ∈ raw.toList := (Toml.leaves_readValue _ read).subset newline
  cases resolved with
  | string text =>
    intro same
    cases same
    cases eq_string_of_resolve found
    have shorter := Toml.length_lt_of_readValue read
    exact absurd String.length_toList (Nat.ne_of_gt shorter)
  | float number =>
    intro same
    cases same
    rw [Binary64.text, String.toList_ofList] at inside
    exact number.newline_not_mem_chars inside
  | temporal temporal =>
    intro same
    cases same
    exact temporal.newline_not_mem_text inside
  | _ => exact nofun

theorem Continued.not_readWhole (front : Toml.skipBlank raw.toList = raw.toList)
    (continued : Continued raw) : ¬ ReadWhole raw (readValue raw) := by
  obtain ⟨_, rest, others, ⟨node, resolved, read, found, rfl⟩, ended, alone, more, absent⟩ := continued
  have absent := SortedMap.get?_eq_none_iff.mpr absent
  have whole := (parse_value_iff front).mpr
    ⟨node, rest, resolved, others, read, ended, found, alone, absent, rfl⟩
  rintro (same | ⟨table, given, single⟩)
  · have upTo : ReadUpTo raw (readValue raw) rest :=
      ⟨node, resolved, read, found, readValue_of_parse _ _ whole⟩
    exact upTo.ne_string (Toml.newline_mem_of_parse ended alone more) same
  · cases whole.symm.trans given
    exact more ((SortedMap.keys_insert_eq_singleton_iff absent _).mp single)

theorem readWhole_of_not_continued (front : Toml.skipBlank raw.toList = raw.toList)
    (last : ¬ Continued raw) :
    readValue raw = .string commandLine raw ∨
      (∃ table, Toml.parse ("value = " ++ raw) = some table ∧ table.keys = ["value"]) ∧
        ∃ rest, ReadUpTo raw (readValue raw) rest ∧ Insignificant rest := by
  cases whole : Toml.parse ("value = " ++ raw) with
  | none =>
    left
    rw [readValue, whole]
    rfl
  | some table =>
    right
    obtain ⟨node, rest, resolved, others, read, ended, found, alone, absent, rfl⟩ :=
      (parse_value_iff front).mp whole
    have upTo : ReadUpTo raw (readValue raw) rest :=
      ⟨node, resolved, read, found, readValue_of_parse _ _ whole⟩
    have bare : others.keys = [] := Classical.byContradiction fun more =>
      last ⟨_, rest, others, upTo, ended, alone, more, SortedMap.get?_eq_none_iff.mp absent⟩
    refine ⟨⟨_, rfl, (SortedMap.keys_insert_eq_singleton_iff absent _).mpr bare⟩, rest, upTo, ?_⟩
    refine Toml.insignificant_of_parse ended alone fun name => ?_
    exact SortedMap.get?_eq_none_iff.mpr (bare ▸ List.not_mem_nil)

theorem readWhole_of_oneLine (front : Toml.skipBlank raw.toList = raw.toList)
    (oneLine : '\n' ∉ raw.toList) : ReadWhole raw (readValue raw) := by
  refine (readWhole_of_not_continued front ?_).imp_right And.left
  rintro ⟨_, rest, others, ⟨node, resolved, read, _⟩, ended, alone, more, _⟩
  exact oneLine ((Toml.leaves_readValue _ read).subset (Toml.newline_mem_of_parse ended alone more))

/-- A value is read whole unless its text goes on, after the line of the value, with a TOML text that
gives other keys. If it is read whole and is not the text itself, then no more than blanks, line
breaks and comments are left out. -/
theorem read_whole_iff {text name : String} (accepted : parse text = .ok (name, value)) :
    ∃ raw, rawValue? text = some raw ∧ (ReadWhole raw value ↔ ¬ Continued raw) ∧
      (ReadWhole raw value → value = .string commandLine raw ∨
        ∃ rest, ReadUpTo raw value rest ∧ Insignificant rest) := by
  unfold parse at accepted
  split at accepted
  · cases accepted
  · rename_i before after split
    dsimp only at accepted
    split at accepted
    · cases accepted
      have front : Toml.skipBlank (String.ofList (Text.trim after)).toList =
          (String.ofList (Text.trim after)).toList := by
        rw [String.toList_ofList, Toml.skipBlank_trim]
      refine ⟨_, by rw [rawValue?, split]; rfl, ⟨?_, ?_⟩, ?_⟩
      · exact fun whole continued => continued.not_readWhole front whole
      · exact fun last => (readWhole_of_not_continued front last).imp_right And.left
      · intro whole
        have last : ¬ Continued _ := fun continued => continued.not_readWhole front whole
        exact (readWhole_of_not_continued front last).imp_right And.right
    · cases accepted

theorem read_whole_iff_comment :
    parse "x=1 # note" = .ok ("x", .integer commandLine 1) ∧
      rawValue? "x=1 # note" = some "1 # note" ∧
      ReadWhole "1 # note" (.integer commandLine 1) ∧ ¬ Continued "1 # note" := by
  have accepted : parse "x=1 # note" = .ok ("x", .integer commandLine 1) := by cbv
  have raw : rawValue? "x=1 # note" = some "1 # note" := by cbv
  have value : readValue "1 # note" = .integer commandLine 1 := by cbv
  have front : Toml.skipBlank "1 # note".toList = "1 # note".toList := by cbv
  have whole := value ▸ readWhole_of_oneLine front (by decide)
  obtain ⟨_, named, verdict, _⟩ := read_whole_iff accepted
  cases raw.symm.trans named
  exact ⟨accepted, raw, whole, verdict.mp whole⟩

theorem read_whole_fails_otherKey :
    parse "x=1\nother = 2" = .ok ("x", .integer commandLine 1) ∧
      rawValue? "x=1\nother = 2" = some "1\nother = 2" ∧
      ¬ ReadWhole "1\nother = 2" (.integer commandLine 1) := by
  refine ⟨by cbv, by cbv, ?_⟩
  have keys : (Toml.parse ("value = " ++ "1\nother = 2")).map (·.keys) = some ["other", "value"] := by
    cbv
  rintro (same | ⟨table, whole, single⟩)
  · cases same
  · rw [whole, Option.map_some, single] at keys
    exact absurd keys (by decide)

end Assignment
end BuildArgs
