import BuildArgs.Proofs.Toml.Numerals
import BuildArgs.Proofs.Value.Notation

/-! Strings and truth values in the notation of values are read back, strings if they have no
character that the notation and TOML write differently. -/

namespace BuildArgs

open Text (Leads leadRank?)

namespace Toml

variable {text : List Char} {rank room : Nat}

theorem basicString_escape {c : Char} (unmarked : c ≠ '$') (plain : isPlain c = true)
    (rest : List Char) :
    basicString (Value.escape c ++ rest) = consRead c (basicString rest) := by
  unfold Value.escape
  split
  · rename_i marked
    rcases marked with rfl | rfl | rfl
    · rfl
    · exact absurd rfl unmarked
    · rfl
  · rename_i free
    simp only [not_or] at free
    rw [List.cons_append, List.nil_append, basicString]
    · rw [if_pos ⟨plain, free.2.2⟩]
    all_goals simp_all

theorem basicString_quoted (plain : ∀ c ∈ text, c ≠ '$' ∧ isPlain c = true) (rest : List Char) :
    basicString (text.flatMap Value.escape ++ '"' :: rest) = some (text, rest) := by
  induction text with
  | nil => rfl
  | cons c text ih =>
    obtain ⟨⟨unmarked, here⟩, others⟩ := List.forall_mem_cons.mp plain
    rw [List.flatMap_cons, List.append_assoc, basicString_escape unmarked here, ih others]
    rfl

theorem readString_quote {text : String} (plain : ∀ c ∈ text.toList, c ≠ '$' ∧ isPlain c = true) :
    Reads readString (Value.quote text) text.toList := by
  intro rest ends
  have written : Value.quote text ++ rest =
      '"' :: (text.toList.flatMap Value.escape ++ '"' :: rest) := by simp [Value.quote]
  rw [written, readString]
  · exact basicString_quoted plain rest
  · intro later same
    cases start : text.toList with
    | nil =>
      rw [start] at same
      exact ends.ne_cons rfl (List.cons.inj same).2
    | cons c more =>
      rw [start, List.flatMap_cons, List.append_assoc] at same
      exact Value.escape_append_ne_quote same

theorem reads_readValue {node : Node} (leads : Leads text rank) (leaf : rank < 4)
    (reads : Reads readLeaf text node) : Reads (readValue room) text node := by
  intro rest ends
  rw [← reads ends]
  obtain ⟨c, text, rfl, lead⟩ := leads
  have list : c ≠ '[' := Text.ne_of_lead lead fun same => absurd (Option.some.inj same) (by omega)
  have scope : c ≠ '\x7b' := Text.ne_of_lead lead fun same => absurd (Option.some.inj same) (by omega)
  rw [List.cons_append, readValue]
  · simp [list]
  · simp [scope]

theorem reads_readLeaf_decimal (value : Int64) :
    Reads readLeaf (Json.decimal value.toInt) (.integer value) := by
  intro rest ends
  rw [← reads_readNumeral value ends]
  obtain ⟨c, text, written, lead⟩ := Json.leads_decimal value.toInt
  have apart (d : Char) (other : leadRank? d ≠ some 2) : c ≠ d := Text.ne_of_lead lead other
  simp [written, readLeaf, apart '"' (by decide), apart '\'' (by decide), apart 't' (by decide),
    apart 'f' (by decide)]

theorem reads_readLeaf_quote {text : String} (plain : ∀ c ∈ text.toList, c ≠ '$' ∧ isPlain c = true) :
    Reads readLeaf (Value.quote text) (.string text) := by
  intro rest ends
  have read := readString_quote plain ends
  have start : readLeaf (Value.quote text ++ rest) = (readString (Value.quote text ++ rest)).map
      fun read => (.string (String.ofList read.1), read.2) := rfl
  rw [start, read, Option.map_some, String.ofList_toList]

theorem reads_readLeaf_boolean (value : Bool) (place : Option Origin) :
    Reads readLeaf (Value.chars (.boolean place value)) (.boolean value) := by
  intro rest ends
  cases value <;> rfl

end Toml
end BuildArgs
