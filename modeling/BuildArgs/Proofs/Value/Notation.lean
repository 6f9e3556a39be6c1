import BuildArgs.Proofs.Splitting
import BuildArgs.Proofs.Text.Decimal
import BuildArgs.Proofs.Value.Bare
import BuildArgs.Proofs.Value.Parts
import BuildArgs.Value.Text

/-! The notation of values can be read in one way only, if the names in it are identifiers. -/

namespace BuildArgs

open Text (Delimited Leads Separates joined)

variable {after later : List Char}

namespace Assignment

theorem exists_start_of_isIdentifier {text : List Char} (identifier : isIdentifier text = true) :
    ∃ c rest, text = c :: rest ∧ isIdentifierStart c = true := by
  cases text with
  | nil => cases identifier
  | cons c rest => exact ⟨c, rest, rfl, (Bool.and_eq_true_iff.mp identifier).1⟩

theorem append_ne_cons {text : List Char} (identifier : isIdentifier text = true) {c : Char}
    (unused : isIdentifierStart c = false) : text ++ after ≠ c :: later := by
  obtain ⟨first, rest, rfl, start⟩ := exists_start_of_isIdentifier identifier
  intro same
  rw [(List.cons.inj same).1, unused] at start
  cases start

theorem isIdentifierChar_of_mem {text : List Char} (identifier : isIdentifier text = true) {c : Char}
    (member : c ∈ text) : isIdentifierChar c = true := by
  cases text with
  | nil => cases identifier
  | cons first rest =>
    obtain ⟨start, others⟩ := Bool.and_eq_true_iff.mp identifier
    rcases List.mem_cons.mp member with rfl | inside
    · simp only [isIdentifierStart, Bool.or_eq_true] at start
      simp only [isIdentifierChar, Char.isAlphanum, Bool.or_eq_true]
      exact start.imp_left .inl
    · exact List.all_eq_true.mp others c inside

theorem blank_not_mem {text : List Char} (identifier : isIdentifier text = true) : ' ' ∉ text :=
  fun member => absurd (isIdentifierChar_of_mem identifier member) (by decide)

theorem name_append_inj {name other : String} (first : isIdentifier name.toList = true)
    (second : isIdentifier other.toList = true)
    (same : name.toList ++ ' ' :: after = other.toList ++ ' ' :: later) :
    name = other ∧ after = later := by
  rcases append_cons_cases same with ⟨names, _, rest⟩ | ⟨_, longer, _⟩ | ⟨_, longer, _⟩
  · exact ⟨String.toList_injective names, rest⟩
  · exact absurd (longer ▸ by simp) (blank_not_mem second)
  · exact absurd (longer ▸ by simp) (blank_not_mem first)

def written {α : Type} (chars : α → List Char) (entry : String × α) : List Char :=
  entry.1.toList ++ " = ".toList ++ chars entry.2

end Assignment

namespace Value

theorem escape_append_inj {c d : Char} (same : escape c ++ after = escape d ++ later) :
    c = d ∧ after = later := by
  unfold escape at same
  split at same
  · split at same
    · simpa using same
    · rename_i plain
      obtain ⟨rfl, _⟩ := List.cons.inj same
      exact absurd (.inr (.inr rfl)) plain
  · rename_i plain
    split at same
    · obtain ⟨rfl, _⟩ := List.cons.inj same
      exact absurd (.inr (.inr rfl)) plain
    · simpa using same

theorem escape_append_ne_quote {c : Char} : escape c ++ after ≠ '"' :: later := by
  unfold escape
  split <;> simp_all

theorem flatMap_escape_inj {text other : List Char}
    (same : text.flatMap escape ++ '"' :: after = other.flatMap escape ++ '"' :: later) :
    text = other ∧ after = later := by
  induction text generalizing other with
  | nil =>
    cases other with
    | nil => exact ⟨rfl, (List.cons.inj same).2⟩
    | cons d others =>
      rw [List.flatMap_cons, List.append_assoc] at same
      exact absurd same.symm escape_append_ne_quote
  | cons c rest ih =>
    rw [List.flatMap_cons, List.append_assoc] at same
    cases other with
    | nil => exact absurd same escape_append_ne_quote
    | cons d others =>
      rw [List.flatMap_cons, List.append_assoc] at same
      obtain ⟨rfl, further⟩ := escape_append_inj same
      obtain ⟨rfl, rfl⟩ := ih further
      exact ⟨rfl, rfl⟩

theorem quote_append_inj {one other : String}
    (same : quote one ++ after = quote other ++ later) : one = other ∧ after = later := by
  simp only [quote, List.cons_append, List.append_assoc, List.nil_append, List.cons.injEq,
    true_and] at same
  obtain ⟨texts, rest⟩ := flatMap_escape_inj same
  exact ⟨String.toList_injective texts, rest⟩

def entryText : String × Value → List Char := Assignment.written chars

theorem itemChars_eq_joined : ∀ items : List Value, itemChars items = joined chars [' '] items
  | [] => rfl
  | [_] => (List.append_nil _).symm
  | item :: next :: rest => by
    rw [Text.joined_cons_cons, ← itemChars_eq_joined (next :: rest)]
    rfl

theorem entryChars_eq_joined :
    ∀ entries : List (String × Value), entryChars entries = joined entryText [' '] entries
  | [] => rfl
  | [_] => (List.append_nil _).symm
  | entry :: next :: rest => by
    rw [Text.joined_cons_cons, ← entryChars_eq_joined (next :: rest)]
    simp [entryChars, entryText, Assignment.written]

theorem leads_chars (value : Value) : Leads value.chars value.rank := by
  cases value with
  | integer origin value => exact Json.leads_decimal value.toInt
  | boolean origin value => cases value <;> exact ⟨_, _, rfl, rfl⟩
  | scope origin entries => cases entries <;> exact ⟨_, _, rfl, rfl⟩
  | _ => exact ⟨_, _, rfl, rfl⟩

theorem rank_eq {left right : Value} (same : left.chars ++ after = right.chars ++ later) :
    left.rank = right.rank :=
  (leads_chars left).rank_eq (leads_chars right) same

def bareEntry (entry : String × Value) : String × Value := (entry.1, entry.2.bare)

theorem separates_entry {entry other : String × Value}
    (first : Assignment.isIdentifier entry.1.toList = true)
    (second : Assignment.isIdentifier other.1.toList = true)
    (values : Separates chars bare entry.2 other.2) : Separates entryText bareEntry entry other := by
  intro after later ends also same
  have same : entry.1.toList ++ ' ' :: ('=' :: ' ' :: (entry.2.chars ++ after)) =
      other.1.toList ++ ' ' :: ('=' :: ' ' :: (other.2.chars ++ later)) := by
    simpa [entryText, Assignment.written] using same
  obtain ⟨name, same⟩ := Assignment.name_append_inj first second same
  obtain ⟨value, rest⟩ := values ends also (by simpa using same)
  exact ⟨Prod.ext name value, rest⟩

theorem separates_list {origin place : Option Origin} {items others : List Value}
    (each : ∀ item ∈ items, ∀ other ∈ others, Separates chars bare item other) :
    Separates chars bare (.list origin items) (.list place others) := by
  intro after later _ _ same
  simp only [chars, itemChars_eq_joined, List.cons_append, List.append_assoc, List.cons.injEq,
    true_and, List.nil_append] at same
  obtain ⟨same, rest⟩ := Text.joined_append_inj rfl (by decide)
    (fun {item} => (leads_chars item).append_ne rfl) each same
  exact ⟨by rw [bare, bare, bareItems_eq_map, bareItems_eq_map, same], rest⟩

theorem chars_scope_cons (origin : Option Origin) (entry : String × Value)
    (entries : List (String × Value)) : chars (.scope origin (entry :: entries)) =
      '\x7b' :: ' ' :: (joined entryText [' '] (entry :: entries) ++ [' ', '\x7d']) := by
  rw [← entryChars_eq_joined]
  rfl

theorem entryText_append_ne_bracket {entry : String × Value}
    (named : Assignment.isIdentifier entry.1.toList = true) :
    entryText entry ++ after ≠ '\x7d' :: later := by
  rw [entryText, Assignment.written, List.append_assoc, List.append_assoc]
  exact Assignment.append_ne_cons named rfl

theorem separates_scope {origin place : Option Origin} {entries others : List (String × Value)}
    (first : ∀ entry ∈ entries, Assignment.isIdentifier entry.1.toList = true)
    (second : ∀ other ∈ others, Assignment.isIdentifier other.1.toList = true)
    (each : ∀ entry ∈ entries, ∀ other ∈ others, Separates chars bare entry.2 other.2) :
    Separates chars bare (.scope origin entries) (.scope place others) := by
  intro after later _ _ same
  rw [bare, bare, bareEntries_eq_map, bareEntries_eq_map]
  cases entries with
  | nil =>
    cases others with
    | nil => exact ⟨rfl, List.append_cancel_left same⟩
    | cons other others =>
      simp only [chars_scope_cons, joined, List.cons_append, List.append_assoc] at same
      have same := (List.cons.inj (List.cons.inj same).2).2
      exact absurd same.symm (entryText_append_ne_bracket (second other List.mem_cons_self))
  | cons entry entries =>
    cases others with
    | nil =>
      simp only [chars_scope_cons, joined, List.cons_append, List.append_assoc] at same
      have same := (List.cons.inj (List.cons.inj same).2).2
      exact absurd same (entryText_append_ne_bracket (first entry List.mem_cons_self))
    | cons other others =>
      simp only [chars_scope_cons, List.cons_append, List.append_assoc, List.nil_append] at same
      have same := (List.cons.inj (List.cons.inj same).2).2
      obtain ⟨same, rest⟩ := Text.joined_cons_append_inj rfl (by decide)
        (fun one member two among =>
          separates_entry (first one member) (second two among) (each one member two among)) same
      exact ⟨congrArg (scope Option.none) same, (List.cons.inj rest).2⟩

/-- Values are written alike, in front of delimited texts, only if they are equal. -/
theorem separates {left right : Value} (named : left.WellNamed) (also : right.WellNamed) :
    Separates chars bare left right := by
  induction left using Value.induction generalizing right with
  | none origin =>
    intro after later _ _ same
    cases right with
    | none => exact ⟨rfl, List.append_cancel_left same⟩
    | _ => cases rank_eq same
  | boolean origin value =>
    intro after later _ _ same
    cases right with
    | boolean place other =>
      cases value <;> cases other
      · exact ⟨rfl, List.append_cancel_left same⟩
      · cases same
      · cases same
      · exact ⟨rfl, List.append_cancel_left same⟩
    | _ => cases rank_eq same
  | integer origin value =>
    intro after later first second same
    cases right with
    | integer place other =>
      obtain ⟨number, rest⟩ := Json.decimal_append_inj first second same
      exact ⟨by rw [bare, bare, Int64.toInt_inj.mp number], rest⟩
    | _ => cases rank_eq same
  | string origin value =>
    intro after later _ _ same
    cases right with
    | string place other =>
      obtain ⟨text, rest⟩ := quote_append_inj same
      exact ⟨by rw [bare, bare, text], rest⟩
    | _ => cases rank_eq same
  | list origin items each =>
    intro after later first second same
    cases right with
    | list place others =>
      have named := wellNamed_list_iff.mp named
      have also := wellNamed_list_iff.mp also
      exact separates_list (fun item member other among =>
        each item member (named item member) (also other among)) first second same
    | _ => cases rank_eq same
  | scope origin entries each =>
    intro after later first second same
    cases right with
    | scope place others =>
      have named := wellNamed_scope_iff.mp named
      have also := wellNamed_scope_iff.mp also
      exact separates_scope (fun entry member => (named entry member).1)
        (fun other among => (also other among).1)
        (fun entry member other among =>
          each entry member (named entry member).2 (also other among).2) first second same
    | _ => cases rank_eq same

end Value
end BuildArgs
