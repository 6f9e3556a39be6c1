import BuildArgs.Proofs.Toml.Building
import BuildArgs.Proofs.Toml.Numerals
import BuildArgs.Proofs.Value.Notation

/-! Arrays and inline tables on one line are read back if their items are. -/

namespace BuildArgs

open Assignment (written)
open Text (Delimited Leads joined further)

namespace Toml

variable {text after rest : List Char} {rank steps : Nat} {item : Reader Node}

theorem skipBlank_cons {c : Char} (space : c ≠ ' ') (tab : c ≠ '\t') (text : List Char) :
    skipBlank (c :: text) = c :: text := by
  simp [skipBlank, isBlank, space, tab]

theorem skipBlank_of_leads (leads : Leads text rank) :
    skipBlank (text ++ after) = text ++ after := by
  obtain ⟨c, text, rfl, lead⟩ := leads
  exact skipBlank_cons (Text.ne_of_lead lead nofun) (Text.ne_of_lead lead nofun) _

theorem skipLines_of_leads (leads : Leads text rank) :
    skipLines false (text ++ after) = some (text ++ after) := by
  obtain ⟨c, text, rfl, lead⟩ := leads
  have space : c ≠ ' ' := Text.ne_of_lead lead nofun
  have tab : c ≠ '\t' := Text.ne_of_lead lead nofun
  have comment : c ≠ '#' := Text.ne_of_lead lead nofun
  have carriageReturn : c ≠ '\r' := Text.ne_of_lead lead nofun
  rw [List.cons_append, skipLines]
  · simp [isBlank, comment, space, tab]
  · exact Text.ne_of_lead lead nofun
  · exact fun _ same _ => carriageReturn same

variable {α : Type} {chars : α → List Char} {items : List α}

theorem arrayItems_blank (text : List Char) :
    arrayItems item steps (' ' :: text) = arrayItems item steps text := by
  cases steps <;> rfl

theorem arrayItems_joined {node : α → Node} (leads : ∀ one ∈ items, ∃ rank, Leads (chars one) rank)
    (reads : ∀ one ∈ items, Reads item (chars one) (node one)) (enough : items.length < steps) :
    arrayItems item steps (joined chars [' '] items ++ ']' :: rest) = some (items.map node, rest) := by
  induction items generalizing steps with
  | nil =>
    cases steps with
    | zero => cases enough
    | succ steps => rfl
  | cons one items ih =>
    cases steps with
    | zero => cases enough
    | succ steps =>
      obtain ⟨⟨rank, lead⟩, leads⟩ := List.forall_mem_cons.mp leads
      obtain ⟨first, others⟩ := List.forall_mem_cons.mp reads
      have stops : Delimited (further chars [' '] items ++ ']' :: rest) :=
        Text.delimited_further rfl items rest
      rw [joined, List.append_assoc, arrayItems]
      simp only [skipLines_of_leads lead, Option.bind_eq_bind, Option.bind_some]
      split
      · rename_i same
        exact absurd same (lead.append_ne rfl)
      · rw [first stops]
        simp only [Option.bind_some]
        cases items with
        | nil => rfl
        | cons next items =>
          have more := ih leads others (Nat.lt_of_succ_lt_succ enough)
          rw [Text.further_cons]
          change (arrayItems item steps (' ' :: (joined chars [' '] (next :: items) ++ ']' :: rest))).bind
            _ = _
          rw [arrayItems_blank, more]
          rfl

/-! Inline tables -/

theorem isKeyChar_of_isIdentifierChar {c : Char} (inside : Assignment.isIdentifierChar c = true) :
    isKeyChar c = true := by
  simp only [Assignment.isIdentifierChar, isKeyChar, Bool.or_eq_true] at *
  exact inside.imp_left .inl

variable {name : String}

theorem simpleKey_name (identifier : Assignment.isIdentifier name.toList = true)
    (after : List Char) : simpleKey (name.toList ++ ' ' :: after) = some (name, ' ' :: after) := by
  have inside : ∀ c ∈ name.toList, isKeyChar c = true := fun c member =>
    isKeyChar_of_isIdentifierChar (Assignment.isIdentifierChar_of_mem identifier member)
  have front : (name.toList ++ ' ' :: after).takeWhile isKeyChar = name.toList := by
    rw [List.takeWhile_append_of_pos inside]
    exact List.append_nil _
  have later : (name.toList ++ ' ' :: after).dropWhile isKeyChar = ' ' :: after := by
    rw [List.dropWhile_append_of_pos inside]
    rfl
  have some : name.toList.isEmpty = false := by
    obtain ⟨c, letters, written, _⟩ := Assignment.exists_start_of_isIdentifier identifier
    rw [written]
    rfl
  unfold simpleKey
  split
  · rename_i same
    exact absurd same (Assignment.append_ne_cons identifier rfl)
  · rename_i same
    exact absurd same (Assignment.append_ne_cons identifier rfl)
  · simp [front, later, some]

theorem skipBlank_name (identifier : Assignment.isIdentifier name.toList = true)
    (after : List Char) : skipBlank (name.toList ++ after) = name.toList ++ after := by
  obtain ⟨c, letters, written, start⟩ := Assignment.exists_start_of_isIdentifier identifier
  have apart (d : Char) (other : Assignment.isIdentifierStart d = false) : c ≠ d := by
    rintro rfl
    cases other.symm.trans start
  rw [written]
  exact skipBlank_cons (apart ' ' rfl) (apart '\t' rfl) _

theorem keyParts_name (identifier : Assignment.isIdentifier name.toList = true) (most : Nat)
    (after : List Char) :
    keyParts (most + 1) (name.toList ++ ' ' :: '=' :: after) = some ([name], '=' :: after) := by
  have sign : skipBlank (' ' :: '=' :: after) = '=' :: after := rfl
  simp [keyParts, skipBlank_name identifier, simpleKey_name identifier, sign]

theorem reads_readAssignment (identifier : Assignment.isIdentifier name.toList = true)
    (leads : Leads text rank) {node : Node} (reads : Reads item text node) :
    Reads (readAssignment item) (name.toList ++ " = ".toList ++ text) ([name], node) := by
  intro rest ends
  have key : readKey (name.toList ++ ' ' :: '=' :: ' ' :: (text ++ rest)) =
      some ([name], '=' :: ' ' :: (text ++ rest)) := keyParts_name identifier _ _
  have value : skipBlank (' ' :: (text ++ rest)) = text ++ rest := skipBlank_of_leads leads
  simp [readAssignment, key, expect, value, reads ends]

theorem inlineAssignments_blank (text : List Char) :
    inlineAssignments item steps (' ' :: text) = inlineAssignments item steps text := by
  cases steps <;> rfl

theorem inlineAssignments_joined {assignment : α → List String × Node} {one : α}
    (reads : ∀ two ∈ one :: items, Reads (readAssignment item) (chars two) (assignment two))
    (enough : items.length < steps) :
    inlineAssignments item steps (joined chars [' '] (one :: items) ++ ' ' :: '\x7d' :: rest) =
      some ((one :: items).map assignment, rest) := by
  induction items generalizing one steps with
  | nil =>
    cases steps with
    | zero => cases enough
    | succ steps =>
      have stops : Delimited (' ' :: '\x7d' :: rest) := Text.delimited_cons rfl _
      have alone : joined chars [' '] [one] = chars one := List.append_nil _
      rw [alone, inlineAssignments, reads one List.mem_cons_self stops]
      rfl
  | cons next items ih =>
    cases steps with
    | zero => cases enough
    | succ steps =>
      obtain ⟨first, others⟩ := List.forall_mem_cons.mp reads
      have more := ih others (Nat.lt_of_succ_lt_succ enough)
      have stops : Delimited (further chars [' '] (next :: items) ++ ' ' :: '\x7d' :: rest) :=
        Text.delimited_further rfl _ _
      rw [joined, List.append_assoc, inlineAssignments, first stops, Text.further_cons]
      change (inlineAssignments item steps
        (' ' :: (joined chars [' '] (next :: items) ++ ' ' :: '\x7d' :: rest))).bind _ = _
      rw [inlineAssignments_blank, more]
      rfl

namespace Draft

theorem put_of_absent {key : String} (draft : Draft) {entries : Entries}
    (absent : ∀ entry ∈ entries, entry.1 ≠ key) : put key draft entries = entries ++ [(key, draft)] := by
  induction entries with
  | nil => rfl
  | cons entry entries ih =>
    obtain ⟨first, others⟩ := List.forall_mem_cons.mp absent
    rw [put, if_neg first, ih others]
    rfl

/-- What an assignment does in an inline table. -/
def assigned (draft : Draft) (assignment : List String × Node) : Option Draft :=
  assignment.1.getLast?.bind fun key =>
    changeAt .dotted (assign assignment.1.dropLast key assignment.2) [] draft

theorem assigned_of_absent {key : String} (node : Node) (standing : Standing) {entries : Entries}
    (absent : ∀ entry ∈ entries, entry.1 ≠ key) :
    assigned (.table standing entries) ([key], node) =
      some (.table standing (entries ++ [(key, .value node)])) := by
  have missing : entries.lookup key = none := by
    rw [List.lookup_eq_none_iff]
    exact fun entry member => bne_iff_ne.mpr (absent entry member).symm
  simp [assigned, changeAt, assign, setValue, missing, put_of_absent _ absent]

theorem foldlM_assigned {standing : Standing} {entries : Entries} {nodes : List (String × Node)}
    (distinct : (entries.map Prod.fst ++ nodes.map Prod.fst).Nodup) :
    (nodes.map fun entry => ([entry.1], entry.2)).foldlM assigned (.table standing entries) =
      some (.table standing (entries ++ nodes.map fun entry => (entry.1, .value entry.2))) := by
  induction nodes generalizing entries with
  | nil => simp
  | cons one nodes ih =>
    have absent : ∀ entry ∈ entries, entry.1 ≠ one.1 := fun entry member =>
      (List.nodup_append.mp distinct).2.2 _ (List.mem_map_of_mem member) _ List.mem_cons_self
    have apart : ((entries ++ [(one.1, Draft.value one.2)]).map Prod.fst ++
        nodes.map Prod.fst).Nodup := by
      simpa using distinct
    have others := ih apart
    rw [List.map_cons, List.foldlM_cons, assigned_of_absent _ _ absent]
    simpa using others

theorem exists_of_ofAssignments {nodes : List (String × Node)}
    (distinct : (nodes.map Prod.fst).Nodup) :
    ∃ draft, ofAssignments (nodes.map fun entry => ([entry.1], entry.2)) = some draft ∧
      draft.toNode = .table nodes := by
  refine ⟨_, foldlM_assigned distinct, ?_⟩
  rw [List.nil_append, toNode, entriesToNodes_eq_map, List.map_map]
  simp [Function.comp_def, toNode]

end Draft

variable {room : Nat} {node : α → Node}

theorem reads_array (leads : ∀ one ∈ items, ∃ rank, Leads (chars one) rank)
    (reads : ∀ one ∈ items, Reads (readValue room) (chars one) (node one)) :
    Reads (readValue (room + 1)) ('[' :: joined chars [' '] items ++ [']'])
      (.array (items.map node)) := by
  intro rest ends
  have enough : items.length < (joined chars [' '] items ++ ']' :: rest).length + 1 := by
    have fewer : items.length ≤ (joined chars [' '] items).length + 1 := Text.length_le_joined items
    rw [List.length_append, List.length_cons]
    omega
  have read : arrayItems (readValue room) _ _ = some (items.map node, rest) :=
    arrayItems_joined leads reads enough
  have text : '[' :: joined chars [' '] items ++ [']'] ++ rest =
      '[' :: (joined chars [' '] items ++ ']' :: rest) := by simp
  rw [text, readValue, read, Option.map_some]

theorem inlineTable_of_name (identifier : Assignment.isIdentifier name.toList = true)
    (start : name.toList <+: text) :
    inlineTable item (' ' :: text) = (inlineAssignments item (text.length + 1) text).bind fun read =>
      (Draft.ofAssignments read.1).map fun draft => (draft.toNode, read.2) := by
  obtain ⟨after, rfl⟩ := start
  have skipped : skipBlank (' ' :: (name.toList ++ after)) = name.toList ++ after :=
    skipBlank_name identifier after
  unfold inlineTable
  rw [skipped]
  split
  · rename_i same
    exact absurd same (Assignment.append_ne_cons identifier rfl)
  · simp only [Option.map_eq_bind]
    rfl

theorem inlineTable_joined {one : String × α} {entries : List (String × α)}
    (named : ∀ entry ∈ one :: entries, Assignment.isIdentifier entry.1.toList = true)
    (distinct : ((one :: entries).map Prod.fst).Nodup)
    (leads : ∀ entry ∈ one :: entries, ∃ rank, Leads (chars entry.2) rank)
    (reads : ∀ entry ∈ one :: entries, Reads item (chars entry.2) (node entry.2))
    (rest : List Char) :
    inlineTable item
      (' ' :: (joined (written chars) [' '] (one :: entries) ++ ' ' :: '\x7d' :: rest)) =
        some (.table ((one :: entries).map fun entry => (entry.1, node entry.2)), rest) := by
  have assignments : ∀ entry ∈ one :: entries, Reads (readAssignment item)
      (written chars entry) ([entry.1], node entry.2) := by
    intro entry member
    obtain ⟨rank, lead⟩ := leads entry member
    exact reads_readAssignment (named entry member) lead (reads entry member)
  have enough : entries.length < (joined (written chars) [' '] (one :: entries) ++
      ' ' :: '\x7d' :: rest).length + 1 := by
    have fewer : (one :: entries).length ≤
        (joined (written chars) [' '] (one :: entries)).length + 1 := Text.length_le_joined _
    rw [List.length_cons] at fewer
    rw [List.length_append]
    omega
  have read : inlineAssignments item _ _ =
      some ((one :: entries).map fun entry => ([entry.1], node entry.2), rest) :=
    inlineAssignments_joined assignments enough
  have start : one.1.toList <+:
      joined (written chars) [' '] (one :: entries) ++ ' ' :: '\x7d' :: rest := by
    simp [joined, written]
  have keys : (one :: entries).map Prod.fst =
      ((one :: entries).map fun entry => (entry.1, node entry.2)).map Prod.fst := by simp
  obtain ⟨draft, built, table⟩ := Draft.exists_of_ofAssignments (keys ▸ distinct)
  rw [List.map_map] at built
  rw [inlineTable_of_name (named one List.mem_cons_self) start, read, Option.bind_some]
  exact (congrArg _ built).trans (by rw [Option.map_some, table])

theorem reads_table {one : String × α} {entries : List (String × α)}
    (named : ∀ entry ∈ one :: entries, Assignment.isIdentifier entry.1.toList = true)
    (distinct : ((one :: entries).map Prod.fst).Nodup)
    (leads : ∀ entry ∈ one :: entries, ∃ rank, Leads (chars entry.2) rank)
    (reads : ∀ entry ∈ one :: entries, Reads (readValue room) (chars entry.2) (node entry.2)) :
    Reads (readValue (room + 1))
      ('\x7b' :: ' ' :: (joined (written chars) [' '] (one :: entries) ++ [' ', '\x7d']))
      (.table ((one :: entries).map fun entry => (entry.1, node entry.2))) := by
  intro rest ends
  have text : '\x7b' :: ' ' :: (joined (written chars) [' '] (one :: entries) ++
      [' ', '\x7d']) ++ rest = '\x7b' :: ' ' ::
        (joined (written chars) [' '] (one :: entries) ++ ' ' :: '\x7d' :: rest) := by
    simp
  rw [text, readValue, inlineTable_joined named distinct leads reads]

end Toml
end BuildArgs
