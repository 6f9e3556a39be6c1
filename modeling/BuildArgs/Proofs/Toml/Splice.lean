import BuildArgs.Proofs.Toml.Building
import BuildArgs.Proofs.Toml.Resolving
import BuildArgs.Proofs.Toml.Statements

/-! A text with a value of its own at the front. What follows the line of that value is a text in its
own right; all that the two have to do with each other is that the key of the value is taken. -/

namespace BuildArgs.Toml

open Draft

variable {raw rest : List Char} {table : Table}

abbrev valueIs : List Char := "value = ".toList

theorem readStatement_valueIs (raw : List Char) :
    readStatement (valueIs ++ raw) =
      (readValue (depthLimit - 1) (skipBlank raw)).map fun read =>
        (.assignment ["value"] read.1, read.2) := by
  have start : readStatement (valueIs ++ raw) =
      (readAssignment (readValue (depthLimit - 1)) (valueIs ++ raw)).map fun read =>
        (.assignment read.1.1 read.1.2, read.2) := rfl
  have key : readKey (valueIs ++ raw) = some (["value"], '=' :: ' ' :: raw) := rfl
  have blank : skipBlank (' ' :: raw) = skipBlank raw := rfl
  rw [start, readAssignment, key]
  cases read : readValue (depthLimit - 1) (skipBlank raw) <;> simp [expect, blank, read]

theorem statements_valueIs_iff {all : List Statement} :
    statements (valueIs ++ raw) = some all ↔
      ∃ node rest more, readValue (depthLimit - 1) (skipBlank raw) = some (node, rest) ∧
        (trailing rest).isSome ∧ statements rest = some more ∧
        all = .assignment ["value"] node :: more := by
  have start : statements (valueIs ++ raw) =
      (readStatement (valueIs ++ raw)).bind fun read => (trailing read.2).bind fun rest =>
        (readStatements (valueIs ++ raw).length rest).bind fun more => some (read.1 :: more) := rfl
  rw [start, readStatement_valueIs]
  -- The steps that are left count the whole text, so they are enough for the end of it.
  have enough {node : Node} {rest line : List Char}
      (read : readValue (depthLimit - 1) (skipBlank raw) = some (node, rest))
      (ended : trailing rest = some line) :
      readStatements (valueIs ++ raw).length line = statements rest := by
    rw [statements_of_trailing ended]
    refine readStatements_eq ?_
    have inside := (suffix_of_trailing ended).trans
      ((leaves_readValue _ read).trans (skipBlank_suffix raw))
    rw [List.length_append]
    exact Nat.lt_of_le_of_lt inside.length_le (Nat.lt_add_of_pos_left (by decide))
  simp only [Option.bind_eq_some_iff, Option.map_eq_some_iff, Prod.exists]
  constructor
  · rintro ⟨_, rest, ⟨node, _, read, same⟩, line, ended, more, further, whole⟩
    cases same
    cases whole
    exact ⟨node, rest, more, read, Option.isSome_of_eq_some ended, enough read ended ▸ further, rfl⟩
  · rintro ⟨node, rest, more, read, ended, further, rfl⟩
    obtain ⟨line, ended⟩ := Option.isSome_iff_exists.mp ended
    exact ⟨_, rest, ⟨node, rest, read, rfl⟩, line, ended, more, enough read ended ▸ further, rfl⟩

def tableOf (entries : Entries) : Table := .ofList (entriesToNodes entries)

theorem get?_tableOf (entries : Entries) (name : String) :
    (tableOf entries).get? name = (entriesToNodes entries).reverse.lookup name :=
  (SortedMap.get?_insertList_names _ _ _).trans (Option.or_none ..)

theorem get?_tableOf_eq_none_iff {entries : Entries} {name : String} :
    (tableOf entries).get? name = none ↔ entries.lookup name = none := by
  rw [get?_tableOf, List.lookup_eq_none_iff, List.lookup_eq_none_iff, entriesToNodes_eq_map]
  simp only [List.mem_reverse, List.forall_mem_map]

theorem tableOf_cons {entries : Entries} {key : String} (node : Node)
    (absent : entries.lookup key = none) :
    tableOf ((key, .value node) :: entries) = (tableOf entries).insert key node := by
  apply SortedMap.ext_get?
  intro name
  have front : (tableOf ((key, .value node) :: entries)).get? name =
      ((tableOf entries).get? name).or ([(key, node)].lookup name) := by
    rw [get?_tableOf, get?_tableOf, entriesToNodes, toNode, List.reverse_cons, List.lookup_append]
  by_cases same : name = key
  · subst same
    rw [front, SortedMap.get?_insert_self, get?_tableOf_eq_none_iff.mpr absent]
    simp
  · rw [front, SortedMap.get?_insert_ne _ _ same]
    simp [List.lookup_cons, beq_false_of_ne same]

theorem eq_nil_of_tableOf {entries : Entries} (bare : ∀ name, (tableOf entries).get? name = none) :
    entries = [] := by
  cases entries with
  | nil => rfl
  | cons entry entries =>
    have absent := get?_tableOf_eq_none_iff.mp (bare entry.1)
    simp at absent

theorem parseUnresolved_eq_some_iff {text : String} :
    parseUnresolved text = some table ↔
      ∃ all entries last, statements (dropMark text.toList) = some all ∧
        all.foldlM Progress.run ⟨.table .opened [], []⟩ = some ⟨.table .opened entries, last⟩ ∧
        table = tableOf entries := by
  simp only [parseUnresolved, Option.bind_eq_bind, Option.bind_eq_some_iff]
  constructor
  · rintro ⟨all, read, ⟨root, last⟩, ran, built⟩
    obtain ⟨entries, rfl, _⟩ := Progress.exists_after_of_foldlM ran
    cases built
    exact ⟨all, entries, last, read, ran, rfl⟩
  · rintro ⟨all, entries, last, read, ran, rfl⟩
    exact ⟨all, read, _, ran, rfl⟩

theorem dropMark_of_trailing (ended : (trailing rest).isSome) : dropMark rest = rest := by
  unfold dropMark
  split
  · cases ended
  · rfl

/-- A text after an assignment to a key of its own is read as it is read alone, unless it gives that
key once more. -/
theorem parseUnresolved_valueIs_iff :
    parseUnresolved (String.ofList (valueIs ++ raw)) = some table ↔
      ∃ node rest others, readValue (depthLimit - 1) (skipBlank raw) = some (node, rest) ∧
        (trailing rest).isSome ∧ parseUnresolved (String.ofList rest) = some others ∧
        others.get? "value" = none ∧ table = others.insert "value" node := by
  have noMark : dropMark (valueIs ++ raw) = valueIs ++ raw := rfl
  have first (node : Node) (more : List Statement) :
      (Statement.assignment ["value"] node :: more).foldlM Progress.run ⟨.table .opened [], []⟩ =
        more.foldlM Progress.run ⟨.table .opened [("value", .value node)], []⟩ := rfl
  simp only [parseUnresolved_eq_some_iff, String.toList_ofList, noMark, statements_valueIs_iff]
  constructor
  · rintro ⟨_, entries, last, ⟨node, rest, more, read, ended, further, rfl⟩, ran, rfl⟩
    rw [first, Progress.foldlM_withEntry_iff rfl] at ran
    obtain ⟨others, _, ran, absent, same⟩ := ran
    cases same
    rw [← dropMark_of_trailing ended] at further
    exact ⟨node, rest, tableOf others, read, ended, ⟨more, others, _, further, ran, rfl⟩,
      get?_tableOf_eq_none_iff.mpr absent, tableOf_cons node absent⟩
  · rintro ⟨node, rest, _, read, ended, ⟨more, others, last, further, ran, rfl⟩, absent, rfl⟩
    have absent := get?_tableOf_eq_none_iff.mp absent
    rw [dropMark_of_trailing ended] at further
    refine ⟨_, ("value", .value node) :: others, last, ⟨node, rest, more, read, ended, further, rfl⟩,
      ?_, (tableOf_cons node absent).symm⟩
    rw [first, Progress.foldlM_withEntry_iff rfl]
    exact ⟨others, last, ran, absent, rfl⟩

theorem parse_valueIs_iff :
    parse (String.ofList (valueIs ++ raw)) = some table ↔
      ∃ node rest value others, readValue (depthLimit - 1) (skipBlank raw) = some (node, rest) ∧
        (trailing rest).isSome ∧ node.resolve = some value ∧ parse (String.ofList rest) = some others ∧
        others.get? "value" = none ∧ table = others.insert "value" value := by
  simp only [parse, Option.bind_eq_some_iff, parseUnresolved_valueIs_iff]
  constructor
  · rintro ⟨_, ⟨node, rest, written, read, ended, alone, absent, rfl⟩, resolved⟩
    obtain ⟨value, others, here, others_eq, rfl⟩ := (Table.resolve_insert_eq_some_iff absent).mp resolved
    exact ⟨node, rest, value, others, read, ended, here, ⟨written, alone, others_eq⟩,
      (Table.get?_resolve_eq_none_iff others_eq _).mpr absent, rfl⟩
  · rintro ⟨node, rest, value, others, read, ended, here, ⟨written, alone, resolved⟩, absent, rfl⟩
    have absent := (Table.get?_resolve_eq_none_iff resolved _).mp absent
    exact ⟨_, ⟨node, rest, written, read, ended, alone, absent, rfl⟩,
      (Table.resolve_insert_eq_some_iff absent).mpr ⟨value, others, here, resolved, rfl⟩⟩

theorem insignificant_of_parse (ended : (trailing rest).isSome)
    (found : parse (String.ofList rest) = some table) (bare : ∀ name, table.get? name = none) :
    Insignificant rest := by
  obtain ⟨written, read, resolved⟩ := Option.bind_eq_some_iff.mp found
  obtain ⟨all, entries, last, stated, ran, rfl⟩ := parseUnresolved_eq_some_iff.mp read
  have empty := eq_nil_of_tableOf fun name => (Table.get?_resolve_eq_none_iff resolved name).mp (bare name)
  subst empty
  rw [String.toList_ofList, dropMark_of_trailing ended, Progress.eq_nil_of_foldlM ran rfl] at stated
  exact insignificant_of_readStatements stated

theorem newline_mem_of_parse (ended : (trailing rest).isSome)
    (found : parse (String.ofList rest) = some table) (more : table.keys ≠ []) : '\n' ∈ rest := by
  obtain ⟨line, ended⟩ := Option.isSome_iff_exists.mp ended
  rcases eq_nil_or_newline_mem_of_trailing ended with rfl | member
  · have nothing : statements (dropMark rest) = some [] := by
      rw [dropMark_of_trailing (Option.isSome_of_eq_some ended), statements_of_trailing ended,
        statements_nil]
    have empty : parse (String.ofList rest) = some ∅ := by
      rw [parse, parseUnresolved_eq_some_iff.mpr
        ⟨[], [], [], String.toList_ofList ▸ nothing, rfl, rfl⟩]
      rfl
    cases empty.symm.trans found
    exact absurd rfl more
  · exact member

end BuildArgs.Toml
