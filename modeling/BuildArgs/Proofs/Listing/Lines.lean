import BuildArgs.Proofs.Assignment.ReadBack
import BuildArgs.Proofs.Listing.ShortForm
import Mathlib.Data.List.Forall2

/-! The lines of the short form of a listing. There is one for each argument exactly if no string and no
name in the current values has a line break, since line breaks are written as they are. -/

namespace BuildArgs

namespace Text

theorem linesFrom_append {start line rest : List Char} (plain : '\n' ∉ line)
    (ends : line.getLast? ≠ some '\r') :
    linesFrom start (line ++ '\n' :: rest) = (start.reverse ++ line) :: linesFrom [] rest := by
  induction line generalizing start with
  | nil => simp [linesFrom]
  | cons c line ih =>
    have first : c ≠ '\n' := fun same => plain (same ▸ List.mem_cons_self)
    have others : '\n' ∉ line := fun member => plain (List.mem_cons_of_mem _ member)
    -- The line feed after a carriage return would have to be in the text or at once after it.
    have unpaired : ∀ later, c = '\r' → line ++ '\n' :: rest ≠ '\n' :: later := by
      rintro later rfl same
      cases line with
      | nil => exact ends rfl
      | cons d line => exact others ((List.cons.inj same).1 ▸ List.mem_cons_self)
    have later : line.getLast? ≠ some '\r' := by
      cases line with
      | nil => exact nofun
      | cons d line => simpa using ends
    rw [List.cons_append, linesFrom, ih others later, List.reverse_cons, List.append_assoc]
    · rfl
    · exact first
    · exact unpaired

theorem lines_flatMap {α : Type} {line : α → List Char} {items : List α}
    (each : ∀ item ∈ items, '\n' ∉ line item ∧ (line item).getLast? ≠ some '\r') :
    lines (items.flatMap fun item => line item ++ ['\n']) = items.map line := by
  induction items with
  | nil => rfl
  | cons item items ih =>
    obtain ⟨⟨plain, ends⟩, others⟩ := List.forall_mem_cons.mp each
    rw [List.flatMap_cons, List.append_assoc, List.map_cons, ← ih others]
    exact linesFrom_append plain ends

theorem count_newline_le_length (line text : List Char) :
    text.count '\n' ≤ (linesFrom line text).length := by
  fun_induction linesFrom line text with
  | case1 => simp
  | case2 => simp
  | case3 line rest ih => simpa using ih
  | case4 line rest ih => simpa using ih
  | case5 line c rest plain _ ih => rwa [List.count_cons_of_ne plain]

end Text

namespace Value

variable {origin : Option Origin}

def texts (value : Value) : List String := value.string?.toList ++ value.names

/-- Whether no string and no name in a value has a line feed, at whatever depth. -/
def OneLine (value : Value) : Prop := ∀ part ∈ value.parts, ∀ text ∈ part.texts, '\n' ∉ text.toList

instance (value : Value) : Decidable value.OneLine :=
  inferInstanceAs (Decidable (∀ part ∈ value.parts, ∀ text ∈ part.texts, ¬ _))

theorem oneLine_list_iff {items : List Value} :
    (list origin items).OneLine ↔ ∀ item ∈ items, item.OneLine := by
  refine forall_parts_list.trans (and_iff_right ?_)
  simp [texts, names, string?]

theorem oneLine_scope_iff {entries : List (String × Value)} :
    (scope origin entries).OneLine ↔
      ∀ entry ∈ entries, '\n' ∉ entry.1.toList ∧ entry.2.OneLine := by
  refine forall_parts_scope.trans ?_
  simp only [texts, names, string?, Option.toList_none, List.nil_append, List.forall_mem_map]
  exact ⟨fun both entry member => ⟨both.1 entry member, both.2 entry member⟩,
    fun each => ⟨fun entry member => (each entry member).1, fun entry member => (each entry member).2⟩⟩

theorem newline_not_mem_quote_iff (text : String) : '\n' ∉ quote text ↔ '\n' ∉ text.toList := by
  have escaped (c : Char) : '\n' ∈ escape c ↔ c = '\n' := by
    unfold escape
    split <;> simp [eq_comm]
  simp [quote, escaped]

theorem newline_not_mem_entryText_iff {entry : String × Value} :
    '\n' ∉ entryText entry ↔ '\n' ∉ entry.1.toList ∧ '\n' ∉ entry.2.chars := by
  simp [entryText, Assignment.written]

theorem newline_not_mem_chars_iff (value : Value) : '\n' ∉ value.chars ↔ value.OneLine := by
  induction value using Value.induction with
  | none origin => simp [chars, OneLine, parts, texts, names, string?]
  | boolean origin value => cases value <;> simp [chars, OneLine, parts, texts, names, string?]
  | integer origin value =>
    have visible : '\n' ∉ (integer origin value).chars := fun member =>
      absurd (visible_of_mem_decimal member) (by decide)
    simp [visible, OneLine, parts, texts, names, string?]
  | string origin value =>
    simp [chars, newline_not_mem_quote_iff, OneLine, parts, texts, names, string?]
  | list origin items each =>
    have inside : '\n' ∉ itemChars items ↔ ∀ item ∈ items, '\n' ∉ item.chars := by
      rw [itemChars_eq_joined]
      exact Text.not_mem_joined_iff (by decide) (by decide)
    simp only [oneLine_list_iff, ← inside.trans (forall₂_congr each)]
    simp [chars]
  | scope origin entries each =>
    cases entries with
    | nil => simp [oneLine_scope_iff, chars]
    | cons head entries =>
      have inside : '\n' ∉ Text.joined entryText [' '] (head :: entries) ↔
          ∀ entry ∈ head :: entries, '\n' ∉ entryText entry :=
        Text.not_mem_joined_iff (by decide) (by decide)
      have assigned : (∀ entry ∈ head :: entries, '\n' ∉ entryText entry) ↔
          ∀ entry ∈ head :: entries, '\n' ∉ entry.1.toList ∧ entry.2.OneLine :=
        forall₂_congr fun entry member =>
          newline_not_mem_entryText_iff.trans (and_congr_right' (each entry member))
      rw [oneLine_scope_iff, ← assigned, ← inside, chars_scope_cons]
      simp

end Value

namespace Listing

open Value (entryText newline_not_mem_entryText_iff newline_not_mem_chars_iff)

/-- Whether a text has one line for each name, in their order, that begins with an assignment to it. -/
def HasLinePerName (names : List String) (text : String) : Prop :=
  List.Forall₂ (fun name line => name.toList ++ " = ".toList <+: line) names (Text.lines text.toList)

variable {listing : Listing}

theorem getLast?_entryText_ne (entry : String × ListedArgument) :
    (entryText (shown entry)).getLast? ≠ some '\r' := by
  obtain ⟨front, last, written, visible⟩ := Value.exists_last_chars entry.2.current
  have text : entryText (shown entry) = entry.1.toList ++ " = ".toList ++ front ++ [last] := by
    rw [entryText, Assignment.written, shown, written, List.append_assoc _ front]
  rw [text, List.getLast?_append, List.getLast?_singleton]
  rintro same
  cases Option.some.inj same
  exact absurd visible (by decide)

theorem lines_short (oneLine : ∀ entry ∈ listing.entries, '\n' ∉ entryText (shown entry)) :
    Text.lines listing.short.toList = listing.entries.map fun entry => entryText (shown entry) := by
  rw [short, String.toList_ofList]
  exact Text.lines_flatMap fun entry member => ⟨oneLine entry member, getLast?_entryText_ne entry⟩

theorem count_newline_add_size_le (listing : Listing) :
    (listing.entries.map fun entry => (entryText (shown entry)).count '\n').sum + listing.size ≤
      (Text.lines listing.short.toList).length := by
  refine Nat.le_trans (Nat.le_of_eq ?_) (Text.count_newline_le_length [] _)
  have chars : listing.short.toList =
      listing.entries.flatMap fun entry => entryText (shown entry) ++ ['\n'] := by
    rw [short, String.toList_ofList]
    rfl
  rw [chars, SortedMap.size]
  induction listing.entries with
  | nil => rfl
  | cons entry entries ih =>
    rw [List.flatMap_cons, List.count_append, List.count_append, ← ih, List.count_singleton_self,
      List.map_cons, List.sum_cons, List.length_cons]
    omega

/-- With names on one line each, the short form has one line for each argument exactly if no string and
no name in the current values has a line feed. -/
theorem short_lines_iff (named : ∀ name ∈ listing.keys, '\n' ∉ name.toList) :
    HasLinePerName listing.keys listing.short ↔
      ∀ entry ∈ listing.entries, entry.2.current.OneLine := by
  have oneLine : (∀ entry ∈ listing.entries, '\n' ∉ entryText (shown entry)) ↔
      ∀ entry ∈ listing.entries, entry.2.current.OneLine := by
    refine forall₂_congr fun entry member => ?_
    have name : '\n' ∉ entry.1.toList := named entry.1 (List.mem_map_of_mem member)
    rw [← newline_not_mem_chars_iff]
    exact newline_not_mem_entryText_iff.trans (and_iff_right name)
  rw [← oneLine]
  constructor
  · intro lines entry member
    have same : listing.size = (Text.lines listing.short.toList).length := by
      rw [SortedMap.size_eq_length_keys]
      exact lines.length_eq
    have bound := count_newline_add_size_le listing
    have none : (listing.entries.map fun entry => (entryText (shown entry)).count '\n').sum = 0 := by
      omega
    have zero := List.sum_eq_zero_iff.mp none _ (List.mem_map_of_mem member)
    exact List.count_eq_zero.mp zero
  · intro oneLine
    rw [HasLinePerName, lines_short oneLine, SortedMap.keys, List.forall₂_map_left_iff,
      List.forall₂_map_right_iff, List.forall₂_same]
    exact fun entry _ => List.prefix_append _ _

def overriddenBreak : Listing :=
  .ofList [("a", ⟨.list none [.string none "x\r\", $y", .scope none [("n m", .none none)]], false, none⟩),
    ("b", ⟨.string none "y\nz", true, some (.integer none (-1))⟩)]

theorem short_lines_iff_overridden :
    (∀ name ∈ overriddenBreak.keys, '\n' ∉ name.toList) ∧
      (HasLinePerName overriddenBreak.keys overriddenBreak.short ↔
        ∀ entry ∈ overriddenBreak.entries, entry.2.current.OneLine) ∧
      HasLinePerName overriddenBreak.keys overriddenBreak.short := by
  have named : ∀ name ∈ overriddenBreak.keys, '\n' ∉ name.toList := by decide +kernel
  have lines := short_lines_iff named
  exact ⟨named, lines, lines.mpr (by decide +kernel)⟩

def brokenLine : Listing := .ofList [("x", ⟨.string none "a\nb", false, none⟩)]

/-- A line feed in a string breaks the line of its argument in two. -/
theorem short_lines_fail_lineBreak :
    (∀ name ∈ brokenLine.keys, '\n' ∉ name.toList) ∧
      Text.lines brokenLine.short.toList = ["x = \"a".toList, "b\"".toList] ∧
      ¬ HasLinePerName brokenLine.keys brokenLine.short := by
  have lines : Text.lines brokenLine.short.toList = ["x = \"a".toList, "b\"".toList] := by
    decide +kernel
  refine ⟨by decide +kernel, lines, fun each => ?_⟩
  have same := each.length_eq
  rw [lines] at same
  exact absurd same (by decide +kernel)

end Listing
end BuildArgs
