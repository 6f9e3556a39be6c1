/-!
White space, trimming and lines. A character is blank when it has the Unicode property
White_Space; trimming removes blank characters at both ends of a text and nothing else.
-/

namespace BuildArgs.Text

def isBlank (c : Char) : Bool :=
  ('\t' ≤ c && c ≤ '\r') || c == ' ' || c == '\u0085' || c == '\u00a0' || c == '\u1680' ||
    ('\u2000' ≤ c && c ≤ '\u200a') || c == '\u2028' || c == '\u2029' || c == '\u202f' ||
    c == '\u205f' || c == '\u3000'

def trimEnd (text : List Char) : List Char := (text.reverse.dropWhile isBlank).reverse

def trim (text : List Char) : List Char := trimEnd (text.dropWhile isBlank)

def splitFirst (mark : Char) : List Char → Option (List Char × List Char)
  | [] => none
  | c :: rest =>
    if c = mark then some ([], rest)
    else (splitFirst mark rest).map fun parts => (c :: parts.1, parts.2)

/-- The lines of a text. A line ends with a line feed, or a carriage return and a line feed;
the end of a text that ends with a line feed starts no further line. -/
def linesFrom : List Char → List Char → List (List Char)
  | [], [] => []
  | line, [] => [line.reverse]
  | line, '\n' :: rest => line.reverse :: linesFrom [] rest
  | line, '\r' :: '\n' :: rest => line.reverse :: linesFrom [] rest
  | line, c :: rest => linesFrom (c :: line) rest

def lines (text : List Char) : List (List Char) := linesFrom [] text

theorem splitFirst_eq_some_iff {mark : Char} {text before after : List Char} :
    splitFirst mark text = some (before, after) ↔
      text = before ++ mark :: after ∧ mark ∉ before := by
  induction text generalizing before with
  | nil => simp [splitFirst]
  | cons c rest ih =>
    simp only [splitFirst]
    split
    · rename_i here
      subst here
      constructor
      · intro found
        obtain ⟨rfl, rfl⟩ := Prod.mk.inj (Option.some.inj found)
        simp
      · rintro ⟨split, absent⟩
        cases before with
        | nil => simp at split; simp [split]
        | cons d more => simp at split absent; exact absurd split.1 absent.1
    · rename_i apart
      simp only [Option.map_eq_some_iff, Prod.mk.injEq]
      constructor
      · rintro ⟨⟨first, last⟩, found, rfl, rfl⟩
        obtain ⟨rfl, absent⟩ := ih.mp found
        exact ⟨rfl, by simpa using ⟨fun same => apart same.symm, absent⟩⟩
      · rintro ⟨split, absent⟩
        cases before with
        | nil => simp at split; exact absurd split.1 apart
        | cons d more =>
          simp only [List.cons_append, List.cons.injEq] at split
          exact ⟨(more, after), ih.mpr ⟨split.2, fun member => absent (List.mem_cons_of_mem _ member)⟩,
            by rw [split.1], rfl⟩

end BuildArgs.Text
