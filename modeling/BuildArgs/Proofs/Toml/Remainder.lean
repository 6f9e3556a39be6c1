import BuildArgs.Toml.Number
import BuildArgs.Toml.Temporal

/-! What the readers of numbers, dates and times and the marks between values leave. A reader takes
characters from the front of a text, so what it leaves is an end of the text. -/

namespace BuildArgs.Toml

variable {text rest : List Char}

theorem expect_eq_some_iff {c : Char} : expect c text = some rest ↔ text = c :: rest := by
  cases text with
  | nil => simp [expect]
  | cons d text =>
    by_cases same : d = c
    · simp [expect, same]
    · simp [expect, same]

theorem expectAll_eq_some_iff {word : List Char} :
    expectAll word text = some rest ↔ text = word ++ rest := by
  induction word generalizing text with
  | nil => simp [expectAll]
  | cons c word ih =>
    simp only [expectAll, Option.bind_eq_some_iff, expect_eq_some_iff, ih, List.cons_append]
    simp

@[grind →]
theorem suffix_of_expect {c : Char} (found : expect c text = some rest) : rest <:+ text := by
  rw [expect_eq_some_iff.mp found]
  exact List.suffix_cons _ _

@[grind →]
theorem suffix_of_expectAll {word : List Char} (found : expectAll word text = some rest) :
    rest <:+ text := by
  rw [expectAll_eq_some_iff.mp found]
  exact List.suffix_append _ _

theorem skipBlank_suffix (text : List Char) : skipBlank text <:+ text := List.dropWhile_suffix _

theorem lineBreak_eq_some_iff :
    lineBreak text = some rest ↔ text = '\n' :: rest ∨ text = '\r' :: '\n' :: rest := by
  unfold lineBreak
  split <;> simp_all

theorem lineEnd_eq_some_iff :
    lineEnd text = some rest ↔ (text = [] ∧ rest = []) ∨ lineBreak text = some rest := by
  cases text with
  | nil => simp [lineEnd, lineBreak, eq_comm]
  | cons c text => simp [lineEnd]

@[grind →]
theorem suffix_of_lineBreak (found : lineBreak text = some rest) : rest <:+ text := by
  rcases lineBreak_eq_some_iff.mp found with rfl | rfl
  · exact List.suffix_cons _ _
  · exact ⟨['\r', '\n'], rfl⟩

@[grind →]
theorem suffix_of_lineEnd (found : lineEnd text = some rest) : rest <:+ text := by
  rcases lineEnd_eq_some_iff.mp found with ⟨_, rfl⟩ | found
  · exact List.nil_suffix
  · exact suffix_of_lineBreak found

@[grind →]
theorem suffix_of_trailing (found : trailing text = some rest) : rest <:+ text := by
  unfold trailing at found
  split at found
  · rename_i comment start
    have inside : comment <:+ text :=
      (List.suffix_cons _ _).trans (start ▸ skipBlank_suffix text)
    exact ((suffix_of_lineEnd found).trans (List.dropWhile_suffix _)).trans inside
  · exact (suffix_of_lineEnd found).trans (skipBlank_suffix text)

@[grind →]
theorem suffix_of_skipLines {inComment : Bool} (found : skipLines inComment text = some rest) :
    rest <:+ text := by
  fun_induction skipLines inComment text <;> grind [List.suffix_cons_iff]

theorem eq_nil_or_newline_mem_of_lineEnd (ended : lineEnd text = some rest) :
    rest = [] ∨ '\n' ∈ text := by
  rcases lineEnd_eq_some_iff.mp ended with ⟨_, rfl⟩ | ended
  · exact .inl rfl
  · rcases lineBreak_eq_some_iff.mp ended with rfl | rfl <;> simp

theorem eq_nil_or_newline_mem_of_trailing (ended : trailing text = some rest) :
    rest = [] ∨ '\n' ∈ text := by
  unfold trailing at ended
  split at ended
  · rename_i comment start
    have inside : comment <:+ text :=
      (List.suffix_cons _ _).trans (start ▸ skipBlank_suffix text)
    refine (eq_nil_or_newline_mem_of_lineEnd ended).imp_right fun member => ?_
    exact inside.subset ((List.dropWhile_suffix _).subset member)
  · exact (eq_nil_or_newline_mem_of_lineEnd ended).imp_right fun member =>
      (skipBlank_suffix text).subset member

/-! Numbers -/

@[grind →]
theorem suffix_of_moreDigits {isDigit : Char → Bool} {digits : List Char}
    (found : moreDigits isDigit text = some (digits, rest)) : rest <:+ text := by
  fun_induction moreDigits isDigit text generalizing digits rest <;>
    grind [List.suffix_cons_iff, Option.map_eq_some_iff]

@[grind →]
theorem suffix_of_someDigits {isDigit : Char → Bool} {digits : List Char}
    (found : someDigits isDigit text = some (digits, rest)) : rest <:+ text := by
  unfold someDigits at found
  grind [List.suffix_cons_iff, Option.map_eq_some_iff]

@[grind →]
theorem suffix_of_wholeDigits {digits : List Char}
    (found : wholeDigits text = some (digits, rest)) : rest <:+ text := by
  unfold wholeDigits at found
  grind [List.suffix_cons_iff]

theorem readSign_suffix (text : List Char) : (readSign text).2 <:+ text := by
  unfold readSign
  grind [List.suffix_cons_iff]

@[grind →]
theorem suffix_of_readDecimals {digits : List Char}
    (found : readDecimals text = some (digits, rest)) : rest <:+ text := by
  unfold readDecimals at found
  grind [List.suffix_cons_iff]

@[grind →]
theorem suffix_of_readExponent {power : Option Int}
    (found : readExponent text = some (power, rest)) : rest <:+ text := by
  unfold readExponent at found
  grind [List.suffix_cons_iff, readSign_suffix, Option.map_eq_some_iff]

@[grind →]
theorem suffix_of_unsignedNumber {negative : Bool} {number : Number}
    (found : unsignedNumber negative text = some (number, rest)) : rest <:+ text := by
  simp only [unsignedNumber, Option.bind_eq_bind, Option.bind_eq_some_iff, Prod.exists] at found
  grind [Option.bind_eq_some_iff]

@[grind →]
theorem suffix_of_readNumber {number : Number} (found : readNumber text = some (number, rest)) :
    rest <:+ text := by
  have unsigned := readSign_suffix text
  simp only [readNumber] at found
  split at found
  · grind
  · split at found
    · grind
    · split at found
      · split at found
        · simp only [Option.bind_eq_bind, Option.bind_eq_some_iff, Prod.exists] at found
          obtain ⟨digits, later, read, value, _, same⟩ := found
          cases same
          exact (suffix_of_someDigits read).trans ⟨['0', _], rfl⟩
        · exact (suffix_of_unsignedNumber found).trans unsigned
      · exact (suffix_of_unsignedNumber found).trans unsigned

/-! Dates and times -/

@[grind →]
theorem suffix_of_fixedDigits {count greatest value : Nat}
    (found : fixedDigits count greatest text = some (value, rest)) : rest <:+ text := by
  unfold fixedDigits at found
  grind [List.drop_suffix]

@[grind →]
theorem suffix_of_readDate {date : Date} (found : readDate text = some (date, rest)) :
    rest <:+ text := by
  simp only [readDate, Option.bind_eq_bind, Option.bind_eq_some_iff, Prod.exists] at found
  grind

theorem readFraction_suffix (text : List Char) : (readFraction text).2 <:+ text := by
  unfold readFraction
  grind [List.suffix_cons_iff, List.dropWhile_suffix]

@[grind →]
theorem suffix_of_readTime {time : Time} (found : readTime text = some (time, rest)) :
    rest <:+ text := by
  simp only [readTime, Option.bind_eq_bind, Option.bind_eq_some_iff, Prod.exists] at found
  grind [readFraction_suffix]

@[grind →]
theorem suffix_of_readOffset {offset : Option Offset}
    (found : readOffset text = some (offset, rest)) : rest <:+ text := by
  simp only [readOffset, Option.bind_eq_bind] at found
  grind [List.suffix_cons_iff, Option.bind_eq_some_iff]

@[grind →]
theorem suffix_of_readMoment {date : Date} {value : Temporal}
    (found : readMoment date text = some (value, rest)) : rest <:+ text := by
  unfold readMoment at found
  grind [List.suffix_cons_iff, Option.map_eq_some_iff]

@[grind →]
theorem suffix_of_readTemporal {value : Temporal}
    (found : readTemporal text = some (value, rest)) : rest <:+ text := by
  unfold readTemporal at found
  grind [Option.map_eq_some_iff]

end BuildArgs.Toml
