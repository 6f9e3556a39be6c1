import BuildArgs.Binary64
import BuildArgs.Toml.Temporal

/-! Numbers, dates and times are written on one line. -/

namespace BuildArgs

theorem newline_not_mem_toDigits (number : Nat) : '\n' ∉ Nat.toDigits 10 number := by
  intro member
  have digit := Nat.isDigit_of_mem_toDigits (by decide) (by decide) member
  exact absurd digit (by decide)

namespace Binary64

theorem newline_not_mem_signed {negative : Bool} {text : List Char} (oneLine : '\n' ∉ text) :
    '\n' ∉ signed negative text := by
  unfold signed
  split <;> simp [oneLine]

theorem newline_not_mem_positional {digits : List Char} {place : Int} (oneLine : '\n' ∉ digits) :
    '\n' ∉ positional digits place := by
  have front (count : Nat) : '\n' ∉ digits.take count := fun member => oneLine (List.mem_of_mem_take member)
  have back (count : Nat) : '\n' ∉ digits.drop count := fun member => oneLine (List.mem_of_mem_drop member)
  unfold positional
  split
  · simp [oneLine]
  · dsimp only
    split <;> simp [oneLine, front, back]

theorem newline_not_mem_dropZeros {digits : List Char} (place : Int) (oneLine : '\n' ∉ digits) :
    '\n' ∉ (dropZeros digits place).1 := by
  intro member
  have inside := (List.dropWhile_suffix (· == '0')).subset (List.mem_reverse.mp member)
  exact oneLine (List.mem_reverse.mp inside)

theorem newline_not_mem_chars (number : Binary64) : '\n' ∉ number.chars := by
  unfold chars
  split
  · decide
  · exact newline_not_mem_signed (by decide)
  · exact newline_not_mem_signed (by decide)
  · rename_i significand exponent _
    rcases shortest significand exponent with ⟨digits, place⟩
    have kept := newline_not_mem_dropZeros place (newline_not_mem_toDigits digits)
    exact newline_not_mem_signed (newline_not_mem_positional kept)

end Binary64

namespace Toml

theorem newline_not_mem_padded (width value : Nat) : '\n' ∉ (padded width value).toList := by
  simp [padded, newline_not_mem_toDigits]

theorem Date.newline_not_mem_text (date : Date) : '\n' ∉ date.text.toList := by
  simp [Date.text, newline_not_mem_padded]

theorem Time.newline_not_mem_text (time : Time) : '\n' ∉ time.text.toList := by
  simp only [Time.text]
  split
  · simp [newline_not_mem_padded]
  · have kept : '\n' ∉ (padded 9 time.nanosecond).toList.reverse.dropWhile (· == '0') := fun member =>
      newline_not_mem_padded _ _ (List.mem_reverse.mp ((List.dropWhile_suffix _).subset member))
    simp [newline_not_mem_padded, kept]

theorem Offset.newline_not_mem_text (offset : Offset) : '\n' ∉ offset.text.toList := by
  cases offset with
  | universal => decide
  | shifted behind minutes =>
    simp only [Offset.text]
    split <;> simp [newline_not_mem_padded]

theorem Temporal.newline_not_mem_text (temporal : Temporal) : '\n' ∉ temporal.text.toList := by
  cases temporal with
  | date date => exact date.newline_not_mem_text
  | time time => exact time.newline_not_mem_text
  | moment date time offset =>
    cases offset <;> simp [Temporal.text, date.newline_not_mem_text, time.newline_not_mem_text,
      Offset.newline_not_mem_text]

end Toml
end BuildArgs
