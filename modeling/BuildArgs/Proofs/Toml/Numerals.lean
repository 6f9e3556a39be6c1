import BuildArgs.Proofs.Text.Decimal
import BuildArgs.Proofs.Toml.Remainder
import BuildArgs.Toml.Expression

/-! Numbers in front of a mark are read back. A number might also be the beginning of a date or a time,
but then there would be a hyphen or a colon among its digits. -/

namespace BuildArgs

namespace Toml

open Text (Delimited isMark isMark_iff)

/-- Whether a reader takes a text for a value, whatever delimited text follows. -/
def Reads {α : Type} (reader : Reader α) (text : List Char) (value : α) : Prop :=
  ∀ ⦃rest⦄, Delimited rest → reader (text ++ rest) = some (value, rest)

variable {digits rest : List Char} {number : Nat}

theorem moreDigits_of_delimited (ends : Delimited rest) :
    moreDigits Char.isDigit rest = some ([], rest) := by
  cases rest with
  | nil => rfl
  | cons c rest => rcases isMark_iff.mp (ends c rfl) with rfl | rfl | rfl | rfl | rfl <;> rfl

theorem moreDigits_cons {c : Char} (digit : c.isDigit = true) (rest : List Char) :
    moreDigits Char.isDigit (c :: rest) =
      (moreDigits Char.isDigit rest).map fun read => (c :: read.1, read.2) := by
  have apart : c ≠ '_' := by
    rintro rfl
    cases digit
  rw [moreDigits]
  · simp [apart, digit]
  · simp [apart]

theorem reads_moreDigits (decimal : ∀ c ∈ digits, c.isDigit = true) :
    Reads (moreDigits Char.isDigit) digits digits := by
  intro rest ends
  induction digits with
  | nil => exact moreDigits_of_delimited ends
  | cons c digits ih =>
    obtain ⟨first, others⟩ := List.forall_mem_cons.mp decimal
    rw [List.cons_append, moreDigits_cons first, ih others, Option.map_some]

theorem reads_someDigits {c : Char} (decimal : ∀ d ∈ c :: digits, d.isDigit = true) :
    Reads (someDigits Char.isDigit) (c :: digits) (c :: digits) := by
  intro rest ends
  obtain ⟨first, others⟩ := List.forall_mem_cons.mp decimal
  rw [List.cons_append, someDigits, if_pos first, reads_moreDigits others ends, Option.map_some]

theorem reads_wholeDigits (number : Nat) :
    Reads wholeDigits (Nat.toDigits 10 number) (Nat.toDigits 10 number) := by
  intro rest ends
  rcases Nat.eq_zero_or_pos number with rfl | positive
  · rfl
  · have lead := Json.head_toDigits_ne_zero positive
    obtain ⟨c, digits, written, _⟩ := Json.exists_cons_toDigits number
    have decimal : ∀ d ∈ c :: digits, d.isDigit = true := fun d member =>
      Json.isDigit_of_mem_toDigits (written ▸ member)
    rw [written] at lead ⊢
    rw [List.cons_append, wholeDigits]
    · exact reads_someDigits decimal ends
    · intro more same
      exact lead (congrArg some (List.cons.inj same).1)

theorem numberValue_toDigits (number : Nat) : numberValue 10 (Nat.toDigits 10 number) = number :=
  Json.foldl_toDigits fun _ decimal => by rw [digitValue, if_pos decimal]

theorem readDecimals_of_delimited (ends : Delimited rest) : readDecimals rest = some ([], rest) := by
  cases rest with
  | nil => rfl
  | cons c rest => rcases isMark_iff.mp (ends c rfl) with rfl | rfl | rfl | rfl | rfl <;> rfl

theorem readExponent_of_delimited (ends : Delimited rest) :
    readExponent rest = some (none, rest) := by
  cases rest with
  | nil => rfl
  | cons c rest => rcases isMark_iff.mp (ends c rfl) with rfl | rfl | rfl | rfl | rfl <;> rfl

theorem reads_unsignedNumber {negative : Bool} {value : Int64}
    (fits : signedInteger negative number = some value) :
    Reads (unsignedNumber negative) (Nat.toDigits 10 number) (.integer value) := by
  intro rest ends
  simp [unsignedNumber, reads_wholeDigits number ends, readDecimals_of_delimited ends,
    readExponent_of_delimited ends, numberValue_toDigits, fits]

theorem signedInteger_of_toInt {negative : Bool} {value : Int64}
    (same : value.toInt = if negative then -(number : Int) else number) :
    signedInteger negative number = some value := by
  rw [signedInteger, ← same]
  simp only [Int64.ofInt_toInt]
  exact if_pos ⟨Int64.minValue_le_toInt value, Int64.toInt_le value⟩

theorem le_length_of_take {count : Nat} (ends : Delimited rest)
    (length : ((digits ++ rest).take count).length = count)
    (taken : ((digits ++ rest).take count).all Char.isDigit = true) : count ≤ digits.length := by
  refine Nat.le_of_not_lt fun beyond => ?_
  obtain ⟨more, rfl⟩ := Nat.exists_eq_add_of_lt beyond
  rw [Nat.add_assoc, List.take_length_add_append] at length taken
  cases rest with
  | nil => simp at length
  | cons d rest =>
    have digit : d.isDigit = true := List.all_eq_true.mp taken d (by simp)
    rcases isMark_iff.mp (ends d rfl) with rfl | rfl | rfl | rfl | rfl <;> cases digit

theorem expect_of_fixedDigits {count greatest value : Nat} {later : List Char} {c : Char}
    (decimal : ∀ d ∈ digits, d.isDigit = true) (ends : Delimited rest)
    (plain : isMark c = false) (apart : c.isDigit = false)
    (found : fixedDigits count greatest (digits ++ rest) = some (value, later)) :
    expect c later = none := by
  simp only [fixedDigits] at found
  split at found
  · rename_i taken
    cases found
    have inside := le_length_of_take ends taken.1 taken.2.1
    rw [List.drop_append_of_le_length inside, Option.eq_none_iff_forall_ne_some]
    intro more passed
    have start := expect_eq_some_iff.mp passed
    cases left : digits.drop count with
    | nil => exact ends.ne_cons plain (left ▸ start)
    | cons d left' =>
      rw [left] at start
      have digit := decimal d (List.mem_of_mem_drop (left ▸ List.mem_cons_self))
      rw [(List.cons.inj start).1, apart] at digit
      cases digit
  · cases found

theorem fixedDigits_minus {count greatest : Nat} (text : List Char) :
    fixedDigits (count + 1) greatest ('-' :: text) = none := by
  simp [fixedDigits]

theorem readTemporal_minus (text : List Char) : readTemporal ('-' :: text) = none := by
  simp [readTemporal, readDate, readTime, fixedDigits_minus]

theorem readTemporal_digits (decimal : ∀ d ∈ digits, d.isDigit = true) (ends : Delimited rest) :
    readTemporal (digits ++ rest) = none := by
  have date : readDate (digits ++ rest) = none := by
    cases found : fixedDigits 4 9999 (digits ++ rest) with
    | none => simp [readDate, found]
    | some read =>
      have stops : expect '-' read.2 = none := expect_of_fixedDigits decimal ends rfl rfl found
      simp [readDate, found, stops]
  have time : readTime (digits ++ rest) = none := by
    cases found : fixedDigits 2 23 (digits ++ rest) with
    | none => simp [readTime, found]
    | some read =>
      have stops : expect ':' read.2 = none := expect_of_fixedDigits decimal ends rfl rfl found
      simp [readTime, found, stops]
  rw [readTemporal, date, time]
  rfl

theorem readTemporal_decimal (value : Int) (ends : Delimited rest) :
    readTemporal (Json.decimal value ++ rest) = none := by
  cases value with
  | ofNat number =>
    rw [Json.decimal_ofNat]
    exact readTemporal_digits (fun _ => Json.isDigit_of_mem_toDigits) ends
  | negSucc number =>
    rw [Json.decimal_negSucc]
    exact readTemporal_minus _

theorem expectAll_digit {c d : Char} (digit : c.isDigit = true) (letter : d.isDigit = false)
    (word text : List Char) : expectAll (d :: word) (c :: text) = none := by
  rw [Option.eq_none_iff_forall_ne_some]
  intro later found
  rw [(List.cons.inj (expectAll_eq_some_iff.mp found)).1, letter] at digit
  cases digit

theorem readNumber_minus {c : Char} (digit : c.isDigit = true) (text : List Char) :
    readNumber ('-' :: c :: text) = unsignedNumber true (c :: text) := by
  have infinite : expectAll "inf".toList (c :: text) = none := expectAll_digit digit rfl _ _
  have undefined : expectAll "nan".toList (c :: text) = none := expectAll_digit digit rfl _ _
  simp only [readNumber, readSign, infinite, undefined]
  rfl

theorem readNumber_digit {c : Char} (digit : c.isDigit = true) {text : List Char}
    (decimal : ∀ d later, c :: text = '0' :: d :: later → baseOf d = none) :
    readNumber (c :: text) = unsignedNumber false (c :: text) := by
  have infinite : expectAll "inf".toList (c :: text) = none := expectAll_digit digit rfl _ _
  have undefined : expectAll "nan".toList (c :: text) = none := expectAll_digit digit rfl _ _
  have unsigned : readSign (c :: text) = (false, c :: text) := by
    unfold readSign
    split
    · rename_i same
      rw [(List.cons.inj same).1] at digit
      cases digit
    · rename_i same
      rw [(List.cons.inj same).1] at digit
      cases digit
    · rfl
  simp only [readNumber, unsigned, infinite, undefined]
  split
  · rename_i d later same
    rw [decimal d later same]
  · rfl

theorem baseOf_of_toDigits {c d : Char} {later : List Char} (ends : Delimited rest)
    (written : Nat.toDigits 10 number = c :: digits)
    (same : c :: (digits ++ rest) = '0' :: d :: later) : baseOf d = none := by
  obtain ⟨rfl, follows⟩ := List.cons.inj same
  rcases Nat.eq_zero_or_pos number with rfl | positive
  · obtain ⟨_, rfl⟩ := List.cons.inj written
    have mark : isMark d = true := ends d (congrArg List.head? follows)
    rcases isMark_iff.mp mark with rfl | rfl | rfl | rfl | rfl <;> rfl
  · exact absurd (by rw [written]; rfl) (Json.head_toDigits_ne_zero positive)

theorem reads_readNumber (value : Int64) :
    Reads readNumber (Json.decimal value.toInt) (.integer value) := by
  intro rest ends
  cases whole : value.toInt with
  | ofNat number =>
    have fits : signedInteger false number = some value := signedInteger_of_toInt whole
    obtain ⟨c, digits, written, digit⟩ := Json.exists_cons_toDigits number
    have read := reads_unsignedNumber fits ends
    rw [written, List.cons_append] at read
    rw [Json.decimal_ofNat, written, List.cons_append, readNumber_digit digit]
    · exact read
    · exact fun d later => baseOf_of_toDigits ends written
  | negSucc number =>
    have fits : signedInteger true (number + 1) = some value := signedInteger_of_toInt whole
    obtain ⟨c, digits, written, digit⟩ := Json.exists_cons_toDigits (number + 1)
    have read := reads_unsignedNumber fits ends
    rw [written, List.cons_append] at read
    rw [Json.decimal_negSucc, written, List.cons_append, List.cons_append, readNumber_minus digit]
    exact read

theorem reads_readNumeral (value : Int64) :
    Reads readNumeral (Json.decimal value.toInt) (.integer value) := by
  intro rest ends
  simp [readNumeral, readTemporal_decimal _ ends, reads_readNumber value ends]

end Toml
end BuildArgs
