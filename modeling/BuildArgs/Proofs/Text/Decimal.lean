import BuildArgs.Json
import BuildArgs.Proofs.Text.Delimited

/-! Numbers as they are written: the digits of a natural number, with a sign in front of them for a
negative one. -/

namespace BuildArgs.Json

open Text (Delimited Leads leadRank?)

variable {after later : List Char}

theorem isDigit_of_mem_toDigits {number : Nat} {c : Char} (member : c ∈ Nat.toDigits 10 number) :
    c.isDigit = true :=
  Nat.isDigit_of_mem_toDigits (by decide) (by decide) member

theorem exists_cons_toDigits (number : Nat) :
    ∃ c rest, Nat.toDigits 10 number = c :: rest ∧ c.isDigit = true := by
  cases digits : Nat.toDigits 10 number with
  | nil => exact absurd digits Nat.toDigits_ne_nil
  | cons c rest =>
    exact ⟨c, rest, rfl, isDigit_of_mem_toDigits (digits ▸ List.mem_cons_self)⟩

theorem head_toDigits_ne_zero {number : Nat} (positive : 0 < number) :
    (Nat.toDigits 10 number).head? ≠ some '0' := by
  induction number using Nat.strongRecOn with
  | ind number ih =>
    by_cases small : number < 10
    · rw [Nat.toDigits_of_lt_base small]
      intro same
      have value := Nat.toNat_digitChar_of_lt_ten small
      rw [Option.some.inj same] at value
      have zero : '0'.toNat = 48 := rfl
      omega
    · have front := ih (number / 10) (by omega) (by omega)
      obtain ⟨c, digits, written, _⟩ := exists_cons_toDigits (number / 10)
      rw [Nat.toDigits_of_base_le (by decide) (Nat.le_of_not_lt small)]
      rw [written] at front ⊢
      exact front

/-- The digits of a number have its value, whatever function gives the value of a single digit. -/
theorem foldl_toDigits {value : Char → Nat}
    (each : ∀ c, c.isDigit = true → value c = c.toNat - '0'.toNat) {number : Nat} :
    (Nat.toDigits 10 number).foldl (fun sum c => sum * 10 + value c) 0 = number := by
  have fold (digits : List Char) (decimal : ∀ c ∈ digits, c.isDigit = true) (start : Nat) :
      digits.foldl (fun sum c => sum * 10 + value c) start =
        Nat.ofDigitChars 10 digits start := by
    induction digits generalizing start with
    | nil => rfl
    | cons c digits ih =>
      obtain ⟨first, others⟩ := List.forall_mem_cons.mp decimal
      rw [List.foldl_cons, ih others, Nat.ofDigitChars_cons, each c first, Nat.mul_comm]
  rw [fold _ fun c => isDigit_of_mem_toDigits, Nat.ofDigitChars_ten_toDigits]

theorem toDigits_append_inj {one other : Nat} (first : Delimited after) (second : Delimited later)
    (same : Nat.toDigits 10 one ++ after = Nat.toDigits 10 other ++ later) :
    one = other ∧ after = later := by
  obtain ⟨digits, rest⟩ := Text.digits_append_inj (fun _ => isDigit_of_mem_toDigits)
    (fun _ => isDigit_of_mem_toDigits) first second same
  refine ⟨?_, rest⟩
  rw [← Nat.ofDigitChars_ten_toDigits (n := one), digits, Nat.ofDigitChars_ten_toDigits]

theorem toDigits_append_ne_minus {number : Nat} :
    Nat.toDigits 10 number ++ after ≠ '-' :: later := by
  obtain ⟨c, rest, digits, digit⟩ := exists_cons_toDigits number
  rw [digits]
  intro same
  obtain ⟨rfl, _⟩ := List.cons.inj same
  exact absurd digit (by decide)

theorem decimal_ofNat (number : Nat) : decimal (.ofNat number) = Nat.toDigits 10 number := by
  simp [decimal, Int.repr_eq_if]

theorem decimal_negSucc (number : Nat) :
    decimal (.negSucc number) = '-' :: Nat.toDigits 10 (number + 1) := by
  simp [decimal, Int.repr_eq_if]

theorem leadRank?_of_isDigit {c : Char} (digit : c.isDigit = true) : leadRank? c = some 2 := by
  have apart (d : Char) (plain : d.isDigit = false) : c ≠ d := by
    rintro rfl
    cases plain.symm.trans digit
  simp [leadRank?, digit, apart]

theorem leads_decimal (value : Int) : Leads (decimal value) 2 := by
  cases value with
  | ofNat number =>
    obtain ⟨c, rest, digits, digit⟩ := exists_cons_toDigits number
    exact ⟨c, rest, (decimal_ofNat number).trans digits, leadRank?_of_isDigit digit⟩
  | negSucc number => exact ⟨_, _, decimal_negSucc number, rfl⟩

theorem decimal_append_inj {one other : Int} (first : Delimited after) (second : Delimited later)
    (same : decimal one ++ after = decimal other ++ later) : one = other ∧ after = later := by
  cases one with
  | ofNat one =>
    rw [decimal_ofNat] at same
    cases other with
    | ofNat other =>
      rw [decimal_ofNat] at same
      obtain ⟨rfl, rest⟩ := toDigits_append_inj first second same
      exact ⟨rfl, rest⟩
    | negSucc other =>
      rw [decimal_negSucc] at same
      exact absurd same toDigits_append_ne_minus
  | negSucc one =>
    rw [decimal_negSucc] at same
    cases other with
    | ofNat other =>
      rw [decimal_ofNat] at same
      exact absurd same.symm toDigits_append_ne_minus
    | negSucc other =>
      rw [decimal_negSucc] at same
      obtain ⟨follows, rest⟩ := toDigits_append_inj first second (List.cons.inj same).2
      exact ⟨by rw [Nat.succ.inj follows], rest⟩

end BuildArgs.Json
