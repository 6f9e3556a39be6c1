import BuildArgs.Json.Record

/-! Quoted texts are read back: every escape is read as the character that it stands for. -/

namespace BuildArgs.Json

theorem hexUnit_of_lt : ∀ number < 32, hexUnit '0' '0' (Nat.digitChar (number / 16))
    (Nat.digitChar (number % 16)) = some number := by
  decide

theorem readText_control {c : Char} (control : c < ' ') (rest : List Char) :
    readText ('\\' :: 'u' :: '0' :: '0' :: Nat.digitChar (c.toNat / 16) ::
      Nat.digitChar (c.toNat % 16) :: rest) = consText c (readText rest) := by
  have small : c.toNat < 32 := control
  have low : isLowSurrogate c.toNat = false := by simp [isLowSurrogate]; omega
  have high : isHighSurrogate c.toNat = false := by simp [isHighSurrogate]; omega
  rw [readText, hexUnit_of_lt _ small]
  simp [low, high, Char.ofNat_toNat]

theorem readText_plain {c : Char} (quote : c ≠ '"') (slash : c ≠ '\\') (plain : ¬ c < ' ')
    (rest : List Char) : readText (c :: rest) = consText c (readText rest) := by
  rw [readText]
  · simp [slash, plain]
  all_goals simp_all

theorem readText_escape (c : Char) (rest : List Char) :
    readText (escape c ++ rest) = consText c (readText rest) := by
  unfold escape
  iterate 7
    split
    · rename_i here
      subst here
      rfl
  split
  · rename_i control
    exact readText_control control rest
  · rename_i quote slash _ _ _ _ _ plain
    exact readText_plain quote slash plain rest

theorem readText_quoted (text rest : List Char) :
    readText (text.flatMap escape ++ '"' :: rest) = some (text, rest) := by
  induction text with
  | nil => rfl
  | cons c text ih =>
    rw [List.flatMap_cons, List.append_assoc, readText_escape, ih]
    rfl

theorem quote_append_inj {one other : String} {after later : List Char}
    (same : quote one ++ after = quote other ++ later) : one = other ∧ after = later := by
  simp only [quote, List.cons_append, List.append_assoc, List.cons.injEq, true_and] at same
  have read := congrArg readText same
  rw [List.nil_append, List.nil_append, readText_quoted, readText_quoted] at read
  obtain ⟨texts, rest⟩ := Prod.mk.inj (Option.some.inj read)
  exact ⟨String.toList_injective texts, rest⟩

end BuildArgs.Json
