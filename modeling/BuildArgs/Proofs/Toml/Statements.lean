import BuildArgs.Proofs.Toml.Values

/-! The statements of a text. Every step of their reader takes a character at least, so a text has the
same statements for every number of steps beyond its length. -/

namespace BuildArgs.Toml

variable {text rest : List Char}

theorem suffix_of_readHeader {statement : Statement}
    (found : readHeader text = some (statement, rest)) : rest <:+ text := by
  unfold readHeader at found
  split at found
  all_goals
    simp only [Option.bind_eq_bind, Option.bind_eq_some_iff, Prod.exists] at found
    obtain ⟨path, after, key, later, closed, same⟩ := found
    cases same
  · exact (suffix_of_expectAll closed).trans ((suffix_of_keyParts key).trans (List.suffix_cons _ _))
  · exact (suffix_of_expect closed).trans (suffix_of_keyParts key)

theorem shorter_of_readStatement {statement : Statement}
    (found : readStatement text = some (statement, rest)) :
    rest <:+ text ∧ rest.length < text.length := by
  unfold readStatement at found
  split at found
  · have inside := suffix_of_readHeader found
    exact ⟨inside.trans (List.suffix_cons _ _), Nat.lt_succ_of_le inside.length_le⟩
  · obtain ⟨⟨assignment, later⟩, read, same⟩ := Option.map_eq_some_iff.mp found
    cases same
    exact shorter_of_readAssignment (leaves_readValue _) read

theorem readStatements_of_lt {steps others : Nat} (enough : text.length < steps)
    (also : text.length < others) : readStatements steps text = readStatements others text := by
  induction steps generalizing text others with
  | zero => exact absurd enough (Nat.not_lt_zero _)
  | succ steps ih =>
    cases others with
    | zero => exact absurd also (Nat.not_lt_zero _)
    | succ others =>
      have inside := (skipBlank_suffix text).length_le
      have shorter {rest : List Char} (fewer : rest.length < (skipBlank text).length) :
          readStatements steps rest = readStatements others rest :=
        ih (by omega) (by omega)
      simp only [readStatements]
      split
      · rfl
      · rename_i comment start
        refine Option.bind_congr fun rest ended => shorter ?_
        have after := (suffix_of_lineEnd ended).trans (List.dropWhile_suffix _)
        exact start ▸ Nat.lt_succ_of_le after.length_le
      · rename_i start
        exact shorter (start ▸ Nat.lt_succ_self _)
      · rename_i after start
        refine Option.bind_congr fun rest ended => shorter ?_
        exact start ▸ Nat.lt_succ_of_le (suffix_of_expect ended).length_le
      · refine Option.bind_congr fun read found => ?_
        refine Option.bind_congr fun rest ended => ?_
        rw [shorter]
        have fewer := (shorter_of_readStatement found).2
        exact Nat.lt_of_le_of_lt (suffix_of_trailing ended).length_le fewer

def statements (text : List Char) : Option (List Statement) :=
  readStatements (text.length + 1) text

theorem readStatements_eq {steps : Nat} (enough : text.length < steps) :
    readStatements steps text = statements text :=
  readStatements_of_lt enough (Nat.lt_succ_self _)

@[simp] theorem statements_nil : statements [] = some [] := rfl

theorem statements_of_trailing (ended : trailing text = some rest) :
    statements text = statements rest := by
  have inside := (skipBlank_suffix text).length_le
  unfold trailing at ended
  simp only [statements, readStatements]
  split at ended
  · rename_i comment start
    simp only [start, ended, Option.bind_some]
    have after := ((suffix_of_lineEnd ended).trans (List.dropWhile_suffix _)).length_le
    refine readStatements_eq ?_
    rw [start, List.length_cons] at inside
    omega
  · rcases lineEnd_eq_some_iff.mp ended with ⟨start, rfl⟩ | ended
    · rw [start]
      rfl
    · rcases lineBreak_eq_some_iff.mp ended with start | start
      all_goals
        simp only [start, expect, ↓reduceIte, Option.bind_some]
        refine readStatements_eq ?_
        simp only [start, List.length_cons] at inside
        omega

/-- Texts that say nothing: blanks, line breaks and comments. -/
inductive Insignificant : List Char → Prop
  | ended : Insignificant []
  | blank {c : Char} {rest : List Char} (blank : isBlank c) (later : Insignificant rest) :
      Insignificant (c :: rest)
  | newline {text rest : List Char} (line : lineBreak text = some rest) (later : Insignificant rest) :
      Insignificant text
  | comment {words rest : List Char} (plain : ∀ c ∈ words, isPlain c) (later : Insignificant rest) :
      Insignificant ('#' :: words ++ rest)

theorem insignificant_of_skipBlank (later : Insignificant (skipBlank text)) : Insignificant text := by
  induction text with
  | nil => exact later
  | cons c text ih =>
    rw [skipBlank, List.dropWhile_cons] at later
    split at later
    · rename_i blank
      exact .blank blank (ih later)
    · exact later

theorem insignificant_of_lineEnd (ended : lineEnd text = some rest) (later : Insignificant rest) :
    Insignificant text := by
  rcases lineEnd_eq_some_iff.mp ended with ⟨rfl, _⟩ | line
  · exact .ended
  · exact .newline line later

theorem insignificant_of_readStatements {steps : Nat}
    (none : readStatements steps text = some []) :
    Insignificant text := by
  induction steps generalizing text with
  | zero => cases none
  | succ steps ih =>
    apply insignificant_of_skipBlank
    simp only [readStatements] at none
    split at none
    · rename_i start
      exact start ▸ .ended
    · rename_i comment start
      obtain ⟨rest, ended, later⟩ := Option.bind_eq_some_iff.mp none
      have plain : ∀ c ∈ comment.takeWhile isPlain, isPlain c = true :=
        List.all_eq_true.mp List.all_takeWhile
      have whole := Insignificant.comment plain (insignificant_of_lineEnd ended (ih later))
      rw [List.cons_append, List.takeWhile_append_dropWhile] at whole
      exact start ▸ whole
    · rename_i start
      exact start ▸ .newline rfl (ih none)
    · rename_i after start
      obtain ⟨rest, ended, later⟩ := Option.bind_eq_some_iff.mp none
      refine start ▸ .newline ?_ (ih later)
      rw [expect_eq_some_iff.mp ended]
      rfl
    · simp only [Option.bind_eq_bind, Option.bind_eq_some_iff] at none
      obtain ⟨_, _, _, _, _, _, same⟩ := none
      cases same

end BuildArgs.Toml
