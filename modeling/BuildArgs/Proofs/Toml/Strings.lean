import BuildArgs.Toml.Quoted
import BuildArgs.Proofs.Toml.Remainder

/-! What the readers of strings leave. What a string says is shorter than what it is written as, since
the marks around it do not count and every escape stands for one character. -/

namespace BuildArgs.Toml

variable {text rest : List Char}

def Fits (text chars rest : List Char) : Prop :=
  rest <:+ text ∧ chars.length + rest.length < text.length

theorem Fits.skip {chars : List Char} (front : List Char) (fits : Fits text chars rest) :
    Fits (front ++ text) chars rest := by
  refine ⟨fits.1.trans (List.suffix_append _ _), ?_⟩
  rw [List.length_append]
  exact Nat.lt_of_lt_of_le fits.2 (Nat.le_add_left _ _)

theorem fits_of_consRead {c first : Char} {chars : List Char} {read : Option (List Char × List Char)}
    (front : List Char) (found : consRead c read = some (chars, rest))
    (fits : ∀ {chars rest : List Char}, read = some (chars, rest) → Fits text chars rest) :
    Fits (first :: front ++ text) chars rest := by
  obtain ⟨⟨more, later⟩, read, same⟩ := Option.map_eq_some_iff.mp found
  cases same
  obtain ⟨suffix, shorter⟩ := (fits read).skip front
  refine ⟨suffix.trans (List.suffix_cons _ _), ?_⟩
  simp only [List.cons_append, List.length_cons]
  omega

theorem fits_closing {chars : List Char} (front : List Char) (fewer : chars.length < front.length) :
    Fits (front ++ text) chars text :=
  ⟨List.suffix_append _ _, by rw [List.length_append]; omega⟩

theorem fits_basicString {chars : List Char} (found : basicString text = some (chars, rest)) :
    Fits text chars rest := by
  fun_induction basicString text generalizing chars rest with
  | case1 text =>
    cases found
    exact fits_closing ['"'] (by decide)
  | case2 a b c d text ih =>
    obtain ⟨char, _, read⟩ := Option.bind_eq_some_iff.mp found
    exact fits_of_consRead ['u', a, b, c, d] read ih
  | case3 a b c d e f g h text ih =>
    obtain ⟨char, _, read⟩ := Option.bind_eq_some_iff.mp found
    exact fits_of_consRead ['U', a, b, c, d, e, f, g, h] read ih
  | case4 c text _ _ ih =>
    obtain ⟨char, _, read⟩ := Option.bind_eq_some_iff.mp found
    exact fits_of_consRead [c] read ih
  | case5 c text _ _ _ _ _ ih => exact fits_of_consRead [] found ih
  | case6 => cases found
  | case7 => cases found

theorem fits_literalString {chars : List Char} (found : literalString text = some (chars, rest)) :
    Fits text chars rest := by
  fun_induction literalString text generalizing chars rest with
  | case1 text =>
    cases found
    exact fits_closing ['\''] (by decide)
  | case2 c text _ _ ih => exact fits_of_consRead [] found ih
  | case3 => cases found
  | case4 => cases found

theorem fits_basicLines {folding : Bool} {chars : List Char}
    (found : basicLines folding text = some (chars, rest)) : Fits text chars rest := by
  fun_induction basicLines folding text generalizing chars rest with
  | case1 folding text =>
    cases found
    exact fits_closing ['"', '"', '"', '"', '"'] (by decide)
  | case2 folding text =>
    cases found
    exact fits_closing ['"', '"', '"', '"'] (by decide)
  | case3 folding text =>
    cases found
    exact fits_closing ['"', '"', '"'] (by decide)
  | case4 text ih => exact (ih found).skip ['\r', '\n']
  | case5 folding text _ ih => exact fits_of_consRead ['\n'] found ih
  | case6 folding a b c d text ih =>
    obtain ⟨char, _, read⟩ := Option.bind_eq_some_iff.mp found
    exact fits_of_consRead ['u', a, b, c, d] read ih
  | case7 folding a b c d e f g h text ih =>
    obtain ⟨char, _, read⟩ := Option.bind_eq_some_iff.mp found
    exact fits_of_consRead ['U', a, b, c, d, e, f, g, h] read ih
  | case8 folding text _ _ _ ih => exact (ih found).skip ['\\']
  | case9 folding c text _ _ _ ih =>
    obtain ⟨char, _, read⟩ := Option.bind_eq_some_iff.mp found
    exact fits_of_consRead [c] read ih
  | case11 folding c text _ _ _ _ _ _ _ _ ih => exact (ih found).skip [c]
  | case12 folding c text _ _ _ _ _ _ _ _ _ ih => exact fits_of_consRead [] found ih
  | _ => cases found

theorem fits_literalLines {chars : List Char} (found : literalLines text = some (chars, rest)) :
    Fits text chars rest := by
  fun_induction literalLines text generalizing chars rest with
  | case1 text =>
    cases found
    exact fits_closing ['\'', '\'', '\'', '\'', '\''] (by decide)
  | case2 text =>
    cases found
    exact fits_closing ['\'', '\'', '\'', '\''] (by decide)
  | case3 text =>
    cases found
    exact fits_closing ['\'', '\'', '\''] (by decide)
  | case4 text ih => exact fits_of_consRead ['\n'] found ih
  | case5 c text _ _ _ _ _ ih => exact fits_of_consRead [] found ih
  | _ => cases found

theorem Fits.of_dropFirstBreak {chars : List Char} (fits : Fits (dropFirstBreak text) chars rest) :
    Fits text chars rest := by
  have inside : dropFirstBreak text <:+ text := by
    unfold dropFirstBreak
    cases found : lineBreak text with
    | none => exact List.suffix_refl _
    | some after => exact suffix_of_lineBreak found
  exact ⟨fits.1.trans inside, Nat.lt_of_lt_of_le fits.2 inside.length_le⟩

theorem fits_readString {chars : List Char} (found : readString text = some (chars, rest)) :
    Fits text chars rest := by
  unfold readString at found
  split at found
  · exact (fits_basicLines found).of_dropFirstBreak.skip ['"', '"', '"']
  · exact (fits_basicString found).skip ['"']
  · exact (fits_literalLines found).of_dropFirstBreak.skip ['\'', '\'', '\'']
  · exact (fits_literalString found).skip ['\'']
  · cases found

end BuildArgs.Toml
