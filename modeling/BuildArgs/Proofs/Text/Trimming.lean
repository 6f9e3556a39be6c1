import BuildArgs.Text.Blank
import Mathlib.Data.List.TakeWhile

/-! What trimming leaves of a text: all that stands between the white space at its two ends. -/

namespace BuildArgs.Text

/-- Whether a text is `kept` with nothing but white space around it, and `kept` neither begins nor ends
with white space. -/
structure Trims (text kept : List Char) : Prop where
  around : ∃ front back, text = front ++ kept ++ back ∧
    (∀ c ∈ front, isBlank c = true) ∧ ∀ c ∈ back, isBlank c = true
  first : ∀ c ∈ kept.head?, isBlank c = false
  last : ∀ c ∈ kept.getLast?, isBlank c = false

variable {text kept front back rest : List Char}

theorem head?_dropWhile_isBlank (text : List Char) :
    ∀ c ∈ (text.dropWhile isBlank).head?, isBlank c = false := by
  intro c first
  have clear := List.head?_dropWhile_not isBlank text
  rwa [Option.mem_def.mp first] at clear

theorem dropWhile_append_of_blank (blank : ∀ c ∈ front, isBlank c = true)
    (clear : ∀ c ∈ rest.head?, isBlank c = false) : (front ++ rest).dropWhile isBlank = rest := by
  rw [List.dropWhile_append_of_pos blank]
  cases rest with
  | nil => rfl
  | cons c rest => rw [List.dropWhile_cons_of_neg (by simp [clear c rfl])]

theorem trimEnd_append_of_blank (blank : ∀ c ∈ back, isBlank c = true)
    (clear : ∀ c ∈ kept.getLast?, isBlank c = false) : trimEnd (kept ++ back) = kept := by
  rw [trimEnd, List.reverse_append, dropWhile_append_of_blank, List.reverse_reverse]
  · exact fun c member => blank c (List.mem_reverse.mp member)
  · rwa [List.head?_reverse]

theorem exists_back_of_trimEnd (text : List Char) :
    ∃ back, text = trimEnd text ++ back ∧ ∀ c ∈ back, isBlank c = true := by
  refine ⟨(text.reverse.takeWhile isBlank).reverse, ?_, fun c member => ?_⟩
  · rw [trimEnd, ← List.reverse_append, List.takeWhile_append_dropWhile, List.reverse_reverse]
  · exact List.mem_takeWhile_imp (List.mem_reverse.mp member)

theorem trims_trim (text : List Char) : Trims text (trim text) := by
  obtain ⟨back, ending, blank⟩ := exists_back_of_trimEnd (text.dropWhile isBlank)
  refine ⟨⟨text.takeWhile isBlank, back, ?_, fun c => List.mem_takeWhile_imp, blank⟩, ?_, ?_⟩
  · rw [trim, List.append_assoc, ← ending, List.takeWhile_append_dropWhile]
  · intro c first
    refine head?_dropWhile_isBlank text c ?_
    rw [ending, List.head?_append, ← trim, Option.mem_def.mp first]
    rfl
  · rw [trim, trimEnd, List.getLast?_reverse]
    exact head?_dropWhile_isBlank _

theorem trim_eq_iff : trim text = kept ↔ Trims text kept := by
  constructor
  · rintro rfl
    exact trims_trim text
  · rintro ⟨⟨front, back, rfl, before, after⟩, first, last⟩
    cases kept with
    | nil =>
      have blank : ∀ c ∈ front ++ back, isBlank c = true := List.forall_mem_append.mpr ⟨before, after⟩
      have none : (front ++ back).dropWhile isBlank = [] := List.dropWhile_eq_nil_iff.mpr blank
      rw [trim, List.append_nil, none]
      rfl
    | cons c kept =>
      have start : ∀ d ∈ (c :: kept ++ back).head?, isBlank d = false := first
      rw [trim, List.append_assoc, dropWhile_append_of_blank before start,
        trimEnd_append_of_blank after last]

end BuildArgs.Text
