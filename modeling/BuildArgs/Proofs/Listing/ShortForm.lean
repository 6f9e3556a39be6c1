import BuildArgs.Listing
import BuildArgs.Proofs.Value.Notation

/-! The short form of a listing determines the names and the current values, if all names are
identifiers. -/

namespace BuildArgs

open Text (Delimited)
open Value (bareEntry entryText)

namespace Listing

def shown (entry : String × ListedArgument) : String × Value := (entry.1, entry.2.current)

/-- Whether an argument has an identifier as its name, and all names in its current value are such. -/
def WellNamedEntry (entry : String × ListedArgument) : Prop :=
  Assignment.isIdentifier entry.1.toList = true ∧ entry.2.current.WellNamed

instance (entry : String × ListedArgument) : Decidable (WellNamedEntry entry) :=
  inferInstanceAs (Decidable (_ ∧ _))

def WellNamed (listing : Listing) : Prop := ∀ entry ∈ listing.entries, WellNamedEntry entry

instance (listing : Listing) : Decidable listing.WellNamed :=
  inferInstanceAs (Decidable (∀ entry ∈ listing.entries, WellNamedEntry entry))

theorem map_shown_inj {first second : List (String × ListedArgument)}
    (named : ∀ entry ∈ first, WellNamedEntry entry) (also : ∀ entry ∈ second, WellNamedEntry entry)
    (same : (first.flatMap fun entry => entryText (shown entry) ++ ['\n']) =
      second.flatMap fun entry => entryText (shown entry) ++ ['\n']) :
    first.map (bareEntry ∘ shown) = second.map (bareEntry ∘ shown) := by
  induction first generalizing second with
  | nil =>
    cases second with
    | nil => rfl
    | cons other others => simp at same
  | cons entry rest ih =>
    obtain ⟨⟨name, value⟩, named⟩ := List.forall_mem_cons.mp named
    cases second with
    | nil => simp at same
    | cons other others =>
      obtain ⟨⟨otherName, otherValue⟩, also⟩ := List.forall_mem_cons.mp also
      simp only [List.flatMap_cons, List.append_assoc, List.cons_append, List.nil_append] at same
      obtain ⟨line, same⟩ := Value.separates_entry name otherName (Value.separates value otherValue)
        (Text.delimited_cons rfl _) (Text.delimited_cons rfl _) same
      rw [List.map_cons, List.map_cons, ih named also (List.cons.inj same).2, Function.comp_apply,
        line, Function.comp_apply]

/-- Listings with the same short form have the same names, each with equal current values. -/
theorem short_determines {first second : Listing} (named : first.WellNamed)
    (also : second.WellNamed) (same : first.short = second.short) :
    first.keys = second.keys ∧ ∀ name one other, first.get? name = some one →
      second.get? name = some other → (one.current == other.current) = true := by
  have lines := map_shown_inj named also (String.ofList_injective same)
  have values : first.map (fun argument => argument.current.bare) =
      second.map (fun argument => argument.current.bare) := SortedMap.eq_of_entries lines
  constructor
  · have keys := congrArg SortedMap.keys values
    rwa [SortedMap.keys_map, SortedMap.keys_map] at keys
  · intro name one other found present
    have here := congrArg (fun table => SortedMap.get? table name) values
    simp only [SortedMap.get?_map, found, present, Option.map_some, Option.some.injEq] at here
    exact Value.beq_iff.mpr here

def markedValue (place : Option Origin) : Value :=
  .list place [.string place "a\"], $x\n", .scope none [("b", .integer place (-1))], .none place]

def markedDefault : Listing := .ofList [("x", ⟨markedValue none, false, none⟩)]

def markedOverride : Listing :=
  .ofList [("x", ⟨.boolean none true, true, some (markedValue (some (.ofFile "f")))⟩)]

theorem short_determines_marked :
    markedDefault.WellNamed ∧ markedOverride.WellNamed ∧
      markedDefault.short = markedOverride.short ∧ markedDefault.keys = markedOverride.keys ∧
      ∀ name one other, markedDefault.get? name = some one → markedOverride.get? name = some other →
        (one.current == other.current) = true := by
  have named : markedDefault.WellNamed := by decide +kernel
  have also : markedOverride.WellNamed := by decide +kernel
  have same : markedDefault.short = markedOverride.short := by decide +kernel
  exact ⟨named, also, same, short_determines named also same⟩

end Listing
end BuildArgs
