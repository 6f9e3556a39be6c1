import BuildArgs.Json.Record

/-!
Identities of toolchain contexts. The order puts every default context before every other
one and goes by label among contexts of the same kind, so it is total even when several
contexts claim to be the default.
-/

namespace BuildArgs

structure Toolchain where
  label : String
  isDefault : Bool
  deriving DecidableEq, Repr

namespace Toolchain

def order : Toolchain → Toolchain → Ordering :=
  compareLex (compareOn fun toolchain => !toolchain.isDefault) (compareOn Toolchain.label)

instance : Ord Toolchain := ⟨order⟩

instance : Std.TransOrd Toolchain :=
  inferInstanceAs (Std.TransCmp (compareLex _ _))

instance : Std.LawfulEqOrd Toolchain where
  eq_of_compare := by
    intro left right same
    change order left right = .eq at same
    simp only [order, compareLex, compareOn, Ordering.then_eq_eq] at same
    obtain ⟨leftLabel, leftDefault⟩ := left
    obtain ⟨rightLabel, rightDefault⟩ := right
    have flags : (!leftDefault) = !rightDefault := Std.LawfulEqOrd.eq_of_compare same.1
    have labels : leftLabel = rightLabel := Std.LawfulEqOrd.eq_of_compare same.2
    rw [labels, Bool.not_inj flags]

def text (toolchain : Toolchain) : String :=
  if toolchain.label.isEmpty then "<default>" else toolchain.label

def toJson (toolchain : Toolchain) : Json :=
  .object [("label", .string toolchain.label), ("is_default", .boolean toolchain.isDefault)]

def ofJson? (text : String) : Option Toolchain := do
  let record ← Json.readRecord ["label", "is_default"] text
  return ⟨← record.text? "label", ← record.flag? "is_default"⟩

end Toolchain
end BuildArgs
