import BuildArgs.SortedMap
import BuildArgs.SystemString

/-!
File paths, compared by what they name and not by how they are spelled: repeated and
trailing slashes and inner dots do not count. A set of paths keeps one spelling of each.
-/

namespace BuildArgs

namespace Path

/-- A part of a path. A single dot counts only where a relative path begins with it. -/
inductive Component where
  | root
  | here
  | parent
  | name (word : SystemString)
  deriving DecidableEq, Repr

def slash : UInt8 := 0x2f

def dot : UInt8 := 0x2e

namespace Component

def rank : Component → Nat
  | .root => 0
  | .here => 1
  | .parent => 2
  | .name _ => 3

def nameBytes : Component → List UInt8
  | .name word => word.bytes
  | _ => []

def order : Component → Component → Ordering :=
  compareLex (compareOn rank) (compareOn nameBytes)

instance : Ord Component := ⟨order⟩

instance : Std.TransOrd Component :=
  inferInstanceAs (Std.TransCmp (compareLex _ _))

instance : Std.LawfulEqOrd Component where
  eq_of_compare := by
    intro left right same
    change order left right = .eq at same
    simp only [order, compareLex, compareOn, Ordering.then_eq_eq] at same
    have ranks : left.rank = right.rank := Std.LawfulEqOrd.eq_of_compare same.1
    have names : left.nameBytes = right.nameBytes := Std.LawfulEqOrd.eq_of_compare same.2
    cases left <;> cases right <;> simp_all [rank, nameBytes, SystemString.ext_iff]

def ofPiece? (piece : List UInt8) : Option Component :=
  if piece = [] ∨ piece = [dot] then none
  else if piece = [dot, dot] then some .parent
  else some (.name ⟨piece⟩)

end Component

def pieces : List UInt8 → List (List UInt8)
  | [] => [[]]
  | byte :: rest =>
    match pieces rest with
    | [] => [[byte]]
    | piece :: more => if byte = slash then [] :: piece :: more else (byte :: piece) :: more

def start (path : SystemString) : List Component :=
  if path.bytes.head? = some slash then [.root]
  else if (pieces path.bytes).head? = some [dot] then [.here]
  else []

def components (path : SystemString) : List Component :=
  start path ++ (pieces path.bytes).filterMap Component.ofPiece?

end Path

/-- A set of paths that are texts, in the order of their components, each with the spelling given
last. -/
abbrev FileSet := SortedMap (List Path.Component) String

namespace FileSet

def ofPaths (paths : List String) : FileSet :=
  .ofList (paths.map fun path : String => (Path.components path, path))

def paths (files : FileSet) : List String := files.values

end FileSet
end BuildArgs
