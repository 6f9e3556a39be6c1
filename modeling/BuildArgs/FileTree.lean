import BuildArgs.Path
import BuildArgs.Source

/-!
Files and directories held in memory, and how a path is followed through them. A path is
followed part by part, and the first part that cannot be followed decides the fault.
-/

namespace BuildArgs

/-- The entries below a directory, by the names that lead to them. An entry without bytes is
a directory. -/
structure FileTree where
  entries : List (List SystemString × Option (List UInt8))

namespace FileTree

def empty : FileTree := ⟨[]⟩

def entry? (tree : FileTree) (place : List SystemString) : Option (Option (List UInt8)) :=
  if place.isEmpty then some none else tree.entries.lookup place

def missingParents (tree : FileTree) (place : List SystemString) :
    List (List SystemString × Option (List UInt8)) :=
  ((List.range place.length).map fun count => (place.take count, none)).filter fun parent =>
    (tree.entry? parent.1).isNone

def names (path : SystemString) : List SystemString :=
  (Path.components path).filterMap fun part =>
    match part with
    | .name word => some word
    | _ => none

def add (tree : FileTree) (path : SystemString) (content : Option (List UInt8)) : FileTree :=
  let place := names path
  ⟨(place, content) :: (tree.missingParents place ++ tree.entries)⟩

def longestName : Nat := 255

def pathLimit : Nat := 4096

/-- Follows the pieces of a path from a place whose entry is `content`. Two dots lead up; of
the directories above the top no entries are known. -/
def follow (tree : FileTree) (place : List SystemString) (content : Option (List UInt8)) :
    List (List UInt8) → Except ReadFault (Option (List UInt8))
  | [] => .ok content
  | piece :: rest =>
    match content with
    | some _ => .error .notADirectory
    | none =>
      if piece = [] ∨ piece = [Path.dot] then follow tree place none rest
      else if piece = [Path.dot, Path.dot] then
        if place.isEmpty then follow empty [] none rest
        else follow tree place.dropLast none rest
      else if longestName < piece.length then .error .nameTooLong
      else
        let next := place ++ [⟨piece⟩]
        match tree.entry? next with
        | none => .error .missing
        | some content => follow tree next content rest

/-- The bytes of the file at a path that is relative to the top. Nothing but the root itself is
known to be at the place of an absolute path. -/
def read (tree : FileTree) : ReadFile := fun path =>
  if path.isEmpty then .error .missing
  else if path.bytes.contains 0 then .error .zeroInName
  else if pathLimit ≤ path.bytes.length then .error .nameTooLong
  else
    let start := if path.bytes.head? = some Path.slash then empty else tree
    match start.follow [] none (Path.pieces path.bytes) with
    | .error fault => .error fault
    | .ok none => .error .isADirectory
    | .ok (some bytes) => .ok bytes

end FileTree
end BuildArgs
