/-!
Spelling suggestions. The distance between two texts is the least number of characters to
insert, delete or replace; the computation may stop once every way to go on costs more
than a given bound.
-/

namespace BuildArgs.Spelling

def distance : List Char → List Char → Nat
  | [], right => right.length
  | left, [] => left.length
  | a :: left, b :: right =>
    if a = b then distance left right
    else 1 + min (distance left right) (min (distance left (b :: right)) (distance (a :: left) right))
termination_by left right => left.length + right.length

/-- The cells of the next row after its first one. `diagonal` and `above` belong to the row
before, `last` is the cell to the left. -/
def nextCells (c : Char) : List Char → Nat → List Nat → Nat → List Nat
  | d :: right, diagonal, above :: row, last =>
    let cell := min (min (above + 1) (last + 1)) (diagonal + if c = d then 0 else 1)
    cell :: nextCells c right above row cell
  | _, _, _, _ => []

def nextRow (c : Char) (right : List Char) (row : List Nat) : List Nat :=
  match row with
  | [] => []
  | first :: rest => (first + 1) :: nextCells c right first rest (first + 1)

/-- Runs through the rows and gives up as soon as every cell of one exceeds the bound. -/
def finalCell (bound : Nat) (right : List Char) : List Char → List Nat → Nat
  | [], row => row.getLastD 0
  | c :: left, row =>
    let next := nextRow c right row
    if next.all fun cell => bound < cell then bound + 1 else finalCell bound right left next

def boundedDistance (left right : List Char) (bound : Nat) : Nat :=
  if bound < max left.length right.length - min left.length right.length then bound + 1
  else finalCell bound right left (List.range (right.length + 1))

def greatestDistance : Nat := 3

def nearestFrom (text : String) : Option (String × Nat) → List String → Option (String × Nat)
  | best, [] => best
  | best, candidate :: rest =>
    let found := boundedDistance candidate.toList text.toList greatestDistance
    let better := found ≤ greatestDistance && best.all fun old => found < old.2
    nearestFrom text (if better then some (candidate, found) else best) rest

def nearest (text : String) (candidates : List String) : Option String :=
  (nearestFrom text none candidates).map Prod.fst

end BuildArgs.Spelling
