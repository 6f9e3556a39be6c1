import BuildArgs.Value

/-!
Comparing values. Equality, order and hash look at the contents of values and never at
origins. Values of different kinds stand in the order none, boolean, integer, string, list,
scope; lists and scopes are compared item by item, a scope's item being its name and value.
-/

namespace BuildArgs.Value

mutual

def same : Value → Value → Bool
  | .none _, .none _ => true
  | .boolean _ left, .boolean _ right => left == right
  | .integer _ left, .integer _ right => left == right
  | .string _ left, .string _ right => left == right
  | .list _ left, .list _ right => sameItems left right
  | .scope _ left, .scope _ right => sameEntries left right
  | _, _ => false

def sameItems : List Value → List Value → Bool
  | [], [] => true
  | left :: lefts, right :: rights => left.same right && sameItems lefts rights
  | _, _ => false

def sameEntries : List (String × Value) → List (String × Value) → Bool
  | [], [] => true
  | (name, left) :: lefts, (other, right) :: rights =>
    name == other && left.same right && sameEntries lefts rights
  | _, _ => false

end

theorem sameItems_self {items : List Value} (each : ∀ item ∈ items, item.same item = true) :
    sameItems items items = true := by
  induction items with
  | nil => rfl
  | cons item rest ih =>
    rw [sameItems, each item List.mem_cons_self, Bool.true_and]
    exact ih fun other member => each other (List.mem_cons_of_mem _ member)

theorem sameEntries_self {entries : List (String × Value)}
    (each : ∀ entry ∈ entries, entry.2.same entry.2 = true) :
    sameEntries entries entries = true := by
  induction entries with
  | nil => rfl
  | cons entry rest ih =>
    rw [sameEntries, each entry List.mem_cons_self, beq_self_eq_true, Bool.true_and, Bool.true_and]
    exact ih fun other member => each other (List.mem_cons_of_mem _ member)

theorem same_self (value : Value) : value.same value = true := by
  induction value using Value.induction with
  | none origin => rfl
  | boolean origin value => simp [same]
  | integer origin value => simp [same]
  | string origin value => simp [same]
  | list origin items each => simpa only [same] using sameItems_self each
  | scope origin entries each => simpa only [same] using sameEntries_self each

def rank : Value → Nat
  | .none _ => 0
  | .boolean _ _ => 1
  | .integer _ _ => 2
  | .string _ _ => 3
  | .list _ _ => 4
  | .scope _ _ => 5

mutual

def order : Value → Value → Ordering
  | .none _, .none _ => .eq
  | .boolean _ left, .boolean _ right => compare left right
  | .integer _ left, .integer _ right => compare left.toInt right.toInt
  | .string _ left, .string _ right => compare left right
  | .list _ left, .list _ right => orderItems left right
  | .scope _ left, .scope _ right => orderEntries left right
  | left, right => compare left.rank right.rank

def orderItems : List Value → List Value → Ordering
  | [], [] => .eq
  | [], _ :: _ => .lt
  | _ :: _, [] => .gt
  | left :: lefts, right :: rights => (left.order right).then (orderItems lefts rights)

def orderEntries : List (String × Value) → List (String × Value) → Ordering
  | [], [] => .eq
  | [], _ :: _ => .lt
  | _ :: _, [] => .gt
  | (name, left) :: lefts, (other, right) :: rights =>
    (compare name other).then ((left.order right).then (orderEntries lefts rights))

end

inductive HashPiece where
  | kind (rank : Nat)
  | boolean (value : Bool)
  | integer (value : Int64)
  | string (value : String)
  | count (parts : Nat)
  deriving DecidableEq, Hashable, Repr

mutual

/-- What a value gives to a hash function: its kind and its contents, a list or scope with
the number of its parts in front, so that values give the same only if they are the same. -/
def hashData : Value → List HashPiece
  | .none _ => [.kind 0]
  | .boolean _ value => [.kind 1, .boolean value]
  | .integer _ value => [.kind 2, .integer value]
  | .string _ value => [.kind 3, .string value]
  | .list _ items => .kind 4 :: .count items.length :: hashItems items
  | .scope _ entries => .kind 5 :: .count entries.length :: hashEntries entries

def hashItems : List Value → List HashPiece
  | [] => []
  | item :: rest => item.hashData ++ hashItems rest

def hashEntries : List (String × Value) → List HashPiece
  | [] => []
  | (name, value) :: rest => .string name :: (value.hashData ++ hashEntries rest)

end

instance : BEq Value := ⟨same⟩

instance : Ord Value := ⟨order⟩

instance : Hashable Value := ⟨fun value => hash value.hashData⟩

def sort (values : List Value) : List Value :=
  values.mergeSort fun left right => (left.order right).isLE

end BuildArgs.Value
