import BuildArgs.Origin
import BuildArgs.SortedMap

/-!
Argument values. Every value, also one inside a list or a scope, carries the origin that
produced it, if there is one.
-/

namespace BuildArgs

/-- A value with its origin. The entries of a scope stand in ascending order of their names,
each name once. -/
inductive Value where
  | none (origin : Option Origin)
  | boolean (origin : Option Origin) (value : Bool)
  | integer (origin : Option Origin) (value : Int64)
  | string (origin : Option Origin) (value : String)
  | list (origin : Option Origin) (items : List Value)
  | scope (origin : Option Origin) (entries : List (String × Value))
  deriving Inhabited

namespace Value

def origin : Value → Option Origin
  | .none origin => origin
  | .boolean origin _ => origin
  | .integer origin _ => origin
  | .string origin _ => origin
  | .list origin _ => origin
  | .scope origin _ => origin

def withOrigin (origin : Option Origin) : Value → Value
  | .none _ => .none origin
  | .boolean _ value => .boolean origin value
  | .integer _ value => .integer origin value
  | .string _ value => .string origin value
  | .list _ items => .list origin items
  | .scope _ entries => .scope origin entries

def kindName : Value → String
  | .none _ => "none"
  | .boolean _ _ => "boolean"
  | .integer _ _ => "integer"
  | .string _ _ => "string"
  | .list _ _ => "list"
  | .scope _ _ => "scope"

def boolean? : Value → Option Bool
  | .boolean _ value => some value
  | _ => Option.none

def integer? : Value → Option Int64
  | .integer _ value => some value
  | _ => Option.none

def string? : Value → Option String
  | .string _ value => some value
  | _ => Option.none

def list? : Value → Option (List Value)
  | .list _ items => some items
  | _ => Option.none

def ofEntries (origin : Option Origin) (entries : List (String × Value)) : Value :=
  .scope origin (SortedMap.ofList entries).entries

@[simp] theorem origin_withOrigin (place : Option Origin) (value : Value) :
    (value.withOrigin place).origin = place := by
  cases value <;> rfl

@[simp] theorem withOrigin_withOrigin (first last : Option Origin) (value : Value) :
    (value.withOrigin first).withOrigin last = value.withOrigin last := by
  cases value <;> rfl

@[simp] theorem withOrigin_origin (value : Value) : value.withOrigin value.origin = value := by
  cases value <;> rfl

theorem induction {motive : Value → Prop}
    (none : ∀ origin, motive (.none origin))
    (boolean : ∀ origin value, motive (.boolean origin value))
    (integer : ∀ origin value, motive (.integer origin value))
    (string : ∀ origin value, motive (.string origin value))
    (list : ∀ origin items, (∀ item ∈ items, motive item) → motive (.list origin items))
    (scope : ∀ origin entries, (∀ entry ∈ entries, motive entry.2) →
      motive (.scope origin entries)) (value : Value) : motive value :=
  match value with
  | .none origin => none origin
  | .boolean origin value => boolean origin value
  | .integer origin value => integer origin value
  | .string origin value => string origin value
  | .list origin items => list origin items fun item _ =>
    induction none boolean integer string list scope item
  | .scope origin entries => scope origin entries fun entry _ =>
    induction none boolean integer string list scope entry.2
termination_by sizeOf value
decreasing_by
  · simp only [Value.list.sizeOf_spec]
    have smaller := List.sizeOf_lt_of_mem ‹item ∈ items›
    omega
  · simp only [Value.scope.sizeOf_spec]
    have smaller := List.sizeOf_lt_of_mem ‹entry ∈ entries›
    have part : sizeOf entry = 1 + sizeOf entry.1 + sizeOf entry.2 := by cases entry; rfl
    omega

end Value
end BuildArgs
