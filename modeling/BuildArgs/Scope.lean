import BuildArgs.SortedMap
import BuildArgs.Toolchain
import BuildArgs.Value

/-!
The root scope of a toolchain context: the values that its arguments resolved to, and
which of them count as used.
-/

namespace BuildArgs

structure Slot where
  value : Value
  used : Bool

structure Scope where
  toolchain : Toolchain
  slots : NameMap Slot

namespace Scope

def new (toolchain : Toolchain) : Scope := ⟨toolchain, ∅⟩

/-- Sets a name to a value attributed to `origin`. A new name is unused, and a name that was
set before keeps its flag. -/
def set (scope : Scope) (name : String) (value : Value) (origin : Option Origin) : Scope :=
  let used := ((scope.slots.get? name).map Slot.used).getD false
  { scope with slots := scope.slots.insert name ⟨value.withOrigin origin, used⟩ }

def markUsed (scope : Scope) (name : String) : Scope :=
  match scope.slots.get? name with
  | some slot => { scope with slots := scope.slots.insert name { slot with used := true } }
  | none => scope

def get? (scope : Scope) (name : String) : Option Value :=
  (scope.slots.get? name).map Slot.value

def isUsed (scope : Scope) (name : String) : Bool :=
  ((scope.slots.get? name).map Slot.used).getD false

def unusedNames (scope : Scope) : List String :=
  (scope.slots.filter fun _ slot => !slot.used).keys

def values (scope : Scope) : NameMap Value := scope.slots.map Slot.value

def size (scope : Scope) : Nat := scope.slots.size

def isEmpty (scope : Scope) : Bool := scope.slots.isEmpty

@[simp] theorem toolchain_set (scope : Scope) (name : String) (value : Value)
    (origin : Option Origin) : (scope.set name value origin).toolchain = scope.toolchain := rfl

@[simp] theorem toolchain_markUsed (scope : Scope) (name : String) :
    (scope.markUsed name).toolchain = scope.toolchain := by
  unfold markUsed; split <;> rfl

theorem get?_set (scope : Scope) (name other : String) (value : Value) (origin : Option Origin) :
    (scope.set name value origin).get? other =
      if other = name then some (value.withOrigin origin) else scope.get? other := by
  by_cases same : other = name <;> simp [get?, set, SortedMap.get?_insert, same]

theorem isUsed_set (scope : Scope) (name other : String) (value : Value)
    (origin : Option Origin) : (scope.set name value origin).isUsed other = scope.isUsed other := by
  by_cases same : other = name <;> simp [isUsed, set, SortedMap.get?_insert, same]

theorem get?_markUsed (scope : Scope) (name other : String) :
    (scope.markUsed name).get? other = scope.get? other := by
  unfold markUsed
  split
  · rename_i slot found
    by_cases same : other = name <;> simp [get?, SortedMap.get?_insert, same, found]
  · rfl

theorem isUsed_markUsed (scope : Scope) (name other : String) :
    (scope.markUsed name).isUsed other =
      ((other == name && (scope.get? name).isSome) || scope.isUsed other) := by
  unfold markUsed
  split
  · rename_i slot found
    by_cases same : other = name <;>
      simp [isUsed, get?, SortedMap.get?_insert, same, found]
  · rename_i missing
    simp [isUsed, get?, missing]

theorem isUsed_set_markUsed (scope : Scope) (name other : String) (value : Value)
    (origin : Option Origin) :
    ((scope.set name value origin).markUsed name).isUsed other =
      (decide (other = name) || scope.isUsed other) := by
  by_cases same : other = name <;> simp [isUsed_markUsed, get?_set, isUsed_set, same]

end Scope
end BuildArgs
