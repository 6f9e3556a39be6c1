import BuildArgs.Error
import BuildArgs.Host
import BuildArgs.Path
import BuildArgs.Scope
import BuildArgs.Spelling

/-!
The store of build arguments. It holds the values given from outside, a record of every
value ever given, and for each toolchain context the arguments declared there and the
values that the toolchain brings along.

An argument takes its value from the first of these that has one: the toolchain of its
context, the values given from outside, the default in its declaration. The system
arguments count as declared in every context that was set up.
-/

namespace BuildArgs

structure Store where
  host : Host
  /-- The values given from outside, explicit ones and project defaults alike. -/
  active : NameMap Value
  /-- Every explicit value and every value of a toolchain, the last one of each name. -/
  supplied : NameMap Value
  /-- The arguments declared in each context, with their defaults. -/
  declared : SortedMap Toolchain (NameMap Value)
  /-- The values that the toolchain of each context brings along. -/
  toolchainOverrides : SortedMap Toolchain (NameMap Value)
  /-- The files whose contents can change the values. -/
  files : FileSet

namespace Store

def new (host : Host) : Store := ⟨host, ∅, ∅, ∅, ∅, ∅⟩

def addOverride (store : Store) (name : String) (value : Value) : Store :=
  { store with
    active := store.active.insert name value
    supplied := store.supplied.insert name value }

def addOverrides (store : Store) (values : NameMap Value) : Store :=
  { store with
    active := store.active.insertAll values
    supplied := store.supplied.insertAll values }

def addDefaults (store : Store) (values : NameMap Value) : Store :=
  { store with active := store.active.insertAll values }

def override? (store : Store) (name : String) : Option Value := store.active.get? name

def declaredIn (store : Store) (toolchain : Toolchain) : NameMap Value :=
  (store.declared.get? toolchain).getD ∅

def firstDeclaration? (store : Store) (name : String) : Option Value :=
  store.declared.values.findSome? fun declared => declared.get? name

def find? (store : Store) (name : String) : Option Value :=
  (store.supplied.get? name).or (store.firstDeclaration? name)

def toolchains (store : Store) : List Toolchain := store.declared.keys

def applyDeclared (values declared : NameMap Value) (scope : Scope) : Scope :=
  values.entries.foldl
    (fun scope entry =>
      if declared.contains entry.1 then scope.set entry.1 entry.2 entry.2.origin else scope)
    scope

def seedScope (defaults : NameMap Value) (scope : Scope) : Scope :=
  defaults.entries.foldl
    (fun scope entry => (scope.set entry.1 entry.2 none).markUsed entry.1) scope

/-- Prepares the scope of a context: declares the system arguments, gives the arguments
declared so far the values from outside and then those of the toolchain, and keeps the
latter for declarations to come. -/
def setup (store : Store) (scope : Scope) (overrides : NameMap Value) : Store × Scope :=
  let toolchain := scope.toolchain
  let defaults := store.host.systemDefaults
  let declared := (store.declaredIn toolchain).insertAll defaults
  let scope := seedScope defaults scope
  let scope := applyDeclared store.active declared scope
  let scope := applyDeclared overrides declared scope
  ({ store with
      declared := store.declared.insert toolchain declared
      toolchainOverrides := store.toolchainOverrides.insert toolchain overrides
      supplied := store.supplied.insertAll overrides },
    scope)

def recordings (store : Store) (toolchain : Toolchain) (name : String) :
    List (Toolchain × Value) :=
  let own := ((store.declaredIn toolchain).get? name).toList.map fun value => (toolchain, value)
  let others := store.declared.entries.filterMap fun entry =>
    if entry.1 = toolchain then none else (entry.2.get? name).map fun value => (entry.1, value)
  own ++ others

/-- Whether a declaration may stand beside a recorded one: both have the same origin, or the
recorded one is a system argument that nothing declared. -/
def Compatible (name : String) (recorded incoming : Value) : Prop :=
  recorded.origin = none ∧ name ∈ Host.systemNames ∨ recorded.origin = incoming.origin

instance (name : String) (recorded incoming : Value) :
    Decidable (Compatible name recorded incoming) :=
  inferInstanceAs (Decidable (_ ∨ _))

/-- The error for two declarations of a name. The one in the context that comes first in the
order of contexts is the previous one, whichever was recorded first. -/
def duplicate (name : String) (toolchain : Toolchain) (incoming : Value)
    (recording : Toolchain × Value) : ArgError :=
  if compare recording.1 toolchain = .gt then
    .duplicateDeclaration name recording.2.origin incoming.origin
  else .duplicateDeclaration name incoming.origin recording.2.origin

def conflict? (store : Store) (toolchain : Toolchain) (name : String) (incoming : Value) :
    Option ArgError :=
  ((store.recordings toolchain name).find? fun recording =>
    !decide (Compatible name recording.2 incoming)).map (duplicate name toolchain incoming)

def record (declared : NameMap Value) (name : String) (value : Value) : NameMap Value :=
  match declared.get? name with
  | some existing => if existing.origin.isSome then declared else declared.insert name value
  | none => declared.insert name value

/-- The value that an argument with the given default takes in a context. -/
def resolve (store : Store) (toolchain : Toolchain) (name : String) (value : Value) : Value :=
  (((store.toolchainOverrides.get? toolchain).bind fun overrides => overrides.get? name).or
    (store.active.get? name)).getD value

def declareOne (store : Store) (scope : Scope) (name : String) (value : Value) :
    Except ArgError (Store × Scope) :=
  match store.conflict? scope.toolchain name value with
  | some error => .error error
  | none =>
    let declared := record (store.declaredIn scope.toolchain) name value
    let resolved := store.resolve scope.toolchain name value
    .ok ({ store with declared := store.declared.insert scope.toolchain declared },
      (scope.set name resolved resolved.origin).markUsed name)

structure Declared where
  store : Store
  scope : Scope
  error : Option ArgError

def declareEach (store : Store) (scope : Scope) : List (String × Value) → Declared
  | [] => ⟨store, scope, none⟩
  | (name, value) :: rest =>
    match store.declareOne scope name value with
    | .error error => ⟨store, scope, some error⟩
    | .ok (store, scope) => declareEach store scope rest

def declare (store : Store) (scope : Scope) (arguments : NameMap Value) : Declared :=
  declareEach store scope arguments.entries

def isDeclared (store : Store) (name : String) : Bool :=
  store.declared.values.any fun declared => declared.contains name

def declaredNames (store : Store) : List String :=
  store.declared.values.flatMap SortedMap.keys

/-- Checks that every supplied value has a declaration. The first name without one is
reported, with the declared name that is spelled most alike. -/
def verify (store : Store) : Except ArgError Unit :=
  match store.supplied.entries.find? fun entry => !store.isDeclared entry.1 with
  | none => .ok ()
  | some (name, value) =>
    .error (.unusedOverride name value.origin (Spelling.nearest name store.declaredNames))

end Store
end BuildArgs
