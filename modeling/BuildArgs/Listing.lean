import BuildArgs.Store
import BuildArgs.Value.Text

/-!
The view of all declared arguments with their defaults and the values given for them. It
is for display and plays no part in resolving values.
-/

namespace BuildArgs

structure ListedArgument where
  defaultValue : Value
  hasOverride : Bool
  overriding : Option Value

abbrev Listing := NameMap ListedArgument

namespace ListedArgument

def current (argument : ListedArgument) : Value := argument.overriding.getD argument.defaultValue

def toJson (argument : ListedArgument) : Json :=
  .object (("default_value", argument.defaultValue.toJson) ::
    ("has_override", .boolean argument.hasOverride) ::
    Json.optional "override_value" (argument.overriding.map Value.toJson))

def originLine (origin : Option Origin) (missing : String) : String :=
  match origin with
  | some origin => "      From " ++ origin.text ++ "\n"
  | none => "      (" ++ missing ++ ")\n"

def details (argument : ListedArgument) : String :=
  let heading :=
    match argument.overriding with
    | some value =>
      "    Current value = " ++ value.text ++ "\n" ++
        originLine value.origin "Internally set; try `build-args list --args-file`." ++
        "    Overridden from the default = " ++ argument.defaultValue.text ++ "\n"
    | none => "    Current value (from the default) = " ++ argument.defaultValue.text ++ "\n"
  heading ++ originLine argument.defaultValue.origin "Internally set; no declaration."

end ListedArgument

namespace Listing

/-- The declared arguments with the default of the first context that declares each, and the
values given from outside. -/
def ofStore (store : Store) : Listing :=
  let defaults : NameMap Value :=
    store.declared.values.foldr (fun declared later => later.insertAll declared) ∅
  defaults.mapWithKey fun name value =>
    let overriding := store.active.get? name
    ⟨value, overriding.isSome, overriding⟩

theorem get?_ofStore (store : Store) (name : String) :
    (ofStore store).get? name = (store.firstDeclaration? name).map fun value =>
      ⟨value, (store.active.get? name).isSome, store.active.get? name⟩ := by
  have defaults : ∀ contexts : List (NameMap Value),
      (contexts.foldr (fun declared (later : NameMap Value) => later.insertAll declared) ∅).get?
        name = contexts.findSome? fun declared => declared.get? name := by
    intro contexts
    induction contexts with
    | nil => rfl
    | cons declared rest ih =>
      rw [List.foldr_cons, SortedMap.get?_insertAll, ih, List.findSome?_cons]
      cases declared.get? name <;> rfl
  rw [ofStore, SortedMap.get?_mapWithKey, defaults]
  rfl

def shortChars (listing : Listing) : List Char :=
  listing.entries.flatMap fun entry =>
    entry.1.toList ++ " = ".toList ++ entry.2.current.chars ++ ['\n']

def short (listing : Listing) : String := String.ofList listing.shortChars

def long (listing : Listing) : String :=
  String.join (listing.entries.map fun entry => entry.1 ++ "\n" ++ entry.2.details ++ "\n")

def toJson (listing : Listing) : Json :=
  .object (listing.entries.map fun entry => (entry.1, entry.2.toJson))

end Listing
end BuildArgs
