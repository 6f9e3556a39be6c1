import Mathlib
import BuildArgs.Listing
import BuildArgs.Proofs.Session.Audit
import BuildArgs.Proofs.Store.DeclarationOrder

/-! The listing and the look-up across all sources. Both take the declaration of the least context
that has one, so they agree on every name that nothing supplies a value for. -/

namespace BuildArgs

/-- What the listing should say about a declared argument. -/
structure ListedArgument.Describes (argument : ListedArgument) (store : Store) (name : String) :
    Prop where
  first : ∃ toolchain, (store.declaredIn toolchain).get? name = some argument.defaultValue ∧
    ∀ other, (store.declaredIn other).contains name = true →
      other = toolchain ∨ compare toolchain other = .lt
  overriding : argument.overriding = store.override? name
  hasOverride : argument.hasOverride = true ↔ argument.overriding.isSome = true

namespace Listing

variable {store : Store} {name : String} {argument : ListedArgument}

theorem contains_ofStore_iff :
    (ofStore store).contains name = true ↔
      ∃ toolchain, (store.declaredIn toolchain).contains name = true := by
  rw [SortedMap.contains, get?_ofStore, Option.isSome_map, Store.isSome_firstDeclaration?_iff]

theorem describes_of_get? (listed : (ofStore store).get? name = some argument) :
    argument.Describes store name := by
  rw [get?_ofStore] at listed
  obtain ⟨value, found, rfl⟩ := Option.map_eq_some_iff.mp listed
  exact ⟨Store.exists_least_of_firstDeclaration? found, rfl, Iff.rfl⟩

theorem defaultValue_get?_ofStore (store : Store) (name : String) :
    ((ofStore store).get? name).map ListedArgument.defaultValue = store.firstDeclaration? name := by
  rw [get?_ofStore, Option.map_map]
  exact congrFun Option.map_id _

end Listing

namespace Session

/-- After any run a name is listed exactly if some context declares it, with the declaration of the
least such context and the value given from outside. The look-up finds the value that was supplied
last, or else the default that is listed. -/
theorem listing_agrees (host : Host) (slots : Handle → NameMap Slot) (operations : List Operation)
    (name : String) :
    let store := ((start host slots).run operations).store
    let listing := Listing.ofStore store
    (listing.contains name = true ↔
      ∃ toolchain, (store.declaredIn toolchain).contains name = true) ∧
    (∀ argument, listing.get? name = some argument → argument.Describes store name) ∧
    store.find? name =
      (lastSupplied operations name).or ((listing.get? name).map ListedArgument.defaultValue) := by
  intro store listing
  refine ⟨Listing.contains_ofStore_iff, fun argument => Listing.describes_of_get?, ?_⟩
  rw [Store.find?, get?_supplied_run, Listing.defaultValue_get?_ofStore]

def sharedPlaceRun : List Operation :=
  let place : Origin := ⟨"f", some 3⟩
  [.setup ⟨⟨"a", false⟩, 0⟩ ∅,
    .declare ⟨⟨"a", false⟩, 0⟩ (.ofList [("x", .integer place 1)]),
    .setup ⟨⟨"b", true⟩, 0⟩ ∅,
    .declare ⟨⟨"b", true⟩, 0⟩ (.ofList [("x", .integer place 2)]),
    .addDefaults (.ofList [("x", .integer none 3)])]

theorem listing_agrees_sharedPlace :
    let store := ((start ⟨"linux", "x64"⟩ fun _ => ∅).run sharedPlaceRun).store
    let argument : ListedArgument :=
      ⟨.integer (some ⟨"f", some 3⟩) 2, true, some (.integer none 3)⟩
    (Listing.ofStore store).get? "x" = some argument ∧ argument.Describes store "x" ∧
    store.find? "x" = some argument.defaultValue := by
  intro store argument
  obtain ⟨_, describes, found⟩ :=
    listing_agrees ⟨"linux", "x64"⟩ (fun _ => ∅) sharedPlaceRun "x"
  have listed : (Listing.ofStore store).get? "x" = some argument := by cbv
  have unsupplied : lastSupplied sharedPlaceRun "x" = none := by cbv
  refine ⟨listed, describes argument listed, found.trans ?_⟩
  rw [unsupplied]
  exact congrArg (Option.map ListedArgument.defaultValue) listed

end Session
end BuildArgs
