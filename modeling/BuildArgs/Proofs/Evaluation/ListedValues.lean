import BuildArgs.Listing
import BuildArgs.Proofs.Evaluation.FinalStore
import BuildArgs.Proofs.Evaluation.Resolution
import BuildArgs.Value.Order

/-! The current values in a listing beside the values that the arguments take in the toolchain that
comes first. A listing knows the default of the first block and the values given from outside. It
shows what the toolchain has unless the toolchain brings another value or a later block of it has
another default. -/

namespace BuildArgs

namespace ToolchainSpec

/-- The default that the first block with one has for a name, or else the system's. -/
def firstDefault? (spec : ToolchainSpec) (host : Host) (name : String) : Option Value :=
  (spec.blocks.findSome? fun block => block.arguments.get? name).or (host.systemDefaults.get? name)

def lastDefault? (spec : ToolchainSpec) (host : Host) (name : String) : Option Value :=
  (spec.blocks.reverse.findSome? fun block => block.arguments.get? name).or
    (host.systemDefaults.get? name)

/-- Whether a listing shows the value that an argument takes in a toolchain. If the toolchain brings
a value, it has to be like the one given from outside or else like the first default. If nobody
gives a value, the first default has to be like the last. -/
def Shows (spec : ToolchainSpec) (active : NameMap Value) (alike : Value → Value → Prop)
    (name : String) (first last : Value) : Prop :=
  match active.get? name, spec.overrides.get? name with
  | some given, some brought => alike given brought
  | none, some brought => alike first brought
  | some _, none => True
  | none, none => alike first last

theorem shows_iff (spec : ToolchainSpec) (active : NameMap Value) (alike : Value → Value → Prop)
    (refl : ∀ value, alike value value) (name : String) (first last : Value) :
    alike ((active.get? name).getD first) (spec.chosen active name last) ↔
      spec.Shows active alike name first last := by
  unfold Shows chosen
  cases active.get? name with
  | none =>
    cases spec.overrides.get? name with
    | none => rfl
    | some brought => rfl
  | some given =>
    cases spec.overrides.get? name with
    | none => exact iff_true_intro (refl given)
    | some brought => rfl

theorem get?_recordAll_of_firstDefault (spec : ToolchainSpec) (host : Host)
    (placed : ∀ entry ∈ spec.entries, entry.2.origin ≠ none) (name : String) :
    (Store.recordAll host.systemDefaults spec.entries).get? name = spec.firstDefault? host name := by
  have first : spec.entries.lookup name =
      spec.blocks.findSome? fun block => block.arguments.get? name := by
    unfold entries
    induction spec.blocks with
    | nil => rfl
    | cons block rest ih =>
      rw [List.flatMap_cons, List.lookup_append, ih, findSome?_cons_eq_or, SortedMap.list_lookup_eq]
      rfl
  rw [spec.get?_recordAll host placed, first, firstDefault?]

theorem get?_rootScope_of_lastDefault (spec : ToolchainSpec) (host : Host) (active : NameMap Value)
    (name : String) :
    (spec.rootScope host active).get? name =
      (spec.lastDefault? host name).map (spec.chosen active name) := by
  rw [get?_rootScope, lookup_entries, lastDefault?]

theorem firstDefault?_isSome_iff (spec : ToolchainSpec) (host : Host) (name : String) :
    (spec.firstDefault? host name).isSome ↔ (spec.lastDefault? host name).isSome := by
  simp [firstDefault?, lastDefault?, List.findSome?_isSome_iff]

end ToolchainSpec

namespace Store

open Machine

variable {initial final : Store} {manifest : Manifest} {scope : Scope} {rest : List Scope}

theorem exists_first_of_evaluate (wellFormed : manifest.WellFormed) (fresh : initial.Fresh)
    (evaluated : initial.evaluate manifest = (final, .ok (scope :: rest))) :
    final.active = initial.active ∧ ∃ spec ∈ manifest.toolchains,
      scope = spec.rootScope initial.host initial.active ∧
      ∀ name first, spec.firstDefault? initial.host name = some first →
        final.firstDeclaration? name = some first := by
  obtain ⟨machine, progress, valid, completed, rfl⟩ :=
    exists_completed_of_evaluate wellFormed fresh evaluated
  have separate := separate_of_perm wellFormed (.refl _)
  obtain ⟨perm, ascending⟩ := scopes_of_evaluate wellFormed fresh (congrArg Prod.snd evaluated)
  obtain ⟨spec, member, same⟩ := List.mem_map.mp (perm.mem_iff.mp List.mem_cons_self)
  refine ⟨valid.reflects.active, spec, member, same.symm, fun name first declared => ?_⟩
  have own : spec.id = scope.toolchain := by simp [← same]
  refine SortedMap.findSome?_values_of_least (valid.declared_of_completed completed member)
    ?_ fun other present apart => ?_
  · rw [spec.get?_recordAll_of_firstDefault initial.host (separate.placed spec member), declared]
  · obtain ⟨next, nextMember, rfl⟩ :=
      List.mem_map.mp ((valid.contains_declared_iff completed).mp present)
    have inside := perm.mem_iff.mpr (List.mem_map_of_mem nextMember)
    have different : next.rootScope initial.host initial.active ≠ scope := by
      intro equal
      apply apart
      rw [own, ← equal, ToolchainSpec.toolchain_rootScope]
    have later := (List.mem_cons.mp inside).resolve_left different
    have above := (List.pairwise_cons.mp ascending).1 _ later
    rw [own]
    simpa using above

theorem exists_evaluate_of_single (wellFormed : manifest.WellFormed) (fresh : initial.Fresh)
    (consistent : manifest.Consistent) {spec : ToolchainSpec}
    (single : manifest.toolchains = [spec]) :
    ∃ final, initial.evaluate manifest =
      (final, .ok [spec.rootScope initial.host initial.active]) := by
  obtain ⟨scopes, returned⟩ := exists_scopes_of_consistent wellFormed fresh consistent
  have perm := (scopes_of_evaluate wellFormed fresh returned).1
  rw [single, List.map_singleton, List.perm_singleton] at perm
  exact ⟨_, Prod.ext rfl (returned.trans (congrArg _ perm))⟩

end Store

/-- Every argument of the toolchain that comes first is listed, and the listing shows the value that
the argument takes there exactly if what was given for it and its defaults make it so. This goes for
equality as values compare and for equality that looks at origins. -/
theorem listed_value_iff {path text : String} {manifest : Manifest}
    (parsed : Manifest.parse path text = .ok manifest) {initial final : Store}
    (fresh : initial.Fresh) {scope : Scope} {rest : List Scope}
    (evaluated : initial.evaluate manifest = (final, .ok (scope :: rest))) {name : String}
    {value : Value} (found : scope.get? name = some value) :
    ∃ spec ∈ manifest.toolchains, spec.id = scope.toolchain ∧
      ∃ argument first last, (Listing.ofStore final).get? name = some argument ∧
        spec.firstDefault? initial.host name = some first ∧
        spec.lastDefault? initial.host name = some last ∧
        (argument.current.same value = true ↔
          spec.Shows initial.active (fun left right => left.same right = true) name first last) ∧
        (argument.current = value ↔
          spec.Shows initial.active (fun left right => left = right) name first last) := by
  obtain ⟨active, spec, member, rfl, declared⟩ :=
    Store.exists_first_of_evaluate (Manifest.wellFormed_of_parse parsed) fresh evaluated
  rw [spec.get?_rootScope_of_lastDefault] at found
  obtain ⟨last, lastFound, rfl⟩ := Option.map_eq_some_iff.mp found
  have has : (spec.firstDefault? initial.host name).isSome := by
    rw [spec.firstDefault?_isSome_iff, lastFound]
    rfl
  obtain ⟨first, firstFound⟩ := Option.isSome_iff_exists.mp has
  have listed : (Listing.ofStore final).get? name =
      some ⟨first, (initial.active.get? name).isSome, initial.active.get? name⟩ := by
    rw [Listing.get?_ofStore, declared name first firstFound, active]
    rfl
  refine ⟨spec, member, (spec.toolchain_rootScope _ _).symm, _, first, last, listed, firstFound,
    lastFound, ?_, ?_⟩
  · exact spec.shows_iff initial.active (fun left right => left.same right = true)
      Value.same_self name first last
  · exact spec.shows_iff initial.active (fun left right => left = right) (fun _ => rfl) name first
      last

def broughtText : String :=
  "[[toolchain]]\nlabel = 'a'\ndefault = true\ntoolchain_args.x = 1\n" ++
  "declare_args = [\x7bfile = 'f', line = 3, args.x = 0\x7d]\n"

def broughtSpec : ToolchainSpec :=
  ⟨⟨"a", true⟩, .ofList [("x", .integer (some (.ofFile "m")) 1)], [sharedBlock]⟩

def broughtManifest : Manifest := ⟨"m", ∅, [broughtSpec]⟩

theorem parse_broughtText : Manifest.parse "m" broughtText = .ok broughtManifest := by
  cbv

theorem get?_rootScope_brought (host : Host) (active : NameMap Value) :
    (broughtSpec.rootScope host active).get? "x" = some (.integer (some (.ofFile "m")) 1) := by
  have last : broughtSpec.lastDefault? host "x" = some (.integer (some ⟨"f", some 3⟩) 0) := rfl
  rw [broughtSpec.get?_rootScope_of_lastDefault, last]
  rfl

theorem listed_value_iff_brought :
    let given := (Store.new ⟨"linux", "x64"⟩).addOverride "x" (.integer none 1)
    Manifest.parse "m" broughtText = .ok broughtManifest ∧ given.Fresh ∧
    ∃ final scope value argument, given.evaluate broughtManifest = (final, .ok [scope]) ∧
      scope.get? "x" = some value ∧ (Listing.ofStore final).get? "x" = some argument ∧
      argument.current.same value = true ∧ argument.current ≠ value := by
  intro given
  have fresh : given.Fresh := rfl
  obtain ⟨final, evaluated⟩ := Store.exists_evaluate_of_single
    (Manifest.wellFormed_of_parse parse_broughtText) fresh (by decide +kernel) rfl
  have found := get?_rootScope_brought given.host given.active
  obtain ⟨spec, member, _, argument, first, last, listed, _, _, alike, same⟩ :=
    listed_value_iff parse_broughtText fresh evaluated found
  obtain rfl := List.mem_singleton.mp member
  have active : given.active.get? "x" = some (.integer none 1) := rfl
  have brought : broughtSpec.overrides.get? "x" = some (.integer (some (.ofFile "m")) 1) := rfl
  refine ⟨parse_broughtText, fresh, final, _, _, argument, evaluated, found, listed, ?_, ?_⟩
  · rw [alike, ToolchainSpec.Shows, active, brought]
    rfl
  · rw [ne_eq, same, ToolchainSpec.Shows, active, brought]
    simp

theorem listed_value_differs_brought :
    Manifest.parse "m" broughtText = .ok broughtManifest ∧
    ∃ final scope value argument,
      (Store.new ⟨"linux", "x64"⟩).evaluate broughtManifest = (final, .ok [scope]) ∧
      scope.toolchain.isDefault = true ∧ scope.get? "x" = some value ∧
      value = .integer (some (.ofFile "m")) 1 ∧
      (Listing.ofStore final).get? "x" = some argument ∧
      argument.current = .integer (some ⟨"f", some 3⟩) 0 ∧ argument.current.same value = false := by
  have wellFormed := Manifest.wellFormed_of_parse parse_broughtText
  have fresh := Store.fresh_new ⟨"linux", "x64"⟩
  obtain ⟨final, evaluated⟩ :=
    Store.exists_evaluate_of_single wellFormed fresh (by decide +kernel) rfl
  obtain ⟨active, spec, member, _, declared⟩ :=
    Store.exists_first_of_evaluate wellFormed fresh evaluated
  obtain rfl := List.mem_singleton.mp member
  have first := declared "x" (.integer (some ⟨"f", some 3⟩) 0) rfl
  have listed : (Listing.ofStore final).get? "x" =
      some ⟨.integer (some ⟨"f", some 3⟩) 0, false, none⟩ := by
    rw [Listing.get?_ofStore, first, active]
    rfl
  have isDefault : (broughtSpec.rootScope ⟨"linux", "x64"⟩ ∅).toolchain.isDefault = true := by
    rw [ToolchainSpec.toolchain_rootScope]
    rfl
  exact ⟨parse_broughtText, final, _, _, _, evaluated, isDefault, get?_rootScope_brought _ _, rfl,
    listed, rfl, rfl⟩

end BuildArgs
