import BuildArgs.Proofs.Session.Duplicates
import BuildArgs.Proofs.Session.Permanence
import BuildArgs.Proofs.Session.ScopeContents
import BuildArgs.Proofs.Store.BatchNames
import BuildArgs.Value.Order

/-! The default that is recorded of an argument. An entry with an origin is kept when the argument
is declared again, while the scope takes the new default, so the two agree as long as all
declarations at one place have one default. An entry without an origin is replaced. -/

namespace BuildArgs

/-- Whether a declaration of a name in a context was accepted with just this default. -/
def AcceptsValue (history : List Attempt) (toolchain : Toolchain) (name : String) (value : Value) :
    Prop :=
  ∃ attempt ∈ history, attempt.error = none ∧ attempt.toolchain = toolchain ∧
    attempt.name = name ∧ attempt.value = value

theorem AcceptsValue.mono {fewer more : List Attempt} {toolchain : Toolchain} {name : String}
    {value : Value} (accepts : AcceptsValue fewer toolchain name value) (subset : fewer ⊆ more) :
    AcceptsValue more toolchain name value := by
  obtain ⟨attempt, member, facts⟩ := accepts
  exact ⟨attempt, subset member, facts⟩

namespace Store

variable {store : Store} {scope : Scope} {toolchain : Toolchain} {entries : List (String × Value)}
  {name : String} {value : Value}

theorem resolve_of_unset (unbrought : store.brought? toolchain name = none)
    (ungiven : store.override? name = none) : store.resolve toolchain name value = value := by
  rw [resolve_eq, unbrought, ungiven]
  rfl

theorem recorded_of_declareEach
    (found : ((store.declareEach scope entries).store.declaredIn toolchain).get? name =
      some value) :
    (store.declaredIn toolchain).get? name = some value ∨
      AcceptsValue (store.attempts scope entries) toolchain name value := by
  refine declareEach_induction (motive := fun history later =>
    (later.declaredIn toolchain).get? name = some value →
      (store.declaredIn toolchain).get? name = some value ∨
        AcceptsValue history toolchain name value) ?_ ?_ [] rfl Or.inl found
  · intro history later entry _ held _ recorded
    rcases recorded_of_recordEntry recorded with ⟨rfl, rfl⟩ | old
    · exact Or.inr ⟨_, List.mem_append_right _ List.mem_cons_self, rfl, rfl, rfl, rfl⟩
    · exact (held old).imp_right fun accepts => accepts.mono (List.subset_append_left _ _)
  · intro history later error entry _ held _ recorded
    exact (held recorded).imp_right fun accepts => accepts.mono (List.subset_append_left _ _)

theorem alike_retain_iff (alike : Value → Value → Prop) (refl : ∀ value, alike value value)
    (found : Option Value) (value : Value) :
    alike value (retain found value) ↔
      ∀ earlier, found = some earlier → earlier.origin ≠ none → alike value earlier := by
  cases found with
  | none => simp [retain, refl]
  | some earlier =>
    rw [retain_some]
    cases origin : earlier.origin <;> simp [origin, refl]

end Store

namespace Session

variable {host : Host} {slots : Handle → NameMap Slot} {done : List Operation} {handle : Handle}
  {arguments : NameMap Value} {toolchain : Toolchain} {name : String} {value existing : Value}

theorem acceptsValue_of_records
    (recorded : ((start host slots).run done).Records toolchain name value)
    (placed : value.origin ≠ none) :
    AcceptsValue ((start host slots).history done) toolchain name value := by
  induction done using List.reverseRecOn with
  | nil => simp [Records, run, start, Store.new, Store.declaredIn] at recorded
  | append_singleton done operation ih =>
    rw [run_concat] at recorded
    rw [history_concat]
    cases operation with
    | setup handle overrides =>
      rcases Store.recorded_of_setup recorded with ⟨_, missing⟩ | old
      · exact absurd missing placed
      · exact (ih old).mono (List.subset_append_left _ _)
    | declare handle arguments =>
      rcases Store.recorded_of_declareEach recorded with old | new
      · exact (ih old).mono (List.subset_append_left _ _)
      · exact new.mono (List.subset_append_right _ _)
    | _ => exact (ih recorded).mono (List.subset_append_left _ _)

/-- Whether a default is like the one that a context has recorded of a name, if it has recorded one
with an origin. -/
def Repeats (session : Session) (alike : Value → Value → Prop) (toolchain : Toolchain)
    (name : String) (value : Value) : Prop :=
  ∀ earlier, session.Records toolchain name earlier → earlier.origin ≠ none → alike value earlier

/-- After a declaration that succeeds, an argument for which neither its toolchain nor anyone outside
has a value is set to its new default in the scope. The record holds the same default exactly if
the entry with an origin that it may have held before does. So it is if a run gives an argument one
default at each place. -/
theorem default_recorded_iff
    (succeeds : ((start host slots).run done).error? (.declare handle arguments) = none)
    (batched : arguments.get? name = some value)
    (unbrought : ((start host slots).run done).store.brought? handle.toolchain name = none)
    (ungiven : ((start host slots).run done).store.override? name = none) :
    let session := (start host slots).run done
    let next := session.step (.declare handle arguments)
    (next.scope handle).get? name = some value ∧
    ∃ recorded, next.Records handle.toolchain name recorded ∧
      (value = recorded ↔ session.Repeats (fun left right => left = right) handle.toolchain name
        value) ∧
      (value.same recorded = true ↔
        session.Repeats (fun left right => left.same right = true) handle.toolchain name value) ∧
      ((∀ earlier, AcceptsValue ((start host slots).history done) handle.toolchain name earlier →
        earlier.origin = value.origin → earlier = value) → value = recorded) := by
  intro session next
  have clear := Store.conflict?_of_succeeds batched succeeds
  obtain ⟨_, held, recorded⟩ :=
    Store.takesIn_of_reaches batched (Store.reaches_of_succeeds batched succeeds) clear
  have like := fun alike refl => Store.alike_retain_iff alike refl
    ((session.store.declaredIn handle.toolchain).get? name) value
  refine ⟨?_, _, recorded, like _ fun _ => rfl,
    like (fun left right => left.same right = true) Value.same_self, ?_⟩
  · rw [scope_step_declare, if_pos rfl, held]
    exact congrArg some (Store.resolve_of_unset unbrought ungiven)
  · intro steady
    refine (like _ fun _ => rfl).mpr fun earlier found placed => ?_
    rcases Store.conflict?_eq_none_iff.mp clear handle.toolchain earlier found with
      ⟨missing, _⟩ | same
    · exact absurd missing placed
    · exact (steady earlier (acceptsValue_of_records found placed) same).symm

def inFile (default : Int64) : NameMap Value := .ofList [("x", .integer (some ⟨"f", none⟩) default)]

theorem default_recorded_iff_sameFile :
    let handle : Handle := ⟨⟨"a", false⟩, 0⟩
    let done := [.setup handle ∅, .declare handle (inFile 1)]
    let session := (start ⟨"linux", "x64"⟩ fun _ => ∅).run done
    let next := session.step (.declare handle (inFile 1))
    session.error? (.declare handle (inFile 1)) = none ∧
    session.store.brought? handle.toolchain "x" = none ∧ session.store.override? "x" = none ∧
    ∃ recorded, next.Records handle.toolchain "x" recorded ∧
      (next.scope handle).get? "x" = some recorded := by
  intro handle done session next
  let value : Value := .integer (some ⟨"f", none⟩) 1
  have succeeds : session.error? (.declare handle (inFile 1)) = none := by cbv
  have batched : (inFile 1).get? "x" = some value := by cbv
  have unbrought : session.store.brought? handle.toolchain "x" = none := by cbv
  have ungiven : session.store.override? "x" = none := by cbv
  have accepted : (start ⟨"linux", "x64"⟩ fun _ => ∅).history done =
      [⟨handle.toolchain, "x", value, none⟩] := by cbv
  obtain ⟨held, recorded, entry, _, _, steady⟩ :=
    default_recorded_iff succeeds batched unbrought ungiven
  have agrees : value = recorded := by
    refine steady ?_
    rintro earlier ⟨attempt, member, _, _, _, rfl⟩ _
    rw [accepted, List.mem_singleton] at member
    rw [member]
  exact ⟨succeeds, unbrought, ungiven, recorded, entry, agrees ▸ held⟩

/-- With another default, the second block changes the scope and not the record. -/
theorem default_differs_sameFile :
    let handle : Handle := ⟨⟨"a", false⟩, 0⟩
    let session := (start ⟨"linux", "x64"⟩ fun _ => ∅).run
      [.setup handle ∅, .declare handle (inFile 1)]
    let next := session.step (.declare handle (inFile 2))
    session.error? (.declare handle (inFile 2)) = none ∧
    session.store.brought? handle.toolchain "x" = none ∧ session.store.override? "x" = none ∧
    (next.scope handle).get? "x" = some (.integer (some ⟨"f", none⟩) 2) ∧
    next.Records handle.toolchain "x" (.integer (some ⟨"f", none⟩) 1) ∧
    next.store.find? "x" = some (.integer (some ⟨"f", none⟩) 1) := by
  unfold Records
  refine ⟨?_, ?_, ?_, ?_, ?_, ?_⟩ <;> cbv

/-- An argument that a context has recorded, and that is declared in it again at the same origin, is
accepted as soon as the batch gets to it. The record keeps the old entry if that has an origin. An
entry without an origin is replaced, and then it is kept only as far as the new one is like it. -/
theorem first_entry_kept_iff (plain : name ∉ Host.systemNames)
    (batched : arguments.get? name = some value)
    (recorded : ((start host slots).run done).Records handle.toolchain name existing)
    (same : existing.origin = value.origin) :
    let session := (start host slots).run done
    let next := session.step (.declare handle arguments)
    let reaches := session.store.Reaches (session.scope handle) arguments name
    (reaches → session.Introduces handle name (.declare handle arguments)) ∧
    ∃ kept, next.Records handle.toolchain name kept ∧ kept.origin = existing.origin ∧
      (kept = existing ↔ existing.origin ≠ none ∨ ¬ reaches ∨ value = existing) ∧
      (kept.same existing = true ↔
        existing.origin ≠ none ∨ ¬ reaches ∨ value.same existing = true) := by
  intro session next reaches
  have single := singleDeclaration_run host slots done
  have clear : session.store.conflict? (session.scope handle).toolchain name value = none := by
    refine Store.conflict?_eq_none_iff.mpr fun other earlier found => Or.inr ?_
    rw [← same]
    exact single name other handle.toolchain earlier existing found recorded
      (fun implicit => plain implicit.2) (fun implicit => plain implicit.2)
  by_cases reached : reaches
  · obtain ⟨attempted, _, left⟩ := Store.takesIn_of_reaches batched reached clear
    have before : (session.store.declaredIn (session.scope handle).toolchain).get? name =
      some existing := recorded
    rw [before, Store.retain_some] at left
    refine ⟨fun _ => ⟨rfl, attempted⟩, ?_⟩
    cases origin : existing.origin with
    | none =>
      have replaced : next.Records handle.toolchain name value := by
        rwa [origin] at left
      exact ⟨value, replaced, same.symm.trans origin, by simp [reached], by simp [reached]⟩
    | some place =>
      have kept : next.Records handle.toolchain name existing := by
        rwa [origin] at left
      exact ⟨existing, kept, origin, by simp, by simp [Value.same_self]⟩
  · have kept : next.Records handle.toolchain name existing :=
      (Store.recorded_of_not_reaches batched reached).trans recorded
    exact ⟨fun reached' => absurd reached' reached, existing, kept, rfl, by simp [reached],
      by simp [reached, Value.same_self]⟩

def nowhere (default : Int64) : NameMap Value := .ofList [("x", .integer none default)]

theorem first_entry_kept_iff_sameFile :
    let handle : Handle := ⟨⟨"a", false⟩, 0⟩
    let session := (start ⟨"linux", "x64"⟩ fun _ => ∅).run
      [.setup handle ∅, .declare handle (inFile 1)]
    let first : Value := .integer (some ⟨"f", none⟩) 1
    "x" ∉ Host.systemNames ∧ session.Records handle.toolchain "x" first ∧
    session.Introduces handle "x" (.declare handle (inFile 2)) ∧
    (session.step (.declare handle (inFile 2))).Records handle.toolchain "x" first := by
  intro handle session first
  have plain : "x" ∉ Host.systemNames := by decide
  have batched : (inFile 2).get? "x" = some (.integer (some ⟨"f", none⟩) 2) := by cbv
  have recorded : session.Records handle.toolchain "x" first := by
    unfold Records
    cbv
  have reaches : session.store.Reaches (session.scope handle) (inFile 2) "x" := by
    decide +kernel
  obtain ⟨accepted, kept, entry, _, same, _⟩ := first_entry_kept_iff plain batched recorded rfl
  have placed : first.origin ≠ none := by simp [first, Value.origin]
  have stays : kept = first := same.mpr (Or.inl placed)
  exact ⟨plain, recorded, accepted reaches, stays ▸ entry⟩

theorem first_entry_replaced_nowhere :
    let handle : Handle := ⟨⟨"a", false⟩, 0⟩
    let session := (start ⟨"linux", "x64"⟩ fun _ => ∅).run
      [.setup handle ∅, .declare handle (nowhere 1)]
    "x" ∉ Host.systemNames ∧ session.Records handle.toolchain "x" (.integer none 1) ∧
    session.error? (.declare handle (nowhere 2)) = none ∧
    (session.step (.declare handle (nowhere 2))).Records handle.toolchain "x"
      (.integer none 2) := by
  unfold Records
  refine ⟨by decide, ?_, ?_, ?_⟩ <;> cbv

end Session
end BuildArgs
