import Mathlib
import BuildArgs.Proofs.Spelling.BoundedDistance
import BuildArgs.Proofs.Store.DeclarationOrder

/-! The suggestion for an unused name. The walk over the declared names keeps the best one so far and
replaces it only for a nearer one, so in the end it has the first of the nearest names. -/

namespace BuildArgs

namespace Spelling

def Best (text : String) (seen : List String) : Option (String × Nat) → Prop
  | none => ∀ name ∈ seen, greatestDistance < distance name.toList text.toList
  | some (near, least) =>
    least = distance near.toList text.toList ∧ least ≤ greatestDistance ∧
      ∃ before after, seen = before ++ near :: after ∧
        (∀ name ∈ before, least < distance name.toList text.toList) ∧
        ∀ name ∈ after, least ≤ distance name.toList text.toList

theorem Best.snoc {text : String} {seen : List String} {best : Option (String × Nat)}
    (held : Best text seen best) (candidate : String) :
    let found := boundedDistance candidate.toList text.toList greatestDistance
    let better := found ≤ greatestDistance && best.all fun old => found < old.2
    Best text (seen ++ [candidate]) (if better then some (candidate, found) else best) := by
  intro found better
  have close : found ≤ greatestDistance ↔
      distance candidate.toList text.toList ≤ greatestDistance := boundedDistance_le_iff
  have exact : found ≤ greatestDistance → found = distance candidate.toList text.toList :=
    fun near => boundedDistance_of_le (close.mp near)
  by_cases improves : better = true
  · rw [if_pos improves]
    obtain ⟨near, nearer⟩ := Bool.and_eq_true_iff.mp improves
    have near : found ≤ greatestDistance := of_decide_eq_true near
    refine ⟨exact near, near, seen, [], rfl, ?_, by simp⟩
    intro name member
    cases best with
    | none => exact Nat.lt_of_le_of_lt near (held name member)
    | some old =>
      obtain ⟨least, _, before, after, rfl, earlier, later⟩ := held
      have below : found < old.2 := of_decide_eq_true nearer
      rcases List.mem_append.mp member with inside | inside
      · exact Nat.lt_trans below (earlier name inside)
      · rcases List.mem_cons.mp inside with rfl | inside
        · rwa [← least]
        · exact Nat.lt_of_lt_of_le below (later name inside)
  · rw [if_neg improves]
    cases best with
    | none =>
      have far : ¬ found ≤ greatestDistance := fun near => improves (by simp [better, near])
      rw [close] at far
      exact List.forall_mem_append.mpr ⟨held, List.forall_mem_singleton.mpr (Nat.lt_of_not_le far)⟩
    | some old =>
      obtain ⟨least, limit, before, after, rfl, earlier, later⟩ := held
      refine ⟨least, limit, before, after ++ [candidate], by simp, earlier, ?_⟩
      refine List.forall_mem_append.mpr ⟨later, List.forall_mem_singleton.mpr ?_⟩
      by_cases near : found ≤ greatestDistance
      · have notBelow : ¬ found < old.2 := fun below => improves (by simp [better, near, below])
        rw [← exact near]
        exact Nat.le_of_not_lt notBelow
      · rw [close] at near
        exact Nat.le_trans limit (Nat.le_of_lt (Nat.lt_of_not_le near))

theorem Best.nearestFrom {text : String} {seen : List String} {best : Option (String × Nat)}
    (held : Best text seen best) (candidates : List String) :
    Best text (seen ++ candidates) (nearestFrom text best candidates) := by
  induction candidates generalizing seen best with
  | nil => rwa [List.append_nil]
  | cons candidate rest ih =>
    have later := ih (held.snoc candidate)
    rwa [List.append_assoc] at later

theorem best_nearestFrom (text : String) (candidates : List String) :
    Best text candidates (nearestFrom text none candidates) := by
  have start : Best text [] none := by simp [Best]
  exact start.nearestFrom candidates

theorem nearest_eq_none {text : String} {candidates : List String}
    (missing : nearest text candidates = none) :
    ∀ name ∈ candidates, greatestDistance < distance name.toList text.toList := by
  have best := best_nearestFrom text candidates
  rwa [Option.map_eq_none_iff.mp missing] at best

theorem nearest_eq_some {text near : String} {candidates : List String}
    (found : nearest text candidates = some near) :
    distance near.toList text.toList ≤ greatestDistance ∧
      ∃ before after, candidates = before ++ near :: after ∧
        (∀ name ∈ before,
          distance near.toList text.toList < distance name.toList text.toList) ∧
        ∀ name ∈ after, distance near.toList text.toList ≤ distance name.toList text.toList := by
  obtain ⟨⟨_, least⟩, kept, rfl⟩ := Option.map_eq_some_iff.mp found
  have best := best_nearestFrom text candidates
  rw [kept] at best
  obtain ⟨rfl, limit, split⟩ := best
  exact ⟨limit, split⟩

end Spelling

namespace Store

open Spelling (distance)

/-- Whether a name declared in a context is the one to suggest for another: it is near enough, none
that is declared in any context is nearer, and no other context or name with one as near comes before
in the order of the contexts and, within each, of the names. -/
structure Suggests (store : Store) (name : String) (toolchain : Toolchain) (near : String) : Prop where
  declared : (store.declaredIn toolchain).contains near = true
  close : distance name.toList near.toList ≤ 3
  least : ∀ other rival, (store.declaredIn other).contains rival = true →
    distance name.toList near.toList ≤ distance name.toList rival.toList
  first : ∀ other rival, (store.declaredIn other).contains rival = true →
    distance name.toList rival.toList = distance name.toList near.toList →
    compare toolchain other = .lt ∨ toolchain = other ∧ near ≤ rival

variable {store : Store} {toolchain other : Toolchain} {name near rival : String}

theorem Suggests.unique (one : store.Suggests name toolchain near)
    (two : store.Suggests name other rival) : near = rival := by
  have alike : distance name.toList rival.toList = distance name.toList near.toList :=
    Nat.le_antisymm (two.least _ _ one.declared) (one.least _ _ two.declared)
  rcases one.first other rival two.declared alike with before | ⟨same, below⟩
  · rcases two.first toolchain near one.declared alike.symm with after | ⟨same, _⟩
    · exact absurd after (Std.OrientedCmp.not_lt_of_lt before)
    · simp [same] at before
  · rcases two.first toolchain near one.declared alike.symm with after | ⟨_, above⟩
    · simp [same] at after
    · exact String.le_antisymm below above

theorem exists_suggests (found : Spelling.nearest name store.declaredNames = some near) :
    ∃ toolchain, store.Suggests name toolchain near := by
  obtain ⟨close, before, after, split, earlier, later⟩ := Spelling.nearest_eq_some found
  obtain ⟨toolchain, declared, met⟩ := exists_met_of_split split
  simp only [Spelling.distance_comm _ name.toList] at close earlier later
  refine ⟨toolchain, declared, close, ?_, ?_⟩
  · intro other rival known
    have member := mem_declaredNames_iff.mpr ⟨other, known⟩
    rw [split] at member
    rcases List.mem_append.mp member with inside | inside
    · exact Nat.le_of_lt (earlier rival inside)
    · rcases List.mem_cons.mp inside with rfl | inside
      · exact Nat.le_refl _
      · exact later rival inside
  · intro other rival known alike
    have notBefore : ¬ (compare other toolchain = .lt ∨ other = toolchain ∧ rival < near) :=
      fun order => Nat.ne_of_gt (earlier rival (met other rival known order)) alike
    rw [not_or] at notBefore
    cases order : compare other toolchain with
    | lt => exact absurd order notBefore.1
    | eq =>
      have same := Std.LawfulEqOrd.eq_of_compare order
      exact Or.inr ⟨same.symm, String.not_lt.mp fun below => notBefore.2 ⟨same, below⟩⟩
    | gt => exact Or.inl (Std.OrientedCmp.lt_of_gt order)

/-- The suggestion for a name that is reported as unused is the first of the nearest declared names,
and there is none exactly if every declared name is too far away. -/
theorem suggestion_nearest {origin : Option Origin} {suggestion : Option String}
    (reported : store.verify = .error (.unusedOverride name origin suggestion)) :
    (∀ near, suggestion = some near ↔ ∃ toolchain, store.Suggests name toolchain near) ∧
    (suggestion = none ↔ ∀ toolchain other, (store.declaredIn toolchain).contains other = true →
      3 < distance name.toList other.toList) := by
  have computed : suggestion = Spelling.nearest name store.declaredNames := by
    unfold verify at reported
    split at reported
    · cases reported
    · cases reported
      rfl
  have far : suggestion = none → ∀ toolchain other,
      (store.declaredIn toolchain).contains other = true →
        3 < distance name.toList other.toList := by
    intro missing toolchain other known
    rw [Spelling.distance_comm]
    exact Spelling.nearest_eq_none (computed.symm.trans missing) other
      (mem_declaredNames_iff.mpr ⟨toolchain, known⟩)
  refine ⟨?_, far, ?_⟩
  · intro near
    constructor
    · intro found
      exact exists_suggests (computed.symm.trans found)
    · rintro ⟨toolchain, suggests⟩
      cases found : suggestion with
      | none =>
        have distant := far found toolchain near suggests.declared
        exact absurd suggests.close (Nat.not_le_of_lt distant)
      | some chosen =>
        obtain ⟨_, chosenSuggests⟩ := exists_suggests (computed.symm.trans found)
        rw [chosenSuggests.unique suggests]
  · intro all
    cases found : suggestion with
    | none => rfl
    | some near =>
      obtain ⟨toolchain, suggests⟩ := exists_suggests (computed.symm.trans found)
      exact absurd suggests.close (Nat.not_le_of_lt (all toolchain near suggests.declared))

def misspelled : Store :=
  let value : Value := .boolean none true
  { Store.new ⟨"linux", "x64"⟩ with
    supplied := .ofList [("enable_nalc", value)]
    declared := .ofList [
      (⟨"arm", false⟩, .ofList [("enable_nacl", value)]),
      (⟨"host", true⟩, .ofList [("enable_nasl", value), ("use_lto", value)])] }

theorem suggestion_nearest_misspelled :
    misspelled.verify = .error (.unusedOverride "enable_nalc" none (some "enable_nasl")) ∧
    (∃ toolchain, misspelled.Suggests "enable_nalc" toolchain "enable_nasl") ∧
    ¬ ∃ toolchain, misspelled.Suggests "enable_nalc" toolchain "enable_nacl" := by
  have reported :
      misspelled.verify = .error (.unusedOverride "enable_nalc" none (some "enable_nasl")) := by
    have unused : misspelled.supplied.entries.find? (fun entry => !misspelled.isDeclared entry.1) =
        some ("enable_nalc", .boolean none true) := by cbv
    have near : Spelling.nearest "enable_nalc" misspelled.declaredNames = some "enable_nasl" := by
      decide +kernel
    simp only [verify, unused, near]
    rfl
  obtain ⟨chosen, _⟩ := suggestion_nearest reported
  exact ⟨reported, (chosen _).mp rfl, fun other => absurd ((chosen _).mpr other) (by decide)⟩

end Store
end BuildArgs
