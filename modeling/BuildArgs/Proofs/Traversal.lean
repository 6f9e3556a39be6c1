import Mathlib.Data.List.Forall2

/-! Steps that may fail, one after another: two of them, or one for each item of a list. -/

namespace BuildArgs

variable {α β ε : Type}

theorem bind_eq_ok_iff {first : Except ε α} {next : α → Except ε β} {result : β} :
    first >>= next = .ok result ↔ ∃ value, first = .ok value ∧ next value = .ok result := by
  cases first with
  | error error => simp [bind, Except.bind]
  | ok value => simp [bind, Except.bind]

theorem bind_eq_error_iff {first : Except ε α} {next : α → Except ε β} {error : ε} :
    first >>= next = .error error ↔
      first = .error error ∨ ∃ value, first = .ok value ∧ next value = .error error := by
  cases first with
  | error found => simp [bind, Except.bind]
  | ok value => simp [bind, Except.bind]

theorem mapM_eq_ok_iff {read : α → Except ε β} {list : List α} {results : List β} :
    list.mapM read = .ok results ↔
      List.Forall₂ (fun result item => read item = .ok result) results list := by
  induction list generalizing results with
  | nil => cases results <;> simp [pure, Except.pure]
  | cons item rest ih =>
    cases results with
    | nil => simp [bind_eq_ok_iff, pure, Except.pure]
    | cons result results => simp [bind_eq_ok_iff, ih, pure, Except.pure]

theorem mapM_eq_error_iff {read : α → Except ε β} {list : List α} {error : ε} :
    list.mapM read = .error error ↔
      ∃ before first after, list = before ++ first :: after ∧
        (∀ item ∈ before, ∃ value, read item = .ok value) ∧ read first = .error error := by
  induction list with
  | nil => simp [pure, Except.pure]
  | cons first rest ih =>
    rw [List.mapM_cons, bind_eq_error_iff]
    constructor
    · rintro (here | ⟨value, here, failed⟩)
      · exact ⟨[], first, rest, rfl, by simp, here⟩
      · rcases bind_eq_error_iff.mp failed with later | ⟨_, _, returned⟩
        · obtain ⟨before, item, after, rfl, fine, bad⟩ := ih.mp later
          exact ⟨first :: before, item, after, rfl,
            List.forall_mem_cons.mpr ⟨⟨value, here⟩, fine⟩, bad⟩
        · cases returned
    · rintro ⟨before, item, after, split, fine, bad⟩
      cases before with
      | nil =>
        obtain ⟨rfl, rfl⟩ := List.cons.inj split
        exact .inl bad
      | cons head before =>
        obtain ⟨rfl, rfl⟩ := List.cons.inj split
        obtain ⟨⟨value, here⟩, fine⟩ := List.forall_mem_cons.mp fine
        have later := ih.mpr ⟨before, item, after, rfl, fine, bad⟩
        exact .inr ⟨value, here, bind_eq_error_iff.mpr (.inl later)⟩

theorem mapM_eq_some_iff {read : α → Option β} {list : List α} {results : List β} :
    list.mapM read = some results ↔
      List.Forall₂ (fun result item => read item = some result) results list := by
  induction list generalizing results with
  | nil => cases results <;> simp
  | cons item rest ih =>
    cases results with
    | nil => simp [Option.bind_eq_some_iff]
    | cons result results => simp [Option.bind_eq_some_iff, ih]

theorem exists_of_mem_forall₂ {relation : α → β → Prop} {list : List α} {others : List β}
    (paired : List.Forall₂ relation list others) {item : α} (member : item ∈ list) :
    ∃ other ∈ others, relation item other := by
  induction paired with
  | nil => cases member
  | cons here _ ih =>
    rcases List.mem_cons.mp member with rfl | later
    · exact ⟨_, List.mem_cons_self, here⟩
    · obtain ⟨other, found, related⟩ := ih later
      exact ⟨other, List.mem_cons_of_mem _ found, related⟩

end BuildArgs
