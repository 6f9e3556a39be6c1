/-! Texts that show where they end. What stands in front of a mark, and what follows it, are
determined by the whole: this holds of numbers, and of lists between brackets if it holds of their
items. -/

namespace BuildArgs

namespace Text

def isMark (c : Char) : Bool := c == ',' || c == ' ' || c == ']' || c == '\x7d' || c == '\n'

/-- Whether a text is over or goes on with a mark. -/
def Delimited (text : List Char) : Prop := ∀ c ∈ text.head?, isMark c = true

theorem isMark_iff {c : Char} :
    isMark c = true ↔ c = ',' ∨ c = ' ' ∨ c = ']' ∨ c = '\x7d' ∨ c = '\n' := by
  simp [isMark, or_assoc]

theorem delimited_nil : Delimited [] := nofun

theorem delimited_cons {c : Char} (mark : isMark c = true) (rest : List Char) :
    Delimited (c :: rest) := by
  intro d head
  exact Option.some.inj head ▸ mark

variable {text other after later : List Char}

theorem Delimited.ne_cons {c : Char} (ends : Delimited after) (plain : isMark c = false) :
    after ≠ c :: later := by
  rintro rfl
  cases plain.symm.trans (ends c rfl)

theorem takeWhile_isDigit_append (digits : ∀ c ∈ text, c.isDigit = true) (ends : Delimited after) :
    (text ++ after).takeWhile Char.isDigit = text := by
  rw [List.takeWhile_append_of_pos digits]
  cases after with
  | nil => simp
  | cons c rest =>
    have plain : c.isDigit = false := by
      rcases isMark_iff.mp (ends c rfl) with rfl | rfl | rfl | rfl | rfl <;> rfl
    simp [plain]

theorem dropWhile_isDigit_append (digits : ∀ c ∈ text, c.isDigit = true) (ends : Delimited after) :
    (text ++ after).dropWhile Char.isDigit = after := by
  have whole := List.takeWhile_append_dropWhile (p := Char.isDigit) (l := text ++ after)
  rw [takeWhile_isDigit_append digits ends] at whole
  exact List.append_cancel_left whole

theorem digits_append_inj (digits : ∀ c ∈ text, c.isDigit = true)
    (others : ∀ c ∈ other, c.isDigit = true) (first : Delimited after) (second : Delimited later)
    (same : text ++ after = other ++ later) : text = other ∧ after = later := by
  have front : text = other := by
    rw [← takeWhile_isDigit_append digits first, same, takeWhile_isDigit_append others second]
  exact ⟨front, List.append_cancel_left (front ▸ same)⟩

/-- What an item is, as far as its first character tells: nothing, a truth value, a number, a quoted
text, a list or a scope. No item begins with another character. -/
def leadRank? (c : Char) : Option Nat :=
  if c = 'n' ∨ c = '<' then some 0
  else if c = 't' ∨ c = 'f' then some 1
  else if c = '-' ∨ c.isDigit then some 2
  else if c = '"' then some 3
  else if c = '[' then some 4
  else if c = '\x7b' then some 5
  else none

theorem ne_of_lead {c d : Char} {rank : Nat} (lead : leadRank? c = some rank)
    (other : leadRank? d ≠ some rank) : c ≠ d := by
  rintro rfl
  exact other lead

def Leads (text : List Char) (rank : Nat) : Prop :=
  ∃ c rest, text = c :: rest ∧ leadRank? c = some rank

theorem Leads.rank_eq {rank otherRank : Nat} (first : Leads text rank)
    (second : Leads other otherRank) (same : text ++ after = other ++ later) : rank = otherRank := by
  obtain ⟨c, rest, rfl, lead⟩ := first
  obtain ⟨d, others, rfl, otherLead⟩ := second
  rw [(List.cons.inj same).1] at lead
  exact Option.some.inj (lead.symm.trans otherLead)

theorem Leads.append_ne {rank : Nat} {c : Char} (leads : Leads text rank)
    (unused : leadRank? c = none) : text ++ after ≠ c :: later := by
  obtain ⟨d, rest, rfl, lead⟩ := leads
  intro same
  rw [(List.cons.inj same).1, unused] at lead
  cases lead

/-! Lists between brackets -/

variable {α β : Type} (chars : α → List Char) (gap : List Char)

def further (items : List α) : List Char := items.flatMap fun item => ',' :: (gap ++ chars item)

def joined : List α → List Char
  | [] => []
  | item :: rest => chars item ++ further chars gap rest

variable {chars gap}

/-- Whether two items are written alike, in front of delimited texts, only if they look alike and
those texts are the same. -/
def Separates (chars : α → List Char) (view : α → β) (one other : α) : Prop :=
  ∀ ⦃after later⦄, Delimited after → Delimited later → chars one ++ after = chars other ++ later →
    view one = view other ∧ after = later

theorem further_cons (item : α) (rest : List α) :
    further chars gap (item :: rest) = ',' :: (gap ++ joined chars gap (item :: rest)) := by
  simp [joined, further]

theorem joined_cons_cons (item next : α) (rest : List α) :
    joined chars gap (item :: next :: rest) =
      chars item ++ ',' :: (gap ++ joined chars gap (next :: rest)) := by
  rw [joined, further_cons]

theorem length_le_further (items : List α) : items.length ≤ (further chars gap items).length := by
  induction items with
  | nil => exact Nat.le_refl _
  | cons one items ih =>
    rw [further_cons, joined]
    simp only [List.length_cons, List.length_append]
    omega

theorem length_le_joined (items : List α) :
    items.length ≤ (joined chars gap items).length + 1 := by
  cases items with
  | nil => exact Nat.zero_le _
  | cons one items =>
    have rest : items.length ≤ (further chars gap items).length := length_le_further items
    rw [joined, List.length_append, List.length_cons]
    omega

theorem not_mem_joined_iff {c : Char} (apart : c ≠ ',') (outside : c ∉ gap) {items : List α} :
    c ∉ joined chars gap items ↔ ∀ item ∈ items, c ∉ chars item := by
  cases items with
  | nil => simp [joined]
  | cons item items => simp [joined, further, apart, outside]

theorem delimited_further {close : Char} (mark : isMark close = true) (items : List α)
    (rest : List Char) : Delimited (further chars gap items ++ close :: rest) := by
  cases items with
  | nil => exact delimited_cons mark rest
  | cons item items => exact delimited_cons rfl _

variable {view : α → β} {close : Char} {items others : List α}

theorem further_append_inj (mark : isMark close = true) (apart : close ≠ ',')
    (separates : ∀ item ∈ items, ∀ other ∈ others, Separates chars view item other)
    (same : further chars gap items ++ close :: after = further chars gap others ++ close :: later) :
    items.map view = others.map view ∧ after = later := by
  induction items generalizing others with
  | nil =>
    cases others with
    | nil => exact ⟨rfl, (List.cons.inj same).2⟩
    | cons other others => exact absurd (List.cons.inj same).1 apart
  | cons item rest ih =>
    cases others with
    | nil => exact absurd (List.cons.inj same).1.symm apart
    | cons other others =>
      simp only [further, List.flatMap_cons, List.cons_append, List.append_assoc, List.cons.injEq,
        true_and, List.append_cancel_left_eq] at same
      obtain ⟨first, same⟩ := separates item List.mem_cons_self other List.mem_cons_self
        (delimited_further mark rest after) (delimited_further mark others later) same
      obtain ⟨more, same⟩ := ih (fun item member other among =>
        separates item (List.mem_cons_of_mem _ member) other (List.mem_cons_of_mem _ among)) same
      exact ⟨by rw [List.map_cons, List.map_cons, first, more], same⟩

theorem joined_cons_append_inj {item other : α} (mark : isMark close = true) (apart : close ≠ ',')
    (separates : ∀ one ∈ item :: items, ∀ two ∈ other :: others, Separates chars view one two)
    (same : joined chars gap (item :: items) ++ close :: after =
      joined chars gap (other :: others) ++ close :: later) :
    (item :: items).map view = (other :: others).map view ∧ after = later := by
  have same : further chars gap (item :: items) ++ close :: after =
      further chars gap (other :: others) ++ close :: later := by
    simpa [joined, further] using same
  exact further_append_inj mark apart separates same

theorem joined_append_inj (mark : isMark close = true) (apart : close ≠ ',')
    (opened : ∀ {item : α} {after later : List Char}, chars item ++ after ≠ close :: later)
    (separates : ∀ item ∈ items, ∀ other ∈ others, Separates chars view item other)
    (same : joined chars gap items ++ close :: after = joined chars gap others ++ close :: later) :
    items.map view = others.map view ∧ after = later := by
  cases items with
  | nil =>
    cases others with
    | nil => exact ⟨rfl, (List.cons.inj same).2⟩
    | cons other others =>
      rw [joined, joined, List.append_assoc] at same
      exact absurd same.symm opened
  | cons item rest =>
    cases others with
    | nil =>
      rw [joined, joined, List.append_assoc] at same
      exact absurd same opened
    | cons other others => exact joined_cons_append_inj mark apart separates same

end Text
end BuildArgs
