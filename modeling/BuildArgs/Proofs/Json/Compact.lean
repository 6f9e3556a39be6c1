import BuildArgs.Proofs.Json.Quoted
import BuildArgs.Proofs.Text.Decimal
import BuildArgs.Proofs.Value.Bare
import BuildArgs.Value.Text

/-! The compact JSON text of a tree determines the tree, and the tree of a value all of the value but
its origins. -/

namespace BuildArgs

open Text (Delimited Separates joined delimited_cons delimited_nil Leads)

namespace Json

theorem induction {motive : Json → Prop} (null : motive .null)
    (boolean : ∀ value, motive (.boolean value)) (integer : ∀ value, motive (.integer value))
    (string : ∀ value, motive (.string value))
    (array : ∀ items, (∀ item ∈ items, motive item) → motive (.array items))
    (object : ∀ members, (∀ member ∈ members, motive member.2) → motive (.object members))
    (json : Json) : motive json :=
  match json with
  | .null => null
  | .boolean value => boolean value
  | .integer value => integer value
  | .string value => string value
  | .array items => array items fun item _ =>
    induction null boolean integer string array object item
  | .object members => object members fun member _ =>
    induction null boolean integer string array object member.2
termination_by sizeOf json
decreasing_by
  · simp only [Json.array.sizeOf_spec]
    have smaller := List.sizeOf_lt_of_mem ‹item ∈ items›
    omega
  · simp only [Json.object.sizeOf_spec]
    have smaller := List.sizeOf_lt_of_mem ‹member ∈ members›
    have part : sizeOf member = 1 + sizeOf member.1 + sizeOf member.2 := by cases member; rfl
    omega

theorem itemChars_eq_joined : ∀ items : List Json, itemChars items = joined chars [] items
  | [] => rfl
  | [_] => (List.append_nil _).symm
  | item :: next :: rest => by
    rw [Text.joined_cons_cons, ← itemChars_eq_joined (next :: rest)]
    rfl

def memberText (member : String × Json) : List Char := quote member.1 ++ ':' :: member.2.chars

theorem memberChars_eq_joined :
    ∀ members : List (String × Json), memberChars members = joined memberText [] members
  | [] => rfl
  | [_] => (List.append_nil _).symm
  | member :: next :: rest => by
    rw [Text.joined_cons_cons, ← memberChars_eq_joined (next :: rest)]
    rfl

def rank : Json → Nat
  | .null => 0
  | .boolean _ => 1
  | .integer _ => 2
  | .string _ => 3
  | .array _ => 4
  | .object _ => 5

theorem leads_chars (json : Json) : Leads json.chars json.rank := by
  cases json with
  | integer value => exact leads_decimal value
  | boolean value => cases value <;> exact ⟨_, _, rfl, rfl⟩
  | _ => exact ⟨_, _, rfl, rfl⟩

variable {after later : List Char}

theorem rank_eq {left right : Json} (same : left.chars ++ after = right.chars ++ later) :
    left.rank = right.rank :=
  (leads_chars left).rank_eq (leads_chars right) same

theorem separates_array {items others : List Json}
    (each : ∀ item ∈ items, ∀ other, Separates chars id item other) :
    Separates chars id (.array items) (.array others) := by
  intro after later _ _ same
  simp only [chars, itemChars_eq_joined, List.cons_append, List.append_assoc, List.cons.injEq,
    true_and, List.nil_append] at same
  obtain ⟨same, rest⟩ := Text.joined_append_inj rfl (by decide)
    (fun {item} => (leads_chars item).append_ne rfl)
    (fun item member other _ => each item member other) same
  rw [List.map_id, List.map_id] at same
  exact ⟨by rw [same], rest⟩

theorem separates_object {members others : List (String × Json)}
    (each : ∀ member ∈ members, ∀ other, Separates chars id member.2 other) :
    Separates chars id (.object members) (.object others) := by
  intro after later _ _ same
  simp only [chars, memberChars_eq_joined, List.cons_append, List.append_assoc, List.cons.injEq,
    true_and, List.nil_append] at same
  have separates : ∀ member ∈ members, ∀ other ∈ others, Separates memberText id member other := by
    intro member among other _ after later first second same
    simp only [memberText, List.append_assoc, List.cons_append] at same
    obtain ⟨name, same⟩ := quote_append_inj same
    obtain ⟨value, rest⟩ := each member among other.2 first second (List.cons.inj same).2
    exact ⟨Prod.ext name value, rest⟩
  have opened {member : String × Json} {after later : List Char} :
      memberText member ++ after ≠ '\x7d' :: later := nofun
  obtain ⟨same, rest⟩ := Text.joined_append_inj rfl (by decide) opened separates same
  rw [List.map_id, List.map_id] at same
  exact ⟨by rw [same], rest⟩

/-- Trees are written alike, in front of delimited texts, only if they are the same. -/
theorem separates (left right : Json) : Separates chars id left right := by
  induction left using Json.induction generalizing right with
  | null =>
    intro after later _ _ same
    cases right with
    | null => exact ⟨rfl, List.append_cancel_left same⟩
    | _ => cases rank_eq same
  | boolean value =>
    intro after later _ _ same
    cases right with
    | boolean other =>
      cases value <;> cases other
      · exact ⟨rfl, List.append_cancel_left same⟩
      · cases same
      · cases same
      · exact ⟨rfl, List.append_cancel_left same⟩
    | _ => cases rank_eq same
  | integer value =>
    intro after later first second same
    cases right with
    | integer other =>
      obtain ⟨number, rest⟩ := decimal_append_inj first second same
      exact ⟨by rw [number], rest⟩
    | _ => cases rank_eq same
  | string value =>
    intro after later _ _ same
    cases right with
    | string other =>
      obtain ⟨text, rest⟩ := quote_append_inj same
      exact ⟨by rw [text], rest⟩
    | _ => cases rank_eq same
  | array items each =>
    intro after later first second same
    cases right with
    | array others => exact separates_array each first second same
    | _ => cases rank_eq same
  | object members each =>
    intro after later first second same
    cases right with
    | object others => exact separates_object each first second same
    | _ => cases rank_eq same

theorem compact_inj {left right : Json} : left.compact = right.compact ↔ left = right := by
  constructor
  · intro same
    have chars : left.chars ++ [] = right.chars ++ [] := by
      rw [String.ofList_injective same]
    exact (separates left right delimited_nil delimited_nil chars).1
  · exact congrArg compact

end Json

namespace Value

mutual

theorem toJson_bare : ∀ value : Value, value.bare.toJson = value.toJson
  | .none _ | .boolean _ _ | .integer _ _ | .string _ _ => rfl
  | .list _ items => congrArg Json.array (itemsToJson_bareItems items)
  | .scope _ entries => congrArg Json.object (entriesToJson_bareEntries entries)

theorem itemsToJson_bareItems : ∀ items, itemsToJson (bareItems items) = itemsToJson items
  | [] => rfl
  | item :: rest => by
    rw [bareItems, itemsToJson, itemsToJson, toJson_bare item, itemsToJson_bareItems rest]

theorem entriesToJson_bareEntries :
    ∀ entries, entriesToJson (bareEntries entries) = entriesToJson entries
  | [] => rfl
  | (name, value) :: rest => by
    rw [bareEntries, entriesToJson, entriesToJson, toJson_bare value, entriesToJson_bareEntries rest]

end

/-! The other way round, a tree has all of a value but its origins. -/

mutual

def ofJson : Json → Value
  | .null => .none Option.none
  | .boolean value => .boolean Option.none value
  | .integer value => .integer Option.none (Int64.ofInt value)
  | .string value => .string Option.none value
  | .array items => .list Option.none (ofJsonItems items)
  | .object members => .scope Option.none (ofJsonMembers members)

def ofJsonItems : List Json → List Value
  | [] => []
  | json :: rest => ofJson json :: ofJsonItems rest

def ofJsonMembers : List (String × Json) → List (String × Value)
  | [] => []
  | (name, json) :: rest => (name, ofJson json) :: ofJsonMembers rest

end

mutual

theorem ofJson_toJson : ∀ value : Value, ofJson value.toJson = value.bare
  | .none _ | .boolean _ _ | .string _ _ => rfl
  | .integer _ value => by rw [toJson, ofJson, Int64.ofInt_toInt, bare]
  | .list _ items => congrArg (list Option.none) (ofJsonItems_itemsToJson items)
  | .scope _ entries => congrArg (scope Option.none) (ofJsonMembers_entriesToJson entries)

theorem ofJsonItems_itemsToJson : ∀ items, ofJsonItems (itemsToJson items) = bareItems items
  | [] => rfl
  | item :: rest => by
    rw [itemsToJson, ofJsonItems, bareItems, ofJson_toJson item, ofJsonItems_itemsToJson rest]

theorem ofJsonMembers_entriesToJson :
    ∀ entries, ofJsonMembers (entriesToJson entries) = bareEntries entries
  | [] => rfl
  | (name, value) :: rest => by
    rw [entriesToJson, ofJsonMembers, bareEntries, ofJson_toJson value,
      ofJsonMembers_entriesToJson rest]

end

theorem toJson_eq_iff {left right : Value} :
    left.toJson = right.toJson ↔ left.bare = right.bare := by
  constructor
  · intro same
    rw [← ofJson_toJson, same, ofJson_toJson]
  · intro same
    rw [← toJson_bare left, same, toJson_bare]

/-- Values have the same compact JSON text exactly when they are equal. -/
theorem compact_toJson_eq_iff (left right : Value) :
    left.toJson.compact = right.toJson.compact ↔ (left == right) = true :=
  Json.compact_inj.trans (toJson_eq_iff.trans beq_iff.symm)

end Value
end BuildArgs
