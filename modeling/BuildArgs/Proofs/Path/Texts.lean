import BuildArgs.Proofs.Path.FileSet

/-! Paths that are texts. No text is a spelling of a path that is not a text itself, because the bytes
that are between slashes are compared one by one. -/

namespace BuildArgs

def SystemString.IsText (word : SystemString) : Prop := ∃ text : String, word = text

namespace Path

open Utf8 (encode)

variable {byte : UInt8} {bytes rest piece : List UInt8} {text : String} {path : SystemString}

theorem pieces_ne_nil (bytes : List UInt8) : pieces bytes ≠ [] := by
  cases bytes with
  | nil => exact List.cons_ne_nil _ _
  | cons byte rest =>
    unfold pieces
    split
    · exact List.cons_ne_nil _ _
    · split <;> exact List.cons_ne_nil _ _

theorem pieces_slash (rest : List UInt8) : pieces (slash :: rest) = [] :: pieces rest := by
  obtain ⟨piece, more, split⟩ := List.exists_cons_of_ne_nil (pieces_ne_nil rest)
  simp [pieces, split]

theorem pieces_append {front : List UInt8} (rest : List UInt8) (apart : ∀ byte ∈ front, byte ≠ slash) :
    ∃ piece more, pieces rest = piece :: more ∧ pieces (front ++ rest) = (front ++ piece) :: more := by
  obtain ⟨piece, more, split⟩ := List.exists_cons_of_ne_nil (pieces_ne_nil rest)
  refine ⟨piece, more, split, ?_⟩
  induction front with
  | nil => exact split
  | cons byte front ih =>
    obtain ⟨here, later⟩ := List.forall_mem_cons.mp apart
    simp [pieces, ih later, here]

theorem intercalate_pieces (bytes : List UInt8) : [slash].intercalate (pieces bytes) = bytes := by
  induction bytes with
  | nil => rfl
  | cons byte rest ih =>
    obtain ⟨piece, more, split⟩ := List.exists_cons_of_ne_nil (pieces_ne_nil rest)
    rw [split] at ih
    by_cases same : byte = slash
    · rw [same, pieces_slash, split, ← ih]
      simp [List.intercalate]
    · rw [pieces, split, ← ih]
      cases more <;> simp [same, List.intercalate]

theorem ne_slash_of_large (large : 0x80 ≤ byte.toNat) : byte ≠ slash := by
  rintro rfl
  exact absurd large (by decide)

theorem ne_slash_of_spells {value : Nat} (spells : Utf8.Spells bytes value) (other : value ≠ 0x2f) :
    ∀ byte ∈ bytes, byte ≠ slash := by
  cases spells with
  | one small made =>
    exact List.forall_mem_singleton.mpr fun same => other (made.trans (congrArg UInt8.toNat same))
  | two start made =>
    obtain ⟨least, _, second, _⟩ := Utf8.starts_one_iff.mp start
    simp only [List.mem_cons, List.not_mem_nil, or_false, forall_eq_or_imp, forall_eq]
    exact ⟨ne_slash_of_large (by omega), ne_slash_of_large second⟩
  | three start third made =>
    obtain ⟨least, _, second, _⟩ := Utf8.starts_two_iff.mp start
    simp only [List.mem_cons, List.not_mem_nil, or_false, forall_eq_or_imp, forall_eq]
    exact ⟨ne_slash_of_large (by omega), ne_slash_of_large second.1, ne_slash_of_large third.1⟩
  | four start third fourth made =>
    obtain ⟨least, _, second, _⟩ := Utf8.starts_three_iff.mp start
    simp only [List.mem_cons, List.not_mem_nil, or_false, forall_eq_or_imp, forall_eq]
    exact ⟨ne_slash_of_large (by omega), ne_slash_of_large second.1, ne_slash_of_large third.1,
      ne_slash_of_large fourth.1⟩

theorem exists_encode_of_mem_pieces {chars : List Char} (member : piece ∈ pieces (encode chars)) :
    ∃ inside, piece = encode inside := by
  induction chars generalizing piece with
  | nil => exact ⟨[], List.mem_singleton.mp member⟩
  | cons c rest ih =>
    by_cases same : c = '/'
    · have front : encode ('/' :: rest) = slash :: encode rest := rfl
      rw [same, front, pieces_slash] at member
      rcases List.mem_cons.mp member with rfl | later
      · exact ⟨[], rfl⟩
      · exact ih later
    · have other : c.toNat ≠ 0x2f := fun alike => same (Char.toNat_inj.mp alike)
      obtain ⟨first, more, split, joined⟩ := pieces_append (encode rest)
        (ne_slash_of_spells (Utf8.spells_encodeChar c) other)
      have front : encode (c :: rest) = String.utf8EncodeChar c ++ encode rest := rfl
      rw [front, joined] at member
      rcases List.mem_cons.mp member with rfl | later
      · obtain ⟨inside, rfl⟩ := ih (split ▸ List.mem_cons_self)
        exact ⟨c :: inside, rfl⟩
      · exact ih (split ▸ List.mem_cons_of_mem _ later)

theorem exists_encode_intercalate {list : List (List UInt8)}
    (each : ∀ piece ∈ list, ∃ inside, piece = encode inside) :
    ∃ chars, [slash].intercalate list = encode chars := by
  induction list with
  | nil => exact ⟨[], rfl⟩
  | cons piece more ih =>
    obtain ⟨⟨inside, rfl⟩, later⟩ := List.forall_mem_cons.mp each
    obtain ⟨chars, joined⟩ := ih later
    cases more with
    | nil => exact ⟨inside, by simp [List.intercalate]⟩
    | cons next more =>
      have between : encode (inside ++ '/' :: chars) = encode inside ++ slash :: encode chars :=
        List.flatMap_append
      exact ⟨inside ++ '/' :: chars, by simp [List.intercalate, between, ← joined]⟩

theorem isText_of_pieces (each : ∀ piece ∈ pieces path.bytes, ∃ inside, piece = encode inside) :
    path.IsText := by
  obtain ⟨chars, joined⟩ := exists_encode_intercalate each
  refine ⟨String.ofList chars, SystemString.ext ?_⟩
  rw [← intercalate_pieces path.bytes, joined, SystemString.ofText, String.toList_ofList]

theorem piece_of_name {word : SystemString} (found : Component.ofPiece? piece = some (.name word)) :
    piece = word.bytes := by
  unfold Component.ofPiece? at found
  split at found
  · cases found
  · split at found
    · cases found
    · cases found
      rfl

theorem name_mem_components_iff {word : SystemString} :
    .name word ∈ components path ↔
      ∃ piece ∈ pieces path.bytes, Component.ofPiece? piece = some (.name word) := by
  have first : .name word ∉ start path := by
    unfold start
    split
    · simp
    · split <;> simp
  simp [components, first, List.mem_filterMap]

theorem isText_of_same (same : Same text path) : path.IsText := by
  refine isText_of_pieces fun piece member => ?_
  by_cases plain : piece = [] ∨ piece = [dot] ∨ piece = [dot, dot]
  · rcases plain with rfl | rfl | rfl
    · exact ⟨[], rfl⟩
    · exact ⟨['.'], rfl⟩
    · exact ⟨['.', '.'], rfl⟩
  · simp only [not_or] at plain
    have found : Component.ofPiece? piece = some (.name ⟨piece⟩) := by
      simp [Component.ofPiece?, plain]
    have shared : .name ⟨piece⟩ ∈ components text := same ▸ name_mem_components_iff.mpr ⟨_, member, found⟩
    obtain ⟨other, inside, named⟩ := name_mem_components_iff.mp shared
    obtain rfl := piece_of_name named
    exact exists_encode_of_mem_pieces inside

end Path
end BuildArgs
