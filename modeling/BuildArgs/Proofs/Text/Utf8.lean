import BuildArgs.SystemString

/-! Decoding undoes encoding. Bytes decode exactly if they are those of a text, and they are shown as that
text then. -/

namespace BuildArgs

namespace Utf8

def IsTail (byte : UInt8) : Prop := 0x80 ≤ byte.toNat ∧ byte.toNat < 0xc0

/-- Whether a sequence may start with two bytes and go on with all but one of `following` more. -/
def Starts (following : Nat) (first second : UInt8) : Prop :=
  ∃ lead, Lead.of? first = some lead ∧ lead.following = following ∧
    lead.least ≤ second ∧ second ≤ lead.greatest

variable {byte first second third fourth : UInt8} {bytes rest : List UInt8} {chars : List Char}
  {index seen bits following : Nat} {least greatest : UInt8} {c : Char}

theorem lead_zero_iff :
    (∃ lead, Lead.of? byte = some lead ∧ lead.following = 0) ↔ byte.toNat < 0x80 := by
  unfold Lead.of?
  repeat' split
  all_goals simp_all [UInt8.lt_iff_toNat_lt, ← UInt8.toNat_inj]

theorem starts_one_iff :
    Starts 1 first second ↔ 0xc2 ≤ first.toNat ∧ first.toNat < 0xe0 ∧ IsTail second := by
  unfold Starts Lead.of? IsTail
  repeat' split
  all_goals simp_all [UInt8.lt_iff_toNat_lt, UInt8.le_iff_toNat_le, ← UInt8.toNat_inj]
  all_goals omega

theorem starts_two_iff :
    Starts 2 first second ↔ 0xe0 ≤ first.toNat ∧ first.toNat < 0xf0 ∧ IsTail second ∧
      (first.toNat = 0xe0 → 0xa0 ≤ second.toNat) ∧ (first.toNat = 0xed → second.toNat < 0xa0) := by
  unfold Starts Lead.of? IsTail
  repeat' split
  all_goals simp_all [UInt8.lt_iff_toNat_lt, UInt8.le_iff_toNat_le, ← UInt8.toNat_inj]
  all_goals omega

theorem starts_three_iff :
    Starts 3 first second ↔ 0xf0 ≤ first.toNat ∧ first.toNat < 0xf5 ∧ IsTail second ∧
      (first.toNat = 0xf0 → 0x90 ≤ second.toNat) ∧ (first.toNat = 0xf4 → second.toNat < 0x90) := by
  unfold Starts Lead.of? IsTail
  repeat' split
  all_goals simp_all [UInt8.lt_iff_toNat_lt, UInt8.le_iff_toNat_le, ← UInt8.toNat_inj]
  all_goals omega

/-- That bytes are one sequence, and the number that it stands for. -/
inductive Spells : List UInt8 → Nat → Prop
  | one {a : UInt8} {value} : value < 0x80 → value = a.toNat → Spells [a] value
  | two {a b : UInt8} {value} : Starts 1 a b → value = a.toNat % 0x20 * 0x40 + b.toNat % 0x40 →
      Spells [a, b] value
  | three {a b c : UInt8} {value} : Starts 2 a b → IsTail c →
      value = (a.toNat % 0x10 * 0x40 + b.toNat % 0x40) * 0x40 + c.toNat % 0x40 →
      Spells [a, b, c] value
  | four {a b c d : UInt8} {value} : Starts 3 a b → IsTail c → IsTail d →
      value = ((a.toNat % 0x08 * 0x40 + b.toNat % 0x40) * 0x40 + c.toNat % 0x40) * 0x40 +
        d.toNat % 0x40 →
      Spells [a, b, c, d] value

theorem isTail_iff : 0x80 ≤ byte ∧ byte ≤ 0xbf ↔ IsTail byte := by
  simp only [IsTail, UInt8.le_iff_toNat_le, UInt8.reduceToNat]
  omega

theorem map_cons_eq_ok_iff {read : Except Fault (List Char)} :
    read.map (c :: ·) = .ok chars ↔ ∃ more, chars = c :: more ∧ read = .ok more := by
  cases read with
  | error fault => simp [Except.map]
  | ok more => simp [Except.map, eq_comm]

theorem decodeFrom_last_iff :
    decodeFrom index (some (seen, 1, least, greatest, bits)) bytes = .ok chars ↔
      ∃ byte rest more, bytes = byte :: rest ∧ (least ≤ byte ∧ byte ≤ greatest) ∧
        chars = Char.ofNat (bits * 0x40 + byte.toNat % 0x40) :: more ∧
        decodeFrom (index + seen + 1) none rest = .ok more := by
  constructor
  · intro decoded
    cases bytes with
    | nil => cases decoded
    | cons byte rest =>
      by_cases inside : least ≤ byte ∧ byte ≤ greatest
      · simp only [decodeFrom, if_pos inside, if_true, map_cons_eq_ok_iff] at decoded
        obtain ⟨more, made, later⟩ := decoded
        exact ⟨byte, rest, more, rfl, inside, made, later⟩
      · simp [decodeFrom, if_neg inside] at decoded
  · rintro ⟨byte, rest, more, rfl, inside, rfl, later⟩
    simp only [decodeFrom, if_pos inside, if_true]
    exact map_cons_eq_ok_iff.mpr ⟨more, rfl, later⟩

theorem decodeFrom_more_iff :
    decodeFrom index (some (seen, following + 2, least, greatest, bits)) bytes = .ok chars ↔
      ∃ byte rest, bytes = byte :: rest ∧ (least ≤ byte ∧ byte ≤ greatest) ∧
        decodeFrom index (some (seen + 1, following + 1, 0x80, 0xbf,
          bits * 0x40 + byte.toNat % 0x40)) rest = .ok chars := by
  constructor
  · intro decoded
    cases bytes with
    | nil => cases decoded
    | cons byte rest =>
      by_cases inside : least ≤ byte ∧ byte ≤ greatest
      · exact ⟨byte, rest, rfl, inside, by simpa [decodeFrom, if_pos inside] using decoded⟩
      · simp [decodeFrom, if_neg inside] at decoded
  · rintro ⟨byte, rest, rfl, inside, later⟩
    simpa [decodeFrom, if_pos inside] using later

theorem decodeFrom_lead (lead : Lead.of? byte = some ⟨following + 1, least, greatest⟩) :
    decodeFrom index none (byte :: rest) =
      decodeFrom index
        (some (1, following + 1, least, greatest, leadBits (following + 1) byte)) rest := by
  simp [decodeFrom, lead]

theorem decodeFrom_of_spells {value : Nat} (spells : Spells bytes value)
    (later : decodeFrom (index + bytes.length) none rest = .ok chars) :
    decodeFrom index none (bytes ++ rest) = .ok (Char.ofNat value :: chars) := by
  cases spells with
  | one small made =>
    obtain ⟨⟨following, least, greatest⟩, lead, rfl⟩ := lead_zero_iff.mpr (made ▸ small)
    simp only [List.cons_append, decodeFrom, lead, made]
    exact map_cons_eq_ok_iff.mpr ⟨chars, rfl, later⟩
  | two start made =>
    obtain ⟨⟨following, least, greatest⟩, lead, rfl, inside⟩ := start
    subst made
    exact (decodeFrom_lead lead).trans <| decodeFrom_last_iff.mpr ⟨_, _, _, rfl, inside, rfl, later⟩
  | three start third made =>
    obtain ⟨⟨following, least, greatest⟩, lead, rfl, inside⟩ := start
    subst made
    exact (decodeFrom_lead lead).trans <| decodeFrom_more_iff.mpr ⟨_, _, rfl, inside,
      decodeFrom_last_iff.mpr ⟨_, _, _, rfl, isTail_iff.mpr third, rfl, later⟩⟩
  | four start third fourth made =>
    obtain ⟨⟨following, least, greatest⟩, lead, rfl, inside⟩ := start
    subst made
    exact (decodeFrom_lead lead).trans <| decodeFrom_more_iff.mpr ⟨_, _, rfl, inside,
      decodeFrom_more_iff.mpr ⟨_, _, rfl, isTail_iff.mpr third,
        decodeFrom_last_iff.mpr ⟨_, _, _, rfl, isTail_iff.mpr fourth, rfl, later⟩⟩⟩

theorem following_le_three {lead : Lead} (found : Lead.of? byte = some lead) :
    lead.following ≤ 3 := by
  unfold Lead.of? at found
  repeat' split at found
  all_goals cases found
  all_goals decide

theorem exists_spells_of_decodeFrom (decoded : decodeFrom index none (byte :: rest) = .ok chars) :
    ∃ sequence more value later, byte :: rest = sequence ++ more ∧ Spells sequence value ∧
      chars = Char.ofNat value :: later ∧
      decodeFrom (index + sequence.length) none more = .ok later := by
  cases lead : Lead.of? byte with
  | none => simp [decodeFrom, lead] at decoded
  | some found =>
    obtain ⟨following, least, greatest⟩ := found
    match following, following_le_three lead with
    | 0, _ =>
      simp only [decodeFrom, lead, map_cons_eq_ok_iff] at decoded
      obtain ⟨later, made, done⟩ := decoded
      exact ⟨[byte], rest, _, later, rfl, .one (lead_zero_iff.mp ⟨_, lead, rfl⟩) rfl, made, done⟩
    | 1, _ =>
      rw [decodeFrom_lead lead, decodeFrom_last_iff] at decoded
      obtain ⟨second, more, later, rfl, inside, made, done⟩ := decoded
      exact ⟨[byte, second], more, _, later, rfl, .two ⟨_, lead, rfl, inside⟩ rfl, made, done⟩
    | 2, _ =>
      rw [decodeFrom_lead lead, decodeFrom_more_iff] at decoded
      obtain ⟨second, _, rfl, inside, decoded⟩ := decoded
      obtain ⟨third, more, later, rfl, tail, made, done⟩ := decodeFrom_last_iff.mp decoded
      exact ⟨[byte, second, third], more, _, later, rfl,
        .three ⟨_, lead, rfl, inside⟩ (isTail_iff.mp tail) rfl, made, done⟩
    | 3, _ =>
      rw [decodeFrom_lead lead, decodeFrom_more_iff] at decoded
      obtain ⟨second, _, rfl, inside, decoded⟩ := decoded
      obtain ⟨third, _, rfl, tail, decoded⟩ := decodeFrom_more_iff.mp decoded
      obtain ⟨fourth, more, later, rfl, last, made, done⟩ := decodeFrom_last_iff.mp decoded
      exact ⟨[byte, second, third, fourth], more, _, later, rfl,
        .four ⟨_, lead, rfl, inside⟩ (isTail_iff.mp tail) (isTail_iff.mp last) rfl, made, done⟩

theorem toNat_byte {n : Nat} (small : n < 0x100) : (UInt8.ofNat n).toNat = n :=
  UInt8.toNat_ofNat_of_lt' small

theorem byte_eq (byte : UInt8) {n : Nat} (same : n = byte.toNat) : UInt8.ofNat n = byte := by
  rw [same, UInt8.ofNat_toNat]

theorem spells_encodeChar (c : Char) : Spells (String.utf8EncodeChar c) c.toNat := by
  have valid : c.toNat < 0xd800 ∨ 0xdfff < c.toNat ∧ c.toNat < 0x110000 := c.valid
  unfold String.utf8EncodeChar
  simp only [Char.toNat_val]
  generalize c.toNat = n at valid ⊢
  split
  · exact .one (by omega) (toNat_byte (by omega)).symm
  split
  · have first := toNat_byte (n := n / 64 % 32 + 192) (by omega)
    have second := toNat_byte (n := n % 64 + 128) (by omega)
    refine .two (starts_one_iff.mpr ?_) ?_
    · rw [IsTail, first, second]
      omega
    · rw [first, second]
      omega
  split
  · have first := toNat_byte (n := n / 4096 % 16 + 224) (by omega)
    have second := toNat_byte (n := n / 64 % 64 + 128) (by omega)
    have third := toNat_byte (n := n % 64 + 128) (by omega)
    refine .three (starts_two_iff.mpr ?_) ?_ ?_
    · rw [IsTail, first, second]
      omega
    · rw [IsTail, third]
      omega
    · rw [first, second, third]
      omega
  · have first := toNat_byte (n := n / 262144 % 8 + 240) (by omega)
    have second := toNat_byte (n := n / 4096 % 64 + 128) (by omega)
    have third := toNat_byte (n := n / 64 % 64 + 128) (by omega)
    have fourth := toNat_byte (n := n % 64 + 128) (by omega)
    refine .four (starts_three_iff.mpr ?_) ?_ ?_ ?_
    · rw [IsTail, first, second]
      omega
    · rw [IsTail, third]
      omega
    · rw [IsTail, fourth]
      omega
    · rw [first, second, third, fourth]
      omega

theorem toNat_char {n : Nat} (valid : n < 0xd800 ∨ 0xdfff < n ∧ n < 0x110000) :
    (Char.ofNat n).val.toNat = n := by
  rw [Char.ofNat, dif_pos valid]
  rfl

theorem encodeChar_of_spells {value : Nat} (spells : Spells bytes value) :
    String.utf8EncodeChar (Char.ofNat value) = bytes := by
  unfold String.utf8EncodeChar
  cases spells with
  | one small made => rw [toNat_char (by omega), if_pos (by omega), byte_eq _ made]
  | @two a b _ start made =>
    obtain ⟨least, greatest, second⟩ := starts_one_iff.mp start
    rw [IsTail] at second
    rw [toNat_char (by omega), if_neg (by omega), if_pos (by omega), byte_eq a (by omega),
      byte_eq b (by omega)]
  | @three a b c _ start third made =>
    obtain ⟨least, greatest, second, short, surrogate⟩ := starts_two_iff.mp start
    rw [IsTail] at second third
    rw [toNat_char (by omega), if_neg (by omega), if_neg (by omega), if_pos (by omega),
      byte_eq a (by omega), byte_eq b (by omega), byte_eq c (by omega)]
  | @four a b c d _ start third fourth made =>
    obtain ⟨least, greatest, second, short, large⟩ := starts_three_iff.mp start
    rw [IsTail] at second third fourth
    rw [toNat_char (by omega), if_neg (by omega), if_neg (by omega), if_neg (by omega),
      byte_eq a (by omega), byte_eq b (by omega), byte_eq c (by omega), byte_eq d (by omega)]

theorem decodeFrom_encode (index : Nat) (chars : List Char) :
    decodeFrom index none (encode chars) = .ok chars := by
  induction chars generalizing index with
  | nil => rfl
  | cons c rest ih =>
    have here : decodeFrom index none (String.utf8EncodeChar c ++ encode rest) =
        .ok (Char.ofNat c.toNat :: rest) :=
      decodeFrom_of_spells (spells_encodeChar c) (ih _)
    rwa [Char.ofNat_toNat] at here

theorem eq_encode_of_decodeFrom (decoded : decodeFrom index none bytes = .ok chars) :
    bytes = encode chars := by
  induction chars generalizing index bytes with
  | nil =>
    cases bytes with
    | nil => rfl
    | cons byte rest =>
      obtain ⟨_, _, _, _, _, _, made, _⟩ := exists_spells_of_decodeFrom decoded
      cases made
  | cons c chars ih =>
    cases bytes with
    | nil => cases decoded
    | cons byte rest =>
      obtain ⟨sequence, more, value, later, split, spells, made, done⟩ :=
        exists_spells_of_decodeFrom decoded
      obtain ⟨rfl, rfl⟩ := List.cons.inj made
      rw [split, ih done, encode, encode, List.flatMap_cons, encodeChar_of_spells spells]

theorem decode_eq_ok_iff : decode bytes = .ok chars ↔ bytes = encode chars := by
  constructor
  · exact eq_encode_of_decodeFrom
  · rintro rfl
    exact decodeFrom_encode 0 chars

theorem begin_of_lead (lead : Lead.of? byte = some ⟨following + 1, least, greatest⟩) :
    begin byte = ([], some (following + 1, least, greatest, leadBits (following + 1) byte)) := by
  simp [begin, lead]

theorem decodeLossyFrom_of_decodeFrom {pending : Option (Nat × Nat × UInt8 × UInt8 × Nat)}
    (decoded : decodeFrom index pending bytes = .ok chars) :
    decodeLossyFrom (pending.map Prod.snd) bytes = chars := by
  induction bytes generalizing index pending chars with
  | nil =>
    cases pending with
    | none => simpa [decodeFrom, decodeLossyFrom] using decoded
    | some state => cases decoded
  | cons byte rest ih =>
    rcases pending with _ | ⟨seen, following, least, greatest, bits⟩
    · cases lead : Lead.of? byte with
      | none => simp [decodeFrom, lead] at decoded
      | some found =>
        obtain ⟨_ | following, least, greatest⟩ := found
        · simp only [decodeFrom, lead, map_cons_eq_ok_iff] at decoded
          obtain ⟨more, rfl, later⟩ := decoded
          simpa [decodeLossyFrom, begin, lead] using ih later
        · rw [decodeFrom_lead lead] at decoded
          simpa [decodeLossyFrom, begin_of_lead lead] using ih decoded
    · by_cases inside : least ≤ byte ∧ byte ≤ greatest
      · by_cases last : following = 1
        · simp only [decodeFrom, if_pos inside, if_pos last, map_cons_eq_ok_iff] at decoded
          obtain ⟨more, rfl, later⟩ := decoded
          simpa [decodeLossyFrom, inside, last] using ih later
        · simp only [decodeFrom, if_pos inside, if_neg last] at decoded
          simpa [decodeLossyFrom, inside, last] using ih decoded
      · simp [decodeFrom, if_neg inside] at decoded

end Utf8

namespace SystemString

variable {word : SystemString} {text : String}

theorem text?_eq_some_iff : word.text? = some text ↔ word = ofText text := by
  have known : word.text? = some text ↔ Utf8.decode word.bytes = .ok text.toList := by
    cases read : Utf8.decode word.bytes with
    | error fault => simp [text?, read, Except.toOption]
    | ok chars =>
      simp only [text?, read, Except.toOption, Option.map_some, Option.some.injEq, Except.ok.injEq]
      exact ⟨fun same => same ▸ String.toList_ofList.symm, fun same => same ▸ String.ofList_toList⟩
  rw [known, Utf8.decode_eq_ok_iff, SystemString.ext_iff, ofText]

@[simp] theorem text?_ofText (text : String) : (ofText text).text? = some text :=
  text?_eq_some_iff.mpr rfl

theorem ofText_injective : Function.Injective ofText := fun one other same =>
  Option.some.inj ((text?_ofText one).symm.trans (same ▸ text?_ofText other))

@[simp] theorem shown_ofText (text : String) : (ofText text).shown = text := by
  have decoded : Utf8.decodeFrom 0 none (ofText text).bytes = .ok text.toList :=
    Utf8.decodeFrom_encode 0 text.toList
  rw [shown, Utf8.decodeLossy]
  exact (congrArg String.ofList (Utf8.decodeLossyFrom_of_decodeFrom decoded)).trans
    String.ofList_toList

end SystemString
end BuildArgs
