import BuildArgs.Host
import BuildArgs.Proofs.Json.Compact
import BuildArgs.Source
import BuildArgs.Toolchain

/-! Records are read back. From the compact text of an object whose members are scalars, under
different names that are fields, the reader takes just these members; so every identity that is kept
as JSON is read as what it was. -/

namespace BuildArgs

namespace Json

open Text (Delimited Leads delimited_further further joined)

variable {rest : List Char} {fields : List String} {read record : Record} {steps : Nat}

/-! Scalars in front of a mark -/

theorem readDigits_toDigits (number : Nat) (ends : Delimited rest) :
    readDigits (Nat.toDigits 10 number ++ rest) = some (Nat.toDigits 10 number, rest) := by
  have decimal : ∀ c ∈ Nat.toDigits 10 number, c.isDigit = true := fun _ => isDigit_of_mem_toDigits
  rcases Nat.eq_zero_or_pos number with rfl | positive
  · cases rest with
    | nil => rfl
    | cons c rest => rcases Text.isMark_iff.mp (ends c rfl) with rfl | rfl | rfl | rfl | rfl <;> rfl
  · have lead := head_toDigits_ne_zero positive
    obtain ⟨c, digits, written, _⟩ := exists_cons_toDigits number
    rw [written] at decimal lead ⊢
    rw [readDigits, Text.takeWhile_isDigit_append decimal ends,
      Text.dropWhile_isDigit_append decimal ends]
    · rfl
    · intro more same
      exact lead (congrArg some (List.cons.inj same).1)

theorem digitsValue_toDigits (number : Nat) : digitsValue (Nat.toDigits 10 number) = number :=
  foldl_toDigits fun _ _ => rfl

def Scalar.toJson : Scalar → Json
  | .null => .null
  | .boolean value => .boolean value
  | .natural value => .integer value
  | .text value => .string value

theorem readScalar_digits (number : Nat) (ends : Delimited rest) :
    readScalar (Nat.toDigits 10 number ++ rest) = some (.natural number, rest) := by
  have read := readDigits_toDigits number ends
  obtain ⟨c, digits, written, digit⟩ := exists_cons_toDigits number
  have apart (d : Char) (plain : d.isDigit = false) (more : List Char) :
      Nat.toDigits 10 number ++ rest ≠ d :: more := by
    rw [written]
    intro same
    rw [(List.cons.inj same).1, plain] at digit
    cases digit
  have integral : rest.head?.any (fun c => c == '.' || c == 'e' || c == 'E') = false := by
    cases rest with
    | nil => rfl
    | cons c rest => rcases Text.isMark_iff.mp (ends c rfl) with rfl | rfl | rfl | rfl | rfl <;> rfl
  rw [readScalar]
  · simp [read, integral, digitsValue_toDigits]
  · exact apart _ rfl
  · exact apart _ rfl
  · exact apart _ rfl
  · exact apart _ rfl

theorem readScalar_chars (scalar : Scalar) (ends : Delimited rest) :
    readScalar (scalar.toJson.chars ++ rest) = some (scalar, rest) := by
  cases scalar with
  | null => rfl
  | boolean value => cases value <;> rfl
  | natural number =>
    have digits : (Scalar.natural number).toJson.chars = Nat.toDigits 10 number :=
      decimal_ofNat number
    rw [digits, readScalar_digits number ends]
  | text value =>
    have text : (Scalar.text value).toJson.chars ++ rest =
        '"' :: (value.toList.flatMap escape ++ '"' :: rest) := by
      simp [Scalar.toJson, chars, quote]
    rw [text, readScalar, readText_quoted, Option.map_some, String.ofList_toList]

/-! Records -/

theorem skipSpace_of_leads {text : List Char} {rank : Nat} (leads : Leads text rank) :
    skipSpace (text ++ rest) = text ++ rest := by
  obtain ⟨c, text, rfl, lead⟩ := leads
  have space : c ≠ ' ' := Text.ne_of_lead lead nofun
  have newline : c ≠ '\n' := Text.ne_of_lead lead nofun
  have tab : c ≠ '\t' := Text.ne_of_lead lead nofun
  have carriageReturn : c ≠ '\r' := Text.ne_of_lead lead nofun
  simp [skipSpace, space, newline, tab, carriageReturn]

def Record.toJson (record : Record) : Json :=
  .object (record.map fun field => (field.1, field.2.toJson))

def fieldText (field : String × Scalar) : List Char := memberText (field.1, field.2.toJson)

theorem chars_toJson (record : Record) :
    record.toJson.chars = '\x7b' :: joined fieldText [] record ++ ['\x7d'] := by
  have members : joined memberText [] (record.map fun field => (field.1, field.2.toJson)) =
      joined fieldText [] record := by
    cases record with
    | nil => rfl
    | cons field record => simp [joined, further, fieldText, List.flatMap_map]
  rw [Record.toJson, chars, memberChars_eq_joined, members]

def afterMember (fields : List String) (steps : Nat) (read : Record) (text : List Char) :
    Option (Record × List Char) :=
  match skipSpace text with
  | ',' :: rest => readMembers fields steps read (skipSpace rest)
  | '\x7d' :: rest => some (read, rest)
  | _ => none

theorem readMembers_fieldText {field : String × Scalar} (known : field.1 ∈ fields)
    (fresh : field.1 ∉ read.map Prod.fst) (ends : Delimited rest) :
    readMembers fields (steps + 1) read (fieldText field ++ rest) =
      afterMember fields steps (read ++ [field]) rest := by
  have text : fieldText field ++ rest =
      '"' :: (field.1.toList.flatMap escape ++ '"' :: (':' :: (field.2.toJson.chars ++ rest))) := by
    simp [fieldText, memberText, quote]
  have colon : skipSpace (':' :: (field.2.toJson.chars ++ rest)) =
      ':' :: (field.2.toJson.chars ++ rest) := rfl
  have unread : read.any (fun entry => entry.1 == field.1) = false := by
    simpa using fun other value member same => fresh (List.mem_map.mpr ⟨_, member, same⟩)
  rw [text, readMembers, readText_quoted]
  simp only [colon, String.ofList_toList, known, if_true, unread, Bool.false_eq_true, if_false,
    skipSpace_of_leads (leads_chars field.2.toJson), readScalar_chars field.2 ends, Option.map_some]
  rfl

theorem afterMember_further (known : ∀ field ∈ record, field.1 ∈ fields)
    (distinct : ((read ++ record).map Prod.fst).Nodup) (enough : record.length ≤ steps) :
    afterMember fields steps read (further fieldText [] record ++ '\x7d' :: rest) =
      some (read ++ record, rest) := by
  induction record generalizing read steps with
  | nil => rw [List.append_nil]; rfl
  | cons field record ih =>
    obtain ⟨fewer, rfl⟩ := Nat.exists_eq_add_of_lt enough
    obtain ⟨first, others⟩ := List.forall_mem_cons.mp known
    have text : further fieldText [] (field :: record) ++ '\x7d' :: rest =
        ',' :: (fieldText field ++ (further fieldText [] record ++ '\x7d' :: rest)) := by
      simp [further]
    have fresh : field.1 ∉ read.map Prod.fst := by
      rw [List.map_append, List.nodup_append] at distinct
      exact fun old => distinct.2.2 _ old _ List.mem_cons_self rfl
    have ends : Delimited (further fieldText [] record ++ '\x7d' :: rest) :=
      delimited_further rfl record rest
    calc
      afterMember fields _ read (further fieldText [] (field :: record) ++ '\x7d' :: rest)
      _ = readMembers fields _ read
            (fieldText field ++ (further fieldText [] record ++ '\x7d' :: rest)) := by
        rw [text]
        rfl
      _ = afterMember fields (record.length + fewer) (read ++ [field])
            (further fieldText [] record ++ '\x7d' :: rest) :=
        readMembers_fieldText first fresh ends
      _ = some (read ++ field :: record, rest) := by
        have distinct : ((read ++ [field] ++ record).map Prod.fst).Nodup := by simpa using distinct
        rw [ih others distinct (Nat.le_add_right _ _), List.append_assoc]
        rfl

theorem readRecord_toJson (known : ∀ field ∈ record, field.1 ∈ fields)
    (distinct : (record.map Prod.fst).Nodup) :
    readRecord fields record.toJson.compact = some record := by
  rw [readRecord, compact, String.toList_ofList, chars_toJson]
  cases record with
  | nil => rfl
  | cons field record =>
    obtain ⟨first, others⟩ := List.forall_mem_cons.mp known
    have ends : Delimited (further fieldText [] record ++ ['\x7d']) :=
      delimited_further rfl record []
    let body := joined fieldText [] (field :: record) ++ ['\x7d']
    have enough : record.length ≤ body.length := by
      have fewer : (field :: record).length ≤ (joined fieldText [] (field :: record)).length + 1 :=
        Text.length_le_joined _
      rw [List.length_cons] at fewer
      rw [List.length_append]
      omega
    have members : readMembers fields (body.length + 1) [] body = some (field :: record, []) := by
      calc
        _ = afterMember fields body.length [field] (further fieldText [] record ++ ['\x7d']) := by
          simp only [body, joined, List.append_assoc]
          exact readMembers_fieldText first List.not_mem_nil ends
        _ = some (field :: record, []) := afterMember_further others distinct enough
    change (readMembers fields (body.length + 1) [] body).bind _ = _
    rw [members]
    rfl

end Json

theorem Origin.ofJson?_compact (origin : Origin) :
    Origin.ofJson? origin.toJson.compact = some origin := by
  obtain ⟨file, line⟩ := origin
  cases line with
  | none =>
    have record : (Origin.mk file none).toJson = Json.Record.toJson [("file", .text file)] := rfl
    rw [ofJson?, record, Json.readRecord_toJson (by simp) (by simp)]
    rfl
  | some line =>
    have record : (Origin.mk file (some line)).toJson =
        Json.Record.toJson [("file", .text file), ("line", .natural line.toNat)] := rfl
    have word : Json.Record.word? [("file", .text file), ("line", .natural line.toNat)] "line" =
        some (some line) := by
      have found : List.lookup "line"
          [("file", Json.Scalar.text file), ("line", .natural line.toNat)] =
            some (.natural line.toNat) := rfl
      rw [Json.Record.word?, found]
      exact (if_pos line.toNat_lt_size).trans (by rw [UInt32.ofNat_toNat])
    rw [ofJson?, record, Json.readRecord_toJson (by simp) (by simp), Option.bind_eq_bind,
      Option.bind_some, word]
    rfl

theorem Toolchain.ofJson?_compact (toolchain : Toolchain) :
    Toolchain.ofJson? toolchain.toJson.compact = some toolchain := by
  have record : toolchain.toJson = Json.Record.toJson
      [("label", .text toolchain.label), ("is_default", .boolean toolchain.isDefault)] := rfl
  rw [ofJson?, record, Json.readRecord_toJson (by simp) (by simp)]
  rfl

theorem Host.ofJson?_compact (host : Host) : Host.ofJson? host.toJson.compact = some host := by
  have record : host.toJson =
      Json.Record.toJson [("os", .text host.os), ("cpu", .text host.cpu)] := rfl
  rw [ofJson?, record, Json.readRecord_toJson (by simp) (by simp)]
  rfl

theorem Source.ofJson?_compact (source : Source) :
    Source.ofJson? source.toJson.compact = some source := by
  have record : source.toJson =
      Json.Record.toJson [("path", .text source.path), ("digest", .text source.digest)] := rfl
  rw [ofJson?, record, Json.readRecord_toJson (by simp) (by simp)]
  rfl

/-- Places, toolchains, hosts and sources are read from their compact JSON texts as they were. A place
without a line is written with its file only. -/
theorem identities_read_back :
    (∀ origin : Origin, Origin.ofJson? origin.toJson.compact = some origin) ∧
      (∀ toolchain : Toolchain, Toolchain.ofJson? toolchain.toJson.compact = some toolchain) ∧
      (∀ host : Host, Host.ofJson? host.toJson.compact = some host) ∧
      (∀ source : Source, Source.ofJson? source.toJson.compact = some source) ∧
      ∀ file : String, (Origin.ofFile file).toJson.compact =
        String.ofList ('\x7b' :: Json.quote "file" ++ ':' :: Json.quote file ++ ['\x7d']) :=
  ⟨Origin.ofJson?_compact, Toolchain.ofJson?_compact, Host.ofJson?_compact, Source.ofJson?_compact,
    fun _ => rfl⟩

end BuildArgs
