import BuildArgs.Json

/-!
Reading a JSON text as a record with known fields. The record is an object, in which
fields may come in any order and members with other names are passed over, or an array with
the fields in order, in which fields at the end may be missing. The values of known fields
are scalars; a value that is passed over may be any JSON value.
-/

namespace BuildArgs.Json

inductive Scalar where
  | null
  | boolean (value : Bool)
  | natural (value : Nat)
  | text (value : String)
  deriving DecidableEq, Repr

abbrev Record := List (String × Scalar)

def skipSpace (text : List Char) : List Char :=
  text.dropWhile fun c => c == ' ' || c == '\n' || c == '\t' || c == '\r'

def afterWord : List Char → List Char → Option (List Char)
  | [], text => some text
  | c :: word, d :: text => if c = d then afterWord word text else none
  | _ :: _, [] => none

def hexValue (c : Char) : Option Nat :=
  if '0' ≤ c ∧ c ≤ '9' then some (c.toNat - 48)
  else if 'a' ≤ c ∧ c ≤ 'f' then some (c.toNat - 87)
  else if 'A' ≤ c ∧ c ≤ 'F' then some (c.toNat - 55)
  else none

def hexUnit (a b c d : Char) : Option Nat := do
  let a ← hexValue a
  let b ← hexValue b
  let c ← hexValue c
  let d ← hexValue d
  return ((a * 16 + b) * 16 + c) * 16 + d

def isHighSurrogate (unit : Nat) : Bool := 0xd800 ≤ unit && unit < 0xdc00

def isLowSurrogate (unit : Nat) : Bool := 0xdc00 ≤ unit && unit < 0xe000

def unescape (c : Char) : Option Char :=
  match c with
  | '"' => some '"'
  | '\\' => some '\\'
  | '/' => some '/'
  | 'b' => some '\x08'
  | 'f' => some '\x0c'
  | 'n' => some '\n'
  | 'r' => some '\r'
  | 't' => some '\t'
  | _ => none

def consText (c : Char) (read : Option (List Char × List Char)) : Option (List Char × List Char) :=
  read.map fun result => (c :: result.1, result.2)

/-- Reads a quoted text after its opening mark. Two escaped surrogates stand for one
character, and one alone stands for none. -/
def readText : List Char → Option (List Char × List Char)
  | '"' :: rest => some ([], rest)
  | '\\' :: 'u' :: a :: b :: c :: d :: rest =>
    match hexUnit a b c d with
    | none => none
    | some unit =>
      if isLowSurrogate unit then none
      else if isHighSurrogate unit then
        match rest with
        | '\\' :: 'u' :: e :: f :: g :: h :: rest =>
          match hexUnit e f g h with
          | none => none
          | some low =>
            if isLowSurrogate low then
              consText (Char.ofNat (0x10000 + (unit - 0xd800) * 0x400 + (low - 0xdc00)))
                (readText rest)
            else none
        | _ => none
      else consText (Char.ofNat unit) (readText rest)
  | '\\' :: c :: rest =>
    match unescape c with
    | none => none
    | some plain => consText plain (readText rest)
  | c :: rest => if c < ' ' ∨ c = '\\' then none else consText c (readText rest)
  | [] => none

/-- Passes over a quoted text after its opening mark. Escaped surrogates need no partner. -/
def skipText : List Char → Option (List Char)
  | '"' :: rest => some rest
  | '\\' :: 'u' :: a :: b :: c :: d :: rest =>
    match hexUnit a b c d with
    | none => none
    | some _ => skipText rest
  | '\\' :: c :: rest =>
    match unescape c with
    | none => none
    | some _ => skipText rest
  | c :: rest => if c < ' ' ∨ c = '\\' then none else skipText rest
  | [] => none

def readDigits (text : List Char) : Option (List Char × List Char) :=
  match text with
  | '0' :: rest => if rest.head?.any Char.isDigit then none else some (['0'], rest)
  | _ =>
    let digits := text.takeWhile Char.isDigit
    if digits.isEmpty then none else some (digits, text.dropWhile Char.isDigit)

def skipDigits (text : List Char) : Option (List Char) :=
  if text.head?.any Char.isDigit then some (text.dropWhile Char.isDigit) else none

def skipExponent (text : List Char) : Option (List Char) :=
  match text with
  | c :: rest =>
    if c = 'e' ∨ c = 'E' then
      match rest with
      | '+' :: digits => skipDigits digits
      | '-' :: digits => skipDigits digits
      | digits => skipDigits digits
    else some text
  | [] => some []

def skipFraction (text : List Char) : Option (List Char) :=
  match text with
  | '.' :: rest => skipDigits rest
  | _ => some text

def skipNumber (text : List Char) : Option (List Char) := do
  let unsigned := match text with
    | '-' :: rest => rest
    | _ => text
  let (_, rest) ← readDigits unsigned
  let rest ← skipFraction rest
  skipExponent rest

def skipLeaf (text : List Char) : Option (List Char) :=
  match text with
  | '"' :: rest => skipText rest
  | 'n' :: rest => afterWord "ull".toList rest
  | 't' :: rest => afterWord "rue".toList rest
  | 'f' :: rest => afterWord "alse".toList rest
  | _ => skipNumber text

inductive Bracket where
  | array
  | object
  deriving DecidableEq, Repr

def skipName (text : List Char) : Option (List Char) :=
  match skipSpace text with
  | '"' :: rest =>
    match skipText rest with
    | none => none
    | some rest =>
      match skipSpace rest with
      | ':' :: rest => some rest
      | _ => none
  | _ => none

inductive Pending where
  | value
  | following

/-- Passes over values until every bracket in `opened` is closed. Every step takes at least
one character, so as many steps as there are characters suffice. -/
def skipSteps : Nat → Pending → List Bracket → List Char → Option (List Char)
  | 0, .following, [], text => some text
  | 0, _, _, _ => none
  | _ + 1, .following, [], text => some text
  | steps + 1, .following, bracket :: opened, text =>
    match bracket, skipSpace text with
    | .array, ',' :: rest => skipSteps steps .value (.array :: opened) rest
    | .array, ']' :: rest => skipSteps steps .following opened rest
    | .object, ',' :: rest =>
      match skipName rest with
      | none => none
      | some rest => skipSteps steps .value (.object :: opened) rest
    | .object, '\x7d' :: rest => skipSteps steps .following opened rest
    | _, _ => none
  | steps + 1, .value, opened, text =>
    match skipSpace text with
    | '[' :: rest =>
      match skipSpace rest with
      | ']' :: rest => skipSteps steps .following opened rest
      | rest => skipSteps steps .value (.array :: opened) rest
    | '\x7b' :: rest =>
      match skipSpace rest with
      | '\x7d' :: rest => skipSteps steps .following opened rest
      | rest =>
        match skipName rest with
        | none => none
        | some rest => skipSteps steps .value (.object :: opened) rest
    | leaf =>
      match skipLeaf leaf with
      | none => none
      | some rest => skipSteps steps .following opened rest

def skipValue (text : List Char) : Option (List Char) := skipSteps text.length .value [] text

def digitsValue (digits : List Char) : Nat :=
  digits.foldl (fun value digit => value * 10 + (digit.toNat - 48)) 0

def readScalar (text : List Char) : Option (Scalar × List Char) :=
  match text with
  | '"' :: rest => (readText rest).map fun read => (.text (String.ofList read.1), read.2)
  | 'n' :: rest => (afterWord "ull".toList rest).map fun rest => (.null, rest)
  | 't' :: rest => (afterWord "rue".toList rest).map fun rest => (.boolean true, rest)
  | 'f' :: rest => (afterWord "alse".toList rest).map fun rest => (.boolean false, rest)
  | _ =>
    match readDigits text with
    | none => none
    | some (digits, rest) =>
      if rest.head?.any fun c => c == '.' || c == 'e' || c == 'E' then none
      else some (.natural (digitsValue digits), rest)

def readMembers (fields : List String) : Nat → Record → List Char → Option (Record × List Char)
  | 0, _, _ => none
  | steps + 1, read, text =>
    match text with
    | '"' :: rest =>
      match readText rest with
      | none => none
      | some (name, rest) =>
        match skipSpace rest with
        | ':' :: rest =>
          let name := String.ofList name
          let result :=
            if name ∈ fields then
              if read.any (·.1 == name) then none
              else (readScalar (skipSpace rest)).map fun found => (read ++ [(name, found.1)], found.2)
            else (skipValue rest).map fun rest => (read, rest)
          match result with
          | none => none
          | some (read, rest) =>
            match skipSpace rest with
            | ',' :: rest => readMembers fields steps read (skipSpace rest)
            | '\x7d' :: rest => some (read, rest)
            | _ => none
        | _ => none
    | _ => none

def readElements : List String → List Char → Option (Record × List Char)
  | [], _ => none
  | field :: fields, text =>
    match readScalar text with
    | none => none
    | some (value, rest) =>
      match skipSpace rest with
      | ']' :: rest => some ([(field, value)], rest)
      | ',' :: rest =>
        (readElements fields (skipSpace rest)).map fun read => ((field, value) :: read.1, read.2)
      | _ => none

def readRecord (fields : List String) (text : String) : Option Record := do
  let (record, rest) ←
    match skipSpace text.toList with
    | '\x7b' :: rest =>
      match skipSpace rest with
      | '\x7d' :: rest => some ([], rest)
      | rest => readMembers fields (rest.length + 1) [] rest
    | '[' :: rest =>
      match skipSpace rest with
      | ']' :: rest => some ([], rest)
      | rest => readElements fields rest
    | _ => none
  if (skipSpace rest).isEmpty then return record else none

namespace Record

def text? (record : Record) (field : String) : Option String :=
  match record.lookup field with
  | some (.text value) => some value
  | _ => none

def flag? (record : Record) (field : String) : Option Bool :=
  match record.lookup field with
  | some (.boolean value) => some value
  | none => some false
  | _ => none

def word? (record : Record) (field : String) : Option (Option UInt32) :=
  match record.lookup field with
  | some (.natural value) => if value < UInt32.size then some (some (UInt32.ofNat value)) else none
  | some .null => some none
  | none => some none
  | _ => none

end Record
end BuildArgs.Json
