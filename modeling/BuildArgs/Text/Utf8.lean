/-!
UTF-8. Only the shortest form of a scalar value is accepted, so every text has one encoding. The
first byte that cannot continue a text is reported with its place; where bytes are only shown, each
broken sequence of them is replaced instead.
-/

namespace BuildArgs.Utf8

/-- Where decoding stopped. `width` counts the bytes that are skipped as one broken
sequence; it is absent when the input ends inside a sequence that could still be completed. -/
structure Fault where
  index : Nat
  width : Option Nat
  deriving DecidableEq, Repr

def Fault.message (fault : Fault) : String :=
  match fault.width with
  | some width =>
    "invalid utf-8 sequence of " ++ toString width ++ " bytes from index " ++ toString fault.index
  | none => "incomplete utf-8 byte sequence from index " ++ toString fault.index

/-- How many bytes follow the first one of a sequence, and the range of the second byte. -/
structure Lead where
  following : Nat
  least : UInt8
  greatest : UInt8
  deriving DecidableEq, Repr

def Lead.of? (byte : UInt8) : Option Lead :=
  if byte < 0x80 then some ⟨0, 0x80, 0xbf⟩
  else if byte < 0xc2 then none
  else if byte < 0xe0 then some ⟨1, 0x80, 0xbf⟩
  else if byte = 0xe0 then some ⟨2, 0xa0, 0xbf⟩
  else if byte = 0xed then some ⟨2, 0x80, 0x9f⟩
  else if byte < 0xf0 then some ⟨2, 0x80, 0xbf⟩
  else if byte = 0xf0 then some ⟨3, 0x90, 0xbf⟩
  else if byte < 0xf4 then some ⟨3, 0x80, 0xbf⟩
  else if byte = 0xf4 then some ⟨3, 0x80, 0x8f⟩
  else none

def leadBits (following : Nat) (byte : UInt8) : Nat :=
  match following with
  | 0 => byte.toNat
  | 1 => byte.toNat % 0x20
  | 2 => byte.toNat % 0x10
  | _ => byte.toNat % 0x08

/-- Decodes bytes from `index` on. `pending` is the sequence under way: the bytes read of it,
the bytes still to come, the range of the next one and the bits so far. -/
def decodeFrom (index : Nat) (pending : Option (Nat × Nat × UInt8 × UInt8 × Nat)) :
    List UInt8 → Except Fault (List Char)
  | [] =>
    match pending with
    | none => .ok []
    | some _ => .error ⟨index, none⟩
  | byte :: rest =>
    match pending with
    | none =>
      match Lead.of? byte with
      | none => .error ⟨index, some 1⟩
      | some ⟨0, _, _⟩ => (decodeFrom (index + 1) none rest).map (Char.ofNat byte.toNat :: ·)
      | some ⟨following, least, greatest⟩ =>
        decodeFrom index (some (1, following, least, greatest, leadBits following byte)) rest
    | some (seen, following, least, greatest, bits) =>
      if least ≤ byte ∧ byte ≤ greatest then
        let value := bits * 0x40 + byte.toNat % 0x40
        if following = 1 then
          (decodeFrom (index + seen + 1) none rest).map (Char.ofNat value :: ·)
        else decodeFrom index (some (seen + 1, following - 1, 0x80, 0xbf, value)) rest
      else .error ⟨index, some seen⟩

def decode (bytes : List UInt8) : Except Fault (List Char) := decodeFrom 0 none bytes

def encode (chars : List Char) : List UInt8 := chars.flatMap String.utf8EncodeChar

def replacement : Char := '\ufffd'

def begin (byte : UInt8) : List Char × Option (Nat × UInt8 × UInt8 × Nat) :=
  match Lead.of? byte with
  | none => ([replacement], none)
  | some ⟨0, _, _⟩ => ([Char.ofNat byte.toNat], none)
  | some ⟨following, least, greatest⟩ =>
    ([], some (following, least, greatest, leadBits following byte))

/-- Decodes bytes of any kind. A sequence is broken at the first byte that cannot continue it, and
that byte may begin another one. -/
def decodeLossyFrom (pending : Option (Nat × UInt8 × UInt8 × Nat)) : List UInt8 → List Char
  | [] => if pending.isSome then [replacement] else []
  | byte :: rest =>
    match pending with
    | none => (begin byte).1 ++ decodeLossyFrom (begin byte).2 rest
    | some (following, least, greatest, bits) =>
      if least ≤ byte ∧ byte ≤ greatest then
        let value := bits * 0x40 + byte.toNat % 0x40
        if following = 1 then Char.ofNat value :: decodeLossyFrom none rest
        else decodeLossyFrom (some (following - 1, 0x80, 0xbf, value)) rest
      else replacement :: ((begin byte).1 ++ decodeLossyFrom (begin byte).2 rest)

def decodeLossy (bytes : List UInt8) : List Char := decodeLossyFrom none bytes

end BuildArgs.Utf8
