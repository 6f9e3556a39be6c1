import BuildArgs.Binary64
import BuildArgs.Toml.Reader

/-!
Numbers. Digits may be separated by single underscores. Integers are signed and have
sixty-four bits; with a base they have no sign. Other numbers are rounded to the nearest
floating-point number, which must not be positive and too large.
-/

namespace BuildArgs.Toml

inductive Number where
  | integer (value : Int64)
  | float (value : Binary64)
  deriving DecidableEq

def moreDigits (isDigit : Char → Bool) : Reader (List Char)
  | '_' :: c :: rest =>
    if isDigit c then (moreDigits isDigit rest).map fun read => (c :: read.1, read.2) else none
  | c :: rest =>
    if c = '_' then none
    else if isDigit c then (moreDigits isDigit rest).map fun read => (c :: read.1, read.2)
    else some ([], c :: rest)
  | [] => some ([], [])

def someDigits (isDigit : Char → Bool) : Reader (List Char)
  | c :: rest =>
    if isDigit c then (moreDigits isDigit rest).map fun read => (c :: read.1, read.2) else none
  | [] => none

def wholeDigits : Reader (List Char)
  | '0' :: rest => some (['0'], rest)
  | text => someDigits Char.isDigit text

def readSign (text : List Char) : Bool × List Char :=
  match text with
  | '-' :: rest => (true, rest)
  | '+' :: rest => (false, rest)
  | _ => (false, text)

def signedInteger (negative : Bool) (size : Nat) : Option Int64 :=
  let value : Int := if negative then -(size : Int) else size
  if Int64.minValue.toInt ≤ value ∧ value ≤ Int64.maxValue.toInt then some (Int64.ofInt value)
  else none

def baseOf (c : Char) : Option (Nat × (Char → Bool)) :=
  match c with
  | 'x' => some (16, isHexDigit)
  | 'o' => some (8, isOctalDigit)
  | 'b' => some (2, isBinaryDigit)
  | _ => none

def readDecimals : Reader (List Char)
  | '.' :: rest => someDigits Char.isDigit rest
  | text => some ([], text)

def readExponent : Reader (Option Int)
  | c :: rest =>
    if c = 'e' ∨ c = 'E' then
      let (negative, rest) := readSign rest
      (someDigits Char.isDigit rest).map fun read =>
        let size : Int := numberValue 10 read.1
        (some (if negative then -size else size), read.2)
    else some (none, c :: rest)
  | [] => some (none, [])

def unsignedNumber (negative : Bool) : Reader Number := fun text => do
  let (whole, rest) ← wholeDigits text
  let (decimals, rest) ← readDecimals rest
  let (exponent, rest) ← readExponent rest
  if decimals.isEmpty ∧ exponent = none then
    let value ← signedInteger negative (numberValue 10 whole)
    return (.integer value, rest)
  else
    let power := exponent.getD 0 - decimals.length
    let value := Binary64.ofDecimal negative (numberValue 10 (whole ++ decimals)) power
    if value = .infinite false then none else some (.float value, rest)

def readNumber : Reader Number := fun text =>
  let (negative, unsigned) := readSign text
  match expectAll "inf".toList unsigned with
  | some rest => some (.float (.infinite negative), rest)
  | none =>
    match expectAll "nan".toList unsigned with
    | some rest => some (.float .nan, rest)
    | none =>
      match text with
      | '0' :: c :: rest =>
        match baseOf c with
        | some (base, isDigit) => do
          let (digits, rest) ← someDigits isDigit rest
          let value ← signedInteger false (numberValue base digits)
          return (.integer value, rest)
        | none => unsignedNumber negative unsigned
      | _ => unsignedNumber negative unsigned

end BuildArgs.Toml
