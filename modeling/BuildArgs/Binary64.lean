/-!
Sixty-four-bit binary floating point, in exact arithmetic. A finite number is a
significand times a power of two. Reading a decimal rounds to the nearest number, a tie
to the even significand; writing uses the fewest digits that read back to the same number
and never an exponent.
-/

namespace BuildArgs

/-- A finite number has a significand below `2 ^ 53` and an exponent from -1074 to 971; a
significand below `2 ^ 52` occurs with the least exponent only. -/
inductive Binary64 where
  | finite (negative : Bool) (significand : Nat) (exponent : Int)
  | infinite (negative : Bool)
  | nan
  deriving DecidableEq, Repr

namespace Binary64

def leastExponent : Int := -1074

def greatestExponent : Int := 971

def scale (base numerator denominator : Nat) (power : Int) : Nat × Nat :=
  match power with
  | .ofNat up => (numerator * base.pow up, denominator)
  | .negSucc down => (numerator, denominator * base.pow (down + 1))

def roundHalfEven (numerator denominator : Nat) : Nat :=
  let floor := numerator / denominator
  let rest := 2 * (numerator % denominator)
  if denominator < rest ∨ (denominator = rest ∧ floor % 2 = 1) then floor + 1 else floor

def nearest (negative : Bool) (numerator denominator : Nat) : Binary64 :=
  let low : Int := Int.ofNat numerator.log2 - Int.ofNat denominator.log2 - 53
  let (above, below) := scale 2 numerator denominator (-low)
  let exponent := max leastExponent (if above / below < Nat.pow 2 53 then low else low + 1)
  let (above, below) := scale 2 numerator denominator (-exponent)
  let significand := roundHalfEven above below
  let (significand, exponent) :=
    if significand = Nat.pow 2 53 then (Nat.pow 2 52, exponent + 1) else (significand, exponent)
  if greatestExponent < exponent then .infinite negative
  else .finite negative significand exponent

/-- The number nearest to `digits * 10 ^ power`. Beyond `10 ^ 310` every number is infinite,
and below `10 ^ -330` it is zero, so larger powers of ten are not computed. -/
def ofDecimal (negative : Bool) (digits : Nat) (power : Int) : Binary64 :=
  let magnitude := Int.ofNat (Nat.toDigits 10 digits).length + power
  if digits = 0 ∨ magnitude < -330 then .finite negative 0 leastExponent
  else if 310 < magnitude then .infinite negative
  else
    let (numerator, denominator) := scale 10 digits 1 power
    nearest negative numerator denominator

structure Range where
  least : Nat
  value : Nat
  greatest : Nat
  closed : Bool

def Range.of (significand : Nat) (exponent : Int) : Range :=
  let down := if significand = Nat.pow 2 52 ∧ leastExponent < exponent then 1 else 2
  ⟨4 * significand - down, 4 * significand, 4 * significand + 2, significand % 2 = 0⟩

def Range.holds (range : Range) (count unit quarter : Nat) : Bool :=
  if range.closed then
    range.least * quarter ≤ count * unit && count * unit ≤ range.greatest * quarter
  else range.least * quarter < count * unit && count * unit < range.greatest * quarter

/-- Tries grids of powers of ten from `10 ^ place` downwards and takes the first with a point in
the range; of two points the nearer, and the upper one if both are as near. -/
def searchGrid (range : Range) (exponent : Int) : Nat → Int → Nat × Int
  | 0, place => (0, place)
  | tries + 1, place =>
    let (quarter, unit) := scale 2 1 1 (exponent - 2)
    let (unit, quarter) := scale 10 unit quarter place
    let below := range.value * quarter / unit
    let low := range.holds below unit quarter
    let high := range.holds (below + 1) unit quarter
    if low || high then
      let upper := high && (!low || (2 * below + 1) * unit ≤ 2 * (range.value * quarter))
      (if upper then below + 1 else below, place)
    else searchGrid range exponent tries (place - 1)

/-- The fewest decimal digits that read back to a positive number, and the power of ten of
the last of them. Seventeen digits always suffice. -/
def shortest (significand : Nat) (exponent : Int) : Nat × Int :=
  let (numerator, denominator) := scale 2 significand 1 exponent
  let place : Int :=
    if denominator ≤ numerator then
      Int.ofNat (Nat.toDigits 10 (numerator / denominator)).length - 1
    else
      Int.ofNat (Nat.toDigits 10 numerator).length - Int.ofNat (Nat.toDigits 10 denominator).length
  searchGrid (Range.of significand exponent) exponent 20 place

def dropZeros (digits : List Char) (place : Int) : List Char × Int :=
  let kept := (digits.reverse.dropWhile (· == '0')).reverse
  (kept, place + Int.ofNat (digits.length - kept.length))

def positional (digits : List Char) (place : Int) : List Char :=
  match place with
  | .ofNat zeros => digits ++ List.replicate zeros '0'
  | .negSucc down =>
    let fraction := down + 1
    if fraction < digits.length then
      digits.take (digits.length - fraction) ++ '.' :: digits.drop (digits.length - fraction)
    else '0' :: '.' :: List.replicate (fraction - digits.length) '0' ++ digits

def signed (negative : Bool) (text : List Char) : List Char :=
  if negative then '-' :: text else text

def chars : Binary64 → List Char
  | .nan => "NaN".toList
  | .infinite negative => signed negative "inf".toList
  | .finite negative 0 _ => signed negative ['0']
  | .finite negative significand exponent =>
    let (digits, place) := shortest significand exponent
    let (digits, place) := dropZeros (Nat.toDigits 10 digits) place
    signed negative (positional digits place)

def text (number : Binary64) : String := String.ofList number.chars

end Binary64
end BuildArgs
