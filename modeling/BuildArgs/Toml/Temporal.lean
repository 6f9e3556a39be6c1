import BuildArgs.Toml.Reader

/-!
Dates and times. A date must exist in the calendar, a time must have seconds, and of the
fraction of a second the first nine digits count. Only a date with a time may have an offset.
-/

namespace BuildArgs.Toml

structure Date where
  year : Nat
  month : Nat
  day : Nat
  deriving DecidableEq, Repr

structure Time where
  hour : Nat
  minute : Nat
  second : Nat
  nanosecond : Nat
  deriving DecidableEq, Repr

inductive Offset where
  | universal
  | shifted (behind : Bool) (minutes : Nat)
  deriving DecidableEq, Repr

inductive Temporal where
  | date (date : Date)
  | time (time : Time)
  | moment (date : Date) (time : Time) (offset : Option Offset)
  deriving DecidableEq, Repr

def padded (width value : Nat) : String :=
  let digits := Nat.toDigits 10 value
  String.ofList (List.replicate (width - digits.length) '0' ++ digits)

def Date.text (date : Date) : String :=
  padded 4 date.year ++ "-" ++ padded 2 date.month ++ "-" ++ padded 2 date.day

def Time.text (time : Time) : String :=
  let fraction :=
    if time.nanosecond = 0 then ""
    else
      let digits := (padded 9 time.nanosecond).toList
      "." ++ String.ofList (digits.reverse.dropWhile (· == '0')).reverse
  padded 2 time.hour ++ ":" ++ padded 2 time.minute ++ ":" ++ padded 2 time.second ++ fraction

def Offset.text : Offset → String
  | .universal => "Z"
  | .shifted behind minutes =>
    (if behind && minutes != 0 then "-" else "+") ++
      padded 2 (minutes / 60) ++ ":" ++ padded 2 (minutes % 60)

def Temporal.text : Temporal → String
  | .date day => day.text
  | .time clock => clock.text
  | .moment day clock offset =>
    day.text ++ "T" ++ clock.text ++ (offset.map Offset.text).getD ""

def isLeapYear (year : Nat) : Bool := year % 4 == 0 && (year % 100 != 0 || year % 400 == 0)

def daysInMonth (year month : Nat) : Nat :=
  if month = 2 then if isLeapYear year then 29 else 28
  else if month = 4 ∨ month = 6 ∨ month = 9 ∨ month = 11 then 30
  else 31

def fixedDigits (count greatest : Nat) : Reader Nat := fun text =>
  let digits := text.take count
  let value := numberValue 10 digits
  if digits.length = count ∧ digits.all Char.isDigit ∧ value ≤ greatest then
    some (value, text.drop count)
  else none

def readDate : Reader Date := fun text => do
  let (year, rest) ← fixedDigits 4 9999 text
  let rest ← expect '-' rest
  let (month, rest) ← fixedDigits 2 12 rest
  let rest ← expect '-' rest
  let (day, rest) ← fixedDigits 2 (daysInMonth year month) rest
  if month = 0 ∨ day = 0 then none else some (⟨year, month, day⟩, rest)

def fractionValue (digits : List Char) : Nat :=
  let kept := digits.take 9
  numberValue 10 kept * Nat.pow 10 (9 - kept.length)

def readFraction (text : List Char) : Nat × List Char :=
  match text with
  | '.' :: rest =>
    let digits := rest.takeWhile Char.isDigit
    if digits.isEmpty then (0, text) else (fractionValue digits, rest.dropWhile Char.isDigit)
  | _ => (0, text)

def readTime : Reader Time := fun text => do
  let (hour, rest) ← fixedDigits 2 23 text
  let rest ← expect ':' rest
  let (minute, rest) ← fixedDigits 2 59 rest
  let rest ← expect ':' rest
  let (second, rest) ← fixedDigits 2 60 rest
  let (nanosecond, rest) := readFraction rest
  return (⟨hour, minute, second, nanosecond⟩, rest)

def readOffset (text : List Char) : Option (Option Offset × List Char) :=
  let shifted (behind : Bool) (rest : List Char) : Option (Option Offset × List Char) := do
    let (hours, rest) ← fixedDigits 2 23 rest
    let rest ← expect ':' rest
    let (minutes, rest) ← fixedDigits 2 59 rest
    return (some (.shifted behind (hours * 60 + minutes)), rest)
  match text with
  | 'Z' :: rest => some (some .universal, rest)
  | 'z' :: rest => some (some .universal, rest)
  | '+' :: rest => shifted false rest
  | '-' :: rest => shifted true rest
  | _ => some (none, text)

/-- Reads what follows a date: a mark or one space, a time and perhaps an offset. Without a
time the mark is left unread. -/
def readMoment (date : Date) (text : List Char) : Option (Temporal × List Char) :=
  match text with
  | c :: rest =>
    if c = 'T' ∨ c = 't' ∨ c = ' ' then
      match readTime rest with
      | some (time, rest) =>
        (readOffset rest).map fun result => (.moment date time result.1, result.2)
      | none => some (.date date, text)
    else some (.date date, text)
  | [] => some (.date date, [])

def readTemporal : Reader Temporal := fun text =>
  match readDate text with
  | some (date, rest) => readMoment date rest
  | none => (readTime text).map fun result => (.time result.1, result.2)

def Temporal.ofText? (text : String) : Option Temporal :=
  match readTemporal text.toList with
  | some (value, []) => some value
  | _ => none

end BuildArgs.Toml
