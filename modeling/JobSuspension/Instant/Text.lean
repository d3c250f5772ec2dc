import JobSuspension.Instant.Basic
import JobSuspension.Text.Blank
import JobSuspension.Text.Decimal

/-!
# Instants as text

An instant is written in universal time, `2026-05-01T08:00:00.500Z`, with the fewest of 0, 3, 6 or
9 fraction digits that lose nothing.  A year outside 0 to 9999 carries its sign.

Reading is wider.  The parts are those of RFC 3339 (year, month, day, a `T` or a blank, hour,
minute, second, fraction, offset), with blanks allowed before each numeral and each separator and
at both ends, one-digit numerals, any offset of less than a day with or without its colon, and
`UTC` for the offset.  Of a fraction nine digits count.  Second 60 is a leap second.

* `Instant.toText t`     the written form;
* `Instant.ofText? s`    the instant a text names.
-/

namespace JobSuspension
namespace Instant

/-! ## writing -/

def yearChars (y : Int) : List Char :=
  if 0 ≤ y ∧ y ≤ 9999 then Decimal.padded 4 y.toNat
  else (if y < 0 then '-' else '+') :: Decimal.padded 4 y.natAbs

def fractionChars (nano : Nat) : List Char :=
  if nano = 0 then []
  else if nano % 1000000 = 0 then '.' :: Decimal.padded 3 (nano / 1000000)
  else if nano % 1000 = 0 then '.' :: Decimal.padded 6 (nano / 1000)
  else '.' :: Decimal.padded 9 nano

def chars (t : Instant) : List Char :=
  let date := Date.ofDayNumber (t.second / 86400)
  let ofDay := (t.second % 86400).toNat
  let leap := 1000000000 ≤ t.nano
  let sec := if leap then ofDay % 60 + 1 else ofDay % 60
  let nano := if leap then t.nano - 1000000000 else t.nano
  yearChars date.year ++ '-' :: Decimal.padded 2 date.month ++ '-' :: Decimal.padded 2 date.day
    ++ 'T' :: Decimal.padded 2 (ofDay / 3600) ++ ':' :: Decimal.padded 2 (ofDay / 60 % 60)
    ++ ':' :: Decimal.padded 2 sec ++ fractionChars nano.toNat ++ ['Z']

def toText (t : Instant) : String := String.ofList t.chars

/-! ## reading -/

/-- between one and `width` digits after blanks -/
def numeral (width : Nat) (cs : List Char) : Option (Nat × List Char) :=
  let cs := Text.trimStartList cs
  let ds := (cs.take width).takeWhile Char.isDigit
  if ds.isEmpty then none else some (Decimal.value ds, cs.drop ds.length)

/-- digits without a bound on their number -/
def longNumeral (cs : List Char) : Option (Nat × List Char) :=
  let ds := cs.takeWhile Char.isDigit
  if ds.isEmpty then none else some (Decimal.value ds, cs.drop ds.length)

/-- four digits at most, or a sign and any number of them -/
def year (cs : List Char) : Option (Int × List Char) :=
  match Text.trimStartList cs with
  | '-' :: cs => (longNumeral cs).map fun (n, cs) => (-(n : Int), cs)
  | '+' :: cs => (longNumeral cs).map fun (n, cs) => ((n : Int), cs)
  | cs => (numeral 4 cs).map fun (n, cs) => ((n : Int), cs)

/-- a separator after blanks -/
def separator (sep : Char) (cs : List Char) : Option (List Char) :=
  match Text.trimStartList cs with
  | c :: cs => if c = sep then some cs else none
  | [] => none

def dateAndTime : List Char → Option (List Char)
  | c :: cs => if c = 'T' ∨ c = 't' ∨ c = ' ' then some cs else none
  | [] => none

/-- nanoseconds: the first nine digits after a point -/
def fraction : List Char → Option (Nat × List Char)
  | '.' :: cs =>
    let ds := cs.takeWhile Char.isDigit
    if ds.isEmpty then none
    else
      let kept := ds.take 9
      some (Decimal.value kept * Nat.pow 10 (9 - kept.length), cs.drop ds.length)
  | cs => some (0, cs)

def twoDigits : List Char → Option (Nat × List Char)
  | a :: b :: cs =>
    if a.isDigit ∧ b.isDigit then some (Decimal.value [a, b], cs) else none
  | _ => none

def isOffsetFiller (c : Char) : Bool := c == ':' || Text.isBlankChar c

/-- hours and minutes of an offset after its sign, in seconds -/
def offsetMagnitude (cs : List Char) : Option (Nat × List Char) := do
  let (hours, cs) ← twoDigits cs
  let (minutes, cs) ← twoDigits (cs.dropWhile isOffsetFiller)
  if minutes < 60 then return (hours * 3600 + minutes * 60, cs) else none

def isUTC : List Char → Bool
  | a :: b :: c :: _ => a.toLower == 'u' && b.toLower == 't' && c.toLower == 'c'
  | _ => false

/-- seconds that local time is ahead -/
def offset (cs : List Char) : Option (Int × List Char) :=
  if isUTC cs then some (0, cs.drop 3)
  else
    match cs with
    | [] => none
    | c :: cs =>
      if c = 'Z' ∨ c = 'z' then some (0, cs)
      else if c = '+' then (offsetMagnitude cs).map fun (n, cs) => ((n : Int), cs)
      else if c = '-' ∨ c = '\u2212' then
        (offsetMagnitude cs).map fun (n, cs) => (-(n : Int), cs)
      else none

/-- the instant of a local date and time -/
def ofLocal? (date : Date) (hour minute second nano : Nat) (ahead : Int) : Option Instant :=
  if date.Valid ∧ -262143 ≤ date.year ∧ date.year ≤ 262142
      ∧ hour < 24 ∧ minute < 60 ∧ second ≤ 60 ∧ -86400 < ahead ∧ ahead < 86400 then
    let leap := second = 60
    let ofDay : Nat := hour * 3600 + minute * 60 + (if leap then 59 else second)
    mk? (date.dayNumber * 86400 + ofDay - ahead) (if leap then 1000000000 + nano else nano)
  else none

def ofChars? (cs : List Char) : Option Instant := do
  let (year, cs) ← year cs
  let (month, cs) ← numeral 2 (← separator '-' cs)
  let (day, cs) ← numeral 2 (← separator '-' cs)
  let (hour, cs) ← numeral 2 (← dateAndTime cs)
  let (minute, cs) ← numeral 2 (← separator ':' cs)
  let (second, cs) ← numeral 2 (← separator ':' cs)
  let (nano, cs) ← fraction cs
  let (ahead, cs) ← offset (Text.trimStartList cs)
  if (Text.trimStartList cs).isEmpty then
    ofLocal? ⟨year, month, day⟩ hour minute second nano ahead
  else none

def ofText? (s : String) : Option Instant := ofChars? s.toList

end Instant
end JobSuspension
