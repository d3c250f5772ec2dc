import JobSuspension.Text.Decimal

/-!
# JSON numbers

A number is kept as it is written: sign, whole digits, fraction digits, exponent.

* `Number.natural? n`  the number, if it is written as plain digits; `-0`, `3.0` and `1e0` are no
                       naturals here;
* `Number.ofNat n`     the number written as the digits of `n`;
* `Number.inRange n`   the binary64 value of the literal is finite.

The binary64 value of a literal is the double nearest to its leading digits (as many as fit 64
bits) times the double nearest to a power of ten, rounded once more; `inRange` asks whether that
last rounding stays below infinity, and every scale above `10^308` counts as out of range.
-/

namespace JobSuspension
namespace Json

structure Number where
  negative : Bool
  whole : List Char
  fraction : List Char
  /-- sign (`true` is minus) and digits -/
  exponent : Option (Bool × List Char)
  deriving DecidableEq, Repr

namespace Number

def ofNat (n : Nat) : Number := ⟨false, Decimal.digits n, [], none⟩

def natural? : Number → Option Nat
  | ⟨false, whole, [], none⟩ => some (Decimal.value whole)
  | _ => none

@[simp] theorem natural?_ofNat (n : Nat) : (ofNat n).natural? = some n := by
  simp [ofNat, natural?, Decimal.value_digits]

/-! ## finite binary64 values -/

/-- the leading whole digits that fit 64 bits, and the count of those left out -/
def keepWhole : Nat → List Char → Nat × Nat
  | n, [] => (n, 0)
  | n, c :: cs =>
    if Decimal.push n c < UInt64.size then keepWhole (Decimal.push n c) cs else (n, cs.length + 1)

/-- the significand lengthened by the leading fraction digits that fit, and their count -/
def keepFraction : Nat → List Char → Nat × Nat
  | n, [] => (n, 0)
  | n, c :: cs =>
    if Decimal.push n c < UInt64.size then
      let (m, k) := keepFraction (Decimal.push n c) cs
      (m, k + 1)
    else (n, 0)

def exponentValue (n : Number) : Int :=
  match n.exponent with
  | none => 0
  | some (false, ds) => Decimal.value ds
  | some (true, ds) => - (Decimal.value ds : Int)

/-- leading digits and the power of ten they are scaled by -/
def scaled (n : Number) : Nat × Int :=
  let (m, dropped) := keepWhole 0 n.whole
  let (m, taken) := keepFraction m n.fraction
  (m, (dropped : Int) - taken + n.exponentValue)

/-- the double nearest to `n`, ties to the even significand, as the natural number it is -/
def nearestDouble (n : Nat) : Nat :=
  if n < Nat.pow 2 53 then n
  else
    let shift := n.log2 - 52
    let unit := Nat.pow 2 shift
    let q := n / unit
    let r := n % unit
    let q := if unit < 2 * r ∨ (2 * r = unit ∧ q % 2 = 1) then q + 1 else q
    q * unit

/-- half a unit above the largest double: what reaches it is rounded to infinity -/
def overflowBound : Nat := Nat.pow 2 1024 - Nat.pow 2 970

def inRange (n : Number) : Bool :=
  let (m, e) := n.scaled
  m == 0 || e < 0
    || (e ≤ 308 && nearestDouble m * nearestDouble (Nat.pow 10 e.toNat) < overflowBound)

end Number
end Json
end JobSuspension
