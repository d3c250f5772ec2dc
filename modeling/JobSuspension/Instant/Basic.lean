import JobSuspension.Calendar
import JobSuspension.Duration

/-!
# Instants

A point of universal time to the nanosecond.  The last second of a minute may be followed by a
leap second; an instant in it keeps the number of the second before and has a nanosecond of one
thousand million or more.

* `Instant`                    second (0 is 1970-01-01T00:00:00Z) and nanosecond, within the years
                               -262143 to 262142;
* `Instant.mk? s n`            the instant, if there is one;
* `a ≤ b`                      order by second, then by nanosecond;
* `Instant.add? t d`           `t` moved by the duration `d`, unless that leaves the range.

Moving an instant out of a leap second lets the leap second count as the second before when it
moves on and as the second after when it moves back; within it only the fraction changes.
-/

namespace JobSuspension

namespace Instant

/-- -262143-01-01T00:00:00Z -/
def minSecond : Int := -8334601228800

/-- +262142-12-31T23:59:59Z -/
def maxSecond : Int := 8210266876799

def Valid (second nano : Int) : Prop :=
  minSecond ≤ second ∧ second ≤ maxSecond ∧ 0 ≤ nano ∧ nano < 2000000000
    ∧ (1000000000 ≤ nano → second % 60 = 59)

instance (second nano : Int) : Decidable (Valid second nano) := by
  unfold Valid
  infer_instance

end Instant

structure Instant where
  second : Int
  nano : Int
  valid : Instant.Valid second nano
  deriving DecidableEq

namespace Instant

def mk? (second nano : Int) : Option Instant :=
  if h : Valid second nano then some ⟨second, nano, h⟩ else none

def epoch : Instant := ⟨0, 0, by decide⟩

instance : Inhabited Instant := ⟨epoch⟩

/-! ## order -/

instance : LE Instant where
  le a b := a.second < b.second ∨ (a.second = b.second ∧ a.nano ≤ b.nano)

instance : LT Instant where
  lt a b := a.second < b.second ∨ (a.second = b.second ∧ a.nano < b.nano)

theorem le_def {a b : Instant} :
    a ≤ b ↔ a.second < b.second ∨ (a.second = b.second ∧ a.nano ≤ b.nano) := Iff.rfl

theorem lt_def {a b : Instant} :
    a < b ↔ a.second < b.second ∨ (a.second = b.second ∧ a.nano < b.nano) := Iff.rfl

instance (a b : Instant) : Decidable (a ≤ b) := by
  rw [le_def]
  infer_instance

instance (a b : Instant) : Decidable (a < b) := by
  rw [lt_def]
  infer_instance

/-! ## moving an instant -/

/-- brings a nanosecond that left its second by less than one second back into range -/
def carry (second nano : Int) : Int × Int :=
  if nano < 0 then (second - 1, nano + 1000000000)
  else if 1000000000 ≤ nano then (second + 1, nano - 1000000000)
  else (second, nano)

def shift (second nano : Int) (d : Duration) : Int × Int :=
  if nano < 1000000000 then carry (second + d.seconds) (nano + d.rest)
  else if 0 < d.seconds ∨ (0 < d.rest ∧ 2000000000 ≤ nano + d.rest) then
    carry (second + d.seconds) (nano - 1000000000 + d.rest)
  else if d.seconds < 0 then carry (second + 1 + d.seconds) (nano - 1000000000 + d.rest)
  else (second, nano + d.rest)

def add? (t : Instant) (d : Duration) : Option Instant :=
  let (second, nano) := shift t.second t.nano d
  mk? second nano

end Instant
end JobSuspension
