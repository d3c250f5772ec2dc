import JobSuspension.Instant.Basic

/-!
# The order of instants

Instants are ordered by second and then by nanosecond, in and out of leap seconds alike, and two
instants that neither precede one another are equal.  Moving an instant on leads to a later one.

* `shift_forward`    what moving on does, in and out of leap seconds;
* `nanos_of_add?`, `lt_of_add?`, `add?_eq_none`   where it leads, and when it leads out of range.
-/

namespace JobSuspension
namespace Instant

variable {a b c : Instant}

theorem ext_second_nano (hs : a.second = b.second) (hn : a.nano = b.nano) : a = b := by
  cases a
  cases b
  cases hs
  cases hn
  rfl

theorem lt_irrefl (a : Instant) : ¬ a < a := by
  rw [lt_def]
  omega

theorem lt_trans (h : a < b) (h' : b < c) : a < c := by
  rw [lt_def] at *
  omega

theorem le_refl (a : Instant) : a ≤ a := by
  rw [le_def]
  omega

theorem le_trans (h : a ≤ b) (h' : b ≤ c) : a ≤ c := by
  rw [le_def] at *
  omega

theorem le_total (a b : Instant) : a ≤ b ∨ b ≤ a := by
  rw [le_def, le_def]
  omega

theorem le_antisymm (h : a ≤ b) (h' : b ≤ a) : a = b := by
  rw [le_def] at *
  exact ext_second_nano (by omega) (by omega)

theorem not_le : ¬ a ≤ b ↔ b < a := by
  rw [le_def, lt_def]
  omega

theorem le_of_lt (h : a < b) : a ≤ b := by
  rw [lt_def] at h
  rw [le_def]
  omega

theorem lt_of_le_of_ne (h : a ≤ b) (hne : a ≠ b) : a < b := by
  by_cases h' : b ≤ a
  · exact absurd (le_antisymm h h') hne
  · exact not_le.mp h'

theorem lt_or_eq_or_gt (a b : Instant) : a < b ∨ a = b ∨ b < a := by
  by_cases h : a ≤ b
  · by_cases hne : a = b
    · exact .inr (.inl hne)
    · exact .inl (lt_of_le_of_ne h hne)
  · exact .inr (.inr (not_le.mp h))

theorem lt_of_le_of_lt (h : a ≤ b) (h' : b < c) : a < c := by
  rw [le_def] at h
  rw [lt_def] at *
  omega

/-! ## moving on -/

/-- nanoseconds since the epoch; those of a leap second are counted like those before it -/
def nanos (t : Instant) : Int := t.second * 1000000000 + t.nano % 1000000000

/-- the last nanosecond an instant can have -/
def lastNanos : Int := maxSecond * 1000000000 + 999999999

theorem mk?_eq_none {second nano : Int} : mk? second nano = none ↔ ¬ Valid second nano := by
  unfold mk?
  split <;> simp [*]

theorem mk?_eq_some {second nano : Int} {u : Instant} (h : mk? second nano = some u) :
    second = u.second ∧ nano = u.nano := by
  unfold mk? at h
  split at h
  · cases h
    exact ⟨rfl, rfl⟩
  · cases h

/-- a nanosecond that is not negative is carried forward, if at all -/
theorem carry_cases {a : Int × Int} {second nano : Int} (h : 0 ≤ nano)
    (hc : carry second nano = a) :
    (a.1 = second + 1 ∧ a.2 = nano - 1000000000 ∧ 1000000000 ≤ nano) ∨
      (a.1 = second ∧ a.2 = nano ∧ nano < 1000000000) := by
  subst hc
  unfold carry
  rw [if_neg (by omega)]
  split
  · exact .inl ⟨rfl, rfl, by omega⟩
  · exact .inr ⟨rfl, rfl, by omega⟩

variable {t u : Instant} {d : Duration}

/-- Moving on adds the nanoseconds.  A leap second is left for a later second only, and as long as
the second stays the same, its nanosecond grows by all of the duration. -/
theorem shift_forward (hd : 0 ≤ d.nanos) {second nano : Int}
    (h : shift t.second t.nano d = (second, nano)) :
    second * 1000000000 + nano % 1000000000 = t.nanos + d.nanos ∧
      (t.second < second ∧ 0 ≤ nano ∧ nano < 1000000000 ∨
        second = t.second ∧ nano = t.nano + d.nanos ∧ nano < 2000000000 ∧
          (t.nano < 1000000000 → nano < 1000000000)) := by
  have hparts := d.seconds_add_rest
  obtain ⟨hseconds, hrest, hrest'⟩ := d.rest_bounds hd
  obtain ⟨-, -, hnano, hnano', -⟩ := t.valid
  unfold nanos
  unfold shift at h
  split at h
  · have hcarry := carry_cases (by omega) h
    omega
  · split at h
    · -- out of the leap second, which counts as the second before
      have hcarry := carry_cases (by omega) h
      omega
    · rw [if_neg (by omega)] at h
      obtain ⟨hs, hn⟩ := Prod.mk.inj h
      omega

theorem shift_of_add? (h : t.add? d = some u) : shift t.second t.nano d = (u.second, u.nano) := by
  obtain ⟨hsecond, hnano⟩ := mk?_eq_some h
  exact Prod.ext hsecond hnano

theorem nanos_of_add? (hd : 0 ≤ d.nanos) (h : t.add? d = some u) : u.nanos = t.nanos + d.nanos :=
  (shift_forward hd (shift_of_add? h)).1

/-- out of a leap second, half of which is over -/
example : add? ⟨59, 1500000000, by decide⟩ ⟨700000000⟩ = some ⟨60, 200000000, by decide⟩ := by decide

/-- moving on by a positive time leads to a later instant, in and out of leap seconds -/
theorem lt_of_add? (hd : 0 < d.nanos) (h : t.add? d = some u) : t < u := by
  have hforward := (shift_forward (Int.le_of_lt hd) (shift_of_add? h)).2
  rw [lt_def]
  omega

/-- an instant can be moved on up to the last nanosecond -/
theorem add?_eq_none (hd : 0 ≤ d.nanos) : t.add? d = none ↔ lastNanos < t.nanos + d.nanos := by
  obtain ⟨hmin, hmax, hnano, hnano', hleap⟩ := t.valid
  cases hshift : shift t.second t.nano d with
  | mk second nano =>
  obtain ⟨hnanos, hforward⟩ := shift_forward hd hshift
  have hmk : t.add? d = none ↔ ¬ Valid second nano := by
    unfold add?
    rw [hshift]
    exact mk?_eq_none
  rw [hmk, ← hnanos]
  unfold Valid lastNanos maxSecond minSecond at *
  omega

end Instant
end JobSuspension
