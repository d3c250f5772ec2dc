import JobSuspension.Calendar

/-!
# Dates and day numbers

The date of a day is a date of the calendar, and its day number is the day again, for all years.  A
day has its place in a cycle of 400 years, in a century, in four years and in a year, and only the
last of each period is a day longer: this is where the leap years are.

* `Date.Place`                 such a place, with its bounds `Place.InBounds` and its year;
* `Place.daysBeforeYear_year`, `Place.isLeapYear_year`   what the place says about the year;
* `monthAndDay_spec`           month and day of a day of the year;
* `dayNumber_ofDayNumber`, `valid_ofDayNumber`   the date of a day;
* `year_ofDayNumber`           the year of a day.
-/

namespace JobSuspension
namespace Date

theorem isLeapYear_eq_true {y : Int} :
    isLeapYear y = true ↔ y % 4 = 0 ∧ (y % 100 ≠ 0 ∨ y % 400 = 0) := by
  simp only [isLeapYear, Bool.and_eq_true, Bool.or_eq_true, beq_iff_eq, bne_iff_ne]

/-! ## places -/

structure Place where
  cycles : Int
  centuries : Nat
  quads : Nat
  years : Nat
  day : Nat

namespace Place

/-- the place of the day `n` after 0001-01-01 -/
def of (n : Int) : Place :=
  let inCycle := (n % 146097).toNat
  let centuries := min (inCycle / 36524) 3
  let inCentury := inCycle - 36524 * centuries
  let years := min (inCentury % 1461 / 365) 3
  ⟨n / 146097, centuries, inCentury / 1461, years, inCentury % 1461 - 365 * years⟩

def year (p : Place) : Int :=
  400 * p.cycles + (100 * p.centuries + 4 * p.quads + p.years + 1 : Nat)

structure InBounds (p : Place) : Prop where
  centuries : p.centuries ≤ 3
  quads : p.quads ≤ 24
  years : p.years ≤ 3
  day : p.day ≤ 365
  /-- the day more is the last one of four years, and of a century only if that ends a cycle -/
  leap : p.day = 365 → p.years = 3 ∧ (p.quads = 24 → p.centuries = 3)

theorem inBounds_of (n : Int) : (of n).InBounds := by
  have hcycle : (n % 146097).toNat < 146097 := by omega
  unfold of
  generalize (n % 146097).toNat = inCycle at hcycle
  refine ⟨?_, ?_, ?_, ?_, ?_⟩
  · show min (inCycle / 36524) 3 ≤ 3
    omega
  · show (inCycle - 36524 * min (inCycle / 36524) 3) / 1461 ≤ 24
    omega
  · show min _ 3 ≤ 3
    omega
  · show _ % 1461 - 365 * min (_ % 1461 / 365) 3 ≤ 365
    omega
  · intro hday
    have hday : (inCycle - 36524 * min (inCycle / 36524) 3) % 1461 -
        365 * min ((inCycle - 36524 * min (inCycle / 36524) 3) % 1461 / 365) 3 = 365 := hday
    refine ⟨?_, fun hquads => ?_⟩
    · show min _ 3 = 3
      omega
    · have hquads : (inCycle - 36524 * min (inCycle / 36524) 3) / 1461 = 24 := hquads
      show min (inCycle / 36524) 3 = 3
      omega

theorem days_of (n : Int) :
    146097 * (of n).cycles + (36524 * (of n).centuries + 1461 * (of n).quads +
      365 * (of n).years + (of n).day : Nat) = n := by
  have hcycle : 146097 * (n / 146097) + (n % 146097).toNat = n := by omega
  unfold of
  generalize (n % 146097).toNat = inCycle at hcycle
  refine Eq.trans (congrArg (146097 * (n / 146097) + ·) (congrArg Nat.cast ?_)) hcycle
  show 36524 * min (inCycle / 36524) 3 +
    1461 * ((inCycle - 36524 * min (inCycle / 36524) 3) / 1461) + 365 * min _ 3 +
      (_ - 365 * min _ 3) = inCycle
  omega

variable {p : Place} (h : p.InBounds)
include h

theorem daysBeforeYear_year : daysBeforeYear p.year =
    146097 * p.cycles + (36524 * p.centuries + 1461 * p.quads + 365 * p.years : Nat) := by
  obtain ⟨hcenturies, hquads, hyears, -, -⟩ := h
  unfold daysBeforeYear year
  omega

theorem isLeapYear_year (hday : p.day = 365) : isLeapYear p.year = true := by
  obtain ⟨hyears, hlast⟩ := h.leap hday
  have hcenturies := h.centuries
  have hquads := h.quads
  rw [isLeapYear_eq_true]
  unfold year
  omega

end Place

/-! ## months -/

/-- the days are counted on from `a` -/
theorem monthAndDay_spec (ls : List Nat) (a n : Nat) (h : a + n < ls.foldl (· + ·) a) :
    1 ≤ (monthAndDay ls n).1 ∧ (monthAndDay ls n).1 ≤ ls.length ∧ 1 ≤ (monthAndDay ls n).2 ∧
      (monthAndDay ls n).2 ≤ ls.getD ((monthAndDay ls n).1 - 1) 0 ∧
      (ls.take ((monthAndDay ls n).1 - 1)).foldl (· + ·) a + ((monthAndDay ls n).2 - 1) = a + n := by
  induction ls generalizing a n with
  | nil => exact absurd h (by simp)
  | cons l ls ih =>
    by_cases hn : n < l
    · have hfirst : monthAndDay (l :: ls) n = (1, n + 1) := by rw [monthAndDay, if_pos hn]
      rw [hfirst]
      refine ⟨Nat.le_refl _, ?_, ?_, ?_, ?_⟩
      · rw [List.length_cons]
        omega
      · omega
      · exact hn
      · show a + (n + 1 - 1) = a + n
        omega
    · have hlater : monthAndDay (l :: ls) n =
          ((monthAndDay ls (n - l)).1 + 1, (monthAndDay ls (n - l)).2) := by
        rw [monthAndDay, if_neg hn]
      have hrest : a + l + (n - l) < ls.foldl (· + ·) (a + l) := by
        have hsum : a + l + (n - l) = a + n := by omega
        rw [hsum]
        exact h
      obtain ⟨hone, hmonth, hday, hdays, hcount⟩ := ih (a + l) (n - l) hrest
      obtain ⟨m, hm⟩ := Nat.exists_eq_add_of_le' hone
      rw [hlater, hm]
      rw [hm] at hmonth hdays hcount
      refine ⟨?_, ?_, hday, hdays, ?_⟩
      · omega
      · rw [List.length_cons]
        omega
      · show (ls.take m).foldl (· + ·) (a + l) + _ = a + n
        rw [Nat.add_sub_cancel] at hcount
        omega

theorem length_year (y : Int) :
    (monthLengths y).foldl (· + ·) 0 = if isLeapYear y then 366 else 365 := by
  unfold monthLengths
  cases isLeapYear y <;> rfl

theorem le_of_mem_monthLengths (y : Int) : ∀ l ∈ monthLengths y, l ≤ 31 := by
  unfold monthLengths
  cases isLeapYear y <;> decide

/-! ## dates -/

theorem day_le {d : Date} (h : d.Valid) : d.day ≤ 31 := by
  obtain ⟨-, -, -, hday⟩ := h
  rw [List.getD_eq_getElem?_getD] at hday
  cases hlength : (monthLengths d.year)[d.month - 1]? with
  | none =>
    rw [hlength] at hday
    exact Nat.le_trans hday (Nat.zero_le 31)
  | some l =>
    rw [hlength] at hday
    exact Nat.le_trans hday (le_of_mem_monthLengths d.year l (List.mem_of_getElem? hlength))

theorem ofDayNumber_eq (n : Int) :
    ofDayNumber n =
      let p := Place.of (n + epochDays)
      ⟨p.year, (monthAndDay (monthLengths p.year) p.day).1,
        (monthAndDay (monthLengths p.year) p.day).2⟩ := by
  simp only [ofDayNumber, Place.of, Place.year]

theorem day_lt_length_year (n : Int) :
    0 + (Place.of n).day < (monthLengths (Place.of n).year).foldl (· + ·) 0 := by
  have hbounds := Place.inBounds_of n
  have hday := hbounds.day
  rw [length_year]
  by_cases hlast : (Place.of n).day = 365
  · rw [Place.isLeapYear_year hbounds hlast, if_pos rfl]
    omega
  · split <;> omega

theorem valid_ofDayNumber (n : Int) : (ofDayNumber n).Valid := by
  obtain ⟨hone, hmonth, hday, hdays, -⟩ := monthAndDay_spec _ 0 _ (day_lt_length_year (n + epochDays))
  rw [ofDayNumber_eq]
  exact ⟨hone, hmonth, hday, hdays⟩

/-- **The date of a day is on this day.** -/
theorem dayNumber_ofDayNumber (n : Int) : dayNumber (ofDayNumber n) = n := by
  have hbounds := Place.inBounds_of (n + epochDays)
  have hdays := Place.days_of (n + epochDays)
  have hyear := Place.daysBeforeYear_year hbounds
  obtain ⟨-, -, -, -, hcount⟩ := monthAndDay_spec _ 0 _ (day_lt_length_year (n + epochDays))
  rw [Nat.zero_add] at hcount
  rw [ofDayNumber_eq, dayNumber]
  simp only [daysBeforeMonth, hcount, hyear]
  omega

/-! ## years -/

theorem daysBeforeYear_mono {y y' : Int} (h : y ≤ y') : daysBeforeYear y ≤ daysBeforeYear y' := by
  unfold daysBeforeYear
  omega

theorem daysBeforeYear_succ (y : Int) :
    daysBeforeYear (y + 1) = daysBeforeYear y + (if isLeapYear y then 366 else 365 : Nat) := by
  by_cases hleap : isLeapYear y = true
  · rw [if_pos hleap]
    rw [isLeapYear_eq_true] at hleap
    unfold daysBeforeYear
    omega
  · rw [if_neg hleap]
    rw [isLeapYear_eq_true] at hleap
    unfold daysBeforeYear
    omega

/-- a day lies in its year -/
theorem year_ofDayNumber (n : Int) :
    daysBeforeYear (ofDayNumber n).year ≤ n + epochDays ∧
      n + epochDays < daysBeforeYear ((ofDayNumber n).year + 1) := by
  have hdays := Place.days_of (n + epochDays)
  have hyear := Place.daysBeforeYear_year (Place.inBounds_of (n + epochDays))
  have hday := day_lt_length_year (n + epochDays)
  rw [length_year] at hday
  rw [ofDayNumber_eq, daysBeforeYear_succ]
  simp only [hyear]
  omega

end Date
end JobSuspension
