/-!
# Durations

A span of time to the nanosecond, forward or back, of any length: one that is longer than all the
years of an instant only leads out of their range.  The whole seconds of a duration and the
nanoseconds that are left over have its sign, both of them.

* `Duration`                    the number of nanoseconds;
* `Duration.seconds d`, `Duration.rest d`   the whole seconds of `d`, and what is left over;
* `Duration.ofMillis ms`        a duration of so many milliseconds;
* `Duration.wholeMillis d`      the whole milliseconds of `d`.

A number that stands where a duration is asked for counts milliseconds, and a duration that stands
where a number is asked for is given by its whole milliseconds, as settings and answers have it.
-/

namespace JobSuspension

structure Duration where
  nanos : Int
  deriving DecidableEq, Repr

namespace Duration

def seconds (d : Duration) : Int := d.nanos.tdiv 1000000000

def rest (d : Duration) : Int := d.nanos.tmod 1000000000

def ofMillis (ms : Int) : Duration := ⟨ms * 1000000⟩

def wholeMillis (d : Duration) : Int := d.nanos.tdiv 1000000

instance : Coe Int Duration := ⟨ofMillis⟩

instance : Coe Duration Int := ⟨wholeMillis⟩

/-! ## parts -/

theorem nanos_ofMillis (ms : Int) : (ofMillis ms).nanos = ms * 1000000 := rfl

theorem wholeMillis_ofMillis (ms : Int) : (ofMillis ms).wholeMillis = ms :=
  Int.mul_tdiv_cancel ms (by decide)

theorem seconds_add_rest (d : Duration) : d.seconds * 1000000000 + d.rest = d.nanos :=
  Int.tdiv_mul_add_tmod d.nanos 1000000000

/-- the parts of a duration that does not lead back -/
theorem rest_bounds {d : Duration} (h : 0 ≤ d.nanos) :
    0 ≤ d.seconds ∧ 0 ≤ d.rest ∧ d.rest < 1000000000 := by
  refine ⟨Int.tdiv_nonneg h (by decide), Int.tmod_nonneg 1000000000 h, ?_⟩
  exact Int.tmod_lt_of_pos d.nanos (by decide)

end Duration
end JobSuspension
