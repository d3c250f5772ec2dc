import JobSuspension.Proofs.InstantSpelling

/-!
# Instants survive their text

An instant is read from the text that is written for it, in every year and with every fraction, and
in a leap second, too: what is written is one of the spellings of the instant, the one in universal
time.

* `spellsFraction_fractionChars`   the digits that are left out are zeros;
* `universal t`                    the local time of an instant where clocks show universal time;
* `spelledBy_toText`               writing spells the instant;
* `ofText?_toText`                 reading inverts writing.
-/

namespace JobSuspension
namespace Instant

open Decimal

/-! ## fractions -/

theorem spellsFraction_padded {w k : Nat} (hw : w + 1 ≤ 9) (hk : k < Nat.pow 10 (w + 1)) :
    SpellsFraction ('.' :: padded (w + 1) k) (k * Nat.pow 10 (9 - (w + 1))) := by
  have hkept : (padded (w + 1) k).take 9 = padded (w + 1) k := by
    refine List.take_of_length_le ?_
    rw [length_padded hk]
    exact hw
  have hvalue := value_take_nine (padded (w + 1) k)
  rw [hkept, value_padded, length_padded hk] at hvalue
  rw [← hvalue]
  exact .digits ⟨padded_ne_nil _ _, fun _ => isDigit_of_mem_padded⟩

theorem spellsFraction_fractionChars {nano : Nat} (h : nano < 1000000000) :
    SpellsFraction (fractionChars nano) nano := by
  unfold fractionChars
  split
  · next hzero =>
    rw [hzero]
    exact .none
  split
  · next hmilli =>
    have hpow : nano / 1000000 < Nat.pow 10 (2 + 1) := by
      show nano / 1000000 < 1000
      omega
    have hnano : nano / 1000000 * Nat.pow 10 (9 - (2 + 1)) = nano := by
      show nano / 1000000 * 1000000 = nano
      omega
    have hspells := spellsFraction_padded (by omega) hpow
    rwa [hnano] at hspells
  split
  · next hmicro =>
    have hpow : nano / 1000 < Nat.pow 10 (5 + 1) := by
      show nano / 1000 < 1000000
      omega
    have hnano : nano / 1000 * Nat.pow 10 (9 - (5 + 1)) = nano := by
      show nano / 1000 * 1000 = nano
      omega
    have hspells := spellsFraction_padded (by omega) hpow
    rwa [hnano] at hspells
  · have hnano : nano * Nat.pow 10 (9 - (8 + 1)) = nano := Nat.mul_one nano
    have hspells := spellsFraction_padded (w := 8) (by omega) h
    rwa [hnano] at hspells

/-! ## the text -/

/-- an instant lies in one of the years that can be written -/
theorem year_bounds (t : Instant) :
    -262143 ≤ (Date.ofDayNumber (t.second / 86400)).year ∧
      (Date.ofDayNumber (t.second / 86400)).year ≤ 262142 := by
  obtain ⟨hmin, hmax, -⟩ := t.valid
  obtain ⟨hfirst, hlast⟩ := Date.year_ofDayNumber (t.second / 86400)
  generalize (Date.ofDayNumber (t.second / 86400)).year = y at hfirst hlast
  have hmin : -8334601228800 ≤ t.second := hmin
  have hmax : t.second ≤ 8210266876799 := hmax
  have hepoch : Date.epochDays = 719162 := rfl
  rw [hepoch] at hfirst hlast
  refine ⟨Int.not_lt.mp fun hy => ?_, Int.not_lt.mp fun hy => ?_⟩
  · have hbefore : Date.daysBeforeYear (y + 1) ≤ Date.daysBeforeYear (-262143) :=
      Date.daysBeforeYear_mono (by omega)
    have hbound : Date.daysBeforeYear (-262143) = -95746130 := by decide
    omega
  · have hafter : Date.daysBeforeYear 262143 ≤ Date.daysBeforeYear y :=
      Date.daysBeforeYear_mono (by omega)
    have hbound : Date.daysBeforeYear 262143 = 95745399 := by decide
    omega

/-- universal time; the leap second after a second counts as its sixtieth -/
def universal (t : Instant) : LocalTime where
  date := Date.ofDayNumber (t.second / 86400)
  hour := (t.second % 86400).toNat / 3600
  minute := (t.second % 86400).toNat / 60 % 60
  second := if 1000000000 ≤ t.nano then (t.second % 86400).toNat % 60 + 1
    else (t.second % 86400).toNat % 60
  nano := (if 1000000000 ≤ t.nano then t.nano - 1000000000 else t.nano).toNat
  ahead := 0

theorem valid_universal (t : Instant) : t.universal.Valid where
  date := Date.valid_ofDayNumber _
  year := year_bounds t
  hour := by
    simp only [universal]
    omega
  minute := by
    simp only [universal]
    omega
  second := by
    simp only [universal]
    split <;> omega

theorem isLocal_universal (t : Instant) : t.IsLocal t.universal := by
  obtain ⟨-, -, hpos, hlt, hleap⟩ := t.valid
  have hday : (Date.ofDayNumber (t.second / 86400)).dayNumber = t.second / 86400 :=
    Date.dayNumber_ofDayNumber _
  by_cases hover : 1000000000 ≤ t.nano
  · have hlast := hleap hover
    constructor
    · simp only [universal, hday, if_pos hover]
      omega
    · simp only [universal, if_pos hover]
      rw [if_pos (by omega)]
      omega
  · constructor
    · simp only [universal, hday, if_neg hover]
      omega
    · simp only [universal, if_neg hover]
      rw [if_neg (by omega)]
      omega

theorem spelledBy_toText (t : Instant) : t.SpelledBy t.toText := by
  obtain ⟨-, -, hpos, hlt, -⟩ := t.valid
  have hnano : SpellsFraction (fractionChars t.universal.nano) t.universal.nano := by
    refine spellsFraction_fractionChars ?_
    simp only [universal]
    split <;> omega
  refine ⟨t.universal, valid_universal t, ?_, isLocal_universal t⟩
  refine ⟨'T', _, ['Z'], .inl rfl, hnano, .universal (.inl rfl), ?_⟩
  rw [toText, String.toList_ofList, chars]
  simp only [List.append_assoc, List.cons_append, universal]

theorem ofText?_toText (t : Instant) : ofText? t.toText = some t :=
  ofText?_of_spelledBy (spelledBy_toText t)

example : toText ⟨-62167219201, 1500000000, by decide⟩ = "-0001-12-31T23:59:60.500Z" := by
  decide +kernel

end Instant
end JobSuspension
