import JobSuspension.Proofs.JsonGrammar
import Mathlib.Algebra.Order.Field.Rat
import Mathlib.Algebra.Order.Field.Power
import Mathlib.Tactic.Linarith
import Mathlib.Tactic.NormNum
import Mathlib.Tactic.Positivity
import Mathlib.Tactic.Ring

/-!
# What is out of range

The reader does not compare a literal with the largest double.  It keeps the leading digits that fit
64 bits, rounds them and the power of ten they are scaled by, and asks whether the product is too
large.  Leaving digits out is off by a part in `10^18` and a rounding by a part in `2^53`, at most.
So the answer can only be wrong for literals that are a part in `2^50` away from `2^1024`.

* `Number.magnitude n`        the value of the literal, without its sign;
* `Leads m k x`               the digits of `x` are those of `m` and `k` more, none if `m` is short;
* `keepWhole_leads`, `keepFraction_leads`   the digits kept are such digits;
* `near_scaled`               what is kept, scaled, is near to the value;
* `nearestDouble_error`       the error of one rounding;
* `inRange_of_magnitude_le`, `magnitude_lt_of_inRange`   both directions of the answer.
-/

namespace JobSuspension

namespace Decimal

/-- digits behind `n` -/
theorem foldl_push (n : Nat) (cs : List Char) :
    cs.foldl push n = n * 10 ^ cs.length + value cs := by
  induction cs generalizing n with
  | nil => rw [List.foldl_nil, List.length_nil, Nat.pow_zero, Nat.mul_one, value_nil, Nat.add_zero]
  | cons c cs ih =>
    rw [value, List.foldl_cons, List.foldl_cons, ih (push n c), ih (push 0 c), List.length_cons,
      Nat.pow_succ', push, push, Nat.mul_zero, Nat.zero_add, Nat.add_mul, Nat.mul_comm 10 n,
      Nat.mul_assoc, Nat.add_assoc]

theorem value_append (cs ds : List Char) :
    value (cs ++ ds) = value cs * 10 ^ ds.length + value ds := by
  rw [value, List.foldl_append]
  exact foldl_push _ _

theorem value_lt {cs : List Char} (h : ∀ c ∈ cs, c.isDigit = true) : value cs < 10 ^ cs.length := by
  induction cs with
  | nil => decide
  | cons c cs ih =>
    have hc := digitValue_lt (h c List.mem_cons_self)
    have hcs := ih fun c hc => h c (List.mem_cons_of_mem _ hc)
    have hle : (digitValue c + 1) * 10 ^ cs.length ≤ 10 * 10 ^ cs.length :=
      Nat.mul_le_mul_right _ hc
    rw [value, List.foldl_cons, foldl_push, List.length_cons, Nat.pow_succ', push, Nat.mul_zero,
      Nat.zero_add]
    rw [Nat.add_mul] at hle
    omega

end Decimal

namespace Json

theorem SpellsNumber.isDigit_fraction {n : Number} {cs : List Char} (h : SpellsNumber cs n) :
    ∀ c ∈ n.fraction, c.isDigit = true := by
  obtain ⟨fs, es, hfraction, -⟩ := h.parts
  generalize n.fraction = f at hfraction ⊢
  cases hfraction with
  | none => exact fun c hc => absurd hc List.not_mem_nil
  | digits hds => exact hds.2

namespace Number

open Decimal (push foldl_push value_append value_lt digitValue_lt)

/-- the value of a literal, without its sign -/
def magnitude (n : Number) : ℚ :=
  Decimal.value (n.whole ++ n.fraction) * 10 ^ (n.exponentValue - n.fraction.length)

/-! ## leading digits -/

/-- the digits of `x` are those of `m` and `k` more; digits are left out behind long numbers only -/
structure Leads (m k x : Nat) : Prop where
  lower : m * 10 ^ k ≤ x
  upper : x < (m + 1) * 10 ^ k
  long : k ≠ 0 → 10 ^ 18 ≤ m

theorem Leads.eq {m x : Nat} (h : Leads m 0 x) : x = m := by
  obtain ⟨hlower, hupper, -⟩ := h
  omega

theorem leads_self (x : Nat) : Leads x 0 x := by
  refine ⟨?_, ?_, fun h => absurd rfl h⟩
  · rw [Nat.pow_zero, Nat.mul_one]
  · rw [Nat.pow_zero, Nat.mul_one]
    exact Nat.lt_succ_self x

/-- once a digit does not fit, all that follow are left out -/
theorem leads_of_le_push {n : Nat} {c : Char} {cs : List Char}
    (hdigits : ∀ d ∈ c :: cs, d.isDigit = true) (h : UInt64.size ≤ push n c) :
    Leads n (cs.length + 1) ((c :: cs).foldl push n) := by
  have hc := digitValue_lt (hdigits c List.mem_cons_self)
  have hlt := value_lt hdigits
  rw [foldl_push]
  refine ⟨Nat.le_add_right _ _, ?_, fun _ => ?_⟩
  · rw [Nat.add_mul, Nat.one_mul]
    exact Nat.add_lt_add_left hlt _
  · rw [push, UInt64.size] at h
    omega

theorem keepWhole_leads {n : Nat} {cs : List Char} (hdigits : ∀ c ∈ cs, c.isDigit = true) :
    Leads (keepWhole n cs).1 (keepWhole n cs).2 (cs.foldl push n) := by
  induction cs generalizing n with
  | nil => exact leads_self n
  | cons c cs ih =>
    rw [keepWhole]
    split
    · exact ih fun d hd => hdigits d (List.mem_cons_of_mem c hd)
    · next h => exact leads_of_le_push hdigits (Nat.le_of_not_lt h)

theorem keepFraction_leads {n : Nat} {cs : List Char} (hdigits : ∀ c ∈ cs, c.isDigit = true) :
    (keepFraction n cs).2 ≤ cs.length ∧
      Leads (keepFraction n cs).1 (cs.length - (keepFraction n cs).2) (cs.foldl push n) := by
  induction cs generalizing n with
  | nil => exact ⟨Nat.le_refl 0, leads_self n⟩
  | cons c cs ih =>
    rw [keepFraction]
    split
    · obtain ⟨hle, hleads⟩ := ih (n := push n c) fun d hd => hdigits d (List.mem_cons_of_mem c hd)
      refine ⟨Nat.succ_le_succ hle, ?_⟩
      rw [List.length_cons, Nat.succ_sub_succ]
      exact hleads
    · next h => exact ⟨Nat.zero_le _, leads_of_le_push hdigits (Nat.le_of_not_lt h)⟩

/-- no digit is lost that is in front of the digits left out -/
theorem Leads.mul_pow_le {m m' k k' l y : Nat} (h : Leads m k y) (hk : k + k' = l)
    (hy : m' * 10 ^ l ≤ y) : m' * 10 ^ l ≤ m * 10 ^ k := by
  rw [← hk, Nat.add_comm, Nat.pow_add, ← Nat.mul_assoc] at hy ⊢
  have hlt : m' * 10 ^ k' < m + 1 :=
    Nat.lt_of_mul_lt_mul_right (Nat.lt_of_le_of_lt hy h.upper)
  exact Nat.mul_le_mul_right _ (Nat.le_of_lt_succ hlt)

/-- equal up to a part in `10^18` -/
structure Near (a b : Nat) : Prop where
  le : a * 10 ^ 18 ≤ b * (10 ^ 18 + 1)
  ge : b * 10 ^ 18 ≤ a * (10 ^ 18 + 1)

theorem Near.refl (a : Nat) : Near a a := ⟨by omega, by omega⟩

/-- two numbers with the same long leading part are near -/
theorem near_of_leading {a b m p : Nat} (hm : 10 ^ 18 ≤ m) (ha : m * p ≤ a) (ha' : a ≤ (m + 1) * p)
    (hb : m * p ≤ b) (hb' : b ≤ (m + 1) * p) : Near a b := by
  have hp : 10 ^ 18 * p ≤ m * p := Nat.mul_le_mul_right p hm
  rw [Nat.add_mul, Nat.one_mul] at ha' hb'
  generalize m * p = q at *
  exact ⟨by omega, by omega⟩

/-- the digits kept, and a place for each digit left out, next to all digits -/
theorem near_kept {w f : List Char} (hw : ∀ c ∈ w, c.isDigit = true)
    (hf : ∀ c ∈ f, c.isDigit = true) {m d m' t : Nat} (hwhole : keepWhole 0 w = (m, d))
    (hfraction : keepFraction m f = (m', t)) :
    t ≤ f.length ∧ Near (Decimal.value (w ++ f)) (m' * 10 ^ (f.length - t) * 10 ^ d) := by
  have hm : Leads m d (Decimal.value w) := by
    have hleads : Leads (keepWhole 0 w).1 (keepWhole 0 w).2 _ := keepWhole_leads hw
    rwa [hwhole] at hleads
  obtain ⟨ht, hm'⟩ := keepFraction_leads (n := m) hf
  rw [hfraction, foldl_push] at hm'
  rw [hfraction] at ht
  have hlt := value_lt hf
  refine ⟨ht, ?_⟩
  rw [value_append]
  generalize f.length = l at *
  generalize Decimal.value f = y at *
  generalize Decimal.value w = x at *
  by_cases hd : d = 0
  · subst hd
    rw [hm.eq, Nat.pow_zero, Nat.mul_one]
    by_cases hk : l - t = 0
    · rw [hk] at hm' ⊢
      rw [hm'.eq, Nat.pow_zero, Nat.mul_one]
      exact .refl m'
    · exact near_of_leading (hm'.long hk) hm'.lower hm'.upper.le (Nat.le_refl _)
        (Nat.mul_le_mul_right _ (Nat.le_succ m'))
  · have hlower : m * 10 ^ l ≤ m' * 10 ^ (l - t) :=
      hm'.mul_pow_le (Nat.sub_add_cancel ht) (Nat.le_add_right _ _)
    have hupper : m' * 10 ^ (l - t) ≤ (m + 1) * 10 ^ l := by
      rw [Nat.add_mul, Nat.one_mul]
      exact hm'.lower.trans (Nat.add_le_add_left hlt.le _)
    have hx := Nat.mul_le_mul_right (10 ^ l) hm.lower
    have hx' := Nat.mul_le_mul_right (10 ^ l) hm.upper
    refine near_of_leading (p := 10 ^ d * 10 ^ l) (hm.long hd) ?_ ?_ ?_ ?_
    · rw [← Nat.mul_assoc]
      exact hx.trans (Nat.le_add_right _ _)
    · rw [← Nat.mul_assoc]
      rw [Nat.succ_mul] at hx'
      omega
    · rw [Nat.mul_comm (10 ^ d), ← Nat.mul_assoc]
      exact Nat.mul_le_mul_right _ hlower
    · rw [Nat.mul_comm (10 ^ d), ← Nat.mul_assoc]
      exact Nat.mul_le_mul_right _ hupper

theorem scale_le {a b : Nat} (h : a * 10 ^ 18 ≤ b * (10 ^ 18 + 1)) {z : ℚ} (hz : 0 ≤ z) :
    a * z * 10 ^ 18 ≤ b * z * (10 ^ 18 + 1) := by
  have hcast : (a : ℚ) * 10 ^ 18 ≤ b * (10 ^ 18 + 1) := by exact_mod_cast h
  calc a * z * 10 ^ 18 = a * 10 ^ 18 * z := by ring
    _ ≤ b * (10 ^ 18 + 1) * z := mul_le_mul_of_nonneg_right hcast hz
    _ = b * z * (10 ^ 18 + 1) := by ring

/-- the kept digits, scaled, are near to the literal -/
theorem near_scaled {n : Number} {cs : List Char} (h : SpellsNumber cs n) {m : Nat} {e : Int}
    (hscaled : n.scaled = (m, e)) :
    n.magnitude * 10 ^ 18 ≤ m * 10 ^ e * (10 ^ 18 + 1) ∧
      m * 10 ^ e * 10 ^ 18 ≤ n.magnitude * (10 ^ 18 + 1) := by
  unfold scaled at hscaled
  cases hwhole : keepWhole 0 n.whole with
  | mk m₁ d =>
  cases hfraction : keepFraction m₁ n.fraction with
  | mk m₂ t =>
  rw [hwhole] at hscaled
  simp only [hfraction, Prod.mk.injEq] at hscaled
  obtain ⟨rfl, rfl⟩ := hscaled
  obtain ⟨ht, hle, hge⟩ := near_kept h.whole.2 h.isDigit_fraction hwhole hfraction
  have hplaces : ((m₂ : ℚ) * 10 ^ ((d : Int) - t + n.exponentValue)) =
      (m₂ * 10 ^ (n.fraction.length - t) * 10 ^ d : Nat) *
        10 ^ (n.exponentValue - n.fraction.length) := by
    rw [Nat.cast_mul, Nat.cast_mul, Nat.cast_pow, Nat.cast_pow, ← zpow_natCast, ← zpow_natCast,
      Nat.cast_sub ht, mul_assoc, mul_assoc, Nat.cast_ofNat,
      ← zpow_add₀ (by norm_num), ← zpow_add₀ (by norm_num)]
    congr 2
    ring
  have hpos : (0 : ℚ) < 10 ^ (n.exponentValue - n.fraction.length) := by positivity
  rw [hplaces, magnitude]
  exact ⟨scale_le hle hpos.le, scale_le hge hpos.le⟩

/-! ## rounding -/

/-- a rounding moves a number by half a unit at most, and the number has `2^52` units or more -/
theorem nearestDouble_error (n : Nat) :
    nearestDouble n * 2 ^ 53 ≤ n * (2 ^ 53 + 1) ∧ n * (2 ^ 53 - 1) ≤ nearestDouble n * 2 ^ 53 := by
  unfold nearestDouble
  split
  · omega
  · next hlarge =>
    have hn : n ≠ 0 := by
      rintro rfl
      exact hlarge (by decide)
    have hlog : 52 ≤ n.log2 := by
      have hlt := (Nat.le_log2 hn (k := 53)).mpr (Nat.le_of_not_lt hlarge)
      omega
    have hunits : 2 ^ 52 * 2 ^ (n.log2 - 52) ≤ n := by
      rw [← Nat.pow_add, Nat.add_sub_cancel' hlog]
      exact Nat.log2_self_le hn
    have hdiv := Nat.div_add_mod n (2 ^ (n.log2 - 52))
    have hmod := Nat.mod_lt n (Nat.two_pow_pos (n.log2 - 52))
    simp only [show ∀ k, Nat.pow 2 k = 2 ^ k from fun _ => rfl]
    generalize 2 ^ (n.log2 - 52) = unit at *
    generalize n % unit = r at *
    generalize n / unit = q at *
    split
    · rw [Nat.succ_mul, Nat.mul_comm q]
      generalize unit * q = x at *
      omega
    · rw [Nat.mul_comm q]
      generalize unit * q = x at *
      omega

/-! ## the answer -/

theorem keepWhole_lt {n : Nat} (hn : n < UInt64.size) (cs : List Char) :
    (keepWhole n cs).1 < UInt64.size := by
  induction cs generalizing n with
  | nil => exact hn
  | cons c cs ih =>
    rw [keepWhole]
    split
    · next h => exact ih h
    · exact hn

theorem keepFraction_lt {n : Nat} (hn : n < UInt64.size) (cs : List Char) :
    (keepFraction n cs).1 < UInt64.size := by
  induction cs generalizing n with
  | nil => exact hn
  | cons c cs ih =>
    rw [keepFraction]
    split
    · next h => exact ih h
    · exact hn

theorem scaled_lt (n : Number) : n.scaled.1 < UInt64.size :=
  keepFraction_lt (keepWhole_lt (by decide) n.whole) n.fraction

theorem inRange_eq_true {n : Number} {m : Nat} {e : Int} (hscaled : n.scaled = (m, e)) :
    n.inRange = true ↔ m = 0 ∨ e < 0 ∨
      (e ≤ 308 ∧ nearestDouble m * nearestDouble (10 ^ e.toNat) < overflowBound) := by
  unfold inRange
  rw [hscaled]
  simp only [Bool.or_eq_true, Bool.and_eq_true, beq_iff_eq, decide_eq_true_eq, or_assoc]
  rfl

/-- the bounds in a common unit -/
theorem exists_unit : ∃ u : Nat, overflowBound = (2 ^ 54 - 1) * u ∧ (2 : ℚ) ^ 1024 = 2 ^ 54 * u ∧
    (2 : ℚ) ^ 974 = 2 ^ 4 * u ∧ 2 ^ 64 ≤ u ∧ ∀ k, 308 < k → 2 ^ 55 * u < 10 ^ k := by
  refine ⟨2 ^ 970, by decide +kernel, ?_, ?_, by decide +kernel, fun k hk => ?_⟩
  · rw [Nat.cast_pow, Nat.cast_ofNat, ← pow_add]
  · rw [Nat.cast_pow, Nat.cast_ofNat, ← pow_add]
  · exact Nat.lt_of_lt_of_le (by decide +kernel) (Nat.pow_le_pow_right (by decide) hk)

theorem nearestDouble_mul_le (a b : Nat) :
    nearestDouble a * nearestDouble b * 2 ^ 106 ≤ a * b * (2 ^ 53 + 1) ^ 2 := by
  calc nearestDouble a * nearestDouble b * 2 ^ 106
      = nearestDouble a * 2 ^ 53 * (nearestDouble b * 2 ^ 53) := by ring
    _ ≤ a * (2 ^ 53 + 1) * (b * (2 ^ 53 + 1)) :=
      Nat.mul_le_mul (nearestDouble_error a).1 (nearestDouble_error b).1
    _ = a * b * (2 ^ 53 + 1) ^ 2 := by ring

theorem le_nearestDouble_mul (a b : Nat) :
    a * b * (2 ^ 53 - 1) ^ 2 ≤ nearestDouble a * nearestDouble b * 2 ^ 106 := by
  calc a * b * (2 ^ 53 - 1) ^ 2
      = a * (2 ^ 53 - 1) * (b * (2 ^ 53 - 1)) := by ring
    _ ≤ nearestDouble a * 2 ^ 53 * (nearestDouble b * 2 ^ 53) :=
      Nat.mul_le_mul (nearestDouble_error a).2 (nearestDouble_error b).2
    _ = nearestDouble a * nearestDouble b * 2 ^ 106 := by ring

/-- **A literal is in range** if it is a part in `2^50` below `2^1024`. -/
theorem inRange_of_magnitude_le {n : Number} {cs : List Char} (h : SpellsNumber cs n)
    (hle : n.magnitude ≤ 2 ^ 1024 - 2 ^ 974) : n.inRange = true := by
  cases hscaled : n.scaled with
  | mk m e =>
  rw [inRange_eq_true hscaled]
  by_contra hnot
  push Not at hnot
  obtain ⟨hm, he, hbound⟩ := hnot
  obtain ⟨k, rfl⟩ := Int.eq_ofNat_of_zero_le he
  obtain ⟨u, hoverflow, hbound', hpart, hu, hlarge⟩ := exists_unit
  have hvalue : m * 10 ^ k * 10 ^ 18 ≤ (2 ^ 54 - 2 ^ 4) * u * (10 ^ 18 + 1) := by
    obtain ⟨-, hnear⟩ := near_scaled h hscaled
    rw [zpow_natCast] at hnear
    rw [hbound', hpart] at hle
    suffices hrat : (m * 10 ^ k * 10 ^ 18 : ℚ) ≤ (2 ^ 54 - 2 ^ 4 : Nat) * u * (10 ^ 18 + 1) by
      exact_mod_cast hrat
    norm_num
    linarith
  have hk : k ≤ 308 := by
    by_contra hk
    have hpower : 2 ^ 55 * u < m * 10 ^ k := by
      calc 2 ^ 55 * u < 10 ^ k := hlarge k (Nat.lt_of_not_le hk)
        _ ≤ m * 10 ^ k := Nat.le_mul_of_pos_left _ (Nat.pos_of_ne_zero hm)
    generalize m * 10 ^ k = p at *
    omega
  have hfull := hbound (by omega)
  have hproduct := nearestDouble_mul_le m (10 ^ k)
  rw [Int.toNat_natCast, hoverflow] at hfull
  generalize nearestDouble m * nearestDouble (10 ^ k) = q at *
  generalize m * 10 ^ k = p at *
  omega

/-- **What is in range** is less than a part in `2^50` above `2^1024`. -/
theorem magnitude_lt_of_inRange {n : Number} {cs : List Char} (h : SpellsNumber cs n)
    (hrange : n.inRange = true) : n.magnitude < 2 ^ 1024 + 2 ^ 974 := by
  have hm : n.scaled.1 < 2 ^ 64 := n.scaled_lt
  cases hscaled : n.scaled with
  | mk m e =>
  rw [hscaled] at hm
  rw [inRange_eq_true hscaled] at hrange
  obtain ⟨u, hoverflow, hbound, hpart, hu, -⟩ := exists_unit
  have hu' : (2 ^ 64 : ℚ) ≤ u := by exact_mod_cast hu
  suffices hkept : (m : ℚ) * 10 ^ e ≤ (2 ^ 54 + 4) * u by
    obtain ⟨hnear, -⟩ := near_scaled h hscaled
    rw [hbound, hpart]
    linarith only [hnear, hkept, hu']
  rcases lt_or_ge e 0 with he | he
  · have hscale : (10 : ℚ) ^ e ≤ 1 := zpow_le_one_of_nonpos₀ (by norm_num) he.le
    have hsmall : (m : ℚ) * 10 ^ e ≤ 2 ^ 64 := by
      calc (m : ℚ) * 10 ^ e ≤ m * 1 := mul_le_mul_of_nonneg_left hscale m.cast_nonneg
        _ = m := mul_one _
        _ ≤ 2 ^ 64 := by exact_mod_cast hm.le
    linarith only [hsmall, hu']
  · obtain ⟨k, rfl⟩ := Int.eq_ofNat_of_zero_le he
    rw [zpow_natCast]
    suffices hnat : m * 10 ^ k ≤ (2 ^ 54 + 4) * u by exact_mod_cast hnat
    rcases hrange with rfl | hneg | ⟨-, hfull⟩
    · omega
    · omega
    · have hproduct := le_nearestDouble_mul m (10 ^ k)
      rw [Int.toNat_natCast, hoverflow] at hfull
      generalize nearestDouble m * nearestDouble (10 ^ k) = q at *
      generalize m * 10 ^ k = p at *
      omega

end Number
end Json
end JobSuspension
