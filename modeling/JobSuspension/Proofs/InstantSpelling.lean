import Mathlib.Data.List.Basic
import JobSuspension.Instant.Text
import JobSuspension.Proofs.DayNumbers
import JobSuspension.Proofs.JsonGrammar

/-!
# Spellings of instants

An instant is spelled as the date and the time of day of some place, to any fraction of a second,
with what the clocks there are ahead of universal time.  What the parts look like is said without
reading them; then each part is read up to where the next one begins: the numerals have a fixed
number of digits, only the year with a sign may have more and ends at its separator, and a fraction
ends at the offset.

* `LocalTime`                `Valid` and, digit by digit, `SpellsLocalTime cs l`;
* `t.SpelledBy text`         the text spells a valid local time, which is the instant `t`;
* `Decimal.padded`           numerals of fixed width: length, digits, value, and where they end;
* `numeral_padded`, `year_yearChars`, `fraction_append`, `offset_spelled`   the parts that vary;
* `ofChars?_spelled`         all parts, one after the other;
* `ofLocal?_valid`           the parts make up the instant;
* `ofText?_of_spelledBy`     every spelling of an instant is read as that instant.
-/

namespace JobSuspension

/-! ## grammar -/

/-- what the clocks of some place show -/
structure LocalTime where
  date : Date
  hour : Nat
  minute : Nat
  /-- 60 in a leap second -/
  second : Nat
  nano : Nat
  /-- seconds ahead of universal time -/
  ahead : Int

structure LocalTime.Valid (l : LocalTime) : Prop where
  date : l.date.Valid
  year : -262143 ≤ l.date.year ∧ l.date.year ≤ 262142
  hour : l.hour < 24
  minute : l.minute < 60
  second : l.second ≤ 60

namespace Instant

open Decimal

/-- the first nine digits count, and missing ones are zeros -/
inductive SpellsFraction : List Char → Nat → Prop where
  | none : SpellsFraction [] 0
  | digits {ds : List Char} (h : Json.Digits ds) :
      SpellsFraction ('.' :: ds) (value ((ds ++ List.replicate 9 '0').take 9))

inductive SpellsOffset : List Char → Int → Prop where
  | universal {z : Char} (hz : z = 'Z' ∨ z = 'z') : SpellsOffset [z] 0
  | ahead {hours minutes : Nat} (hh : hours < 24) (hm : minutes < 60) :
      SpellsOffset ('+' :: (padded 2 hours ++ ':' :: padded 2 minutes))
        ((hours * 3600 + minutes * 60 : Nat) : Int)
  | behind {hours minutes : Nat} (hh : hours < 24) (hm : minutes < 60) :
      SpellsOffset ('-' :: (padded 2 hours ++ ':' :: padded 2 minutes))
        (-((hours * 3600 + minutes * 60 : Nat) : Int))

def SpellsLocalTime (cs : List Char) (l : LocalTime) : Prop :=
  ∃ sep fs os, (sep = 'T' ∨ sep = 't' ∨ sep = ' ') ∧ SpellsFraction fs l.nano ∧
    SpellsOffset os l.ahead ∧
    cs = yearChars l.date.year ++ '-' :: (padded 2 l.date.month ++ '-' :: (padded 2 l.date.day ++
      sep :: (padded 2 l.hour ++ ':' :: (padded 2 l.minute ++ ':' :: (padded 2 l.second ++
      (fs ++ os))))))

/-- a leap second follows the second before it -/
structure IsLocal (t : Instant) (l : LocalTime) : Prop where
  second : t.second = l.date.dayNumber * 86400 + l.hour * 3600 + l.minute * 60
    + min l.second 59 - l.ahead
  nano : t.nano = if l.second = 60 then 1000000000 + l.nano else l.nano

def SpelledBy (t : Instant) (text : String) : Prop :=
  ∃ l : LocalTime, l.Valid ∧ SpellsLocalTime text.toList l ∧ t.IsLocal l

end Instant

/-! ## numerals of fixed width -/

namespace Decimal

theorem length_digits_le {w n : Nat} (h : n < Nat.pow 10 (w + 1)) : (digits n).length ≤ w + 1 := by
  induction w generalizing n with
  | zero =>
    rw [digits_of_lt h]
    exact Nat.le_refl 1
  | succ w ih =>
    by_cases hn : n < 10
    · rw [digits_of_lt hn, List.length_singleton]
      omega
    · have hpow : Nat.pow 10 (w + 1 + 1) = Nat.pow 10 (w + 1) * 10 := rfl
      have hdiv : (digits (n / 10)).length ≤ w + 1 := ih (by omega)
      rw [digits_of_ge (by omega), List.length_append, List.length_singleton]
      omega

theorem length_padded {w n : Nat} (h : n < Nat.pow 10 (w + 1)) :
    (padded (w + 1) n).length = w + 1 := by
  have hdigits := length_digits_le h
  rw [padded, List.length_append, List.length_replicate]
  omega

theorem isDigit_of_mem_padded {w n : Nat} {c : Char} (h : c ∈ padded w n) : c.isDigit = true := by
  rcases List.mem_append.mp h with h | h
  · rw [List.eq_of_mem_replicate h]
    rfl
  · exact isDigit_of_mem_digits h

theorem padded_ne_nil (w n : Nat) : padded w n ≠ [] :=
  List.append_ne_nil_of_right_ne_nil _ (digits_ne_nil n)

theorem isEmpty_padded (w n : Nat) : (padded w n).isEmpty = false :=
  List.isEmpty_eq_false_iff.mpr (padded_ne_nil w n)

theorem exists_digit_of_padded (w n : Nat) : ∃ c cs, padded w n = c :: cs ∧ c.isDigit = true := by
  obtain ⟨c, cs, hcs⟩ := List.exists_cons_of_ne_nil (padded_ne_nil w n)
  refine ⟨c, cs, hcs, isDigit_of_mem_padded (w := w) (n := n) ?_⟩
  rw [hcs]
  exact List.mem_cons_self

/-- a numeral ends where the next character is no digit -/
theorem takeWhile_padded (w n : Nat) {rest : List Char}
    (hr : ∀ c ∈ rest.head?, c.isDigit = false) :
    (padded w n ++ rest).takeWhile Char.isDigit = padded w n :=
  (Json.takeWhile_digits (fun _ => isDigit_of_mem_padded) hr).1

theorem value_padded (w n : Nat) : value (padded w n) = n := by
  have hzeros (k : Nat) (cs : List Char) : value (List.replicate k '0' ++ cs) = value cs := by
    induction k with
    | zero => rfl
    | succ k ih => exact ih
  rw [padded, hzeros, value_digits]

end Decimal

namespace Instant

open Decimal

/-! ## parts -/

theorem isBlankChar_of_isDigit {c : Char} (h : c.isDigit = true) : Text.isBlankChar c = false := by
  simp only [Char.isDigit, Bool.and_eq_true, decide_eq_true_eq, UInt32.le_iff_toNat_le] at h
  have hge : 48 ≤ c.toNat := h.1
  have hle : c.toNat ≤ 57 := h.2
  rw [← Bool.not_eq_true]
  simp only [Text.isBlankChar, Bool.or_eq_true, Bool.and_eq_true, decide_eq_true_eq, beq_iff_eq]
  omega

/-- a numeral starts with no blank -/
theorem trimStartList_padded (w n : Nat) (rest : List Char) :
    Text.trimStartList (padded w n ++ rest) = padded w n ++ rest := by
  obtain ⟨c, cs, hcs, hc⟩ := exists_digit_of_padded w n
  rw [hcs]
  simp [Text.trimStartList, isBlankChar_of_isDigit hc]

theorem numeral_padded {w n : Nat} (h : n < Nat.pow 10 (w + 1)) (rest : List Char) :
    numeral (w + 1) (padded (w + 1) n ++ rest) = some (n, rest) := by
  have hdigits : (padded (w + 1) n ++ []).takeWhile Char.isDigit = padded (w + 1) n :=
    takeWhile_padded (w + 1) n fun c hc => by cases hc
  rw [List.append_nil] at hdigits
  unfold numeral
  simp only [trimStartList_padded, List.take_left' (length_padded h), hdigits, isEmpty_padded,
    value_padded, List.drop_left]
  rfl

theorem longNumeral_padded (w n : Nat) {rest : List Char}
    (hr : ∀ c ∈ rest.head?, c.isDigit = false) :
    longNumeral (padded w n ++ rest) = some (n, rest) := by
  unfold longNumeral
  simp only [takeWhile_padded w n hr, isEmpty_padded, value_padded, List.drop_left]
  rfl

/-- the digits of a year without a sign are taken for digits -/
theorem year_padded (w n : Nat) (rest : List Char) :
    year (padded w n ++ rest) =
      (numeral 4 (padded w n ++ rest)).map fun (n, cs) => ((n : Int), cs) := by
  obtain ⟨c, cs, hcs, hc⟩ := exists_digit_of_padded w n
  unfold year
  rw [trimStartList_padded, hcs]
  split
  · next heq =>
    rw [(List.cons.inj heq).1] at hc
    exact absurd hc (by decide)
  · next heq =>
    rw [(List.cons.inj heq).1] at hc
    exact absurd hc (by decide)
  · rfl

theorem year_yearChars (y : Int) (rest : List Char) :
    year (yearChars y ++ '-' :: rest) = some (y, '-' :: rest) := by
  have hnumeral (n : Nat) : longNumeral (padded 4 n ++ '-' :: rest) = some (n, '-' :: rest) := by
    refine longNumeral_padded 4 n fun c hc => ?_
    cases hc
    rfl
  unfold yearChars
  split
  · next hy =>
    have hpow : y.toNat < Nat.pow 10 (3 + 1) := by
      show y.toNat < 10000
      omega
    have hnat : (y.toNat : Int) = y := by omega
    rw [year_padded, numeral_padded hpow]
    exact congrArg (fun y : Int => some (y, '-' :: rest)) hnat
  · next hy =>
    by_cases hneg : y < 0
    · have habs : -(y.natAbs : Int) = y := by omega
      rw [if_pos hneg]
      show (longNumeral (padded 4 y.natAbs ++ '-' :: rest)).map _ = _
      rw [hnumeral]
      exact congrArg (fun y : Int => some (y, '-' :: rest)) habs
    · have habs : (y.natAbs : Int) = y := by omega
      rw [if_neg hneg]
      show (longNumeral (padded 4 y.natAbs ++ '-' :: rest)).map _ = _
      rw [hnumeral]
      exact congrArg (fun y : Int => some (y, '-' :: rest)) habs

/-! ## fractions and offsets -/

/-- digits behind the ninth do not count, and digits that are left out are zeros -/
theorem value_take_nine (ds : List Char) :
    value ((ds ++ List.replicate 9 '0').take 9) =
      value (ds.take 9) * Nat.pow 10 (9 - (ds.take 9).length) := by
  have hzeros (cs : List Char) (k : Nat) :
      value (cs ++ List.replicate k '0') = value cs * Nat.pow 10 k := by
    induction k with
    | zero => rw [List.replicate_zero, List.append_nil]; exact (Nat.mul_one _).symm
    | succ k ih =>
      have hpow : Nat.pow 10 (k + 1) = Nat.pow 10 k * 10 := rfl
      have hzero : digitValue '0' = 0 := rfl
      rw [List.replicate_succ', ← List.append_assoc, value_concat, ih, hzero, Nat.add_zero,
        hpow, Nat.mul_comm, Nat.mul_assoc]
  have hlength : min (9 - ds.length) 9 = 9 - (ds.take 9).length := by
    rw [List.length_take]
    omega
  rw [List.take_append, List.take_replicate, hlength, hzeros]

theorem fraction_append {fs os : List Char} {nano : Nat} (h : SpellsFraction fs nano)
    (hos : ∀ c ∈ os.head?, c ≠ '.' ∧ c.isDigit = false) :
    fraction (fs ++ os) = some (nano, os) := by
  cases h with
  | none =>
    rw [List.nil_append]
    unfold fraction
    split
    · exact absurd rfl (hos '.' rfl).1
    · rfl
  | @digits ds h =>
    have hdigits := (Json.takeWhile_digits h.2 fun c hc => (hos c hc).2).1
    have hempty : ds.isEmpty = false := List.isEmpty_eq_false_iff.mpr h.1
    rw [List.cons_append]
    simp only [fraction, hdigits, hempty, List.drop_left, value_take_nine]
    rfl

theorem exists_pair_of_padded {n : Nat} (h : n < 100) :
    ∃ a b, padded 2 n = [a, b] ∧ a.isDigit = true ∧ b.isDigit = true ∧ value [a, b] = n := by
  obtain ⟨a, b, hab⟩ := List.length_eq_two.mp (length_padded (w := 1) h)
  have hdigit {c : Char} (hc : c ∈ [a, b]) : c.isDigit = true :=
    isDigit_of_mem_padded (w := 2) (n := n) (hab ▸ hc)
  exact ⟨a, b, hab, hdigit (by simp), hdigit (by simp), hab ▸ value_padded 2 n⟩

theorem offsetMagnitude_padded {hours minutes : Nat} (hh : hours < 24) (hm : minutes < 60) :
    offsetMagnitude (padded 2 hours ++ ':' :: padded 2 minutes) =
      some (hours * 3600 + minutes * 60, []) := by
  obtain ⟨a, b, hab, ha, hb, hhours⟩ := exists_pair_of_padded (n := hours) (by omega)
  obtain ⟨c, d, hcd, hc, hd, hminutes⟩ := exists_pair_of_padded (n := minutes) (by omega)
  have hfiller : isOffsetFiller c = false := by
    have hcolon : (c == ':') = false := by
      rw [beq_eq_false_iff_ne]
      rintro rfl
      exact absurd hc (by decide)
    rw [isOffsetFiller, hcolon, isBlankChar_of_isDigit hc]
    rfl
  have hskip : (':' :: [c, d]).dropWhile isOffsetFiller = [c, d] := by
    rw [List.dropWhile_cons_of_pos (by decide), List.dropWhile_cons_of_neg (by rw [hfiller]; decide)]
  rw [hab, hcd]
  simp only [offsetMagnitude, List.cons_append, List.nil_append, twoDigits, ha, hb, hc, hd,
    and_self, if_true, Option.bind_eq_bind, Option.bind_some, hskip, hhours, hminutes, hm]
  rfl

theorem SpellsOffset.bounds {os : List Char} {ahead : Int} (h : SpellsOffset os ahead) :
    -86400 < ahead ∧ ahead < 86400 := by
  cases h <;> omega

/-- an offset starts with a character that ends everything before it -/
theorem SpellsOffset.head {os : List Char} {ahead : Int} (h : SpellsOffset os ahead) :
    ∃ c cs, os = c :: cs ∧ c ≠ '.' ∧ c.isDigit = false ∧ Text.isBlankChar c = false := by
  cases h with
  | @universal z hz =>
    refine ⟨z, [], rfl, ?_⟩
    rcases hz with rfl | rfl <;> decide
  | ahead => exact ⟨'+', _, rfl, by decide⟩
  | behind => exact ⟨'-', _, rfl, by decide⟩

theorem offset_spelled {os : List Char} {ahead : Int} (h : SpellsOffset os ahead) :
    offset (Text.trimStartList os) = some (ahead, []) := by
  have htrim : Text.trimStartList os = os := by
    obtain ⟨c, cs, rfl, -, -, hc⟩ := h.head
    simp [Text.trimStartList, hc]
  rw [htrim]
  cases h with
  | universal hz => rcases hz with rfl | rfl <;> decide
  | @ahead hours minutes hh hm =>
    have hmagnitude := offsetMagnitude_padded hh hm
    obtain ⟨a, b, hab, -⟩ := exists_pair_of_padded (n := hours) (by omega)
    rw [hab] at hmagnitude ⊢
    show (offsetMagnitude _).map _ = _
    rw [hmagnitude]
    rfl
  | @behind hours minutes hh hm =>
    have hmagnitude := offsetMagnitude_padded hh hm
    obtain ⟨a, b, hab, -⟩ := exists_pair_of_padded (n := hours) (by omega)
    rw [hab] at hmagnitude ⊢
    show (offsetMagnitude _).map _ = _
    rw [hmagnitude]
    rfl

theorem separator_cons {sep : Char} (h : Text.isBlankChar sep = false) (cs : List Char) :
    separator sep (sep :: cs) = some cs := by
  simp [separator, Text.trimStartList, h]

/-! ## instants -/

theorem ofChars?_spelled {cs : List Char} {l : LocalTime} (h : SpellsLocalTime cs l)
    (hmonth : l.date.month < 100) (hday : l.date.day < 100) (hhour : l.hour < 100)
    (hminute : l.minute < 100) (hsecond : l.second < 100) :
    ofChars? cs = ofLocal? l.date l.hour l.minute l.second l.nano l.ahead := by
  have hnumeral {n : Nat} (h : n < 100) (rest : List Char) :
      numeral 2 (padded 2 n ++ rest) = some (n, rest) := numeral_padded h rest
  have hdash (cs : List Char) : separator '-' ('-' :: cs) = some cs := separator_cons (by decide) cs
  have hcolon (cs : List Char) : separator ':' (':' :: cs) = some cs := separator_cons (by decide) cs
  obtain ⟨sep, fs, os, hsep, hfraction, hoffset, rfl⟩ := h
  have htime (cs : List Char) : dateAndTime (sep :: cs) = some cs := if_pos hsep
  have hnano : fraction (fs ++ os) = some (l.nano, os) := by
    refine fraction_append hfraction fun c hc => ?_
    obtain ⟨c', cs', rfl, hpoint, hdigit, -⟩ := hoffset.head
    cases hc
    exact ⟨hpoint, hdigit⟩
  simp only [ofChars?, year_yearChars, hdash, hcolon, htime, hnumeral hmonth, hnumeral hday,
    hnumeral hhour, hnumeral hminute, hnumeral hsecond, hnano, offset_spelled hoffset,
    Option.bind_eq_bind, Option.bind_some]
  rfl

theorem ofLocal?_valid {t : Instant} {l : LocalTime} (hl : l.Valid) (ht : t.IsLocal l)
    (hahead : -86400 < l.ahead ∧ l.ahead < 86400) :
    ofLocal? l.date l.hour l.minute l.second l.nano l.ahead = some t := by
  have hmk {s n : Int} (hs : s = t.second) (hn : n = t.nano) : mk? s n = some t := by
    rw [hs, hn]
    exact dif_pos t.valid
  have hsecond := ht.second
  have hnano := ht.nano
  have hle := hl.second
  unfold ofLocal?
  rw [if_pos ⟨hl.date, hl.year.1, hl.year.2, hl.hour, hl.minute, hle, hahead⟩]
  by_cases hleap : l.second = 60
  · rw [if_pos hleap] at hnano
    simp only [if_pos hleap]
    exact hmk (by omega) (by omega)
  · rw [if_neg hleap] at hnano
    simp only [if_neg hleap]
    exact hmk (by omega) (by omega)

theorem ofText?_of_spelledBy {t : Instant} {text : String} (h : t.SpelledBy text) :
    ofText? text = some t := by
  obtain ⟨l, hl, hspells, ht⟩ := h
  have hmonth := hl.date.2.1
  have hday := Date.day_le hl.date
  have hhour := hl.hour
  have hminute := hl.minute
  have hsecond := hl.second
  have hahead : -86400 < l.ahead ∧ l.ahead < 86400 := by
    obtain ⟨-, -, os, -, -, hoffset, -⟩ := hspells
    exact hoffset.bounds
  rw [ofText?, ofChars?_spelled hspells (by omega) (by omega) (by omega) (by omega) (by omega)]
  exact ofLocal?_valid hl ht hahead

end Instant
end JobSuspension
