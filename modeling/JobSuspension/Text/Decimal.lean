/-!
# Decimal numerals

Natural numbers as lists of the digits `0` to `9`, most significant first.

* `Decimal.value cs`      the number a list of digits stands for, leading zeros allowed;
* `Decimal.digits n`      the digits of `n`, without leading zeros;
* `Decimal.padded w n`    the digits of `n`, filled with zeros on the left up to the width `w`;
* `Decimal.unsigned? max cs`  a numeral with an optional plus sign, as settings are written,
                          of a value of at most `max`.

`value_digits` says that writing and reading a number gives it back, `digits_value` that reading and
writing a numeral does.
-/

namespace JobSuspension
namespace Decimal

def digitValue (c : Char) : Nat := c.toNat - '0'.toNat

def digitChar (n : Nat) : Char := Char.ofNat ('0'.toNat + n)

/-- the number read so far, one digit later -/
def push (n : Nat) (c : Char) : Nat := 10 * n + digitValue c

def value (cs : List Char) : Nat := cs.foldl push 0

def digits (n : Nat) : List Char :=
  if n < 10 then [digitChar n] else digits (n / 10) ++ [digitChar (n % 10)]
termination_by n
decreasing_by omega

def padded (width n : Nat) : List Char :=
  List.replicate (width - (digits n).length) '0' ++ digits n

/-! ## digits -/

theorem digitValue_digitChar {n : Nat} (h : n < 10) : digitValue (digitChar n) = n := by
  revert n
  decide

theorem isDigit_digitChar {n : Nat} (h : n < 10) : (digitChar n).isDigit = true := by
  revert n
  decide

theorem digitValue_lt {c : Char} (h : c.isDigit = true) : digitValue c < 10 := by
  simp only [Char.isDigit, Bool.and_eq_true, decide_eq_true_eq, UInt32.le_iff_toNat_le] at h
  have h2 : c.toNat ≤ 57 := h.2
  simp only [digitValue, show '0'.toNat = 48 from rfl]
  omega

theorem digitChar_digitValue {c : Char} (h : c.isDigit = true) : digitChar (digitValue c) = c := by
  simp only [Char.isDigit, Bool.and_eq_true, decide_eq_true_eq, UInt32.le_iff_toNat_le] at h
  have h1 : 48 ≤ c.toNat := h.1
  simp only [digitChar, digitValue, show '0'.toNat = 48 from rfl]
  rw [Nat.add_sub_cancel' h1, Char.ofNat_toNat]

theorem value_nil : value [] = 0 := rfl

theorem value_concat (cs : List Char) (c : Char) :
    value (cs ++ [c]) = 10 * value cs + digitValue c := by
  simp [value, push]

theorem digits_of_lt {n : Nat} (h : n < 10) : digits n = [digitChar n] := by
  rw [digits, if_pos h]

theorem digits_of_ge {n : Nat} (h : 10 ≤ n) :
    digits n = digits (n / 10) ++ [digitChar (n % 10)] := by
  rw [digits, if_neg (by omega)]

theorem value_digits (n : Nat) : value (digits n) = n := by
  induction n using Nat.strongRecOn with
  | ind n ih =>
    by_cases h : n < 10
    · rw [digits_of_lt h]
      show push 0 (digitChar n) = n
      simp [push, digitValue_digitChar h]
    · rw [digits_of_ge (by omega), value_concat, ih (n / 10) (by omega),
        digitValue_digitChar (Nat.mod_lt _ (by omega))]
      omega

theorem digits_ne_nil (n : Nat) : digits n ≠ [] := by
  by_cases h : n < 10
  · simp [digits_of_lt h]
  · simp [digits_of_ge (Nat.le_of_not_lt h)]

theorem isDigit_of_mem_digits {n : Nat} {c : Char} (h : c ∈ digits n) : c.isDigit = true := by
  induction n using Nat.strongRecOn generalizing c with
  | ind n ih =>
    by_cases hn : n < 10
    · rw [digits_of_lt hn, List.mem_singleton] at h
      exact h ▸ isDigit_digitChar hn
    · rw [digits_of_ge (by omega), List.mem_append, List.mem_singleton] at h
      rcases h with h | h
      · exact ih _ (by omega) h
      · exact h ▸ isDigit_digitChar (Nat.mod_lt _ (by omega))

/-- digits without superfluous zeros are those of the number they stand for -/
theorem digits_value {cs : List Char} (hne : cs ≠ []) (hdigits : ∀ c ∈ cs, c.isDigit = true)
    (hzero : cs.head? = some '0' → cs = ['0']) : digits (value cs) = cs := by
  generalize hlength : cs.length = n
  induction n generalizing cs with
  | zero => exact absurd (List.eq_nil_of_length_eq_zero hlength) hne
  | succ n ih =>
    obtain ⟨front, c, rfl⟩ : ∃ front c, cs = front ++ [c] :=
      ⟨cs.dropLast, cs.getLast hne, (List.dropLast_concat_getLast hne).symm⟩
    have hc : c.isDigit = true := hdigits c (List.mem_append_right _ List.mem_cons_self)
    have hlt := digitValue_lt hc
    rw [value_concat]
    by_cases hfront : front = []
    · subst hfront
      rw [value_nil, Nat.mul_zero, Nat.zero_add, digits_of_lt hlt, digitChar_digitValue hc]
      rfl
    · have hnot : front.head? ≠ some '0' := by
        intro h
        have hone : front ++ [c] = ['0'] := by
          refine hzero ?_
          rw [List.head?_append, h]
          rfl
        have hpos := List.length_pos_iff.mpr hfront
        have hshort := congrArg List.length hone
        simp only [List.length_append, List.length_cons, List.length_nil] at hshort
        omega
      have hlonger : front.length = n := by
        rw [List.length_append, List.length_singleton] at hlength
        omega
      have hvalue : digits (value front) = front :=
        ih hfront (fun c hc => hdigits c (List.mem_append_left _ hc)) (fun h => absurd h hnot)
          hlonger
      have hpos : value front ≠ 0 := by
        intro h
        rw [h, digits_of_lt (by decide)] at hvalue
        exact hnot (hvalue ▸ rfl)
      rw [digits_of_ge (by omega), show (10 * value front + digitValue c) / 10 = value front by omega,
        show (10 * value front + digitValue c) % 10 = digitValue c by omega, hvalue,
        digitChar_digitValue hc]

/-! ## settings -/

inductive NumeralError where
  | empty
  | badDigit
  | tooLarge
  deriving DecidableEq, Repr

/-- reads digits from the left and stops at the first that is none or makes the value too large -/
def readUpTo (max : Nat) : Nat → List Char → Except NumeralError Nat
  | n, [] => .ok n
  | n, c :: cs =>
    if c.isDigit then
      if push n c ≤ max then readUpTo max (push n c) cs else .error .tooLarge
    else .error .badDigit

def unsigned? (max : Nat) : List Char → Except NumeralError Nat
  | [] => .error .empty
  | '+' :: [] => .error .badDigit
  | '+' :: c :: cs => readUpTo max 0 (c :: cs)
  | cs => readUpTo max 0 cs

end Decimal
end JobSuspension
