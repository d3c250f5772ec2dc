import JobSuspension.Text.Decimal

/-!
# Numerals

Which words are numbers, said without reading them digit by digit, and what is wrong with the
others.  Reading stops at the first fault, so that a number that is too large hides what follows it.

* `Decimal.Spells word n`            digits that stand for `n`, perhaps behind a plus sign;
* `Decimal.Unsigned word cs`         `word` without its plus sign, if it has one, is `cs`;
* `Decimal.FaultAfter max n cs e`    the first fault of digits `cs` that follow the number `n`;
* `Decimal.Fault max word e`         the first fault of a word of a value of at most `max`;
* `spells_or_fault`                  a word is a number or has a fault;
* `unsigned?_eq_ok`, `unsigned?_eq_error`   reading a word.
-/

namespace JobSuspension
namespace Decimal

/-! ## words -/

def Spells (word : List Char) (n : Nat) : Prop :=
  ∃ digits, (word = digits ∨ word = '+' :: digits) ∧ digits ≠ [] ∧
    (∀ c ∈ digits, c.isDigit = true) ∧ value digits = n

inductive Unsigned : List Char → List Char → Prop where
  | plus (cs : List Char) : Unsigned ('+' :: cs) cs
  | bare {cs : List Char} (h : cs.head? ≠ some '+') : Unsigned cs cs

inductive FaultAfter (max n : Nat) : List Char → NumeralError → Prop where
  | badDigit {digits rest : List Char} {c : Char} (hdigits : ∀ d ∈ digits, d.isDigit = true)
      (hmax : digits.foldl push n ≤ max) (hc : c.isDigit = false) :
      FaultAfter max n (digits ++ c :: rest) .badDigit
  | tooLarge {digits rest : List Char} {c : Char} (hdigits : ∀ d ∈ digits, d.isDigit = true)
      (hmax : digits.foldl push n ≤ max) (hc : c.isDigit = true)
      (hlarge : max < push (digits.foldl push n) c) :
      FaultAfter max n (digits ++ c :: rest) .tooLarge

inductive Fault (max : Nat) : List Char → NumeralError → Prop where
  | empty : Fault max [] .empty
  | signAlone : Fault max ['+'] .badDigit
  | digits {word cs : List Char} {e : NumeralError} (hword : Unsigned word cs)
      (h : FaultAfter max 0 cs e) : Fault max word e

/-! ## reading on -/

theorem le_foldl_push (cs : List Char) (n : Nat) : n ≤ cs.foldl push n := by
  induction cs generalizing n with
  | nil => exact Nat.le_refl n
  | cons c cs ih =>
    have hpush : n ≤ push n c := by
      unfold push
      omega
    exact Nat.le_trans hpush (ih (push n c))

section
variable {max n : Nat}

/-- digits that are not too many are passed over -/
theorem readUpTo_append {digits : List Char} (hdigits : ∀ d ∈ digits, d.isDigit = true)
    (hmax : digits.foldl push n ≤ max) (rest : List Char) :
    readUpTo max n (digits ++ rest) = readUpTo max (digits.foldl push n) rest := by
  induction digits generalizing n with
  | nil => rfl
  | cons c digits ih =>
    obtain ⟨hc, hdigits⟩ := List.forall_mem_cons.mp hdigits
    rw [List.foldl_cons] at hmax ⊢
    have hpush : push n c ≤ max := Nat.le_trans (le_foldl_push digits _) hmax
    rw [List.cons_append, readUpTo, if_pos hc, if_pos hpush, ih hdigits hmax]

theorem readUpTo_of_digits {cs : List Char} (hdigits : ∀ c ∈ cs, c.isDigit = true)
    (hmax : cs.foldl push n ≤ max) : readUpTo max n cs = .ok (cs.foldl push n) := by
  have h := readUpTo_append hdigits hmax []
  rwa [List.append_nil] at h

theorem readUpTo_of_fault {cs : List Char} {e : NumeralError} (h : FaultAfter max n cs e) :
    readUpTo max n cs = .error e := by
  cases h with
  | badDigit hdigits hmax hc =>
    rw [readUpTo_append hdigits hmax, readUpTo, if_neg (by rw [hc]; exact Bool.false_ne_true)]
  | tooLarge hdigits hmax hc hlarge =>
    rw [readUpTo_append hdigits hmax, readUpTo, if_pos hc, if_neg (Nat.not_le_of_lt hlarge)]

theorem FaultAfter.ne_nil {cs : List Char} {e : NumeralError} (h : FaultAfter max n cs e) :
    cs ≠ [] := by
  cases h <;> exact List.append_ne_nil_of_right_ne_nil _ (List.cons_ne_nil _ _)

theorem FaultAfter.cons {c : Char} {cs : List Char} {e : NumeralError} (hc : c.isDigit = true)
    (h : FaultAfter max (push n c) cs e) : FaultAfter max n (c :: cs) e := by
  cases h with
  | badDigit hdigits hmax hc' =>
    exact .badDigit (List.forall_mem_cons.mpr ⟨hc, hdigits⟩) hmax hc'
  | tooLarge hdigits hmax hc' hlarge =>
    exact .tooLarge (List.forall_mem_cons.mpr ⟨hc, hdigits⟩) hmax hc' hlarge

theorem digits_or_fault (cs : List Char) (hn : n ≤ max) :
    ((∀ c ∈ cs, c.isDigit = true) ∧ cs.foldl push n ≤ max) ∨ ∃ e, FaultAfter max n cs e := by
  induction cs generalizing n with
  | nil => exact .inl ⟨fun c hc => absurd hc List.not_mem_nil, hn⟩
  | cons c cs ih =>
    have hnone : ∀ d ∈ ([] : List Char), d.isDigit = true := fun d hd => absurd hd List.not_mem_nil
    cases hc : c.isDigit with
    | false => exact .inr ⟨_, FaultAfter.badDigit hnone hn hc⟩
    | true =>
      by_cases hpush : push n c ≤ max
      · rcases ih hpush with ⟨hdigits, hmax⟩ | ⟨e, he⟩
        · exact .inl ⟨List.forall_mem_cons.mpr ⟨hc, hdigits⟩, hmax⟩
        · exact .inr ⟨e, he.cons hc⟩
      · exact .inr ⟨_, FaultAfter.tooLarge hnone hn hc (Nat.lt_of_not_le hpush)⟩

/-! ## reading a word -/

theorem unsigned?_of_unsigned {word cs : List Char} (hword : Unsigned word cs) (hne : cs ≠ []) :
    unsigned? max word = readUpTo max 0 cs := by
  obtain ⟨c, cs, rfl⟩ := List.exists_cons_of_ne_nil hne
  cases hword with
  | plus => rfl
  | bare h =>
    have hc : c ≠ '+' := fun hc => h (congrArg some hc)
    unfold unsigned?
    split <;> simp_all

theorem unsigned?_of_spells {word : List Char} (h : Spells word n) (hn : n ≤ max) :
    unsigned? max word = .ok n := by
  obtain ⟨digits, hword, hne, hdigits, rfl⟩ := h
  have hunsigned : Unsigned word digits := by
    rcases hword with rfl | rfl
    · refine .bare fun hhead => ?_
      have hplus := hdigits '+' (List.mem_of_mem_head? hhead)
      exact absurd hplus (by decide)
    · exact .plus digits
  rw [unsigned?_of_unsigned hunsigned hne]
  exact readUpTo_of_digits hdigits hn

theorem unsigned?_of_fault {word : List Char} {e : NumeralError} (h : Fault max word e) :
    unsigned? max word = .error e := by
  cases h with
  | empty => rfl
  | signAlone => rfl
  | digits hword h =>
    rw [unsigned?_of_unsigned hword h.ne_nil]
    exact readUpTo_of_fault h

theorem spells_or_fault (max : Nat) (word : List Char) :
    (∃ n ≤ max, Spells word n) ∨ ∃ e, Fault max word e := by
  have hcases {cs : List Char} (hword : Unsigned word cs) (hne : cs ≠ []) :
      (∃ n ≤ max, Spells word n) ∨ ∃ e, Fault max word e := by
    rcases digits_or_fault cs (Nat.zero_le max) with ⟨hdigits, hmax⟩ | ⟨e, he⟩
    · refine .inl ⟨value cs, hmax, cs, ?_, hne, hdigits, rfl⟩
      cases hword with
      | plus => exact .inr rfl
      | bare => exact .inl rfl
    · exact .inr ⟨e, .digits hword he⟩
  cases word with
  | nil => exact .inr ⟨_, .empty⟩
  | cons c cs =>
    by_cases hc : c = '+'
    · subst hc
      by_cases hcs : cs = []
      · subst hcs
        exact .inr ⟨_, .signAlone⟩
      · exact hcases (.plus cs) hcs
    · exact hcases (.bare fun h => hc (Option.some.inj h)) (List.cons_ne_nil c cs)

theorem unsigned?_eq_ok {word : List Char} :
    unsigned? max word = .ok n ↔ Spells word n ∧ n ≤ max := by
  refine ⟨fun h => ?_, fun h => unsigned?_of_spells h.1 h.2⟩
  rcases spells_or_fault max word with ⟨m, hm, hspells⟩ | ⟨e, he⟩
  · rw [unsigned?_of_spells hspells hm] at h
    cases h
    exact ⟨hspells, hm⟩
  · rw [unsigned?_of_fault he] at h
    cases h

theorem unsigned?_eq_error {word : List Char} {e : NumeralError} :
    unsigned? max word = .error e ↔ Fault max word e := by
  refine ⟨fun h => ?_, unsigned?_of_fault⟩
  rcases spells_or_fault max word with ⟨m, hm, hspells⟩ | ⟨e', he⟩
  · rw [unsigned?_of_spells hspells hm] at h
    cases h
  · rw [unsigned?_of_fault he] at h
    cases h
    exact he

end

end Decimal
end JobSuspension
