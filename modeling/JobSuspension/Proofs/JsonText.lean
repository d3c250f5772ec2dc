import JobSuspension.Json.Printer
import JobSuspension.Proofs.JsonReading

/-!
# Reading what was written

The text of a value is read as this value, provided its numbers are written the one way the reader
keeps them and nothing in it is unreadable.

* `Number.WellFormed n`, `Value.WellFormed v`   values that a text can stand for;
* `spellsString_quote`, `spellsNumber_chars`, `Value.spells_chars`   the writer spells what it
                       writes;
* `read_text`          reading inverts writing.
-/

namespace JobSuspension

namespace Decimal

theorem eq_zero_of_head?_digits {n : Nat} (h : (digits n).head? = some '0') : n = 0 := by
  induction n using Nat.strongRecOn with
  | ind n ih =>
    by_cases hn : n < 10
    · rw [digits_of_lt hn] at h
      have hv := digitValue_digitChar hn
      rw [Option.some.inj h] at hv
      exact hv.symm
    · obtain ⟨c, cs, hc⟩ := List.exists_cons_of_ne_nil (digits_ne_nil (n / 10))
      have hz : n / 10 = 0 := by
        refine ih (n / 10) (by omega) ?_
        rw [digits_of_ge (by omega), hc] at h
        rw [hc]
        exact h
      omega

end Decimal

namespace Json

/-! ## strings -/

theorem hexValue?_hexDigit {n : Nat} (h : n < 16) : hexValue? (hexDigit n) = some n := by
  revert n
  decide

theorem hexUnit?_control {n : Nat} (h : n < 0x20) :
    hexUnit? '0' '0' (hexDigit (n / 16)) (hexDigit (n % 16)) = some n := by
  have h0 : hexValue? '0' = some 0 := by decide
  simp only [hexUnit?, h0, hexValue?_hexDigit (show n / 16 < 16 by omega),
    hexValue?_hexDigit (show n % 16 < 16 by omega)]
  show some _ = some _
  rw [Option.some.injEq]
  omega

theorem spellsUnit_escape (c : Char) : SpellsUnit (escape c) c.toNat := by
  unfold escape
  split
  · next h => subst h; exact .short rfl
  split
  · next h => subst h; exact .short rfl
  split
  · next h => rw [h]; exact .short rfl
  split
  · next h => rw [h]; exact .short rfl
  split
  · next h => rw [h]; exact .short rfl
  split
  · next h => rw [h]; exact .short rfl
  split
  · next h => rw [h]; exact .short rfl
  split
  · next h => exact .code (hexUnit?_control h)
  · next hquote hescape _ _ _ _ _ hcontrol => exact .plain hquote hescape (Nat.not_lt.mp hcontrol)

theorem spellsUnits_escape (s : List Char) : SpellsUnits (s.flatMap escape) (s.map Char.toNat) := by
  induction s with
  | nil => exact .nil
  | cons c s ih =>
    rw [List.flatMap_cons]
    exact .cons (spellsUnit_escape c) ih

/-- a character is no half of a surrogate pair -/
theorem not_surrogate (c : Char) :
    isHighSurrogate c.toNat = false ∧ isLowSurrogate c.toNat = false := by
  have h := c.valid
  have e : c.val.toNat = c.toNat := rfl
  simp only [UInt32.isValidChar, Nat.isValidChar] at h
  simp only [isHighSurrogate, isLowSurrogate, Bool.and_eq_false_iff, decide_eq_false_iff_not]
  omega

theorem pairUnits_toNat (s : List Char) : pairUnits (s.map Char.toNat) = some s := by
  induction s with
  | nil => rfl
  | cons c s ih =>
    obtain ⟨hh, hl⟩ := not_surrogate c
    rw [List.map_cons, pairUnits.eq_def]
    simp only [hh, hl, ih, Bool.false_eq_true, if_false, Option.map_some, Char.ofNat_toNat]

theorem spellsString_quote (s : String) : SpellsString (quote s) (some s) := by
  refine ⟨s.toList.flatMap escape, s.toList.map Char.toNat, spellsUnits_escape _, rfl, ?_⟩
  rw [pairUnits_toNat, Option.map_some, String.ofList_toList]

/-! ## numbers -/

structure Number.WellFormed (n : Number) : Prop where
  whole : n.whole ≠ [] ∧ ∀ c ∈ n.whole, c.isDigit = true
  noLeadingZero : n.whole.head? = some '0' → n.whole = ['0']
  fraction : ∀ c ∈ n.fraction, c.isDigit = true
  exponent : ∀ minus ds, n.exponent = some (minus, ds) → ds ≠ [] ∧ ∀ c ∈ ds, c.isDigit = true

theorem spellsFraction_chars {ds : List Char} (h : ∀ c ∈ ds, c.isDigit = true) :
    SpellsFraction (if ds.isEmpty then [] else '.' :: ds) ds := by
  cases ds with
  | nil => exact .none
  | cons d ds => exact .digits ⟨List.cons_ne_nil d ds, h⟩

theorem spellsNumber_chars {n : Number} (h : n.WellFormed) : SpellsNumber n.chars n := by
  obtain ⟨negative, whole, fraction, exponent⟩ := n
  obtain ⟨hwhole, hzero, hfraction, hexponent⟩ := h
  unfold Number.chars
  simp only [List.append_assoc]
  refine ⟨hwhole, hzero, _, _, spellsFraction_chars hfraction, ?_, rfl⟩
  match exponent with
  | none => exact .none
  | some (true, ds) => exact .minus (.inl rfl) (hexponent true ds rfl)
  | some (false, ds) => exact .unsigned (.inl rfl) (hexponent false ds rfl)

theorem Number.wellFormed_ofNat (n : Nat) : (Number.ofNat n).WellFormed := by
  refine ⟨⟨Decimal.digits_ne_nil n, fun c => Decimal.isDigit_of_mem_digits⟩, ?_, ?_, ?_⟩
  · intro h
    rw [Decimal.eq_zero_of_head?_digits h]
    exact Decimal.digits_of_lt (by decide)
  · intro c hc
    cases hc
  · intro minus ds h
    cases h

/-! ## values -/

namespace Value

mutual

def WellFormed : Value → Prop
  | .number n => n.WellFormed
  | .array items => WellFormedItems items
  | .object members => WellFormedMembers members
  | .unreadable => False
  | _ => True

def WellFormedItems : List Value → Prop
  | [] => True
  | v :: vs => v.WellFormed ∧ WellFormedItems vs

def WellFormedMembers : List (String × Value) → Prop
  | [] => True
  | (_, v) :: ms => v.WellFormed ∧ WellFormedMembers ms

end

mutual

theorem spells_chars : ∀ v : Value, v.WellFormed → Spells v.chars (.value v)
  | .null, _ => .nullWord
  | .bool true, _ => .trueWord
  | .bool false, _ => .falseWord
  | .unreadable, h => h.elim
  | .string s, _ => .string (spellsString_quote s)
  | .number _, h => .number (spellsNumber_chars h)
  | .array [], _ => .emptyArray blanks_nil
  | .array (v :: vs), h => .array (spells_charsItems (v :: vs) (List.cons_ne_nil v vs) h)
  | .object [], _ => .emptyObject blanks_nil
  | .object (m :: ms), h => by
    have hobject := Spells.object (spells_charsMembers (m :: ms) (List.cons_ne_nil m ms) h)
    rw [objectValue_keyed] at hobject
    exact hobject

theorem spells_charsItems : ∀ vs : List Value, vs ≠ [] → WellFormedItems vs →
    Spells (charsItems vs) (.items vs)
  | [], hne, _ => absurd rfl hne
  | [v], _, h => .item (spells_chars v h.1).toElement
  | v :: w :: vs, _, h =>
    .items (spells_chars v h.1).toElement (spells_charsItems (w :: vs) (List.cons_ne_nil w vs) h.2)

theorem spells_charsMembers : ∀ ms : List (String × Value), ms ≠ [] → WellFormedMembers ms →
    Spells (charsMembers ms) (.members (keyed ms))
  | [], hne, _ => absurd rfl hne
  | [(k, v)], _, h =>
    .member blanks_nil (spellsString_quote k) blanks_nil (spells_chars v h.1).toElement
  | (k, v) :: m :: ms, _, h => by
    have hmembers := Spells.members blanks_nil (spellsString_quote k) blanks_nil
      (spells_chars v h.1).toElement (spells_charsMembers (m :: ms) (List.cons_ne_nil m ms) h.2)
    show Spells (quote k ++ ':' :: v.chars ++ ',' :: charsMembers (m :: ms)) _
    rw [List.append_assoc]
    exact hmembers

end

end Value

/-- **Reading inverts writing.** -/
theorem read_text {v : Value} (h : v.WellFormed) : read v.text = some v := by
  rw [read_eq_some, Value.text, String.toList_ofList]
  exact (Value.spells_chars v h).toElement

end Json
end JobSuspension
