/-!
# Blank text

Identifiers and settings count as absent when they hold nothing but blanks.  A blank is a character
with the Unicode property White_Space, and no other.

* `Text.isBlankChar c`  the property, as a table of code points;
* `Text.trim s`         `s` without the blanks at its two ends;
* `Text.isBlank s`      `s` holds only blanks (or nothing);
* `Text.present? v`     the text `v`, unless it is absent or blank; kept as given, never trimmed;
* `Text.trimmed? v`     the trimmed text of `v`, unless nothing is left of it.

`trimList_eq_nil` ties the two views: a text is blank exactly when trimming leaves nothing.
-/

namespace JobSuspension
namespace Text

/-- the code points with the property White_Space -/
def isBlankChar (c : Char) : Bool :=
  let n := c.toNat
  (0x09 ≤ n && n ≤ 0x0d) || n == 0x20 || n == 0x85 || n == 0xa0 || n == 0x1680
    || (0x2000 ≤ n && n ≤ 0x200a) || n == 0x2028 || n == 0x2029 || n == 0x202f || n == 0x205f
    || n == 0x3000

theorem isBlankChar_of_isWhitespace {c : Char} (h : c.isWhitespace = true) :
    isBlankChar c = true := by
  simp only [Char.isWhitespace, Bool.or_eq_true, decide_eq_true_eq] at h
  rcases h with ((h | h) | h) | h <;> subst h <;> decide

/-! ## trimming -/

def trimStartList (cs : List Char) : List Char := cs.dropWhile isBlankChar

def trimList (cs : List Char) : List Char :=
  (trimStartList (trimStartList cs).reverse).reverse

def trim (s : String) : String := String.ofList (trimList s.toList)

def isBlank (s : String) : Bool := s.toList.all isBlankChar

theorem trimStartList_eq_nil {cs : List Char} :
    trimStartList cs = [] ↔ cs.all isBlankChar = true := by
  induction cs with
  | nil => simp [trimStartList]
  | cons c cs ih =>
    by_cases h : isBlankChar c = true
    · rw [trimStartList, List.dropWhile_cons_of_pos h, List.all_cons, h, Bool.true_and]
      exact ih
    · simp [trimStartList, h]

theorem trimList_eq_nil {cs : List Char} : trimList cs = [] ↔ cs.all isBlankChar = true := by
  constructor
  · intro h
    have h1 : (trimStartList cs).all isBlankChar = true := by
      have := trimStartList_eq_nil.mp (List.reverse_eq_nil_iff.mp h)
      simpa using this
    cases hc : trimStartList cs with
    | nil => exact trimStartList_eq_nil.mp hc
    | cons c r =>
      have hne : ¬ isBlankChar c = true := by
        have := List.head?_dropWhile_not isBlankChar cs
        rw [show cs.dropWhile isBlankChar = c :: r from hc] at this
        simpa using this
      rw [hc] at h1
      simp only [List.all_cons, Bool.and_eq_true] at h1
      exact absurd h1.1 hne
  · intro h
    rw [trimList, trimStartList_eq_nil.mpr h]
    rfl

theorem trim_eq_empty {s : String} : trim s = "" ↔ isBlank s = true := by
  rw [isBlank, ← trimList_eq_nil, trim]
  constructor
  · intro h
    have := congrArg String.toList h
    simpa using this
  · intro h
    rw [h]

/-! ## optional text -/

def present? : Option String → Option String
  | some s => if isBlank s then none else some s
  | none => none

def trimmed? (v : Option String) : Option String :=
  v.bind fun s => if isBlank s then none else some (trim s)

@[simp] theorem present?_none : present? none = none := rfl

theorem present?_some (s : String) : present? (some s) = if isBlank s then none else some s := rfl

theorem present?_eq_some {v : Option String} {s : String} :
    present? v = some s ↔ v = some s ∧ isBlank s = false := by
  cases v with
  | none => simp
  | some t =>
    by_cases h : isBlank t = true
    · simp only [present?_some, h, if_true, reduceCtorEq, Option.some.injEq, false_iff, not_and]
      intro e
      subst e
      simp [h]
    · simp only [present?_some, h]
      constructor
      · intro e
        have e := Option.some.inj e
        subst e
        exact ⟨rfl, by simpa using h⟩
      · intro ⟨e, _⟩
        simpa using e

@[simp] theorem present?_present? (v : Option String) : present? (present? v) = present? v := by
  cases v with
  | none => rfl
  | some s => by_cases h : isBlank s = true <;> simp [present?_some, h]

end Text
end JobSuspension
