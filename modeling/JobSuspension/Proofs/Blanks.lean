import JobSuspension.Text.Blank

/-!
# Blanks

What blanks are and what trimming leaves, said without scanning anything: there are twenty-five
blanks, and a trimmed text is what stands between the blanks at the two ends.

* `Text.WhiteSpace ch`          the code point of `ch` is one of `Text.whiteSpace`;
* `Text.Absent v`               there is no text, or one of blanks alone;
* `Text.Strips cs core`         `core` begins and ends where the blanks around it do;
* `Text.TrimsTo v o`            `o` is what is left of `v`, if anything is;
* `present?_eq_none`, `trimList_eq_iff`, `trimmed?_eq_iff`   the functions agree with them.
-/

namespace JobSuspension
namespace Text

/-- the code points with the property White_Space -/
def whiteSpace : List Nat :=
  [0x09, 0x0a, 0x0b, 0x0c, 0x0d, 0x20, 0x85, 0xa0, 0x1680, 0x2000, 0x2001, 0x2002, 0x2003, 0x2004,
    0x2005, 0x2006, 0x2007, 0x2008, 0x2009, 0x200a, 0x2028, 0x2029, 0x202f, 0x205f, 0x3000]

def WhiteSpace (ch : Char) : Prop := ch.toNat ∈ whiteSpace

theorem isBlankChar_eq_true {ch : Char} : isBlankChar ch = true ↔ WhiteSpace ch := by
  simp only [isBlankChar, WhiteSpace, whiteSpace, Bool.or_eq_true, Bool.and_eq_true,
    decide_eq_true_eq, beq_iff_eq, List.mem_cons, List.not_mem_nil, or_false]
  omega

theorem isBlankChar_eq_false {ch : Char} : isBlankChar ch = false ↔ ¬ WhiteSpace ch := by
  rw [← isBlankChar_eq_true, Bool.not_eq_true]

/-! ## optional text -/

def Absent (v : Option String) : Prop := ∀ s, v = some s → ∀ ch ∈ s.toList, WhiteSpace ch

theorem absent_some {s : String} : Absent (some s) ↔ isBlank s = true := by
  simp [Absent, isBlank, isBlankChar_eq_true]

theorem present?_eq_none {v : Option String} : present? v = none ↔ Absent v := by
  cases v with
  | none => simp [Absent]
  | some s => simp [present?_some, absent_some]

/-! ## trimming -/

structure Strips (cs core : List Char) : Prop where
  between : ∃ before after, cs = before ++ core ++ after ∧
    (∀ ch ∈ before, WhiteSpace ch) ∧ ∀ ch ∈ after, WhiteSpace ch
  first : ∀ ch ∈ core.head?, ¬ WhiteSpace ch
  last : ∀ ch ∈ core.getLast?, ¬ WhiteSpace ch

/-- nothing is stripped from what has no blanks at the ends -/
theorem strips_self {cs : List Char} :
    Strips cs cs ↔ (∀ ch ∈ cs.head?, ¬ WhiteSpace ch) ∧ ∀ ch ∈ cs.getLast?, ¬ WhiteSpace ch := by
  have hnone : ∀ ch ∈ ([] : List Char), WhiteSpace ch := fun ch hch => absurd hch List.not_mem_nil
  refine ⟨fun h => ⟨h.first, h.last⟩, fun ⟨hfirst, hlast⟩ => ⟨⟨[], [], ?_, hnone, hnone⟩, hfirst, hlast⟩⟩
  rw [List.nil_append, List.append_nil]

theorem trimStartList_append {before cs : List Char} (h : ∀ ch ∈ before, WhiteSpace ch) :
    trimStartList (before ++ cs) = trimStartList cs :=
  List.dropWhile_append_of_pos fun ch hch => isBlankChar_eq_true.mpr (h ch hch)

theorem trimStartList_of_head? {cs : List Char} (h : ∀ ch ∈ cs.head?, ¬ WhiteSpace ch) :
    trimStartList cs = cs := by
  cases cs with
  | nil => rfl
  | cons ch cs =>
    exact List.dropWhile_cons_of_neg fun hblank => h ch rfl (isBlankChar_eq_true.mp hblank)

theorem exists_trimStartList (cs : List Char) :
    (∃ before, cs = before ++ trimStartList cs ∧ ∀ ch ∈ before, WhiteSpace ch) ∧
      ∀ ch ∈ (trimStartList cs).head?, ¬ WhiteSpace ch := by
  refine ⟨⟨cs.takeWhile isBlankChar, List.takeWhile_append_dropWhile.symm, fun ch hch => ?_⟩,
    fun ch hch => ?_⟩
  · exact isBlankChar_eq_true.mp (List.all_eq_true.mp List.all_takeWhile ch hch)
  · have hhead := List.head?_dropWhile_not isBlankChar cs
    rw [show (cs.dropWhile isBlankChar).head? = some ch from hch] at hhead
    exact isBlankChar_eq_false.mp (by simpa using hhead)

theorem strips_trimList (cs : List Char) : Strips cs (trimList cs) := by
  obtain ⟨⟨before, hcs, hbefore⟩, hfirst⟩ := exists_trimStartList cs
  obtain ⟨⟨after, hrest, hafter⟩, hlast⟩ := exists_trimStartList (trimStartList cs).reverse
  have hcore : trimStartList cs = trimList cs ++ after.reverse := by
    rw [trimList, ← List.reverse_append, ← hrest, List.reverse_reverse]
  refine ⟨⟨before, after.reverse, ?_, hbefore, fun ch hch => ?_⟩, fun ch hch => ?_, fun ch hch => ?_⟩
  · rw [List.append_assoc, ← hcore]
    exact hcs
  · exact hafter ch (List.mem_reverse.mp hch)
  · -- what is left begins where the text began without its leading blanks
    refine hfirst ch ?_
    rw [hcore, List.head?_append, show (trimList cs).head? = some ch from hch]
    rfl
  · refine hlast ch ?_
    rw [trimList, List.getLast?_reverse] at hch
    exact hch

theorem trimList_eq_iff {cs core : List Char} : trimList cs = core ↔ Strips cs core := by
  refine ⟨fun h => h ▸ strips_trimList cs, ?_⟩
  rintro ⟨⟨before, after, rfl, hbefore, hafter⟩, hfirst, hlast⟩
  have hfront : trimStartList (before ++ core ++ after) = trimStartList (core ++ after) := by
    rw [List.append_assoc, trimStartList_append hbefore]
  cases core with
  | nil =>
    have hnil : trimStartList after = [] := by
      rw [← List.append_nil after, trimStartList_append hafter]
      rfl
    rw [trimList, hfront, List.nil_append, hnil]
    rfl
  | cons ch rest =>
    have hcore : trimStartList (ch :: rest ++ after) = ch :: rest ++ after :=
      trimStartList_of_head? fun ch' hch' => hfirst ch' hch'
    have hback : ∀ ch ∈ after.reverse, WhiteSpace ch :=
      fun ch hch => hafter ch (List.mem_reverse.mp hch)
    rw [trimList, hfront, hcore, List.reverse_append, trimStartList_append hback,
      trimStartList_of_head?, List.reverse_reverse]
    rwa [List.head?_reverse]

/-- what is left of an optional text, if anything is -/
inductive TrimsTo (v : Option String) : Option String → Prop where
  | absent (h : Absent v) : TrimsTo v none
  | stripped {s t : String} (hs : v = some s) (ht : Strips s.toList t.toList) (hne : t ≠ "") :
      TrimsTo v (some t)

theorem trimmed?_eq_iff {v o : Option String} : trimmed? v = o ↔ TrimsTo v o := by
  constructor
  · rintro rfl
    cases v with
    | none => exact .absent fun s hs => by cases hs
    | some s =>
      by_cases hs : isBlank s = true
      · rw [show trimmed? (some s) = none from if_pos hs]
        exact .absent (absent_some.mpr hs)
      · rw [show trimmed? (some s) = some (trim s) from if_neg hs]
        refine .stripped rfl ?_ (mt trim_eq_empty.mp hs)
        rw [trim, String.toList_ofList]
        exact strips_trimList s.toList
  · rintro (h | ⟨rfl, ht, hne⟩)
    · cases v with
      | none => rfl
      | some s => exact if_pos (absent_some.mp h)
    · rename_i s t
      have htrim : trim s = t := by
        rw [trim, trimList_eq_iff.mpr ht, String.ofList_toList]
      have hs : ¬ isBlank s = true := fun hblank => hne (htrim ▸ trim_eq_empty.mpr hblank)
      rw [show trimmed? (some s) = some (trim s) from if_neg hs, htrim]

end Text
end JobSuspension
