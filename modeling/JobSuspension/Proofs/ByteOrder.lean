import Mathlib.Data.String.Basic

/-!
# The order of texts is that of their bytes

Texts are compared by code points.  UTF-8 is made so that this is also the order of their bytes: of
two characters the greater one has the greater encoding, and no encoding begins another.

* `Text.bytes s`                  the UTF-8 bytes of a text;
* `Text.BranchesTo l m`           `l` and `m` differ at a place they both have, and `m` is greater;
* `Text.branchesTo_utf8EncodeChar`   the encodings of two characters;
* `Text.bytes_lt_bytes`           texts and their bytes.
-/

namespace JobSuspension
namespace Text

/-- the UTF-8 bytes of a text -/
def bytes (s : String) : List UInt8 := s.toUTF8.data.toList

theorem bytes_eq_flatMap (s : String) : bytes s = s.toList.flatMap String.utf8EncodeChar := by
  have h : s.toUTF8 = s.toList.utf8Encode := by
    conv_lhs => rw [← String.ofList_toList (s := s)]
    exact String.toByteArray_ofList
  rw [bytes, h, List.utf8Encode, List.data_toByteArray]

/-! ## encodings -/

/-- the first difference is at a place that both have, and there `m` is greater -/
def BranchesTo : List UInt8 → List UInt8 → Prop
  | x :: l, y :: m => x < y ∨ x = y ∧ BranchesTo l m
  | _, _ => False

theorem BranchesTo.append_lt {l m : List UInt8} (h : BranchesTo l m) (xs ys : List UInt8) :
    l ++ xs < m ++ ys := by
  induction l generalizing m with
  | nil => exact h.elim
  | cons x l ih =>
    cases m with
    | nil => exact h.elim
    | cons y m =>
      rw [List.cons_append, List.cons_append, List.cons_lt_cons_iff]
      exact h.imp_right fun ⟨hxy, hrest⟩ => ⟨hxy, ih hrest⟩

/-- bytes are compared as numbers -/
theorem branchesTo_cons {m n : Nat} (hm : m < 256) (hn : n < 256) (l l' : List UInt8) :
    BranchesTo (UInt8.ofNat m :: l) (UInt8.ofNat n :: l') ↔ m < n ∨ m = n ∧ BranchesTo l l' := by
  have hm' : (UInt8.ofNat m).toNat = m := Nat.mod_eq_of_lt hm
  have hn' : (UInt8.ofNat n).toNat = n := Nat.mod_eq_of_lt hn
  rw [BranchesTo, UInt8.lt_iff_toNat_lt, ← UInt8.toNat_inj, hm', hn']

theorem branchesTo_utf8EncodeChar {a b : Char} (h : a < b) :
    BranchesTo (String.utf8EncodeChar a) (String.utf8EncodeChar b) := by
  have hb : b.val.toNat < 0x110000 := by
    rcases b.valid with h | h
    · exact Nat.lt_trans h (by decide)
    · exact h.2
  have hab : a.val.toNat < b.val.toNat := h
  unfold String.utf8EncodeChar
  generalize a.val.toNat = v at hab
  generalize b.val.toNat = w at hab hb
  have hdigits (n : Nat) : n / 4096 = n / 64 / 64 ∧ n / 262144 = n / 64 / 64 / 64 := by omega
  simp only [hdigits]
  -- one to four bytes each; a shorter encoding begins with a smaller byte
  split_ifs <;> simp (disch := omega) only [branchesTo_cons] <;> omega

/-! ## texts -/

theorem flatMap_lt_flatMap {cs ds : List Char} (h : cs < ds) :
    cs.flatMap String.utf8EncodeChar < ds.flatMap String.utf8EncodeChar := by
  induction h with
  | @nil d ds =>
    obtain ⟨x, l, hx⟩ := List.exists_cons_of_ne_nil (String.utf8EncodeChar_ne_nil (c := d))
    rw [List.flatMap_cons, hx]
    exact List.nil_lt_cons x _
  | rel h =>
    rw [List.flatMap_cons, List.flatMap_cons]
    exact (branchesTo_utf8EncodeChar h).append_lt _ _
  | cons _ ih =>
    rw [List.flatMap_cons, List.flatMap_cons]
    exact List.append_left_lt ih

theorem bytes_lt_bytes {s t : String} : bytes s < bytes t ↔ s < t := by
  have hlt {s t : String} (h : s < t) : bytes s < bytes t := by
    rw [bytes_eq_flatMap, bytes_eq_flatMap]
    exact flatMap_lt_flatMap (String.lt_iff_toList_lt.mp h)
  refine ⟨fun h => ?_, hlt⟩
  rcases lt_trichotomy s t with hst | rfl | hts
  · exact hst
  · exact absurd h (List.lt_irrefl _)
  · exact absurd h (List.lt_asymm (hlt hts))

end Text
end JobSuspension
