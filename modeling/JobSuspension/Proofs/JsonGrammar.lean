import JobSuspension.Json.Reader

/-!
# The grammar of JSON

What it means for characters to spell a value, said without scanning anything: characters are put
together from parts.  The atoms are shown to be what the scanners look for.

* `SpellsNumber cs n`, `SpellsString cs s`   the atoms; a literal in which half a surrogate pair
                                   stands alone spells no text;
* `Phrase`, `Spells cs p`          values, and what they are made of;
* `stringBody_append`, `exists_of_stringBody`   a scanner finds the literal at the head of a text,
                                   and whatever it finds is a literal;
* `number_append`, `exists_of_number`   the same for numbers, which end where `Stops` says;
* `skipBlanks_append`, `exists_blanks`   the same for blanks.
-/

namespace JobSuspension
namespace Json

/-! ## grammar -/

def Blanks (cs : List Char) : Prop := ∀ c ∈ cs, isBlank c = true

def Digits (cs : List Char) : Prop := cs ≠ [] ∧ ∀ c ∈ cs, c.isDigit = true

inductive SpellsFraction : List Char → List Char → Prop where
  | none : SpellsFraction [] []
  | digits {ds : List Char} (h : Digits ds) : SpellsFraction ('.' :: ds) ds

inductive SpellsExponent : List Char → Option (Bool × List Char) → Prop where
  | none : SpellsExponent [] none
  | unsigned {e : Char} (he : e = 'e' ∨ e = 'E') {ds : List Char} (h : Digits ds) :
      SpellsExponent (e :: ds) (some (false, ds))
  | plus {e : Char} (he : e = 'e' ∨ e = 'E') {ds : List Char} (h : Digits ds) :
      SpellsExponent (e :: '+' :: ds) (some (false, ds))
  | minus {e : Char} (he : e = 'e' ∨ e = 'E') {ds : List Char} (h : Digits ds) :
      SpellsExponent (e :: '-' :: ds) (some (true, ds))

def sign (negative : Bool) : List Char := if negative then ['-'] else []

structure SpellsNumber (cs : List Char) (n : Number) : Prop where
  whole : Digits n.whole
  noLeadingZero : n.whole.head? = some '0' → n.whole = ['0']
  parts : ∃ fs es, SpellsFraction fs n.fraction ∧ SpellsExponent es n.exponent ∧
    cs = sign n.negative ++ (n.whole ++ (fs ++ es))

/-- one character inside a string literal, as it is or escaped -/
inductive SpellsUnit : List Char → Nat → Prop where
  | plain {c : Char} (hquote : c ≠ '"') (hescape : c ≠ '\\') (hcontrol : 0x20 ≤ c.toNat) :
      SpellsUnit [c] c.toNat
  | short {e : Char} {u : Nat} (h : shortEscape? e = some u) : SpellsUnit ['\\', e] u
  | code {a b c d : Char} {u : Nat} (h : hexUnit? a b c d = some u) :
      SpellsUnit ['\\', 'u', a, b, c, d] u

inductive SpellsUnits : List Char → List Nat → Prop where
  | nil : SpellsUnits [] []
  | cons {part cs : List Char} {u : Nat} {us : List Nat} (h : SpellsUnit part u)
      (hs : SpellsUnits cs us) : SpellsUnits (part ++ cs) (u :: us)

/-- a literal with its quotes -/
def SpellsString (cs : List Char) (s : Option String) : Prop :=
  ∃ body us, SpellsUnits body us ∧ cs = '"' :: (body ++ ['"']) ∧
    s = (pairUnits us).map String.ofList

inductive Phrase where
  | value (v : Value)
  /-- a value between blanks -/
  | element (v : Value)
  /-- elements with commas between them -/
  | items (vs : List Value)
  /-- members with commas between them -/
  | members (ms : List (Option String × Value))

inductive Spells : List Char → Phrase → Prop where
  | nullWord : Spells ['n', 'u', 'l', 'l'] (.value .null)
  | trueWord : Spells ['t', 'r', 'u', 'e'] (.value (.bool true))
  | falseWord : Spells ['f', 'a', 'l', 's', 'e'] (.value (.bool false))
  | number {cs : List Char} {n : Number} (h : SpellsNumber cs n) : Spells cs (.value (.number n))
  | string {cs : List Char} {s : Option String} (h : SpellsString cs s) :
      Spells cs (.value (stringValue s))
  | emptyArray {b : List Char} (hb : Blanks b) : Spells ('[' :: (b ++ [']'])) (.value (.array []))
  | array {cs : List Char} {vs : List Value} (h : Spells cs (.items vs)) :
      Spells ('[' :: (cs ++ [']'])) (.value (.array vs))
  | emptyObject {b : List Char} (hb : Blanks b) :
      Spells ('{' :: (b ++ ['}'])) (.value (.object []))
  | object {cs : List Char} {ms : List (Option String × Value)} (h : Spells cs (.members ms)) :
      Spells ('{' :: (cs ++ ['}'])) (.value (objectValue ms))
  | element {b cs b' : List Char} {v : Value} (hb : Blanks b) (h : Spells cs (.value v))
      (hb' : Blanks b') : Spells (b ++ (cs ++ b')) (.element v)
  | item {cs : List Char} {v : Value} (h : Spells cs (.element v)) : Spells cs (.items [v])
  | items {cs ds : List Char} {v : Value} {vs : List Value} (h : Spells cs (.element v))
      (hs : Spells ds (.items vs)) : Spells (cs ++ ',' :: ds) (.items (v :: vs))
  | member {b ks b' cs : List Char} {k : Option String} {v : Value} (hb : Blanks b)
      (hk : SpellsString ks k) (hb' : Blanks b') (h : Spells cs (.element v)) :
      Spells (b ++ (ks ++ (b' ++ ':' :: cs))) (.members [(k, v)])
  | members {b ks b' cs ds : List Char} {k : Option String} {v : Value}
      {ms : List (Option String × Value)} (hb : Blanks b) (hk : SpellsString ks k)
      (hb' : Blanks b') (h : Spells cs (.element v)) (hs : Spells ds (.members ms)) :
      Spells (b ++ (ks ++ (b' ++ ':' :: (cs ++ ',' :: ds)))) (.members ((k, v) :: ms))

/-! ## blanks -/

theorem blanks_nil : Blanks [] := fun _ h => absurd h List.not_mem_nil

theorem Blanks.append {b b' : List Char} (h : Blanks b) (h' : Blanks b') : Blanks (b ++ b') :=
  fun c hc => (List.mem_append.mp hc).elim (h c) (h' c)

theorem skipBlanks_append {b : List Char} (hb : Blanks b) (rest : List Char) :
    skipBlanks (b ++ rest) = skipBlanks rest :=
  List.dropWhile_append_of_pos hb

theorem skipBlanks_cons {c : Char} (hc : isBlank c = false) (rest : List Char) :
    skipBlanks (c :: rest) = c :: rest := by
  rw [skipBlanks, List.dropWhile_cons_of_neg (by rw [hc]; decide)]

/-- what is skipped are blanks -/
theorem exists_blanks (cs : List Char) : ∃ b, Blanks b ∧ cs = b ++ skipBlanks cs := by
  refine ⟨cs.takeWhile isBlank, fun c hc => ?_, (List.takeWhile_append_dropWhile).symm⟩
  exact List.all_eq_true.mp List.all_takeWhile c hc

/-! ## strings -/

theorem units_unit {part : List Char} {u : Nat} (h : SpellsUnit part u) (cs : List Char) :
    units (part ++ cs) = (units cs).map fun x => (u :: x.1, x.2) := by
  cases h with
  | @plain c hquote hescape hcontrol =>
    have hplain : ¬ (c = '\\' ∨ c.toNat < 0x20) := by
      rintro (h | h)
      · exact hescape h
      · omega
    show units (c :: cs) = _
    rw [units]
    · rw [if_neg hplain]
      cases units cs <;> rfl
    · rintro rfl
      exact hquote rfl
    · rintro _ _ _ _ _ rfl
      exact absurd rfl hescape
    · rintro _ _ rfl
      exact absurd rfl hescape
  | @short e u h =>
    have he : e ≠ 'u' := by
      rintro rfl
      cases h
    show units ('\\' :: e :: cs) = _
    rw [units]
    · rw [h]
      cases units cs <;> rfl
    · intro a b c d rest hu _
      exact he hu
  | code h =>
    show units ('\\' :: 'u' :: _ :: _ :: _ :: _ :: cs) = _
    rw [units, h]
    cases units cs <;> rfl

theorem units_append {body : List Char} {us : List Nat} (h : SpellsUnits body us)
    (rest : List Char) : units (body ++ '"' :: rest) = some (us, rest) := by
  induction h with
  | nil => rfl
  | cons h hs ih =>
    rw [List.append_assoc, units_unit h, ih]
    rfl

/-- what is read after one unit is read is put behind it -/
theorem exists_of_units_unit {part cs rest : List Char} {u : Nat} {us : List Nat}
    (hpart : SpellsUnit part u)
    (ih : ∀ {us rest}, units cs = some (us, rest) →
      ∃ body, SpellsUnits body us ∧ cs = body ++ '"' :: rest)
    (h : units (part ++ cs) = some (us, rest)) :
    ∃ body, SpellsUnits body us ∧ part ++ cs = body ++ '"' :: rest := by
  rw [units_unit hpart] at h
  obtain ⟨⟨us', rest'⟩, hrun, heq⟩ := Option.map_eq_some_iff.mp h
  cases heq
  obtain ⟨body, hbody, rfl⟩ := ih hrun
  exact ⟨part ++ body, .cons hpart hbody, (List.append_assoc _ _ _).symm⟩

theorem exists_of_units {cs rest : List Char} {us : List Nat} (h : units cs = some (us, rest)) :
    ∃ body, SpellsUnits body us ∧ cs = body ++ '"' :: rest := by
  induction cs using units.induct generalizing us rest with
  | case1 => cases h
  | case2 rest' =>
    cases h
    exact ⟨[], .nil, rfl⟩
  | case3 a b c d rest' ih =>
    cases hu : hexUnit? a b c d with
    | none =>
      rw [units, hu] at h
      cases h
    | some u => exact exists_of_units_unit (.code hu) ih h
  | case4 e rest' hcode ih =>
    cases hu : shortEscape? e with
    | none =>
      rw [units, hu] at h
      · cases h
      · exact hcode
    | some u => exact exists_of_units_unit (.short hu) ih h
  | case5 c rest' hquote hcode hshort hc =>
    rw [units, if_pos hc] at h
    · cases h
    · exact hquote
    · exact hcode
    · exact hshort
  | case6 c rest' hquote hcode hshort hc ih =>
    rw [not_or, Nat.not_lt] at hc
    exact exists_of_units_unit (.plain hquote hc.1 hc.2) ih h

theorem stringBody_append {cs : List Char} {s : Option String} (h : SpellsString cs s)
    (rest : List Char) :
    ∃ body, cs = '"' :: body ∧ stringBody (body ++ rest) = some (s, rest) := by
  obtain ⟨body, us, hus, rfl, rfl⟩ := h
  refine ⟨body ++ ['"'], rfl, ?_⟩
  rw [stringBody, List.append_assoc, List.singleton_append, units_append hus]
  rfl

theorem exists_of_stringBody {cs rest : List Char} {s : Option String}
    (h : stringBody cs = some (s, rest)) :
    ∃ part, SpellsString part s ∧ '"' :: cs = part ++ rest := by
  unfold stringBody at h
  obtain ⟨⟨us, rest'⟩, hus, heq⟩ := Option.bind_eq_some_iff.mp h
  cases heq
  obtain ⟨body, hbody, rfl⟩ := exists_of_units hus
  exact ⟨_, ⟨body, us, hbody, rfl, rfl⟩, by simp⟩

/-! ## numbers -/

/-- no character that could belong to a number is next -/
def Stops (rest : List Char) : Prop :=
  ∀ c ∈ rest.head?, c.isDigit = false ∧ c ≠ '.' ∧ c ≠ 'e' ∧ c ≠ 'E'

theorem takeWhile_digits {ds rest : List Char} (hd : ∀ c ∈ ds, c.isDigit = true)
    (hr : ∀ c ∈ rest.head?, c.isDigit = false) :
    (ds ++ rest).takeWhile Char.isDigit = ds ∧ (ds ++ rest).dropWhile Char.isDigit = rest := by
  rw [List.takeWhile_append_of_pos hd, List.dropWhile_append_of_pos hd]
  cases rest with
  | nil => simp
  | cons c rest =>
    have hc : c.isDigit = false := hr c rfl
    simp [hc]

/-- the digits at the head of the text -/
theorem digits_takeWhile {cs : List Char} (h : ¬ (cs.takeWhile Char.isDigit).isEmpty = true) :
    Digits (cs.takeWhile Char.isDigit) :=
  ⟨fun e => h (List.isEmpty_iff.mpr e), fun c hc => List.all_eq_true.mp List.all_takeWhile c hc⟩

theorem exponentDigits_append (minus : Bool) {ds rest : List Char} (hd : Digits ds)
    (hr : Stops rest) : exponentDigits minus (ds ++ rest) = some (some (minus, ds), rest) := by
  obtain ⟨ht, hw⟩ := takeWhile_digits hd.2 fun c hc => (hr c hc).1
  simp only [exponentDigits, ht, hw, List.isEmpty_iff, hd.1, if_false]

theorem exists_of_exponentDigits {minus : Bool} {cs rest : List Char}
    {e : Option (Bool × List Char)} (h : exponentDigits minus cs = some (e, rest)) :
    ∃ ds, Digits ds ∧ e = some (minus, ds) ∧ cs = ds ++ rest := by
  unfold exponentDigits at h
  by_cases hempty : (cs.takeWhile Char.isDigit).isEmpty = true
  · simp only [if_pos hempty] at h
    cases h
  · simp only [if_neg hempty] at h
    cases h
    exact ⟨_, digits_takeWhile hempty, rfl, List.takeWhile_append_dropWhile.symm⟩

theorem exponent_append {es rest : List Char} {e : Option (Bool × List Char)}
    (h : SpellsExponent es e) (hr : Stops rest) : exponent (es ++ rest) = some (e, rest) := by
  cases h with
  | none =>
    show exponent rest = _
    cases rest with
    | nil => rfl
    | cons c rest =>
      obtain ⟨-, -, he, hE⟩ := hr c rfl
      unfold exponent
      simp only [he, hE, or_self, if_false]
  | @unsigned c he ds hd =>
    have hdigits := exponentDigits_append false hd hr
    obtain ⟨d, ds', rfl⟩ := List.exists_cons_of_ne_nil hd.1
    have hdigit : d.isDigit = true := hd.2 d List.mem_cons_self
    show exponent (c :: d :: (ds' ++ rest)) = _
    rw [exponent, if_pos he]
    · exact hdigits
    · intro cs heq
      cases heq
      cases hdigit
    · intro cs heq
      cases heq
      cases hdigit
  | @plus c he ds hd =>
    show exponent (c :: '+' :: (ds ++ rest)) = _
    rw [exponent, if_pos he]
    exact exponentDigits_append false hd hr
  | @minus c he ds hd =>
    show exponent (c :: '-' :: (ds ++ rest)) = _
    rw [exponent, if_pos he]
    exact exponentDigits_append true hd hr

theorem exists_of_exponent {cs rest : List Char} {e : Option (Bool × List Char)}
    (h : exponent cs = some (e, rest)) : ∃ es, SpellsExponent es e ∧ cs = es ++ rest := by
  cases cs with
  | nil =>
    cases h
    exact ⟨[], .none, rfl⟩
  | cons c cs =>
    unfold exponent at h
    by_cases hc : c = 'e' ∨ c = 'E'
    · simp only [if_pos hc] at h
      split at h
      · obtain ⟨ds, hd, rfl, rfl⟩ := exists_of_exponentDigits h
        exact ⟨_, .plus hc hd, rfl⟩
      · obtain ⟨ds, hd, rfl, rfl⟩ := exists_of_exponentDigits h
        exact ⟨_, .minus hc hd, rfl⟩
      · obtain ⟨ds, hd, rfl, rfl⟩ := exists_of_exponentDigits h
        exact ⟨_, .unsigned hc hd, rfl⟩
    · simp only [if_neg hc] at h
      cases h
      exact ⟨[], .none, rfl⟩

theorem fraction_append {fs ds rest : List Char} (h : SpellsFraction fs ds)
    (hr : ∀ c ∈ rest.head?, c.isDigit = false ∧ c ≠ '.') :
    fraction (fs ++ rest) = some (ds, rest) := by
  cases h with
  | none =>
    show fraction rest = _
    cases rest with
    | nil => rfl
    | cons c rest =>
      rw [fraction]
      intro cs heq
      cases heq
      exact (hr _ rfl).2 rfl
  | digits hd =>
    obtain ⟨ht, hw⟩ := takeWhile_digits hd.2 fun c hc => (hr c hc).1
    show fraction ('.' :: (_ ++ rest)) = _
    simp only [fraction, ht, hw, List.isEmpty_iff, hd.1, if_false]

theorem exists_of_fraction {cs rest ds : List Char} (h : fraction cs = some (ds, rest)) :
    ∃ fs, SpellsFraction fs ds ∧ cs = fs ++ rest := by
  unfold fraction at h
  split at h
  · next cs =>
    by_cases hempty : (cs.takeWhile Char.isDigit).isEmpty = true
    · simp only [if_pos hempty] at h
      cases h
    · simp only [if_neg hempty] at h
      cases h
      refine ⟨_, .digits (digits_takeWhile hempty), ?_⟩
      rw [List.cons_append, List.takeWhile_append_dropWhile]
  · cases h
    exact ⟨[], .none, rfl⟩

/-- what comes after the digits of a number stops them -/
theorem head_exponent {es rest : List Char} {e : Option (Bool × List Char)}
    (h : SpellsExponent es e) (hr : Stops rest) :
    ∀ c ∈ (es ++ rest).head?, c.isDigit = false ∧ c ≠ '.' := by
  intro c hc
  cases h with
  | none => exact ⟨(hr c hc).1, (hr c hc).2.1⟩
  | unsigned he | plus he | minus he =>
    cases hc
    rcases he with rfl | rfl <;> decide

theorem head_fraction {fs ds rest : List Char} (h : SpellsFraction fs ds)
    (hr : ∀ c ∈ rest.head?, c.isDigit = false ∧ c ≠ '.') :
    ∀ c ∈ (fs ++ rest).head?, c.isDigit = false := by
  intro c hc
  cases h with
  | none => exact (hr c hc).1
  | digits hd =>
    cases hc
    rfl

theorem magnitude_append {n : Number} (hwhole : Digits n.whole)
    (hzero : n.whole.head? = some '0' → n.whole = ['0']) {fs es rest : List Char}
    (hf : SpellsFraction fs n.fraction) (he : SpellsExponent es n.exponent) (hr : Stops rest) :
    magnitude n.negative (n.whole ++ (fs ++ (es ++ rest))) = some (n, rest) := by
  have hstop := head_exponent he hr
  obtain ⟨ht, hw⟩ := takeWhile_digits hwhole.2 (head_fraction hf hstop)
  have hplain : ¬ (n.whole.isEmpty = true ∨ n.whole.head? = some '0' ∧ n.whole ≠ ['0']) := by
    rintro (hn | ⟨hz, hn⟩)
    · exact hwhole.1 (List.isEmpty_iff.mp hn)
    · exact hn (hzero hz)
  unfold magnitude
  simp only [ht, hw, if_neg hplain, fraction_append hf hstop, Option.bind_eq_bind,
    Option.bind_some, exponent_append he hr]
  rfl

theorem exists_of_magnitude {negative : Bool} {cs rest : List Char} {n : Number}
    (h : magnitude negative cs = some (n, rest)) :
    ∃ part, SpellsNumber (sign negative ++ part) n ∧ cs = part ++ rest := by
  unfold magnitude at h
  by_cases hbad : (cs.takeWhile Char.isDigit).isEmpty = true ∨
      (cs.takeWhile Char.isDigit).head? = some '0' ∧ cs.takeWhile Char.isDigit ≠ ['0']
  · simp only [if_pos hbad] at h
    cases h
  · simp only [if_neg hbad] at h
    obtain ⟨⟨ds, cs₁⟩, hfraction, h⟩ := Option.bind_eq_some_iff.mp h
    obtain ⟨⟨e, cs₂⟩, hexponent, h⟩ := Option.bind_eq_some_iff.mp h
    cases h
    obtain ⟨fs, hf, hfs⟩ := exists_of_fraction hfraction
    obtain ⟨es, he, rfl⟩ := exists_of_exponent hexponent
    rw [not_or] at hbad
    have hzero : (cs.takeWhile Char.isDigit).head? = some '0' →
        cs.takeWhile Char.isDigit = ['0'] :=
      fun hz => Decidable.byContradiction fun hne => hbad.2 ⟨hz, hne⟩
    refine ⟨cs.takeWhile Char.isDigit ++ (fs ++ es),
      ⟨digits_takeWhile hbad.1, hzero, fs, es, hf, he, rfl⟩, ?_⟩
    rw [List.append_assoc, List.append_assoc, ← hfs, List.takeWhile_append_dropWhile]

theorem number_append {cs rest : List Char} {n : Number} (h : SpellsNumber cs n)
    (hr : Stops rest) : number (cs ++ rest) = some (n, rest) := by
  obtain ⟨hwhole, hzero, fs, es, hf, he, rfl⟩ := h
  have hm := magnitude_append hwhole hzero hf he hr
  simp only [List.append_assoc]
  cases hneg : n.negative with
  | true =>
    rw [hneg] at hm
    exact hm
  | false =>
    rw [hneg] at hm
    obtain ⟨c, cs, hc⟩ := List.exists_cons_of_ne_nil hwhole.1
    have hdigit : c.isDigit = true := hwhole.2 c (hc ▸ List.mem_cons_self)
    show number (n.whole ++ _) = _
    rw [hc, List.cons_append] at hm ⊢
    rw [number]
    · exact hm
    · intro ds heq
      cases heq
      cases hdigit

theorem exists_of_number {cs rest : List Char} {n : Number} (h : number cs = some (n, rest)) :
    ∃ part, SpellsNumber part n ∧ cs = part ++ rest := by
  unfold number at h
  split at h
  · obtain ⟨part, hpart, rfl⟩ := exists_of_magnitude h
    exact ⟨_, hpart, rfl⟩
  · exact exists_of_magnitude h

/-- the first character of a number tells it from every other value -/
theorem SpellsNumber.head {cs : List Char} {n : Number} (h : SpellsNumber cs n) :
    ∃ c ds, cs = c :: ds ∧ (c = '-' ∨ c.isDigit = true) := by
  obtain ⟨hwhole, -, fs, es, -, -, rfl⟩ := h
  cases n.negative with
  | true => exact ⟨_, _, rfl, .inl rfl⟩
  | false =>
    obtain ⟨c, cs, hc⟩ := List.exists_cons_of_ne_nil hwhole.1
    rw [hc]
    exact ⟨_, _, rfl, .inr (hwhole.2 c (hc ▸ List.mem_cons_self))⟩

end Json
end JobSuspension
