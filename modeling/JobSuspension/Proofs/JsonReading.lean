import JobSuspension.Proofs.JsonGrammar

/-!
# The reader and the grammar

The reader looks at a bounded number of characters and takes values apart from their first
character on; the grammar puts them together.  That both agree is shown in two halves.

* `Ends rest`            what may follow a value;
* `Reads cs p`           the reader finds the phrase at the head of a text and stops behind it, as
                         long as its bound is not smaller than the phrase is long;
* `reads_of_spells`      so it does for whatever is spelled, by induction on the spelling;
* `FindsSpelled n`       whatever the reader finds within `n` steps is spelled there;
* `findsSpelled`         so it is, by induction on the bound;
* `read_eq_some`         a text is read as a value if and only if it spells it.
-/

namespace JobSuspension
namespace Json

/-! ## what comes first and what comes next -/

/-- what may follow a value: the end of the text or of a part of it -/
def Ends (rest : List Char) : Prop := ∀ c ∈ rest.head?, c = ',' ∨ c = ']' ∨ c = '}'

theorem ends_nil : Ends [] := by
  intro c hc
  cases hc

theorem ends_cons {c : Char} (h : c = ',' ∨ c = ']' ∨ c = '}') (rest : List Char) :
    Ends (c :: rest) := by
  intro d hd
  cases hd
  exact h

theorem Ends.skipBlanks_eq {rest : List Char} (h : Ends rest) : skipBlanks rest = rest := by
  cases rest with
  | nil => rfl
  | cons c rest =>
    refine skipBlanks_cons ?_ rest
    rcases h c rfl with rfl | rfl | rfl <;> decide

theorem Ends.skipBlanks_append {b rest : List Char} (h : Ends rest) (hb : Blanks b) :
    skipBlanks (b ++ rest) = rest := by
  rw [Json.skipBlanks_append hb, h.skipBlanks_eq]

theorem Ends.stops {b rest : List Char} (h : Ends rest) (hb : Blanks b) : Stops (b ++ rest) := by
  intro c hc
  cases b with
  | nil => rcases h c hc with rfl | rfl | rfl <;> decide
  | cons d b =>
    cases hc
    have hblank : isBlank c = true := hb c List.mem_cons_self
    simp only [isBlank, Bool.or_eq_true, beq_iff_eq] at hblank
    rcases hblank with ((rfl | rfl) | rfl) | rfl <;> decide

theorem not_isBlank_of_isDigit {c : Char} (h : c.isDigit = true) : isBlank c = false := by
  simp only [isBlank, Bool.or_eq_false_iff, beq_eq_false_iff_ne]
  refine ⟨⟨⟨?_, ?_⟩, ?_⟩, ?_⟩ <;> (rintro rfl; cases h)

theorem Spells.value_head {cs : List Char} {v : Value} (h : Spells cs (.value v)) :
    ∃ c ds, cs = c :: ds ∧ isBlank c = false ∧ c ≠ ']' := by
  cases h with
  | number h =>
    obtain ⟨c, ds, rfl, hcase⟩ := h.head
    refine ⟨c, ds, rfl, ?_⟩
    rcases hcase with rfl | hdigit
    · decide
    · refine ⟨not_isBlank_of_isDigit hdigit, ?_⟩
      rintro rfl
      cases hdigit
  | string h =>
    obtain ⟨body, us, -, rfl, -⟩ := h
    exact ⟨_, _, rfl, by decide, by decide⟩
  | _ => exact ⟨_, _, rfl, by decide, by decide⟩

theorem Spells.element_head {cs : List Char} {v : Value} (h : Spells cs (.element v))
    (rest : List Char) : ∃ c ds, skipBlanks (cs ++ rest) = c :: ds ∧ c ≠ ']' := by
  cases h with
  | element hb h hb' =>
    obtain ⟨c, ds, rfl, hblank, hne⟩ := h.value_head
    rw [List.append_assoc, skipBlanks_append hb]
    exact ⟨c, _, skipBlanks_cons hblank _, hne⟩

theorem Spells.items_head {cs : List Char} {vs : List Value} (h : Spells cs (.items vs))
    (rest : List Char) : ∃ c ds, skipBlanks (cs ++ rest) = c :: ds ∧ c ≠ ']' := by
  cases h with
  | item h => exact h.element_head rest
  | items h hs =>
    rw [List.append_assoc]
    exact h.element_head _

theorem SpellsString.skipBlanks_append {b ks : List Char} {k : Option String}
    (hk : SpellsString ks k) (hb : Blanks b) (rest : List Char) :
    skipBlanks (b ++ (ks ++ rest)) = ks ++ rest := by
  obtain ⟨body, us, -, rfl, -⟩ := hk
  rw [Json.skipBlanks_append hb]
  exact skipBlanks_cons (by decide) _

theorem Spells.members_head {cs : List Char} {ms : List (Option String × Value)}
    (h : Spells cs (.members ms)) (rest : List Char) :
    ∃ ds, skipBlanks (cs ++ rest) = '"' :: ds := by
  cases h with
  | member hb hk hb' h | members hb hk hb' h hs =>
    rw [List.append_assoc, List.append_assoc, hk.skipBlanks_append hb]
    obtain ⟨body, us, -, rfl, -⟩ := hk
    exact ⟨_, rfl⟩

/-! ## what is spelled is read -/

/-- the reader finds the phrase at the head of a text and stops behind it -/
def Reads (cs : List Char) : Phrase → Prop
  | .value v => ∀ n rest, cs.length ≤ n → Stops rest → value n (cs ++ rest) = some (v, rest)
  | .element v => ∀ n rest, cs.length ≤ n → Ends rest →
      ∃ b, Blanks b ∧ value n (skipBlanks (cs ++ rest)) = some (v, b ++ rest)
  | .items vs => ∀ n rest, cs.length < n →
      items n (skipBlanks (cs ++ ']' :: rest)) = some (vs, rest)
  | .members ms => ∀ n rest, cs.length < n →
      members n (skipBlanks (cs ++ '}' :: rest)) = some (ms, rest)

section
variable {n : Nat} {rest : List Char}

theorem value_number {cs : List Char} {x : Number} (h : SpellsNumber cs x) (hr : Stops rest) :
    value (n + 1) (cs ++ rest) = some (.number x, rest) := by
  have hx := number_append h hr
  obtain ⟨c, ds, rfl, hcase⟩ := h.head
  rw [List.cons_append] at hx ⊢
  rw [value]
  · simp only [hcase, if_true, hx]
    rfl
  all_goals rintro rfl; revert hcase; decide

theorem value_string {cs : List Char} {s : Option String} (h : SpellsString cs s) :
    value (n + 1) (cs ++ rest) = some (stringValue s, rest) := by
  obtain ⟨body, rfl, hbody⟩ := stringBody_append h rest
  rw [List.cons_append, value, hbody]
  rfl

theorem value_emptyArray {b : List Char} (hb : Blanks b) :
    value (n + 1) ('[' :: (b ++ [']']) ++ rest) = some (.array [], rest) := by
  have hskip : skipBlanks (b ++ ']' :: rest) = ']' :: rest :=
    (ends_cons (by decide) rest).skipBlanks_append hb
  rw [List.cons_append, List.append_assoc, List.singleton_append, value, hskip]
  rfl

theorem value_emptyObject {b : List Char} (hb : Blanks b) :
    value (n + 1) ('{' :: (b ++ ['}']) ++ rest) = some (.object [], rest) := by
  have hskip : skipBlanks (b ++ '}' :: rest) = '}' :: rest :=
    (ends_cons (by decide) rest).skipBlanks_append hb
  rw [List.cons_append, List.append_assoc, List.singleton_append, value, hskip]
  rfl

theorem value_array {cs : List Char} {vs : List Value} (h : Spells cs (.items vs))
    (hitems : items n (skipBlanks (cs ++ ']' :: rest)) = some (vs, rest)) :
    value (n + 1) ('[' :: (cs ++ [']']) ++ rest) = some (.array vs, rest) := by
  obtain ⟨c, ds, hhead, hne⟩ := h.items_head (']' :: rest)
  rw [List.cons_append, List.append_assoc, List.singleton_append, value]
  rw [hhead] at hitems ⊢
  split
  · next heq =>
    cases heq
    exact absurd rfl hne
  · rw [hitems]
    rfl

theorem value_object {cs : List Char} {ms : List (Option String × Value)}
    (h : Spells cs (.members ms))
    (hmembers : members n (skipBlanks (cs ++ '}' :: rest)) = some (ms, rest)) :
    value (n + 1) ('{' :: (cs ++ ['}']) ++ rest) = some (objectValue ms, rest) := by
  obtain ⟨ds, hhead⟩ := h.members_head ('}' :: rest)
  rw [List.cons_append, List.append_assoc, List.singleton_append, value]
  rw [hhead] at hmembers ⊢
  split
  · next heq => cases heq
  · rw [hmembers]
    rfl

variable {cs ds : List Char} {v : Value}

theorem reads_element {b b' : List Char} (hb : Blanks b) (h : Spells cs (.value v))
    (hb' : Blanks b') (hreads : Reads cs (.value v)) : Reads (b ++ (cs ++ b')) (.element v) := by
  intro n rest hn hr
  obtain ⟨c, ds, rfl, hblank, -⟩ := h.value_head
  refine ⟨b', hb', ?_⟩
  rw [List.append_assoc, List.append_assoc, skipBlanks_append hb, List.cons_append,
    skipBlanks_cons hblank]
  rw [List.length_append, List.length_append] at hn
  exact hreads n (b' ++ rest) (by omega) (hr.stops hb')

theorem reads_item (h : Reads cs (.element v)) : Reads cs (.items [v]) := by
  intro n rest hn
  obtain ⟨n, rfl⟩ : ∃ m, n = m + 1 := ⟨n - 1, by omega⟩
  have hends : Ends (']' :: rest) := ends_cons (by decide) rest
  obtain ⟨b, hb, hv⟩ := h n _ (by omega) hends
  rw [items, hv]
  simp only [Option.bind_eq_bind, Option.bind_some, hends.skipBlanks_append hb]
  rfl

theorem reads_items {vs : List Value} (h : Reads cs (.element v)) (hs : Reads ds (.items vs)) :
    Reads (cs ++ ',' :: ds) (.items (v :: vs)) := by
  intro n rest hn
  rw [List.length_append, List.length_cons] at hn
  obtain ⟨n, rfl⟩ : ∃ m, n = m + 1 := ⟨n - 1, by omega⟩
  have hends : Ends (',' :: (ds ++ ']' :: rest)) := ends_cons (by decide) _
  obtain ⟨b, hb, hv⟩ := h n _ (by omega) hends
  rw [List.append_assoc, List.cons_append, items, hv]
  simp only [Option.bind_eq_bind, Option.bind_some, hends.skipBlanks_append hb,
    hs n rest (by omega)]
  rfl

/-- what is read of the members after the first name and its colon -/
def membersAfter (n : Nat) (k : Option String) (cs : List Char) :
    Option (List (Option String × Value) × List Char) := do
  let (v, cs) ← value n (skipBlanks cs)
  match skipBlanks cs with
  | '}' :: rest => return ([(k, v)], rest)
  | ',' :: cs =>
    let (ms, rest) ← members n (skipBlanks cs)
    return ((k, v) :: ms, rest)
  | _ => none

theorem members_name {b ks b' : List Char} {k : Option String} (hb : Blanks b)
    (hk : SpellsString ks k) (hb' : Blanks b') (cs : List Char) :
    members (n + 1) (skipBlanks (b ++ (ks ++ (b' ++ ':' :: cs)))) = membersAfter n k cs := by
  have hskip : skipBlanks (b' ++ ':' :: cs) = ':' :: cs := by
    rw [skipBlanks_append hb']
    exact skipBlanks_cons (by decide) cs
  rw [hk.skipBlanks_append hb]
  obtain ⟨body, rfl, hbody⟩ := stringBody_append hk (b' ++ ':' :: cs)
  rw [List.cons_append, members, hbody]
  simp only [Option.bind_eq_bind, Option.bind_some, hskip]
  rfl

theorem reads_member {b ks b' : List Char} {k : Option String} (hb : Blanks b)
    (hk : SpellsString ks k) (hb' : Blanks b') (h : Reads cs (.element v)) :
    Reads (b ++ (ks ++ (b' ++ ':' :: cs))) (.members [(k, v)]) := by
  intro n rest hn
  simp only [List.length_append, List.length_cons] at hn
  obtain ⟨n, rfl⟩ : ∃ m, n = m + 1 := ⟨n - 1, by omega⟩
  have hends : Ends ('}' :: rest) := ends_cons (by decide) rest
  obtain ⟨b₁, hb₁, hv⟩ := h n _ (by omega) hends
  simp only [List.append_assoc, List.cons_append]
  rw [members_name hb hk hb', membersAfter, hv]
  simp only [Option.bind_eq_bind, Option.bind_some, hends.skipBlanks_append hb₁]
  rfl

theorem reads_members {b ks b' : List Char} {k : Option String}
    {ms : List (Option String × Value)} (hb : Blanks b) (hk : SpellsString ks k)
    (hb' : Blanks b') (h : Reads cs (.element v)) (hs : Reads ds (.members ms)) :
    Reads (b ++ (ks ++ (b' ++ ':' :: (cs ++ ',' :: ds)))) (.members ((k, v) :: ms)) := by
  intro n rest hn
  simp only [List.length_append, List.length_cons] at hn
  obtain ⟨n, rfl⟩ : ∃ m, n = m + 1 := ⟨n - 1, by omega⟩
  have hends : Ends (',' :: (ds ++ '}' :: rest)) := ends_cons (by decide) _
  obtain ⟨b₁, hb₁, hv⟩ := h n _ (by omega) hends
  simp only [List.append_assoc, List.cons_append]
  rw [members_name hb hk hb', membersAfter, hv]
  simp only [Option.bind_eq_bind, Option.bind_some, hends.skipBlanks_append hb₁,
    hs n rest (by omega)]
  rfl

end

/-- a value is not empty, so there is a step to take -/
theorem reads_value {cs : List Char} {v : Value} (h : Spells cs (.value v))
    (hstep : ∀ n rest, cs.length ≤ n + 1 → Stops rest →
      value (n + 1) (cs ++ rest) = some (v, rest)) : Reads cs (.value v) := by
  intro n rest hn hr
  obtain ⟨c, ds, rfl, -⟩ := h.value_head
  cases n with
  | zero => exact absurd hn (Nat.not_succ_le_zero _)
  | succ n => exact hstep n rest hn hr

theorem reads_of_spells {cs : List Char} {p : Phrase} (h : Spells cs p) : Reads cs p := by
  induction h with
  | nullWord => exact reads_value .nullWord fun n rest _ _ => rfl
  | trueWord => exact reads_value .trueWord fun n rest _ _ => rfl
  | falseWord => exact reads_value .falseWord fun n rest _ _ => rfl
  | number h => exact reads_value (.number h) fun n rest _ hr => value_number h hr
  | string h => exact reads_value (.string h) fun n rest _ _ => value_string h
  | emptyArray hb => exact reads_value (.emptyArray hb) fun n rest _ _ => value_emptyArray hb
  | array h ih =>
    refine reads_value (.array h) fun n rest hn _ => value_array h (ih n rest ?_)
    rw [List.length_cons, List.length_append, List.length_singleton] at hn
    omega
  | emptyObject hb => exact reads_value (.emptyObject hb) fun n rest _ _ => value_emptyObject hb
  | object h ih =>
    refine reads_value (.object h) fun n rest hn _ => value_object h (ih n rest ?_)
    rw [List.length_cons, List.length_append, List.length_singleton] at hn
    omega
  | element hb h hb' ih => exact reads_element hb h hb' ih
  | item h ih => exact reads_item ih
  | items h hs ih ihs => exact reads_items ih ihs
  | member hb hk hb' h ih => exact reads_member hb hk hb' ih
  | members hb hk hb' h hs ih ihs => exact reads_members hb hk hb' ih ihs

/-! ## what is read is spelled -/

theorem Spells.blanks_element {b cs : List Char} {v : Value} (hb : Blanks b)
    (h : Spells cs (.element v)) : Spells (b ++ cs) (.element v) := by
  cases h with
  | element hb₁ h hb' =>
    rw [← List.append_assoc]
    exact .element (hb.append hb₁) h hb'

theorem Spells.toElement {cs : List Char} {v : Value} (h : Spells cs (.value v)) :
    Spells cs (.element v) := by
  have helement : Spells ([] ++ (cs ++ [])) (.element v) := .element blanks_nil h blanks_nil
  rw [List.nil_append, List.append_nil] at helement
  exact helement

theorem Spells.blanks_items {b cs : List Char} {vs : List Value} (hb : Blanks b)
    (h : Spells cs (.items vs)) : Spells (b ++ cs) (.items vs) := by
  cases h with
  | item h => exact .item (h.blanks_element hb)
  | items h hs =>
    rw [← List.append_assoc]
    exact .items (h.blanks_element hb) hs

theorem Spells.blanks_members {b cs : List Char} {ms : List (Option String × Value)}
    (hb : Blanks b) (h : Spells cs (.members ms)) : Spells (b ++ cs) (.members ms) := by
  cases h with
  | member hb₁ hk hb' h =>
    rw [← List.append_assoc]
    exact .member (hb.append hb₁) hk hb' h
  | members hb₁ hk hb' h hs =>
    rw [← List.append_assoc]
    exact .members (hb.append hb₁) hk hb' h hs

theorem exists_of_word {cs rest : List Char} {v : Value} (h : word cs = some (v, rest)) :
    ∃ part, Spells part (.value v) ∧ cs = part ++ rest := by
  unfold word at h
  split at h
  · cases h
    exact ⟨_, .nullWord, rfl⟩
  · cases h
    exact ⟨_, .trueWord, rfl⟩
  · cases h
    exact ⟨_, .falseWord, rfl⟩
  · cases h

/-- the first name is read before its colon, and the rest after it -/
theorem exists_of_members {n : Nat} {cs rest : List Char} {ms : List (Option String × Value)}
    (h : members (n + 1) cs = some (ms, rest)) :
    ∃ key b k cs', SpellsString key k ∧ Blanks b ∧ cs = key ++ (b ++ ':' :: cs') ∧
      membersAfter n k cs' = some (ms, rest) := by
  unfold members at h
  split at h
  · cases h
  · next n' cs heq =>
    cases heq
    obtain ⟨⟨k, cs₁⟩, hk, h⟩ := Option.bind_eq_some_iff.mp h
    obtain ⟨key, hkey, hcs⟩ := exists_of_stringBody hk
    obtain ⟨b, hb, hcs₁⟩ := exists_blanks cs₁
    simp only at h
    split at h
    · next cs₂ hcolon => exact ⟨key, b, k, cs₂, hkey, hb, by rw [hcs, ← hcolon, ← hcs₁], h⟩
    · cases h
  · cases h

/-- whatever the reader finds within `n` steps is spelled there -/
structure FindsSpelled (n : Nat) : Prop where
  value : ∀ {cs rest v}, value n cs = some (v, rest) →
    ∃ part, Spells part (.value v) ∧ cs = part ++ rest
  items : ∀ {cs rest vs}, items n cs = some (vs, rest) →
    ∃ part, Spells part (.items vs) ∧ cs = part ++ ']' :: rest
  members : ∀ {cs rest ms}, members n cs = some (ms, rest) →
    ∃ part, Spells part (.members ms) ∧ cs = part ++ '}' :: rest

namespace FindsSpelled

variable {n : Nat} (ih : FindsSpelled n) {cs rest : List Char} {v : Value}
include ih

/-- an element at the head of the text, up to the character behind it -/
theorem element {c : Char} {rest' : List Char} (h : Json.value n cs = some (v, rest'))
    (hnext : skipBlanks rest' = c :: rest) :
    ∃ part, Spells part (.element v) ∧ cs = part ++ c :: rest := by
  obtain ⟨part, hpart, rfl⟩ := ih.value h
  obtain ⟨b, hb, hrest⟩ := exists_blanks rest'
  refine ⟨[] ++ (part ++ b), .element blanks_nil hpart hb, ?_⟩
  rw [List.nil_append, List.append_assoc, ← hnext, ← hrest]

theorem blanks_element {c : Char} {rest' : List Char}
    (h : Json.value n (skipBlanks cs) = some (v, rest')) (hnext : skipBlanks rest' = c :: rest) :
    ∃ part, Spells part (.element v) ∧ cs = part ++ c :: rest := by
  obtain ⟨b, hb, hcs⟩ := exists_blanks cs
  obtain ⟨part, hpart, hskip⟩ := ih.element h hnext
  refine ⟨b ++ part, hpart.blanks_element hb, ?_⟩
  rw [List.append_assoc, ← hskip, ← hcs]

theorem object (h : Json.value (n + 1) ('{' :: cs) = some (v, rest)) :
    ∃ part, Spells part (.value v) ∧ '{' :: cs = part ++ rest := by
  obtain ⟨b, hb, hcs⟩ := exists_blanks cs
  rw [Json.value] at h
  split at h
  · next rest' heq =>
    cases h
    refine ⟨_, .emptyObject hb, ?_⟩
    rw [hcs, heq, List.cons_append, List.append_assoc, List.singleton_append]
  · obtain ⟨⟨ms, rest'⟩, hms, heq⟩ := Option.bind_eq_some_iff.mp h
    cases heq
    obtain ⟨part, hpart, hmembers⟩ := ih.members hms
    refine ⟨_, .object (hpart.blanks_members hb), ?_⟩
    rw [hcs, hmembers, List.cons_append, List.append_assoc, List.append_assoc,
      List.singleton_append]

theorem array (h : Json.value (n + 1) ('[' :: cs) = some (v, rest)) :
    ∃ part, Spells part (.value v) ∧ '[' :: cs = part ++ rest := by
  obtain ⟨b, hb, hcs⟩ := exists_blanks cs
  rw [Json.value] at h
  split at h
  · next rest' heq =>
    cases h
    refine ⟨_, .emptyArray hb, ?_⟩
    rw [hcs, heq, List.cons_append, List.append_assoc, List.singleton_append]
  · obtain ⟨⟨vs, rest'⟩, hvs, heq⟩ := Option.bind_eq_some_iff.mp h
    cases heq
    obtain ⟨part, hpart, hitems⟩ := ih.items hvs
    refine ⟨_, .array (hpart.blanks_items hb), ?_⟩
    rw [hcs, hitems, List.cons_append, List.append_assoc, List.append_assoc,
      List.singleton_append]

theorem value_succ (h : Json.value (n + 1) cs = some (v, rest)) :
    ∃ part, Spells part (.value v) ∧ cs = part ++ rest := by
  cases cs with
  | nil =>
    rw [Json.value] at h
    cases h
  | cons c cs =>
    by_cases hobject : c = '{'
    · subst hobject
      exact ih.object h
    by_cases harray : c = '['
    · subst harray
      exact ih.array h
    by_cases hstring : c = '"'
    · subst hstring
      rw [Json.value] at h
      obtain ⟨⟨s, rest'⟩, hs, heq⟩ := Option.bind_eq_some_iff.mp h
      cases heq
      obtain ⟨part, hpart, hcs⟩ := exists_of_stringBody hs
      exact ⟨part, .string hpart, hcs⟩
    rw [Json.value] at h
    · split at h
      · obtain ⟨⟨x, rest'⟩, hx, heq⟩ := Option.bind_eq_some_iff.mp h
        cases heq
        obtain ⟨part, hpart, hcs⟩ := exists_of_number hx
        exact ⟨part, .number hpart, hcs⟩
      · exact exists_of_word h
    · exact hobject
    · exact harray
    · exact hstring

theorem items_succ {vs : List Value} (h : Json.items (n + 1) cs = some (vs, rest)) :
    ∃ part, Spells part (.items vs) ∧ cs = part ++ ']' :: rest := by
  rw [Json.items] at h
  obtain ⟨⟨v, cs₁⟩, hv, h⟩ := Option.bind_eq_some_iff.mp h
  simp only at h
  split at h
  · next rest' hnext =>
    cases h
    obtain ⟨part, hpart, rfl⟩ := ih.element hv hnext
    exact ⟨part, .item hpart, rfl⟩
  · next cs₂ hnext =>
    obtain ⟨⟨vs', rest'⟩, hvs, heq⟩ := Option.bind_eq_some_iff.mp h
    cases heq
    obtain ⟨part, hpart, rfl⟩ := ih.element hv hnext
    obtain ⟨b, hb, hcs⟩ := exists_blanks cs₂
    obtain ⟨part', hpart', hitems⟩ := ih.items hvs
    refine ⟨_, .items hpart (hpart'.blanks_items hb), ?_⟩
    rw [hcs, hitems, List.append_assoc, List.cons_append, List.append_assoc]
  · cases h

theorem members_succ {ms : List (Option String × Value)}
    (h : Json.members (n + 1) cs = some (ms, rest)) :
    ∃ part, Spells part (.members ms) ∧ cs = part ++ '}' :: rest := by
  obtain ⟨key, b, k, cs₁, hkey, hb, rfl, hafter⟩ := exists_of_members h
  obtain ⟨⟨v, cs₂⟩, hv, h⟩ := Option.bind_eq_some_iff.mp hafter
  simp only at h
  split at h
  · next rest' hnext =>
    cases h
    obtain ⟨part, hpart, rfl⟩ := ih.blanks_element hv hnext
    refine ⟨_, .member blanks_nil hkey hb hpart, ?_⟩
    simp only [List.nil_append, List.append_assoc, List.cons_append]
  · next cs₃ hnext =>
    obtain ⟨⟨ms', rest'⟩, hms, heq⟩ := Option.bind_eq_some_iff.mp h
    cases heq
    obtain ⟨part, hpart, rfl⟩ := ih.blanks_element hv hnext
    obtain ⟨b', hb', hcs₃⟩ := exists_blanks cs₃
    obtain ⟨part', hpart', hmembers⟩ := ih.members hms
    refine ⟨_, .members blanks_nil hkey hb hpart (hpart'.blanks_members hb'), ?_⟩
    rw [hcs₃, hmembers]
    simp only [List.nil_append, List.append_assoc, List.cons_append]
  · cases h

end FindsSpelled

theorem findsSpelled (n : Nat) : FindsSpelled n := by
  induction n with
  | zero =>
    refine ⟨fun h => ?_, fun h => ?_, fun h => ?_⟩
    · rw [value] at h
      cases h
    · rw [items] at h
      cases h
    · rw [members] at h
      cases h
  | succ n ih => exact ⟨ih.value_succ, ih.items_succ, ih.members_succ⟩

/-! ## objects -/

namespace Value

/-- members as they are read, every name a text -/
def keyed (ms : List (String × Value)) : List (Option String × Value) :=
  ms.map fun m => (some m.1, m.2)

theorem mapM_keyed {f : Option String × Value → Option (String × Value)}
    (hf : ∀ m : String × Value, f (some m.1, m.2) = some m) (ms : List (String × Value)) :
    (keyed ms).mapM f = some ms := by
  induction ms with
  | nil => rfl
  | cons m ms ih =>
    show ((some m.1, m.2) :: keyed ms).mapM f = _
    rw [List.mapM_cons, hf, ih]
    rfl

theorem objectValue_keyed (ms : List (String × Value)) : objectValue (keyed ms) = .object ms := by
  rw [objectValue, mapM_keyed fun m => rfl]

/-- every name of an object that is read stands for a text -/
theorem eq_keyed {members : List (Option String × Value)} {ms : List (String × Value)}
    (h : members.mapM (fun (k, v) => k.map (·, v)) = some ms) : members = keyed ms := by
  induction members generalizing ms with
  | nil =>
    cases h
    rfl
  | cons m members ih =>
    obtain ⟨k, v⟩ := m
    rw [List.mapM_cons] at h
    obtain ⟨m, hm, h⟩ := Option.bind_eq_some_iff.mp h
    obtain ⟨ms', hms, h⟩ := Option.bind_eq_some_iff.mp h
    obtain ⟨k, rfl, rfl⟩ := Option.map_eq_some_iff.mp hm
    cases h
    rw [ih hms]
    rfl

theorem keyed_of_objectValue {members : List (Option String × Value)} {ms : List (String × Value)}
    (h : objectValue members = .object ms) : members = keyed ms := by
  unfold objectValue at h
  split at h
  · next ms' heq =>
    cases h
    exact eq_keyed heq
  · cases h

end Value

theorem stringValue_cases (s : Option String) :
    stringValue s = .unreadable ∨ ∃ text, stringValue s = .string text := by
  cases s with
  | none => exact .inl rfl
  | some text => exact .inr ⟨text, rfl⟩

theorem objectValue_cases (members : List (Option String × Value)) :
    objectValue members = .unreadable ∨ ∃ ms, objectValue members = .object ms := by
  unfold objectValue
  split
  · exact .inr ⟨_, rfl⟩
  · exact .inl rfl

theorem Spells.spellsNumber {cs : List Char} {n : Number} (h : Spells cs (.value (.number n))) :
    SpellsNumber cs n := by
  generalize hv : Value.number n = v at h
  cases h with
  | number h =>
    cases hv
    exact h
  | @string _ s h => rcases stringValue_cases s with hs | ⟨text, hs⟩ <;> rw [hs] at hv <;> cases hv
  | @object _ ms h => rcases objectValue_cases ms with ho | ⟨ms, ho⟩ <;> rw [ho] at hv <;> cases hv
  | _ => cases hv

theorem Spells.spellsMembers {cs : List Char} {ms : List (String × Value)}
    (h : Spells cs (.value (.object ms))) :
    ms = [] ∨ ∃ part, Spells part (.members (Value.keyed ms)) := by
  generalize hv : Value.object ms = v at h
  cases h with
  | emptyObject hb =>
    cases hv
    exact .inl rfl
  | @object part members h =>
    have hkeyed := Value.keyed_of_objectValue hv.symm
    exact .inr ⟨part, hkeyed ▸ h⟩
  | @string _ s h => rcases stringValue_cases s with hs | ⟨text, hs⟩ <;> rw [hs] at hv <;> cases hv
  | _ => cases hv

theorem Spells.spellsValue {cs : List Char} {v : Value} (h : Spells cs (.element v)) :
    ∃ part, Spells part (.value v) := by
  cases h with
  | element hb h hb' => exact ⟨_, h⟩

theorem Spells.exists_of_mem {cs : List Char} {p : Phrase} (h : Spells cs p)
    {ms : List (Option String × Value)} (hp : p = .members ms) {m : Option String × Value}
    (hm : m ∈ ms) : ∃ part, Spells part (.value m.2) := by
  induction h generalizing ms with
  | member hb hk hb' h =>
    cases hp
    rw [List.mem_singleton.mp hm]
    exact h.spellsValue
  | members hb hk hb' h hs _ ih =>
    cases hp
    rcases List.mem_cons.mp hm with rfl | hm
    · exact h.spellsValue
    · exact ih rfl hm
  | _ => cases hp

/-- the value of every member of an object is spelled in its text -/
theorem Spells.exists_of_mem_object {cs : List Char} {ms : List (String × Value)}
    (h : Spells cs (.element (.object ms))) {m : String × Value} (hm : m ∈ ms) :
    ∃ part, Spells part (.value m.2) := by
  obtain ⟨part, hpart⟩ := h.spellsValue
  rcases hpart.spellsMembers with rfl | ⟨members, hmembers⟩
  · exact absurd hm List.not_mem_nil
  · have hkeyed : (some m.1, m.2) ∈ Value.keyed ms := List.mem_map_of_mem hm
    exact hmembers.exists_of_mem rfl hkeyed

/-! ## whole texts -/

/-- **The reader reads what the grammar says.** -/
theorem read_eq_some {text : String} {v : Value} :
    read text = some v ↔ Spells text.toList (.element v) := by
  rw [read]
  generalize text.toList = cs
  constructor
  · intro h
    unfold readList at h
    split at h
    · next w rest hv =>
      split at h
      · next hempty =>
        cases h
        obtain ⟨b, hb, hcs⟩ := exists_blanks cs
        obtain ⟨part, hpart, hskip⟩ := (findsSpelled _).value hv
        obtain ⟨b', hb', hrest⟩ := exists_blanks rest
        rw [List.isEmpty_iff.mp hempty, List.append_nil] at hrest
        rw [hcs, hskip, hrest]
        exact .element hb hpart hb'
      · cases h
    · cases h
  · intro h
    obtain ⟨b, hb, hv⟩ := reads_of_spells h (cs.length + 1) [] (Nat.le_succ _) ends_nil
    rw [List.append_nil, List.append_nil] at hv
    have hskip : skipBlanks b = [] := by
      have hnone := ends_nil.skipBlanks_append hb
      rw [List.append_nil] at hnone
      exact hnone
    rw [readList, hv]
    simp only [hskip, List.isEmpty_nil, if_true]

end Json
end JobSuspension
