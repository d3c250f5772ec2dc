import JobSuspension.Proofs.JsonReading
import JobSuspension.Proofs.NumberRange
import JobSuspension.TimerConfiguration

/-!
# Which texts are configurations

A configuration is an object with three members that count: the flag, the tag, and the member that
the tag names.  Each of them is there once; all others may be anything, any number of times, and the
members may stand in any order.

* `Value.parts v`, `Value.depth v`   a value with everything inside of it, and how deep that goes;
* `Value.keepable_iff`          what it takes to keep a value whole;
* `ObjectText text ms`          the text is that of an object with these members that can be kept;
* `Configures ms c`             the members that count say `c`;
* `decode_eq_ok`                a text is read as `c` if and only if it is that of an object whose
                                members say so;
* `decode_accepts_configurations`   so everything else is refused, and neither the order of the
                                members nor any other member matters.

The double that a literal stands for is the one the reader computes.  It rounds more than once, so
that a literal right below the overflow bound can count as infinite although the nearest double is
finite.  `decode_of_magnitudes` says how close to the bound that is, and what decides elsewhere.
-/

namespace JobSuspension
namespace Json

/-! ## values that can be kept -/

namespace Value

mutual

/-- a value and everything inside of it -/
def parts : Value → List Value
  | .array vs => .array vs :: partsOfItems vs
  | .object ms => .object ms :: partsOfMembers ms
  | v => [v]

def partsOfItems : List Value → List Value
  | [] => []
  | v :: vs => v.parts ++ partsOfItems vs

def partsOfMembers : List (String × Value) → List Value
  | [] => []
  | (_, v) :: ms => v.parts ++ partsOfMembers ms

end

mutual

/-- how many arrays and objects are inside one another -/
def depth : Value → Nat
  | .array vs => depthOfItems vs + 1
  | .object ms => depthOfMembers ms + 1
  | _ => 0

def depthOfItems : List Value → Nat
  | [] => 0
  | v :: vs => max v.depth (depthOfItems vs)

def depthOfMembers : List (String × Value) → Nat
  | [] => 0
  | (_, v) :: ms => max v.depth (depthOfMembers ms)

end

/-- a part that does not keep the whole from being kept -/
def IsSound : Value → Prop
  | .number n => n.inRange = true
  | .unreadable => False
  | _ => True

mutual

theorem keepable_iff : ∀ (v : Value) (d : Nat),
    v.keepable d = true ↔ (∀ w ∈ v.parts, w.IsSound) ∧ v.depth ≤ d
  | .null, d | .bool _, d | .string _, d | .unreadable, d | .number _, d => by
    simp [keepable, parts, depth, IsSound]
  | .array vs, d => by
    rw [keepable, Bool.and_eq_true, decide_eq_true_eq, keepableItems_iff vs (d - 1), parts, depth,
      List.forall_mem_cons]
    constructor
    · rintro ⟨hpos, hparts, hdepth⟩
      exact ⟨⟨trivial, hparts⟩, by omega⟩
    · rintro ⟨⟨-, hparts⟩, hdepth⟩
      exact ⟨by omega, hparts, by omega⟩
  | .object ms, d => by
    rw [keepable, Bool.and_eq_true, decide_eq_true_eq, keepableMembers_iff ms (d - 1), parts,
      depth, List.forall_mem_cons]
    constructor
    · rintro ⟨hpos, hparts, hdepth⟩
      exact ⟨⟨trivial, hparts⟩, by omega⟩
    · rintro ⟨⟨-, hparts⟩, hdepth⟩
      exact ⟨by omega, hparts, by omega⟩

theorem keepableItems_iff : ∀ (vs : List Value) (d : Nat),
    keepableItems d vs = true ↔ (∀ w ∈ partsOfItems vs, w.IsSound) ∧ depthOfItems vs ≤ d
  | [], d => by simp [keepableItems, partsOfItems, depthOfItems]
  | v :: vs, d => by
    rw [keepableItems, Bool.and_eq_true, keepable_iff v d, keepableItems_iff vs d, partsOfItems,
      depthOfItems, List.forall_mem_append, Nat.max_le]
    exact and_and_and_comm

theorem keepableMembers_iff : ∀ (ms : List (String × Value)) (d : Nat),
    keepableMembers d ms = true ↔ (∀ w ∈ partsOfMembers ms, w.IsSound) ∧ depthOfMembers ms ≤ d
  | [], d => by simp [keepableMembers, partsOfMembers, depthOfMembers]
  | (k, v) :: ms, d => by
    rw [keepableMembers, Bool.and_eq_true, keepable_iff v d, keepableMembers_iff ms d,
      partsOfMembers, depthOfMembers, List.forall_mem_append, Nat.max_le]
    exact and_and_and_comm

end

theorem exists_of_mem_partsOfItems {w : Value} {vs : List Value} (h : w ∈ partsOfItems vs) :
    ∃ v ∈ vs, w ∈ v.parts := by
  induction vs with
  | nil => cases h
  | cons v vs ih =>
    rw [partsOfItems] at h
    rcases List.mem_append.mp h with h | h
    · exact ⟨v, List.mem_cons_self, h⟩
    · obtain ⟨v', hv', hw⟩ := ih h
      exact ⟨v', List.mem_cons_of_mem v hv', hw⟩

theorem exists_of_mem_partsOfMembers {w : Value} {ms : List (String × Value)}
    (h : w ∈ partsOfMembers ms) : ∃ m ∈ ms, w ∈ m.2.parts := by
  induction ms with
  | nil => cases h
  | cons m ms ih =>
    rw [partsOfMembers] at h
    rcases List.mem_append.mp h with h | h
    · exact ⟨m, List.mem_cons_self, h⟩
    · obtain ⟨m', hm', hw⟩ := ih h
      exact ⟨m', List.mem_cons_of_mem m hm', hw⟩

end Value

/-! ## numbers inside of a value -/

def Phrase.values : Phrase → List Value
  | .value v => [v]
  | .element v => [v]
  | .items vs => vs
  | .members ms => ms.map (·.2)

/-- every number inside of what is spelled is spelled itself -/
theorem Spells.exists_spellsNumber {cs : List Char} {p : Phrase} (h : Spells cs p) {v : Value}
    (hv : v ∈ p.values) {n : Number} (hn : .number n ∈ v.parts) : ∃ part, SpellsNumber part n := by
  induction h generalizing v with
  | nullWord | trueWord | falseWord =>
    cases List.mem_singleton.mp hv
    cases List.mem_singleton.mp hn
  | number h =>
    cases List.mem_singleton.mp hv
    cases List.mem_singleton.mp hn
    exact ⟨_, h⟩
  | @string _ s =>
    cases List.mem_singleton.mp hv
    rcases stringValue_cases s with hs | ⟨text, hs⟩ <;> rw [hs] at hn <;>
      cases List.mem_singleton.mp hn
  | emptyArray | emptyObject =>
    cases List.mem_singleton.mp hv
    cases List.mem_singleton.mp hn
  | array h ih =>
    cases List.mem_singleton.mp hv
    rcases List.mem_cons.mp hn with hn | hn
    · cases hn
    · obtain ⟨w, hw, hn⟩ := Value.exists_of_mem_partsOfItems hn
      exact ih hw hn
  | @object _ members h ih =>
    cases List.mem_singleton.mp hv
    rcases objectValue_cases members with ho | ⟨ms, ho⟩
    · rw [ho] at hn
      cases List.mem_singleton.mp hn
    · rw [ho] at hn
      rcases List.mem_cons.mp hn with hn | hn
      · cases hn
      · obtain ⟨m, hm, hn⟩ := Value.exists_of_mem_partsOfMembers hn
        refine ih ?_ hn
        rw [Value.keyed_of_objectValue ho]
        exact List.mem_map.mpr ⟨(some m.1, m.2), List.mem_map_of_mem hm, rfl⟩
  | element _ h _ ih => exact ih hv hn
  | item h ih => exact ih hv hn
  | items h hs ih ihs =>
    rcases List.mem_cons.mp hv with rfl | hv
    · exact ih List.mem_cons_self hn
    · exact ihs hv hn
  | member _ _ _ h ih => exact ih hv hn
  | members _ _ _ h hs ih ihs =>
    rcases List.mem_cons.mp hv with rfl | hv
    · exact ih List.mem_cons_self hn
    · exact ihs hv hn

/-! ## objects -/

/-- the text of an object with these members, each part of which can be kept -/
structure ObjectText (text : String) (ms : List (String × Value)) : Prop where
  spells : Spells text.toList (.element (.object ms))
  readable : .unreadable ∉ (Value.object ms).parts
  finite : ∀ n, .number n ∈ (Value.object ms).parts → n.inRange = true
  shallow : (Value.object ms).depth ≤ DefinitionSelector.maxDepth

theorem objectText_iff {text : String} {ms : List (String × Value)} :
    ObjectText text ms ↔ read text = some (.object ms) ∧
      (Value.object ms).keepable DefinitionSelector.maxDepth = true := by
  rw [read_eq_some, Value.keepable_iff]
  constructor
  · rintro ⟨hspells, hreadable, hfinite, hshallow⟩
    refine ⟨hspells, fun w hw => ?_, hshallow⟩
    cases w with
    | number n => exact hfinite n hw
    | unreadable => exact absurd hw hreadable
    | _ => trivial
  · rintro ⟨hspells, hsound, hshallow⟩
    exact ⟨hspells, fun h => hsound _ h, fun n h => hsound _ h, hshallow⟩

/-- a text is that of one object only -/
theorem ObjectText.unique {text : String} {ms ms' : List (String × Value)}
    (h : ObjectText text ms) (h' : ObjectText text ms') : ms = ms' := by
  have hread := (objectText_iff.mp h).1
  rw [(objectText_iff.mp h').1, Option.some.injEq] at hread
  exact (Value.object.inj hread).symm

/-- a literal without sign, fraction and exponent is the one way to write its value -/
theorem natural?_eq_some {cs : List Char} {n : Number} (h : SpellsNumber cs n) {i : Nat} :
    n.natural? = some i ↔ n = .ofNat i := by
  constructor
  · intro hi
    unfold Number.natural? at hi
    split at hi
    · next whole =>
      cases hi
      have hdigits : Decimal.digits (Decimal.value whole) = whole :=
        Decimal.digits_value h.whole.1 h.whole.2 h.noLeadingZero
      rw [Number.ofNat, hdigits]
    · cases hi
  · rintro rfl
    exact Number.natural?_ofNat i

theorem single?_eq_some {name : String} {ms : List (String × Value)} {v : Value} :
    Record.single? name ms = some (some v) ↔ Value.named name ms = [v] := by
  unfold Record.single?
  split
  · next h => simp [h]
  · next w h => simp [h]
  · next hnil hone =>
    constructor
    · intro h
      cases h
    · intro h
      exact absurd h (hone v)

theorem Value.bool?_eq_some {v : Value} {b : Bool} : v.bool? = some b ↔ v = .bool b := by
  cases v <;> simp [bool?]

theorem Value.text?_eq_some {v : Value} {s : String} : v.text? = some s ↔ v = .string s := by
  cases v <;> simp [text?]

theorem mem_of_named {name : String} {ms : List (String × Value)} {v : Value}
    (h : Value.named name ms = [v]) : (name, v) ∈ ms := by
  have hv : v ∈ Value.named name ms := h ▸ List.mem_singleton_self v
  obtain ⟨⟨k, w⟩, hm, rfl⟩ := List.mem_map.mp hv
  obtain ⟨hms, hk⟩ := List.mem_filter.mp hm
  obtain rfl : k = name := beq_iff_eq.mp hk
  exact hms

end Json

/-! ## configurations -/

open Json

/-- the tag of an identifier: its name, or its place -/
def DefinitionKey.TaggedBy (key : DefinitionKey) (v : Value) : Prop :=
  v = .string key.tag ∨ ∃ i, v = .number (.ofNat i) ∧ all[i]? = some key

theorem DefinitionKey.ofTag?_eq_some {s : String} {key : DefinitionKey} :
    ofTag? s = some key ↔ s = key.tag := by
  constructor
  · intro h
    have htag := List.find?_some h
    exact (beq_iff_eq.mp htag).symm
  · rintro rfl
    exact ofTag?_tag key

namespace TimerConfiguration

theorem tagOrIndex?_eq_some {v : Value} {part : List Char} (h : Spells part (.value v))
    {key : DefinitionKey} : tagOrIndex? v = some key ↔ key.TaggedBy v := by
  unfold DefinitionKey.TaggedBy
  cases v with
  | number n =>
    show (n.natural?.bind fun i => DefinitionKey.all[i]?) = some key ↔ _
    rw [Option.bind_eq_some_iff]
    constructor
    · rintro ⟨i, hi, hkey⟩
      exact .inr ⟨i, congrArg Value.number ((natural?_eq_some h.spellsNumber).mp hi), hkey⟩
    · rintro (hv | ⟨i, hv, hkey⟩)
      · cases hv
      · exact ⟨i, (natural?_eq_some h.spellsNumber).mpr (Value.number.inj hv), hkey⟩
  | string s =>
    show DefinitionKey.ofTag? s = some key ↔ _
    rw [DefinitionKey.ofTag?_eq_some]
    constructor
    · rintro rfl
      exact .inl rfl
    · rintro (hv | ⟨i, hv, -⟩)
      · exact Value.string.inj hv
      · cases hv
  | _ =>
    constructor
    · intro hnone
      cases hnone
    · rintro (hv | ⟨i, hv, -⟩) <;> cases hv

/-- each member that counts is there once -/
structure Configures (ms : List (String × Value)) (c : TimerConfiguration) : Prop where
  includeJobs : Value.named "includeJobs" ms = [.bool c.includeJobs]
  tag : ∃ v, Value.named "by" ms = [v] ∧ c.selector.key.TaggedBy v
  value : Value.named c.selector.key.tag ms = [.string c.selector.value]

theorem ofMembers?_eq_some {ms : List (String × Value)} {c : TimerConfiguration}
    (hspelled : ∀ m ∈ ms, ∃ part, Spells part (.value m.2)) :
    ofMembers? ms = some c ↔ Configures ms c := by
  simp only [ofMembers?, DefinitionSelector.ofMembers?, Option.bind_eq_bind,
    Option.bind_eq_some_iff, Option.pure_def, Option.some.injEq]
  constructor
  · rintro ⟨_, hflag, v, rfl, b, hb, selector, ⟨_, htag, w, rfl, key, hkey, _, hvalue, u, rfl,
      text, htext, rfl⟩, rfl⟩
    rw [single?_eq_some] at hflag htag hvalue
    obtain ⟨part, hpart⟩ := hspelled _ (mem_of_named htag)
    have hkey' : key.TaggedBy w := (tagOrIndex?_eq_some hpart).mp hkey
    rw [Value.bool?_eq_some.mp hb] at hflag
    rw [Value.text?_eq_some.mp htext] at hvalue
    exact ⟨hflag, ⟨w, htag, hkey'⟩, hvalue⟩
  · rintro ⟨hflag, ⟨v, htag, hv⟩, hvalue⟩
    obtain ⟨part, hpart⟩ := hspelled _ (mem_of_named htag)
    exact ⟨_, single?_eq_some.mpr hflag, _, rfl, _, rfl, c.selector,
      ⟨_, single?_eq_some.mpr htag, v, rfl, _, (tagOrIndex?_eq_some hpart).mpr hv, _,
        single?_eq_some.mpr hvalue, _, rfl, _, rfl, rfl⟩, rfl⟩

/-- **A text is read as a configuration** if and only if its members say so. -/
theorem decode_eq_ok {text : String} {c : TimerConfiguration} :
    decode text = .ok c ↔ ∃ ms, ObjectText text ms ∧ Configures ms c := by
  have hdecode : decode text = .ok c ↔ decode? text = some c := by
    unfold decode
    cases decode? text with
    | none => simp
    | some c' => simp
  rw [hdecode, decode?, Option.bind_eq_some_iff]
  constructor
  · rintro ⟨v, hread, hv⟩
    unfold ofJson? at hv
    split at hv
    · next hkeepable =>
      split at hv
      · next ms =>
        have hspells := read_eq_some.mp hread
        have htext : ObjectText text ms := objectText_iff.mpr ⟨hread, hkeepable⟩
        exact ⟨ms, htext,
          (ofMembers?_eq_some fun m hm => hspells.exists_of_mem_object hm).mp hv⟩
      · cases hv
    · cases hv
  · rintro ⟨ms, htext, hconfigures⟩
    obtain ⟨hread, hkeepable⟩ := objectText_iff.mp htext
    refine ⟨_, hread, ?_⟩
    rw [ofJson?, if_pos hkeepable]
    exact (ofMembers?_eq_some fun m hm => htext.spells.exists_of_mem_object hm).mpr hconfigures

theorem decode_of_objectText {text : String} {ms : List (String × Value)}
    (htext : ObjectText text ms) (c : TimerConfiguration) :
    decode text = .ok c ↔ Configures ms c := by
  rw [decode_eq_ok]
  constructor
  · rintro ⟨ms', htext', hconfigures⟩
    exact htext.unique htext' ▸ hconfigures
  · exact fun hconfigures => ⟨ms, htext, hconfigures⟩

theorem decode_eq_error {text : String} (h : ∀ c, decode text ≠ .ok c) :
    decode text = .error (.badConfiguration text) := by
  unfold decode at h ⊢
  cases hdecode : decode? text with
  | none => rfl
  | some c =>
    rw [hdecode] at h
    exact absurd rfl (h c)

/-- only the members that count matter, in whatever order they stand -/
theorem Configures.of_perm {ms ms' : List (String × Value)} {c : TimerConfiguration}
    (h : Configures ms c) (hsame : ∀ name ∈ ["includeJobs", "by", c.selector.key.tag],
      (Value.named name ms).Perm (Value.named name ms')) : Configures ms' c := by
  have hone {name : String} {v : Value} (hname : name ∈ ["includeJobs", "by", c.selector.key.tag])
      (hv : Value.named name ms = [v]) : Value.named name ms' = [v] := by
    have hperm := hsame name hname
    rw [hv] at hperm
    exact List.singleton_perm.mp hperm |>.symm
  obtain ⟨hflag, ⟨v, htag, hv⟩, hvalue⟩ := h
  exact ⟨hone (by simp) hflag, ⟨v, hone (by simp) htag, hv⟩, hone (by simp) hvalue⟩

/-- **Exactly the configurations are accepted.**  The text of an object is read as a configuration
if and only if the flag, the tag and the member that the tag names are there once each and say so;
every other text is an invalid request.  Two texts that agree on these members, in whatever order,
are read alike, whatever else is in them. -/
theorem decode_accepts_configurations :
    (∀ text ms, ObjectText text ms → ∀ c, decode text = .ok c ↔ Configures ms c) ∧
    (∀ text, (∀ ms c, ObjectText text ms → ¬ Configures ms c) →
      decode text = .error (.badConfiguration text) ∧
        (EngineError.badConfiguration text).kind = .invalidRequest) ∧
    ∀ text text' ms ms' c, ObjectText text ms → ObjectText text' ms' →
      (∀ name ∈ ["includeJobs", "by", c.selector.key.tag],
        (Value.named name ms).Perm (Value.named name ms')) →
      (decode text = .ok c ↔ decode text' = .ok c) := by
  refine ⟨fun text ms => decode_of_objectText, fun text hnone => ⟨?_, rfl⟩, ?_⟩
  · refine decode_eq_error fun c hc => ?_
    obtain ⟨ms, htext, hconfigures⟩ := decode_eq_ok.mp hc
    exact hnone ms c htext hconfigures
  · intro text text' ms ms' c htext htext' hsame
    rw [decode_of_objectText htext, decode_of_objectText htext']
    refine ⟨fun h => h.of_perm hsame, fun h => h.of_perm fun name hname => ?_⟩
    exact (hsame name hname).symm

/-- the tag by its place, the members in another order, other members repeated, and a second text in
which the flag is repeated -/
theorem decode_accepts_configurations_repeated :
    let text :=
      "\x7b \"jobDefinitionId\": 3, \"processDefinitionKey\": \"a\\u0022\", \"jobDefinitionId\": [4e5],
        \"includeJobs\": false, \"by\": 2 \x7d"
    let twice :=
      "\x7b\"by\":\"jobDefinitionId\",\"jobDefinitionId\":\"d\",\"includeJobs\":true,\"includeJobs\":true\x7d"
    let c : TimerConfiguration := ⟨⟨.processDefinitionKey, "a\""⟩, false⟩
    (∃ ms, ObjectText text ms ∧ Configures ms c ∧ decode text = .ok c) ∧
    decode twice = .error (.badConfiguration twice) := by
  intro text twice c
  have hread : decode? text = some c ∧ decode? twice = none := by
    simp +zetaDelta only
    decide +kernel
  have hdecode : decode text = .ok c := by
    rw [decode, hread.1]
  obtain ⟨hobject, hother, -⟩ := decode_accepts_configurations
  refine ⟨?_, (hother twice fun ms c' htext hc => ?_).1⟩
  · obtain ⟨ms, htext, -⟩ := decode_eq_ok.mp hdecode
    exact ⟨ms, htext, (hobject text ms htext c).mp hdecode, hdecode⟩
  · have haccepted := (hobject twice ms htext c').mpr hc
    rw [decode, hread.2] at haccepted
    cases haccepted

/-- **Numbers of an ordinary size do not matter.**  If every number in the text of an object is a
part in `2^50` below `2^1024`, then again its members decide; and a number that is as much above
makes it an invalid request, wherever it stands. -/
theorem decode_of_magnitudes {text : String} {ms : List (String × Value)}
    (hspells : Spells text.toList (.element (.object ms))) :
    (.unreadable ∉ (Value.object ms).parts →
      (Value.object ms).depth ≤ DefinitionSelector.maxDepth →
      (∀ n, .number n ∈ (Value.object ms).parts → n.magnitude ≤ 2 ^ 1024 - 2 ^ 974) →
      ∀ c, decode text = .ok c ↔ Configures ms c) ∧
    ((∃ n, .number n ∈ (Value.object ms).parts ∧ 2 ^ 1024 + 2 ^ 974 ≤ n.magnitude) →
      decode text = .error (.badConfiguration text)) := by
  have hnumber {n : Number} (hn : .number n ∈ (Value.object ms).parts) :
      ∃ part, SpellsNumber part n := hspells.exists_spellsNumber List.mem_cons_self hn
  refine ⟨fun hreadable hshallow hsmall => ?_, ?_⟩
  · refine decode_of_objectText ⟨hspells, hreadable, fun n hn => ?_, hshallow⟩
    obtain ⟨part, hpart⟩ := hnumber hn
    exact Number.inRange_of_magnitude_le hpart (hsmall n hn)
  · rintro ⟨n, hn, hlarge⟩
    refine decode_eq_error fun c hc => ?_
    obtain ⟨ms', htext, -⟩ := decode_eq_ok.mp hc
    have hsame : some (Value.object ms) = some (.object ms') :=
      (read_eq_some.mpr hspells).symm.trans (read_eq_some.mpr htext.spells)
    cases hsame
    obtain ⟨part, hpart⟩ := hnumber hn
    have hsmall := Number.magnitude_lt_of_inRange hpart (htext.finite n hn)
    exact absurd hlarge (not_le.mpr hsmall)

end TimerConfiguration
end JobSuspension
