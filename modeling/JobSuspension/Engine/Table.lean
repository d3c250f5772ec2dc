/-!
# Tables

A table keeps records under text keys, ordered by key.  The order of texts is that of their code
points, which is also that of their UTF-8 bytes.

* `Table α`                 entries in strictly increasing order of their keys;
* `t.get? k`                the record under `k`;
* `t.insert k a`            the table with `a` under `k`, in place of what was there;
* `t.erase k`               the table without the key `k`;
* `t.map f`                 the table with every record changed by `f`;
* `t.values`                the records in the order of their keys.

`get?_insert`, `get?_erase` and `get?_map` say what each operation does to the view `get?`.
-/

namespace JobSuspension

/-- keys strictly increase -/
def Increasing (entries : List (String × α)) : Prop := entries.Pairwise (·.1 < ·.1)

structure Table (α : Type) where
  entries : List (String × α)
  increasing : Increasing entries

namespace Table

variable {α : Type}

def empty : Table α := ⟨[], List.Pairwise.nil⟩

instance : Inhabited (Table α) := ⟨empty⟩

instance : EmptyCollection (Table α) := ⟨empty⟩

theorem ext_entries {s t : Table α} (h : s.entries = t.entries) : s = t := by
  cases s
  cases t
  cases h
  rfl

def lookup (k : String) : List (String × α) → Option α
  | [] => none
  | (k', a) :: es => if k' = k then some a else lookup k es

def get? (t : Table α) (k : String) : Option α := lookup k t.entries

def values (t : Table α) : List α := t.entries.map (·.2)

def keys (t : Table α) : List String := t.entries.map (·.1)

/-! ## inserting -/

def insertEntry (k : String) (a : α) : List (String × α) → List (String × α)
  | [] => [(k, a)]
  | (k', b) :: es =>
    if k < k' then (k, a) :: (k', b) :: es
    else if k' = k then (k, a) :: es
    else (k', b) :: insertEntry k a es

theorem mem_insertEntry {k : String} {a : α} {e : String × α} {es : List (String × α)}
    (h : e ∈ insertEntry k a es) : e = (k, a) ∨ e ∈ es := by
  induction es with
  | nil => simpa [insertEntry] using h
  | cons x es ih =>
    obtain ⟨k', b⟩ := x
    simp only [insertEntry] at h
    split at h
    · simpa using h
    · split at h
      · rcases List.mem_cons.mp h with h | h
        · exact .inl h
        · exact .inr (List.mem_cons_of_mem _ h)
      · rcases List.mem_cons.mp h with h | h
        · exact .inr (h ▸ List.mem_cons_self)
        · rcases ih h with h | h
          · exact .inl h
          · exact .inr (List.mem_cons_of_mem _ h)

theorem lt_of_not_lt_of_ne {a b : String} (h : ¬ a < b) (hne : b ≠ a) : b < a := by
  by_cases h' : b < a
  · exact h'
  · exact absurd (String.le_antisymm (String.not_lt.mp h) (String.not_lt.mp h')) hne

theorem increasing_insertEntry (k : String) (a : α) {es : List (String × α)}
    (h : Increasing es) : Increasing (insertEntry k a es) := by
  induction es with
  | nil => exact List.pairwise_singleton _ _
  | cons x es ih =>
    obtain ⟨k', b⟩ := x
    have hx := List.pairwise_cons.mp h
    simp only [insertEntry]
    split
    · next hlt =>
      refine List.pairwise_cons.mpr ⟨?_, h⟩
      intro e he
      rcases List.mem_cons.mp he with he | he
      · exact he ▸ hlt
      · exact String.lt_trans hlt (hx.1 e he)
    · next hlt =>
      split
      · next heq => exact List.pairwise_cons.mpr ⟨fun e he => heq ▸ hx.1 e he, hx.2⟩
      · next hne =>
        refine List.pairwise_cons.mpr ⟨?_, ih hx.2⟩
        intro e he
        rcases mem_insertEntry he with he | he
        · exact he ▸ lt_of_not_lt_of_ne hlt hne
        · exact hx.1 e he

def insert (t : Table α) (k : String) (a : α) : Table α :=
  ⟨insertEntry k a t.entries, increasing_insertEntry k a t.increasing⟩

theorem lookup_insertEntry (k : String) (a : α) (k' : String) (es : List (String × α)) :
    lookup k' (insertEntry k a es) = if k = k' then some a else lookup k' es := by
  induction es with
  | nil => rfl
  | cons x es ih =>
    obtain ⟨l, b⟩ := x
    simp only [insertEntry]
    split
    · rfl
    · split
      · next heq =>
        subst heq
        simp only [lookup]
        split <;> simp_all
      · next hne =>
        simp only [lookup]
        split
        · next hl =>
          subst hl
          simp [Ne.symm hne]
        · exact ih

@[simp] theorem get?_insert (t : Table α) (k : String) (a : α) (k' : String) :
    (t.insert k a).get? k' = if k = k' then some a else t.get? k' :=
  lookup_insertEntry k a k' t.entries

/-! ## erasing -/

def erase (t : Table α) (k : String) : Table α :=
  ⟨t.entries.filter (·.1 != k), t.increasing.filter _⟩

theorem lookup_filter_ne (k k' : String) (es : List (String × α)) :
    lookup k' (es.filter (·.1 != k)) = if k = k' then none else lookup k' es := by
  induction es with
  | nil => simp [lookup]
  | cons x es ih =>
    obtain ⟨l, b⟩ := x
    by_cases h : l = k
    · subst h
      rw [List.filter_cons_of_neg (by simp), ih]
      simp only [lookup]
      split <;> rfl
    · rw [List.filter_cons_of_pos (by simpa using h)]
      simp only [lookup, ih]
      split
      · next hl =>
        subst hl
        simp [Ne.symm h]
      · rfl

@[simp] theorem get?_erase (t : Table α) (k k' : String) :
    (t.erase k).get? k' = if k = k' then none else t.get? k' :=
  lookup_filter_ne k k' t.entries

/-! ## changing every record -/

theorem increasing_map (f : α → α) {es : List (String × α)} (h : Increasing es) :
    Increasing (es.map fun e => (e.1, f e.2)) := by
  unfold Increasing
  rw [List.pairwise_map]
  exact h

def map (t : Table α) (f : α → α) : Table α :=
  ⟨t.entries.map fun e => (e.1, f e.2), increasing_map f t.increasing⟩

theorem lookup_map (f : α → α) (k : String) (es : List (String × α)) :
    lookup k (es.map fun e => (e.1, f e.2)) = (lookup k es).map f := by
  induction es with
  | nil => rfl
  | cons x es ih =>
    obtain ⟨l, b⟩ := x
    simp only [List.map_cons, lookup, ih]
    split <;> rfl

@[simp] theorem get?_map (t : Table α) (f : α → α) (k : String) :
    (t.map f).get? k = (t.get? k).map f :=
  lookup_map f k t.entries

/-! ## the records -/

@[simp] theorem get?_empty (k : String) : (empty : Table α).get? k = none := rfl

theorem lookup_eq_some_of_mem {k : String} {a : α} {es : List (String × α)} (h : Increasing es)
    (hm : (k, a) ∈ es) : lookup k es = some a := by
  induction es with
  | nil => exact absurd hm List.not_mem_nil
  | cons x es ih =>
    obtain ⟨l, b⟩ := x
    have hx := List.pairwise_cons.mp h
    simp only [lookup]
    rcases List.mem_cons.mp hm with he | he
    · cases he
      simp
    · have hlt : l < k := hx.1 _ he
      have hne : l ≠ k := fun e => String.lt_irrefl k (e ▸ hlt)
      rw [if_neg hne]
      exact ih hx.2 he

theorem mem_of_lookup_eq_some {k : String} {a : α} {es : List (String × α)}
    (h : lookup k es = some a) : (k, a) ∈ es := by
  induction es with
  | nil => exact absurd h (by simp [lookup])
  | cons x es ih =>
    obtain ⟨l, b⟩ := x
    simp only [lookup] at h
    split at h
    · next hl =>
      subst hl
      cases h
      exact List.mem_cons_self
    · exact List.mem_cons_of_mem _ (ih h)

theorem get?_eq_some {t : Table α} {k : String} {a : α} :
    t.get? k = some a ↔ (k, a) ∈ t.entries :=
  ⟨mem_of_lookup_eq_some, lookup_eq_some_of_mem t.increasing⟩

theorem mem_values {t : Table α} {a : α} : a ∈ t.values ↔ ∃ k, t.get? k = some a := by
  simp only [values, List.mem_map, get?_eq_some]
  constructor
  · rintro ⟨⟨k, b⟩, h, rfl⟩
    exact ⟨k, h⟩
  · rintro ⟨k, h⟩
    exact ⟨(k, a), h, rfl⟩

end Table
end JobSuspension
