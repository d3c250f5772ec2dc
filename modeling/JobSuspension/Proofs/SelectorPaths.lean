import JobSuspension.Proofs.Blanks
import JobSuspension.Proofs.Selectors

/-!
# The ways to a selector

A selection is resolved in several places: as it was given, without its blanks, from the selector
that a timer kept, and again for the jobs.  All of them come to the identifier that is first in the
order of precedence among those that are not blank, with its text as it was given.

* `Text.Picks get keys key v`     `v` is the first text that is not blank, and stands under `key`;
* `DefinitionSelection.Picks s x`, `JobSelection.Picks s x`   `x` is the identifier that wins;
* `resolve_eq_ok`, `resolve_eq_error`   resolving, for both kinds of selection;
* `resolve_toJobSelection`        the jobs of a selection are picked by the same identifier;
* `selector_paths_agree`          all of the ways.
-/

namespace JobSuspension

/-! ## the first text -/

namespace Text

variable {K X : Type} {get : K → Option String} {mk : K → String → X} {keys : List K}

/-- `v` is the first of several texts that is given, in its own words, and `key` says which -/
structure Picks (get : K → Option String) (keys : List K) (key : K) (v : String) : Prop where
  given : get key = some v
  content : ¬ Absent (some v)
  first : ∃ before after, keys = before ++ key :: after ∧ ∀ k ∈ before, Absent (get k)

theorem findPresent_eq_some {x : X} :
    keys.findSome? (fun key => (present? (get key)).map (mk key)) = some x ↔
      ∃ key v, Picks get keys key v ∧ mk key v = x := by
  have hnone (k : K) : (present? (get k)).map (mk k) = none ↔ Absent (get k) := by
    rw [Option.map_eq_none_iff, present?_eq_none]
  have hsome (k : K) : (present? (get k)).map (mk k) = some x ↔
      ∃ v, get k = some v ∧ ¬ Absent (some v) ∧ mk k v = x := by
    simp only [Option.map_eq_some_iff, present?_eq_some, absent_some, Bool.not_eq_true, and_assoc]
  simp only [List.findSome?_eq_some_iff, hnone, hsome]
  constructor
  · rintro ⟨before, key, after, hkeys, ⟨v, hget, hv, hx⟩, hbefore⟩
    exact ⟨key, v, ⟨hget, hv, before, after, hkeys, hbefore⟩, hx⟩
  · rintro ⟨key, v, ⟨hget, hv, before, after, hkeys, hbefore⟩, hx⟩
    exact ⟨before, key, after, hkeys, ⟨v, hget, hv, hx⟩, hbefore⟩

theorem findPresent_eq_none :
    keys.findSome? (fun key => (present? (get key)).map (mk key)) = none ↔
      ∀ key ∈ keys, Absent (get key) := by
  simp only [List.findSome?_eq_none_iff, Option.map_eq_none_iff, present?_eq_none]

end Text

/-! ## what is picked -/

namespace DefinitionSelection

variable {s : DefinitionSelection}

/-- the most specific identifier that is given -/
def Picks (s : DefinitionSelection) (x : DefinitionSelector) : Prop :=
  Text.Picks s.get [.jobDefinitionId, .processDefinitionId, .processDefinitionKey] x.key x.value

theorem find?_eq_some_iff {x : DefinitionSelector} : s.find? = some x ↔ s.Picks x := by
  rw [find?, Text.findPresent_eq_some]
  constructor
  · rintro ⟨key, v, hpicks, rfl⟩
    exact hpicks
  · exact fun hpicks => ⟨x.key, x.value, hpicks, rfl⟩

theorem resolve_eq_ok {x : DefinitionSelector} : s.resolve = .ok x ↔ s.Picks x := by
  rw [← find?_eq_some_iff, resolve]
  cases s.find? <;> simp

theorem resolve_eq_error {e : EngineError} :
    s.resolve = .error e ↔ e = .noDefinitionSelector ∧ ∀ key, Text.Absent (s.get key) := by
  have hnone : s.find? = none ↔ ∀ key, Text.Absent (s.get key) := by
    rw [find?, Text.findPresent_eq_none]
    exact forall_congr' fun key => ⟨fun h => h (by cases key <;> decide), fun h _ => h⟩
  rw [← hnone, resolve]
  cases s.find? <;> simp [eq_comm]

end DefinitionSelection

namespace JobSelection

variable {s : JobSelection}

/-- the most specific identifier that is given -/
def Picks (s : JobSelection) (x : JobSelector) : Prop :=
  Text.Picks s.get
    [.jobId, .jobDefinitionId, .processInstanceId, .processDefinitionId, .processDefinitionKey]
    x.key x.value

theorem find?_eq_some_iff {x : JobSelector} : s.find? = some x ↔ s.Picks x := by
  rw [find?, Text.findPresent_eq_some]
  constructor
  · rintro ⟨key, v, hpicks, rfl⟩
    exact hpicks
  · exact fun hpicks => ⟨x.key, x.value, hpicks, rfl⟩

theorem resolve_eq_ok {x : JobSelector} : s.resolve = .ok x ↔ s.Picks x := by
  rw [← find?_eq_some_iff, resolve]
  cases s.find? <;> simp

theorem resolve_eq_error {e : EngineError} :
    s.resolve = .error e ↔ e = .noJobSelector ∧ ∀ key, Text.Absent (s.get key) := by
  have hnone : s.find? = none ↔ ∀ key, Text.Absent (s.get key) := by
    rw [find?, Text.findPresent_eq_none]
    exact forall_congr' fun key => ⟨fun h => h (by cases key <;> decide), fun h _ => h⟩
  rw [← hnone, resolve]
  cases s.find? <;> simp [eq_comm]

end JobSelection

/-! ## the same identifier for the jobs -/

theorem DefinitionSelection.resolve_toJobSelection {s : DefinitionSelection}
    {x : DefinitionSelector} (hx : s.find? = some x) :
    s.toJobSelection.resolve = .ok x.jobSelector ∧
      s.toJobSelection.normalized.resolve = .ok x.jobSelector := by
  have hfind : s.toJobSelection.find? = some x.jobSelector := by
    rw [find?_toJobSelection, hx, Option.map_some]
  rw [JobSelection.resolve, JobSelection.resolve, JobSelection.find_normalized, hfind]
  exact ⟨rfl, rfl⟩

/-- **All ways lead to the same selector.**  A selection is refused exactly if all its identifiers
are absent or blank, and blanks may be dropped before, once or twice.  Otherwise the selector is the
most specific identifier with its text as given; it is its own selector again; and the jobs, of the
selection or of the selector, are selected by the same identifier and text. -/
theorem selector_paths_agree :
    (∀ s : DefinitionSelection,
      (∀ e, s.resolve = .error e ↔
        e = .noDefinitionSelector ∧ ∀ key, Text.Absent (s.get key)) ∧
      s.normalized.resolve = s.resolve ∧ s.normalized.normalized = s.normalized ∧
      ∀ x, s.resolve = .ok x →
        s.Picks x ∧ x.toSelection.resolve = .ok x ∧
        ∀ t ∈ [s.toJobSelection, x.toSelection.toJobSelection],
          t.resolve = .ok x.jobSelector ∧ t.normalized.resolve = .ok x.jobSelector) ∧
    ∀ t : JobSelection,
      (∀ e, t.resolve = .error e ↔ e = .noJobSelector ∧ ∀ key, Text.Absent (t.get key)) ∧
      t.normalized.resolve = t.resolve ∧
      ∀ x, t.resolve = .ok x ↔ t.Picks x := by
  refine ⟨fun s => ⟨fun e => s.resolve_eq_error, ?_, s.normalized_normalized, fun x hx => ?_⟩,
    fun t => ⟨fun e => t.resolve_eq_error, ?_, fun x => t.resolve_eq_ok⟩⟩
  · rw [DefinitionSelection.resolve, DefinitionSelection.find_normalized]
    rfl
  · have hpicks : s.Picks x := DefinitionSelection.resolve_eq_ok.mp hx
    have hfind : s.find? = some x := DefinitionSelection.find?_eq_some_iff.mpr hpicks
    have hself : x.toSelection.find? = some x :=
      DefinitionSelector.find?_toSelection (DefinitionSelection.find?_eq_some hfind).2
    refine ⟨hpicks, ?_, ?_⟩
    · rw [DefinitionSelection.resolve, hself]
    · simp only [List.mem_cons, List.not_mem_nil, or_false, forall_eq_or_imp, forall_eq]
      exact ⟨DefinitionSelection.resolve_toJobSelection hfind,
        DefinitionSelection.resolve_toJobSelection hself⟩
  · rw [JobSelection.resolve, JobSelection.find_normalized]
    rfl

/-- a job definition id of blanks alone, and blanks around the process definition id that stay -/
theorem selector_paths_agree_blank :
    let s : DefinitionSelection :=
      { jobDefinitionId := some "\u00a0", processDefinitionId := some " order:1 "
        processDefinitionKey := some "order" }
    let x : DefinitionSelector := ⟨.processDefinitionId, " order:1 "⟩
    s.resolve = .ok x ∧ s.Picks x ∧ x.toSelection.resolve = .ok x ∧
      s.toJobSelection.normalized.resolve = .ok ⟨.processDefinitionId, " order:1 "⟩ := by
  intro s x
  have hx : s.resolve = .ok x := rfl
  obtain ⟨hpicks, hself, hjobs⟩ := (selector_paths_agree.1 s).2.2.2 x hx
  exact ⟨hx, hpicks, hself, (hjobs _ List.mem_cons_self).2⟩

end JobSuspension
