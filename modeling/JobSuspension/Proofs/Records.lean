import JobSuspension.Engine.Stores

/-!
# Records under their own ids

A table is determined by its view `get?`, and the tables of the engine keep every record under the
id the record itself carries.

* `Table.ext_get?`          tables with the same view are equal;
* `Table.KeyedBy f t`       every record `a` of `t` is stored under `f a`;
* `Stores.WellKeyed s`      the three tables are keyed by the ids of their records;
* `Stores.WellKeyed.putJob` and the like: what the engine does to its tables keeps this.
-/

namespace JobSuspension

namespace Table

variable {α : Type}

/-! ## the view -/

theorem nodup_entries (t : Table α) : t.entries.Nodup := by
  refine List.Pairwise.imp (R := fun x y : String × α => x.1 < y.1) ?_ t.increasing
  intro x y hxy e
  exact String.lt_irrefl y.1 (e ▸ hxy)

theorem ext_get? {t u : Table α} (h : ∀ k, t.get? k = u.get? k) : t = u := by
  apply ext_entries
  have ht : t.entries.Pairwise fun x y => x.1 < y.1 := t.increasing
  have hu : u.entries.Pairwise fun x y => x.1 < y.1 := u.increasing
  refine List.Perm.eq_of_pairwise ?_ ht hu ?_
  · intro a b _ _ hab hba
    exact absurd (String.lt_trans hab hba) (String.lt_irrefl _)
  · refine (List.perm_ext_iff_of_nodup t.nodup_entries u.nodup_entries).mpr fun e => ?_
    rw [← get?_eq_some, ← get?_eq_some, h]

theorem map_map (t : Table α) (f g : α → α) : (t.map f).map g = t.map (g ∘ f) := by
  apply ext_get?
  intro k
  rw [get?_map, get?_map, get?_map, Option.map_map]

theorem map_congr {t : Table α} {f g : α → α} (h : ∀ k a, t.get? k = some a → f a = g a) :
    t.map f = t.map g := by
  apply ext_get?
  intro k
  rw [get?_map, get?_map]
  cases e : t.get? k with
  | none => rfl
  | some a => rw [Option.map_some, Option.map_some, h k a e]

theorem map_id_of_forall {t : Table α} {f : α → α} (h : ∀ a, f a = a) : t.map f = t := by
  apply ext_get?
  intro k
  rw [get?_map, show f = id from funext h, Option.map_id, id]

/-! ## keys -/

/-- every record is stored under the key it carries -/
def KeyedBy (f : α → String) (t : Table α) : Prop := ∀ k a, t.get? k = some a → f a = k

namespace KeyedBy

variable {f : α → String} {t : Table α}

theorem insert (h : KeyedBy f t) {k : String} {a : α} (ha : f a = k) : KeyedBy f (t.insert k a) := by
  intro k' b hb
  rw [get?_insert] at hb
  split at hb
  · next hk =>
    cases hb
    exact ha.trans hk
  · exact h k' b hb

theorem erase (h : KeyedBy f t) (k : String) : KeyedBy f (t.erase k) := by
  intro k' b hb
  rw [get?_erase] at hb
  split at hb
  · cases hb
  · exact h k' b hb

theorem map (h : KeyedBy f t) {g : α → α} (hg : ∀ a, f (g a) = f a) : KeyedBy f (t.map g) := by
  intro k b hb
  rw [get?_map, Option.map_eq_some_iff] at hb
  obtain ⟨a, ha, rfl⟩ := hb
  rw [hg]
  exact h k a ha

/-- a record with a given key is looked for under that key -/
theorem any_values (h : KeyedBy f t) (k : String) :
    t.values.any (fun a => f a == k) = (t.get? k).isSome := by
  rw [Bool.eq_iff_iff, List.any_eq_true, Option.isSome_iff_exists]
  constructor
  · rintro ⟨a, ha, hk⟩
    obtain ⟨k', hk'⟩ := mem_values.mp ha
    have e : k' = k := by rw [← h k' a hk', beq_iff_eq.mp hk]
    exact ⟨a, e ▸ hk'⟩
  · rintro ⟨a, ha⟩
    exact ⟨a, mem_values.mpr ⟨k, ha⟩, beq_iff_eq.mpr (h k a ha)⟩

end KeyedBy
end Table

/-! ## stores -/

namespace Stores

structure WellKeyed (s : Stores) : Prop where
  definitions : s.definitions.KeyedBy JobDefinition.id
  jobs : s.jobs.KeyedBy Job.id
  processInstances : s.processInstances.KeyedBy ProcessInstance.id

namespace WellKeyed

theorem empty : WellKeyed {} :=
  ⟨fun _ _ h => (Option.some_ne_none _ h.symm).elim,
    fun _ _ h => (Option.some_ne_none _ h.symm).elim,
    fun _ _ h => (Option.some_ne_none _ h.symm).elim⟩

variable {s : Stores} (h : s.WellKeyed)
include h

theorem putDefinition (d : JobDefinition) : (s.putDefinition d).WellKeyed :=
  ⟨h.definitions.insert rfl, h.jobs, h.processInstances⟩

theorem putJob (j : Job) : (s.putJob j).WellKeyed :=
  ⟨h.definitions, h.jobs.insert rfl, h.processInstances⟩

theorem removeJob (id : String) : (s.removeJob id).WellKeyed :=
  ⟨h.definitions, h.jobs.erase id, h.processInstances⟩

theorem addTimer (id : String) (a : DeferredAction) : (s.addTimer id a).WellKeyed :=
  ⟨h.definitions, h.jobs.insert rfl, h.processInstances⟩

theorem setDefinitions (p : JobDefinition → Bool) (state : SuspensionState) :
    (s.setDefinitions p state).WellKeyed := by
  refine ⟨h.definitions.map fun d => ?_, h.jobs, h.processInstances⟩
  split <;> rfl

theorem setJobs (p : Job → Bool) (state : SuspensionState) : (s.setJobs p state).WellKeyed := by
  refine ⟨h.definitions, h.jobs.map fun j => ?_, h.processInstances⟩
  split <;> rfl

theorem submit (x : Submission) : (s.submit x).WellKeyed :=
  ⟨h.definitions, h.jobs, h.processInstances⟩

/-- a failed attempt leaves the job under its id -/
theorem withFailure {id : String} {j : Job} (hj : s.jobs.get? id = some j) (message : String)
    (retryAt : Instant) :
    WellKeyed { s with jobs := s.jobs.insert id (j.withFailure message retryAt) } :=
  ⟨h.definitions, h.jobs.insert (h.jobs id j hj), h.processInstances⟩

end WellKeyed
end Stores
end JobSuspension
