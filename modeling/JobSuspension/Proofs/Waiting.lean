import JobSuspension.Proofs.Deferral

/-!
# Changes that wait

Between requesting changes and firing the last of them the stores hold their timers and otherwise
what they would hold if the changes fired so far had been made at once.  Scheduling and firing both
keep this.

* `Waiting ys b s`        `s` is `b` with the timers of the changes `ys`;
* `Waiting.scheduled`     one more change waits;
* `Waiting.fired`         the first change has been made, and the others wait;
* `Waiting.eq_of_nil`     when nothing waits, `s` and `b` hold the same.
-/

namespace JobSuspension

/-- no job has the handler type of a deferred change -/
def Stores.Quiet (s : Stores) : Prop :=
  ∀ k j, s.jobs.get? k = some j → ∀ t : Transition, j.handlerType ≠ t.handlerType

structure Waiting (ys : List Deferred) (b s : Stores) : Prop where
  base : b.WellKeyed
  quiet : b.Quiet
  wellKeyed : s.WellKeyed
  definitions : s.definitions = b.definitions
  processInstances : s.processInstances = b.processInstances
  ids : (ys.map Deferred.id).Nodup
  timers : ∀ y ∈ ys, s.jobs.get? y.id = some y.timer
  others : ∀ k, k ∉ ys.map Deferred.id → s.jobs.get? k = b.jobs.get? k
  unused : ∀ y ∈ ys, b.jobs.get? y.id = none
  resolved : ∀ y ∈ ys, Text.isBlank y.selector.value = false
  found : ∀ y ∈ ys, y.selector.FoundIn b

namespace Deferred

variable {y : Deferred} {c : CommandContext} {s s' : Stores}

/-! ## what a change leaves alone -/

theorem Done.foundIn (h : y.Done c s s') {x : DefinitionSelector} (hx : x.FoundIn s) :
    x.FoundIn s' := by
  intro hk hn
  rw [h.definitions, Table.get?_map, Option.map_eq_none_iff] at hn
  exact hx hk hn

theorem Done.quiet (h : y.Done c s s') (hq : s.Quiet) : s'.Quiet := by
  intro k j hj t
  rw [h.get?_jobs, Option.map_eq_some_iff] at hj
  obtain ⟨j, hj, rfl⟩ := hj
  rw [onJob_handlerType]
  exact hq k j hj t

end Deferred

namespace Waiting

variable {y : Deferred} {ys : List Deferred} {b s : Stores}

theorem nil (hs : s.WellKeyed) (hq : s.Quiet) : Waiting [] s s where
  base := hs
  quiet := hq
  wellKeyed := hs
  definitions := rfl
  processInstances := rfl
  ids := List.nodup_nil
  timers := fun _ h => absurd h List.not_mem_nil
  others := fun _ _ => rfl
  unused := fun _ h => absurd h List.not_mem_nil
  resolved := fun _ h => absurd h List.not_mem_nil
  found := fun _ h => absurd h List.not_mem_nil

/-- the order does not matter -/
theorem perm (h : Waiting ys b s) {zs : List Deferred} (hp : ys.Perm zs) : Waiting zs b s where
  base := h.base
  quiet := h.quiet
  wellKeyed := h.wellKeyed
  definitions := h.definitions
  processInstances := h.processInstances
  ids := (hp.map Deferred.id).nodup h.ids
  timers := fun y hy => h.timers y (hp.mem_iff.mpr hy)
  others := fun k hk => h.others k fun hk' => hk ((hp.map Deferred.id).mem_iff.mp hk')
  unused := fun y hy => h.unused y (hp.mem_iff.mpr hy)
  resolved := fun y hy => h.resolved y (hp.mem_iff.mpr hy)
  found := fun y hy => h.found y (hp.mem_iff.mpr hy)

/-! ## scheduling -/

theorem scheduled (h : Waiting ys b s) {s' : Stores} (hy : y.Scheduled s s')
    (hnew : s.jobs.get? y.id = none) (hv : Text.isBlank y.selector.value = false)
    (hfound : y.selector.FoundIn b) : Waiting (y :: ys) b s' := by
  have hid : y.id ∉ ys.map Deferred.id := by
    intro hm
    obtain ⟨z, hz, he⟩ := List.mem_map.mp hm
    rw [← he, h.timers z hz] at hnew
    cases hnew
  have hget (k : String) (hk : k ≠ y.id) : s'.jobs.get? k = s.jobs.get? k := by
    rw [hy.jobs, Table.get?_insert, if_neg hk.symm]
  refine ⟨h.base, h.quiet, hy.wellKeyed, hy.definitions.trans h.definitions,
    hy.processInstances.trans h.processInstances, List.nodup_cons.mpr ⟨hid, h.ids⟩, ?_, ?_, ?_,
    List.forall_mem_cons.mpr ⟨hv, h.resolved⟩, List.forall_mem_cons.mpr ⟨hfound, h.found⟩⟩
  · refine List.forall_mem_cons.mpr ⟨hy.get?_id, fun z hz => ?_⟩
    rw [hget z.id fun e => hid (e ▸ List.mem_map_of_mem hz)]
    exact h.timers z hz
  · intro k hk
    rw [List.map_cons, List.mem_cons, not_or] at hk
    rw [hget k hk.1]
    exact h.others k hk.2
  · refine List.forall_mem_cons.mpr ⟨?_, h.unused⟩
    rw [← h.others y.id hid]
    exact hnew

/-! ## firing -/

/-- the timer that fired is gone from the one side and never was on the other -/
theorem fired (h : Waiting (y :: ys) b s) {c c' : CommandContext} {b' s' : Stores}
    (hb : y.Done c b b') (hs : y.Done c' s s') : Waiting ys b' (s'.removeJob y.id) := by
  obtain ⟨hid, hids⟩ := List.nodup_cons.mp h.ids
  have hget (k : String) (hk : k ≠ y.id) :
      (s'.removeJob y.id).jobs.get? k = (s.jobs.get? k).map y.onJob := by
    show (s'.jobs.erase y.id).get? k = _
    rw [Table.get?_erase, if_neg hk.symm, hs.get?_jobs]
  refine ⟨hb.wellKeyed, hb.quiet h.quiet, hs.wellKeyed.removeJob _, ?_, ?_, hids, ?_, ?_, ?_,
    fun z hz => h.resolved z (List.mem_cons_of_mem _ hz),
    fun z hz => hb.foundIn (h.found z (List.mem_cons_of_mem _ hz))⟩
  · show s'.definitions = b'.definitions
    rw [hs.definitions, hb.definitions, h.definitions]
  · show s'.processInstances = b'.processInstances
    rw [hs.processInstances, hb.processInstances, h.processInstances]
  · intro z hz
    rw [hget z.id fun e => hid (e ▸ List.mem_map_of_mem hz),
      h.timers z (List.mem_cons_of_mem _ hz), Option.map_some, Deferred.onJob_timer]
  · intro k hk
    rw [hb.get?_jobs]
    by_cases he : k = y.id
    · subst he
      show (s'.jobs.erase y.id).get? y.id = _
      rw [Table.get?_erase, if_pos rfl, h.unused y List.mem_cons_self]
      rfl
    · rw [hget k he, h.others k]
      rw [List.map_cons, List.mem_cons, not_or]
      exact ⟨he, hk⟩
  · intro z hz
    rw [hb.get?_jobs, h.unused z (List.mem_cons_of_mem _ hz)]
    rfl

/-! ## the end -/

theorem eq_nil_of_quiet (h : Waiting ys b s) (hq : s.Quiet) : ys = [] := by
  cases ys with
  | nil => rfl
  | cons y ys => exact absurd rfl (hq y.id y.timer (h.timers y List.mem_cons_self) y.transition)

theorem eq_of_nil (h : Waiting [] b s) : s.jobs = b.jobs :=
  Table.ext_get? fun k => h.others k List.not_mem_nil

end Waiting
end JobSuspension
