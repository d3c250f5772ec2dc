import JobSuspension.Proofs.Acquisition
import JobSuspension.Proofs.ByteOrder
import JobSuspension.Proofs.Recording

/-!
# The first due timers

What it means to acquire the first due timers is said without sorting anything: they are stored and
due, they come in the order of date and id, there are as many as the limit allows, and whatever is
left out comes later.  Only one list is like this, so it does not matter in which order the store
goes through its jobs.

* `Job.IsDueFor types now j`   an active timer of one of the types, with attempts left, whose date
                               has come;
* `Job.Precedes a b`           an earlier date, or the same date and an id with smaller bytes;
* `Stores.FirstDue s now types limit timers`   the first due timers of the stores;
* `Stores.FirstDue.eq`         there is only one such list;
* `acquired_are_first_due`     and it is what the stores answer.
-/

namespace JobSuspension

namespace Job

structure IsDueFor (types : List String) (now : Instant) (j : Job) : Prop where
  active : j.state = .active
  retries : 0 < j.retries
  date : ∃ due, j.dueDate = some due ∧ due ≤ now
  type : j.handlerType ∈ types

/-- jobs without a date neither precede others nor are preceded -/
def Precedes (a b : Job) : Prop :=
  ∃ x y, a.dueDate = some x ∧ b.dueDate = some y ∧
    (x < y ∨ x = y ∧ Text.bytes a.id < Text.bytes b.id)

variable {types : List String} {now : Instant} {a b j : Job}

/-! ## what is due -/

theorem isDueAt_iff : j.isDueAt now = true ↔ ∃ due, j.dueDate = some due ∧ due ≤ now := by
  unfold isDueAt
  cases j.dueDate with
  | none => simp
  | some due => simp

theorem isWanted_iff : isWanted types now j = true ↔ j.IsDueFor types now := by
  have hstate : (!j.state.isSuspended) = true ↔ j.state = .active := by
    cases j.state <;> decide
  rw [isWanted, isAcquirableAt, Bool.and_eq_true, Bool.and_eq_true, Bool.and_eq_true, hstate,
    decide_eq_true_eq, isDueAt_iff, List.contains_iff_mem]
  constructor
  · rintro ⟨⟨⟨hactive, hretries⟩, hdate⟩, htype⟩
    exact ⟨hactive, hretries, hdate, htype⟩
  · rintro ⟨hactive, hretries, hdate, htype⟩
    exact ⟨⟨⟨hactive, hretries⟩, hdate⟩, htype⟩

instance : Decidable (j.IsDueFor types now) :=
  decidable_of_iff (isWanted types now j = true) isWanted_iff

/-! ## the order -/

theorem Precedes.irrefl (a : Job) : ¬ a.Precedes a := by
  rintro ⟨x, y, hx, hy, h⟩
  obtain rfl : x = y := Option.some.inj (hx.symm.trans hy)
  rcases h with h | ⟨-, h⟩
  · exact Instant.lt_irrefl x h
  · exact List.lt_irrefl _ h

theorem Precedes.dueBefore (h : a.Precedes b) : dueBefore a b = true := by
  obtain ⟨x, y, hx, hy, h⟩ := h
  simp only [Job.dueBefore, hx, hy, Bool.or_eq_true, Bool.and_eq_true, decide_eq_true_eq,
    beq_iff_eq]
  exact h.imp_right fun ⟨hxy, hid⟩ => ⟨hxy, (Text.bytes_lt_bytes.mp hid).le⟩

/-- timers with different ids are in order one way or the other -/
theorem precedes_of_dueBefore (ha : a.IsDueFor types now) (hb : b.IsDueFor types now)
    (hid : a.id ≠ b.id) (h : dueBefore a b = true) : a.Precedes b := by
  obtain ⟨x, hx, -⟩ := ha.date
  obtain ⟨y, hy, -⟩ := hb.date
  simp only [dueBefore, hx, hy, Bool.or_eq_true, Bool.and_eq_true, decide_eq_true_eq,
    beq_iff_eq] at h
  refine ⟨x, y, hx, hy, h.imp_right fun ⟨hxy, hle⟩ => ⟨hxy, Text.bytes_lt_bytes.mpr ?_⟩⟩
  exact lt_of_le_of_ne hle hid

theorem pairwise_precedes {l : List Job} (hdue : ∀ j ∈ l, j.IsDueFor types now)
    (hids : (l.map id).Nodup) (hsorted : l.Pairwise fun a b => dueBefore a b = true) :
    l.Pairwise Precedes := by
  have hne : l.Pairwise fun a b => a.id ≠ b.id := List.pairwise_map.mp hids
  refine (hsorted.and hne).imp_of_mem fun {a b} ha hb h => ?_
  exact precedes_of_dueBefore (hdue a ha) (hdue b hb) h.2 h.1

end Job

/-! ## the first of the stored jobs -/

namespace Stores

structure FirstDue (s : Stores) (now : Instant) (types : List String) (limit : Nat)
    (timers : List Job) : Prop where
  stored : ∀ j ∈ timers, s.jobs.get? j.id = some j
  due : ∀ j ∈ timers, j.IsDueFor types now
  distinct : (timers.map Job.id).Nodup
  increasing : timers.Pairwise Job.Precedes
  length : timers.length = min limit (s.jobs.values.countP fun j => j.IsDueFor types now)
  leftOut : ∀ j, s.jobs.get? j.id = some j → j.IsDueFor types now → j ∉ timers →
    ∀ a ∈ timers, a.Precedes j

variable {s : Stores} {now : Instant} {types : List String} {limit : Nat}

theorem countP_isDueFor :
    (s.jobs.values.countP fun j => j.IsDueFor types now) =
      (Job.allDue s.jobs.values now types).length := by
  rw [Job.allDue, List.length_mergeSort, List.countP_eq_length_filter]
  refine congrArg List.length (List.filter_congr fun j _ => ?_)
  rw [Bool.eq_iff_iff, decide_eq_true_eq, Job.isWanted_iff]

variable (hs : s.jobs.KeyedBy Job.id)
include hs

theorem mem_allDue {j : Job} : j ∈ Job.allDue s.jobs.values now types ↔
    s.jobs.get? j.id = some j ∧ j.IsDueFor types now := by
  rw [Job.mem_allDue, mem_values hs, Job.isWanted_iff]

/-- whatever order the jobs are looked at in -/
theorem firstDue_eq_of_perm {jobs : List Job} (hjobs : jobs.Perm s.jobs.values) :
    Job.firstDue jobs now types limit = Job.firstDue s.jobs.values now types limit := by
  have hnodup : jobs.Nodup := hjobs.symm.nodup (nodup_values hs).of_map
  refine Job.firstDue_eq hnodup (Job.nodup_allDue (nodup_values hs)) Job.pairwise_allDue fun j => ?_
  exact Job.mem_allDue.trans (and_congr_left fun _ => hjobs.mem_iff.symm)

theorem firstDue_firstDue (now : Instant) (types : List String) (limit : Nat) :
    s.FirstDue now types limit (Job.firstDue s.jobs.values now types limit) where
  stored j hj := (mem_values hs).mp (Job.mem_firstDue hj).1
  due j hj := Job.isWanted_iff.mp (Job.mem_firstDue hj).2
  distinct := Job.nodup_firstDue (nodup_values hs)
  increasing := by
    refine Job.pairwise_precedes (fun j hj => Job.isWanted_iff.mp (Job.mem_firstDue hj).2)
      (Job.nodup_firstDue (nodup_values hs)) ?_
    exact Job.pairwise_allDue.sublist (List.take_sublist _ _)
  length := by rw [Job.firstDue_eq_take, List.length_take, countP_isDueFor]
  leftOut j hj hdue hnot a ha := by
    obtain ⟨hmem, hwanted⟩ := Job.mem_firstDue ha
    have hbefore := (Job.length_firstDue_of_notMem ((mem_values hs).mpr hj)
      (Job.isWanted_iff.mpr hdue) hnot).2 a ha
    refine Job.precedes_of_dueBefore (Job.isWanted_iff.mp hwanted) hdue (fun e => hnot ?_) hbefore
    have hsame : a = j := List.inj_on_of_nodup_map (nodup_values hs) hmem
      ((mem_values hs).mpr hj) e
    exact hsame ▸ ha

/-- what is due, first due timers first -/
theorem FirstDue.allDue_eq {timers : List Job} (h : s.FirstDue now types limit timers) :
    Job.allDue s.jobs.values now types =
      timers ++ (Job.allDue s.jobs.values now types).filter (· ∉ timers) := by
  have hall : ((Job.allDue s.jobs.values now types).map Job.id).Nodup :=
    Job.nodup_allDue (nodup_values hs)
  have hperm : (timers ++ (Job.allDue s.jobs.values now types).filter (· ∉ timers)).Perm
      (Job.allDue s.jobs.values now types) :=
    perm_append_filter_notMem h.distinct.of_map hall.of_map fun j hj =>
      (mem_allDue hs).mpr ⟨h.stored j hj, h.due j hj⟩
  refine Job.allDue_eq (nodup_values hs).of_map ((hperm.map Job.id).symm.nodup hall) ?_
    fun j => hperm.mem_iff.trans Job.mem_allDue
  refine List.pairwise_append.mpr
    ⟨h.increasing.imp Job.Precedes.dueBefore, Job.pairwise_allDue.filter _, fun a ha j hj => ?_⟩
  rw [List.mem_filter, decide_eq_true_eq, mem_allDue hs] at hj
  obtain ⟨⟨hstored, hdue⟩, hnot⟩ := hj
  exact (h.leftOut j hstored hdue hnot a ha).dueBefore

/-- **The first due timers are one list.** -/
theorem FirstDue.eq {timers : List Job} (h : s.FirstDue now types limit timers) :
    timers = Job.firstDue s.jobs.values now types limit := by
  have hall := h.allDue_eq hs
  have hlength := h.length
  rw [countP_isDueFor] at hlength
  rw [Job.firstDue_eq_take]
  generalize Job.allDue s.jobs.values now types = due at hall hlength
  generalize due.filter (· ∉ timers) = rest at hall
  subst hall
  rw [List.length_append] at hlength
  by_cases hfull : timers.length = limit
  · rw [← hfull, List.take_left]
  · -- the limit is not reached, so nothing is left out
    have hnone : rest = [] := List.eq_nil_of_length_eq_zero (by omega)
    rw [hnone, List.append_nil, List.take_of_length_le (by omega)]

end Stores

/-- **Acquisition returns exactly the first due timers** and changes nothing.  There is only one such
list, and it is the same in whatever order the stored jobs are gone through. -/
theorem acquired_are_first_due {env : Environment} (henv : env.Reliable) {s : Stores}
    (hs : s.jobs.KeyedBy Job.id) (now : Instant) (types : List String) (limit : Nat) :
    ∃ timers, (Call.acquireDueTimers now types limit).answer env s = .ok (timers, s) ∧
      s.FirstDue now types limit timers ∧
      (∀ others, s.FirstDue now types limit others → others = timers) ∧
      ∀ jobs, jobs.Perm s.jobs.values → Job.firstDue jobs now types limit = timers := by
  refine ⟨Job.firstDue s.jobs.values now types limit, ?_, Stores.firstDue_firstDue hs now types limit,
    fun others h => h.eq hs, fun jobs hjobs => Stores.firstDue_eq_of_perm hs hjobs⟩
  rw [Call.answer, henv.fault]
  simp only [Call.perform, henv.acquiredTypes, Option.getD_none]

/-- one date inside a leap second for two timers, and a third one in the next second -/
theorem acquired_are_first_due_leap_second :
    let env : Environment := { ids := ⟨fun _ => "timer", fun _ => "entry", fun _ => "operation"⟩ }
    let timer (id : String) (due : Instant) : Job :=
      { id := id, handlerType := "t", dueDate := some due }
    let a := timer "a" ⟨59, 1500000000, by decide⟩
    let b := timer "b" ⟨59, 1500000000, by decide⟩
    let later := timer "A" ⟨60, 0, by decide⟩
    let s := ((Stores.putJob {} b).putJob later).putJob a
    env.Reliable ∧ s.jobs.KeyedBy Job.id ∧ s.jobs.values = [later, a, b] ∧
      (Call.acquireDueTimers ⟨60, 0, by decide⟩ ["t"] 2).answer env s = .ok ([a, b], s) := by
  intro env timer a b later s
  have henv : env.Reliable := ⟨fun _ => rfl, rfl⟩
  have hs : s.jobs.KeyedBy Job.id :=
    (((Stores.WellKeyed.empty.putJob b).putJob later).putJob a).jobs
  have hvalues : s.jobs.values = [later, a, b] := by
    simp +zetaDelta only
    decide +kernel
  obtain ⟨timers, hanswer, -, -, hperm⟩ :=
    acquired_are_first_due henv hs ⟨60, 0, by decide⟩ ["t"] 2
  have hjobs : [a, b, later].Perm s.jobs.values := by
    rw [hvalues]
    exact (List.perm_append_comm : ([a, b] ++ [later]).Perm ([later] ++ [a, b]))
  have hwanted : ∀ j ∈ [a, b, later], Job.isWanted ["t"] ⟨60, 0, by decide⟩ j = true := by
    simp +zetaDelta only
    decide +kernel
  have hsorted : [a, b, later].Pairwise fun a b => Job.dueBefore a b = true := by
    simp +zetaDelta only
    decide +kernel
  have hids : ([a, b, later].map Job.id).Nodup := by
    simp +zetaDelta only
    decide +kernel
  have htimers := hperm _ hjobs
  rw [Job.firstDue_eq hids.of_map hids hsorted fun j =>
    (and_iff_left_of_imp (hwanted j)).symm] at htimers
  rw [← htimers] at hanswer
  exact ⟨henv, hs, hvalues, hanswer⟩

end JobSuspension
