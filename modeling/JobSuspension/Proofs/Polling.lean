import JobSuspension.Proofs.DateOrder
import JobSuspension.Proofs.Runs
import JobSuspension.Proofs.Settlement

/-!
# Immediate polling ends

A worker makes the next pass without sleeping when the batch was full and nothing failed.  Then
every timer of the batch was carried out: what is acquired has a handler, so nothing is passed over.
What was carried out is deleted, and no handler stores a job.  So each such pass takes a full batch
off the stored jobs, and the worker sleeps before they run out, however its clock moves.

* `Table.keys_map`, `Table.keys_erase`      the ids that are left;
* `settle_removes`, `settleAll_removes`     settling timers none of which fails;
* `PassReport.TakesBatch`                   a pass that carries out a full batch and does nothing
                                            else to the ids in the store;
* `runPass_takesBatch`                      so does every pass that calls for the next one;
* `TimerExecutor.immediatePolls x env passes s`   how many of the passes call for the next one, up
                                            to the first that does not;
* `immediate_polling_ends`                  there are no more than full batches of stored jobs.
-/

namespace JobSuspension

/-! ## ids -/

namespace Table

variable {α : Type}

theorem keys_map (t : Table α) (f : α → α) : (t.map f).keys = t.keys := by
  show (t.entries.map fun e => (e.1, f e.2)).map Prod.fst = _
  rw [List.map_map]
  rfl

theorem keys_erase (t : Table α) (k : String) : (t.erase k).keys = t.keys.filter (· != k) := by
  show (t.entries.filter fun e => e.1 != k).map Prod.fst = _
  rw [keys, List.filter_map]
  rfl

theorem mem_keys_of_get? {t : Table α} {k : String} {a : α} (h : t.get? k = some a) :
    k ∈ t.keys :=
  List.mem_map_of_mem (get?_eq_some.mp h)

end Table

/-! ## settling without failures -/

namespace TimerExecutor

section
variable {x : TimerExecutor} {env : Environment} (henv : env.Reliable) {c : CommandContext}
  {now : Instant} {s s' : Stores}
include henv

/-- a timer that does not fail is deleted, and nothing else comes or goes -/
theorem settle_removes {timer : Job} {t : Transition}
    (ht : x.handler? timer.handlerType = some t) {state : SuspensionState}
    (hj : s.jobs.get? timer.id = some (timer.withState state)) {o : Settlement}
    (hrun : x.settle env c now timer s = (.ok o, s')) (ho : o.failure? = none) :
    o = .executed ∧ s'.jobs.keys = s.jobs.keys.filter (· != timer.id) ∧
      ∃ retryAt, Settles x env c retryAt ⟨timer, s, s'⟩ o := by
  obtain ⟨retryAt, hsettles⟩ := exists_settles henv ht hj hrun
  refine ⟨?_, ?_, retryAt, hsettles⟩
  · cases hsettles with
    | executed => rfl
    | failed => cases ho
  · cases hsettles with
    | executed _ _ _ hjobs =>
      have hkeys := congrArg Table.keys hjobs
      rw [Table.keys_erase, Table.keys_map] at hkeys
      exact hkeys
    | failed => cases ho

theorem settleAll_removes (timers : List Job)
    (htypes : ∀ timer ∈ timers, ∃ t, x.handler? timer.handlerType = some t)
    (hw : s.Awaits timers) {outcomes : List Settlement}
    (hrun : x.settleAll env c now timers s = (.ok outcomes, s'))
    (hnone : outcomes.filterMap Settlement.failure? = []) :
    outcomes = List.replicate timers.length .executed ∧
      s'.jobs.keys = s.jobs.keys.filter (· ∉ timers.map Job.id) := by
  induction timers generalizing s outcomes with
  | nil =>
    cases hrun
    refine ⟨rfl, (List.filter_eq_self.mpr fun k _ => ?_).symm⟩
    exact decide_eq_true List.not_mem_nil
  | cons timer timers ih =>
    obtain ⟨⟨t, ht⟩, htypes⟩ := List.forall_mem_cons.mp htypes
    obtain ⟨state, hst⟩ := hw.2 timer List.mem_cons_self
    obtain ⟨o, s₁, rest, hsettle, hall, rfl⟩ := exists_of_settleAll_cons hrun
    have ho : o.failure? = none := by
      cases hfailure : o.failure? with
      | none => rfl
      | some f =>
        rw [List.filterMap_cons_some hfailure] at hnone
        cases hnone
    rw [List.filterMap_cons_none ho] at hnone
    obtain ⟨hexecuted, hkeys, retryAt, hsettles⟩ := settle_removes henv ht hst hsettle ho
    obtain ⟨hrest, hkeys'⟩ := ih htypes (hsettles.awaits hw) hall hnone
    refine ⟨by rw [hexecuted, hrest, List.length_cons, List.replicate_succ], ?_⟩
    rw [hkeys', hkeys, List.filter_filter]
    refine List.filter_congr fun k _ => ?_
    rw [Bool.eq_iff_iff, Bool.and_eq_true, decide_eq_true_eq, decide_eq_true_eq, bne_iff_ne,
      List.map_cons, List.mem_cons, not_or]
    exact and_comm

end

end TimerExecutor

/-! ## a pass -/

/-- the pass carries out a full batch and does nothing else to the ids in the store -/
structure PassReport.TakesBatch (report : PassReport) (x : TimerExecutor) (env : Environment)
    (now : Instant) (batch : Nat) (timers : List Job) (s s' : Stores) : Prop where
  acquired : TimerExecutor.step env (x.acquire now batch) s = (.ok timers, s)
  full : timers.length = batch
  report : report = ⟨batch, batch, []⟩
  left : s'.jobs.keys = s.jobs.keys.filter (· ∉ timers.map Job.id)
  split : s.jobs.keys.Perm (timers.map Job.id ++ s'.jobs.keys)

namespace TimerExecutor

variable {x : TimerExecutor} {env : Environment} {c : CommandContext} {now : Instant} {batch : Nat}
  {s s' : Stores}

theorem runPass_takesBatch (henv : env.Reliable) (hs : s.jobs.KeyedBy Job.id)
    {report : PassReport} (hrun : x.runPass env c now batch s = (.ok report, s'))
    (hcalls : report.callsForNext batch = true) :
    ∃ timers, report.TakesBatch x env now batch timers s s' := by
  have hbatch : 1 ≤ batch := one_le_of_runPass hrun
  have hacquire := step_acquire henv x now s hbatch
  have hw : s.Awaits _ := Stores.awaits_firstDue hs now x.handlerTypes batch
  have htypes : ∀ timer ∈ Job.firstDue s.jobs.values now x.handlerTypes batch,
      ∃ t, x.handler? timer.handlerType = some t :=
    fun timer ht => exists_handler? (Job.mem_firstDue ht).2
  generalize Job.firstDue s.jobs.values now x.handlerTypes batch = timers at hacquire hw htypes
  rw [runPass_eq hacquire] at hrun
  cases hall : x.settleAll env c now timers s with
  | mk outcomes s'' =>
    rw [hall] at hrun
    cases outcomes with
    | error e => cases hrun
    | ok outcomes =>
      cases hrun
      obtain ⟨hfull, hnone⟩ := Bool.and_eq_true_iff.mp hcalls
      obtain ⟨hexecuted, hleft⟩ :=
        settleAll_removes henv timers htypes hw hall (List.isEmpty_iff.mp hnone)
      have hlength : timers.length = batch := by
        have hacquired := beq_iff_eq.mp hfull
        rw [hexecuted, PassReport.ofSettlements_replicate] at hacquired
        exact hacquired
      refine ⟨timers, hacquire, hlength, ?_, hleft, ?_⟩
      · rw [hexecuted, PassReport.ofSettlements_replicate, hlength]
      · rw [hleft]
        refine (perm_append_filter_notMem hw.1 s.jobs.nodup_keys fun k hk => ?_).symm
        obtain ⟨timer, ht, rfl⟩ := List.mem_map.mp hk
        obtain ⟨state, hst⟩ := hw.2 timer ht
        exact Table.mem_keys_of_get? hst

/-! ## polling -/

/-- how many of the passes call for the next one at once, up to the first that does not -/
def immediatePolls (x : TimerExecutor) (env : Environment) : List Pass → Stores → Nat
  | [], _ => 0
  | p :: passes, s =>
    match x.runPass env p.context p.now p.limit s with
    | (.ok report, s') =>
      if report.callsForNext p.limit then x.immediatePolls env passes s' + 1 else 0
    | (.error _, _) => 0

/-- every immediate pass takes its batch off what the passes before have left -/
theorem immediatePolls_mul_le (henv : env.Reliable) (passes : List Pass)
    (hlimits : ∀ p ∈ passes, p.limit = batch) (hs : s.jobs.KeyedBy Job.id) :
    x.immediatePolls env passes s * batch ≤ s.jobs.keys.length := by
  induction passes generalizing s with
  | nil =>
    rw [immediatePolls, Nat.zero_mul]
    exact Nat.zero_le _
  | cons p passes ih =>
    obtain ⟨rfl, hlimits⟩ := List.forall_mem_cons.mp hlimits
    have hlater := (Stores.Later.keeps env).runPass x p.context p.now p.limit s
    rw [immediatePolls]
    cases hrun : x.runPass env p.context p.now p.limit s with
    | mk outcome s' =>
      rw [hrun] at hlater
      cases outcome with
      | error e => simp only [Nat.zero_mul, Nat.zero_le]
      | ok report =>
        by_cases hcalls : report.callsForNext p.limit = true
        · obtain ⟨timers, htakes⟩ := runPass_takesBatch henv hs hrun hcalls
          have hlength := htakes.split.length_eq
          rw [List.length_append, List.length_map, htakes.full] at hlength
          have hrest : x.immediatePolls env passes s' * p.limit ≤ s'.jobs.keys.length :=
            ih hlimits (hlater.jobs hs)
          simp only [if_pos hcalls, Nat.add_mul, Nat.one_mul]
          omega
        · simp only [if_neg hcalls, Nat.zero_mul, Nat.zero_le]

end TimerExecutor

/-- **Immediate polling makes progress and ends.**  A pass that calls for the next one at once has
taken exactly a full batch off the stored jobs and has added none.  So, whatever the clock says,
no more passes in a row call for the next one than there are full batches of stored jobs. -/
theorem immediate_polling_ends {env : Environment} (henv : env.Reliable) (x : TimerExecutor)
    {s : Stores} (hs : s.jobs.KeyedBy Job.id) {batch : Nat} (hbatch : 1 ≤ batch) :
    (∀ c now report s', x.runPass env c now batch s = (.ok report, s') →
      report.callsForNext batch = true →
        ∃ timers, report.TakesBatch x env now batch timers s s') ∧
    ∀ passes : List Pass, (∀ p ∈ passes, p.limit = batch) →
      x.immediatePolls env passes s ≤ s.jobs.keys.length / batch := by
  refine ⟨fun c now report s' hrun hcalls => ?_, fun passes hlimits => ?_⟩
  · exact TimerExecutor.runPass_takesBatch henv hs hrun hcalls
  · rw [Nat.le_div_iff_mul_le hbatch]
    exact TimerExecutor.immediatePolls_mul_le henv passes hlimits hs

/-- one timer that is due and one job that is not a timer, in batches of one -/
theorem immediate_polling_ends_one :
    let env : Environment := { ids := ⟨fun _ => "timer", fun _ => "entry", fun _ => "operation"⟩ }
    let c : CommandContext := { actor := none, level := .full }
    let x : TimerExecutor := { handlers := Transition.all }
    let a : Job :=
      { id := "a", handlerType := "suspend-job-definition", dueDate := some .epoch
        handlerConfiguration :=
          some (TimerConfiguration.mk ⟨.processDefinitionKey, "order"⟩ true).encode }
    let b : Job := { id := "b", handlerType := "message", processDefinitionKey := some "order" }
    let s : Stores := (Stores.putJob {} a).putJob b
    env.Reliable ∧ s.jobs.KeyedBy Job.id ∧ s.jobs.keys = ["a", "b"] ∧
      (∃ report s' timers, x.runPass env c .epoch 1 s = (.ok report, s') ∧
        report.callsForNext 1 = true ∧ report.TakesBatch x env .epoch 1 timers s s' ∧
        s'.jobs.keys = ["b"]) ∧
      x.immediatePolls env (List.replicate 5 ⟨.epoch, 1, c⟩) s ≤ 2 := by
  intro env c x a b s
  have henv : env.Reliable := ⟨fun _ => rfl, rfl⟩
  have hs : s.jobs.KeyedBy Job.id := ((Stores.WellKeyed.empty.putJob a).putJob b).jobs
  have hkeys : s.jobs.keys = ["a", "b"] := by
    simp +zetaDelta only
    decide +kernel
  have hvalues : s.jobs.values = [a, b] := by
    simp +zetaDelta only
    decide +kernel
  have hdue : Job.firstDue s.jobs.values .epoch x.handlerTypes 1 = [a] := by
    have ha : Job.isWanted x.handlerTypes .epoch a = true := by decide
    have hb : Job.isWanted x.handlerTypes .epoch b = false := by decide
    rw [hvalues]
    simp [Job.firstDue, ha, hb]
  have hacquire := TimerExecutor.step_acquire henv x .epoch s (Nat.le_refl 1)
  rw [hdue] at hacquire
  have hrun : x.runPass env c .epoch 1 s = _ := TimerExecutor.runPass_eq hacquire
  have hall : (x.settleAll env c .epoch [a] s).1.toOption = some [.executed] ∧
      (x.settleAll env c .epoch [a] s).2.jobs.keys = ["b"] := by
    simp +zetaDelta only
    decide +kernel
  obtain ⟨hprogress, hends⟩ := immediate_polling_ends henv x hs (Nat.le_refl 1)
  refine ⟨henv, hs, hkeys, ?_, ?_⟩
  · cases hsettled : x.settleAll env c .epoch [a] s with
    | mk outcomes s' =>
      rw [hsettled] at hrun hall
      cases outcomes with
      | error e => cases hall.1
      | ok outcomes =>
        obtain rfl : outcomes = [.executed] := Option.some.inj hall.1
        obtain ⟨timers, htakes⟩ := hprogress c .epoch _ s' hrun rfl
        exact ⟨_, s', timers, hrun, rfl, htakes, hall.2⟩
  · have hle := hends (List.replicate 5 ⟨.epoch, 1, c⟩) fun p hp => by
      rw [List.eq_of_mem_replicate hp]
    rw [hkeys] at hle
    exact hle

end JobSuspension
