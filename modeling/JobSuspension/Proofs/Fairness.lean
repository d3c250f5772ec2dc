import JobSuspension.Proofs.DateOrder
import JobSuspension.Proofs.Draining
import Mathlib.Data.List.Perm.Subperm

/-!
# No timer starves

A pass that does not acquire a due timer is full of timers that come before it.  Each of these is
settled: it is gone, or it failed and is due again after the pass, behind the timer that waits.
Nothing else moves forward, since handlers change states and no dates.  So the timers ahead of one
that waits run out, a full batch with every pass.

* `Job.isAhead types timer j`        `j` comes before `timer`, suspended or not;
* `TimerExecutor.ahead x timer s`    all stored jobs that do;
* `PassSettles.full_of_notMem`, `PassSettles.length_ahead`   a pass without the timer uses up a full
                                     batch of them;
* `TimerExecutor.Acquires x env p s id`   the pass `p` acquires the timer `id`;
* `timer_is_acquired_in_turn`        how many passes a timer has to wait.
-/

namespace JobSuspension

namespace Job

/-- a job of one of the types that has retries left and is due before the timer -/
def isAhead (types : List String) (timer j : Job) : Bool :=
  types.contains j.handlerType && decide (0 < j.retries) && j.dueDate.isSome &&
    dueBefore j timer && j.id != timer.id

variable {types : List String} {timer j : Job} {now due retryAt : Instant}

theorem isWanted_of_due (hactive : j.state = .active) (hretries : 0 < j.retries)
    (htype : types.contains j.handlerType = true) (hdue : j.dueDate = some due) (hnow : due ≤ now) :
    isWanted types now j = true := by
  have hisdue : j.isDueAt now = true := by
    rw [isDueAt, hdue]
    exact decide_eq_true hnow
  rw [isWanted, isAcquirableAt, hactive, htype, hisdue, decide_eq_true hretries]
  rfl

theorem isAhead_of_isWanted (hwanted : isWanted types now j = true)
    (hbefore : dueBefore j timer = true) (hne : j.id ≠ timer.id) :
    isAhead types timer j = true := by
  simp only [isWanted, isAcquirableAt, Bool.and_eq_true] at hwanted
  obtain ⟨⟨⟨-, hretries⟩, hdue⟩, htype⟩ := hwanted
  have hsome : j.dueDate.isSome = true := by
    cases h : j.dueDate with
    | none =>
      rw [isDueAt, h] at hdue
      cases hdue
    | some date => rfl
  have hother : (j.id != timer.id) = true := bne_iff_ne.mpr hne
  rw [isAhead, htype, hretries, hsome, hbefore, hother]
  rfl

/-- a timer that failed is due behind whatever was due before -/
theorem not_isAhead_withFailure (hdue : timer.dueDate = some due) (hlater : due < retryAt)
    (j : Job) (message : String) :
    isAhead types timer (j.withFailure message retryAt) = false := by
  have hnot : dueBefore (j.withFailure message retryAt) timer = false := by
    have hlt : ¬ retryAt < due := fun h => Instant.lt_irrefl _ (Instant.lt_trans hlater h)
    have hne : retryAt ≠ due := fun h => Instant.lt_irrefl due (h ▸ hlater)
    unfold dueBefore
    rw [hdue]
    show (decide (retryAt < due) || (retryAt == due && _)) = false
    rw [decide_eq_false hlt, beq_false_of_ne hne]
    rfl
  rw [isAhead, hnot, Bool.and_false, Bool.false_and]

end Job

/-! ## the timers ahead -/

namespace TimerExecutor

def ahead (x : TimerExecutor) (timer : Job) (s : Stores) : List Job :=
  s.jobs.values.filter (Job.isAhead x.handlerTypes timer)

variable {x : TimerExecutor} {env : Environment} {c : CommandContext} {now due retryAt : Instant}
  {limit : Nat} {l : List (Attempt × Settlement)} {s s' : Stores} {timer : Job}

theorem mem_ahead (hs : s.jobs.KeyedBy Job.id) {j : Job} :
    j ∈ x.ahead timer s ↔
      s.jobs.get? j.id = some j ∧ Job.isAhead x.handlerTypes timer j = true := by
  rw [ahead, List.mem_filter, Stores.mem_values hs]

theorem nodup_ahead (hs : s.jobs.KeyedBy Job.id) : ((x.ahead timer s).map Job.id).Nodup :=
  (Stores.nodup_values hs).sublist (List.filter_sublist.map Job.id)

/-- what is ahead afterwards was ahead before and was not acquired -/
theorem PassSettles.of_mem_ahead (h : PassSettles x env c now retryAt limit s l s')
    (hs : s.jobs.KeyedBy Job.id) (hdue : timer.dueDate = some due) (hlater : due < retryAt)
    {k : String} {a : Job} (ha : s'.jobs.get? k = some a)
    (hahead : Job.isAhead x.handlerTypes timer a = true) :
    k ∉ l.map (·.1.timer.id) ∧ k ∈ (x.ahead timer s).map Job.id := by
  rcases h.exists_of_get? ha with ⟨hnew, j, hj, rfl⟩ | ⟨p, hp, -, e, rfl⟩
  · have hid : j.id = k := hs k j hj
    subst hid
    exact ⟨hnew, List.mem_map_of_mem ((mem_ahead hs).mpr ⟨hj, hahead⟩)⟩
  · rw [Job.not_isAhead_withFailure hdue hlater] at hahead
    cases hahead

/-- **A pass of timers that are ahead** uses them up. -/
theorem PassSettles.length_ahead (h : PassSettles x env c now retryAt limit s l s')
    (hs : s.jobs.KeyedBy Job.id) (hdue : timer.dueDate = some due) (hlater : due < retryAt)
    (hbefore : ∀ p ∈ l, Job.isAhead x.handlerTypes timer p.1.timer = true) :
    (x.ahead timer s').length + l.length ≤ (x.ahead timer s).length := by
  have hs' : s'.jobs.KeyedBy Job.id := h.later.jobs hs
  have hleft : ∀ k ∈ (x.ahead timer s').map Job.id,
      k ∉ l.map (·.1.timer.id) ∧ k ∈ (x.ahead timer s).map Job.id := by
    intro k hk
    obtain ⟨a, ha, rfl⟩ := List.mem_map.mp hk
    obtain ⟨hstored, hahead⟩ := (mem_ahead hs').mp ha
    exact h.of_mem_ahead hs hdue hlater hstored hahead
  have hnodup : ((x.ahead timer s').map Job.id ++ l.map (·.1.timer.id)).Nodup := by
    refine List.nodup_append.mpr ⟨nodup_ahead hs', h.distinct, fun k hk k' hk' e => ?_⟩
    exact (hleft k hk).1 (e ▸ hk')
  have hsub : (x.ahead timer s').map Job.id ++ l.map (·.1.timer.id) ⊆
      (x.ahead timer s).map Job.id := by
    intro k hk
    rcases List.mem_append.mp hk with hk | hk
    · exact (hleft k hk).2
    · obtain ⟨p, hp, rfl⟩ := List.mem_map.mp hk
      exact List.mem_map_of_mem ((mem_ahead hs).mpr ⟨h.stored p hp, hbefore p hp⟩)
  have hlength := (List.subperm_of_subset hnodup hsub).length_le
  rw [List.length_append, List.length_map, List.length_map, List.length_map] at hlength
  exact hlength

/-- a pass that does not acquire a wanted timer is full of timers that are ahead of it -/
theorem PassSettles.full_of_notMem (h : PassSettles x env c now retryAt limit s l s')
    (henv : env.Reliable) (hlimit : 1 ≤ limit) (hs : s.jobs.KeyedBy Job.id)
    (hstored : s.jobs.get? timer.id = some timer)
    (hwanted : Job.isWanted x.handlerTypes now timer = true)
    (hid : timer.id ∉ l.map (·.1.timer.id)) :
    l.length = limit ∧ ∀ p ∈ l, Job.isAhead x.handlerTypes timer p.1.timer = true := by
  have hl : l.map (·.1.timer) = Job.firstDue s.jobs.values now x.handlerTypes limit :=
    h.timers_eq henv hlimit
  have hnot : timer ∉ Job.firstDue s.jobs.values now x.handlerTypes limit := by
    intro hmem
    rw [← hl] at hmem
    obtain ⟨p, hp, rfl⟩ := List.mem_map.mp hmem
    exact hid (List.mem_map_of_mem hp)
  obtain ⟨hfull, hbefore⟩ :=
    Job.length_firstDue_of_notMem ((Stores.mem_values hs).mpr hstored) hwanted hnot
  rw [← hl] at hfull hbefore
  rw [List.length_map] at hfull
  refine ⟨hfull, fun p hp => ?_⟩
  apply Job.isAhead_of_isWanted (h.wanted p hp) (hbefore _ (List.mem_map_of_mem hp))
  intro e
  exact hid (e ▸ List.mem_map_of_mem hp)

/-! ## waiting -/

def Acquires (x : TimerExecutor) (env : Environment) (p : Pass) (s : Stores) (id : String) : Prop :=
  ∃ timers, step env (x.acquire p.now p.limit) s = (.ok timers, s) ∧ id ∈ timers.map Job.id

/-- a timer that is due either is acquired or goes on waiting, with a full batch less ahead of it -/
theorem acquires_or_waits (henv : env.Reliable) (hwait : 0 < x.retryWait.nanos)
    (hs : s.jobs.KeyedBy Job.id) (htype : x.handlerTypes.contains timer.handlerType = true)
    (hretries : 0 < timer.retries) (hdue : timer.dueDate = some due)
    (hstored : s.jobs.get? timer.id = some timer) (hactive : timer.state = .active) (p : Pass)
    (hlimit : 1 ≤ p.limit) (hnow : due ≤ p.now) (hrange : p.now.add? x.retryWait ≠ none) :
    x.Acquires env p s timer.id ∨
      ∃ s', (x.runPass env p.context p.now p.limit s).2 = s' ∧ s'.jobs.KeyedBy Job.id ∧
        (∃ state, s'.jobs.get? timer.id = some (timer.withState state)) ∧
        (x.ahead timer s').length + p.limit ≤ (x.ahead timer s).length := by
  obtain ⟨retryAt, hretry⟩ := Option.ne_none_iff_exists'.mp hrange
  obtain ⟨l, s', h⟩ := runPass_settles (c := p.context) henv hs hretry hlimit
  have hlater : due < retryAt :=
    Instant.lt_of_le_of_lt hnow (Instant.lt_of_add? hwait hretry)
  by_cases hid : timer.id ∈ l.map (·.1.timer.id)
  · refine .inl ⟨_, h.acquired, ?_⟩
    rw [List.map_map]
    exact hid
  · have hwanted : Job.isWanted x.handlerTypes p.now timer = true :=
      Job.isWanted_of_due hactive hretries htype hdue hnow
    obtain ⟨hfull, hbefore⟩ := h.full_of_notMem henv hlimit hs hstored hwanted hid
    have hless := h.length_ahead hs hdue hlater hbefore
    rw [hfull] at hless
    refine .inr ⟨s', by rw [h.run], h.later.jobs hs, ?_, hless⟩
    rw [h.settles.get?_of_notMem hid, hstored]
    exact ⟨_, rfl⟩

/-- the timer is acquired before the batches ahead of it are used up -/
theorem acquires_within (henv : env.Reliable) (hwait : 0 < x.retryWait.nanos)
    (htype : x.handlerTypes.contains timer.handlerType = true) (hretries : 0 < timer.retries)
    (hdue : timer.dueDate = some due) (hstate : timer.state = .active) (hlimit : 1 ≤ limit)
    (passes : List Pass)
    (hpasses : ∀ p ∈ passes,
      p.limit = limit ∧ due ≤ p.now ∧ p.now.add? x.retryWait ≠ none)
    (hs : s.jobs.KeyedBy Job.id)
    (hstored : ∃ state, s.jobs.get? timer.id = some (timer.withState state))
    (hactive : ∀ i ≤ (x.ahead timer s).length / limit, ∀ j,
      (x.runPasses env (passes.take i) s).2.jobs.get? timer.id = some j → j.state = .active)
    (hlong : (x.ahead timer s).length / limit < passes.length) :
    ∃ i p, i ≤ (x.ahead timer s).length / limit ∧ passes[i]? = some p ∧
      x.Acquires env p (x.runPasses env (passes.take i) s).2 timer.id := by
  induction passes generalizing s with
  | nil => exact absurd hlong (Nat.not_lt_zero _)
  | cons p passes ih =>
    obtain ⟨⟨rfl, hnow, hrange⟩, hpasses⟩ := List.forall_mem_cons.mp hpasses
    have hself : s.jobs.get? timer.id = some timer := by
      obtain ⟨state, hj⟩ := hstored
      have hsame : state = .active := hactive 0 (Nat.zero_le _) _ hj
      rw [hj, hsame, ← hstate]
      rfl
    rcases acquires_or_waits henv hwait hs htype hretries hdue hself hstate p hlimit hnow hrange with
      hacquires | ⟨s', hrun, hs', hstored', hless⟩
    · exact ⟨0, p, Nat.zero_le _, rfl, hacquires⟩
    · have hfewer : (x.ahead timer s').length / p.limit + 1 ≤ (x.ahead timer s).length / p.limit := by
        rw [← Nat.add_div_right _ hlimit]
        exact Nat.div_le_div_right hless
      have hnext (i : Nat) : (x.runPasses env ((p :: passes).take (i + 1)) s).2 =
          (x.runPasses env (passes.take i) s').2 := by
        rw [List.take_succ_cons, runPasses, ← hrun]
      rw [List.length_cons] at hlong
      obtain ⟨i, q, hi, hq, hacquires⟩ := ih hpasses hs' hstored'
        (fun i hi j hj => hactive (i + 1) (by omega) j (by rw [hnext]; exact hj)) (by omega)
      refine ⟨i + 1, q, by omega, ?_, ?_⟩
      · rw [List.getElem?_cons_succ]
        exact hq
      · rw [hnext]
        exact hacquires

/-- passes never suspend a timer that belongs to nobody -/
theorem runPasses_active (henv : env.Reliable) (passes : List Pass)
    (hpasses : ∀ p ∈ passes, 1 ≤ p.limit ∧ p.now.add? x.retryWait ≠ none)
    (hs : s.jobs.KeyedBy Job.id) {id : String}
    (hactive : ∀ j, s.jobs.get? id = some j → j.Unowned ∧ j.state = .active) :
    ∀ j, (x.runPasses env passes s).2.jobs.get? id = some j → j.Unowned ∧ j.state = .active := by
  induction passes generalizing s with
  | nil => exact hactive
  | cons p passes ih =>
    obtain ⟨⟨hlimit, hrange⟩, hpasses⟩ := List.forall_mem_cons.mp hpasses
    obtain ⟨retryAt, hretry⟩ := Option.ne_none_iff_exists'.mp hrange
    obtain ⟨l, s', h⟩ := runPass_settles (c := p.context) henv hs hretry hlimit
    unfold runPasses
    simp only [h.run]
    refine ih hpasses (h.later.jobs hs) fun a ha => ?_
    rcases h.exists_of_get? ha with ⟨-, j, hj, rfl⟩ | ⟨q, hq, rfl, e, rfl⟩
    · obtain ⟨hunowned, hstate⟩ := hactive j hj
      rw [Job.afterTimers_of_unowned hunowned]
      exact ⟨hunowned, hstate⟩
    · obtain ⟨hunowned, hstate⟩ := hactive _ (h.stored q hq)
      rw [Job.afterTimers_of_unowned hunowned]
      exact ⟨hunowned.withFailure e.message retryAt, hstate⟩

end TimerExecutor

/-- **No timer starves.**  Let passes of one size follow one another, at whatever instants once the
timer is due.  The timer is acquired as soon as the batches that are ahead of it at the start are
used up, if it is not suspended at the start of a pass until then: jobs that fail or that are woken
up meanwhile never get ahead of it. -/
theorem timer_is_acquired_in_turn {env : Environment} (henv : env.Reliable) {x : TimerExecutor}
    (hwait : 0 < x.retryWait.nanos) {s : Stores} (hs : s.jobs.KeyedBy Job.id) {timer : Job}
    (hstored : s.jobs.get? timer.id = some timer)
    (htype : x.handlerTypes.contains timer.handlerType = true) (hretries : 0 < timer.retries)
    {due : Instant} (hdue : timer.dueDate = some due) {limit : Nat} (hlimit : 1 ≤ limit)
    (passes : List Pass)
    (hpasses : ∀ p ∈ passes,
      p.limit = limit ∧ due ≤ p.now ∧ p.now.add? x.retryWait ≠ none)
    (hactive : ∀ i ≤ (x.ahead timer s).length / limit, ∀ j,
      (x.runPasses env (passes.take i) s).2.jobs.get? timer.id = some j → j.state = .active)
    (hlong : (x.ahead timer s).length / limit < passes.length) :
    ∃ i p, i ≤ (x.ahead timer s).length / limit ∧ passes[i]? = some p ∧
      x.Acquires env p (x.runPasses env (passes.take i) s).2 timer.id := by
  have hstate : timer.state = .active := hactive 0 (Nat.zero_le _) timer hstored
  exact TimerExecutor.acquires_within henv hwait htype hretries hdue hstate hlimit passes hpasses hs
    ⟨timer.state, hstored⟩ hactive hlong

/-- behind a timer that fails, in batches of one, the clock running backwards -/
theorem timer_is_acquired_in_turn_behind_failure :
    let env : Environment := { ids := ⟨fun _ => "timer", fun _ => "entry", fun _ => "operation"⟩ }
    let c : CommandContext := { actor := none, level := .full }
    let x : TimerExecutor := { handlers := Transition.all, retryWait := ⟨1⟩ }
    let action (id : String) : DeferredAction :=
      ⟨.epoch, .suspend, (TimerConfiguration.mk ⟨.jobDefinitionId, id⟩ false).encode⟩
    let timer : Job := (action "d").toJob "b"
    let s : Stores := (Stores.addTimer {} "a" (action "gone")).addTimer "b" (action "d")
    let passes : List Pass := [⟨⟨5, 0, by decide⟩, 1, c⟩, ⟨.epoch, 1, c⟩]
    env.Reliable ∧ s.jobs.KeyedBy Job.id ∧ s.jobs.get? timer.id = some timer ∧
      (x.ahead timer s).length = 1 ∧
      ∃ i p, i ≤ 1 ∧ passes[i]? = some p ∧
        x.Acquires env p (x.runPasses env (passes.take i) s).2 "b" := by
  intro env c x action timer s passes
  have henv : env.Reliable := ⟨fun _ => rfl, rfl⟩
  have hs : s.jobs.KeyedBy Job.id := ((Stores.WellKeyed.empty.addTimer "a" _).addTimer "b" _).jobs
  have hstored : s.jobs.get? timer.id = some timer :=
    (Table.get?_insert _ _ _ _).trans (if_pos rfl)
  have hahead : (x.ahead timer s).length = 1 := by
    simp +zetaDelta only
    decide +kernel
  have hrange : ∀ p ∈ passes, p.now.add? x.retryWait ≠ none := by
    refine List.forall_mem_cons.mpr ⟨?_, List.forall_mem_singleton.mpr ?_⟩
    · show Instant.add? ⟨5, 0, by decide⟩ ⟨1⟩ ≠ none
      decide
    · show Instant.add? .epoch ⟨1⟩ ≠ none
      decide
  have hlimits : ∀ p ∈ passes, p.limit = 1 ∧ .epoch ≤ p.now := by decide
  have hactive : ∀ i ≤ (x.ahead timer s).length / 1, ∀ j,
      (x.runPasses env (passes.take i) s).2.jobs.get? timer.id = some j → j.state = .active := by
    intro i _ j hj
    refine (TimerExecutor.runPasses_active henv (passes.take i) (fun p hp => ?_) hs ?_ j hj).2
    · have hp := List.mem_of_mem_take hp
      exact ⟨Nat.le_of_eq (hlimits p hp).1.symm, hrange p hp⟩
    · intro j hj
      obtain rfl := Option.some.inj (hstored.symm.trans hj)
      exact ⟨⟨rfl, rfl, rfl, rfl⟩, rfl⟩
  obtain ⟨i, p, hi, hp, hacquires⟩ := timer_is_acquired_in_turn henv (by decide) hs hstored
    (by decide) (by decide) (rfl : timer.dueDate = some .epoch) (Nat.le_refl 1) passes
    (fun p hp => ⟨(hlimits p hp).1, (hlimits p hp).2, hrange p hp⟩) hactive
    (by rw [hahead]; decide)
  rw [hahead] at hi
  exact ⟨henv, hs, hstored, hahead, i, p, hi, hp, hacquires⟩

end JobSuspension
