import JobSuspension.Proofs.Clocks

/-!
# Draining

A worker makes one pass after the other until a pass acquires nothing.  As long as the timers belong
to nobody, no timer reaches another, and one that fails is due again later only.  A pass then takes
the first timers off those that are due and leaves the others as they were, and the passes come to
the same as settling all due timers at once, however many each of them may acquire.

* `PassReport.total reports`         what several passes report together;
* `TimerExecutor.due x now s`        all timers that are due, in the order of acquisition;
* `Stores.Undisturbed x s`           the timers that `x` handles belong to nobody;
* `TimerExecutor.runPass_due`        a pass takes the first due timers and leaves the others;
* `TimerExecutor.Drains`             passes until one acquires nothing, with their reports;
* `Drains.exists_end`, `Drains.settleAll`   there is an end, and what it comes to;
* `draining_ignores_batch_size`      two drains with different limits.
-/

namespace JobSuspension

/-! ## batches in parts -/

namespace PassReport

def append (r r' : PassReport) : PassReport :=
  ⟨r.acquired + r'.acquired, r.executed + r'.executed, r.failures ++ r'.failures⟩

/-- what several passes report together -/
def total : List PassReport → PassReport
  | [] => ⟨0, 0, []⟩
  | r :: reports => r.append (total reports)

theorem ofSettlements_append (outcomes others : List Settlement) :
    ofSettlements (outcomes ++ others) = (ofSettlements outcomes).append (ofSettlements others) := by
  simp only [ofSettlements, append, List.length_append, List.countP_append, List.filterMap_append]

end PassReport

namespace TimerExecutor

section
variable {x : TimerExecutor} {env : Environment} {c : CommandContext} {now : Instant}

theorem settleAll_append {timers others : List Job} {s s' s'' : Stores}
    {outcomes outcomes' : List Settlement}
    (h : x.settleAll env c now timers s = (.ok outcomes, s'))
    (h' : x.settleAll env c now others s' = (.ok outcomes', s'')) :
    x.settleAll env c now (timers ++ others) s = (.ok (outcomes ++ outcomes'), s'') := by
  induction timers generalizing s outcomes with
  | nil =>
    cases h
    exact h'
  | cons timer timers ih =>
    obtain ⟨o, s₁, rest, hsettle, hall, rfl⟩ := exists_of_settleAll_cons h
    rw [List.cons_append, settleAll_cons_of_ok hsettle, ih hall]
    rfl

end

/-! ## due timers -/

def due (x : TimerExecutor) (now : Instant) (s : Stores) : List Job :=
  Job.allDue s.jobs.values now x.handlerTypes

end TimerExecutor

structure Stores.Undisturbed (x : TimerExecutor) (s : Stores) : Prop where
  wellKeyed : s.WellKeyed
  unowned : ∀ k j, s.jobs.get? k = some j → x.handlerTypes.contains j.handlerType = true →
    j.Unowned

/-- the timer of a deferred change belongs to nobody -/
theorem Stores.Undisturbed.addTimer {x : TimerExecutor} {s : Stores} (h : s.Undisturbed x)
    (id : String) (a : DeferredAction) : (s.addTimer id a).Undisturbed x := by
  refine ⟨h.wellKeyed.addTimer id a, fun k j hj htype => ?_⟩
  have hget : (s.addTimer id a).jobs.get? k = if id = k then some (a.toJob id) else s.jobs.get? k :=
    Table.get?_insert _ _ _ _
  rw [hget] at hj
  by_cases hk : id = k
  · rw [if_pos hk] at hj
    obtain rfl := Option.some.inj hj
    exact ⟨rfl, rfl, rfl, rfl⟩
  · rw [if_neg hk] at hj
    exact h.unowned k j hj htype

/-- a timer that failed is not due before its retry -/
theorem Job.not_isWanted_withFailure {types : List String} {now retryAt : Instant}
    (h : now < retryAt) (j : Job) (message : String) :
    isWanted types now (j.withFailure message retryAt) = false := by
  have hdue : (j.withFailure message retryAt).isDueAt now = false := by
    show decide (retryAt ≤ now) = false
    rw [decide_eq_false_iff_not]
    exact Instant.not_le.mpr h
  unfold isWanted isAcquirableAt
  rw [hdue, Bool.and_false, Bool.false_and]

namespace TimerExecutor

variable {x : TimerExecutor} {env : Environment} {now retryAt : Instant}

section
variable {c : CommandContext} {limit : Nat} {l : List (Attempt × Settlement)} {s s' : Stores}

theorem PassSettles.later (h : PassSettles x env c now retryAt limit s l s') : s.Later s' := by
  have hkept := (Stores.Later.keeps env).runPass x c now limit s
  rw [h.run] at hkept
  exact hkept

/-- a pass does not give a timer to anybody -/
theorem PassSettles.undisturbed (h : PassSettles x env c now retryAt limit s l s')
    (hs : s.Undisturbed x) : s'.Undisturbed x := by
  refine ⟨h.later.wellKeyed hs.wellKeyed, fun k a ha htype => ?_⟩
  rcases h.exists_of_get? ha with ⟨-, j, hj, rfl⟩ | ⟨p, hp, rfl, e, rfl⟩
  · exact (hs.unowned k j hj htype).withState _
  · exact ((hs.unowned _ _ (h.stored p hp) htype).withState _).withFailure e.message retryAt

/-- what is due afterwards was due before and was not acquired -/
theorem PassSettles.due_eq (h : PassSettles x env c now retryAt limit s l s')
    (hs : s.Undisturbed x) (hlater : now < retryAt)
    (hl : l.map (·.1.timer) = (x.due now s).take limit) :
    x.due now s' = (x.due now s).drop limit := by
  have hs' : s'.Undisturbed x := h.undisturbed hs
  have hids : ((x.due now s).map Job.id).Nodup :=
    Job.nodup_allDue (Stores.nodup_values hs.wellKeyed.jobs)
  have hsplit : (x.due now s).take limit ++ (x.due now s).drop limit = x.due now s :=
    List.take_append_drop _ _
  have hacquired : l.map (·.1.timer.id) = ((x.due now s).take limit).map Job.id := by
    rw [← hl, List.map_map]
    rfl
  have hdisjoint : ∀ a ∈ (x.due now s).drop limit, a.id ∉ l.map (·.1.timer.id) := by
    intro a ha hmem
    rw [hacquired] at hmem
    rw [← hsplit, List.map_append] at hids
    exact (List.nodup_append.mp hids).2.2 _ hmem _ (List.mem_map_of_mem ha) rfl
  have hmem : ∀ a, a ∈ x.due now s ↔
      s.jobs.get? a.id = some a ∧ Job.isWanted x.handlerTypes now a = true := by
    intro a
    exact Job.mem_allDue.trans (and_congr_left fun _ => Stores.mem_values hs.wellKeyed.jobs)
  refine Job.allDue_eq (Stores.nodup_values hs'.wellKeyed.jobs).of_map ?_ ?_ fun a => ?_
  · exact hids.sublist ((List.drop_sublist _ _).map Job.id)
  · exact Job.pairwise_allDue.sublist (List.drop_sublist _ _)
  · rw [Table.mem_values]
    constructor
    · intro ha
      obtain ⟨hstored, hwanted⟩ := (hmem a).mp (List.mem_of_mem_drop ha)
      have hunowned := hs.unowned _ a hstored (Bool.and_eq_true_iff.mp hwanted).2
      refine ⟨⟨a.id, ?_⟩, hwanted⟩
      rw [h.settles.get?_of_notMem (hdisjoint a ha), hstored, Option.map_some,
        Job.afterTimers_of_unowned hunowned]
    · rintro ⟨⟨k, hk⟩, hwanted⟩
      rcases h.exists_of_get? hk with ⟨hnew, j, hj, rfl⟩ | ⟨p, hp, -, e, rfl⟩
      · -- nothing but the state could have changed, and no timer reaches this one
        have hunowned := hs.unowned k j hj (Bool.and_eq_true_iff.mp hwanted).2
        rw [Job.afterTimers_of_unowned hunowned] at hwanted ⊢
        obtain rfl : k = j.id := (hs.wellKeyed.jobs k j hj).symm
        have hdue : j ∈ x.due now s := (hmem j).mpr ⟨hj, hwanted⟩
        rw [← hsplit, List.mem_append] at hdue
        refine hdue.resolve_left fun htaken => hnew ?_
        rw [hacquired]
        exact List.mem_map_of_mem htaken
      · rw [Job.not_isWanted_withFailure hlater] at hwanted
        cases hwanted

end

/-! ## one pass -/

theorem runPass_due (henv : env.Reliable) (c : CommandContext)
    (hretry : now.add? x.retryWait = some retryAt) (hlater : now < retryAt) {limit : Nat}
    (hlimit : 1 ≤ limit) {s : Stores} (hs : s.Undisturbed x) :
    ∃ outcomes s', x.settleAll env c now ((x.due now s).take limit) s = (.ok outcomes, s') ∧
      x.runPass env c now limit s = (.ok (.ofSettlements outcomes), s') ∧
      outcomes.length = ((x.due now s).take limit).length ∧
      s'.Undisturbed x ∧ x.due now s' = (x.due now s).drop limit := by
  obtain ⟨l, s', h⟩ := runPass_settles (c := c) henv hs.wellKeyed.jobs hretry hlimit
  have hacquire : step env (x.acquire now limit) s = (.ok ((x.due now s).take limit), s) :=
    step_acquire henv x now s hlimit
  have hl : l.map (·.1.timer) = (x.due now s).take limit := h.timers_eq henv hlimit
  have hrun := h.run
  unfold runPass at hrun ⊢
  simp only [hacquire] at hrun ⊢
  cases hall : x.settleAll env c now ((x.due now s).take limit) s with
  | mk outcomes s'' =>
    simp only [hall] at hrun ⊢
    cases outcomes with
    | error e => cases hrun
    | ok outcomes =>
      obtain ⟨hreport, rfl⟩ := Prod.mk.inj hrun
      have hlength : outcomes.length = (l.map Prod.snd).length :=
        congrArg PassReport.acquired (Except.ok.inj hreport)
      refine ⟨outcomes, _, rfl, rfl, ?_, h.undisturbed hs, h.due_eq hs hlater hl⟩
      rw [hlength, ← hl, List.length_map, List.length_map]

/-! ## passes -/

/-- passes at one instant, the first of them recorded at `clock 0`, with what they report -/
inductive Drains (x : TimerExecutor) (env : Environment) (c : CommandContext) (now : Instant)
    (limit : Nat) : (Nat → Instant) → Stores → List PassReport → Stores → Prop where
  | done {clock : Nat → Instant} {s s' : Stores} {r : PassReport}
      (hpass : x.runPass env (c.dated (clock 0)) now limit s = (.ok r, s'))
      (hr : r.acquired = 0) : Drains x env c now limit clock s [r] s'
  | more {clock : Nat → Instant} {s s' s'' : Stores} {r : PassReport} {reports : List PassReport}
      (hpass : x.runPass env (c.dated (clock 0)) now limit s = (.ok r, s'))
      (hr : r.acquired ≠ 0)
      (hrest : Drains x env c now limit (fun n => clock (n + 1)) s' reports s'') :
      Drains x env c now limit clock s (r :: reports) s''

/-- one pass for every full batch and one for what is left -/
theorem passes_needed {limit n : Nat} (hlimit : 1 ≤ limit) (hn : 1 ≤ n) :
    (n + (limit - 1)) / limit = (n - limit + (limit - 1)) / limit + 1 := by
  by_cases h : limit ≤ n
  · rw [show n + (limit - 1) = n - limit + (limit - 1) + limit by omega,
      Nat.add_div_right _ hlimit]
  · have hone : (n + (limit - 1)) / limit = 1 :=
      Nat.div_eq_of_lt_le (by omega) (by omega)
    rw [hone, show n - limit = 0 by omega, Nat.zero_add, Nat.div_eq_of_lt (by omega)]

namespace Drains

variable (henv : env.Reliable) (c : CommandContext)
  (hretry : now.add? x.retryWait = some retryAt) (hlater : now < retryAt) {limit : Nat}
  (hlimit : 1 ≤ limit)
include henv hretry hlater hlimit

theorem exists_end (clock : Nat → Instant) {s : Stores} (hs : s.Undisturbed x) :
    ∃ reports s', Drains x env c now limit clock s reports s' ∧
      reports.length = ((x.due now s).length + (limit - 1)) / limit + 1 := by
  generalize hn : (x.due now s).length = n
  induction n using Nat.strongRecOn generalizing clock s with
  | ind n ih =>
    obtain ⟨outcomes, s', -, hrun, hlength, hs', hdue⟩ :=
      runPass_due henv (c.dated (clock 0)) hretry hlater hlimit hs
    rw [List.length_take, hn] at hlength
    by_cases hzero : n = 0
    · refine ⟨_, s', .done hrun ?_, ?_⟩
      · show outcomes.length = 0
        omega
      · subst hzero
        rw [Nat.zero_add, Nat.div_eq_of_lt (by omega)]
        rfl
    · have hshort : (x.due now s').length = n - limit := by
        rw [hdue, List.length_drop, hn]
      obtain ⟨reports, s'', hdrains, hcount⟩ :=
        ih (n - limit) (by omega) (fun n => clock (n + 1)) hs' hshort
      refine ⟨_, s'', .more hrun ?_ hdrains, ?_⟩
      · show outcomes.length ≠ 0
        omega
      · have hn : 1 ≤ n := by omega
        rw [List.length_cons, hcount, passes_needed hlimit hn]

/-- the passes come to settling everything that is due -/
theorem settleAll {clock : Nat → Instant} {s s' : Stores} {reports : List PassReport}
    (h : Drains x env c now limit clock s reports s') (hs : s.Undisturbed x) {s₀ : Stores}
    (h₀ : s.SameButDates s₀) :
    ∃ outcomes s₀', x.settleAll env c now (x.due now s) s₀ = (.ok outcomes, s₀') ∧
      s'.SameButDates s₀' ∧ PassReport.total reports = .ofSettlements outcomes := by
  induction h generalizing s₀ with
  | @done clock s s' r hpass hr =>
    obtain ⟨outcomes, s₁, hall, hrun, hlength, -, -⟩ :=
      runPass_due henv (c.dated (clock 0)) hretry hlater hlimit hs
    obtain ⟨hreport, rfl⟩ := Prod.mk.inj (hpass.symm.trans hrun)
    obtain rfl := Except.ok.inj hreport
    have hempty : x.due now s = [] := by
      have hzero : outcomes.length = 0 := hr
      rw [hlength, List.length_take] at hzero
      exact List.eq_nil_of_length_eq_zero (by omega)
    rw [hempty, List.take_nil] at hall
    cases hall
    rw [hempty]
    exact ⟨[], s₀, rfl, h₀, rfl⟩
  | @more clock s s' s'' r reports hpass hr hrest ih =>
    obtain ⟨outcomes, s₁, hall, hrun, -, hs', hdue⟩ :=
      runPass_due henv (c.dated (clock 0)) hretry hlater hlimit hs
    obtain ⟨hreport, rfl⟩ := Prod.mk.inj (hpass.symm.trans hrun)
    obtain rfl := Except.ok.inj hreport
    -- the same batch, recorded at the time of `c`
    obtain ⟨_, _, s₀', hbatch, hbatch₀, h₁⟩ := ((carries_dated henv c (clock 0)
      c.recordedAt).settleAll henv h₀ x now hs.wellKeyed ((x.due now s).take limit)).elim
    obtain ⟨rfl, rfl⟩ := Prod.mk.inj (hbatch.symm.trans hall)
    obtain ⟨others, s₀'', hothers, h₂, htotal⟩ := ih hs' h₁
    rw [hdue] at hothers
    refine ⟨outcomes ++ others, s₀'', ?_, h₂, ?_⟩
    · have happend := settleAll_append hbatch₀ hothers
      rw [List.take_append_drop] at happend
      exact happend
    · rw [PassReport.total, htotal, PassReport.ofSettlements_append]

end Drains
end TimerExecutor

/-! ## batch sizes -/

/-- **Draining does not depend on the size of the batches.**  If the timers belong to nobody, the
passes at one instant come to an end, whatever the clock says meanwhile: one pass for each full
batch, one for what is left of the due timers, and one that acquires nothing.  And two drains with
different limits leave the same job definitions, the same jobs and the same log, row by row and with
the same ids in the order in which they were given out, but for the dates of the rows; they execute
as many timers and report the same failures in the same order. -/
theorem draining_ignores_batch_size {env : Environment} (henv : env.Reliable)
    {x : TimerExecutor} {s : Stores} (hs : s.Undisturbed x) (c : CommandContext)
    {now retryAt : Instant} (hwait : 0 < x.retryWait.nanos)
    (hretry : now.add? x.retryWait = some retryAt) :
    (∀ limit clock, 1 ≤ limit → ∃ reports s', x.Drains env c now limit clock s reports s' ∧
      reports.length = ((x.due now s).length + (limit - 1)) / limit + 1) ∧
    ∀ limit limit' clock clock' reports reports' s' s'', 1 ≤ limit → 1 ≤ limit' →
      x.Drains env c now limit clock s reports s' →
      x.Drains env c now limit' clock' s reports' s'' →
        s'.definitions = s''.definitions ∧ s'.jobs = s''.jobs ∧
        s'.log.map LogEntry.undated = s''.log.map LogEntry.undated ∧
        (PassReport.total reports).executed = (PassReport.total reports').executed ∧
        (PassReport.total reports).failures = (PassReport.total reports').failures := by
  have hlater : now < retryAt := Instant.lt_of_add? hwait hretry
  refine ⟨fun limit clock hlimit => ?_, ?_⟩
  · exact TimerExecutor.Drains.exists_end henv c hretry hlater hlimit clock hs
  · intro limit limit' clock clock' reports reports' s' s'' hlimit hlimit' h h'
    obtain ⟨outcomes, s₀, hall, hsame, htotal⟩ :=
      h.settleAll henv c hretry hlater hlimit hs (.refl s)
    obtain ⟨outcomes', s₀', hall', hsame', htotal'⟩ :=
      h'.settleAll henv c hretry hlater hlimit' hs (.refl s)
    obtain ⟨houtcomes, rfl⟩ := Prod.mk.inj (hall.symm.trans hall')
    obtain rfl := Except.ok.inj houtcomes
    have hboth : s'.SameButDates s'' := hsame.trans hsame'.symm
    have hreports : PassReport.total reports = PassReport.total reports' := htotal.trans htotal'.symm
    exact ⟨hboth.definitions.symm, hboth.jobs.symm, hboth.log.symm,
      congrArg PassReport.executed hreports, congrArg PassReport.failures hreports⟩

/-- two timers, of which the first one fails, in batches of one and of two -/
theorem draining_ignores_batch_size_failure :
    let env : Environment := { ids := ⟨fun _ => "timer", fun _ => "entry", fun _ => "operation"⟩ }
    let c : CommandContext := { actor := none, level := .full }
    let x : TimerExecutor := { handlers := Transition.all, retryWait := ⟨1⟩ }
    let d : JobDefinition := ⟨"d", "order:1", "order", none, "message", .active⟩
    let failing : DeferredAction :=
      ⟨.epoch, .activate, (TimerConfiguration.mk ⟨.jobDefinitionId, "gone"⟩ false).encode⟩
    let suspending : DeferredAction :=
      ⟨.epoch, .suspend, (TimerConfiguration.mk ⟨.processDefinitionKey, "order"⟩ true).encode⟩
    let s : Stores := ((Stores.putDefinition {} d).addTimer "a" failing).addTimer "b" suspending
    let early (_ : Nat) : Instant := .epoch
    let late (_ : Nat) : Instant := ⟨20, 0, by decide⟩
    env.Reliable ∧ s.Undisturbed x ∧ 0 < x.retryWait.nanos ∧
      ∃ reports reports' s' s'',
        x.Drains env c .epoch 1 early s reports s' ∧ x.Drains env c .epoch 2 late s reports' s'' ∧
        reports.length = 3 ∧ reports'.length = 2 ∧ s'.definitions = s''.definitions ∧
        s'.jobs = s''.jobs ∧ s'.log.map LogEntry.undated = s''.log.map LogEntry.undated ∧
        (PassReport.total reports).executed = (PassReport.total reports').executed ∧
        (PassReport.total reports).failures = (PassReport.total reports').failures := by
  intro env c x d failing suspending s early late
  have henv : env.Reliable := ⟨fun _ => rfl, rfl⟩
  have hs : s.Undisturbed x := by
    have hd : (Stores.putDefinition {} d).Undisturbed x :=
      ⟨Stores.WellKeyed.empty.putDefinition d, fun k j hj => by cases hj⟩
    exact (hd.addTimer "a" failing).addTimer "b" suspending
  have hwait : 0 < x.retryWait.nanos := by decide
  have hretry : Instant.add? .epoch x.retryWait = some ⟨0, 1, by decide⟩ := by decide
  have hdue : (x.due .epoch s).length = 2 := by
    unfold TimerExecutor.due Job.allDue
    rw [List.length_mergeSort]
    simp +zetaDelta only
    decide +kernel
  obtain ⟨hends, hagree⟩ := draining_ignores_batch_size henv hs c hwait hretry
  obtain ⟨reports, s', hdrains, hcount⟩ := hends 1 early (Nat.le_refl 1)
  obtain ⟨reports', s'', hdrains', hcount'⟩ := hends 2 late (by decide)
  rw [hdue] at hcount hcount'
  exact ⟨henv, hs, hwait, reports, reports', s', s'', hdrains, hdrains', hcount, hcount',
    hagree 1 2 early late reports reports' s' s'' (by decide) (by decide) hdrains hdrains'⟩

end JobSuspension
