import JobSuspension.Proofs.Waiting

/-!
# Deferred changes in the order of their dates

Suspending and activating overlapping selections do not commute, so what a number of deferred
changes comes to depends on the order in which they fire.  That order is the order of their dates:
a pass takes the first due timers, and the timers a pass leaves behind are due later than those it
took, whenever it ran and however few it was allowed to take.

* `DatedCall`                  a change of job definitions with an execution date;
* `DatedCall.byDate calls`     the calls in the order of their dates;
* `Stores.FreshTimers s ids n` the ids of the next `n` timers are not in use and differ;
* `TimerExecutor.runPasses x env passes`   makes the passes, one after the other;
* `deferred_in_date_order`     scheduling in any order and firing by any passes comes to making the
                               changes at once in the order of their dates.
-/

namespace JobSuspension

/-! ## calls and passes -/

structure DatedCall where
  context : CommandContext
  transition : Transition
  selection : DefinitionSelection
  includeJobs : Bool
  date : Instant

namespace DatedCall

def later (x : DatedCall) : Command Unit :=
  setJobDefinitionState x.context x.transition ⟨x.selection, x.includeJobs, some x.date⟩

def atOnce (x : DatedCall) : Command Unit :=
  setJobDefinitionState x.context x.transition ⟨x.selection, x.includeJobs, none⟩

def byDate (calls : List DatedCall) : List DatedCall :=
  calls.mergeSort fun a b => a.date ≤ b.date

end DatedCall

structure Pass where
  now : Instant
  limit : Nat
  context : CommandContext

def TimerExecutor.runPasses (x : TimerExecutor) (env : Environment) :
    List Pass → Stores → List (Except PassError PassReport) × Stores
  | [], s => ([], s)
  | p :: passes, s =>
    let (outcome, s') := x.runPass env p.context p.now p.limit s
    let (outcomes, s'') := x.runPasses env passes s'
    (outcome :: outcomes, s'')

structure Stores.FreshTimers (s : Stores) (ids : IdSupply) (n : Nat) : Prop where
  unused : ∀ i < n, s.jobs.get? (ids.timer (s.timerCount + i)) = none
  distinct : ∀ i j, i < j → j < n →
    ids.timer (s.timerCount + i) ≠ ids.timer (s.timerCount + j)

/-! ## batches -/

theorem PassReport.ofSettlements_replicate (n : Nat) :
    PassReport.ofSettlements (List.replicate n .executed) = ⟨n, n, []⟩ := by
  have hcount : (List.replicate n Settlement.executed).countP Settlement.isExecuted = n := by
    rw [List.countP_replicate]
    rfl
  have hfailures : (List.replicate n Settlement.executed).filterMap Settlement.failure? = [] := by
    rw [List.filterMap_replicate]
    rfl
  rw [ofSettlements, List.length_replicate, hcount, hfailures]

/-- what holds of a member of an ordered list if it holds of a later one, holds of a first part -/
theorem filter_eq_take {α : Type} {r : α → α → Prop} {p : α → Bool} {l : List α}
    (h : l.Pairwise r) (hp : ∀ a b, r a b → p b = true → p a = true) :
    ∃ k, l.filter p = l.take k := by
  induction l with
  | nil => exact ⟨0, rfl⟩
  | cons a l ih =>
    obtain ⟨hfirst, hrest⟩ := List.pairwise_cons.mp h
    by_cases ha : p a = true
    · obtain ⟨k, hk⟩ := ih hrest
      exact ⟨k + 1, by rw [List.filter_cons_of_pos ha, hk, List.take_succ_cons]⟩
    · refine ⟨0, ?_⟩
      rw [List.take_zero, List.filter_cons_of_neg ha, List.filter_eq_nil_iff]
      exact fun b hb hpb => ha (hp a b (hfirst b hb) hpb)

/-! ## scheduling -/

theorem Stores.FreshTimers.next {s s' : Stores} {ids : IdSupply} {n : Nat}
    (h : s.FreshTimers ids (n + 1)) {y : Deferred} (hid : y.id = ids.timer s.timerCount)
    (hy : y.Scheduled s s') : s'.FreshTimers ids n := by
  have hcount (i : Nat) : s'.timerCount + i = s.timerCount + (i + 1) := by
    rw [hy.timerCount]
    omega
  refine ⟨fun i hi => ?_, fun i j hij hj => ?_⟩
  · have hne : ¬ y.id = ids.timer (s.timerCount + (i + 1)) := by
      rw [hid]
      exact h.distinct 0 (i + 1) (by omega) (by omega)
    rw [hcount, hy.jobs, Table.get?_insert, if_neg hne]
    exact h.unused (i + 1) (by omega)
  · rw [hcount, hcount]
    exact h.distinct (i + 1) (j + 1) (by omega) (by omega)

/-- `y` is the change that `x` puts off -/
structure DatedCall.PutsOff (x : DatedCall) (y : Deferred) : Prop where
  date : y.date = x.date
  transition : y.transition = x.transition
  includeJobs : y.includeJobs = x.includeJobs
  selector : x.selection.find? = some y.selector

namespace Waiting

variable {env env' : Environment} (henv : env.Reliable) (henv' : env'.Reliable)

include henv in
/-- every call is accepted, and its change waits with the others -/
theorem schedule_all (calls : List DatedCall) {ys : List Deferred} {b s : Stores}
    (h : Waiting ys b s) (hfresh : s.FreshTimers env.ids calls.length)
    (hselector : ∀ x ∈ calls, ∃ sel, x.selection.find? = some sel ∧ sel.FoundIn b) :
    ∃ changes : List (DatedCall × Deferred),
      changes.map Prod.fst = calls ∧ (∀ p ∈ changes, p.1.PutsOff p.2) ∧
      (Command.runAll env (calls.map DatedCall.later) s).1 =
        List.replicate calls.length (.ok ()) ∧
      Waiting (changes.map Prod.snd ++ ys) b
        (Command.runAll env (calls.map DatedCall.later) s).2 := by
  induction calls generalizing ys s with
  | nil => exact ⟨[], rfl, fun _ hp => absurd hp List.not_mem_nil, rfl, h⟩
  | cons x calls ih =>
    obtain ⟨sel, hx, hfound⟩ := hselector x List.mem_cons_self
    have hfound' : sel.FoundIn s := fun hk => h.definitions ▸ hfound hk
    let y : Deferred :=
      ⟨env.ids.timer s.timerCount, x.date, x.transition, sel, x.includeJobs⟩
    obtain ⟨s', hlater, hy⟩ : ∃ s', x.later.run env s = (.ok (), s') ∧ y.Scheduled s s' :=
      run_later x.context x.transition henv h.wellKeyed hx rfl
        (StateRequest.refusal?_eq_none hx hfound')
    have hnew := hfresh.unused 0 (Nat.succ_pos _)
    have hwaiting := h.scheduled hy hnew (DefinitionSelection.find?_eq_some hx).2 hfound
    obtain ⟨changes, hcalls, hputs, hok, hall⟩ :=
      ih hwaiting (hfresh.next rfl hy) fun x hx => hselector x (List.mem_cons_of_mem _ hx)
    refine ⟨(x, y) :: changes, by rw [List.map_cons, hcalls],
      List.forall_mem_cons.mpr ⟨⟨rfl, rfl, rfl, hx⟩, hputs⟩, ?_, ?_⟩
    · simp only [List.map_cons, Command.runAll, hlater, hok, List.length_cons, List.replicate_succ]
    · simp only [List.map_cons, Command.runAll, hlater]
      exact hall.perm List.perm_middle

/-! ## firing -/

include henv' in
theorem run_atOnce {x : DatedCall} {y : Deferred} (hxy : x.PutsOff y) {b : Stores}
    (hb : b.WellKeyed) (hfound : y.selector.FoundIn b) :
    ∃ b', x.atOnce.run env' b = (.ok (), b') ∧ y.Done x.context b b' := by
  unfold DatedCall.atOnce
  rw [← hxy.transition, ← hxy.includeJobs]
  exact y.run_request henv' hb x.context hxy.selector
    (StateRequest.refusal?_eq_none hxy.selector hfound)

variable {x : TimerExecutor} (hhandlers : ∀ t, t ∈ x.handlers)
include henv henv' hhandlers

/-- the first changes are settled, one after the other, as they would be made at once -/
theorem settle_all (c : CommandContext) (now : Instant) (done : List (DatedCall × Deferred))
    (hputs : ∀ p ∈ done, p.1.PutsOff p.2) {rest : List Deferred} {b s : Stores}
    (h : Waiting (done.map Prod.snd ++ rest) b s) :
    ∃ s', x.settleAll env c now (done.map fun p => p.2.timer) s =
        (.ok (List.replicate done.length .executed), s') ∧
      (Command.runAll env' (done.map fun p => p.1.atOnce) b).1 =
        List.replicate done.length (.ok ()) ∧
      Waiting rest (Command.runAll env' (done.map fun p => p.1.atOnce) b).2 s' := by
  induction done generalizing b s with
  | nil => exact ⟨s, rfl, rfl, h⟩
  | cons p done ih =>
    obtain ⟨hp, hputs⟩ := List.forall_mem_cons.mp hputs
    rw [List.map_cons, List.cons_append] at h
    have hfound := h.found p.2 List.mem_cons_self
    have hv := h.resolved p.2 List.mem_cons_self
    obtain ⟨b', hatonce, hb⟩ := run_atOnce henv' hp h.base hfound
    have hrefusal : p.2.request.refusal? s c = none :=
      StateRequest.refusal?_eq_none (DefinitionSelector.find?_toSelection hv)
        fun hk => h.definitions ▸ hfound hk
    obtain ⟨s₁, hs, hsettle⟩ := TimerExecutor.settle_executed henv h.wellKeyed c now
      (hhandlers _) hv (h.timers p.2 List.mem_cons_self) hrefusal
    obtain ⟨s', hall, hok, hrest⟩ := ih hputs (h.fired hb hs)
    refine ⟨s', ?_, ?_, ?_⟩
    · simp only [List.map_cons, TimerExecutor.settleAll, hsettle, hall, List.length_cons,
        List.replicate_succ]
    · simp only [List.map_cons, Command.runAll, hatonce, hok, List.length_cons,
        List.replicate_succ]
    · simp only [List.map_cons, Command.runAll, hatonce]
      exact hrest

/-- a pass makes the first changes and leaves the others waiting -/
theorem runPass (c : CommandContext) (now : Instant) {changes : List (DatedCall × Deferred)}
    (hputs : ∀ p ∈ changes, p.1.PutsOff p.2)
    (hsorted : (changes.map Prod.snd).Pairwise (·.date < ·.date)) {limit : Nat}
    (hlimit : 1 ≤ limit) {b s : Stores} (h : Waiting (changes.map Prod.snd) b s) :
    ∃ done rest s', changes = done ++ rest ∧
      x.runPass env c now limit s = (.ok ⟨done.length, done.length, []⟩, s') ∧
      (Command.runAll env' (done.map fun p => p.1.atOnce) b).1 =
        List.replicate done.length (.ok ()) ∧
      Waiting (rest.map Prod.snd) (Command.runAll env' (done.map fun p => p.1.atOnce) b).2 s' := by
  obtain ⟨k, hk⟩ : ∃ k, (changes.map Prod.snd).filter (·.date ≤ now) =
      (changes.map Prod.snd).take k :=
    filter_eq_take hsorted fun y z hyz hz => by
      rw [decide_eq_true_eq] at hz ⊢
      exact Instant.le_trans (Instant.le_of_lt hyz) hz
  have hothers : ∀ k j, s.jobs.get? k = some j → k ∉ (changes.map Prod.snd).map Deferred.id →
      Job.isWanted x.handlerTypes now j = false := by
    intro k j hj hk
    rw [h.others k hk] at hj
    exact TimerExecutor.not_isWanted fun _ => h.quiet k j hj
  have hacquire := TimerExecutor.acquire_pending henv h.wellKeyed (changes.map Prod.snd) h.ids
    hsorted (fun y _ => hhandlers _) h.timers hothers hlimit
  rw [hk, List.take_take, ← List.map_take, List.map_map] at hacquire
  generalize min limit k = m at hacquire
  have hsplit : changes.map Prod.snd =
      (changes.take m).map Prod.snd ++ (changes.drop m).map Prod.snd := by
    rw [← List.map_append, List.take_append_drop]
  obtain ⟨s', hall, hok, hrest⟩ := settle_all henv henv' hhandlers c now
    (changes.take m) (fun p hp => hputs p (List.mem_of_mem_take hp)) (hsplit ▸ h)
  refine ⟨changes.take m, changes.drop m, s', (List.take_append_drop m changes).symm, ?_, hok,
    hrest⟩
  have hall' : x.settleAll env c now ((changes.take m).map (Deferred.timer ∘ Prod.snd)) s =
      (.ok (List.replicate (changes.take m).length .executed), s') := hall
  simp only [TimerExecutor.runPass, hacquire, hall', PassReport.ofSettlements_replicate]

theorem runPasses (passes : List Pass) {changes : List (DatedCall × Deferred)}
    (hputs : ∀ p ∈ changes, p.1.PutsOff p.2)
    (hsorted : (changes.map Prod.snd).Pairwise (·.date < ·.date))
    (hlimits : ∀ p ∈ passes, 1 ≤ p.limit) {b s : Stores}
    (h : Waiting (changes.map Prod.snd) b s) :
    ∃ done rest, changes = done ++ rest ∧
      (∀ o ∈ (x.runPasses env passes s).1, ∃ r, o = .ok r ∧ r.failures = []) ∧
      (Command.runAll env' (done.map fun p => p.1.atOnce) b).1 =
        List.replicate done.length (.ok ()) ∧
      Waiting (rest.map Prod.snd) (Command.runAll env' (done.map fun p => p.1.atOnce) b).2
        (x.runPasses env passes s).2 := by
  induction passes generalizing changes b s with
  | nil => exact ⟨[], changes, rfl, fun o ho => absurd ho List.not_mem_nil, rfl, h⟩
  | cons p passes ih =>
    obtain ⟨hlimit, hlimits⟩ := List.forall_mem_cons.mp hlimits
    obtain ⟨first, others, s', rfl, hpass, hok, hothers⟩ :=
      runPass henv henv' hhandlers p.context p.now hputs hsorted hlimit h
    rw [List.map_append] at hsorted
    obtain ⟨done, rest, rfl, hpasses, hok', hrest⟩ :=
      ih (fun q hq => hputs q (List.mem_append_right _ hq)) (List.pairwise_append.mp hsorted).2.1
        hlimits hothers
    refine ⟨first ++ done, rest, (List.append_assoc _ _ _).symm, ?_, ?_, ?_⟩
    · simp only [TimerExecutor.runPasses, hpass]
      exact List.forall_mem_cons.mpr ⟨⟨_, rfl, rfl⟩, hpasses⟩
    · rw [List.map_append, Command.runAll_append, List.length_append, List.replicate_add]
      exact congrArg₂ (· ++ ·) hok hok'
    · rw [List.map_append, Command.runAll_append]
      simp only [TimerExecutor.runPasses, hpass]
      exact hrest

end Waiting

/-! ## the order of the dates -/

theorem DatedCall.byDate_map {changes : List (DatedCall × Deferred)}
    (hputs : ∀ p ∈ changes, p.1.PutsOff p.2) :
    (changes.mergeSort fun p q => p.2.date ≤ q.2.date).map Prod.fst =
      byDate (changes.map Prod.fst) := by
  refine List.map_mergeSort fun p hp q hq => ?_
  rw [(hputs p hp).date, (hputs q hq).date]

theorem Deferred.pairwise_mergeSort (changes : List (DatedCall × Deferred))
    (hdates : (changes.map fun p => p.2.date).Nodup) :
    ((changes.mergeSort fun p q => p.2.date ≤ q.2.date).map Prod.snd).Pairwise
      (·.date < ·.date) := by
  rw [List.pairwise_map]
  have hle : (changes.mergeSort fun p q => p.2.date ≤ q.2.date).Pairwise
      fun p q => decide (p.2.date ≤ q.2.date) = true := by
    refine List.pairwise_mergeSort (fun p q r hpq hqr => ?_) (fun p q => ?_) changes
    · rw [decide_eq_true_eq] at *
      exact Instant.le_trans hpq hqr
    · rw [Bool.or_eq_true, decide_eq_true_eq, decide_eq_true_eq]
      exact Instant.le_total _ _
  have hne : (changes.mergeSort fun p q => p.2.date ≤ q.2.date).Pairwise
      fun p q => p.2.date ≠ q.2.date := by
    have hnodup := ((List.mergeSort_perm changes fun p q => p.2.date ≤ q.2.date).map
      fun p => p.2.date).symm.nodup hdates
    exact List.pairwise_map.mp hnodup
  refine (hle.and hne).imp fun {p q} h => ?_
  exact Instant.lt_of_le_of_ne (of_decide_eq_true h.1) h.2

/-- **Deferred changes take effect in the order of their dates**, whatever order they were requested
in.  Every request is accepted and no pass reports a failure; and once no timer of a change is left,
the records are those that the same requests would have left if they had been made at once, in the
order of their dates. -/
theorem deferred_in_date_order {env env' : Environment} (henv : env.Reliable)
    (henv' : env'.Reliable) {s : Stores} (hs : s.WellKeyed) (hquiet : s.Quiet)
    (calls : List DatedCall) (hdates : (calls.map DatedCall.date).Nodup)
    (hselector : ∀ x ∈ calls, ∃ sel, x.selection.find? = some sel ∧ sel.FoundIn s)
    (hfresh : s.FreshTimers env.ids calls.length) {x : TimerExecutor}
    (hhandlers : ∀ t, t ∈ x.handlers) (passes : List Pass) (hlimits : ∀ p ∈ passes, 1 ≤ p.limit) :
    let scheduled := Command.runAll env (calls.map DatedCall.later) s
    let fired := x.runPasses env passes scheduled.2
    let ordered := Command.runAll env' ((DatedCall.byDate calls).map DatedCall.atOnce) s
    (∀ o ∈ scheduled.1, o = .ok ()) ∧
      (∀ o ∈ fired.1, ∃ r, o = .ok r ∧ r.failures = []) ∧
      (fired.2.Quiet → (∀ o ∈ ordered.1, o = .ok ()) ∧
        fired.2.definitions = ordered.2.definitions ∧ fired.2.jobs = ordered.2.jobs ∧
        fired.2.processInstances = ordered.2.processInstances) := by
  intro scheduled fired ordered
  obtain ⟨changes, rfl, hputs, hok, hwaiting⟩ :=
    (Waiting.nil hs hquiet).schedule_all henv calls hfresh hselector
  rw [List.append_nil] at hwaiting
  have hperm := List.mergeSort_perm changes fun p q => p.2.date ≤ q.2.date
  have hsorted := Deferred.pairwise_mergeSort changes (by
    rw [List.map_map] at hdates
    rw [List.map_congr_left fun p hp => (hputs p hp).date]
    exact hdates)
  have horder := DatedCall.byDate_map hputs
  obtain ⟨done, rest, hsplit, hpasses, hok', hrest⟩ :=
    (hwaiting.perm (hperm.symm.map Prod.snd)).runPasses henv henv' hhandlers passes
      (fun p hp => hputs p (hperm.mem_iff.mp hp)) hsorted hlimits
  refine ⟨fun o ho => ?_, hpasses, fun hq => ?_⟩
  · rw [show scheduled.1 = _ from hok] at ho
    exact List.eq_of_mem_replicate ho
  · obtain rfl : rest = [] := List.map_eq_nil_iff.mp (hrest.eq_nil_of_quiet hq)
    rw [List.append_nil] at hsplit
    have hdone : Command.runAll env' (done.map fun p => p.1.atOnce) s = ordered := by
      show _ = Command.runAll env' ((DatedCall.byDate _).map DatedCall.atOnce) s
      rw [← horder, hsplit, List.map_map]
      rfl
    rw [hdone] at hok' hrest
    refine ⟨fun o ho => ?_, hrest.definitions, hrest.eq_of_nil, hrest.processInstances⟩
    rw [hok'] at ho
    exact List.eq_of_mem_replicate ho

/-- suspending later, asked for first, and activating earlier, asked for second -/
theorem deferred_in_date_order_reversed :
    let env : Environment :=
      { ids := ⟨fun n => if n = 0 then "a" else "b", fun _ => "entry", fun _ => "operation"⟩ }
    let c : CommandContext := { actor := none, level := .full }
    let d : JobDefinition := ⟨"d", "order:1", "order", none, "message", .active⟩
    let s : Stores := Stores.putDefinition {} d
    let late : DatedCall :=
      ⟨c, .suspend, { processDefinitionKey := some "order" }, false, ⟨20, 0, by decide⟩⟩
    let early : DatedCall :=
      ⟨c, .activate, { jobDefinitionId := some "d" }, false, ⟨10, 0, by decide⟩⟩
    let passes : List Pass := [⟨⟨15, 0, by decide⟩, 1, c⟩, ⟨⟨25, 0, by decide⟩, 1, c⟩]
    let fired := TimerExecutor.runPasses ⟨Transition.all, .ofMillis 10000⟩ env passes
      (Command.runAll env [late.later, early.later] s).2
    env.Reliable ∧ s.WellKeyed ∧ fired.2.Quiet ∧
      (∀ o ∈ fired.1, ∃ r, o = .ok r ∧ r.failures = []) ∧
      fired.2.definitions.get? "d" = some { d with state := .suspended } := by
  intro env c d s late early passes fired
  have henv : env.Reliable := ⟨fun _ => rfl, rfl⟩
  have hs : s.WellKeyed := Stores.WellKeyed.empty.putDefinition d
  have hquiet : fired.2.Quiet := by
    have hempty : fired.2.jobs.entries.isEmpty = true := by
      simp +zetaDelta only
      decide +kernel
    intro k j hj
    rw [Table.get?, List.isEmpty_iff.mp hempty] at hj
    cases hj
  have horder : DatedCall.byDate [late, early] = [early, late] := by
    unfold DatedCall.byDate
    have hlt : ¬ late.date ≤ early.date := by decide
    simp [List.mergeSort, List.MergeSort.Internal.splitInTwo, hlt]
  have hfresh : s.FreshTimers env.ids 2 := by
    refine ⟨fun i _ => rfl, fun i j hij hj => ?_⟩
    obtain ⟨rfl, rfl⟩ : i = 0 ∧ j = 1 := by omega
    decide
  have hselector : ∀ x ∈ [late, early], ∃ sel, x.selection.find? = some sel ∧ sel.FoundIn s := by
    refine List.forall_mem_cons.mpr ⟨⟨⟨.processDefinitionKey, "order"⟩, rfl, ?_⟩,
      List.forall_mem_singleton.mpr ⟨⟨.jobDefinitionId, "d"⟩, rfl, ?_⟩⟩
    · intro hk
      cases hk
    · exact fun _ => Option.some_ne_none d
  obtain ⟨-, hpasses, hdone⟩ := deferred_in_date_order henv henv hs (fun k j hj => by cases hj)
    [late, early] (by decide) hselector hfresh (x := ⟨Transition.all, .ofMillis 10000⟩)
    (fun t => by cases t <;> decide) passes (by decide)
  have hdefs : fired.2.definitions = _ := (hdone hquiet).2.1
  refine ⟨henv, hs, hquiet, hpasses, ?_⟩
  rw [hdefs, horder]
  rfl

end JobSuspension
