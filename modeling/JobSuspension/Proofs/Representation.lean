import JobSuspension.Proofs.Blanks
import JobSuspension.Proofs.ByteOrder
import JobSuspension.Proofs.Runs

/-!
# What can be in the stores

A record is checked before it is stored, and what changes it later changes neither its id nor any
other identifier.  So whatever was done to an engine, and however much of it failed, its records are
in order and listed as they should be.

* `Text.HasContent s`, `Text.Trimmed s`   not only blanks; no blanks at the ends;
* `JobDefinition.WellFormed d`, `Job.Named j`   what is checked of a record;
* `Call.SavesChecked c`           a job definition is saved only if it was made from a draft;
* `Stores.Sound s`                what is kept by every call;
* `Stores.Reachable s`            the stores that steps lead to;
* `Stores.ListsById f t l`        `l` has every record of `t` once, by the bytes of its id;
* `reachable_stores_sound`        all of them.
-/

namespace JobSuspension

/-! ## texts -/

namespace Text

/-- some character is not a blank -/
def HasContent (s : String) : Prop := ∃ ch ∈ s.toList, isBlankChar ch = false

theorem isBlank_eq_false {s : String} : isBlank s = false ↔ HasContent s := by
  rw [isBlank, List.all_eq_false]
  exact exists_congr fun ch => and_congr_right fun _ => .of_eq (Bool.not_eq_true _)

/-- neither the first character is a blank nor the last one -/
structure Trimmed (s : String) : Prop where
  first : ∃ ch cs, s.toList = ch :: cs ∧ isBlankChar ch = false
  last : ∃ cs ch, s.toList = cs ++ [ch] ∧ isBlankChar ch = false

theorem trimmed_iff_strips {s : String} : Trimmed s ↔ s ≠ "" ∧ Strips s.toList s.toList := by
  rw [strips_self]
  constructor
  · rintro ⟨⟨first, cs, hfirst, hfirst'⟩, cs', last, hlast, hlast'⟩
    refine ⟨fun hs => ?_, fun ch hch => ?_, fun ch hch => ?_⟩
    · rw [hs] at hfirst
      cases hfirst
    · rw [hfirst] at hch
      cases hch
      exact isBlankChar_eq_false.mp hfirst'
    · rw [hlast, List.getLast?_concat] at hch
      cases hch
      exact isBlankChar_eq_false.mp hlast'
  · rintro ⟨hne, hfirst, hlast⟩
    have hne' : s.toList ≠ [] := fun h => hne (String.toList_eq_nil_iff.mp h)
    obtain ⟨first, cs, hcs⟩ := List.exists_cons_of_ne_nil hne'
    refine ⟨⟨first, cs, hcs, isBlankChar_eq_false.mpr (hfirst first ?_)⟩, s.toList.dropLast,
      s.toList.getLast hne', (List.dropLast_concat_getLast hne').symm,
      isBlankChar_eq_false.mpr (hlast _ (List.getLast?_eq_some_getLast hne'))⟩
    rw [hcs]
    rfl

theorem trimmed_of_trimmed? {v : Option String} {s : String} (h : trimmed? v = some s) :
    Trimmed s := by
  cases trimmed?_eq_iff.mp h with
  | stripped hv hs hne => exact trimmed_iff_strips.mpr ⟨hne, strips_self.mpr ⟨hs.first, hs.last⟩⟩

theorem Trimmed.trimmed?_eq {s : String} (h : Trimmed s) : trimmed? (some s) = some s := by
  obtain ⟨hne, hs⟩ := trimmed_iff_strips.mp h
  exact trimmed?_eq_iff.mpr (.stripped rfl hs hne)

end Text

/-! ## records -/

structure JobDefinition.WellFormed (d : JobDefinition) : Prop where
  id : Text.HasContent d.id
  processDefinitionId : Text.HasContent d.processDefinitionId
  processDefinitionKey : Text.HasContent d.processDefinitionKey
  jobType : Text.HasContent d.jobType
  activityId : ∀ a, d.activityId = some a → Text.Trimmed a

theorem Text.required_eq_ok {s t : String} (h : Text.required s = .ok t) :
    t = s ∧ Text.isBlank s = false := by
  unfold required at h
  split at h
  · cases h
  · next hs => exact ⟨(Except.ok.inj h).symm, Bool.eq_false_of_not_eq_true hs⟩

theorem JobDefinition.wellFormed_of_ofDraft {draft : Draft} {d : JobDefinition}
    (h : ofDraft draft = .ok d) : d.WellFormed := by
  have hrequired {s t : String} (h : Text.required s = .ok t) : Text.HasContent t := by
    obtain ⟨rfl, hs⟩ := Text.required_eq_ok h
    exact Text.isBlank_eq_false.mp hs
  obtain ⟨id, hid, h⟩ := EngineError.bind_eq_ok.mp h
  obtain ⟨processDefinitionId, hprocess, h⟩ := EngineError.bind_eq_ok.mp h
  obtain ⟨processDefinitionKey, hkey, h⟩ := EngineError.bind_eq_ok.mp h
  obtain ⟨jobType, htype, h⟩ := EngineError.bind_eq_ok.mp h
  cases h
  exact ⟨hrequired hid, hrequired hprocess, hrequired hkey, hrequired htype,
    fun a ha => Text.trimmed_of_trimmed? ha⟩

structure Job.Named (j : Job) : Prop where
  id : Text.HasContent j.id
  handlerType : Text.HasContent j.handlerType

theorem Job.named_of_validate {j : Job} (h : j.validate = .ok ()) : j.Named := by
  unfold validate at h
  split at h
  · cases h
  · next hid =>
    split at h
    · cases h
    · next htype =>
      exact ⟨Text.isBlank_eq_false.mp (Bool.eq_false_of_not_eq_true hid),
        Text.isBlank_eq_false.mp (Bool.eq_false_of_not_eq_true htype)⟩

theorem DeferredAction.named_toJob (a : DeferredAction) {id : String} (hid : Text.HasContent id) :
    (a.toJob id).Named := by
  refine ⟨hid, Text.isBlank_eq_false.mp ?_⟩
  show Text.isBlank a.transition.handlerType = false
  cases a.transition <;> decide

/-! ## calls -/

/-- a job definition is saved only if it was made from a draft -/
def Call.SavesChecked : Call → Prop
  | saveJobDefinition d => ∃ draft, JobDefinition.ofDraft draft = .ok d
  | _ => True

theorem Call.OfChange.savesChecked {c : Call} (h : c.OfChange) : c.SavesChecked := by
  cases c <;> first | exact h.elim | trivial

theorem Call.OfSettling.savesChecked {id : String} {c : Call} (h : c.OfSettling id) :
    c.SavesChecked := by
  cases h with
  | handle h => exact h.ofChange.savesChecked
  | delete => trivial
  | recordFailure => trivial

theorem Call.validate_of_saveJob {env : Environment} {j : Job} {s s' : Stores} {r : Unit}
    (h : (saveJob j).perform env s = .ok (r, s')) : j.validate = .ok () := by
  simp only [perform] at h
  cases hvalidate : j.validate with
  | error e => rw [hvalidate] at h; cases h
  | ok _ => rfl

/-- ids given out for timers are no blanks -/
def IdSupply.Named (ids : IdSupply) : Prop := ∀ n, Text.HasContent (ids.timer n)

/-! ## stores -/

/-- every record has the property -/
def Table.Every {α : Type} (P : α → Prop) (t : Table α) : Prop := ∀ k a, t.get? k = some a → P a

namespace Table.Every

variable {α : Type} {P : α → Prop} {t : Table α}

theorem insert (h : t.Every P) {a : α} (ha : P a) (k : String) : (t.insert k a).Every P := by
  intro k' b hb
  rw [get?_insert] at hb
  split at hb
  · exact Option.some.inj hb ▸ ha
  · exact h k' b hb

theorem erase (h : t.Every P) (k : String) : (t.erase k).Every P := by
  intro k' b hb
  rw [get?_erase] at hb
  split at hb
  · cases hb
  · exact h k' b hb

theorem map (h : t.Every P) {f : α → α} (hf : ∀ a, P a → P (f a)) : (t.map f).Every P := by
  intro k b hb
  rw [get?_map] at hb
  obtain ⟨a, ha, rfl⟩ := Option.map_eq_some_iff.mp hb
  exact hf a (h k a ha)

end Table.Every

namespace Stores

structure Sound (s : Stores) : Prop where
  wellKeyed : s.WellKeyed
  definitions : s.definitions.Every JobDefinition.WellFormed
  jobs : s.jobs.Every Job.Named

namespace Sound

theorem empty : Sound {} :=
  ⟨WellKeyed.empty, fun _ _ h => (Option.some_ne_none _ h.symm).elim,
    fun _ _ h => (Option.some_ne_none _ h.symm).elim⟩

/-- a state is no identifier -/
theorem setJobs {s : Stores} (h : s.jobs.Every Job.Named) (p : Job → Bool)
    (state : SuspensionState) : (s.setJobs p state).jobs.Every Job.Named :=
  h.map fun j hj => by split <;> exact ⟨hj.id, hj.handlerType⟩

theorem keepsOn {env : Environment} (hids : env.ids.Named) :
    env.KeepsOn Call.SavesChecked fun s s' => s.Sound → s'.Sound where
  refl := fun _ => id
  trans := fun h h' => h' ∘ h
  call := by
    intro c hc s s' r hperform hs
    have hkeyed := ((Later.keeps env).call c hperform).wellKeyed hs.wellKeyed
    cases c.effect hperform with
    | none h => exact ⟨hkeyed, h.definitions ▸ hs.definitions, h.jobs ▸ hs.jobs⟩
    | saveJobDefinition d =>
      obtain ⟨draft, hd⟩ := hc
      exact ⟨hkeyed, hs.definitions.insert (JobDefinition.wellFormed_of_ofDraft hd) _, hs.jobs⟩
    | updateDefinitions selector state =>
      refine ⟨hkeyed, hs.definitions.map fun d hd => ?_, hs.jobs⟩
      split
      · exact ⟨hd.id, hd.processDefinitionId, hd.processDefinitionKey, hd.jobType, hd.activityId⟩
      · exact hd
    | saveJob j =>
      have hj := Job.named_of_validate (Call.validate_of_saveJob hperform)
      exact ⟨hkeyed, hs.definitions, hs.jobs.insert hj _⟩
    | updateStartTimers selector state => exact ⟨hkeyed, hs.definitions, setJobs hs.jobs _ state⟩
    | updateJobs selector state => exact ⟨hkeyed, hs.definitions, setJobs hs.jobs _ state⟩
    | scheduleTimer action =>
      exact ⟨hkeyed, hs.definitions, hs.jobs.insert (action.named_toJob (hids _)) _⟩
    | deleteJob id => exact ⟨hkeyed, hs.definitions, hs.jobs.erase id⟩
    | @recordJobFailure id message retryAt j hj =>
      obtain ⟨hid, htype⟩ := hs.jobs id j hj
      have hnamed : (j.withFailure message retryAt).Named := ⟨hid, htype⟩
      exact ⟨hkeyed, hs.definitions, hs.jobs.insert hnamed id⟩

theorem putProcessInstance {s : Stores} (h : s.Sound) (p : ProcessInstance) :
    (s.putProcessInstance p).Sound :=
  ⟨⟨h.wellKeyed.definitions, h.wellKeyed.jobs, h.wellKeyed.processInstances.insert rfl⟩,
    h.definitions, h.jobs⟩

theorem putProcessInstances {s : Stores} (h : s.Sound) (l : List ProcessInstance) :
    (l.foldl Stores.putProcessInstance s).Sound := by
  induction l generalizing s with
  | nil => exact h
  | cons p l ih => exact ih (h.putProcessInstance p)

end Sound
end Stores

/-! ## seeds -/

namespace EngineSeed

/-- every answer of a list of checks -/
theorem exists_of_mem_mapM {α β : Type} {f : α → Except EngineError β} {l : List α} {bs : List β}
    (h : l.mapM f = .ok bs) {b : β} (hb : b ∈ bs) : ∃ a ∈ l, f a = .ok b := by
  induction l generalizing bs with
  | nil =>
    cases h
    exact absurd hb List.not_mem_nil
  | cons a l ih =>
    rw [List.mapM_cons] at h
    cases ha : f a with
    | error e => rw [ha] at h; cases h
    | ok b' =>
      cases hl : l.mapM f with
      | error e => rw [ha, hl] at h; cases h
      | ok bs' =>
        rw [ha, hl] at h
        cases h
        rcases List.mem_cons.mp hb with rfl | hb
        · exact ⟨a, List.mem_cons_self, ha⟩
        · obtain ⟨a', ha', hf⟩ := ih hl hb
          exact ⟨a', List.mem_cons_of_mem _ ha', hf⟩

theorem exists_of_mem_checked {x : EngineSeed} {definitions : List JobDefinition}
    (h : x.checked = .ok definitions) {d : JobDefinition} (hd : d ∈ definitions) :
    ∃ draft, JobDefinition.ofDraft draft = .ok d := by
  unfold checked at h
  cases hdefinitions : x.definitions.mapM JobDefinition.ofDraft with
  | error e => rw [hdefinitions] at h; cases h
  | ok l =>
    cases hjobs : x.jobs.forM Job.validate with
    | error e => rw [hdefinitions, hjobs] at h; cases h
    | ok _ =>
      rw [hdefinitions, hjobs] at h
      cases h
      obtain ⟨draft, -, hdraft⟩ := exists_of_mem_mapM hdefinitions hd
      exact ⟨draft, hdraft⟩

theorem sound_apply {env : Environment} (hids : env.ids.Named) {s : Stores} (hs : s.Sound)
    (x : EngineSeed) : (x.apply env s).2.Sound := by
  unfold apply
  cases hchecked : x.checked with
  | error e => exact hs
  | ok definitions =>
    have hsaved := (Stores.Sound.keepsOn hids).run (asks_saveAll
      (fun d hd => exists_of_mem_checked hchecked hd) fun _ (_ : _ ∈ x.jobs) => trivial) s hs
    simp only
    split
    · next heq =>
      rw [heq] at hsaved
      exact hsaved
    · next heq =>
      rw [heq] at hsaved
      exact hsaved.putProcessInstances _

end EngineSeed

/-! ## steps -/

/-- the only step that can save an unchecked job definition is a single call -/
def EngineStep.SavesChecked : EngineStep → Prop
  | call c => c.SavesChecked
  | _ => True

theorem EngineStep.sound_run {env : Environment} (hids : env.ids.Named) {e : EngineStep}
    (he : e.SavesChecked) {s : Stores} (hs : s.Sound) : (e.run env s).2.Sound := by
  have hkeeps := Stores.Sound.keepsOn hids
  cases e with
  | definitions c t request =>
    exact hkeeps.run (asks_setJobDefinitionState (fun _ h => h.ofChange.savesChecked) c t
      fun _ _ => trivial) s hs
  | jobs c t selection operationId =>
    exact hkeeps.run ((asks_setJobState c t selection operationId).mono
      fun _ h => h.savesChecked) s hs
  | pass x c now limit =>
    exact hkeeps.runPass x c now (fun _ => trivial) (fun _ _ h => h.savesChecked) s hs
  | call c => exact hkeeps.run (Command.asks_call he) s hs
  | seed x => exact x.sound_apply hids hs

/-- the stores that steps lead to, each step in an environment of its own -/
inductive Stores.Reachable : Stores → Prop where
  | empty : Reachable {}
  | step {s : Stores} (h : s.Reachable) (env : Environment) (hids : env.ids.Named) (e : EngineStep)
      (he : e.SavesChecked) : Reachable (e.run env s).2
  | saveProcessInstance {s : Stores} (h : s.Reachable) (p : ProcessInstance) :
      Reachable (s.putProcessInstance p)

theorem Stores.Reachable.sound {s : Stores} (h : s.Reachable) : s.Sound := by
  induction h with
  | empty => exact .empty
  | step h env hids e he ih => exact e.sound_run hids he ih
  | saveProcessInstance h p ih => exact ih.putProcessInstance p

/-! ## listings -/

section
variable {α : Type} [DecidableEq α]

/-- `l` lists the table by the ids `f`, in the order of their bytes -/
structure Table.ListedBy (f : α → String) (t : Table α) (l : List α) : Prop where
  sorted : l.Pairwise fun a b => Text.bytes (f a) < Text.bytes (f b)
  once : ∀ a, l.count a = if t.get? (f a) = some a then 1 else 0

theorem Table.KeyedBy.listedBy {f : α → String} {t : Table α} (h : t.KeyedBy f) :
    t.ListedBy f (t.values.mergeSort fun a b => f a ≤ f b) := by
  have hperm := List.mergeSort_perm t.values fun a b => f a ≤ f b
  have hids : ((t.values.mergeSort fun a b => f a ≤ f b).map f).Nodup :=
    (hperm.map f).nodup_iff.mpr (h.map_values ▸ t.nodup_keys)
  refine ⟨?_, fun a => ?_⟩
  · have hle : (t.values.mergeSort fun a b => f a ≤ f b).Pairwise fun a b =>
        decide (f a ≤ f b) = true := by
      refine List.pairwise_mergeSort (fun a b c hab hbc => ?_) (fun a b => ?_) _
      · exact decide_eq_true (le_trans (of_decide_eq_true hab) (of_decide_eq_true hbc))
      · simpa using le_total (f a) (f b)
    refine (hle.and (List.pairwise_map.mp hids)).imp fun hab => ?_
    exact Text.bytes_lt_bytes.mpr (lt_of_le_of_ne (of_decide_eq_true hab.1) hab.2)
  · have hmem : a ∈ t.values ↔ t.get? (f a) = some a := by
      rw [mem_values]
      refine ⟨?_, fun ha => ⟨f a, ha⟩⟩
      rintro ⟨k, hk⟩
      rw [h k a hk]
      exact hk
    rw [(hids.of_map f).count]
    simp only [List.mem_mergeSort, hmem]

end

/-- **Whatever was done, the stores are sound.**  Every record is stored under its own id, has all
its identifiers, and is listed once, in the order of the bytes of the ids. -/
theorem reachable_stores_sound {s : Stores} (h : s.Reachable) :
    s.Sound ∧ s.definitions.ListedBy JobDefinition.id s.listDefinitions ∧
      s.jobs.ListedBy Job.id s.listJobs :=
  ⟨h.sound, h.sound.wellKeyed.definitions.listedBy, h.sound.wellKeyed.jobs.listedBy⟩

/-- a seed that cannot save its job; its job definition stays, and the job is saved later -/
theorem reachable_stores_sound_seed :
    let env : Environment := { ids := ⟨fun _ => "timer", fun _ => "entry", fun _ => "operation"⟩ }
    let broken : Environment :=
      { env with fault := fun k => if k = .saveJob then some .zeroBatch else none }
    let draft : JobDefinition.Draft := ⟨"d", "order:1", "order", some " pay ", "message", .active⟩
    let j : Job := { id := "j", handlerType := "message" }
    let s := ((EngineStep.seed ⟨[draft], [j], []⟩).run broken {}).2
    let s' := ((EngineStep.call (.saveJob j)).run env s).2
    s'.Reachable ∧ s'.Sound ∧ s'.jobs.ListedBy Job.id s'.listJobs ∧ s.jobs.get? "j" = none ∧
      (s'.definitions.get? "d").bind JobDefinition.activityId = some "pay" ∧
      s'.jobs.get? "j" = some j := by
  intro env broken draft j s s'
  have hids : env.ids.Named := fun _ => ⟨'t', (by decide : 't' ∈ "timer".toList), rfl⟩
  have hs : s.Reachable := .step .empty broken hids _ trivial
  have hs' : s'.Reachable := .step hs env hids _ trivial
  obtain ⟨hsound, -, hjobs⟩ := reachable_stores_sound hs'
  have hrun : s.jobs.get? "j" = none ∧
      (s'.definitions.get? "d").bind JobDefinition.activityId = some "pay" ∧
      s'.jobs.get? "j" = some j := by
    simp +zetaDelta only
    decide +kernel
  exact ⟨hs', hsound, hjobs, hrun⟩

end JobSuspension
