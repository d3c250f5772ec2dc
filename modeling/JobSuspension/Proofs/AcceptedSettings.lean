import Mathlib.Algebra.Order.Ring.Nat
import Mathlib.Tactic.NormNum
import JobSuspension.Proofs.Blanks
import JobSuspension.Proofs.Numerals
import JobSuspension.Worker.Settings

/-!
# Which settings are accepted

What the variables of a worker have to say, without reading them: a level by its name, numbers other
than zero of at most sixty-four bits, texts without the blanks around them.  Settings are refused
for the first of seven checks that fails, and all numbers are read before one is refused for being
zero.

* `Settings.TellsLevel s l`, `Settings.TellsNumber s n`   what a text says;
* `Settings.Holds v d tells a`      a setting has its default, or what its variable tells;
* `Settings.Accepts lookup workerId x`   the variables say `x`;
* `Check.Fails lookup e`, `FirstFailure lookup e cs`   a check fails, and none before it does;
* `level?_eq_ok`, `number_eq_ok` and `..._eq_error`    single settings;
* `bind_eq_error`                   one step of reading, and the check it makes;
* `settings_accepted_when_valid`    all settings.
-/

namespace JobSuspension
namespace Settings

/-! ## what a text says -/

def TellsLevel (s : String) (l : AuditingLevel) : Prop :=
  ∃ word, Text.Strips s.toList word ∧ word.map Char.toLower = l.name.toList

/-- a number that can be read, perhaps zero -/
def Tells (s : String) (n : Nat) : Prop :=
  (∃ word, Text.Strips s.toList word ∧ Decimal.Spells word n) ∧ n < 2 ^ 64

def TellsNumber (s : String) (n : Nat) : Prop := Tells s n ∧ 0 < n

inductive Holds {α : Type} (v : Option String) (default : α) (tells : String → α → Prop) :
    α → Prop where
  | unset (hv : v = none) : Holds v default tells default
  | told {s : String} {a : α} (hv : v = some s) (h : tells s a) : Holds v default tells a

structure Accepts (lookup : String → Option String) (workerId : String) (x : Settings) : Prop where
  level : Holds (lookup levelName) .full TellsLevel x.level
  batchSize : Holds (lookup batchSizeName) 10 TellsNumber x.batchSize
  pollInterval : Holds (lookup pollIntervalName) 1000 TellsNumber x.pollInterval
  retryWait : Holds (lookup retryWaitName) 10000 TellsNumber x.retryWaitMillis
  workerId : ∃ o, Text.TrimsTo (lookup workerIdName) o ∧ x.workerId = o.getD workerId
  seedPath : Text.TrimsTo (lookup seedPathName) x.seedPath

theorem Holds.exists_iff {α : Type} {v : Option String} {d : α} {tells : String → α → Prop} :
    (∃ a, Holds v d tells a) ↔ ∀ s, v = some s → ∃ a, tells s a := by
  constructor
  · rintro ⟨a, hv | ⟨hv, h⟩⟩ s hs
    · rw [hv] at hs
      cases hs
    · rw [hv] at hs
      cases hs
      exact ⟨a, h⟩
  · intro h
    cases hv : v with
    | none => exact ⟨d, .unset rfl⟩
    | some s =>
      obtain ⟨a, ha⟩ := h s hv
      exact ⟨a, .told rfl ha⟩

/-! ## what can be wrong -/

inductive Check where
  | level
  | numeral (name : String)
  | positive (name : String)

/-- the checks in their order -/
def checks : List Check :=
  [.level, .numeral batchSizeName, .numeral pollIntervalName, .numeral retryWaitName,
    .positive batchSizeName, .positive pollIntervalName, .positive retryWaitName]

section
variable (lookup : String → Option String)

inductive Check.Fails : Check → EngineError → Prop where
  | level {s : String} (hs : lookup levelName = some s) (h : ∀ l, ¬ TellsLevel s l) :
      Fails .level (.unknownLevel s)
  | numeral {name s : String} {word : List Char} {e : Decimal.NumeralError}
      (hs : lookup name = some s) (hword : Text.Strips s.toList word)
      (h : Decimal.Fault (2 ^ 64 - 1) word e) :
      Fails (.numeral name) (.badSetting name s e.reason)
  | positive {name s : String} (hs : lookup name = some s) (h : Tells s 0) :
      Fails (.positive name) (.zeroSetting name)

inductive FirstFailure (e : EngineError) : List Check → Prop where
  | here {c : Check} {cs : List Check} (h : c.Fails lookup e) : FirstFailure e (c :: cs)
  | later {c : Check} {cs : List Check} (hc : ∀ e', ¬ c.Fails lookup e')
      (h : FirstFailure e cs) : FirstFailure e (c :: cs)

end

variable {lookup : String → Option String}

theorem Check.Fails.kind_eq {c : Check} {e : EngineError} (h : c.Fails lookup e) :
    e.kind = .invalidRequest := by
  cases h <;> rfl

theorem FirstFailure.kind_eq {e : EngineError} {cs : List Check}
    (h : FirstFailure lookup e cs) : e.kind = .invalidRequest := by
  induction h with
  | here h => exact h.kind_eq
  | later hc h ih => exact ih

/-! ## levels -/

theorem ofText_eq_ok {s : String} {l : AuditingLevel} :
    AuditingLevel.ofText s = .ok l ↔ TellsLevel s l := by
  have hname : TellsLevel s l ↔ AuditingLevel.fold s = l.name := by
    unfold TellsLevel AuditingLevel.fold
    rw [← String.toList_inj, String.toList_ofList]
    constructor
    · rintro ⟨word, hword, hl⟩
      rw [Text.trimList_eq_iff.mpr hword, hl]
    · intro hl
      exact ⟨_, Text.strips_trimList s.toList, hl⟩
  rw [hname]
  constructor
  · intro h
    unfold AuditingLevel.ofText at h
    split at h
    · next hfold =>
      cases h
      unfold AuditingLevel.ofName? at hfold
      have hl := List.find?_some hfold
      exact (beq_iff_eq.mp hl).symm
    · cases h
  · intro h
    rw [AuditingLevel.ofText, h, AuditingLevel.ofName?_name]

theorem ofText_eq_error {s : String} {e : EngineError} :
    AuditingLevel.ofText s = .error e ↔ e = .unknownLevel s ∧ ∀ l, ¬ TellsLevel s l := by
  simp only [← ofText_eq_ok, AuditingLevel.ofText]
  split <;> simp [eq_comm]

/-! ## single settings -/

theorem eq_ok_iff_holds {α : Type} (f : Option String → Except EngineError α) {d : α}
    {tells : String → α → Prop} (hnone : f none = .ok d)
    (hsome : ∀ s a, f (some s) = .ok a ↔ tells s a) {v : Option String} {a : α} :
    f v = .ok a ↔ Holds v d tells a := by
  constructor
  · intro h
    cases v with
    | none =>
      rw [hnone] at h
      cases h
      exact .unset rfl
    | some s => exact .told rfl ((hsome s a).mp h)
  · rintro (rfl | ⟨rfl, h⟩)
    · exact hnone
    · exact (hsome _ a).mpr h

theorem level?_eq_ok {v : Option String} {l : AuditingLevel} :
    level? v = .ok l ↔ Holds v .full TellsLevel l :=
  eq_ok_iff_holds level? rfl fun _ _ => ofText_eq_ok

theorem level?_eq_error {e : EngineError} :
    level? (lookup levelName) = .error e ↔ Check.level.Fails lookup e := by
  constructor
  · intro h
    cases hs : lookup levelName with
    | none =>
      rw [hs] at h
      cases h
    | some s =>
      rw [hs] at h
      obtain ⟨rfl, hl⟩ := ofText_eq_error.mp h
      exact .level hs hl
  · rintro ⟨hs, hl⟩
    rw [hs]
    exact ofText_eq_error.mpr ⟨rfl, hl⟩

theorem maxNumber_eq : maxNumber = 2 ^ 64 - 1 := by
  norm_num [maxNumber]

theorem number_eq_ok {name : String} {v : Option String} {d n : Nat} :
    number name v d = .ok n ↔ Holds v d Tells n := by
  refine eq_ok_iff_holds (number name · d) rfl fun s n => ?_
  have hmax : n ≤ maxNumber ↔ n < 2 ^ 64 := by
    rw [maxNumber_eq]
    omega
  have htells : Tells s n ↔ Decimal.unsigned? maxNumber (Text.trimList s.toList) = .ok n := by
    rw [Decimal.unsigned?_eq_ok, hmax]
    simp only [Tells, ← Text.trimList_eq_iff, exists_eq_left']
  rw [htells]
  simp only [number]
  split
  · next h => simp [h]
  · next h => simp [h]

theorem number_eq_error {name : String} {d : Nat} {e : EngineError} :
    number name (lookup name) d = .error e ↔ (Check.numeral name).Fails lookup e := by
  constructor
  · intro h
    cases hs : lookup name with
    | none =>
      rw [hs] at h
      cases h
    | some s =>
      rw [hs] at h
      unfold number at h
      simp only at h
      split at h
      · cases h
      · next e' he =>
        cases h
        rw [maxNumber_eq, Decimal.unsigned?_eq_error] at he
        exact .numeral hs (Text.strips_trimList _) he
  · rintro (_ | ⟨hs, hword, h⟩ | _)
    rw [hs, number, Text.trimList_eq_iff.mpr hword, maxNumber_eq, Decimal.unsigned?_eq_error.mpr h]

theorem positive_eq_error {name : String} {d n : Nat} (hd : d ≠ 0)
    (hn : number name (lookup name) d = .ok n) {e : EngineError} :
    positive name n = .error e ↔ (Check.positive name).Fails lookup e := by
  constructor
  · intro h
    unfold positive at h
    split at h
    · next hzero =>
      cases h
      rcases number_eq_ok.mp hn with hv | ⟨hs, htells⟩
      · exact absurd hzero hd
      · exact .positive hs (hzero ▸ htells)
    · cases h
  · rintro (_ | _ | ⟨hs, htells⟩)
    have hzero : number name (lookup name) d = .ok 0 := number_eq_ok.mpr (.told hs htells)
    cases hn.symm.trans hzero
    rfl

/-! ## one after the other -/

/-- a step that fails is the first failure; after one that does not, what follows decides -/
theorem bind_eq_error {α β : Type} {m : Except EngineError α} {f : α → Except EngineError β}
    {c : Check} {cs : List Check} {e : EngineError} (hm : ∀ {e}, m = .error e ↔ c.Fails lookup e)
    (hf : ∀ a, m = .ok a → (f a = .error e ↔ FirstFailure lookup e cs)) :
    m >>= f = .error e ↔ FirstFailure lookup e (c :: cs) := by
  cases m with
  | error e' =>
    constructor
    · intro h
      cases h
      exact .here (hm.mp rfl)
    · rintro (h | ⟨hc, -⟩)
      · cases hm.mpr h
        rfl
      · exact absurd (hm.mp rfl) (hc e')
  | ok a =>
    have hc (e' : EngineError) : ¬ c.Fails lookup e' := fun h => by cases hm.mpr h
    refine (hf a rfl).trans ⟨.later hc, ?_⟩
    rintro (h | ⟨-, h⟩)
    · exact absurd h (hc e)
    · exact h

theorem load_eq_error {workerId : String} {e : EngineError} :
    load lookup workerId = .error e ↔ FirstFailure lookup e checks := by
  unfold load
  refine bind_eq_error level?_eq_error fun level _ => ?_
  refine bind_eq_error number_eq_error fun batchSize hbatchSize => ?_
  refine bind_eq_error number_eq_error fun pollInterval hpollInterval => ?_
  refine bind_eq_error number_eq_error fun retryWait hretryWait => ?_
  refine bind_eq_error (positive_eq_error (by decide) hbatchSize) fun _ _ => ?_
  refine bind_eq_error (positive_eq_error (by decide) hpollInterval) fun _ _ => ?_
  refine bind_eq_error (positive_eq_error (by decide) hretryWait) fun _ _ => ?_
  constructor <;> intro h <;> cases h

theorem positive_eq_ok {name : String} {n : Nat} {u : Unit} : positive name n = .ok u ↔ 0 < n := by
  unfold positive
  split <;> simp <;> omega

theorem Holds.tellsNumber_iff {v : Option String} {d n : Nat} (hd : 0 < d) :
    Holds v d TellsNumber n ↔ Holds v d Tells n ∧ 0 < n := by
  constructor
  · rintro (hv | ⟨hv, h, hn⟩)
    · exact ⟨.unset hv, hd⟩
    · exact ⟨.told hv h, hn⟩
  · rintro ⟨hv | ⟨hv, h⟩, hn⟩
    · exact .unset hv
    · exact .told hv ⟨h, hn⟩

theorem load_eq_ok {workerId : String} {x : Settings} :
    load lookup workerId = .ok x ↔ Accepts lookup workerId x := by
  simp only [load, EngineError.bind_eq_ok, level?_eq_ok, number_eq_ok, positive_eq_ok, pure,
    Except.pure, Except.ok.injEq]
  constructor
  · rintro ⟨level, hlevel, batchSize, hbatchSize, pollInterval, hpollInterval, retryWait, hretryWait,
      -, hbatch, -, hpoll, -, hretry, rfl⟩
    exact ⟨hlevel, (Holds.tellsNumber_iff (by decide)).mpr ⟨hbatchSize, hbatch⟩,
      (Holds.tellsNumber_iff (by decide)).mpr ⟨hpollInterval, hpoll⟩,
      (Holds.tellsNumber_iff (by decide)).mpr ⟨hretryWait, hretry⟩,
      ⟨_, Text.trimmed?_eq_iff.mp rfl, rfl⟩, Text.trimmed?_eq_iff.mp rfl⟩
  · rintro ⟨hlevel, hbatchSize, hpollInterval, hretryWait, ⟨o, ho, hworkerId⟩, hseedPath⟩
    obtain ⟨hbatchSize, hbatch⟩ := (Holds.tellsNumber_iff (by decide)).mp hbatchSize
    obtain ⟨hpollInterval, hpoll⟩ := (Holds.tellsNumber_iff (by decide)).mp hpollInterval
    obtain ⟨hretryWait, hretry⟩ := (Holds.tellsNumber_iff (by decide)).mp hretryWait
    refine ⟨_, hlevel, _, hbatchSize, _, hpollInterval, _, hretryWait, (), hbatch, (), hpoll, (),
      hretry, ?_⟩
    rw [Text.trimmed?_eq_iff.mpr ho, Text.trimmed?_eq_iff.mpr hseedPath, ← hworkerId]

theorem exists_accepts_iff {workerId : String} :
    (∃ x, Accepts lookup workerId x) ↔
      (∀ s, lookup levelName = some s → ∃ l, TellsLevel s l) ∧
      ∀ name ∈ [batchSizeName, pollIntervalName, retryWaitName], ∀ s, lookup name = some s →
        ∃ n, TellsNumber s n := by
  simp only [List.mem_cons, List.not_mem_nil, or_false, forall_eq_or_imp, forall_eq]
  constructor
  · rintro ⟨x, hx⟩
    exact ⟨Holds.exists_iff.mp ⟨_, hx.level⟩, Holds.exists_iff.mp ⟨_, hx.batchSize⟩,
      Holds.exists_iff.mp ⟨_, hx.pollInterval⟩, Holds.exists_iff.mp ⟨_, hx.retryWait⟩⟩
  · rintro ⟨hlevel, hbatchSize, hpollInterval, hretryWait⟩
    obtain ⟨level, hlevel⟩ := Holds.exists_iff.mpr hlevel
    obtain ⟨batchSize, hbatchSize⟩ := Holds.exists_iff.mpr hbatchSize
    obtain ⟨pollInterval, hpollInterval⟩ := Holds.exists_iff.mpr hpollInterval
    obtain ⟨retryWait, hretryWait⟩ := Holds.exists_iff.mpr hretryWait
    exact ⟨⟨level, _, batchSize, pollInterval, retryWait, _⟩, hlevel, hbatchSize, hpollInterval,
      hretryWait, ⟨_, Text.trimmed?_eq_iff.mp rfl, rfl⟩, Text.trimmed?_eq_iff.mp rfl⟩

/-! ## waits -/

theorem retryWait_eq_ok {x : Settings} {wait : Duration} :
    x.retryWait = .ok wait ↔
      wait = .ofMillis x.retryWaitMillis ∧ x.retryWaitMillis ≤ 2 ^ 63 - 1 := by
  have hmax : maxWait = 2 ^ 63 - 1 := by norm_num [maxWait]
  rw [← hmax]
  unfold retryWait waitOfMillis
  split
  · next h => simp [h, eq_comm]
  · next h => simp [h]

/-- **Settings are accepted exactly if they are valid.**  The level has to be one of the four, the
numbers have to be numbers from 1 to `2 ^ 64 - 1`, unless they are not set; the settings then are
what the variables say.  Otherwise the first of the seven checks that fails gives the error.  The
wait that was accepted is a wait of just as many milliseconds, if these fit into 63 bits. -/
theorem settings_accepted_when_valid (lookup : String → Option String) (workerId : String) :
    ((∃ x, load lookup workerId = .ok x) ↔
      (∀ s, lookup levelName = some s → ∃ l, TellsLevel s l) ∧
      ∀ name ∈ [batchSizeName, pollIntervalName, retryWaitName], ∀ s, lookup name = some s →
        ∃ n, TellsNumber s n) ∧
    (∀ x, load lookup workerId = .ok x ↔ Accepts lookup workerId x) ∧
    (∀ e, load lookup workerId = .error e ↔ FirstFailure lookup e checks) ∧
    (∀ e, load lookup workerId = .error e → e.kind = .invalidRequest) ∧
    ∀ x, load lookup workerId = .ok x → ∀ wait, x.retryWait = .ok wait ↔
      wait = .ofMillis x.retryWaitMillis ∧ x.retryWaitMillis ≤ 2 ^ 63 - 1 := by
  refine ⟨?_, fun x => load_eq_ok, fun e => load_eq_error, fun e he => ?_,
    fun x _ wait => retryWait_eq_ok⟩
  · simp only [load_eq_ok]
    exact exists_accepts_iff
  · exact (load_eq_error.mp he).kind_eq

/-- blanks, small and capital letters, a plus sign and zeros in front; and a wait of a sign alone,
which is refused before the batch size for being zero -/
theorem settings_accepted_when_valid_signs :
    let lookup (name : String) : Option String :=
      if name = levelName then some "\u2003Audit "
      else if name = batchSizeName then some " +0025" else none
    let lookup' (name : String) : Option String :=
      if name = batchSizeName then some "0" else if name = retryWaitName then some "+" else none
    let x : Settings := ⟨.audit, "worker", 25, 1000, 10000, none⟩
    let e : EngineError := .badSetting retryWaitName "+" "invalid digit found in string"
    load lookup "worker" = .ok x ∧ Accepts lookup "worker" x ∧ x.retryWait = .ok (.ofMillis 10000) ∧
      load lookup' "worker" = .error e ∧ FirstFailure lookup' e checks ∧
      e.kind = .invalidRequest := by
  intro lookup lookup' x e
  have hx : load lookup "worker" = .ok x := by rfl
  have he : load lookup' "worker" = .error e := by rfl
  obtain ⟨-, haccepts, -, -, hwait⟩ := settings_accepted_when_valid lookup "worker"
  obtain ⟨-, -, hfails, hkind, -⟩ := settings_accepted_when_valid lookup' "worker"
  exact ⟨hx, (haccepts x).mp hx, (hwait x hx (.ofMillis 10000)).mpr ⟨rfl, by norm_num⟩, he,
    (hfails e).mp he, hkind e he⟩

end Settings
end JobSuspension
