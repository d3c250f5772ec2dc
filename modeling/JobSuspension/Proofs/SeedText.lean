import JobSuspension.Proofs.ConfigurationText
import JobSuspension.Proofs.RecordText
import JobSuspension.Seed
import Mathlib.Data.List.Forall2

/-!
# Which texts are seeds

A seed is written as an object with a list for each kind of record, and a record as an object with a
member for each field.  The members may stand in any order, with any others among them.  A field
with a default may be left out when it has the default value: an optional field when it is absent,
the retries when there are three, the state when it is active, and a list when it is empty.  Other
members may have any name that is a text and any value, also one that could not be kept.

* `Value.IsText`, `IsOptional`, `IsList`, `IsObject`   what a value says, given what its parts say;
* `Has ms name W a`              the only member called `name` says `a`;
* `HasOr d ms name W a`          the same, or there is none and `a` is the default `d`;
* `WrittenIn ms a`               of each record: the members say so, field by field;
* `EngineSeed.WrittenAs x text`  the text is that of an object which says so;
* `Decodes f W`                  `f` reads whatever `W` says;
* `Record.Yields.has`, `.hasOr`  one field of a record;
* `EngineSeed.writtenAs_toJson`  every seed is written in some way;
* `seed_is_read_as_written`      and read from whatever text it is written as.
-/

namespace JobSuspension
namespace Json

/-! ## what values say -/

section
variable {α : Type}

def Value.IsText (v : Value) (s : String) : Prop := v = .string s

/-- null says that there is nothing -/
inductive Value.IsOptional (W : Value → α → Prop) : Value → Option α → Prop where
  | null : IsOptional W .null none
  | some {v : Value} {a : α} (h : W v a) : IsOptional W v (some a)

def Value.IsList (W : Value → α → Prop) (v : Value) (l : List α) : Prop :=
  ∃ vs, v = .array vs ∧ List.Forall₂ W vs l

def Value.IsObject (M : List (String × Value) → α → Prop) (v : Value) (a : α) : Prop :=
  ∃ ms, v = .object ms ∧ M ms a

/-- whatever other members there are, and wherever they stand -/
def Has (ms : List (String × Value)) (name : String) (W : Value → α → Prop) (a : α) : Prop :=
  ∃ v, Value.named name ms = [v] ∧ W v a

def HasOr (d : α) (ms : List (String × Value)) (name : String) (W : Value → α → Prop) (a : α) :
    Prop :=
  Has ms name W a ∨ a = d ∧ Value.named name ms = []

end

/-! ## reading values -/

section
variable {α β : Type} {f : Value → Option α} {W : Value → α → Prop} {ms : List (String × Value)}

def Decodes (f : Value → Option α) (W : Value → α → Prop) : Prop := ∀ v a, W v a → f v = some a

theorem decodes_text : Decodes Value.text? Value.IsText := by
  rintro v s rfl
  rfl

theorem decodes_optional (hf : Decodes f W) (hnull : f .null = none) :
    Decodes (Value.nullable? f) (Value.IsOptional W) := by
  intro v o h
  cases h with
  | null => rfl
  | @some v a h =>
    have hv := hf v a h
    have hmap : Value.nullable? f v = (f v).map some := by
      unfold Value.nullable?
      split
      · rw [hnull] at hv
        cases hv
      · rfl
    rw [hmap, hv]
    rfl

theorem decodes_list (hf : Decodes f W) : Decodes (Value.list? f) (Value.IsList W) := by
  rintro _ l ⟨vs, rfl, h⟩
  show vs.mapM f = some l
  induction h with
  | nil => rfl
  | @cons v a vs l hv _ ih =>
    rw [List.mapM_cons, hf v a hv, ih]
    rfl

theorem decodes_object {p : Record.Fields α} {M : List (String × Value) → α → Prop}
    (h : ∀ ms a, M ms a → Record.Yields p ms a) :
    Decodes (Record.read p) (Value.IsObject M) := by
  rintro _ a ⟨ms, rfl, ha⟩
  exact Record.read_object (h ms a ha)

theorem single?_of_named_nil {name : String} (h : Value.named name ms = []) :
    Record.single? name ms = some none := by
  rw [Record.single?, h]

namespace Record.Yields

variable {name : String} {a : α} {b : β} {k : α → Fields β} {unnamed unlisted : Option α}

theorem has (hname : Has ms name W a) (hf : Decodes f W) (hk : Yields (k a) ms b) :
    Yields (Record.field name f unnamed unlisted >>= k) ms b := by
  obtain ⟨v, hv, ha⟩ := hname
  exact .field (single?_eq_some.mpr hv) (hf v a ha) hk

/-- a field that is left out has its default -/
theorem absent (hname : Value.named name ms = []) (hk : Yields (k a) ms b) :
    Yields (Record.field name f (some a) unlisted >>= k) ms b := by
  have hfield : Record.field name f (some a) unlisted (.named ms) = some (a, .named ms) := by
    simp only [Record.field, single?_of_named_nil hname, Option.bind_eq_bind, Option.bind_some]
    rfl
  show (Record.field name f (some a) unlisted (.named ms)).bind (fun x => k x.1 x.2) = _
  rw [hfield]
  exact hk

theorem hasOr {d : α} (hname : HasOr d ms name W a) (hf : Decodes f W) (hk : Yields (k a) ms b) :
    Yields (Record.field name f (some d) unlisted >>= k) ms b := by
  rcases hname with hname | ⟨rfl, hname⟩
  · exact has hname hf hk
  · exact absent hname hk

end Record.Yields

/-! ## writing values -/

theorem Value.isOptional_ofOption {w : α → Value} (h : ∀ a, W (w a) a) (o : Option α) :
    IsOptional W (ofOption w o) o := by
  cases o with
  | none => exact .null
  | some a => exact .some (h a)

theorem Value.isOptional_optText (o : Option String) : IsOptional IsText (optText o) o := by
  have htext (s : String) : IsText (.string s) s := rfl
  exact isOptional_ofOption htext o

theorem Value.isList_map {w : α → Value} (h : ∀ a, W (w a) a) (l : List α) :
    IsList W (.array (l.map w)) l :=
  ⟨l.map w, rfl, List.forall₂_map_left_iff.mpr (List.forall₂_same.mpr fun a _ => h a)⟩

theorem Value.wellFormedItems_map {w : α → Value} (h : ∀ a, (w a).WellFormed) (l : List α) :
    WellFormedItems (l.map w) := by
  induction l with
  | nil => trivial
  | cons a l ih => exact ⟨h a, ih⟩

end
end Json

open Json
open Json.Value (IsText IsOptional IsList IsObject isOptional_ofOption isOptional_optText isList_map
  wellFormedItems_map)
open Json.Record.Yields (has hasOr pure)

/-! ## records -/

def SuspensionState.IsNamed (v : Value) (s : SuspensionState) : Prop := v = .string s.name

theorem SuspensionState.decodes : Decodes ofJson? IsNamed := by
  rintro v s rfl
  exact s.ofJson?_toJson

/-- any spelling of the instant will do -/
def Instant.IsSpelled (v : Value) (t : Instant) : Prop := ∃ text, v = .string text ∧ t.SpelledBy text

theorem Instant.decodes : Decodes ofJson? IsSpelled := by
  rintro v t ⟨text, rfl, h⟩
  exact ofText?_of_spelledBy h

namespace JobDefinition.Draft

structure WrittenIn (ms : List (String × Value)) (d : Draft) : Prop where
  id : Has ms "id" IsText d.id
  processDefinitionId : Has ms "process_definition_id" IsText d.processDefinitionId
  processDefinitionKey : Has ms "process_definition_key" IsText d.processDefinitionKey
  activityId : HasOr none ms "activity_id" (IsOptional IsText) d.activityId
  jobType : Has ms "job_type" IsText d.jobType
  state : HasOr .active ms "suspension_state" SuspensionState.IsNamed d.state

theorem decodes : Decodes ofJson? (IsObject WrittenIn) :=
  decodes_object fun _ d h =>
    has h.id decodes_text <| has h.processDefinitionId decodes_text <|
    has h.processDefinitionKey decodes_text <|
    hasOr h.activityId (decodes_optional decodes_text rfl) <| has h.jobType decodes_text <|
    hasOr h.state SuspensionState.decodes <| pure d

theorem isObject_toJson (d : Draft) : IsObject WrittenIn d.toJson d :=
  ⟨_, rfl, {
    id := ⟨_, rfl, rfl⟩
    processDefinitionId := ⟨_, rfl, rfl⟩
    processDefinitionKey := ⟨_, rfl, rfl⟩
    activityId := .inl ⟨_, rfl, isOptional_optText _⟩
    jobType := ⟨_, rfl, rfl⟩
    state := .inl ⟨_, rfl, rfl⟩ }⟩

end JobDefinition.Draft

namespace Job

def IsRetries (v : Value) (n : UInt32) : Prop := v = .ofNat n.toNat

theorem decodes_retries : Decodes retriesOfJson? IsRetries := by
  rintro v n rfl
  exact retriesOfJson?_ofNat n

structure WrittenIn (ms : List (String × Value)) (j : Job) : Prop where
  id : Has ms "id" IsText j.id
  jobDefinitionId : HasOr none ms "job_definition_id" (IsOptional IsText) j.jobDefinitionId
  processInstanceId : HasOr none ms "process_instance_id" (IsOptional IsText) j.processInstanceId
  processDefinitionId :
    HasOr none ms "process_definition_id" (IsOptional IsText) j.processDefinitionId
  processDefinitionKey :
    HasOr none ms "process_definition_key" (IsOptional IsText) j.processDefinitionKey
  handlerType : Has ms "handler_type" IsText j.handlerType
  handlerConfiguration :
    HasOr none ms "handler_configuration" (IsOptional IsText) j.handlerConfiguration
  dueDate : HasOr none ms "due_date" (IsOptional Instant.IsSpelled) j.dueDate
  retries : HasOr 3 ms "retries" IsRetries j.retries
  state : HasOr .active ms "suspension_state" SuspensionState.IsNamed j.state
  exceptionMessage : HasOr none ms "exception_message" (IsOptional IsText) j.exceptionMessage

theorem decodes : Decodes ofJson? (IsObject WrittenIn) :=
  have optional := decodes_optional decodes_text rfl
  decodes_object fun _ j h =>
    has h.id decodes_text <| hasOr h.jobDefinitionId optional <|
    hasOr h.processInstanceId optional <| hasOr h.processDefinitionId optional <|
    hasOr h.processDefinitionKey optional <| has h.handlerType decodes_text <|
    hasOr h.handlerConfiguration optional <|
    hasOr h.dueDate (decodes_optional Instant.decodes rfl) <| hasOr h.retries decodes_retries <|
    hasOr h.state SuspensionState.decodes <| hasOr h.exceptionMessage optional <| pure j

theorem isObject_toJson (j : Job) : IsObject WrittenIn j.toJson j :=
  ⟨_, rfl, {
    id := ⟨_, rfl, rfl⟩
    jobDefinitionId := .inl ⟨_, rfl, isOptional_optText _⟩
    processInstanceId := .inl ⟨_, rfl, isOptional_optText _⟩
    processDefinitionId := .inl ⟨_, rfl, isOptional_optText _⟩
    processDefinitionKey := .inl ⟨_, rfl, isOptional_optText _⟩
    handlerType := ⟨_, rfl, rfl⟩
    handlerConfiguration := .inl ⟨_, rfl, isOptional_optText _⟩
    dueDate := .inl ⟨_, rfl, isOptional_ofOption (fun t => ⟨_, rfl, t.spelledBy_toText⟩) _⟩
    retries := .inl ⟨_, rfl, rfl⟩
    state := .inl ⟨_, rfl, rfl⟩
    exceptionMessage := .inl ⟨_, rfl, isOptional_optText _⟩ }⟩

end Job

namespace ProcessInstance

structure WrittenIn (ms : List (String × Value)) (p : ProcessInstance) : Prop where
  id : Has ms "id" IsText p.id
  processDefinitionId : Has ms "process_definition_id" IsText p.processDefinitionId
  processDefinitionKey : Has ms "process_definition_key" IsText p.processDefinitionKey

theorem decodes : Decodes ofJson? (IsObject WrittenIn) :=
  decodes_object fun _ p h =>
    has h.id decodes_text <| has h.processDefinitionId decodes_text <|
    has h.processDefinitionKey decodes_text <| pure p

theorem isObject_toJson (p : ProcessInstance) : IsObject WrittenIn p.toJson p :=
  ⟨_, rfl, {
    id := ⟨_, rfl, rfl⟩
    processDefinitionId := ⟨_, rfl, rfl⟩
    processDefinitionKey := ⟨_, rfl, rfl⟩ }⟩

end ProcessInstance

/-! ## seeds -/

namespace EngineSeed

structure WrittenIn (ms : List (String × Value)) (x : EngineSeed) : Prop where
  definitions :
    HasOr [] ms "job_definitions" (IsList (IsObject JobDefinition.Draft.WrittenIn)) x.definitions
  jobs : HasOr [] ms "jobs" (IsList (IsObject Job.WrittenIn)) x.jobs
  processInstances :
    HasOr [] ms "process_instances" (IsList (IsObject ProcessInstance.WrittenIn)) x.processInstances

def WrittenAs (x : EngineSeed) (text : String) : Prop :=
  ∃ v, Spells text.toList (.element v) ∧ IsObject WrittenIn v x

theorem decodes : Decodes ofJson? (IsObject WrittenIn) :=
  decodes_object fun _ x h =>
    hasOr h.definitions (decodes_list JobDefinition.Draft.decodes) <|
    hasOr h.jobs (decodes_list Job.decodes) <|
    hasOr h.processInstances (decodes_list ProcessInstance.decodes) <| pure x

theorem ofText_of_writtenAs {x : EngineSeed} {text : String} (h : x.WrittenAs text) :
    ofText text = .ok x := by
  obtain ⟨v, hspells, hv⟩ := h
  rw [ofText, read_eq_some.mpr hspells, Option.bind_some, decodes v x hv]

theorem isObject_toJson (x : EngineSeed) : IsObject WrittenIn x.toJson x :=
  ⟨_, rfl, {
    definitions := .inl ⟨_, rfl, isList_map JobDefinition.Draft.isObject_toJson _⟩
    jobs := .inl ⟨_, rfl, isList_map Job.isObject_toJson _⟩
    processInstances := .inl ⟨_, rfl, isList_map ProcessInstance.isObject_toJson _⟩ }⟩

theorem wellFormed_toJson (x : EngineSeed) : x.toJson.WellFormed :=
  ⟨wellFormedItems_map JobDefinition.Draft.wellFormed_toJson _,
    wellFormedItems_map Job.wellFormed_toJson _,
    wellFormedItems_map ProcessInstance.wellFormed_toJson _, trivial⟩

theorem writtenAs_toJson (x : EngineSeed) : x.WrittenAs x.toJson.text :=
  ⟨x.toJson, read_eq_some.mp (read_text x.wellFormed_toJson), x.isObject_toJson⟩

theorem ofText_cases (text : String) :
    (∃ x, ofText text = .ok x) ∨ ofText text = .error .badSeed := by
  unfold ofText
  split
  · exact .inl ⟨_, rfl⟩
  · exact .inr rfl

end EngineSeed

/-- **A seed is read as it is written.**  Whatever the records are, every text that writes them as
the lists of one object is read as exactly these records: in whatever order the members stand, with
whatever other members, and whichever members with default values are left out.  There is such a
text for all records, and no text is refused otherwise than as an invalid request. -/
theorem seed_is_read_as_written :
    (∀ (x : EngineSeed) (text : String), x.WrittenAs text → EngineSeed.ofText text = .ok x) ∧
    (∀ x : EngineSeed, x.WrittenAs x.toJson.text) ∧
    ∀ text : String, (∃ x, EngineSeed.ofText text = .ok x) ∨
      ∃ e, EngineSeed.ofText text = .error e ∧ e.kind = .invalidRequest := by
  refine ⟨fun x text => EngineSeed.ofText_of_writtenAs, EngineSeed.writtenAs_toJson, fun text => ?_⟩
  rcases EngineSeed.ofText_cases text with hread | hrefused
  · exact .inl hread
  · exact .inr ⟨.badSeed, hrefused, rfl⟩

/-- a job with its members in another order and one that means nothing, without retries and state,
due at a time that is told by the clocks of another place -/
theorem seed_is_read_as_written_elsewhere :
    let text :=
      "\x7b\"note\":[null],\"jobs\":[\x7b\"due_date\":\"2026-05-01T10:00:00.5+02:00\"," ++
        "\"color\":\"red\",\"handler_type\":\"message\",\"id\":\"a\"\x7d]," ++
        "\"process_instances\":[]\x7d"
    let due : Instant := ⟨1777622400, 500000000, by decide⟩
    let x : EngineSeed :=
      { jobs := [{ id := "a", handlerType := "message", dueDate := some due, retries := 3 }] }
    x.WrittenAs text ∧ EngineSeed.ofText text = .ok x := by
  intro text due x
  let job : List (String × Value) :=
    [("due_date", .string "2026-05-01T10:00:00.5+02:00"), ("color", .string "red"),
      ("handler_type", .string "message"), ("id", .string "a")]
  let v : Value := .object [("note", .array [.null]), ("jobs", .array [.object job]),
    ("process_instances", .array [])]
  have hspells : Spells text.toList (.element v) := by
    have htext : v.text = text := by decide +kernel
    rw [← htext]
    refine read_eq_some.mp (read_text ?_)
    simp [v, job, Value.WellFormed, Value.WellFormedMembers, Value.WellFormedItems]
  have hdue : due.SpelledBy "2026-05-01T10:00:00.5+02:00" := by
    let l : LocalTime := ⟨⟨2026, 5, 1⟩, 10, 0, 0, 500000000, 7200⟩
    have hfraction : Instant.SpellsFraction ['.', '5'] l.nano :=
      .digits ⟨List.cons_ne_nil _ _, List.forall_mem_singleton.mpr rfl⟩
    have hoffset : Instant.SpellsOffset _ l.ahead :=
      .ahead (show 2 < 24 by decide) (show 0 < 60 by decide)
    refine ⟨l, ⟨by decide, by decide, by decide, by decide, by decide⟩, ?_, ⟨by decide, by decide⟩⟩
    exact ⟨'T', _, _, .inl rfl, hfraction, hoffset, by decide +kernel⟩
  have hjob : IsObject Job.WrittenIn (.object job)
      { id := "a", handlerType := "message", dueDate := some due, retries := 3 } :=
    ⟨_, rfl, {
      id := ⟨_, rfl, rfl⟩
      jobDefinitionId := .inr ⟨rfl, rfl⟩
      processInstanceId := .inr ⟨rfl, rfl⟩
      processDefinitionId := .inr ⟨rfl, rfl⟩
      processDefinitionKey := .inr ⟨rfl, rfl⟩
      handlerType := ⟨_, rfl, rfl⟩
      handlerConfiguration := .inr ⟨rfl, rfl⟩
      dueDate := .inl ⟨_, rfl, .some ⟨_, rfl, hdue⟩⟩
      retries := .inr ⟨rfl, rfl⟩
      state := .inr ⟨rfl, rfl⟩
      exceptionMessage := .inr ⟨rfl, rfl⟩ }⟩
  have hx : x.WrittenAs text :=
    ⟨v, hspells, _, rfl, {
      definitions := .inr ⟨rfl, rfl⟩
      jobs := .inl ⟨_, rfl, _, rfl, .cons hjob .nil⟩
      processInstances := .inl ⟨_, rfl, [], rfl, .nil⟩ }⟩
  exact ⟨hx, seed_is_read_as_written.1 x text hx⟩

end JobSuspension
