import JobSuspension.Codec.Audit
import JobSuspension.Codec.Job
import JobSuspension.Codec.ProcessInstance
import JobSuspension.Codec.Selection
import JobSuspension.Proofs.InstantText
import JobSuspension.Proofs.JsonText

/-!
# Records survive their text

What is read from the text of a record is the record, whatever its texts, numbers and dates are, and
whichever of its fields are absent.  An object that names each field once is read field by field; a
field that is absent is written as null and read as absent, also where it has a default.

* `Json.RoundTrips toJson ofJson?`   the text of everything is read as what it was written for;
* `Fields.Yields p ms a`             reading the fields `p` of an object with members `ms` gives `a`;
* `ofJson?_toJson`, `wellFormed_toJson`   of each record: its value is read, and can be written;
* `records_round_trip`               all of them.
-/

namespace JobSuspension

open Json

/-! ## reading an object -/

namespace Json

def RoundTrips {α : Type} (toJson : α → Value) (ofJson? : Value → Option α) : Prop :=
  ∀ a, (read (toJson a).text).bind ofJson? = some a

theorem roundTrips {α : Type} {toJson : α → Value} {ofJson? : Value → Option α}
    (hformed : ∀ a, (toJson a).WellFormed) (hread : ∀ a, ofJson? (toJson a) = some a) :
    RoundTrips toJson ofJson? := by
  intro a
  rw [read_text (hformed a), Option.bind_some, hread]

theorem Value.nullable?_optText (s : Option String) :
    nullable? text? (optText s) = some s := by
  cases s <;> rfl

theorem Value.wellFormed_optText (s : Option String) : (Value.optText s).WellFormed := by
  cases s <;> trivial

namespace Record

variable {α β : Type} {ms : List (String × Value)}

def Yields (p : Fields α) (ms : List (String × Value)) (a : α) : Prop :=
  p (.named ms) = some (a, .named ms)

theorem read_object {p : Fields α} {a : α} (h : Yields p ms a) : read p (.object ms) = some a := by
  show (p (.named ms)).map (·.1) = some a
  rw [h]
  rfl

namespace Yields

variable {f : Value → Option α} {name : String} {v : Value} {a : α} {b : β} {k : α → Fields β}

theorem pure (b : β) : Yields (pure b) ms b := rfl

theorem field {unnamed unlisted : Option α} (hname : single? name ms = some (some v))
    (hv : f v = some a) (hk : Yields (k a) ms b) :
    Yields (field name f unnamed unlisted >>= k) ms b := by
  have hfield : Record.field name f unnamed unlisted (.named ms) = some (a, .named ms) := by
    simp only [Record.field, hname, Option.bind_eq_bind, Option.bind_some, hv]
    rfl
  show (Record.field name f unnamed unlisted (.named ms)).bind (fun x => k x.1 x.2) = _
  rw [hfield]
  exact hk

theorem text {s : String} {k : String → Fields β}
    (hname : single? name ms = some (some (.string s))) (hk : Yields (k s) ms b) :
    Yields (required name Value.text? >>= k) ms b := .field hname rfl hk

theorem optText {s : Option String} {k : Option String → Fields β}
    (hname : single? name ms = some (some (.optText s))) (hk : Yields (k s) ms b) :
    Yields (optional name Value.text? >>= k) ms b := .field hname (Value.nullable?_optText s) hk

end Yields
end Record
end Json

open Record.Yields (text optText field pure)
open Json.Value (nullable?_optText wellFormed_optText)

/-! ## names and dates -/

theorem SuspensionState.ofJson?_toJson (s : SuspensionState) : ofJson? s.toJson = some s :=
  ofName?_name s

theorem OperationType.ofJson?_toJson (o : OperationType) : ofJson? o.toJson = some o :=
  ofName?_name o

theorem EntityType.ofJson?_toJson (t : EntityType) : ofJson? t.toJson = some t := ofName?_name t

theorem Instant.ofJson?_toJson (t : Instant) : ofJson? t.toJson = some t := by
  show (some t.toText).bind ofText? = some t
  rw [Option.bind_some, ofText?_toText]

/-! ## selections -/

namespace DefinitionSelection

theorem ofJson?_toJson (s : DefinitionSelection) : ofJson? s.toJson = some s :=
  Record.read_object <| optText rfl <| optText rfl <| optText rfl <| pure s

theorem wellFormed_toJson (s : DefinitionSelection) : s.toJson.WellFormed :=
  ⟨wellFormed_optText _, wellFormed_optText _, wellFormed_optText _, trivial⟩

end DefinitionSelection

namespace JobSelection

theorem ofJson?_toJson (s : JobSelection) : ofJson? s.toJson = some s :=
  Record.read_object <| optText rfl <| optText rfl <| optText rfl <| optText rfl <| optText rfl <|
    pure s

theorem wellFormed_toJson (s : JobSelection) : s.toJson.WellFormed :=
  ⟨wellFormed_optText _, wellFormed_optText _, wellFormed_optText _, wellFormed_optText _,
    wellFormed_optText _, trivial⟩

end JobSelection

namespace DefinitionSelector

theorem ofJson?_toJson (s : DefinitionSelector) : ofJson? s.toJson = some s := by
  obtain ⟨key, v⟩ := s
  cases key <;> rfl

theorem wellFormed_toJson (s : DefinitionSelector) : s.toJson.WellFormed :=
  ⟨trivial, trivial, trivial⟩

end DefinitionSelector

/-! ## audit records -/

namespace PropertyChange

theorem ofJson?_toJson (c : PropertyChange) : ofJson? c.toJson = some c :=
  Record.read_object <| optText rfl <| optText rfl <| optText rfl <| pure c

theorem wellFormed_toJson (c : PropertyChange) : c.toJson.WellFormed :=
  ⟨wellFormed_optText _, wellFormed_optText _, wellFormed_optText _, trivial⟩

end PropertyChange

namespace AuditSelection

theorem ofJson?_toJson (s : AuditSelection) : ofJson? s.toJson = some s :=
  Record.read_object <| optText rfl <| optText rfl <| optText rfl <| optText rfl <| optText rfl <|
    optText rfl <| optText rfl <| optText rfl <| optText rfl <| optText rfl <| pure s

theorem wellFormed_toJson (s : AuditSelection) : s.toJson.WellFormed :=
  ⟨wellFormed_optText _, wellFormed_optText _, wellFormed_optText _, wellFormed_optText _,
    wellFormed_optText _, wellFormed_optText _, wellFormed_optText _, wellFormed_optText _,
    wellFormed_optText _, wellFormed_optText _, trivial⟩

end AuditSelection

namespace LogEntry

theorem ofJson?_toJson (e : LogEntry) : ofJson? e.toJson = some e :=
  Record.read_object <| text rfl <| text rfl <|
    field rfl e.operationType.ofJson?_toJson <| field rfl e.entityType.ofJson?_toJson <|
    optText rfl <| field rfl e.timestamp.ofJson?_toJson <|
    field rfl e.selection.ofJson?_toJson <| optText rfl <| optText rfl <| optText rfl <| pure e

theorem wellFormed_toJson (e : LogEntry) : e.toJson.WellFormed :=
  ⟨trivial, trivial, trivial, trivial, wellFormed_optText _, trivial,
    e.selection.wellFormed_toJson, wellFormed_optText _, wellFormed_optText _,
    wellFormed_optText _, trivial⟩

end LogEntry

/-! ## jobs and job definitions -/

namespace Job

theorem retriesOfJson?_ofNat (n : UInt32) : retriesOfJson? (.ofNat n.toNat) = some n := by
  have hle : n.toNat ≤ UInt32.size - 1 := Nat.le_sub_one_of_lt n.toNat_lt_size
  show (((Number.ofNat n.toNat).natural?.filter (· ≤ UInt32.size - 1)).map UInt32.ofNat) = _
  rw [Number.natural?_ofNat, Option.filter_some, if_pos (decide_eq_true hle), Option.map_some,
    UInt32.ofNat_toNat]

theorem nullable?_dueDate (t : Option Instant) :
    Value.nullable? Instant.ofJson? (.ofOption Instant.toJson t) = some t := by
  cases t with
  | none => rfl
  | some t =>
    show (Instant.ofJson? t.toJson).map some = _
    rw [Instant.ofJson?_toJson]
    rfl

theorem ofJson?_toJson (j : Job) : ofJson? j.toJson = some j :=
  Record.read_object <| text rfl <| optText rfl <| optText rfl <| optText rfl <| optText rfl <|
    text rfl <| optText rfl <| field rfl (nullable?_dueDate j.dueDate) <|
    field rfl (retriesOfJson?_ofNat j.retries) <| field rfl j.state.ofJson?_toJson <|
    optText rfl <| pure j

theorem wellFormed_toJson (j : Job) : j.toJson.WellFormed := by
  have hdueDate : (Value.ofOption Instant.toJson j.dueDate).WellFormed := by
    cases j.dueDate <;> trivial
  exact ⟨trivial, wellFormed_optText _, wellFormed_optText _, wellFormed_optText _,
    wellFormed_optText _, trivial, wellFormed_optText _, hdueDate, Number.wellFormed_ofNat _,
    trivial, wellFormed_optText _, trivial⟩

end Job

namespace JobDefinition

theorem ofJson?_toJson (d : JobDefinition) : ofJson? d.toJson = some d :=
  Record.read_object <| text rfl <| text rfl <| text rfl <| optText rfl <| text rfl <|
    field rfl d.state.ofJson?_toJson <| pure d

theorem wellFormed_toJson (d : JobDefinition) : d.toJson.WellFormed :=
  ⟨trivial, trivial, trivial, wellFormed_optText _, trivial, trivial, trivial⟩

namespace Draft

/-- the activity is there, so that its default does not matter -/
theorem ofJson?_toJson (d : Draft) : ofJson? d.toJson = some d :=
  Record.read_object <| text rfl <| text rfl <| text rfl <|
    field rfl (nullable?_optText d.activityId) <| text rfl <|
    field rfl d.state.ofJson?_toJson <| pure d

theorem wellFormed_toJson (d : Draft) : d.toJson.WellFormed :=
  ⟨trivial, trivial, trivial, wellFormed_optText _, trivial, trivial, trivial⟩

end Draft
end JobDefinition

/-! ## process instances and tasks -/

namespace ProcessInstance

theorem ofJson?_toJson (p : ProcessInstance) : ofJson? p.toJson = some p :=
  Record.read_object <| text rfl <| text rfl <| text rfl <| pure p

theorem wellFormed_toJson (p : ProcessInstance) : p.toJson.WellFormed :=
  ⟨trivial, trivial, trivial, trivial⟩

end ProcessInstance

namespace TaskRecord

theorem ofJson?_toJson (t : TaskRecord) : ofJson? t.toJson = some t :=
  Record.read_object <| text rfl <| optText rfl <| optText rfl <| optText rfl <| optText rfl <|
    optText rfl <| optText rfl <| pure t

theorem wellFormed_toJson (t : TaskRecord) : t.toJson.WellFormed :=
  ⟨trivial, wellFormed_optText _, wellFormed_optText _, wellFormed_optText _,
    wellFormed_optText _, wellFormed_optText _, wellFormed_optText _, trivial⟩

end TaskRecord

end JobSuspension
