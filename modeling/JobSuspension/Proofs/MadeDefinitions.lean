import JobSuspension.Proofs.RecordText
import JobSuspension.Proofs.Representation
import JobSuspension.Proofs.Seeding

/-!
# Job definitions that were made and that were read

A job definition that is made from a draft is checked, and no change of its state undoes that.  One
that is read from a text is not checked at all: any job definition whatever is read from its own
text.  But a text that is read as a job definition can be read as a draft as well, and whether this
draft is granted as it is says whether the job definition is in order.

* `JobDefinition.Made d`            made from a draft, whatever its state was set to since;
* `JobDefinition.toDraft d`         the draft that asks for `d`;
* `wellFormed_iff_ofDraft`          the job definitions in order are those that are granted as asked;
* `Fields.Within g p q`             what `p` reads, `q` reads as well, up to `g`;
* `JobDefinition.ofJson?_toDraft`   so it is with job definitions and their drafts;
* `well_formed_exactly_when_made`   all of it.
-/

namespace JobSuspension

open Json

/-! ## making -/

namespace JobDefinition

inductive Made : JobDefinition → Prop where
  | ofDraft {draft : Draft} {d : JobDefinition} (h : ofDraft draft = .ok d) : Made d
  | withState {d : JobDefinition} (h : Made d) (state : SuspensionState) : Made (d.withState state)

def toDraft (d : JobDefinition) : Draft where
  id := d.id
  processDefinitionId := d.processDefinitionId
  processDefinitionKey := d.processDefinitionKey
  activityId := d.activityId
  jobType := d.jobType
  state := d.state

theorem wellFormed_of_made {d : JobDefinition} (h : d.Made) : d.WellFormed := by
  induction h with
  | ofDraft h => exact wellFormed_of_ofDraft h
  | withState h state ih =>
    exact ⟨ih.id, ih.processDefinitionId, ih.processDefinitionKey, ih.jobType, ih.activityId⟩

theorem wellFormed_iff_ofDraft {d : JobDefinition} :
    d.WellFormed ↔ ofDraft d.toDraft = .ok d := by
  refine ⟨fun h => ?_, wellFormed_of_ofDraft⟩
  have hactivity : Text.trimmed? d.activityId = d.activityId := by
    cases ha : d.activityId with
    | none => rfl
    | some a => exact (h.activityId a ha).trimmed?_eq
  have hblank : ¬ d.toDraft.HasBlank := by
    unfold Draft.HasBlank
    simp only [toDraft, Text.isBlank_eq_false.mpr h.id,
      Text.isBlank_eq_false.mpr h.processDefinitionId,
      Text.isBlank_eq_false.mpr h.processDefinitionKey, Text.isBlank_eq_false.mpr h.jobType,
      Bool.false_eq_true, or_self, not_false_eq_true]
  have hbuilt : d.toDraft.built = d := by
    unfold Draft.built toDraft
    rw [hactivity]
  rw [ofDraft_eq, if_neg hblank, hbuilt]

theorem made_iff_wellFormed {d : JobDefinition} : d.Made ↔ d.WellFormed :=
  ⟨wellFormed_of_made, fun h => .ofDraft (wellFormed_iff_ofDraft.mp h)⟩

end JobDefinition

/-! ## reading -/

namespace Json.Record.Fields

variable {α β γ : Type}

def Within (g : α → β) (p : Fields α) (q : Fields β) : Prop :=
  ∀ src a rest, p src = some (a, rest) → q src = some (g a, rest)

namespace Within

theorem refl (p : Fields α) : Within id p p := fun _ _ _ h => h

theorem pure (g : α → β) (a : α) : Within g (pure a) (pure (g a)) := by
  intro src a rest h
  cases h
  rfl

theorem bind {g : β → γ} {p q : Fields α} {k : α → Fields β} {k' : α → Fields γ}
    (hp : Within id p q) (hk : ∀ a, Within g (k a) (k' a)) : Within g (p >>= k) (q >>= k') := by
  intro src b rest h
  change (p src).bind (fun x => k x.1 x.2) = some (b, rest) at h
  show (q src).bind (fun x => k' x.1 x.2) = some (g b, rest)
  obtain ⟨⟨a, src'⟩, hpsrc, hksrc⟩ := Option.bind_eq_some_iff.mp h
  rw [hp src a src' hpsrc]
  exact hk a src' b rest hksrc

/-- a field that may be left out in more places -/
theorem field {name : String} {f : Value → Option α} {unnamed unnamed' unlisted unlisted' : Option α}
    (hunnamed : ∀ a, unnamed = some a → unnamed' = some a)
    (hunlisted : ∀ a, unlisted = some a → unlisted' = some a) :
    Within id (field name f unnamed unlisted) (field name f unnamed' unlisted') := by
  intro src a rest h
  cases src with
  | named ms =>
    unfold Record.field at h ⊢
    cases hname : single? name ms with
    | none =>
      simp only [hname, Option.bind_eq_bind, Option.bind_none, reduceCtorEq] at h
    | some member =>
      simp only [hname, Option.bind_eq_bind, Option.bind_some] at h ⊢
      cases member with
      | some v => exact h
      | none =>
        obtain ⟨b, hb, hrest⟩ := Option.bind_eq_some_iff.mp h
        cases hrest
        exact Option.bind_eq_some_iff.mpr ⟨a, hunnamed a hb, rfl⟩
  | listed vs =>
    cases vs with
    | cons v vs => exact h
    | nil =>
      obtain ⟨b, hb, hrest⟩ := Option.map_eq_some_iff.mp h
      cases hrest
      exact Option.map_eq_some_iff.mpr ⟨a, hunlisted a hb, rfl⟩

theorem read {g : α → β} {p : Fields α} {q : Fields β} (h : Within g p q) {v : Value} {a : α}
    (hv : read p v = some a) : read q v = some (g a) := by
  cases v with
  | object ms =>
    obtain ⟨⟨b, rest⟩, hp, rfl⟩ := Option.map_eq_some_iff.mp hv
    exact Option.map_eq_some_iff.mpr ⟨_, h _ _ _ hp, rfl⟩
  | array vs =>
    unfold Record.read at hv ⊢
    simp only at hv ⊢
    split at hv
    · next b hp =>
      cases hv
      rw [h _ _ _ hp]
    · cases hv
  | _ => cases hv

end Within
end Json.Record.Fields

namespace JobDefinition

open Record.Fields

/-- whatever has all the fields of a job definition has those of a draft -/
theorem ofJson?_toDraft {v : Value} {d : JobDefinition} (h : ofJson? v = some d) :
    Draft.ofJson? v = some d.toDraft := by
  refine Within.read ?_ h
  refine .bind (.refl _) fun id => .bind (.refl _) fun processDefinitionId =>
    .bind (.refl _) fun processDefinitionKey => .bind ?_ fun activityId =>
    .bind (.refl _) fun jobType => .bind ?_ fun state => .pure toDraft _
  -- only the activity and the state may be left out of a draft where a job definition needs them
  · exact .field (fun _ h => h) fun _ h => by cases h
  · exact .field (fun _ h => by cases h) fun _ h => by cases h

end JobDefinition

/-- **A job definition is in order exactly if it can be made.**  Those that are made from a draft,
with their state set or not, are the ones without blanks.  Reading gives any job definition at all,
since nothing is checked; the one that was read is in order exactly if the same text, read as a
draft, is granted as it is. -/
theorem well_formed_exactly_when_made (d : JobDefinition) :
    (d.Made ↔ d.WellFormed) ∧
    (∃ text, (read text).bind JobDefinition.ofJson? = some d) ∧
    ∀ text, (read text).bind JobDefinition.ofJson? = some d →
      ∃ draft, (read text).bind JobDefinition.Draft.ofJson? = some draft ∧
        (d.WellFormed ↔ JobDefinition.ofDraft draft = .ok d) := by
  refine ⟨JobDefinition.made_iff_wellFormed, ?_, fun text h => ?_⟩
  · exact ⟨_, roundTrips JobDefinition.wellFormed_toJson JobDefinition.ofJson?_toJson d⟩
  · obtain ⟨v, hv, hd⟩ := Option.bind_eq_some_iff.mp h
    refine ⟨d.toDraft, ?_, JobDefinition.wellFormed_iff_ofDraft⟩
    rw [hv, Option.bind_some, JobDefinition.ofJson?_toDraft hd]

/-- a job definition with a blank id, as it was read -/
theorem well_formed_exactly_when_made_blank :
    let text := "\x7b\"id\":\" \",\"process_definition_id\":\"order:1\"," ++
      "\"process_definition_key\":\"order\",\"activity_id\":null,\"job_type\":\"message\"," ++
      "\"suspension_state\":\"active\"\x7d"
    let d : JobDefinition := ⟨" ", "order:1", "order", none, "message", .active⟩
    (read text).bind JobDefinition.ofJson? = some d ∧ ¬ d.WellFormed ∧ ¬ d.Made ∧
      ∃ draft, (read text).bind JobDefinition.Draft.ofJson? = some draft ∧
        JobDefinition.ofDraft draft ≠ .ok d := by
  intro text d
  have hread : (read text).bind JobDefinition.ofJson? = some d := by
    simp +zetaDelta only
    decide +kernel
  obtain ⟨hmade, -, hdrafts⟩ := well_formed_exactly_when_made d
  obtain ⟨draft, hdraft, hgranted⟩ := hdrafts text hread
  have hblank : ¬ d.WellFormed := fun h => by
    have hid := Text.isBlank_eq_false.mpr h.id
    exact absurd hid (by decide)
  exact ⟨hread, hblank, mt hmade.mp hblank, draft, hdraft, mt hgranted.mpr hblank⟩

end JobSuspension
