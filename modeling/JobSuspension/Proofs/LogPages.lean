import JobSuspension.Proofs.Recording

/-!
# Pages of the log and removals from it

A page is a piece of the entries that match, cut out of them as they stand in the log.  The next
offset is where the page ends, so that reading on until nothing is left gives every entry that
matches, once and in its place.  What is removed for an owner is every entry that names the owner;
the others are not looked at, so that removals can be made in any order.

* `LogQuery.Matches q e`, `DeleteScope.Covers o x`   what an entry says when it is listed or removed;
* `LogQuery.matching q log`         the entries that match, in recording order;
* `run_count`, `run_list`           what the journal answers about them;
* `LogQuery.ReadsOn env s q n l`    page after page from offset `n` on, up to the first empty one;
* `LogQuery.readsOn_iff`            these are all entries from there on;
* `DeleteScope.covered`, `DeleteScope.spared`   the entries that are removed, and those that are kept;
* `run_deleteBy`, `run_deleteBoth`  one removal, and two of them;
* `pages_and_removals_agree`        all of it.
-/

namespace JobSuspension

/-! ## entries -/

/-- the entry says what every filter that is present asks for -/
structure LogQuery.Matches (q : LogQuery) (e : LogEntry) : Prop where
  operationId : ∀ id, q.operationId = some id → e.operationId = id
  entityType : ∀ t, q.entityType = some t → e.entityType = t
  jobDefinitionId : ∀ id, q.jobDefinitionId = some id → e.selection.jobDefinitionId = some id
  processDefinitionKey : ∀ key, q.processDefinitionKey = some key →
    e.selection.processDefinitionKey = some key

/-- the owner is recorded -/
def DeleteScope.Covers (o : DeleteScope) (x : AuditSelection) : Prop :=
  match o with
  | processInstance id => x.processInstanceId = some id
  | caseInstance id => x.caseInstanceId = some id
  | caseDefinition id => x.caseDefinitionId = some id
  | task id => x.taskId = some id
  | processDefinition id => x.processDefinitionId = some id
  | processDefinitionKey key => x.processDefinitionKey = some key

theorem LogQuery.admits_eq_true {α : Type} [BEq α] [LawfulBEq α] {filter value : Option α} :
    admits filter value = true ↔ ∀ a, filter = some a → value = some a := by
  cases filter with
  | none => simp [admits]
  | some a => simp [admits]

theorem LogQuery.matchesEntry_eq_true {q : LogQuery} {e : LogEntry} :
    q.matchesEntry e = true ↔ q.Matches e := by
  simp only [matchesEntry, Bool.and_eq_true, admits_eq_true, Option.some.injEq]
  constructor
  · rintro ⟨⟨⟨hid, htype⟩, hdefinition⟩, hkey⟩
    exact ⟨hid, htype, hdefinition, hkey⟩
  · rintro ⟨hid, htype, hdefinition, hkey⟩
    exact ⟨⟨⟨hid, htype⟩, hdefinition⟩, hkey⟩

theorem DeleteScope.matchesSelection_eq_true {o : DeleteScope} {x : AuditSelection} :
    o.matchesSelection x = true ↔ o.Covers x := by
  cases o <;> exact beq_iff_eq

instance (q : LogQuery) (e : LogEntry) : Decidable (q.Matches e) :=
  decidable_of_iff _ LogQuery.matchesEntry_eq_true

instance (o : DeleteScope) (x : AuditSelection) : Decidable (o.Covers x) :=
  decidable_of_iff _ DeleteScope.matchesSelection_eq_true

/-! ## reading -/

namespace LogQuery

/-- the entries that match, in recording order -/
def matching (q : LogQuery) (log : List LogEntry) : List LogEntry := log.filter fun e => q.Matches e

theorem filter_matchesEntry (q : LogQuery) (log : List LogEntry) :
    log.filter q.matchesEntry = q.matching log := by
  refine List.filter_congr fun e _ => ?_
  rw [Bool.eq_iff_iff, matchesEntry_eq_true, decide_eq_true_iff]

/-- which entries match does not depend on the page -/
theorem matching_paged (q : LogQuery) (limit offset : Nat) (log : List LogEntry) :
    { q with limit := limit, offset := offset : LogQuery }.matching log = q.matching log := by
  rw [← filter_matchesEntry, ← filter_matchesEntry]
  rfl

end LogQuery

section
variable {env : Environment} (henv : env.Reliable) (s : Stores) (q : LogQuery)
include henv

theorem run_count : (Journal.count q).run env s = (.ok (q.matching s.log).length, s) := by
  rw [Journal.count, Command.run_call henv, ← q.filter_matchesEntry]
  rfl

theorem run_list (hlimit : 1 ≤ q.limit) (offset : Nat) :
    (Journal.list { q with offset := offset }).run env s =
      (.ok (((q.matching s.log).drop offset).take (min q.limit 500)), s) := by
  have hsize : q.pageSize = min q.limit 500 := by
    rw [LogQuery.pageSize, Nat.max_eq_left hlimit]
    rfl
  have hpositive : ¬ q.limit = 0 := by omega
  rw [Journal.list, if_neg hpositive, Command.run_call henv, ← q.filter_matchesEntry, ← hsize]
  rfl

end

/-- reading page after page from an offset on, up to the first page that is empty -/
inductive LogQuery.ReadsOn (env : Environment) (s : Stores) (q : LogQuery) :
    Nat → List LogEntry → Prop where
  | stop {offset : Nat}
      (hlist : (Journal.list { q with offset := offset }).run env s = (.ok [], s)) :
      ReadsOn env s q offset []
  | page {offset : Nat} {page rest : List LogEntry}
      (hlist : (Journal.list { q with offset := offset }).run env s = (.ok page, s))
      (hpage : page ≠ []) (hrest : ReadsOn env s q (offset + min q.limit 500) rest) :
      ReadsOn env s q offset (page ++ rest)

namespace LogQuery

variable {env : Environment} (henv : env.Reliable) {s : Stores} {q : LogQuery}
  (hlimit : 1 ≤ q.limit)
include henv hlimit

/-- a page and what comes after it are what there is from its offset on -/
theorem page_append_drop {offset : Nat} {page : List LogEntry}
    (hlist : (Journal.list { q with offset := offset }).run env s = (.ok page, s)) :
    page ++ (q.matching s.log).drop (offset + min q.limit 500) =
      (q.matching s.log).drop offset := by
  rw [run_list henv s q hlimit] at hlist
  obtain rfl := Except.ok.inj (Prod.mk.inj hlist).1
  rw [← List.drop_drop]
  exact List.take_append_drop _ _

/-- a page is empty only if nothing is left -/
theorem drop_eq_nil_of_page {offset : Nat}
    (hlist : (Journal.list { q with offset := offset }).run env s = (.ok [], s)) :
    (q.matching s.log).drop offset = [] := by
  rw [run_list henv s q hlimit] at hlist
  have hpage := Except.ok.inj (Prod.mk.inj hlist).1
  rcases List.take_eq_nil_iff.mp hpage with hzero | hnil
  · omega
  · exact hnil

/-- every page takes entries off what is left, so that reading comes to an end -/
theorem readsOn_drop (offset : Nat) :
    q.ReadsOn env s offset ((q.matching s.log).drop offset) := by
  have hlist := run_list henv s q hlimit offset
  by_cases hleft : (q.matching s.log).drop offset = []
  · rw [hleft, List.take_nil] at hlist
    rw [hleft]
    exact .stop hlist
  · rw [← page_append_drop henv hlimit hlist]
    refine .page hlist (fun hnil => ?_) (readsOn_drop _)
    exact hleft (drop_eq_nil_of_page henv hlimit (hnil ▸ hlist))
termination_by (q.matching s.log).length - offset
decreasing_by
  have hlong : offset < (q.matching s.log).length :=
    Nat.lt_of_not_le fun h => hleft (List.drop_eq_nil_of_le h)
  omega

theorem readsOn_iff {offset : Nat} {l : List LogEntry} :
    q.ReadsOn env s offset l ↔ l = (q.matching s.log).drop offset := by
  constructor
  · intro h
    induction h with
    | stop hlist => exact (drop_eq_nil_of_page henv hlimit hlist).symm
    | page hlist hpage hrest ih =>
      rw [ih]
      exact page_append_drop henv hlimit hlist
  · rintro rfl
    exact readsOn_drop henv hlimit offset

end LogQuery

/-! ## removing -/

namespace DeleteScope

def covered (o : DeleteScope) (log : List LogEntry) : List LogEntry :=
  log.filter fun e => o.Covers e.selection

def spared (o : DeleteScope) (log : List LogEntry) : List LogEntry :=
  log.filter fun e => ¬ o.Covers e.selection

theorem length_covered_add_spared (o : DeleteScope) (log : List LogEntry) :
    (o.covered log).length + (o.spared log).length = log.length := by
  unfold covered spared
  rw [← List.countP_eq_length_filter, ← List.countP_eq_length_filter]
  simpa using (List.length_eq_countP_add_countP fun e : LogEntry =>
    decide (o.Covers e.selection)).symm

/-- what is kept does not name the owner -/
theorem covered_spared (o : DeleteScope) (log : List LogEntry) : o.covered (o.spared log) = [] := by
  unfold covered spared
  rw [List.filter_filter, List.filter_eq_nil_iff]
  intro e _
  simp

theorem spared_spared (o : DeleteScope) (log : List LogEntry) :
    o.spared (o.spared log) = o.spared log := by
  unfold spared
  rw [List.filter_filter]
  simp

/-- an entry is kept by both or by neither, whichever comes first -/
theorem spared_comm (a b : DeleteScope) (log : List LogEntry) :
    b.spared (a.spared log) = a.spared (b.spared log) := by
  unfold spared
  rw [List.filter_filter, List.filter_filter]
  exact List.filter_congr fun e _ => Bool.and_comm _ _

/-- the second removal counts the entries that the first one left to it -/
theorem length_covered_add_covered (a b : DeleteScope) (log : List LogEntry) :
    (a.covered log).length + (b.covered (a.spared log)).length =
      (log.filter fun e => a.Covers e.selection ∨ b.Covers e.selection).length := by
  induction log with
  | nil => rfl
  | cons e log ih =>
    unfold covered spared at ih ⊢
    by_cases ha : a.Covers e.selection <;> by_cases hb : b.Covers e.selection <;>
      simp [ha, hb] at ih ⊢ <;> omega

end DeleteScope

section
variable {env : Environment} (henv : env.Reliable) (s : Stores)
include henv

theorem run_deleteBy (o : DeleteScope) :
    (Journal.deleteBy o).run env s =
      (.ok (o.covered s.log).length, { s with log := o.spared s.log }) := by
  have hkept : (s.log.filter fun e => !o.matchesSelection e.selection) = o.spared s.log := by
    refine List.filter_congr fun e _ => ?_
    rw [Bool.eq_iff_iff, Bool.not_eq_true', ← Bool.not_eq_true,
      DeleteScope.matchesSelection_eq_true, decide_eq_true_iff]
  have hcount : s.log.length - (o.spared s.log).length = (o.covered s.log).length := by
    have hlength := o.length_covered_add_spared s.log
    omega
  rw [Journal.deleteBy, Command.run_call henv]
  simp only [Call.perform, DeleteScope.removeFrom, hkept, hcount]

end

/-- two removals, one after the other, with the number of entries removed in all -/
def Journal.deleteBoth (a b : DeleteScope) : Command Nat := do
  let removed ← Journal.deleteBy a
  let others ← Journal.deleteBy b
  return removed + others

theorem run_deleteBoth {env : Environment} (henv : env.Reliable) (s : Stores)
    (a b : DeleteScope) :
    (Journal.deleteBoth a b).run env s =
      (.ok (s.log.filter fun e => a.Covers e.selection ∨ b.Covers e.selection).length,
        { s with log := b.spared (a.spared s.log) }) := by
  unfold Journal.deleteBoth
  simp only [Command.run_bind, run_deleteBy henv, Command.run_pure,
    DeleteScope.length_covered_add_covered]

/-- **Pages and removals agree.**  The count is that of all entries that match, whatever the page.
The page at an offset starts there among them, and reading page after page until one is empty gives
them all, in their order.  A removal counts and removes the entries of its owner and no others, and
leaves nothing for a second one; two removals come to the same in either order, and together count
the entries that name one of the owners. -/
theorem pages_and_removals_agree {env : Environment} (henv : env.Reliable) (s : Stores) :
    (∀ (q : LogQuery) (limit offset : Nat),
      (Journal.count { q with limit := limit, offset := offset }).run env s =
        (.ok (q.matching s.log).length, s)) ∧
    (∀ q : LogQuery, 1 ≤ q.limit →
      (∀ offset, (Journal.list { q with offset := offset }).run env s =
        (.ok (((q.matching s.log).drop offset).take (min q.limit 500)), s)) ∧
      ∀ l, q.ReadsOn env s 0 l ↔ l = q.matching s.log) ∧
    (∀ o : DeleteScope,
      (Journal.deleteBy o).run env s =
        (.ok (o.covered s.log).length, { s with log := o.spared s.log }) ∧
      (Journal.deleteBy o).run env { s with log := o.spared s.log } =
        (.ok 0, { s with log := o.spared s.log })) ∧
    ∀ a b : DeleteScope,
      ((Journal.deleteBoth a b).run env s).1 =
        .ok (s.log.filter fun e => a.Covers e.selection ∨ b.Covers e.selection).length ∧
      (Journal.deleteBoth a b).run env s = (Journal.deleteBoth b a).run env s := by
  refine ⟨fun q limit offset => ?_, fun q hlimit => ⟨?_, fun l => ?_⟩, fun o => ⟨?_, ?_⟩,
    fun a b => ⟨?_, ?_⟩⟩
  · rw [run_count henv, LogQuery.matching_paged]
  · exact run_list henv s q hlimit
  · rw [LogQuery.readsOn_iff henv hlimit, List.drop_zero]
  · exact run_deleteBy henv s o
  · rw [run_deleteBy henv, o.covered_spared, o.spared_spared]
    rfl
  · rw [run_deleteBoth henv]
  · rw [run_deleteBoth henv, run_deleteBoth henv, DeleteScope.spared_comm]
    simp only [or_comm]

/-- three entries on pages of two; the second has both owners and is counted once -/
theorem pages_and_removals_agree_shared :
    let env : Environment := { ids := ⟨fun _ => "timer", fun _ => "entry", fun _ => "operation"⟩ }
    let row (id : String) (x : AuditSelection) : LogEntry :=
      ⟨id, "operation", .update, .task, none, .epoch, x, none, none, none⟩
    let rows : List LogEntry :=
      [row "1" { taskId := some "t" },
        row "2" { taskId := some "t", processInstanceId := some "p" },
        row "3" { processInstanceId := some "p" }]
    let s : Stores := { log := rows }
    let q : LogQuery := { limit := 2 }
    env.Reliable ∧ 1 ≤ q.limit ∧ q.ReadsOn env s 0 rows ∧
      (Journal.list { q with offset := 2 }).run env s =
        (.ok [row "3" { processInstanceId := some "p" }], s) ∧
      ((Journal.deleteBoth (.task "t") (.processInstance "p")).run env s).1 = .ok 3 := by
  intro env row rows s q
  have henv : env.Reliable := ⟨fun _ => rfl, rfl⟩
  have hlimit : 1 ≤ q.limit := by decide
  obtain ⟨-, hread, -, hremove⟩ := pages_and_removals_agree henv s
  obtain ⟨hpage, hall⟩ := hread q hlimit
  have hmatching : q.matching s.log = rows := rfl
  have hboth := (hremove (.task "t") (.processInstance "p")).1
  rw [hmatching] at hall
  refine ⟨henv, hlimit, (hall rows).mpr rfl, ?_, hboth.trans ?_⟩
  · rw [hpage 2, hmatching]
    rfl
  · rfl

end JobSuspension
