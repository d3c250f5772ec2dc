import JobSuspension.Engine.Stores
import JobSuspension.Proofs.Instants
import JobSuspension.Proofs.Records
import Mathlib.Data.List.Nodup

/-!
# Acquiring timers

The order of acquisition is total on jobs with different ids, so the first due timers do not depend
on the order in which the jobs are looked at.

* `Job.dueBefore_total`, `dueBefore_trans`, `dueBefore_antisymm`   the order;
* `Job.allDue`                 all due timers in this order, of which a pass acquires the first;
* `Job.mem_firstDue`           what is acquired is among the jobs and is wanted;
* `Job.nodup_firstDue`         no id is acquired twice;
* `Job.firstDue_eq`            what is acquired, for jobs that are already in order;
* `Job.length_firstDue_of_notMem`   what a wanted timer that is not acquired gives way to.
-/

namespace JobSuspension

/-- what is taken out of a list without repetitions, and what is left of it -/
theorem perm_append_filter_notMem {α : Type} [DecidableEq α] {taken l : List α}
    (htaken : taken.Nodup) (hl : l.Nodup) (h : taken ⊆ l) :
    (taken ++ l.filter (· ∉ taken)).Perm l := by
  have hsplit := List.filter_append_perm (· ∈ taken) l
  simp only [← decide_not] at hsplit
  refine List.Perm.trans (List.Perm.append_right _ ?_) hsplit
  refine (List.perm_ext_iff_of_nodup htaken (hl.filter _)).mpr fun a => ?_
  rw [List.mem_filter, decide_eq_true_eq]
  exact ⟨fun ha => ⟨h ha, ha⟩, And.right⟩

namespace Job

variable {a b c : Job}

/-! ## the order -/

theorem dueBefore_total (a b : Job) : (dueBefore a b || dueBefore b a) = true := by
  unfold dueBefore
  cases ha : a.dueDate <;> cases hb : b.dueDate <;> simp only [Bool.or_eq_true, Bool.and_eq_true,
    decide_eq_true_eq, beq_iff_eq, Bool.true_or, Bool.or_true]
  · exact String.le_total _ _
  · next x y =>
    rcases Instant.lt_or_eq_or_gt x y with h | h | h
    · exact .inl (.inl h)
    · rcases String.le_total a.id b.id with h' | h'
      · exact .inl (.inr ⟨h, h'⟩)
      · exact .inr (.inr ⟨h.symm, h'⟩)
    · exact .inr (.inl h)

theorem dueBefore_trans (h : dueBefore a b = true) (h' : dueBefore b c = true) :
    dueBefore a c = true := by
  unfold dueBefore at *
  cases ha : a.dueDate <;> cases hb : b.dueDate <;> cases hc : c.dueDate <;>
    simp only [ha, hb, hc, Bool.or_eq_true, Bool.and_eq_true, decide_eq_true_eq,
      beq_iff_eq, reduceCtorEq] at *
  · exact String.le_trans h h'
  · rcases h with h | ⟨rfl, h⟩
    · rcases h' with h' | ⟨rfl, h'⟩
      · exact .inl (Instant.lt_trans h h')
      · exact .inl h
    · rcases h' with h' | ⟨rfl, h'⟩
      · exact .inl h'
      · exact .inr ⟨rfl, String.le_trans h h'⟩

theorem dueBefore_antisymm (h : dueBefore a b = true) (h' : dueBefore b a = true) :
    a.dueDate = b.dueDate ∧ a.id = b.id := by
  unfold dueBefore at *
  cases ha : a.dueDate <;> cases hb : b.dueDate <;>
    simp only [ha, hb, Bool.or_eq_true, Bool.and_eq_true, decide_eq_true_eq,
      beq_iff_eq, reduceCtorEq] at *
  · exact ⟨trivial, String.le_antisymm h h'⟩
  · rcases h with h | ⟨rfl, h⟩
    · rcases h' with h' | ⟨rfl, h'⟩
      · exact absurd (Instant.lt_trans h h') (Instant.lt_irrefl _)
      · exact absurd h (Instant.lt_irrefl _)
    · rcases h' with h' | ⟨-, h'⟩
      · exact absurd h' (Instant.lt_irrefl _)
      · exact ⟨rfl, String.le_antisymm h h'⟩

/-! ## due timers -/

section
variable {jobs : List Job} {now : Instant} {types : List String} {limit : Nat}

/-- all timers that are due, in the order in which they are acquired -/
def allDue (jobs : List Job) (now : Instant) (types : List String) : List Job :=
  (jobs.filter (isWanted types now)).mergeSort dueBefore

theorem firstDue_eq_take (jobs : List Job) (now : Instant) (types : List String) (limit : Nat) :
    firstDue jobs now types limit = (allDue jobs now types).take limit := rfl

theorem mem_allDue : a ∈ allDue jobs now types ↔ a ∈ jobs ∧ isWanted types now a = true := by
  rw [allDue, List.mem_mergeSort, List.mem_filter]

theorem pairwise_allDue :
    (allDue jobs now types).Pairwise fun a b => dueBefore a b = true := by
  refine List.pairwise_mergeSort ?_ dueBefore_total _
  intro a b c hab hbc
  exact dueBefore_trans hab hbc

theorem nodup_allDue (h : (jobs.map Job.id).Nodup) :
    ((allDue jobs now types).map Job.id).Nodup := by
  have hfilter : ((jobs.filter (isWanted types now)).map Job.id).Nodup :=
    h.sublist (List.filter_sublist.map Job.id)
  have hsort := (List.mergeSort_perm (jobs.filter (isWanted types now)) dueBefore).map Job.id
  exact hsort.symm.nodup hfilter

/-- jobs without a common id that are in order already and are exactly the wanted ones -/
theorem allDue_eq {wanted : List Job} (hjobs : jobs.Nodup) (hids : (wanted.map Job.id).Nodup)
    (hsorted : wanted.Pairwise fun a b => dueBefore a b = true)
    (hmem : ∀ a, a ∈ wanted ↔ a ∈ jobs ∧ isWanted types now a = true) :
    allDue jobs now types = wanted := by
  have hperm : (allDue jobs now types).Perm wanted := by
    refine (List.mergeSort_perm _ _).trans ?_
    refine (List.perm_ext_iff_of_nodup (hjobs.filter _) (hids.of_map _)).mpr fun a => ?_
    rw [List.mem_filter, hmem]
  refine List.Perm.eq_of_pairwise ?_ pairwise_allDue hsorted hperm
  intro a b ha hb hab hba
  exact List.inj_on_of_nodup_map hids (hperm.mem_iff.mp ha) hb (dueBefore_antisymm hab hba).2

/-! ## the first of them -/

theorem mem_firstDue (h : a ∈ firstDue jobs now types limit) :
    a ∈ jobs ∧ isWanted types now a = true :=
  mem_allDue.mp (List.mem_of_mem_take h)

theorem length_firstDue_le : (firstDue jobs now types limit).length ≤ limit :=
  List.length_take_le _ _

theorem nodup_firstDue (h : (jobs.map Job.id).Nodup) :
    ((firstDue jobs now types limit).map Job.id).Nodup :=
  (nodup_allDue h).sublist ((List.take_sublist _ _).map Job.id)

theorem firstDue_eq {wanted : List Job} (hjobs : jobs.Nodup) (hids : (wanted.map Job.id).Nodup)
    (hsorted : wanted.Pairwise fun a b => dueBefore a b = true)
    (hmem : ∀ a, a ∈ wanted ↔ a ∈ jobs ∧ isWanted types now a = true) :
    firstDue jobs now types limit = wanted.take limit := by
  rw [firstDue_eq_take, allDue_eq hjobs hids hsorted hmem]

/-- jobs that are all wanted and in order already -/
theorem firstDue_of_sorted (hwanted : ∀ a ∈ jobs, isWanted types now a = true)
    (hsorted : jobs.Pairwise fun a b => dueBefore a b = true) (hlength : jobs.length ≤ limit) :
    firstDue jobs now types limit = jobs := by
  unfold firstDue
  rw [List.filter_eq_self.mpr hwanted, List.mergeSort_of_pairwise hsorted,
    List.take_of_length_le hlength]

/-- a wanted timer that is not acquired gives way to a full batch of timers due before it -/
theorem length_firstDue_of_notMem (ha : a ∈ jobs) (hw : isWanted types now a = true)
    (hn : a ∉ firstDue jobs now types limit) :
    (firstDue jobs now types limit).length = limit ∧
      ∀ b ∈ firstDue jobs now types limit, dueBefore b a = true := by
  rw [firstDue_eq_take] at hn ⊢
  have hmem : a ∈ allDue jobs now types := mem_allDue.mpr ⟨ha, hw⟩
  have hsplit := List.take_append_drop limit (allDue jobs now types)
  have hdrop : a ∈ (allDue jobs now types).drop limit := by
    rw [← hsplit, List.mem_append] at hmem
    exact hmem.resolve_left hn
  have hlong : limit < (allDue jobs now types).length := by
    have hpos := List.length_pos_of_mem hdrop
    rw [List.length_drop] at hpos
    omega
  have hsorted : (allDue jobs now types).Pairwise fun a b => dueBefore a b = true :=
    pairwise_allDue
  rw [← hsplit] at hsorted
  refine ⟨?_, fun b hb => ?_⟩
  · rw [List.length_take]
    omega
  · exact (List.pairwise_append.mp hsorted).2.2 b hb a hdrop

end
end Job

/-! ## stored jobs -/

theorem Table.KeyedBy.map_values {α : Type} {f : α → String} {t : Table α} (h : t.KeyedBy f) :
    t.values.map f = t.keys := by
  unfold Table.values Table.keys
  rw [List.map_map]
  refine List.map_congr_left fun e he => ?_
  exact h e.1 e.2 (Table.get?_eq_some.mpr he)

theorem Table.nodup_keys {α : Type} (t : Table α) : t.keys.Nodup := by
  refine List.Pairwise.map _ (R := fun x y : String × α => x.1 < y.1) ?_ t.increasing
  intro x y hxy e
  exact String.lt_irrefl y.1 (e ▸ hxy)

namespace Stores

variable {s : Stores} (hs : s.jobs.KeyedBy Job.id)
include hs

theorem nodup_values : (s.jobs.values.map Job.id).Nodup := by
  rw [hs.map_values]
  exact Table.nodup_keys _

theorem mem_values {j : Job} : j ∈ s.jobs.values ↔ s.jobs.get? j.id = some j := by
  rw [Table.mem_values]
  refine ⟨?_, fun h => ⟨j.id, h⟩⟩
  rintro ⟨k, hk⟩
  rw [hs k j hk]
  exact hk

end Stores
end JobSuspension
