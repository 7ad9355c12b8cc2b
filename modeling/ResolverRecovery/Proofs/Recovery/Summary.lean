import Mathlib.Algebra.BigOperators.Group.List.Basic
import Mathlib.Algebra.Ring.Nat
import Mathlib.Data.List.Induction
import Mathlib.Data.List.Perm.Basic
import Mathlib.Data.List.Sort
import ResolverRecovery.Recovery.Event

/-!
# What a summary depends on

A summary is made of the numbers of events of each kind.  They are counted one event after the
other into a map that gives its entries out in no particular order.  Neither this order nor that of
the events shows in the summary: the entries are put into words and the words into alphabetical
order, and there is one such order of the same words.

Diagnostics do not show either, unless there is nothing else.

## Main definitions

* `EventLog.tally`: the events of a log counted one after the other.
* `EventLog.Enumerates`: the counts of a log in some order.
* `EventLog.advances`: the events that are not diagnostics.

## Main statements

* `EventLog.enumerates_tally`: counting one event after the other leads to the counts of the log.
* `EventLog.summaryOf_congr`: a summary depends on the parts that it is made of, in any order.
* `EventLog.summary_canonical`: a summary depends on the events but for their order.
-/

namespace ResolverRecovery

theorem EventKind.mem_all (k : EventKind) : k ∈ EventKind.all := by
  cases k <;> decide

theorem EventKind.nodup_all : EventKind.all.Nodup := by
  decide

namespace EventLog

variable {log log' : EventLog} {counts counts' : List (EventKind × Nat)} {k k' : EventKind}
variable {n : Nat}

/-! ### The events of a kind -/

theorem has_iff : log.has k = true ↔ 0 < log.count k := by
  rw [has, List.any_eq_true, count, ofKind, List.length_pos_iff_exists_mem]
  simp only [List.mem_filter]

theorem count_push (log : EventLog) (e : Event) (k : EventKind) :
    (log.push e).count k = log.count k + if e.kind = k then 1 else 0 := by
  rw [count, ofKind, push, List.filter_append, List.length_append, count, ofKind]
  by_cases hk : e.kind = k
  · simp [hk]
  · simp [hk]

theorem count_of_perm (h : log.events.Perm log'.events) (k : EventKind) :
    log.count k = log'.count k :=
  (h.filter _).length_eq

theorem has_of_perm (h : log.events.Perm log'.events) (k : EventKind) : log.has k = log'.has k :=
  h.any_eq

theorem countByKind_of_perm (h : log.events.Perm log'.events) :
    log.countByKind = log'.countByKind := by
  rw [countByKind, countByKind, funext (has_of_perm h), funext (count_of_perm h)]

theorem mem_countByKind : (k, n) ∈ log.countByKind ↔ log.has k = true ∧ n = log.count k := by
  rw [countByKind, List.mem_map]
  constructor
  · rintro ⟨k', hk', ⟨⟩⟩
    exact ⟨(List.mem_filter.mp hk').2, rfl⟩
  · rintro ⟨hhas, rfl⟩
    exact ⟨k, List.mem_filter.mpr ⟨k.mem_all, hhas⟩, rfl⟩

theorem map_fst_countByKind (log : EventLog) :
    log.countByKind.map Prod.fst = EventKind.all.filter log.has := by
  rw [countByKind, List.map_map]
  exact List.map_id _

theorem nodup_countByKind (log : EventLog) : log.countByKind.Nodup := by
  refine List.Nodup.of_map Prod.fst ?_
  rw [map_fst_countByKind]
  exact EventKind.nodup_all.filter _

/-! ### Counting one event after the other -/

/-- Counts one more event of a kind. -/
def countOne (k : EventKind) : List (EventKind × Nat) → List (EventKind × Nat)
  | [] => [(k, 1)]
  | c :: rest => if c.1 = k then (k, c.2 + 1) :: rest else c :: countOne k rest

/-- Counts events by kind, one after the other. -/
def tally (events : List Event) : List (EventKind × Nat) :=
  events.foldl (fun counts e => countOne e.kind counts) []

theorem mem_kinds_countOne :
    k' ∈ (countOne k counts).map Prod.fst ↔ k' ∈ counts.map Prod.fst ∨ k' = k := by
  induction counts with
  | nil => simp [countOne]
  | cons c rest ih =>
      rw [countOne]
      split
      · rename_i hk
        rw [← hk]
        simp only [List.map_cons, List.mem_cons]
        tauto
      · simp only [List.map_cons, List.mem_cons, ih, or_assoc]

theorem nodup_countOne (h : (counts.map Prod.fst).Nodup) :
    ((countOne k counts).map Prod.fst).Nodup := by
  induction counts with
  | nil => exact List.nodup_singleton k
  | cons c rest ih =>
      rw [countOne]
      split
      · rename_i hk
        rw [← hk]
        exact h
      · rename_i hk
        rw [List.map_cons, List.nodup_cons] at h ⊢
        refine ⟨?_, ih h.2⟩
        rw [mem_kinds_countOne, not_or]
        exact ⟨h.1, hk⟩

theorem sum_countOne (k : EventKind) (counts : List (EventKind × Nat)) :
    ((countOne k counts).map Prod.snd).sum = (counts.map Prod.snd).sum + 1 := by
  induction counts with
  | nil => rfl
  | cons c rest ih =>
      rw [countOne]
      split
      · simp only [List.map_cons, List.sum_cons]
        omega
      · simp only [List.map_cons, List.sum_cons, ih]
        omega

/-- An entry is one from before, or that of the kind, which counts one more. -/
theorem of_mem_countOne (hnodup : (counts.map Prod.fst).Nodup) (h : (k', n) ∈ countOne k counts) :
    k' ≠ k ∧ (k', n) ∈ counts ∨
      k' = k ∧ ∃ m, n = m + 1 ∧ ((k, m) ∈ counts ∨ m = 0 ∧ k ∉ counts.map Prod.fst) := by
  induction counts with
  | nil =>
      cases List.mem_singleton.mp h
      exact .inr ⟨rfl, 0, rfl, .inr ⟨rfl, List.not_mem_nil⟩⟩
  | cons c rest ih =>
      rw [List.map_cons, List.nodup_cons] at hnodup
      rw [countOne] at h
      split at h
      · rename_i hk
        subst hk
        rcases List.mem_cons.mp h with hhead | hrest
        · cases hhead
          exact .inr ⟨rfl, c.2, rfl, .inl List.mem_cons_self⟩
        · refine .inl ⟨?_, List.mem_cons_of_mem _ hrest⟩
          rintro rfl
          exact hnodup.1 (List.mem_map.mpr ⟨_, hrest, rfl⟩)
      · rename_i hk
        rcases List.mem_cons.mp h with rfl | hrest
        · exact .inl ⟨hk, List.mem_cons_self⟩
        · rcases ih hnodup.2 hrest with ⟨hne, hmem⟩ | ⟨rfl, m, rfl, hm⟩
          · exact .inl ⟨hne, List.mem_cons_of_mem _ hmem⟩
          · refine .inr ⟨rfl, m, rfl, ?_⟩
            rcases hm with hmem | ⟨hzero, habsent⟩
            · exact .inl (List.mem_cons_of_mem _ hmem)
            · refine .inr ⟨hzero, ?_⟩
              rw [List.map_cons, List.mem_cons, not_or]
              exact ⟨Ne.symm hk, habsent⟩

/-- The counts are those of the log: one for each kind that occurs. -/
structure Counted (log : EventLog) (counts : List (EventKind × Nat)) : Prop where
  nodup : (counts.map Prod.fst).Nodup
  mem_kinds : ∀ k, k ∈ counts.map Prod.fst ↔ log.has k = true
  eq_count : ∀ k n, (k, n) ∈ counts → n = log.count k
  sum : (counts.map Prod.snd).sum = log.size

theorem Counted.push (h : log.Counted counts) (e : Event) :
    (log.push e).Counted (countOne e.kind counts) where
  nodup := nodup_countOne h.nodup
  mem_kinds k := by
    rw [mem_kinds_countOne, h.mem_kinds, has_iff, has_iff, count_push]
    by_cases hk : e.kind = k
    · simp [hk]
    · simp [hk, Ne.symm hk]
  eq_count k n hmem := by
    rw [count_push]
    rcases of_mem_countOne h.nodup hmem with ⟨hne, hold⟩ | ⟨rfl, m, rfl, hold | ⟨rfl, habsent⟩⟩
    · rw [if_neg (Ne.symm hne), h.eq_count k n hold, Nat.add_zero]
    · rw [if_pos rfl, h.eq_count _ m hold]
    · rw [h.mem_kinds, has_iff] at habsent
      rw [if_pos rfl]
      omega
  sum := by
    rw [sum_countOne, h.sum, size, size, EventLog.push, List.length_append, List.length_singleton]

theorem counted_tally (log : EventLog) : log.Counted (tally log.events) := by
  obtain ⟨events⟩ := log
  -- the last event of the log is counted last
  induction events using List.reverseRecOn with
  | nil =>
      refine ⟨List.nodup_nil, fun k => ?_, nofun, rfl⟩
      exact iff_of_false List.not_mem_nil Bool.false_ne_true
  | append_singleton events e ih =>
      show EventLog.Counted (EventLog.push ⟨events⟩ e) (tally (events ++ [e]))
      rw [tally, List.foldl_append]
      exact ih.push e

/-- Counts of the same log have the same entries. -/
theorem Counted.mem_iff (h : log.Counted counts) :
    (k, n) ∈ counts ↔ log.has k = true ∧ n = log.count k := by
  constructor
  · intro hmem
    exact ⟨(h.mem_kinds k).mp (List.mem_map.mpr ⟨_, hmem, rfl⟩), h.eq_count k n hmem⟩
  · rintro ⟨hhas, rfl⟩
    obtain ⟨⟨_, m⟩, hmem, rfl⟩ := List.mem_map.mp ((h.mem_kinds k).mpr hhas)
    rw [← h.eq_count _ m hmem]
    exact hmem

/-- The entries of a map of counts, given out in some order. -/
def Enumerates (log : EventLog) (counts : List (EventKind × Nat)) : Prop :=
  counts.Perm log.countByKind

/-- Counting one event after the other leads to the counts of the log. -/
theorem enumerates_tally (log : EventLog) : log.Enumerates (tally log.events) := by
  have hcounted := log.counted_tally
  refine (List.perm_ext_iff_of_nodup (hcounted.nodup.of_map _) log.nodup_countByKind).mpr ?_
  rintro ⟨k, n⟩
  rw [hcounted.mem_iff, mem_countByKind]

theorem Enumerates.sum_eq (h : log.Enumerates counts) : (counts.map Prod.snd).sum = log.size := by
  rw [← log.counted_tally.sum]
  exact ((h.trans log.enumerates_tally.symm).map _).sum_eq

theorem Enumerates.mem_kinds (h : log.Enumerates counts) :
    k ∈ counts.map Prod.fst ↔ log.has k = true := by
  rw [(h.map _).mem_iff, map_fst_countByKind, List.mem_filter, and_iff_right k.mem_all]

/-! ### The summary -/

/-- The parts of a summary in the order of the counts. -/
def parts (counts : List (EventKind × Nat)) : List String :=
  (counts.filter fun c => !c.1.isDiagnostic).map countText

theorem parts_of_perm (h : counts.Perm counts') : (parts counts).Perm (parts counts') :=
  (h.filter _).map _

/-- Words are put into the same order, whatever order they were in. -/
theorem mergeSort_of_perm {words words' : List String} (h : words.Perm words') :
    (words.mergeSort fun a b => decide (a ≤ b)) = words'.mergeSort fun a b => decide (a ≤ b) := by
  have hsorted (l : List String) : (l.mergeSort fun a b => decide (a ≤ b)).Pairwise (· ≤ ·) := by
    have htrans (a b c : String) (hab : decide (a ≤ b) = true) (hbc : decide (b ≤ c) = true) :
        decide (a ≤ c) = true :=
      decide_eq_true (String.le_trans (of_decide_eq_true hab) (of_decide_eq_true hbc))
    have htotal (a b : String) : (decide (a ≤ b) || decide (b ≤ a)) = true := by
      rw [Bool.or_eq_true, decide_eq_true_iff, decide_eq_true_iff]
      exact String.le_total a b
    exact (List.pairwise_mergeSort htrans htotal l).imp of_decide_eq_true
  refine List.Perm.eq_of_pairwise (fun a b _ _ => String.le_antisymm) (hsorted _) (hsorted _) ?_
  exact (List.mergeSort_perm _ _).trans (h.trans (List.mergeSort_perm _ _).symm)

theorem summaryOf_eq (size : Nat) (counts : List (EventKind × Nat)) :
    summaryOf size counts =
      if size = 0 then "no events"
      else if parts counts = [] then toString size ++ " events"
      else String.intercalate ", " ((parts counts).mergeSort fun a b => decide (a ≤ b)) := by
  rw [summaryOf]
  split
  · rfl
  · split
    · rename_i hnil
      rw [parts, if_pos hnil]
    · rename_i hparts
      rw [parts, if_neg hparts]

/-- A summary depends on its parts, in any order, and on the number of all events if there are
none. -/
theorem summaryOf_congr {size size' : Nat} (hparts : (parts counts).Perm (parts counts'))
    (hzero : size = 0 ↔ size' = 0) (hsize : parts counts = [] → size = size') :
    summaryOf size counts = summaryOf size' counts' := by
  have hnil : parts counts = [] ↔ parts counts' = [] := by
    rw [← List.length_eq_zero_iff, ← List.length_eq_zero_iff, hparts.length_eq]
  rw [summaryOf_eq, summaryOf_eq]
  by_cases h0 : size = 0
  · rw [if_pos h0, if_pos (hzero.mp h0)]
  · rw [if_neg h0, if_neg (mt hzero.mpr h0)]
    by_cases hnone : parts counts = []
    · rw [if_pos hnone, if_pos (hnil.mp hnone), hsize hnone]
    · rw [if_neg hnone, if_neg (mt hnil.mpr hnone), mergeSort_of_perm hparts]

/-- The events that are not diagnostics. -/
def advances (log : EventLog) : EventLog := ⟨log.events.filter fun e => !e.kind.isDiagnostic⟩

theorem count_advances (hk : k.isDiagnostic = false) : log.advances.count k = log.count k := by
  rw [count, count, ofKind, ofKind, advances, List.filter_filter]
  refine congrArg List.length (List.filter_congr fun e _ => ?_)
  by_cases he : e.kind = k
  · simp [he, hk]
  · simp [he]

theorem has_advances (hk : k.isDiagnostic = false) : log.advances.has k = log.has k := by
  rw [Bool.eq_iff_iff, has_iff, has_iff, count_advances hk]

theorem parts_countByKind (log : EventLog) :
    parts log.countByKind =
      (EventKind.all.filter fun k => !k.isDiagnostic && log.has k).map fun k =>
        countText (k, log.count k) := by
  rw [parts, countByKind, List.filter_map, List.map_map, List.filter_filter]
  rfl

/-- The parts are the same without the diagnostics. -/
theorem parts_advances (log : EventLog) :
    parts log.advances.countByKind = parts log.countByKind := by
  have hkinds : (EventKind.all.filter fun k => !k.isDiagnostic && log.advances.has k) =
      EventKind.all.filter fun k => !k.isDiagnostic && log.has k := by
    refine List.filter_congr fun k _ => ?_
    by_cases hk : k.isDiagnostic = true
    · rw [hk, Bool.not_true, Bool.false_and, Bool.false_and]
    · rw [has_advances (Bool.eq_false_of_not_eq_true hk)]
  rw [parts_countByKind, parts_countByKind, hkinds]
  refine List.map_congr_left fun k hk => ?_
  obtain ⟨hnot, -⟩ := Bool.and_eq_true_iff.mp (List.mem_filter.mp hk).2
  rw [Bool.not_eq_eq_eq_not, Bool.not_true] at hnot
  rw [count_advances hnot]

theorem mem_advances {e : Event} :
    e ∈ log.advances.events ↔ e ∈ log.events ∧ e.kind.isDiagnostic = false := by
  rw [advances, List.mem_filter, Bool.not_eq_eq_eq_not, Bool.not_true]

/-- An event that is not a diagnostic takes part in the summary. -/
theorem parts_ne_nil {e : Event} (he : e ∈ log.advances.events) : parts log.countByKind ≠ [] := by
  obtain ⟨hmem, hadvance⟩ := mem_advances.mp he
  have hhas : log.has e.kind = true := List.any_eq_true.mpr ⟨e, hmem, decide_eq_true rfl⟩
  rw [parts_countByKind]
  refine List.ne_nil_of_mem (List.mem_map_of_mem (List.mem_filter.mpr ⟨e.kind.mem_all, ?_⟩))
  rw [hadvance, hhas, Bool.not_false, Bool.true_and]

theorem size_ne_zero {e : Event} (he : e ∈ log.advances.events) : log.size ≠ 0 :=
  (List.length_pos_of_mem (mem_advances.mp he).1).ne'

/-- A summary depends on the events but for their order, and not on the diagnostics if there are
other events; neither does it depend on the order in which the counts are given out.  The counts add
up to the size of the log, and they are there for the kinds that occur. -/
theorem summary_canonical :
    (∀ (log log' : EventLog) (counts : List (EventKind × Nat)), log.events.Perm log'.events →
      log.Enumerates counts → summaryOf log.size counts = log'.summary) ∧
    (∀ (log log' : EventLog) (counts : List (EventKind × Nat)),
      log.advances.events.Perm log'.advances.events →
        (∃ e ∈ log.events, e.kind.isDiagnostic = false) → log.Enumerates counts →
          summaryOf log.size counts = log'.summary) ∧
    ∀ log : EventLog, log.Enumerates (tally log.events) ∧
      ∀ counts, log.Enumerates counts → (counts.map Prod.snd).sum = log.size ∧
        ∀ k, (log.has k = true ↔ 0 < log.count k) ∧
          (0 < log.count k ↔ k ∈ counts.map Prod.fst) := by
  refine ⟨?_, ?_, ?_⟩
  · intro log log' counts hevents hcounts
    have hsize : log.size = log'.size := hevents.length_eq
    refine summaryOf_congr ?_ (by rw [hsize]) fun _ => hsize
    rw [← countByKind_of_perm hevents]
    exact parts_of_perm hcounts
  · rintro log log' counts hevents ⟨e, hmem, hadvance⟩ hcounts
    have he : e ∈ log.advances.events := mem_advances.mpr ⟨hmem, hadvance⟩
    have he' : e ∈ log'.advances.events := hevents.mem_iff.mp he
    -- the logs may differ in their counts of diagnostics, but these are no part of the summary
    have hparts : parts log.countByKind = parts log'.countByKind := by
      rw [← parts_advances log, ← parts_advances log', countByKind_of_perm hevents]
    have hperm : (parts counts).Perm (parts log'.countByKind) := by
      rw [← hparts]
      exact parts_of_perm hcounts
    refine summaryOf_congr hperm (iff_of_false (size_ne_zero he) (size_ne_zero he'))
      fun hnil => ?_
    rw [hnil] at hperm
    exact absurd hperm.nil_eq.symm (parts_ne_nil he')
  · intro log
    refine ⟨log.enumerates_tally, fun counts hcounts => ⟨hcounts.sum_eq, fun k => ?_⟩⟩
    exact ⟨has_iff, by rw [← has_iff, hcounts.mem_kinds]⟩

end EventLog

end ResolverRecovery
