import Mathlib.Data.List.Sort
import ServeProof.Scenario
import ServeProof.Services.Summary

/-!
# ServeProof.Timeline

The income timeline of a worker is read a page at a time, without loss: who follows
the cursors sees every ACTIVE entry once, the latest first.
-/

namespace ServeProof

open Query

variable {createdAt : EntryId → Time}

instance : Std.Total (LatestFirst createdAt) where
  total e f := by
    rcases lt_trichotomy (createdAt e.id) (createdAt f.id) with h | h | h
    · exact .inr (.inl h)
    · exact (le_total f.id e.id).imp (fun hle => .inr ⟨h, hle⟩) fun hle => .inr ⟨h.symm, hle⟩
    · exact .inl (.inl h)

instance : IsTrans IncomeEntry (LatestFirst createdAt) where
  trans e f g := by
    rintro (hef | ⟨hef, hef'⟩) (hfg | ⟨hfg, hfg'⟩)
    · exact .inl (hfg.trans hef)
    · exact .inl (hfg ▸ hef)
    · exact .inl (hef ▸ hfg)
    · exact .inr ⟨hef.trans hfg, hfg'.trans hef'⟩

namespace Platform

/-- What follows the cursors of the timeline, for `n` pages at most. -/
def timeline (s : Platform) (createdAt : EntryId → Time) (workerId : WorkerId) (limit n : Nat) :
    Option (List TimelineItem) :=
  follow (fun cursor => s.timelineForWorker createdAt workerId cursor limit) n none

variable (s : Platform) (workerId : WorkerId) (limit : Nat)

/-- A page of the timeline is a page of the entries. -/
theorem timelineForWorker_eq (cursor : Option EntryId) :
    s.timelineForWorker createdAt workerId cursor limit =
      let page := pageAfter IncomeEntry.id limit
        ((s.timelineEntries workerId).insertionSort (LatestFirst createdAt)) cursor
      ⟨page.items.map s.timelineItem, page.nextCursor⟩ := by
  cases cursor <;> rfl

/-- The entries of a worker, in the order of the timeline. -/
theorem timeline_eq {n : Nat} (hlimit : 1 ≤ limit)
    (hn : (s.timelineEntries workerId).length < n) :
    s.timeline createdAt workerId limit n =
      some (((s.timelineEntries workerId).insertionSort (LatestFirst createdAt)).map
        s.timelineItem) := by
  have hperm := List.perm_insertionSort (LatestFirst createdAt) (s.timelineEntries workerId)
  have hnodup : ((([] : List IncomeEntry) ++ (s.timelineEntries workerId).insertionSort
      (LatestFirst createdAt)).map IncomeEntry.id).Nodup :=
    (hperm.map IncomeEntry.id).nodup_iff.mpr
      (s.books.entries.nodup.sublist (List.filter_sublist.map IncomeEntry.id))
  have hfollow := follow_lookAhead hlimit hnodup (hperm.length_eq ▸ hn)
  rw [timeline, funext (s.timelineForWorker_eq workerId limit), follow_map]
  exact congrArg (Option.map (List.map s.timelineItem)) hfollow

/-- **The timeline loses nothing**: for every limit, following `nextCursor` ends, and shows
every ACTIVE entry of the worker exactly once, the latest first. -/
theorem timeline_lossless (createdAt : EntryId → Time) (hlimit : 1 ≤ limit) :
    ∃ entries : List IncomeEntry,
      (∀ n, (s.timelineEntries workerId).length < n →
        s.timeline createdAt workerId limit n = some (entries.map s.timelineItem)) ∧
      entries.Perm (s.timelineEntries workerId) ∧ (entries.map IncomeEntry.id).Nodup ∧
      entries.Pairwise fun e f =>
        createdAt f.id < createdAt e.id ∨ createdAt e.id = createdAt f.id ∧ f.id < e.id := by
  have hperm := List.perm_insertionSort (LatestFirst createdAt) (s.timelineEntries workerId)
  have hnodup : (((s.timelineEntries workerId).insertionSort (LatestFirst createdAt)).map
      IncomeEntry.id).Nodup :=
    (hperm.map IncomeEntry.id).nodup_iff.mpr
      (s.books.entries.nodup.sublist (List.filter_sublist.map IncomeEntry.id))
  refine ⟨_, fun n hn => s.timeline_eq workerId limit hlimit hn, hperm, hnodup, ?_⟩
  have hsorted := List.pairwise_insertionSort (LatestFirst createdAt) (s.timelineEntries workerId)
  refine (hsorted.and (List.pairwise_map.mp hnodup)).imp fun {e f} h => ?_
  obtain ⟨hle, hne⟩ := h
  exact hle.imp_right fun ⟨hsame, hid⟩ => ⟨hsame, lt_of_le_of_ne hid (Ne.symm hne)⟩

end Platform

section Concrete

open Scenario

/-- The worker has earned the amounts, in their order. -/
def Scenario.earned (amounts : List Int) : Platform :=
  { Platform.fresh World.empty 0 "key" with
    books := amounts.foldl (fun b amount => b.insert (IncomeEntry.base
      { workerId := worker
        venueId := venue
        shiftId := none
        payoutId := none
        earnedUsdCents := amount
        allocatedUsdCents := 0
        paidUsdCents := 0
        payrollReportedUsdCents := 0
        withholdingStatus := .unknown
        payoutRail := none
        evidenceGrade := .e }) fun _ => rfl) Books.empty }

theorem timeline_lossless_at_once :
    ∃ entries : List IncomeEntry,
      (∀ n, ((earned [100, 200, 300]).timelineEntries worker).length < n →
        (earned [100, 200, 300]).timeline (fun _ => 0) worker 1 n =
          some (entries.map (earned [100, 200, 300]).timelineItem)) ∧
      entries.Perm ((earned [100, 200, 300]).timelineEntries worker) ∧
      (entries.map IncomeEntry.id).Nodup ∧
      entries.Pairwise fun e f => 0 < 0 ∨ 0 = 0 ∧ f.id < e.id :=
  Platform.timeline_lossless (earned [100, 200, 300]) worker 1 (fun _ => 0) (le_refl 1)

example : ((earned [100, 200, 300]).timeline (fun _ => 0) worker 2 2).map
    (List.map TimelineItem.earnedUsdCents) = some [300, 200, 100] := by decide +kernel

end Concrete

end ServeProof
