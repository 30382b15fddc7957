import ServeProof.Disclosure.Tally
import ServeProof.Rooted
import ServeProof.Scenario.Disclosed
import ServeProof.Services.Summary

/-!
# ServeProof.Summaries

A lender sees what the worker sees: a snapshot over all shift dates of a worker
agrees with the summary the worker is shown of the same ledger.

The snapshot leaves out the entries without a shift and those outside the date
range, the summary takes all.  As every entry is about a shift on record
(`rooted_runFrom`), nothing is left out when the range covers the shift dates.
-/

namespace ServeProof

open Interleave

/-! ## What agrees -/

/-- What both say is the same. -/
structure DisclosedSummary.Agrees (d : DisclosedSummary) (summary : IncomeSummary) : Prop where
  totalAllocated : d.totalVerifiedIncomeUsdCents = summary.totals.allocatedUsdCents
  totalPaid : d.totalPaidUsdCents = summary.totals.paidUsdCents
  months : d.monthsCovered = summary.monthCount
  payers : d.payerCount = summary.payerCount
  grades : ∀ grade, d.verificationGrades.lookup grade = summary.gradeCounts.lookup grade
  avgMonthly : d.avgMonthlyIncomeUsdCents = summary.avgMonthlyAllocatedUsdCents

/-- The breakdown has each month that is covered once, and adds up to the total. -/
structure DisclosedSummary.AddsUp (d : DisclosedSummary) : Prop where
  nodup : (d.monthlyBreakdown.map Prod.fst).Nodup
  months : d.monthlyBreakdown.length = d.monthsCovered
  total : (d.monthlyBreakdown.map Prod.snd).sum = d.totalVerifiedIncomeUsdCents

/-- The entries add up to the totals. -/
structure DisclosedSummary.TotalsOf (d : DisclosedSummary) (entries : List DisclosedEntry) :
    Prop where
  allocated : (entries.map DisclosedEntry.allocatedUsdCents).sum = d.totalVerifiedIncomeUsdCents
  paid : (entries.map DisclosedEntry.paidUsdCents).sum = d.totalPaidUsdCents

/-- The date range of the grant covers the dates of all shifts. -/
def DisclosureGrant.Covers (g : DisclosureGrant) (entries : List EntryView) : Prop :=
  ∀ e ∈ entries, ∀ shift ∈ e.shift,
    Within g.dateRangeStart g.dateRangeEnd shift.businessDate

instance (g : DisclosureGrant) (entries : List EntryView) : Decidable (g.Covers entries) :=
  inferInstanceAs (Decidable (∀ e ∈ entries, ∀ shift ∈ e.shift, _))

/-- Every entry is shown with its shift. -/
def AllShown (entries : List EntryView) : Prop := ∀ e ∈ entries, e.shift.isSome

/-- Of a ledger that is rooted every entry is shown with its shift. -/
theorem Platform.Rooted.allShown {s : Platform} (hs : s.Rooted) (workerId : WorkerId) :
    AllShown (s.activeEntries workerId) := by
  intro e he
  obtain ⟨entry, hentry, rfl⟩ := List.mem_map.mp he
  obtain ⟨id, hid, hfound⟩ := hs entry (List.mem_of_mem_filter hentry)
  rw [hid]
  exact hfound

/-- A range that covers all shift dates leaves nothing out. -/
theorem inRange_eq {g : DisclosureGrant} {entries : List EntryView} (hshown : AllShown entries)
    (hcovers : g.Covers entries) : inRange g entries = entries := by
  refine List.filter_eq_self.mpr fun e he => decide_eq_true ?_
  obtain ⟨shift, hshift⟩ := Option.isSome_iff_exists.mp (hshown e he)
  exact ⟨shift, hshift, hcovers e he shift hshift⟩

/-! ## What a snapshot says of its entries -/

section Entries

variable (level : DisclosureLevel) (entries : List EntryView)

theorem verificationGrades_eq : (summarize level entries).verificationGrades =
    tally (fun e => e.entry.data.evidenceGrade) (fun _ => 1) entries := rfl

theorem summarize_addsUp : (summarize level entries).AddsUp where
  nodup := nodup_tally EntryView.month _ entries
  months := length_tally EntryView.month _ entries
  total := sum_tally EntryView.month _ entries

theorem summarize_totalsOf :
    (summarize level entries).TotalsOf (entries.map EntryView.disclosed) where
  allocated := congrArg List.sum (List.map_map ..)
  paid := congrArg List.sum (List.map_map ..)

end Entries

/-! ## Agreement -/

section Agreement

variable {s : Platform} {workerId : WorkerId}

/-- The months of the shifts are the months of the entries. -/
theorem monthCount_incomeRows (h : AllShown (s.activeEntries workerId)) :
    monthCount (s.incomeRows workerId) = monthsCovered (s.activeEntries workerId) := by
  rw [monthCount, s.incomeRows_eq, Query.countDistinct_map, monthsCovered]
  refine Query.countDistinct_eq fun e he => ?_
  obtain ⟨shift, hshift⟩ := Option.isSome_iff_exists.mp (h e he)
  simp [EntryView.month, EntryView.businessDate, Query.left, hshift]

/-- A sum over the rows of the query is a sum over the entries. -/
theorem sum_incomeRows (amount : IncomeEntry → Int) :
    ((s.incomeRows workerId).map fun row => amount row.1).sum =
      ((s.activeEntries workerId).map fun e => amount e.entry).sum := by
  rw [s.incomeRows_eq, List.map_map]
  rfl

theorem mathRound_zero : mathRound 0 = 0 := by
  decide +kernel

theorem avgMonthly_eq (entries : List EntryView) : avgMonthly entries =
    if 0 < monthsCovered entries then mathRound (totalAllocated entries / monthsCovered entries)
    else 0 := by
  rw [avgMonthly, averageMonthly]
  by_cases h : monthsCovered entries = 0
  · rw [if_pos h, if_neg (by omega), mathRound_zero]
  · rw [if_neg h, if_pos (Nat.pos_of_ne_zero h)]

/-- The two aggregations agree on entries that are all shown with their shifts. -/
theorem summarize_agrees (h : AllShown (s.activeEntries workerId)) (level : DisclosureLevel) :
    (summarize level (s.activeEntries workerId)).Agrees (s.summaryForWorker workerId) where
  totalAllocated := (sum_incomeRows fun e => e.data.allocatedUsdCents).symm
  totalPaid := (sum_incomeRows fun e => e.data.paidUsdCents).symm
  months := (monthCount_incomeRows h).symm
  payers := by
    rw [Platform.summaryForWorker, s.incomeRows_eq, Query.countDistinct_map]
    exact (Query.countDistinct_eq fun _ _ => rfl).symm
  grades grade := by
    have hentries : (s.activeEntries workerId).map EntryView.entry =
        s.books.entries.rows.filter fun e =>
          decide (e.data.workerId = workerId ∧ e.effectiveStatus = .active) := by
      rw [Platform.activeEntries, List.map_map]
      exact List.map_id _
    rw [verificationGrades_eq, lookup_tally_one, Platform.summaryForWorker, Platform.gradeGroups,
      ← hentries, Query.groupCounts_map]
  avgMonthly := by
    have hmonths := monthCount_incomeRows h
    have htotal : (totalsOf (s.incomeRows workerId)).allocatedUsdCents =
        totalAllocated (s.activeEntries workerId) :=
      sum_incomeRows fun e => e.data.allocatedUsdCents
    rw [Platform.summaryForWorker]
    simp only [hmonths, htotal]
    exact avgMonthly_eq (s.activeEntries workerId)

end Agreement

/-- **A lender sees what the worker sees**: on every ledger that calls reach, a
LEVEL_2 or LEVEL_3 snapshot over all shift dates of the worker agrees with the
worker's own summary, and its breakdown by month and its entries add up to its
totals. -/
theorem snapshot_agrees_with_summary [Collation] (world : World) (clock : Date)
    (signingKey : String) (ms : List (Move Request PlatformMove)) {g : DisclosureGrant}
    (hlevel : g.level ≠ .level1)
    (hcovers : g.Covers ((platform.runFrom (Platform.fresh world clock signingKey)
      ms).store.activeEntries g.workerId)) :
    let s := (platform.runFrom (Platform.fresh world clock signingKey) ms).store
    let snapshot := buildSnapshot g (s.activeEntries g.workerId)
    ∃ d, d.Agrees (s.summaryForWorker g.workerId) ∧ d.AddsUp ∧
      ((g.level = .level2 ∧ snapshot = .level2 d) ∨
        (g.level = .level3 ∧ ∃ entries, snapshot = .level3 d entries ∧ d.TotalsOf entries)) := by
  intro s snapshot
  have hshown : AllShown (s.activeEntries g.workerId) :=
    (rooted_runFrom (rooted_fresh world clock signingKey) ms).allShown g.workerId
  have hrange : inRange g (s.activeEntries g.workerId) = s.activeEntries g.workerId :=
    inRange_eq hshown hcovers
  refine ⟨summarize g.level (s.activeEntries g.workerId), summarize_agrees hshown g.level,
    summarize_addsUp g.level _, ?_⟩
  cases hg : g.level with
  | level1 => exact absurd hg hlevel
  | level2 =>
      refine .inl ⟨rfl, ?_⟩
      simp only [snapshot, buildSnapshot, hrange, hg]
  | level3 =>
      refine .inr ⟨rfl, _, ?_, summarize_totalsOf .level3 _⟩
      simp only [snapshot, buildSnapshot, hrange, hg]

section Concrete

open Scenario

/-- A projection of two shifts, one of which is corrected to $12.50, of which $8.00
have been paid. -/
abbrev Scenario.correctedOnce : List (Move Request PlatformMove) :=
  rebuilt ++ [.call (.income (.correctEntry 1 owner ⟨"typo", none, some 1250, some 800, none⟩)),
    .step 1, .step 1]

theorem snapshot_agrees_with_summary_of_correction :
    let s := ((@platform byCodePoint).runFrom start correctedOnce).store
    let g := (newGrant .level3 .link).row 1
    let snapshot := buildSnapshot g (s.activeEntries worker)
    ∃ d, d.Agrees (s.summaryForWorker worker) ∧ d.AddsUp ∧
      ((g.level = .level2 ∧ snapshot = .level2 d) ∨
        (g.level = .level3 ∧ ∃ entries, snapshot = .level3 d entries ∧ d.TotalsOf entries)) :=
  @snapshot_agrees_with_summary byCodePoint evidence 0 "key" correctedOnce
    ((newGrant .level3 .link).row 1) (by decide) (by decide +kernel)

/-- What the worker sees then. -/
example : (((@platform byCodePoint).runFrom start correctedOnce).store.summaryForWorker worker) =
    { totals := ⟨0, 1250, 800, 0⟩
      shiftCount := 2
      monthCount := 2
      avgMonthlyAllocatedUsdCents := 625
      payerCount := 1
      gradeCounts := [(.e, 2)]
      providerVerifiedShiftCount := 2 } := by decide +kernel

end Concrete

end ServeProof
