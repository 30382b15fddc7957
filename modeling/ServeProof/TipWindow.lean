import ServeProof.Sources.Payments

/-!
# ServeProof.TipWindow

The time window in which the Square client asks for payments, against the business
dates it keeps.

The request is widened by a day on both sides, so that it holds every instant of
the days of the period at the venue, wherever the venue is.  Of what is returned
the client keeps the payments whose date is in the period by its text; the order of
the texts is the order of the days as long as the year at the venue has four
digits.
-/

namespace ServeProof

open Calendar

/-- The day of an instant at the venue, whose clock is `offset` milliseconds ahead
of UTC at that instant. -/
def localDay (offset : Date → Int) (t : Date) : Int := (t + offset t) / msPerDay

/-- The offset of a time zone: less than a day either way. -/
def IsOffset (offset : Date → Int) : Prop := ∀ t, -msPerDay < offset t ∧ offset t < msPerDay

namespace SquareClient

/-- The day of an instant at the venue, in the format of en-CA. -/
def businessDate (offset : Date → Int) (t : Date) : String := (ofDay (localDay offset t)).enCA

end SquareClient

open SquareClient

namespace DateRange

/-- The period holds the day. -/
def Covers (period : DateRange) (day : Int) : Prop :=
  period.startDate.dayNumber ≤ day ∧ day ≤ period.endDate.dayNumber

instance (period : DateRange) (day : Int) : Decidable (period.Covers day) :=
  inferInstanceAs (Decidable (_ ≤ _ ∧ _ ≤ _))

variable {period : DateRange} {offset : Date → Int} {t : Date}

/-- Instants less than a day off the days from `first` to `last`. -/
theorem near_days {t ahead first last : Int} (hlo : -msPerDay < ahead) (hhi : ahead < msPerDay)
    (hfirst : first ≤ (t + ahead) / msPerDay) (hlast : (t + ahead) / msPerDay ≤ last) :
    first * msPerDay - msPerDay ≤ t ∧ t ≤ last * msPerDay + (msPerDay - 1) + msPerDay := by
  unfold msPerDay at *
  omega

/-- An instant on a day of the period is in the window. -/
theorem mem_window (hoffset : IsOffset offset) (h : period.Covers (localDay offset t)) :
    period.beginTime ≤ t ∧ t ≤ period.endTime :=
  near_days (hoffset t).1 (hoffset t).2 h.1 h.2

/-- A text of four digits is in the period just when the day is. -/
theorem contains_iff {d : CivilDate} (h : 1000 ≤ d.year) (h' : d.year ≤ 9999) :
    period.Contains d.enCA ↔ period.Covers d.dayNumber := by
  have hyear : 0 ≤ d.year := by omega
  rw [Contains, Covers, CivilDate.enCA_eq_iso h h',
    CivilDate.iso_lt_iff hyear h' period.startDate.year_nonneg period.startDate.year_le,
    CivilDate.iso_lt_iff period.endDate.year_nonneg period.endDate.year_le hyear h',
    not_or, Int.not_lt, Int.not_lt]

end DateRange

/-- A payment yields evidence just when it has an id, a tip in USD, and a business
date in the period. -/
theorem isSome_tipEvidence {businessDate : Date → String} {hash : SquarePayment → Nat}
    {orderTips : String → Option Int} {period : DateRange} {p : SquarePayment} {t : Date}
    (ht : p.createdAt = some t) :
    (tipEvidence businessDate hash orderTips period p).isSome ↔
      ((present p.id).isSome ∧ 0 < tipAmount orderTips p ∧
        tipCurrency orderTips p = some "USD") ∧ period.Contains (businessDate t) := by
  have hdated : Dated businessDate period p ↔
      (present p.id).isSome ∧ period.Contains (businessDate t) := by
    rw [Dated, ht, Option.any_some, decide_eq_true_eq]
  rw [← Option.isSome_map, gross_tipEvidence]
  split
  · next h =>
    obtain ⟨hd, htip⟩ := h
    obtain ⟨hid, hin⟩ := hdated.mp hd
    simp [hid, hin, htip]
  · next h =>
    simp only [Option.isSome_none, Bool.false_eq_true, false_iff]
    rintro ⟨⟨hid, htip⟩, hin⟩
    exact h ⟨hdated.mpr ⟨hid, hin⟩, htip⟩

/-- **No business day is missed**: every instant on a day of the period at the venue
is in the window that is asked for; and of the payments created in a year of four
digits, those on a day of the period are the ones that yield evidence. -/
theorem window_covers_business_days {offset : Date → Int} (hoffset : IsOffset offset)
    (period : DateRange) :
    (∀ t, period.Covers (localDay offset t) → period.beginTime ≤ t ∧ t ≤ period.endTime) ∧
    ∀ (square : SquarePayments) (hash : SquarePayment → Nat) (orderTips : String → Option Int),
      ∀ p ∈ (square.pages period.beginTime period.endTime).flatten,
      ∀ t, p.createdAt = some t → 1000 ≤ (ofDay (localDay offset t)).year →
        (ofDay (localDay offset t)).year ≤ 9999 →
        ((tipEvidence (businessDate offset) hash orderTips period p).isSome ↔
          ((present p.id).isSome ∧ 0 < tipAmount orderTips p ∧
            tipCurrency orderTips p = some "USD") ∧ period.Covers (localDay offset t)) := by
  refine ⟨fun t => period.mem_window hoffset, ?_⟩
  intro square hash orderTips p _ t ht hyear hyear'
  rw [isSome_tipEvidence ht, businessDate, DateRange.contains_iff hyear hyear',
    dayNumber_ofDay]

section Concrete

namespace Scenario

/-- One day. -/
def onlyDay (d : IsoDate) : DateRange := ⟨d, d⟩

def august2026 : DateRange := onlyDay august5

def august999 : DateRange := onlyDay (augustOf 999 (by decide) (by decide))

/-- A tip of a dollar, at an instant. -/
def dollarAt (t : Date) : SquarePayment where
  id := some "payment"
  orderId := none
  createdAt := some t
  status := some "COMPLETED"
  tipMoney := some ⟨some 100, some "USD"⟩
  totalMoney := none
  refundedMoney := none

def answering (p : SquarePayment) : SquarePayments := ⟨fun _ _ => [[p]], fun _ => []⟩

/-- Eight in the evening in New York, which is the next day in UTC. -/
def evening : Date := august2026.endDate.midnight + msPerDay

def newYork : Date → Int := fun _ => -14400000

end Scenario

open Scenario

theorem window_covers_business_days_evening :
    (august2026.beginTime ≤ evening ∧ evening ≤ august2026.endTime) ∧
    ((tipEvidence (businessDate newYork) (fun _ => 0) (fun _ => none) august2026
        (dollarAt evening)).isSome ↔
      ((present (dollarAt evening).id).isSome ∧ 0 < tipAmount (fun _ => none) (dollarAt evening) ∧
        tipCurrency (fun _ => none) (dollarAt evening) = some "USD") ∧
      august2026.Covers (localDay newYork evening)) :=
  have hoffset : IsOffset newYork := fun _ =>
    (by decide : -msPerDay < -14400000 ∧ (-14400000 : Int) < msPerDay)
  ⟨(window_covers_business_days hoffset august2026).1 evening (by decide +kernel),
    (window_covers_business_days hoffset august2026).2 (answering (dollarAt evening)) _ _ _
      (List.mem_singleton.mpr rfl) evening rfl (by decide +kernel) (by decide +kernel)⟩

/-- In the year 999 the text of a date has three digits for its year, and is in no
period. -/
theorem evidence_of_year_999_is_dropped :
    august999.Covers (localDay (fun _ => 0) august999.startDate.midnight) ∧
    (august999.beginTime ≤ august999.startDate.midnight ∧
      august999.startDate.midnight ≤ august999.endTime) ∧
    (present (dollarAt august999.startDate.midnight).id).isSome ∧
    0 < tipAmount (fun _ => none) (dollarAt august999.startDate.midnight) ∧
    tipCurrency (fun _ => none) (dollarAt august999.startDate.midnight) = some "USD" ∧
    tipEvidence (businessDate fun _ => 0) (fun _ => 0) (fun _ => none) august999
      (dollarAt august999.startDate.midnight) = none := by
  decide +kernel

end Concrete

end ServeProof
