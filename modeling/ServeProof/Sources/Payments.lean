import ServeProof.Calendar.Civil
import ServeProof.Sources.Square

/-!
# ServeProof.Sources.Payments

What the Square client makes of the payments of a location: a card tip for each
payment with a tip, its own or the one of its order.

What Square answers is a parameter, and so are the day of an instant at the venue
and the hash of a payment.
-/

namespace ServeProof

open Calendar (CivilDate)

/-- A payment as it is received; any field may be missing. -/
structure SquarePayment where
  id : Option String
  orderId : Option String
  createdAt : Option Date
  status : Option String
  tipMoney : Option SquareMoney
  totalMoney : Option SquareMoney
  refundedMoney : Option SquareMoney
  deriving DecidableEq, Repr

structure SquareOrder where
  id : Option String
  totalTipMoney : Option SquareMoney
  deriving DecidableEq, Repr

/-- A business date as the request schema admits it. -/
structure IsoDate extends CivilDate where
  year_nonneg : 0 ≤ year
  year_le : year ≤ 9999

structure DateRange where
  startDate : IsoDate
  endDate : IsoDate

/-- What Square answers: the pages of the payments of a time window, and the orders
with the ids of a batch. -/
structure SquarePayments where
  pages : (beginTime endTime : Date) → List (List SquarePayment)
  batchRetrieve : (orderIds : List String) → List SquareOrder

def msPerDay : Int := 86400000

/-- Midnight in UTC, at the start of a date. -/
def IsoDate.midnight (d : IsoDate) : Date := d.dayNumber * msPerDay

namespace DateRange

/-- `begin_time`: a day before the start. -/
def beginTime (period : DateRange) : Date := period.startDate.midnight - msPerDay

/-- `end_time`: a day after the last millisecond of the end. -/
def endTime (period : DateRange) : Date := period.endDate.midnight + (msPerDay - 1) + msPerDay

/-- The text of a date is in the period. -/
def Contains (period : DateRange) (businessDate : String) : Prop :=
  ¬ (businessDate < period.startDate.iso ∨ period.endDate.iso < businessDate)

instance (period : DateRange) (businessDate : String) : Decidable (period.Contains businessDate) :=
  inferInstanceAs (Decidable (¬ _))

end DateRange

/-- `Number(money?.amount ?? 0)`. -/
def cents (money : Option SquareMoney) : Int := (money.bind SquareMoney.amount).getD 0

namespace SquareClient

/-! ## The tips of orders -/

/-- The ids of the orders of payments without a tip of their own. -/
def missingTipOrderIds (payments : List SquarePayment) : List String :=
  (payments.filter fun p => decide (p.tipMoney = none)).filterMap SquarePayment.orderId

/-- `slice(index, index + size)` for every multiple of the size. -/
def slices (size : Nat) (ids : List String) : List (List String) :=
  (List.range ((ids.length + size - 1) / size)).map fun i => (ids.drop (i * size)).take size

/-- The tip of an order, where it is in USD; the last order with the id counts. -/
def orderTip (orders : List SquareOrder) (orderId : String) : Option Int :=
  (orders.reverse.find? fun o => decide (o.id = some orderId ∧
    o.totalTipMoney.bind SquareMoney.currency = some "USD")).map fun o => cents o.totalTipMoney

/-! ## The evidence of a payment -/

section Evidence

variable (businessDate : Date → String) (hash : SquarePayment → Nat)
  (orderTips : String → Option Int) (period : DateRange) (payment : SquarePayment)

/-- The tip of a payment, or of its order where it has none of its own. -/
def tipAmount : Int :=
  match payment.tipMoney with
  | some money => cents (some money)
  | none => (orderTips (payment.orderId.getD "")).getD 0

/-- A tip without a currency is in USD. -/
def tipCurrency : Option String :=
  (payment.tipMoney.bind SquareMoney.currency).or
    (if 0 < tipAmount orderTips payment then some "USD" else none)

def paymentStatus : PaymentStatus :=
  match payment.status.getD "PENDING" with
  | "COMPLETED" => .completed
  | "CANCELED" | "FAILED" => .canceled
  | _ => .pending

def refundStatus : RefundStatus :=
  if cents payment.refundedMoney ≤ 0 then .none
  else if 0 < cents payment.totalMoney ∧ cents payment.totalMoney ≤ cents payment.refundedMoney then
    .full
  else .partialRefund

def tipEvidence : Option ProviderTipEvidence := do
  let id ← present payment.id
  let createdAt ← payment.createdAt
  if tipAmount orderTips payment ≤ 0 ∨ tipCurrency orderTips payment ≠ some "USD" then none
  else if ¬ period.Contains (businessDate createdAt) then none
  else
    return {
      provider := provider
      externalPaymentId := id
      externalOrderId := payment.orderId
      tipType := .cardTip
      grossAmountUsdCents := tipAmount orderTips payment
      paymentStatus := paymentStatus payment
      refundStatus := refundStatus payment
      businessDate := businessDate createdAt
      sourceHash := hash payment }

/-- The payment has an id and a business date in the period. -/
def Dated : Prop :=
  (present payment.id).isSome ∧
    payment.createdAt.any (fun t => decide (period.Contains (businessDate t))) = true

instance : Decidable (Dated businessDate period payment) :=
  inferInstanceAs (Decidable (_ ∧ _ = true))

/-- The amount of the evidence of a payment. -/
theorem gross_tipEvidence :
    (tipEvidence businessDate hash orderTips period payment).map
        ProviderTipEvidence.grossAmountUsdCents =
      if Dated businessDate period payment ∧ 0 < tipAmount orderTips payment ∧
        tipCurrency orderTips payment = some "USD" then some (tipAmount orderTips payment)
      else none := by
  unfold tipEvidence Dated
  obtain hid | ⟨id, hid⟩ := (present payment.id).eq_none_or_eq_some
  · simp [hid]
  · obtain hat | ⟨createdAt, hat⟩ := payment.createdAt.eq_none_or_eq_some
    · simp [hid, hat]
    · simp only [hid, hat, Option.bind_eq_bind, Option.bind_some, Option.isSome_some,
        Option.any_some, true_and, decide_eq_true_eq]
      split
      · next htip =>
        have hnot : ¬ (period.Contains (businessDate createdAt) ∧ 0 < tipAmount orderTips payment ∧
            tipCurrency orderTips payment = some "USD") := by
          rintro ⟨-, hpos, husd⟩
          exact htip.elim (Int.not_le.mpr hpos) fun h => h husd
        rw [if_neg hnot]
        rfl
      · next htip =>
        obtain ⟨hpos, husd⟩ := not_or.mp htip
        split
        · next hout => rw [if_neg fun h => hout h.1]; rfl
        · next hin =>
          rw [if_pos ⟨not_not.mp hin, Int.not_le.mp hpos, not_not.mp husd⟩]
          rfl

theorem externalOrderId_tipEvidence {e : ProviderTipEvidence}
    (h : tipEvidence businessDate hash orderTips period payment = some e) :
    e.externalOrderId = payment.orderId := by
  obtain ⟨id, -, hid⟩ := Option.bind_eq_some_iff.mp h
  obtain ⟨createdAt, -, hat⟩ := Option.bind_eq_some_iff.mp hid
  split at hat
  · cases hat
  · split at hat
    · cases hat
    · cases hat
      rfl

end Evidence

variable (businessDate : Date → String) (hash : SquarePayment → Nat)

def fetchTipEvidence (square : SquarePayments) (period : DateRange) : List ProviderTipEvidence :=
  let payments := (square.pages period.beginTime period.endTime).flatten
  let orders := (slices 100 (missingTipOrderIds payments)).flatMap square.batchRetrieve
  payments.filterMap (tipEvidence businessDate hash (orderTip orders) period)

end SquareClient

namespace Scenario

/-- The fifth of August of a year. -/
def augustOf (year : Int) (h : 0 ≤ year) (h' : year ≤ 9999) : IsoDate where
  year := year
  month := 8
  day := 5
  month_pos := by decide
  day_pos := by decide
  day_le := (by decide : 5 ≤ 31)
  year_nonneg := h
  year_le := h'

def august5 : IsoDate := augustOf 2026 (by decide) (by decide)

end Scenario

end ServeProof
