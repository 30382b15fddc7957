import Mathlib.Algebra.Order.BigOperators.Group.List
import ServeProof.Sources.Payments

/-!
# ServeProof.OrderTips

Whether the card tips of the payments of one order add up to no more than the tip
of the order.

A payment without a tip of its own is given the whole tip of its order, whatever
the other payments of the order are.  So the tip is counted once only where such
a payment is the only one of its order that yields evidence.
-/

namespace ServeProof

open SquareClient

/-! ## What Square knows -/

structure SquareBooks where
  payments : List SquarePayment
  orders : List SquareOrder

namespace SquareBooks

def paymentsOf (b : SquareBooks) (orderId : String) : List SquarePayment :=
  b.payments.filter fun p => decide (p.orderId = some orderId)

/-- The tips add up: each payment has a tip, which is the one it states; where it
states none it is nothing, unless the order has no other payment. -/
structure Consistent (b : SquareBooks) (tip : SquarePayment → Nat) : Prop where
  stated : ∀ p ∈ b.payments, ∀ money, p.tipMoney = some money → cents (some money) = tip p
  unstated : ∀ p ∈ b.payments, ∀ orderId, p.orderId = some orderId → p.tipMoney = none →
    tip p = 0 ∨ b.paymentsOf orderId = [p]
  total : ∀ o ∈ b.orders, ∀ orderId, o.id = some orderId →
    cents o.totalTipMoney = ((b.paymentsOf orderId).map tip).sum
  distinct : (b.orders.map SquareOrder.id).Nodup

end SquareBooks

/-- Square answers from its books: with payments it has, none of them twice, and
with the orders that are asked for. -/
structure SquarePayments.AnswersFrom (square : SquarePayments) (b : SquareBooks) : Prop where
  pages : ∀ beginTime endTime, (square.pages beginTime endTime).flatten.Subperm b.payments
  orders : ∀ orderIds o, o ∈ square.batchRetrieve orderIds ↔
    o ∈ b.orders ∧ ∃ orderId ∈ orderIds, o.id = some orderId

/-! ## The tips of orders -/

namespace SquareClient

/-- The batches hold every id. -/
theorem mem_slices {size : Nat} (hsize : 0 < size) {ids : List String} {orderId : String} :
    (∃ slice ∈ slices size ids, orderId ∈ slice) ↔ orderId ∈ ids := by
  constructor
  · rintro ⟨slice, hslice, hmem⟩
    obtain ⟨i, -, rfl⟩ := List.mem_map.mp hslice
    exact List.mem_of_mem_drop (List.mem_of_mem_take hmem)
  · intro hmem
    obtain ⟨n, hn, rfl⟩ := List.mem_iff_getElem.mp hmem
    have hdiv := Nat.div_add_mod n size
    have hmod := Nat.mod_lt n hsize
    have hslice : n / size < (ids.length + size - 1) / size :=
      (Nat.div_lt_iff_lt_mul hsize).mpr (by
        have := Nat.lt_div_mul_add (a := ids.length + size - 1) hsize
        rw [Nat.mul_comm] at hdiv
        omega)
    refine ⟨_, List.mem_map_of_mem (List.mem_range.mpr hslice), ?_⟩
    refine List.mem_iff_getElem.mpr ⟨n % size, ?_, ?_⟩
    · rw [List.length_take, List.length_drop]
      rw [Nat.mul_comm] at hdiv
      omega
    · rw [List.getElem_take, List.getElem_drop]
      congr 1
      rw [Nat.mul_comm] at hdiv
      omega

variable {square : SquarePayments} {b : SquareBooks} {tip : SquarePayment → Nat}
  {o : SquareOrder} {orderId : String}

theorem mem_batchRetrieve (hs : square.AnswersFrom b) {ids : List String} {x : SquareOrder} :
    x ∈ (slices 100 ids).flatMap square.batchRetrieve ↔
      x ∈ b.orders ∧ ∃ id ∈ ids, x.id = some id := by
  rw [List.mem_flatMap]
  constructor
  · rintro ⟨slice, hslice, hx⟩
    obtain ⟨hbooks, id, hid, hkey⟩ := (hs.orders slice x).mp hx
    exact ⟨hbooks, id, (mem_slices (by decide)).mp ⟨slice, hslice, hid⟩, hkey⟩
  · rintro ⟨hbooks, id, hid, hkey⟩
    have hbatch : ∃ slice ∈ slices 100 ids, id ∈ slice := (mem_slices (by decide)).mpr hid
    obtain ⟨slice, hslice, hmem⟩ := hbatch
    exact ⟨slice, hslice, (hs.orders slice x).mpr ⟨hbooks, id, hmem, hkey⟩⟩

/-- The tip of an order that is asked for: its total, where it is in USD. -/
theorem orderTip_eq (hs : square.AnswersFrom b) (hb : b.Consistent tip) (ho : o ∈ b.orders)
    (hid : o.id = some orderId) {ids : List String} (hasked : orderId ∈ ids) :
    orderTip ((slices 100 ids).flatMap square.batchRetrieve) orderId =
      if o.totalTipMoney.bind SquareMoney.currency = some "USD" then some (cents o.totalTipMoney)
      else none := by
  have hmem : o ∈ ((slices 100 ids).flatMap square.batchRetrieve).reverse :=
    List.mem_reverse.mpr ((mem_batchRetrieve hs).mpr ⟨ho, orderId, hasked, hid⟩)
  unfold orderTip
  split
  · next husd =>
    cases hfind : List.find? _ _ with
    | none =>
        have hnone := List.find?_eq_none.mp hfind o hmem
        simp [hid, husd] at hnone
    | some x =>
        have hx : x.id = some orderId ∧ _ := of_decide_eq_true (List.find?_some hfind :)
        have hbooks := ((mem_batchRetrieve hs).mp
          (List.mem_reverse.mp (List.mem_of_find?_eq_some hfind))).1
        rw [List.inj_on_of_nodup_map hb.distinct hbooks ho (hx.1.trans hid.symm)]
        rfl
  · next husd =>
    rw [Option.map_eq_none_iff, List.find?_eq_none]
    intro x hx
    have hbooks := ((mem_batchRetrieve hs).mp (List.mem_reverse.mp hx)).1
    simp only [decide_eq_true_eq, not_and]
    intro hkey
    rwa [List.inj_on_of_nodup_map hb.distinct hbooks ho (hkey.trans hid.symm)]

end SquareClient

/-! ## The evidence of a payment -/

section Evidence

variable (businessDate : Date → String) (hash : SquarePayment → Nat)
  (orderTips : String → Option Int) (period : DateRange) (p : SquarePayment)

/-- The payment states a tip in USD. -/
def StatesTip : Prop :=
  p.tipMoney.any (fun money => decide (0 < cents (some money) ∧
    (money.currency.getD "USD") = "USD")) = true

instance : Decidable (StatesTip p) := inferInstanceAs (Decidable (_ = true))

/-- The cents a payment yields. -/
def emitted : Int :=
  ((tipEvidence businessDate hash orderTips period p).map
    ProviderTipEvidence.grossAmountUsdCents).getD 0

/-- The cents the payments of an order have yielded. -/
def emittedFor (evidence : List ProviderTipEvidence) (orderId : String) : Int :=
  ((evidence.filter fun e => decide (e.externalOrderId = some orderId)).map
    ProviderTipEvidence.grossAmountUsdCents).sum

theorem emittedFor_filterMap (payments : List SquarePayment) (orderId : String) :
    emittedFor (payments.filterMap (tipEvidence businessDate hash orderTips period)) orderId =
      ((payments.filter fun p => decide (p.orderId = some orderId)).map
        (emitted businessDate hash orderTips period)).sum := by
  unfold emittedFor
  induction payments with
  | nil => rfl
  | cons p payments ih =>
      rw [List.filterMap_cons, List.filter_cons]
      cases he : tipEvidence businessDate hash orderTips period p with
      | none =>
          have hzero : emitted businessDate hash orderTips period p = 0 := by
            rw [emitted, he]
            rfl
          simp only [ih]
          split
          · rw [List.map_cons, List.sum_cons, hzero, Int.zero_add]
          · rfl
      | some e =>
          have hgross : emitted businessDate hash orderTips period p = e.grossAmountUsdCents := by
            rw [emitted, he]
            rfl
          simp only [List.filter_cons,
            externalOrderId_tipEvidence businessDate hash orderTips period p he]
          split
          · rw [List.map_cons, List.sum_cons, List.map_cons, List.sum_cons, ih, hgross]
          · exact ih

/-- A payment yields the tip of its order where it states none, and its own
otherwise. -/
theorem emitted_eq {unit : Int} {own : SquarePayment → Nat}
    (hunit : p.tipMoney = none →
      max 0 ((orderTips (p.orderId.getD "")).getD 0) = unit)
    (hown : ∀ money, p.tipMoney = some money → cents (some money) = own p) :
    emitted businessDate hash orderTips period p =
      (if p.tipMoney = none ∧ Dated businessDate period p then unit else 0) +
      if Dated businessDate period p ∧ StatesTip p then (own p : Int) else 0 := by
  rw [emitted, gross_tipEvidence]
  by_cases hdated : Dated businessDate period p
  · cases hmoney : p.tipMoney with
    | none =>
        have hnot : ¬ StatesTip p := by simp [StatesTip, hmoney]
        rw [← hunit hmoney]
        simp only [hdated, tipAmount, tipCurrency, hmoney, hnot, true_and, and_false, and_self,
          Option.bind_none, Option.none_or, if_true, if_false, Int.add_zero]
        by_cases hpos : 0 < (orderTips (p.orderId.getD "")).getD 0
        · simp only [hpos, if_true, and_self, Option.getD_some,
            max_eq_right (Int.le_of_lt hpos)]
        · simp only [hpos, false_and, if_false, Option.getD_none,
            max_eq_left (Int.not_lt.mp hpos)]
    | some money =>
        have hstates : StatesTip p ↔ 0 < own p ∧ money.currency.getD "USD" = "USD" := by
          simp [StatesTip, hmoney, hown money hmoney]
        have hcurrency : 0 < own p →
            (tipCurrency orderTips p = some "USD" ↔ money.currency.getD "USD" = "USD") := by
          intro hpos
          rw [tipCurrency, tipAmount, hmoney]
          cases hcurrency : money.currency with
          | none => simp [hcurrency, hown money hmoney, hpos]
          | some currency => simp [hcurrency]
        simp only [hdated, tipAmount, hmoney, hown money hmoney, hstates, true_and, reduceCtorEq,
          false_and, if_false, Int.zero_add, Int.natCast_pos]
        by_cases hpos : 0 < own p
        · simp only [hpos, true_and, hcurrency hpos]
          split <;> rfl
        · simp only [hpos, false_and, if_false, Option.getD_none]
  · simp [hdated]

end Evidence

theorem sum_emitted {L : List SquarePayment} {f : SquarePayment → Int} {unit : Int}
    {own : SquarePayment → Nat} {P Q : SquarePayment → Prop} [DecidablePred P] [DecidablePred Q]
    (h : ∀ p ∈ L, f p = (if P p then unit else 0) + if Q p then (own p : Int) else 0) :
    (L.map f).sum = (L.filter P).length * unit + ((L.filter Q).map own).sum := by
  induction L with
  | nil => simp
  | cons p L ih =>
      rw [List.map_cons, List.sum_cons, h p List.mem_cons_self,
        ih fun p' hp' => h p' (List.mem_cons_of_mem _ hp'), List.filter_cons, List.filter_cons]
      by_cases hP : P p
      · by_cases hQ : Q p
        · simp [hP, hQ, Int.add_mul]
          omega
        · simp [hP, hQ, Int.add_mul]
          omega
      · by_cases hQ : Q p
        · simp [hP, hQ]
          omega
        · simp [hP, hQ]

/-! ## The payments of an order -/

section Order

variable (square : SquarePayments) (businessDate : Date → String) (hash : SquarePayment → Nat)
  (period : DateRange) (o : SquareOrder) (orderId : String)

/-- The payments of an order that Square returns. -/
def SquarePayments.returned : List SquarePayment :=
  (square.pages period.beginTime period.endTime).flatten.filter fun p =>
    decide (p.orderId = some orderId)

/-- Those that state no tip, with a business date in the period. -/
def SquarePayments.untipped : List SquarePayment :=
  (square.returned period orderId).filter fun p =>
    decide (p.tipMoney = none ∧ Dated businessDate period p)

/-- Those that state a tip in USD, with a business date in the period. -/
def SquarePayments.tipped : List SquarePayment :=
  (square.returned period orderId).filter fun p =>
    decide (Dated businessDate period p ∧ StatesTip p)

/-- The order has a tip in USD. -/
def SquareOrder.HasTip : Prop :=
  o.totalTipMoney.bind SquareMoney.currency = some "USD" ∧ 0 < cents o.totalTipMoney

instance : Decidable o.HasTip := inferInstanceAs (Decidable (_ ∧ _))

/-- Where an order with a tip has a payment without one, that is the only payment
of the order with evidence. -/
def CountsOnce : Prop :=
  o.HasTip → square.untipped businessDate period orderId = [] ∨
    (square.untipped businessDate period orderId).length = 1 ∧
      square.tipped businessDate period orderId = []

variable {square businessDate period o orderId} {b : SquareBooks} {tip : SquarePayment → Nat}

/-- The evidence of the payments of an order: the tip of the order for each of them
that states none, and the tips the others state. -/
theorem emittedFor_fetchTipEvidence (hs : square.AnswersFrom b) (hb : b.Consistent tip)
    (ho : o ∈ b.orders) (hid : o.id = some orderId) :
    emittedFor (fetchTipEvidence businessDate hash square period) orderId =
      (square.untipped businessDate period orderId).length *
          (if o.HasTip then cents o.totalTipMoney else 0) +
        ((square.tipped businessDate period orderId).map tip).sum := by
  rw [fetchTipEvidence, emittedFor_filterMap]
  refine sum_emitted fun p hp => ?_
  obtain ⟨hpages, hof⟩ := List.mem_filter.mp hp
  have hof' : p.orderId = some orderId := of_decide_eq_true hof
  have hbooks : p ∈ b.payments := (hs.pages _ _).subset hpages
  refine emitted_eq businessDate hash _ period p (fun huntipped => ?_) (hb.stated p hbooks)
  have hasked : orderId ∈
      missingTipOrderIds (square.pages period.beginTime period.endTime).flatten :=
    List.mem_filterMap.mpr ⟨p, List.mem_filter.mpr ⟨hpages, decide_eq_true huntipped⟩, hof'⟩
  rw [hof', Option.getD_some, orderTip_eq hs hb ho hid hasked]
  by_cases husd : o.totalTipMoney.bind SquareMoney.currency = some "USD"
  · by_cases hpos : 0 < cents o.totalTipMoney
    · simp [SquareOrder.HasTip, husd, hpos, Int.le_of_lt hpos]
    · simp [SquareOrder.HasTip, husd, hpos, Int.not_lt.mp hpos]
  · simp [SquareOrder.HasTip, husd]

/-- The tips the payments state are part of the tip of the order. -/
theorem sum_tipped_le (hs : square.AnswersFrom b) (hb : b.Consistent tip) (ho : o ∈ b.orders)
    (hid : o.id = some orderId) :
    (((square.tipped businessDate period orderId).map tip).sum : Int) ≤ cents o.totalTipMoney := by
  rw [hb.total o ho orderId hid]
  have hpart : (square.tipped businessDate period orderId).Subperm (b.paymentsOf orderId) :=
    List.filter_sublist.subperm.trans ((hs.pages _ _).filter _)
  obtain ⟨l, hperm, hsub⟩ := hpart
  have hsum : ((square.tipped businessDate period orderId).map tip).sum = (l.map tip).sum :=
    (hperm.map tip).sum_eq.symm
  rw [hsum]
  exact_mod_cast (hsub.map tip).sum_le_sum fun _ _ => Nat.zero_le _

/-- A payment that states a tip states a positive one. -/
theorem sum_tipped_pos (hs : square.AnswersFrom b) (hb : b.Consistent tip)
    (hne : square.tipped businessDate period orderId ≠ []) :
    0 < ((square.tipped businessDate period orderId).map tip).sum := by
  obtain ⟨p, hp⟩ := List.exists_mem_of_ne_nil _ hne
  obtain ⟨hreturned, hboth⟩ := List.mem_filter.mp hp
  obtain ⟨-, hstates⟩ := of_decide_eq_true hboth
  have hbooks : p ∈ b.payments := (hs.pages _ _).subset (List.mem_filter.mp hreturned).1
  have hpos : 0 < tip p := by
    unfold StatesTip at hstates
    cases hmoney : p.tipMoney with
    | none => simp [hmoney] at hstates
    | some money =>
        have hown := hb.stated p hbooks money hmoney
        simp only [hmoney, Option.any_some, decide_eq_true_eq] at hstates
        omega
  exact Nat.lt_of_lt_of_le hpos (List.single_le_sum (fun _ _ => Nat.zero_le _) _
    (List.mem_map_of_mem hp))

/-- **No more than the tip of the order**: the evidence of the payments of an order
adds up to its tip at most, if and only if a payment without a tip of its own is
the only one with evidence. -/
theorem order_tips_within_total_iff (hs : square.AnswersFrom b) (hb : b.Consistent tip)
    (ho : o ∈ b.orders) (hid : o.id = some orderId) :
    emittedFor (fetchTipEvidence businessDate hash square period) orderId ≤
        cents o.totalTipMoney ↔
      CountsOnce square businessDate period o orderId := by
  rw [emittedFor_fetchTipEvidence hash hs hb ho hid, CountsOnce]
  have hpart : (((square.tipped businessDate period orderId).map tip).sum : Int) ≤
      cents o.totalTipMoney := sum_tipped_le hs hb ho hid
  by_cases htip : o.HasTip
  · have hpos := htip.2
    simp only [htip, if_true, true_implies]
    cases huntipped : square.untipped businessDate period orderId with
    | nil => simpa using hpart
    | cons p rest =>
        simp only [reduceCtorEq, false_or]
        constructor
        · intro hle
          have hone : (p :: rest).length = 1 := by
            by_contra hmany
            have htwice : 2 * cents o.totalTipMoney ≤ (p :: rest).length * cents o.totalTipMoney :=
              Int.mul_le_mul_of_nonneg_right (by simp only [List.length_cons] at *; omega)
                (Int.le_of_lt hpos)
            omega
          refine ⟨hone, ?_⟩
          by_contra hne
          have hmore := sum_tipped_pos hs hb hne
          rw [hone] at hle
          omega
        · rintro ⟨hone, hnone⟩
          rw [hone, hnone]
          simp
  · simp only [htip, if_false, Int.mul_zero, Int.zero_add, false_implies, iff_true]
    exact hpart

end Order

section Concrete

/-- Square with the books, all payments on one page. -/
def SquareBooks.answers (b : SquareBooks) : SquarePayments where
  pages _ _ := [b.payments]
  batchRetrieve ids := b.orders.filter fun o => o.id.any fun id => decide (id ∈ ids)

theorem SquareBooks.answersFrom_answers (b : SquareBooks) : b.answers.AnswersFrom b where
  pages _ _ := by
    rw [SquareBooks.answers, List.flatten_singleton]
  orders ids o := by
    rw [SquareBooks.answers, List.mem_filter]
    cases o.id with
    | none => simp
    | some id => simp

namespace Scenario

def usd (cents : Int) : SquareMoney := ⟨some cents, some "USD"⟩

/-- A completed payment of the order, with the tip it states. -/
def paid (id : String) (tip : Option SquareMoney) : SquarePayment where
  id := some id
  orderId := some "order-1"
  createdAt := some 1785952800000
  status := some "COMPLETED"
  tipMoney := tip
  totalMoney := some (usd 2500)
  refundedMoney := none

def tippedOrder : SquareOrder := ⟨some "order-1", some (usd 300)⟩

/-- The order is paid at once, with the tip on the order only. -/
def paidAtOnce : SquareBooks := ⟨[paid "payment-1" none], [tippedOrder]⟩

/-- The order is paid in two parts, one of them with the tip. -/
def paidInParts : SquareBooks :=
  ⟨[paid "payment-1" (some (usd 300)), paid "payment-2" none], [tippedOrder]⟩

def tipOf (p : SquarePayment) : Nat := if p.id = some "payment-1" then 300 else 0

theorem paidAtOnce_consistent : paidAtOnce.Consistent tipOf where
  stated := by decide +kernel
  unstated p hp orderId hof _ := by
    obtain rfl := List.mem_singleton.mp hp
    cases hof
    exact .inr rfl
  total o ho orderId hid := by
    obtain rfl := List.mem_singleton.mp ho
    cases hid
    rfl
  distinct := List.nodup_singleton _

theorem paidInParts_consistent : paidInParts.Consistent tipOf where
  stated p hp money hmoney := by
    obtain rfl | hp := List.mem_cons.mp hp
    · cases hmoney
      rfl
    · obtain rfl := List.mem_singleton.mp hp
      cases hmoney
  unstated p hp orderId _ hmoney := by
    obtain rfl | hp := List.mem_cons.mp hp
    · cases hmoney
    · obtain rfl := List.mem_singleton.mp hp
      exact .inl rfl
  total o ho orderId hid := by
    obtain rfl := List.mem_singleton.mp ho
    cases hid
    rfl
  distinct := List.nodup_singleton _

end Scenario

open Scenario

theorem order_tips_within_total_iff_paidAtOnce :
    emittedFor (fetchTipEvidence (fun _ => "2026-08-05") (fun _ => 0) paidAtOnce.answers
      ⟨august5, august5⟩) "order-1" ≤ cents tippedOrder.totalTipMoney ↔
    CountsOnce paidAtOnce.answers (fun _ => "2026-08-05") ⟨august5, august5⟩ tippedOrder
      "order-1" :=
  order_tips_within_total_iff _ paidAtOnce.answersFrom_answers paidAtOnce_consistent
    (List.mem_singleton.mpr rfl) rfl

/-- The tip of the order is counted for both of its payments. -/
theorem order_tip_counted_twice :
    paidInParts.answers.AnswersFrom paidInParts ∧ paidInParts.Consistent tipOf ∧
      cents tippedOrder.totalTipMoney = 300 ∧
      emittedFor (fetchTipEvidence (fun _ => "2026-08-05") (fun _ => 0) paidInParts.answers
        ⟨august5, august5⟩) "order-1" = 600 :=
  ⟨paidInParts.answersFrom_answers, paidInParts_consistent, rfl, by decide +kernel⟩

end Concrete

end ServeProof
