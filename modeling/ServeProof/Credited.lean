import ServeProof.Imports
import ServeProof.Income.Rebuild
import ServeProof.Services.SquareSync

/-!
# ServeProof.Credited

Which tips a shift is credited with.

The tips of a CSV and the cash tips of a timecard carry the shift they are from
in their payment id, each in its own way; the projection reads one of the two.
So the cash that a timecard declares is never credited to its own shift, and a
shift can be credited with tips of another whose key is the same text.
-/

namespace ServeProof

open Interleave

/-! ## What is fed to a venue -/

/-- The evidence of a venue in its two sources; how instants and source records
are read is left open. -/
structure Feed where
  businessDate : Date → String
  hashTimecard : Timecard → Nat
  hashRow : CsvEvidenceRow → Nat
  timecards : List Timecard
  rows : List CsvEvidenceRow

inductive Source where
  | square | csv
  deriving DecidableEq

namespace Feed

def cashTips (f : Feed) : List ProviderTipEvidence :=
  SquareClient.fetchCashTipEvidence f.businessDate f.hashTimecard f.timecards

def shifts (f : Feed) : List ProviderShiftEvidence :=
  SquareClient.fetchShiftEvidence f.businessDate f.hashTimecard f.timecards

def csv (f : Feed) : CsvNormalizationResult := normalizeCsv f.businessDate f.hashRow f.rows

/-- Store what one source says. -/
def store [Collation] (f : Feed) (venueId : VenueId) (now : Time) : Source → Service Unit
  | .square => persist venueId f.cashTips f.shifts
  | .csv => importCsv venueId f.csv none now

/-- The platform after the sources are stored in this order. -/
def storeAll [Collation] (f : Feed) (venueId : VenueId) (now : Time) (order : List Source)
    (s : Platform) : Platform :=
  { s with
    world := order.foldl (fun w source => ((f.store venueId now source).eval Write.apply w).2)
      s.world }

/-- A timecard is known by its id, a row by its shift and its kind of tip. -/
structure Distinct (f : Feed) : Prop where
  timecards : (f.timecards.filterMap fun t => present t.id).Nodup
  rows : (f.rows.map fun r => (r.provider, r.shiftExternalId, r.tipType)).Nodup

/-- The cents of the tips that the timecards declare. -/
def cashCents (f : Feed) : Int :=
  (f.cashTips.map ProviderTipEvidence.grossAmountUsdCents).sum

/-- The cents of all tips. -/
def cents (f : Feed) : Int :=
  f.cashCents + (f.csv.tips.map NormalizedTip.grossAmountUsdCents).sum

end Feed

/-! ## Origins and keys -/

/-- The timecard is that of the shift. -/
def Timecard.IsOf (id : ShiftId) (t : Timecard) : Prop :=
  id.provider = SquareClient.provider ∧ present t.id = some id.externalShiftId

instance (id : ShiftId) (t : Timecard) : Decidable (t.IsOf id) :=
  inferInstanceAs (Decidable (_ ∧ _))

/-- The row is one of the shift. -/
def CsvEvidenceRow.IsOf (id : ShiftId) (r : CsvEvidenceRow) : Prop :=
  r.provider = id.provider ∧ r.shiftExternalId = id.externalShiftId

instance (id : ShiftId) (r : CsvEvidenceRow) : Decidable (r.IsOf id) :=
  inferInstanceAs (Decidable (_ ∧ _))

/-- `provider:id`, by which tips are looked up. -/
def shiftKeyOf (provider externalId : String) : String := provider ++ ":" ++ externalId

/-- The cash tip of the timecard has the key of the shift. -/
def Timecard.HasKeyOf (id : ShiftId) (t : Timecard) : Prop :=
  ∃ i ∈ present t.id, shiftKeyOf SquareClient.provider ("timecard:" ++ i) =
    shiftKeyOf id.provider id.externalShiftId

instance (id : ShiftId) (t : Timecard) : Decidable (t.HasKeyOf id) :=
  inferInstanceAs (Decidable (∃ _ ∈ _, _))

/-- The tip of the row has the key of the shift. -/
def CsvEvidenceRow.HasKeyOf (id : ShiftId) (r : CsvEvidenceRow) : Prop :=
  shiftKeyOf r.provider r.shiftExternalId = shiftKeyOf id.provider id.externalShiftId

instance (id : ShiftId) (r : CsvEvidenceRow) : Decidable (r.HasKeyOf id) :=
  inferInstanceAs (Decidable (_ = _))

namespace Feed

/-- What the sources say of one shift. -/
def about (f : Feed) (id : ShiftId) : Feed :=
  { f with
    timecards := f.timecards.filter fun t => decide (t.IsOf id)
    rows := f.rows.filter fun r => decide (r.IsOf id) }

/-- What they say of other shifts under the key of this one. -/
def strays (f : Feed) (id : ShiftId) : Feed :=
  { f with
    timecards := f.timecards.filter fun t => decide (¬ t.IsOf id ∧ t.HasKeyOf id)
    rows := f.rows.filter fun r => decide (¬ r.IsOf id ∧ r.HasKeyOf id) }

/-- The rows that both sources leave in the table of tips. -/
def tipRows (f : Feed) (venueId : VenueId) : List TipEvidence :=
  f.cashTips.map (ProviderTipEvidence.row venueId) ++
    f.csv.tips.map fun tip => RecordWrite.tipRow venueId tip none

end Feed

/-! ## The ids of the tips -/

section Ids

variable {f : Feed} {venueId : VenueId}

theorem withoutCsv_csv (id : String) : Evidence.withoutCsv ("csv:" ++ id) = id := by
  have hlist : ("csv:" ++ id).toList = "csv:".toList ++ id.toList := String.toList_append
  rw [Evidence.withoutCsv, hlist, if_pos (List.prefix_append _ _)]
  exact String.ofList_toList

theorem withoutCsv_timecard (id : String) :
    Evidence.withoutCsv ("timecard:" ++ id) = "timecard:" ++ id := by
  rw [Evidence.withoutCsv, if_neg]
  rw [String.toList_append]
  intro h
  have hhead := h.head (by decide)
  simp at hhead

theorem timecard_ne_csv (i j : String) : "timecard:" ++ i ≠ "csv:" ++ j := by
  intro h
  have hhead := congrArg (fun t => t.toList.head?) h
  simp at hhead

/-- The cash tip of a timecard. -/
theorem cashTip_spec {t : Timecard} {tip : ProviderTipEvidence}
    (h : SquareClient.cashTipEvidence f.businessDate f.hashTimecard t = some tip) :
    ∃ i, present t.id = some i ∧ tip.provider = SquareClient.provider ∧
      tip.externalPaymentId = "timecard:" ++ i ∧ tip.tipType = .cashTip ∧
      tip.paymentStatus ≠ .canceled ∧ tip.refundStatus ≠ .full := by
  simp only [SquareClient.cashTipEvidence, Option.bind_eq_bind, Option.bind_eq_some_iff] at h
  obtain ⟨i, hi, start, -, h⟩ := h
  obtain ⟨-, h⟩ := Option.ite_none_left_eq_some.mp h
  cases h
  refine ⟨i, hi, rfl, rfl, rfl, ?_, nofun⟩
  simp only
  split <;> nofun

/-- The tip of a row. -/
theorem csvTip_spec {r : CsvEvidenceRow} {tip : NormalizedTip}
    (h : csvTip f.businessDate f.hashRow r = some tip) :
    tip.provider = r.provider ∧ tip.externalPaymentId = "csv:" ++ r.shiftExternalId ∧
      tip.tipType = r.tipType := by
  unfold csvTip at h
  split at h
  · cases h
    exact ⟨rfl, rfl, rfl⟩
  · cases h

/-- Distinct timecards and rows have tips of distinct ids. -/
theorem Feed.Distinct.nodup_tipRows (h : f.Distinct) (venueId : VenueId) :
    ((f.tipRows venueId).map TipEvidence.id).Nodup := by
  rw [Feed.tipRows, List.map_append, List.map_map, List.map_map, List.nodup_append]
  refine ⟨?_, ?_, ?_⟩
  · have hcards := List.pairwise_filterMap.mp h.timecards
    refine List.pairwise_map.mpr (List.pairwise_filterMap.mpr (hcards.imp ?_))
    intro t t' hne tip htip tip' htip' heq
    obtain ⟨i, hi, -, hid, -⟩ := cashTip_spec htip
    obtain ⟨i', hi', -, hid', -⟩ := cashTip_spec htip'
    have hpayment : "timecard:" ++ i = "timecard:" ++ i' := by
      rw [← hid, ← hid']
      exact congrArg TipId.externalPaymentId heq
    exact hne i hi i' hi' (by simpa using hpayment)
  · have hrows := List.pairwise_map.mp h.rows
    refine List.pairwise_map.mpr (List.pairwise_filterMap.mpr (hrows.imp ?_))
    intro r r' hne tip htip tip' htip' heq
    obtain ⟨hp, hid, htype⟩ := csvTip_spec htip
    obtain ⟨hp', hid', htype'⟩ := csvTip_spec htip'
    have hprovider : tip.provider = tip'.provider := congrArg TipId.provider heq
    have hpayment : tip.externalPaymentId = tip'.externalPaymentId :=
      congrArg TipId.externalPaymentId heq
    have hkind : tip.tipType = tip'.tipType := congrArg TipId.tipType heq
    rw [hp, hp'] at hprovider
    rw [hid, hid'] at hpayment
    rw [htype, htype'] at hkind
    exact hne (by rw [hprovider, hkind, show r.shiftExternalId = r'.shiftExternalId by
      simpa using hpayment])
  · intro a ha b hb heq
    obtain ⟨tip, htip, rfl⟩ := List.mem_map.mp ha
    obtain ⟨tip', htip', rfl⟩ := List.mem_map.mp hb
    obtain ⟨t, -, ht⟩ := List.mem_filterMap.mp htip
    obtain ⟨r, -, hr⟩ := List.mem_filterMap.mp htip'
    obtain ⟨i, -, -, hid, -⟩ := cashTip_spec ht
    have hpayment : tip.externalPaymentId = tip'.externalPaymentId :=
      congrArg TipId.externalPaymentId heq
    rw [hid, (csvTip_spec hr).2.1] at hpayment
    exact timecard_ne_csv _ _ hpayment

end Ids

/-! ## Storing -/

section Store

variable {venueId : VenueId} {P : List TipEvidence} {t : Table TipEvidence.id}

/-- The tips of the venue are among `P`. -/
def OnlyFrom (venueId : VenueId) (P : List TipEvidence) (t : Table TipEvidence.id) : Prop :=
  ∀ tip ∈ t.rows, tip.id.venueId = venueId → tip ∈ P

/-- The rows `L` are in the table, and it keeps those of `P`. -/
structure Stores (venueId : VenueId) (P L : List TipEvidence) (t t' : Table TipEvidence.id) :
    Prop where
  only : OnlyFrom venueId P t'
  new : ∀ tip ∈ L, tip ∈ t'.rows
  kept : ∀ tip ∈ P, tip ∈ t.rows → tip ∈ t'.rows

theorem stores_set (hP : (P.map TipEvidence.id).Nodup) (ht : OnlyFrom venueId P t)
    {tip : TipEvidence} (htip : tip ∈ P) : Stores venueId P [tip] t (t.set tip) where
  only x hx hv := by
    cases t.mem_set.mp hx with
    | inl h => exact h ▸ htip
    | inr h => exact ht x h.1 hv
  new x hx := t.mem_set.mpr (.inl (List.mem_singleton.mp hx))
  kept x hx hmem := by
    by_cases hid : x.id = tip.id
    · exact t.mem_set.mpr (.inl (List.inj_on_of_nodup_map hP hx htip hid))
    · exact t.mem_set.mpr (.inr ⟨hmem, hid⟩)

/-- A loop of upserts stores its rows. -/
theorem stores_foldl {β : Type} (hP : (P.map TipEvidence.id).Nodup) {turn : β → World → World}
    {row : β → TipEvidence} {L : List β} (hrow : ∀ x ∈ L, row x ∈ P)
    (hturn : ∀ x ∈ L, ∀ w : World, OnlyFrom venueId P w.db.tips →
      (turn x w).db.tips = w.db.tips.set (row x)) {w : World}
    (hw : OnlyFrom venueId P w.db.tips) :
    Stores venueId P (L.map row) w.db.tips (L.foldl (fun w x => turn x w) w).db.tips := by
  induction L generalizing w with
  | nil => exact ⟨hw, fun _ h => absurd h List.not_mem_nil, fun _ _ h => h⟩
  | cons x L ih =>
      have hset := stores_set hP hw (hrow x List.mem_cons_self)
      rw [← hturn x List.mem_cons_self w hw] at hset
      have hrest := ih (fun y hy => hrow y (List.mem_cons_of_mem x hy))
        (fun y hy => hturn y (List.mem_cons_of_mem x hy)) hset.only
      refine ⟨hrest.only, fun tip htip => ?_, fun tip htip hmem =>
        hrest.kept tip htip (hset.kept tip htip hmem)⟩
      cases List.mem_cons.mp htip with
      | inl h =>
          refine hrest.kept tip (h ▸ hrow x List.mem_cons_self) (hset.new tip ?_)
          exact List.mem_singleton.mpr h
      | inr h => exact hrest.new tip h

end Store

/-- The commands of the two sources. -/
def Write.Feeds : Write → Prop
  | .record (.csvTip ..) | .record (.csvShift ..) | .record (.saveTip _)
  | .record (.saveShift _) => True
  | c => MakesBatch c

theorem Write.Feeds.venues {c : Write} (hc : c.Feeds) (w : World) :
    (c.apply w).db.venues = w.db.venues := by
  cases c with
  | record c =>
      cases c with
      | csvTip | csvShift | saveTip | saveShift => rfl
      | propose | verify | rejectAccount | createVersion | saveVenue | saveWorker | addWallet
      | setWalletStatus => exact hc.elim
  | batch c => exact congrArg Records.venues (c.records_apply w.db)
  | payout c => exact hc.elim
  | broadcast p tx => exact hc.elim

section Programs

variable [Collation] {f : Feed} {venueId : VenueId} {now : Time}

theorem only_store (source : Source) : (f.store venueId now source).Only Write.Feeds := by
  cases source with
  | square =>
      simp only [Feed.store, persist, Prog.only_get_bind]
      intro _
      refine Prog.Only.bind (Prog.Only.forEach fun tip _ => ?_) fun _ =>
        Prog.Only.forEach fun shift _ => ?_
      · exact Prog.Only.bind (only_commit.mpr trivial) fun _ => trivial
      · rw [Prog.only_get_bind]
        exact fun _ => Prog.Only.bind (only_commit.mpr trivial) fun _ => trivial
  | csv =>
      simp only [Feed.store, importCsv, Prog.only_get_bind, Prog.only_orThrow_bind]
      intro _ _ _ _
      refine Prog.Only.bind (Prog.Only.forEach fun tip _ => ?_) fun _ =>
        Prog.Only.bind (Prog.Only.forEach fun shift _ => ?_) fun _ =>
          Prog.Only.forEach fun date _ => ?_
      · exact Prog.Only.bind (only_commit.mpr trivial) fun _ => trivial
      · exact Prog.Only.bind (only_commit.mpr trivial) fun _ => trivial
      · refine Prog.Only.bind (Prog.Only.attempt ?_) fun _ => trivial
        refine (only_calculate venueId date none none now).imp fun c hc => ?_
        cases c with
        | batch c => exact hc
        | payout c => exact hc.elim
        | record c => exact hc.elim
        | broadcast p tx => exact hc.elim

/-- The rows a source leaves in the table of tips. -/
def Feed.rowsOf (f : Feed) (venueId : VenueId) : Source → List TipEvidence
  | .square => f.cashTips.map (ProviderTipEvidence.row venueId)
  | .csv => f.csv.tips.map fun tip => RecordWrite.tipRow venueId tip none

omit [Collation] in
theorem rowsOf_subset (source : Source) {tip : TipEvidence} (h : tip ∈ f.rowsOf venueId source) :
    tip ∈ f.tipRows venueId := by
  cases source with
  | square => exact List.mem_append_left _ h
  | csv => exact List.mem_append_right _ h

theorem stores_persist (hf : f.Distinct) {w : World}
    (hw : OnlyFrom venueId (f.tipRows venueId) w.db.tips) :
    Stores venueId (f.tipRows venueId) (f.rowsOf venueId .square) w.db.tips
      ((f.store venueId now .square).eval Write.apply w).2.db.tips := by
  have hsame (c : Write) (w : World) (hc : ∃ row, c = .record (.saveShift row)) :
      (c.apply w).db.tips = w.db.tips := by
    obtain ⟨row, rfl⟩ := hc
    rfl
  simp only [Feed.store, persist]
  rw [Prog.eval_get_bind, Prog.eval_bind, Prog.eval_forEach
    (fun tip => (Write.record (.saveTip (ProviderTipEvidence.row venueId tip))).apply)
    fun _ _ => rfl]
  simp only
  rw [Prog.Only.eval_eq (f := fun w : World => w.db.tips) hsame]
  · exact stores_foldl (hf.nodup_tipRows venueId)
      (fun tip htip => rowsOf_subset .square (List.mem_map_of_mem htip)) (fun _ _ _ _ => rfl) hw
  · refine Prog.Only.forEach fun shift _ => ?_
    rw [Prog.only_get_bind]
    exact fun _ => Prog.Only.bind (only_commit.mpr ⟨_, rfl⟩) fun _ => trivial

omit [Collation] in
/-- A tip that is imported again stays as it was. -/
theorem tips_csvTip (hf : f.Distinct) {tip : NormalizedTip} (htip : tip ∈ f.csv.tips) {w : World}
    (hw : OnlyFrom venueId (f.tipRows venueId) w.db.tips) :
    ((Write.record (.csvTip venueId tip)).apply w).db.tips =
      w.db.tips.set (RecordWrite.tipRow venueId tip none) := by
  change w.db.tips.set (RecordWrite.tipRow venueId tip (w.db.tips.find _)) = _
  congr 1
  cases hold : w.db.tips.find ⟨venueId, tip.provider, tip.externalPaymentId, tip.tipType⟩ with
  | none => rfl
  | some old =>
      have hid := Table.key_of_find hold
      have hmem := hw old (Table.mem_of_find hold) (by rw [hid])
      have hrow : RecordWrite.tipRow venueId tip none ∈ f.tipRows venueId :=
        rowsOf_subset .csv (List.mem_map_of_mem htip)
      have heq := List.inj_on_of_nodup_map (hf.nodup_tipRows venueId) hmem hrow hid
      rw [heq]
      rfl

theorem stores_importCsv (hf : f.Distinct) {w : World}
    (hvenue : (w.db.venues.find venueId).isSome)
    (hw : OnlyFrom venueId (f.tipRows venueId) w.db.tips) :
    Stores venueId (f.tipRows venueId) (f.rowsOf venueId .csv) w.db.tips
      ((f.store venueId now .csv).eval Write.apply w).2.db.tips := by
  have htips : ((f.store venueId now .csv).eval Write.apply w).2.db.tips =
      (f.csv.tips.foldl (storeTip venueId) w).db.tips := by
    rw [tips_storeTip]
    exact tips_imported hvenue
  rw [htips]
  exact stores_foldl (hf.nodup_tipRows venueId)
    (fun tip htip => rowsOf_subset .csv (List.mem_map_of_mem htip))
    (fun tip htip w hw => tips_csvTip hf htip hw) hw

theorem stores_store (hf : f.Distinct) {w : World} (hvenue : (w.db.venues.find venueId).isSome)
    (hw : OnlyFrom venueId (f.tipRows venueId) w.db.tips) (source : Source) :
    Stores venueId (f.tipRows venueId) (f.rowsOf venueId source) w.db.tips
      ((f.store venueId now source).eval Write.apply w).2.db.tips := by
  cases source with
  | square => exact stores_persist hf hw
  | csv => exact stores_importCsv hf hvenue hw

/-- In whatever order and however often the sources are stored, the tips of each
source that is are in the table, and no others. -/
theorem stores_storeAll (hf : f.Distinct) (now : Time) (order : List Source) {s : Platform}
    (hvenue : (s.world.db.venues.find venueId).isSome)
    (hs : OnlyFrom venueId (f.tipRows venueId) s.world.db.tips) :
    Stores venueId (f.tipRows venueId) (order.flatMap (f.rowsOf venueId)) s.world.db.tips
      (f.storeAll venueId now order s).world.db.tips := by
  induction order generalizing s with
  | nil => exact ⟨hs, fun _ h => absurd h List.not_mem_nil, fun _ _ h => h⟩
  | cons source order ih =>
      let u : Platform :=
        { s with world := ((f.store venueId now source).eval Write.apply s.world).2 }
      have hstep : Stores venueId (f.tipRows venueId) (f.rowsOf venueId source) s.world.db.tips
          u.world.db.tips := stores_store hf hvenue hs source
      have hvenues : u.world.db.venues = s.world.db.venues :=
        Prog.Only.eval_eq (f := fun w : World => w.db.venues) (fun c w hc => hc.venues w)
          (only_store source) s.world
      have hrest := ih (s := u) (hvenues ▸ hvenue) hstep.only
      refine ⟨hrest.only, fun tip htip => ?_, fun tip htip hmem =>
        hrest.kept tip htip (hstep.kept tip htip hmem)⟩
      rw [List.flatMap_cons] at htip
      cases List.mem_append.mp htip with
      | inl h => exact hrest.kept tip (rowsOf_subset source h) (hstep.new tip h)
      | inr h => exact hrest.new tip h

/-- Once both sources are stored, the tips of the venue are theirs. -/
theorem perm_tipsOf (hf : f.Distinct) {order : List Source} (hsquare : .square ∈ order)
    (hcsv : .csv ∈ order) {s : Platform} (hvenue : (s.world.db.venues.find venueId).isSome)
    (hs : ∀ tip ∈ s.world.db.tips.rows, tip.id.venueId ≠ venueId) :
    ((f.storeAll venueId now order s).tipsOf venueId).Perm (f.tipRows venueId) := by
  have hstores := stores_storeAll hf now order hvenue
    fun tip htip hv => absurd hv (hs tip htip)
  have hnodup : ((f.storeAll venueId now order s).tipsOf venueId).Nodup :=
    List.Nodup.filter _ ((f.storeAll venueId now order s).world.db.tips.nodup.of_map _)
  refine (List.perm_ext_iff_of_nodup hnodup (hf.nodup_tipRows venueId).of_map).mpr fun tip => ?_
  constructor
  · intro h
    obtain ⟨hmem, hv⟩ := List.mem_filter.mp h
    exact hstores.only tip hmem (of_decide_eq_true hv)
  · intro h
    have hv : tip.id.venueId = venueId := by
      cases List.mem_append.mp h with
      | inl h =>
          obtain ⟨_, -, rfl⟩ := List.mem_map.mp h
          rfl
      | inr h =>
          obtain ⟨_, -, rfl⟩ := List.mem_map.mp h
          rfl
    refine List.mem_filter.mpr ⟨hstores.new tip (List.mem_flatMap.mpr ?_), decide_eq_true hv⟩
    cases List.mem_append.mp h with
    | inl h => exact ⟨.square, hsquare, h⟩
    | inr h => exact ⟨.csv, hcsv, h⟩

end Programs

/-! ## What a shift is credited with -/

section Sums

variable {α β : Type}

theorem sum_filterMap (f : α → Option β) (g : β → Int) (l : List α) :
    ((l.filterMap f).map g).sum = (l.map fun a => ((f a).map g).getD 0).sum := by
  induction l with
  | nil => rfl
  | cons a l ih =>
      cases ha : f a with
      | none => simp [ha, ih]
      | some b => simp [ha, ih]

theorem sum_filter_filterMap (f : α → Option β) (g : β → Int) (p : α → Prop) [DecidablePred p]
    (l : List α) : (((l.filter fun a => decide (p a)).filterMap f).map g).sum =
      (l.map fun a => if p a then ((f a).map g).getD 0 else 0).sum := by
  rw [List.filterMap_filter, sum_filterMap]
  refine congrArg List.sum (List.map_congr_left fun a _ => ?_)
  by_cases ha : p a
  · simp [ha]
  · simp [ha]

/-- A filter of what is made is a filter of what it is made of. -/
theorem sum_filterMap_filter {f : α → Option β} {g : β → Int} {p : α → Prop} [DecidablePred p]
    {q : β → Prop} [DecidablePred q] (h : ∀ a b, f a = some b → (q b ↔ p a)) (l : List α) :
    (((l.filterMap f).filter fun b => decide (q b)).map g).sum =
      (l.map fun a => if p a then ((f a).map g).getD 0 else 0).sum := by
  rw [List.filter_filterMap, sum_filterMap]
  refine congrArg List.sum (List.map_congr_left fun a _ => ?_)
  cases ha : f a with
  | none => simp
  | some b =>
      have hq := h a b ha
      by_cases hp : p a
      · simp [Option.filter, hp, hq.mpr hp]
      · simp [Option.filter, hp, mt hq.mp hp]

end Sums

section Credited

variable {f : Feed} {venueId : VenueId} {x : ShiftEvidence}

/-- A tip counts for the shift. -/
def CountsFor (id : ShiftId) (tip : TipEvidence) : Prop :=
  tip.refundStatus ≠ .full ∧ tip.paymentStatus ≠ .canceled ∧
    shiftKeyOf tip.id.provider (Evidence.withoutCsv tip.id.externalPaymentId) =
      shiftKeyOf id.provider id.externalShiftId

instance (id : ShiftId) (tip : TipEvidence) : Decidable (CountsFor id tip) :=
  inferInstanceAs (Decidable (_ ∧ _))

theorem countsFor_row {t : Timecard} {tip : ProviderTipEvidence}
    (h : SquareClient.cashTipEvidence f.businessDate f.hashTimecard t = some tip) (id : ShiftId) :
    CountsFor id (tip.row venueId) ↔ t.HasKeyOf id := by
  obtain ⟨i, hi, hprovider, hpayment, -, hpaid, hrefund⟩ := cashTip_spec h
  simp only [CountsFor, ProviderTipEvidence.row, hprovider, hpayment, withoutCsv_timecard,
    Timecard.HasKeyOf, hi, Option.mem_some_iff, exists_eq_left']
  exact ⟨fun h => h.2.2, fun h => ⟨hrefund, hpaid, h⟩⟩

theorem countsFor_tipRow {r : CsvEvidenceRow} {tip : NormalizedTip}
    (h : csvTip f.businessDate f.hashRow r = some tip) (id : ShiftId) :
    CountsFor id (RecordWrite.tipRow venueId tip none) ↔ r.HasKeyOf id := by
  obtain ⟨hprovider, hpayment, -⟩ := csvTip_spec h
  simp only [CountsFor, RecordWrite.tipRow, hprovider, hpayment, withoutCsv_csv,
    CsvEvidenceRow.HasKeyOf]
  exact ⟨fun h => h.2.2, fun h => ⟨nofun, nofun, h⟩⟩

/-- The tip of its own timecard has another key than a shift. -/
theorem Timecard.IsOf.not_hasKeyOf {id : ShiftId} {t : Timecard} (h : t.IsOf id) :
    ¬ t.HasKeyOf id := by
  rintro ⟨i, hi, hkey⟩
  obtain ⟨hprovider, hid⟩ := h
  cases hi.symm.trans hid
  rw [hprovider, shiftKeyOf, shiftKeyOf] at hkey
  have hlength := congrArg String.length hkey
  simp at hlength

theorem CsvEvidenceRow.IsOf.hasKeyOf {id : ShiftId} {r : CsvEvidenceRow} (h : r.IsOf id) :
    r.HasKeyOf id := by
  rw [HasKeyOf, h.1, h.2]

/-- What the stored tips credit a shift with: the tips of its own rows, and the
strays. -/
theorem Feed.sum_countsFor (f : Feed) (venueId : VenueId) (id : ShiftId) :
    (((f.tipRows venueId).filter fun tip => decide (CountsFor id tip)).map
      TipEvidence.grossAmountUsdCents).sum + (f.about id).cashCents =
        (f.about id).cents + (f.strays id).cents := by
  have hcash : (((f.cashTips.map (ProviderTipEvidence.row venueId)).filter fun tip =>
      decide (CountsFor id tip)).map TipEvidence.grossAmountUsdCents).sum =
        (f.strays id).cashCents := by
    rw [List.filter_map, List.map_map]
    refine (sum_filterMap_filter (fun t tip ht => countsFor_row ht id) f.timecards).trans ?_
    refine Eq.trans ?_ (sum_filter_filterMap _ _ _ f.timecards).symm
    refine congrArg List.sum (List.map_congr_left fun t _ => ?_)
    by_cases hown : t.IsOf id
    · simp [hown.not_hasKeyOf]
    · simp [hown]
      rfl
  have hcsv : (((f.csv.tips.map fun tip => RecordWrite.tipRow venueId tip none).filter fun tip =>
      decide (CountsFor id tip)).map TipEvidence.grossAmountUsdCents).sum =
        ((f.about id).csv.tips.map NormalizedTip.grossAmountUsdCents).sum +
          ((f.strays id).csv.tips.map NormalizedTip.grossAmountUsdCents).sum := by
    rw [List.filter_map, List.map_map]
    refine (sum_filterMap_filter (fun r tip hr => countsFor_tipRow hr id) f.rows).trans ?_
    have habout := sum_filter_filterMap (csvTip f.businessDate f.hashRow)
      NormalizedTip.grossAmountUsdCents (CsvEvidenceRow.IsOf id) f.rows
    have hstrays := sum_filter_filterMap (csvTip f.businessDate f.hashRow)
      NormalizedTip.grossAmountUsdCents (fun r => ¬ r.IsOf id ∧ r.HasKeyOf id) f.rows
    refine Eq.trans ?_ (congrArg₂ (· + ·) habout hstrays).symm
    rw [← List.sum_map_add]
    refine congrArg List.sum (List.map_congr_left fun r _ => ?_)
    by_cases hown : r.IsOf id
    · simp [hown, hown.hasKeyOf]
      rfl
    · simp [hown]
      rfl
  rw [Feed.tipRows, List.filter_append, List.map_append, List.sum_append, hcash, hcsv, Feed.cents,
    Feed.cents]
  omega

/-- The tips of a shift, once both sources are stored. -/
theorem tipsOfShift_eq [Collation] (hf : f.Distinct) {order : List Source}
    (hsquare : .square ∈ order) (hcsv : .csv ∈ order) (now : Time) {s : Platform}
    (hvenue : (s.world.db.venues.find venueId).isSome)
    (hs : ∀ tip ∈ s.world.db.tips.rows, tip.id.venueId ≠ venueId) (x : ShiftEvidence) :
    ((f.storeAll venueId now order s).evidence venueId).tipsOfShift x + (f.about x.id).cashCents =
      (f.about x.id).cents + (f.strays x.id).cents := by
  have hperm : ((f.storeAll venueId now order s).tipsOf venueId).Perm (f.tipRows venueId) :=
    perm_tipsOf hf hsquare hcsv hvenue hs
  rw [← f.sum_countsFor venueId x.id]
  have hsum := ((hperm.filter fun tip => decide (CountsFor x.id tip)).map
    TipEvidence.grossAmountUsdCents).sum_eq
  exact congrArg (· + (f.about x.id).cashCents) hsum

end Credited

/-- Once the sources of a venue are stored, in any order and any number of times,
and rebuilt, every mapped shift is credited with exactly its own tips if and only
if the strays of each come to the cash that its own timecard declares. -/
theorem credited_iff [Collation] {f : Feed} (hf : f.Distinct) {order : List Source}
    (hsquare : .square ∈ order) (hcsv : .csv ∈ order) {venueId : VenueId} (now : Time)
    {s₀ : Platform} (hvenue : (s₀.world.db.venues.find venueId).isSome)
    (hempty : ∀ tip ∈ s₀.world.db.tips.rows, tip.id.venueId ≠ venueId)
    (actorUserId : Option UserId) (source : IncomeProjectionSource) :
    let s := f.storeAll venueId now order s₀
    let ev := s.evidence venueId
    let t := ((rebuildVenueIncomeLocked venueId actorUserId source).eval Command.apply s).2
    (∀ x ∈ ev.shifts, ProjectedFrom ev venueId t.books x) ∧
      ((∀ x ∈ ev.shifts, ∀ workerId ∈ x.mappedWorkerId,
          (ev.entryData venueId x workerId).earnedUsdCents = (f.about x.id).cents) ↔
        ∀ x ∈ ev.shifts, x.mappedWorkerId.isSome →
          (f.strays x.id).cents = (f.about x.id).cashCents) := by
  intro s ev t
  have hearned (x : ShiftEvidence) (workerId : WorkerId) :
      (ev.entryData venueId x workerId).earnedUsdCents + (f.about x.id).cashCents =
        (f.about x.id).cents + (f.strays x.id).cents :=
    tipsOfShift_eq hf hsquare hcsv now hvenue hempty x
  refine ⟨projectedFrom_rebuildVenueIncomeLocked s venueId actorUserId source, fun h x hx hw => ?_,
    fun h x hx workerId hw => ?_⟩
  · obtain ⟨workerId, hw⟩ := Option.isSome_iff_exists.mp hw
    have hown := h x hx workerId hw
    have hsum := hearned x workerId
    omega
  · have hstrays := h x hx (Option.isSome_iff_exists.mpr ⟨workerId, hw⟩)
    have hsum := hearned x workerId
    omega

section Concrete

open Scenario

/-- A venue, and a worker whose Square account is confirmed. -/
def Scenario.staffed : Platform :=
  Platform.fresh (([.saveVenue ⟨venue, "Venue", none⟩,
      .saveWorker ⟨worker, "worker-user", "Worker", none⟩,
      .propose ⟨venue, "square", "member"⟩ worker,
      .verify ⟨⟨venue, "square", "member"⟩, worker, .pending, none⟩ owner] : List RecordWrite).foldl
    (fun w c => (Write.record c).apply w) World.empty) 0 "key"

/-- A timecard, and a row about its shift. -/
def Scenario.feedOf (cash : Option SquareMoney) : Feed where
  businessDate _ := date
  hashTimecard _ := 1
  hashRow _ := 2
  timecards :=
    [⟨some "T1", some "member", some 0, some 3600000, some "SERVER", some "CLOSED", cash⟩]
  rows := [⟨"square", "member", "T1", .cardTip, "12.50", 0, 3600000, "SERVER", .payroll, "PENDING",
    1250, by decide, by decide⟩]

theorem credited_iff_feedOf :
    let f := feedOf none
    let s := @Feed.storeAll byCodePoint f venue 0 [.square, .csv] staffed
    let ev := s.evidence venue
    let t := ((rebuildVenueIncomeLocked venue none .manual).eval Command.apply s).2
    ((∀ x ∈ ev.shifts, ProjectedFrom ev venue t.books x) ∧
      ((∀ x ∈ ev.shifts, ∀ workerId ∈ x.mappedWorkerId,
          (ev.entryData venue x workerId).earnedUsdCents = (f.about x.id).cents) ↔
        ∀ x ∈ ev.shifts, x.mappedWorkerId.isSome →
          (f.strays x.id).cents = (f.about x.id).cashCents)) ∧
      t.books.entries.rows.map (fun e => e.data.earnedUsdCents) = [1250] :=
  ⟨@credited_iff byCodePoint (feedOf none) ⟨by decide +kernel, by decide +kernel⟩ [.square, .csv]
    (by decide) (by decide) venue 0 staffed (by decide +kernel) (by decide +kernel) none .manual,
    by decide +kernel⟩

/-- Of the 17.50 that its timecard and its row say, the shift is credited with the
12.50 of the row. -/
theorem declared_cash_is_not_credited :
    let f := feedOf (some ⟨some 500, some "USD"⟩)
    let s := @Feed.storeAll byCodePoint f venue 0 [.square, .csv] staffed
    let ev := s.evidence venue
    let t := ((rebuildVenueIncomeLocked venue none .manual).eval Command.apply s).2
    t.books.entries.rows.map (fun e => (e.data.shiftId, e.data.earnedUsdCents)) =
        [(some ⟨venue, "square", "T1"⟩, 1250)] ∧
      (f.about ⟨venue, "square", "T1"⟩).cents = 1750 ∧
      ¬ ∀ x ∈ ev.shifts, ∀ workerId ∈ x.mappedWorkerId,
        (ev.entryData venue x workerId).earnedUsdCents = (f.about x.id).cents := by
  decide +kernel

end Concrete

end ServeProof
