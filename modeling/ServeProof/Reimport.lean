import ServeProof.Imports
import ServeProof.Scenario

/-!
# ServeProof.Reimport

Whether a CSV that is imported again, corrected, replaces what was imported before.

The shifts of the second import replace those of the first.  A tip is known by its
kind as well as by its shift, and an amount of nothing is no tip: so what was stored
first, under a kind that the second import does not write, stays.
-/

namespace ServeProof

open Interleave

/-! ## Two imports -/

/-- The shift a row is about. -/
def CsvEvidenceRow.shift (row : CsvEvidenceRow) : String × String :=
  (row.provider, row.shiftExternalId)

/-- The rows are about the same shifts. -/
def SameShifts (a b : List CsvEvidenceRow) : Prop :=
  a.map CsvEvidenceRow.shift ⊆ b.map CsvEvidenceRow.shift ∧
    b.map CsvEvidenceRow.shift ⊆ a.map CsvEvidenceRow.shift

instance (a b : List CsvEvidenceRow) : Decidable (SameShifts a b) :=
  inferInstanceAs (Decidable ((∀ _ ∈ _, _ ∈ _) ∧ ∀ _ ∈ _, _ ∈ _))

/-- The amount stored under a tip. -/
def World.tipAmount (w : World) (id : TipId) : Option Int :=
  (w.db.tips.find id).map TipEvidence.grossAmountUsdCents

/-- The venue has the same tips and shifts in both worlds. -/
def SameEvidence (venueId : VenueId) (w w' : World) : Prop :=
  (∀ id : TipId, id.venueId = venueId → w.tipAmount id = w'.tipAmount id) ∧
    ∀ id : ShiftId, id.venueId = venueId → w.db.shifts.find id = w'.db.shifts.find id

/-- The tip of a row. -/
def CsvEvidenceRow.tipId (venueId : VenueId) (row : CsvEvidenceRow) : TipId :=
  ⟨venueId, row.provider, "csv:" ++ row.shiftExternalId, row.tipType⟩

/-- The row has an amount for a tip. -/
def CsvEvidenceRow.Pays (venueId : VenueId) (id : TipId) (row : CsvEvidenceRow) : Prop :=
  row.tipId venueId = id ∧ 0 < row.grossCents

instance (venueId : VenueId) (id : TipId) (row : CsvEvidenceRow) :
    Decidable (row.Pays venueId id) :=
  inferInstanceAs (Decidable (_ ∧ _))

/-- The last amount for a tip. -/
def lastAmount (venueId : VenueId) (rows : List CsvEvidenceRow) (id : TipId) : Option Int :=
  (rows.reverse.find? fun row => decide (row.Pays venueId id)).map CsvEvidenceRow.grossCents

/-- Every tip that only the first CSV pays was stored before, with its amount. -/
def StoredBefore (venueId : VenueId) (w : World) (a b : List CsvEvidenceRow) : Prop :=
  ∀ row ∈ a, 0 < row.grossCents → (∀ row' ∈ b, ¬ row'.Pays venueId (row.tipId venueId)) →
    w.tipAmount (row.tipId venueId) = lastAmount venueId a (row.tipId venueId)

section Imports

variable [Collation] {businessDate : Date → String} {hash : CsvEvidenceRow → Nat}
  {venueId : VenueId} {a b : List CsvEvidenceRow} {actor actor' : Option UserId}
  {now now' : Time} {w : World}

/-! ### Rows -/

omit [Collation] in
theorem lastAmount_eq_none {id : TipId} :
    lastAmount venueId a id = none ↔ ∀ row ∈ a, ¬ row.Pays venueId id := by
  simp [lastAmount, List.find?_eq_none]

omit [Collation] in
theorem csvTip_of_pos (businessDate : Date → String) (hash : CsvEvidenceRow → Nat)
    {row : CsvEvidenceRow} (venueId : VenueId) (hpos : 0 < row.grossCents) :
    ∃ tip, csvTip businessDate hash row = some tip ∧
      tip.key venueId = row.tipId venueId ∧ tip.grossAmountUsdCents = row.grossCents :=
  ⟨_, dif_pos hpos, rfl, rfl⟩

omit [Collation] in
/-- The last amount is that of the last tip. -/
theorem map_lastOf_tips (businessDate : Date → String) (hash : CsvEvidenceRow → Nat) (id : TipId) :
    (Table.lastOf (NormalizedTip.key venueId) (normalizeCsv businessDate hash a).tips id).map
      NormalizedTip.grossAmountUsdCents = lastAmount venueId a id := by
  rw [Table.lastOf, lastAmount, normalizeCsv, ← List.filterMap_reverse]
  induction a.reverse with
  | nil => rfl
  | cons row rows ih =>
      by_cases hpos : 0 < row.grossCents
      · obtain ⟨tip, htip, hkey, hgross⟩ := csvTip_of_pos businessDate hash venueId hpos
        rw [List.filterMap_cons_some htip, List.find?_cons, List.find?_cons, hkey]
        by_cases hid : row.tipId venueId = id
        · rw [decide_eq_true hid, decide_eq_true (p := row.Pays venueId id) ⟨hid, hpos⟩]
          exact congrArg some hgross
        · rw [decide_eq_false hid, decide_eq_false (p := row.Pays venueId id) fun h => hid h.1]
          exact ih
      · have htip : csvTip businessDate hash row = none := dif_neg hpos
        rw [List.filterMap_cons_none htip, List.find?_cons,
          decide_eq_false (p := row.Pays venueId id) fun h => hpos h.2]
        exact ih

omit [Collation] in
/-- A row of the one CSV about a shift of the other. -/
theorem lastShift_ne_none (hsame : SameShifts a b) {id : ShiftId}
    (h : Table.lastOf (NormalizedShift.key venueId) (normalizeCsv businessDate hash a).shifts id ≠
      none) :
    Table.lastOf (NormalizedShift.key venueId) (normalizeCsv businessDate hash b).shifts id ≠
      none := by
  obtain ⟨shift, hshift⟩ := Option.ne_none_iff_exists'.mp h
  obtain ⟨row, hrow, rfl⟩ := List.mem_map.mp (Table.mem_of_lastOf hshift)
  have hkey := Table.id_of_lastOf hshift
  obtain ⟨row', hrow', hboth⟩ := List.mem_map.mp (hsame.1 (List.mem_map_of_mem hrow))
  intro hnone
  refine Table.lastOf_eq_none.mp hnone _ (List.mem_map_of_mem hrow') ?_
  obtain ⟨hprovider, hid⟩ := Prod.mk.inj hboth
  rw [← hkey]
  simp only [NormalizedShift.key, csvShift, hprovider, hid]

/-! ### Between the imports -/

theorem venue_imported (hvenue : (w.db.venues.find venueId).isSome) :
    ((w.imported venueId (normalizeCsv businessDate hash a) actor now).db.venues.find
      venueId).isSome := by
  have hvenues : (w.imported venueId (normalizeCsv businessDate hash a) actor now).db.venues =
      w.db.venues := other_imported (f := Records.venues) (fun _ _ _ => rfl) hvenue
  rw [hvenues]
  exact hvenue

theorem confirmedAccounts_imported (hvenue : (w.db.venues.find venueId).isSome) :
    (w.imported venueId (normalizeCsv businessDate hash a) actor now).confirmedAccounts venueId =
      w.confirmedAccounts venueId := by
  have haccounts : (w.imported venueId (normalizeCsv businessDate hash a) actor now).db.accounts =
      w.db.accounts := other_imported (f := Records.accounts) (fun _ _ _ => rfl) hvenue
  rw [World.confirmedAccounts, World.confirmedAccounts, haccounts]

/-! ### Tips -/

theorem tipAmount_imported (hvenue : (w.db.venues.find venueId).isSome) (id : TipId) :
    (w.imported venueId (normalizeCsv businessDate hash a) actor now).tipAmount id =
      (lastAmount venueId a id).or (w.tipAmount id) := by
  rw [World.tipAmount, tips_imported hvenue, Table.find_upsertAll (absorbs_tipRow venueId),
    ← map_lastOf_tips businessDate hash]
  cases Table.lastOf (NormalizedTip.key venueId) (normalizeCsv businessDate hash a).tips id with
  | none => rfl
  | some tip => rfl

/-- The tips agree where what only the first CSV pays was there before. -/
theorem tipAmount_reimported_iff (hvenue : (w.db.venues.find venueId).isSome) :
    (∀ id : TipId, id.venueId = venueId →
      ((w.imported venueId (normalizeCsv businessDate hash a) actor now).imported venueId
          (normalizeCsv businessDate hash b) actor' now').tipAmount id =
        (w.imported venueId (normalizeCsv businessDate hash b) actor' now').tipAmount id) ↔
      StoredBefore venueId w a b := by
  simp only [tipAmount_imported (venue_imported hvenue), tipAmount_imported hvenue]
  constructor
  · intro h row hrow hpos hb
    have hid := h (row.tipId venueId) rfl
    obtain ⟨amount, hamount⟩ : ∃ amount, lastAmount venueId a (row.tipId venueId) = some amount :=
      Option.ne_none_iff_exists'.mp fun hnone => lastAmount_eq_none.mp hnone row hrow ⟨rfl, hpos⟩
    rw [lastAmount_eq_none.mpr hb, hamount, Option.none_or, Option.none_or, Option.some_or] at hid
    rw [← hid, hamount]
  · intro h id _
    cases hb : lastAmount venueId b id with
    | some amount => rw [Option.some_or, Option.some_or]
    | none =>
        rw [Option.none_or, Option.none_or]
        cases ha : lastAmount venueId a id with
        | none => rw [Option.none_or]
        | some amount =>
            obtain ⟨row, hfind, -⟩ := Option.map_eq_some_iff.mp ha
            obtain ⟨rfl, hpos⟩ : row.Pays venueId id := of_decide_eq_true (List.find?_some hfind :)
            have hrow := List.mem_reverse.mp (List.mem_of_find?_eq_some hfind)
            rw [Option.some_or, h row hrow hpos (lastAmount_eq_none.mp hb), ha]

/-! ### Shifts -/

/-- The second import decides on every shift that the first one has written. -/
theorem shift_reimported (hvenue : (w.db.venues.find venueId).isSome) (hsame : SameShifts a b)
    (id : ShiftId) :
    ((w.imported venueId (normalizeCsv businessDate hash a) actor now).imported venueId
        (normalizeCsv businessDate hash b) actor' now').db.shifts.find id =
      (w.imported venueId (normalizeCsv businessDate hash b) actor' now').db.shifts.find id := by
  rw [shifts_imported (venue_imported hvenue), confirmedAccounts_imported hvenue,
    shifts_imported hvenue, shifts_imported hvenue]
  have habsorbs := absorbs_shiftRow venueId (w.confirmedAccounts venueId)
  by_cases hb : Table.lastOf (NormalizedShift.key venueId)
      (normalizeCsv businessDate hash b).shifts id = none
  · have ha : Table.lastOf (NormalizedShift.key venueId)
        (normalizeCsv businessDate hash a).shifts id = none := by
      by_contra ha
      exact lastShift_ne_none hsame ha hb
    rw [Table.find_upsertAll habsorbs, Table.find_upsertAll habsorbs,
      Table.find_upsertAll habsorbs, ha, hb]
  · exact Table.find_upsertAll_upsertAll habsorbs hb

/-! ### Both -/

/-- After an import of the one CSV and then of the other, the venue has the evidence
that an import of the other alone would have left, exactly where every tip that only
the first CSV writes was there before. -/
theorem reimport_replaces_iff (hvenue : (w.db.venues.find venueId).isSome)
    (hsame : SameShifts a b) :
    SameEvidence venueId
        ((w.imported venueId (normalizeCsv businessDate hash a) actor now).imported venueId
          (normalizeCsv businessDate hash b) actor' now')
        (w.imported venueId (normalizeCsv businessDate hash b) actor' now') ↔
      StoredBefore venueId w a b := by
  rw [← tipAmount_reimported_iff hvenue]
  constructor
  · intro h
    exact h.1
  · intro htips
    exact ⟨htips, fun id _ => shift_reimported hvenue hsame id⟩

end Imports

section Concrete

open Scenario

/-- A venue without evidence. -/
def Scenario.emptyVenue : World :=
  (Write.record (.saveVenue ⟨venue, "Venue", none⟩)).apply World.empty

/-- A row about one shift. -/
def Scenario.rowOf (grossTip : String)
    (h : ∃ cents ∈ parseUsdToCents grossTip, 0 ≤ cents := by exact ⟨_, rfl, by decide⟩) :
    CsvEvidenceRow where
  provider := "square"
  workerExternalId := "member"
  shiftExternalId := "T1"
  tipType := .cardTip
  grossTip := grossTip
  clockIn := 0
  clockOut := 3600000
  role := "SERVER"
  payoutRoute := .payroll
  payrollStatus := "PENDING"
  grossTip_valid := h

/-- An amount that is corrected to another. -/
theorem reimport_replaces_amount :
    let csv := normalizeCsv (fun _ => date) (fun _ => 1)
    SameEvidence venue
      (@World.imported byCodePoint venue (csv [rowOf "12.50"]) none 1
        (@World.imported byCodePoint venue (csv [rowOf "10.00"]) none 0 emptyVenue))
      (@World.imported byCodePoint venue (csv [rowOf "12.50"]) none 1 emptyVenue) := by
  have hstored : StoredBefore venue emptyVenue [rowOf "10.00"] [rowOf "12.50"] := by
    unfold StoredBefore
    decide +kernel
  exact (@reimport_replaces_iff byCodePoint _ _ venue [rowOf "10.00"] [rowOf "12.50"] none none 0 1
    emptyVenue (by decide) (by decide)).mpr hstored

/-- An amount that is corrected to nothing. -/
theorem reimport_keeps_tip :
    let csv := normalizeCsv (fun _ => date) (fun _ => 1)
    let a := [rowOf "10.00"]
    let b := [rowOf "0.00"]
    let w := @World.imported byCodePoint venue (csv b) none 1
      (@World.imported byCodePoint venue (csv a) none 0 emptyVenue)
    let w' := @World.imported byCodePoint venue (csv b) none 1 emptyVenue
    SameShifts a b ∧
      w.tipAmount ⟨venue, "square", "csv:T1", .cardTip⟩ = some 1000 ∧
      w'.tipAmount ⟨venue, "square", "csv:T1", .cardTip⟩ = none ∧
      ¬ SameEvidence venue w w' := by
  have hkept : (@World.imported byCodePoint venue
      (normalizeCsv (fun _ => date) (fun _ => 1) [rowOf "0.00"]) none 1
      (@World.imported byCodePoint venue
        (normalizeCsv (fun _ => date) (fun _ => 1) [rowOf "10.00"]) none 0 emptyVenue)).tipAmount
      ⟨venue, "square", "csv:T1", .cardTip⟩ = some 1000 := by decide +kernel
  have hnone : (@World.imported byCodePoint venue
      (normalizeCsv (fun _ => date) (fun _ => 1) [rowOf "0.00"]) none 1 emptyVenue).tipAmount
      ⟨venue, "square", "csv:T1", .cardTip⟩ = none := by decide +kernel
  refine ⟨by decide, hkept, hnone, fun h => ?_⟩
  have hsame := h.1 ⟨venue, "square", "csv:T1", .cardTip⟩ rfl
  rw [hkept, hnone] at hsame
  cases hsame

end Concrete

end ServeProof
