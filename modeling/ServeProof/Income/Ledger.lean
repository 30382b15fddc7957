import ServeProof.Income.Schema

/-!
# ServeProof.Income.Ledger

What is written to the income tables: the entries a projection and a
correction leave, the alerts, the log.

An entry keeps its pair and what it corrects (`Kept`).  What a projection looks
at is the base entry of a pair and whether the pair has a superseded entry:
`baseEntry_*` and `superseded_*` say what each write does to the two.
-/

namespace ServeProof

namespace Books

/-- Some entry of the pair has been superseded. -/
def Superseded (b : Books) (pair : WorkerId × Option ShiftId) : Prop :=
  ∃ e ∈ b.entries.rows, e.pair = pair ∧ e.effectiveStatus = .superseded

instance (b : Books) (pair : WorkerId × Option ShiftId) : Decidable (b.Superseded pair) :=
  inferInstanceAs (Decidable (∃ e ∈ _, _))

/-- The base entry of a pair. -/
def baseEntry (b : Books) (pair : WorkerId × Option ShiftId) : Option IncomeEntry :=
  b.entries.rows.find? fun e => decide (e.pair = pair ∧ e.Base)

/-- Insert an entry under the next id. -/
def insert (b : Books) (row : EntryId → IncomeEntry) (hrow : ∀ id, (row id).id = id) : Books :=
  { b with
    entries := b.entries.set (row b.nextEntryId)
    nextEntryId := b.nextEntryId + 1
    fresh := by
      intro e he
      cases (b.entries.mem_set).mp he with
      | inl h => rw [h, hrow]; exact Nat.lt_succ_self _
      | inr h => exact Nat.lt_succ_of_lt (b.fresh e h.1) }

/-- Change an entry; its id stays. -/
def update (b : Books) (id : EntryId) (f : IncomeEntry → IncomeEntry)
    (hf : ∀ e, (f e).id = e.id) : Books :=
  { b with
    entries := b.entries.update id f
    fresh := by
      intro e he
      cases (b.entries.mem_update hf).mp he with
      | inl h => exact b.fresh e h.1
      | inr h =>
          obtain ⟨old, hold, -, rfl⟩ := h
          rw [hf]
          exact b.fresh old hold }

end Books

/-- What a correction changes of an entry. -/
structure Correction where
  reason : String
  earnedUsdCents : Option Int
  allocatedUsdCents : Option Int
  paidUsdCents : Option Int
  payrollReportedUsdCents : Option Int
  deriving DecidableEq, Repr

namespace IncomeEntry

/-- A base entry as the projector creates it. -/
def base (data : EntryData) (id : EntryId) : IncomeEntry where
  id := id
  data := data
  effectiveStatus := .active
  originalEntryId := none
  correctionOfId := none
  correctionReason := none

/-- The columns the projector writes to an existing entry. -/
def project (data : EntryData) (e : IncomeEntry) : IncomeEntry :=
  { e with data := data, effectiveStatus := .active }

def supersede (e : IncomeEntry) : IncomeEntry := { e with effectiveStatus := .superseded }

/-- The entry that corrects `original`. -/
def corrected (original : IncomeEntry) (input : Correction) (id : EntryId) : IncomeEntry where
  id := id
  data :=
    { original.data with
      earnedUsdCents := input.earnedUsdCents.getD original.data.earnedUsdCents
      allocatedUsdCents := input.allocatedUsdCents.getD original.data.allocatedUsdCents
      paidUsdCents := input.paidUsdCents.getD original.data.paidUsdCents
      payrollReportedUsdCents :=
        input.payrollReportedUsdCents.getD original.data.payrollReportedUsdCents }
  effectiveStatus := .active
  originalEntryId := original.originalEntryId.or (some original.id)
  correctionOfId := some original.id
  correctionReason := some input.reason

theorem id_base (data : EntryData) (id : EntryId) : (base data id).id = id := rfl

theorem id_project (data : EntryData) (e : IncomeEntry) : (project data e).id = e.id := rfl

theorem id_supersede (e : IncomeEntry) : e.supersede.id = e.id := rfl

theorem id_corrected (original : IncomeEntry) (input : Correction) (id : EntryId) :
    (corrected original input id).id = id := rfl

end IncomeEntry

inductive BooksWrite where
  | savePayroll (row : PayrollRecord)
  | updateEntry (id : EntryId) (data : EntryData)
  | createEntry (data : EntryData)
  /-- Delete the unresolved alerts of a venue. -/
  | deleteAlerts (venueId : VenueId)
  | createAlerts (alerts : List DiscrepancyAlert)
  | log (row : IncomeAuditLog)
  /-- The writes of a correction to the ledger. -/
  | correct (original : IncomeEntry) (actorUserId : UserId) (input : Correction)

namespace BooksWrite

def apply : BooksWrite → Books → Books
  | savePayroll row, b => { b with payrollRecords := b.payrollRecords.set row }
  | updateEntry id data, b => b.update id (IncomeEntry.project data) (IncomeEntry.id_project data)
  | createEntry data, b => b.insert (IncomeEntry.base data) (IncomeEntry.id_base data)
  | deleteAlerts venueId, b =>
      { b with
        alerts := b.alerts.filter fun a => !decide (a.venueId = venueId ∧ a.resolvedAt = none) }
  | createAlerts alerts, b => { b with alerts := b.alerts ++ alerts }
  | log row, b => { b with auditLog := b.auditLog ++ [row] }
  | correct original actorUserId input, b =>
      { (b.update original.id IncomeEntry.supersede IncomeEntry.id_supersede).insert
          (original.corrected input) (original.id_corrected input) with
        auditLog := b.auditLog ++ [⟨original.data.venueId, some actorUserId,
          .incomeEntryCorrected original.id input.reason⟩] }

end BooksWrite

/-! ## What a write does to the entries -/

namespace Books

theorem rows_update (b : Books) {id : EntryId} {f : IncomeEntry → IncomeEntry}
    (hf : ∀ e, (f e).id = e.id) :
    (b.update id f hf).entries.rows = b.entries.rows.map fun e => if e.id = id then f e else e :=
  Table.rows_update b.entries hf

theorem find_next (b : Books) : b.entries.find b.nextEntryId = none := by
  rw [Table.find_eq_none_iff]
  intro e he h
  have hlt := b.fresh e he
  rw [h] at hlt
  exact Nat.lt_irrefl _ hlt

theorem rows_insert (b : Books) {row : EntryId → IncomeEntry} (hrow : ∀ id, (row id).id = id) :
    (b.insert row hrow).entries.rows = b.entries.rows ++ [row b.nextEntryId] := by
  have hnone : b.entries.find (row b.nextEntryId).id = none := by rw [hrow]; exact b.find_next
  exact b.entries.rows_set_of_not_mem hnone

theorem find_update (b : Books) {id : EntryId} {f : IncomeEntry → IncomeEntry}
    (hf : ∀ e, (f e).id = e.id) (id' : EntryId) : (b.update id f hf).entries.find id' =
      if id = id' then (b.entries.find id).map f else b.entries.find id' :=
  b.entries.find_update hf id'

/-- The change of an entry leaves what the entry is about. -/
def Spares (b : Books) (id : EntryId) (f : IncomeEntry → IncomeEntry) : Prop :=
  ∀ e ∈ b.entries.rows, e.id = id → (f e).pair = e.pair ∧ (f e).correctionOfId = e.correctionOfId

theorem baseEntry_update {b : Books} {id : EntryId} {f : IncomeEntry → IncomeEntry}
    (hf : ∀ e, (f e).id = e.id) (h : b.Spares id f) (pair : WorkerId × Option ShiftId) :
    (b.update id f hf).baseEntry pair =
      (b.baseEntry pair).map fun e => if e.id = id then f e else e := by
  rw [baseEntry, rows_update, List.find?_map, baseEntry]
  congr 1
  have hsame : ∀ e ∈ b.entries.rows,
      ((if e.id = id then f e else e).pair = pair ∧ (if e.id = id then f e else e).Base) ↔
        (e.pair = pair ∧ e.Base) := by
    intro e he
    by_cases hid : e.id = id
    · obtain ⟨hpair, hcorr⟩ := h e he hid
      simp only [if_pos hid, hpair, hcorr, IncomeEntry.Base]
    · simp only [if_neg hid]
  generalize b.entries.rows = rows at hsame
  induction rows with
  | nil => rfl
  | cons e rows ih =>
      have hrest := ih fun e he => hsame e (List.mem_cons_of_mem _ he)
      have hhead := hsame e List.mem_cons_self
      rw [List.find?_cons, List.find?_cons, hrest, Function.comp_apply, decide_eq_decide.mpr hhead]

theorem baseEntry_insert (b : Books) {row : EntryId → IncomeEntry} (hrow : ∀ id, (row id).id = id)
    (pair : WorkerId × Option ShiftId) :
    (b.insert row hrow).baseEntry pair =
      (b.baseEntry pair).or
        (if (row b.nextEntryId).pair = pair ∧ (row b.nextEntryId).Base then some (row b.nextEntryId)
          else none) := by
  rw [baseEntry, rows_insert, List.find?_append, baseEntry]
  congr 1
  by_cases h : (row b.nextEntryId).pair = pair ∧ (row b.nextEntryId).Base
  · simp [h]
  · simp [h]

theorem superseded_update {b : Books} {id : EntryId} {f : IncomeEntry → IncomeEntry}
    (hf : ∀ e, (f e).id = e.id) (h : b.Spares id f) {pair : WorkerId × Option ShiftId} :
    (b.update id f hf).Superseded pair ↔
      ∃ e ∈ b.entries.rows, e.pair = pair ∧
        (if e.id = id then f e else e).effectiveStatus = .superseded := by
  have hpair : ∀ e ∈ b.entries.rows, (if e.id = id then f e else e).pair = e.pair := by
    intro e he
    by_cases hid : e.id = id
    · rw [if_pos hid, (h e he hid).1]
    · rw [if_neg hid]
  simp only [Superseded, rows_update, List.mem_map]
  constructor
  · intro ⟨e', ⟨e, he, heq⟩, hp, hs⟩
    subst heq
    exact ⟨e, he, (hpair e he).symm.trans hp, hs⟩
  · intro ⟨e, he, hp, hs⟩
    exact ⟨_, ⟨e, he, rfl⟩, (hpair e he).trans hp, hs⟩

theorem superseded_insert (b : Books) {row : EntryId → IncomeEntry} (hrow : ∀ id, (row id).id = id)
    {pair : WorkerId × Option ShiftId} :
    (b.insert row hrow).Superseded pair ↔ b.Superseded pair ∨
      (row b.nextEntryId).pair = pair ∧ (row b.nextEntryId).effectiveStatus = .superseded := by
  simp [Superseded, rows_insert, or_and_right, exists_or]

/-! ## What others may rely on -/

/-- Entries stay, and stay about what they are about. -/
def Kept (b b' : Books) : Prop :=
  ∀ id e, b.entries.find id = some e →
    ∃ e', b'.entries.find id = some e' ∧ e'.pair = e.pair ∧ e'.correctionOfId = e.correctionOfId

theorem Kept.refl (b : Books) : b.Kept b := fun _ e he => ⟨e, he, rfl, rfl⟩

theorem Kept.trans {b b' b'' : Books} (h : b.Kept b') (h' : b'.Kept b'') : b.Kept b'' := by
  intro id e he
  obtain ⟨e', he', hp', hc'⟩ := h id e he
  obtain ⟨e'', he'', hp'', hc''⟩ := h' id e' he'
  exact ⟨e'', he'', hp''.trans hp', hc''.trans hc'⟩

/-- The id and the columns of the base entry of a pair. -/
def baseData (b : Books) (pair : WorkerId × Option ShiftId) : Option (EntryId × EntryData) :=
  (b.baseEntry pair).map fun e => (e.id, e.data)

/-- The base entries of the pairs in `P` stay as they are, and superseded pairs
stay superseded. -/
structure KeptOn (P : WorkerId × Option ShiftId → Prop) (b b' : Books) : Prop where
  base : ∀ pair, P pair → b'.baseData pair = b.baseData pair
  superseded : ∀ pair, P pair → b.Superseded pair → b'.Superseded pair

variable {P Q : WorkerId × Option ShiftId → Prop}

theorem KeptOn.refl (b : Books) : b.KeptOn P b := ⟨fun _ _ => rfl, fun _ _ h => h⟩

theorem KeptOn.trans {b b' b'' : Books} (h : b.KeptOn P b') (h' : b'.KeptOn P b'') :
    b.KeptOn P b'' :=
  ⟨fun p hp => (h'.base p hp).trans (h.base p hp),
    fun p hp hs => h'.superseded p hp (h.superseded p hp hs)⟩

theorem KeptOn.imp {b b' : Books} (h : b.KeptOn P b') (hQ : ∀ pair, Q pair → P pair) :
    b.KeptOn Q b' :=
  ⟨fun p hp => h.base p (hQ p hp), fun p hp => h.superseded p (hQ p hp)⟩

/-- The change of an entry shows on its pair only. -/
theorem keptOn_update {b : Books} {id : EntryId} {f : IncomeEntry → IncomeEntry}
    (hf : ∀ e, (f e).id = e.id) (h : b.Spares id f) {pair₀ : WorkerId × Option ShiftId}
    (hpair : ∀ e ∈ b.entries.rows, e.id = id → e.pair = pair₀) :
    b.KeptOn (· ≠ pair₀) (b.update id f hf) := by
  constructor
  · intro pair hne
    rw [baseData, baseEntry_update hf h, baseData]
    cases hb : b.baseEntry pair with
    | none => rfl
    | some e =>
        have he : e.pair = pair := by
          have := List.find?_some hb
          simp only [decide_eq_true_eq] at this
          exact this.1
        have hid : e.id ≠ id := fun hid =>
          hne (he.symm.trans (hpair e (List.mem_of_find?_eq_some hb) hid))
        simp only [Option.map_some, if_neg hid]
  · intro pair hne ⟨e, he, hep, hs⟩
    rw [superseded_update hf h]
    have hid : e.id ≠ id := fun hid => hne (hep.symm.trans (hpair e he hid))
    exact ⟨e, he, hep, by rw [if_neg hid]; exact hs⟩

theorem keptOn_insert (b : Books) {row : EntryId → IncomeEntry} (hrow : ∀ id, (row id).id = id)
    (hnew : ∀ pair, P pair → ¬ ((row b.nextEntryId).pair = pair ∧ (row b.nextEntryId).Base)) :
    b.KeptOn P (b.insert row hrow) := by
  constructor
  · intro pair hp
    rw [baseData, baseEntry_insert, if_neg (hnew pair hp), Option.or_none, baseData]
  · intro pair _ hs
    exact (b.superseded_insert hrow).mpr (.inl hs)

/-- A correction leaves every base entry but for its status. -/
theorem keptOn_correct (b : Books) (original : IncomeEntry) (actorUserId : UserId)
    (input : Correction) :
    b.KeptOn P ((BooksWrite.correct original actorUserId input).apply b) := by
  have hspares : b.Spares original.id IncomeEntry.supersede := fun _ _ _ => ⟨rfl, rfl⟩
  have hupdate :
      b.KeptOn P (b.update original.id IncomeEntry.supersede IncomeEntry.id_supersede) := by
    constructor
    · intro pair _
      rw [baseData, baseEntry_update _ hspares, baseData, Option.map_map]
      congr 1
      funext e
      simp only [Function.comp_apply]
      split <;> rfl
    · intro pair _ ⟨e, he, hep, hs⟩
      rw [superseded_update _ hspares]
      refine ⟨e, he, hep, ?_⟩
      split
      · rfl
      · exact hs
  have hinsert := keptOn_insert (P := P)
    (b.update original.id IncomeEntry.supersede IncomeEntry.id_supersede)
    (original.id_corrected input) fun pair _ h => by cases h.2
  exact ⟨(hupdate.trans hinsert).base, (hupdate.trans hinsert).superseded⟩

end Books

end ServeProof
