import ServeProof.World

/-!
# ServeProof.Writes.Records

The transactions that write neither batches nor payouts: evidence, external
accounts, policies, wallets.  They change what the settlement core reads,
never what it has stored.
-/

namespace ServeProof

/-- A tip of an imported CSV.  Only positive amounts become tips. -/
structure NormalizedTip where
  provider : String
  externalPaymentId : String
  tipType : TipType
  grossAmountUsdCents : Int
  businessDate : String
  sourceHash : Nat
  positive : 0 < grossAmountUsdCents

structure NormalizedShift where
  provider : String
  externalShiftId : String
  externalWorkerId : String
  role : String
  clockIn : Date
  clockOut : Date
  workedMinutes : Int
  businessDate : String
  sourceHash : Nat
  sourcePayoutRail : Option WorkerPayoutRail
  sourcePayrollStatus : String
  deriving DecidableEq, Repr

/-- The columns of a policy the settlement core reads. -/
structure PolicyInput where
  roleWeights : List (String × ℚ)
  poolInclusion : List (TipType × Bool)
  excludedRoles : List String
  deriving DecidableEq, Repr

inductive RecordWrite where
  /-- Upsert of a CSV tip: an existing row keeps its payment and refund status. -/
  | csvTip (venueId : VenueId) (tip : NormalizedTip)
  /-- Upsert of a CSV shift: an existing row keeps its source and its status. -/
  | csvShift (venueId : VenueId) (shift : NormalizedShift) (mappedWorkerId : Option WorkerId)
  /-- A tip or shift row from a provider or from staffing. -/
  | saveTip (row : TipEvidence)
  | saveShift (row : ShiftEvidence)
  /-- Propose an external account to a worker. -/
  | propose (id : AccountId) (workerId : WorkerId)
  /-- Confirm an account and map its unmapped shifts. -/
  | verify (seen : ExternalWorkerAccount) (verifiedBy : UserId)
  | rejectAccount (seen : ExternalWorkerAccount) (verifiedBy : UserId)
  /-- Append the next policy version, active; archive the active ones. -/
  | createVersion (venueId : VenueId) (input : PolicyInput)
  | saveVenue (row : Venue)
  | saveWorker (row : Worker)
  /-- A wallet is linked, or its status changes. -/
  | addWallet (row : WorkerWallet)
  | setWalletStatus (id : WalletId) (status : WalletStatus)

namespace RecordWrite

def tipRow (venueId : VenueId) (tip : NormalizedTip) (old : Option TipEvidence) : TipEvidence where
  id := ⟨venueId, tip.provider, tip.externalPaymentId, tip.tipType⟩
  grossAmountUsdCents := tip.grossAmountUsdCents
  paymentStatus := (old.map TipEvidence.paymentStatus).getD .completed
  refundStatus := (old.map TipEvidence.refundStatus).getD .none
  businessDate := tip.businessDate
  sourceHash := tip.sourceHash

def shiftRow (venueId : VenueId) (shift : NormalizedShift) (mappedWorkerId : Option WorkerId)
    (old : Option ShiftEvidence) : ShiftEvidence where
  id := ⟨venueId, shift.provider, shift.externalShiftId⟩
  ingestSource := (old.map ShiftEvidence.ingestSource).getD .csvUpload
  externalWorkerId := shift.externalWorkerId
  mappedWorkerId := mappedWorkerId
  role := shift.role
  clockIn := shift.clockIn
  clockOut := some shift.clockOut
  workedMinutes := shift.workedMinutes
  shiftStatus := (old.map ShiftEvidence.shiftStatus).getD .completed
  businessDate := shift.businessDate
  sourceHash := shift.sourceHash
  sourcePayoutRail := shift.sourcePayoutRail
  sourcePayrollStatus := some shift.sourcePayrollStatus

/-- Backfill of the shifts of an account that have no worker. -/
def backfill (account : ExternalWorkerAccount) (s : ShiftEvidence) : ShiftEvidence :=
  if s.id.venueId = account.id.venueId ∧ s.id.provider = account.id.provider ∧
      s.externalWorkerId = account.id.externalWorkerId ∧ s.mappedWorkerId = none then
    { s with mappedWorkerId := some account.workerId }
  else s

def archive (venueId : VenueId) (p : AllocationPolicy) : AllocationPolicy :=
  if p.id.venueId = venueId ∧ p.status = .active then { p with status := .archived } else p

def setStatus (status : WalletStatus) (w : WorkerWallet) : WorkerWallet :=
  { w with status := status }

/-- The latest version of the venue's policies, 0 when there is none. -/
def latestVersion (d : Db) (venueId : VenueId) : Nat :=
  (d.policies.rows.filter fun p => decide (p.id.venueId = venueId)).foldl
    (fun v p => max v p.id.version) 0

def policyRow (d : Db) (venueId : VenueId) (input : PolicyInput) : AllocationPolicy where
  id := ⟨venueId, latestVersion d venueId + 1⟩
  status := .active
  roleWeights := input.roleWeights
  poolInclusion := input.poolInclusion
  excludedRoles := input.excludedRoles

def apply : RecordWrite → Db → Db
  | csvTip venueId tip, d =>
      let id : TipId := ⟨venueId, tip.provider, tip.externalPaymentId, tip.tipType⟩
      { d with tips := d.tips.set (tipRow venueId tip (d.tips.find id)) }
  | csvShift venueId shift mappedWorkerId, d =>
      let id : ShiftId := ⟨venueId, shift.provider, shift.externalShiftId⟩
      { d with shifts := d.shifts.set (shiftRow venueId shift mappedWorkerId (d.shifts.find id)) }
  | saveTip row, d => { d with tips := d.tips.set row }
  | saveShift row, d => { d with shifts := d.shifts.set row }
  | propose id workerId, d => { d with accounts := d.accounts.set ⟨id, workerId, .pending, none⟩ }
  | verify seen verifiedBy, d =>
      { d with
        accounts := d.accounts.update seen.id fun a =>
          { a with mappingStatus := .confirmed, verifiedBy := some verifiedBy }
        shifts := d.shifts.mapRows (backfill seen) fun s => by unfold backfill; split <;> rfl }
  | rejectAccount seen verifiedBy, d =>
      { d with
        accounts := d.accounts.update seen.id fun a =>
          { a with mappingStatus := .rejected, verifiedBy := some verifiedBy } }
  | createVersion venueId input, d =>
      { d with
        policies := (d.policies.mapRows (archive venueId) fun p => by
          unfold archive; split <;> rfl).set (policyRow d venueId input) }
  | saveVenue row, d => { d with venues := d.venues.set row }
  | saveWorker row, d => { d with workers := d.workers.set row }
  | addWallet row, d =>
      if d.wallets.find row.id = none then { d with wallets := d.wallets.set row } else d
  | setWalletStatus id status, d =>
      { d with wallets := d.wallets.update id (setStatus status) }

/-! ## What a command leaves alone -/

@[simp] theorem payouts_apply (c : RecordWrite) (d : Db) : (c.apply d).payouts = d.payouts := by
  cases c with
  | addWallet row => simp only [apply]; split <;> rfl
  | _ => rfl

@[simp] theorem allocations_apply (c : RecordWrite) (d : Db) :
    (c.apply d).allocations = d.allocations := by
  cases c with
  | addWallet row => simp only [apply]; split <;> rfl
  | _ => rfl

@[simp] theorem batches_apply (c : RecordWrite) (d : Db) : (c.apply d).batches = d.batches := by
  cases c with
  | addWallet row => simp only [apply]; split <;> rfl
  | _ => rfl

@[simp] theorem nextAllocationId_apply (c : RecordWrite) (d : Db) :
    (c.apply d).nextAllocationId = d.nextAllocationId := by
  cases c with
  | addWallet row => simp only [apply]; split <;> rfl
  | _ => rfl

/-- The address of a wallet never changes. -/
theorem find_wallet_apply {c : RecordWrite} {d : Db} {id : WalletId} {w : WorkerWallet}
    (h : d.wallets.find id = some w) :
    ∃ w', (c.apply d).wallets.find id = some w' ∧ w'.address = w.address := by
  cases c with
  | addWallet row =>
      simp only [apply]
      split
      · next hnone =>
        refine ⟨w, ?_, rfl⟩
        rw [Table.find_set, if_neg, h]
        intro hid
        rw [hid, h] at hnone
        contradiction
      · exact ⟨w, h, rfl⟩
  | setWalletStatus k status =>
      simp only [apply]
      rw [Table.find_update (f := setStatus status) _ fun _ => rfl]
      split
      · next hk => exact ⟨setStatus status w, by rw [hk, h]; rfl, rfl⟩
      · exact ⟨w, h, rfl⟩
  | _ => exact ⟨w, h, rfl⟩

/-- A shift on record stays on record. -/
theorem find_shift_apply {c : RecordWrite} {d : Db} {id : ShiftId}
    (h : (d.shifts.find id).isSome) : ((c.apply d).shifts.find id).isSome := by
  have hset (row : ShiftEvidence) : ((d.shifts.set row).find id).isSome := by
    rw [Table.find_set]
    split
    · rfl
    · exact h
  cases c with
  | csvShift venueId shift mappedWorkerId => exact hset _
  | saveShift row => exact hset row
  | verify seen verifiedBy =>
      rw [apply, Table.find_mapRows, Option.isSome_map]
      exact h
  | addWallet row => simp only [apply]; split <;> exact h
  | _ => exact h

/-- Tips stay non-negative, unless a provider reports a negative one. -/
theorem tips_nonneg_apply {c : RecordWrite} {d : Db}
    (hc : ∀ row, c = .saveTip row → 0 ≤ row.grossAmountUsdCents)
    (h : ∀ t ∈ d.tips.rows, 0 ≤ t.grossAmountUsdCents) :
    ∀ t ∈ (c.apply d).tips.rows, 0 ≤ t.grossAmountUsdCents := by
  intro t ht
  cases c with
  | csvTip venueId tip =>
      rcases (d.tips.mem_set).mp ht with rfl | ⟨ht, -⟩
      · exact Int.le_of_lt tip.positive
      · exact h t ht
  | saveTip row =>
      rcases (d.tips.mem_set).mp ht with rfl | ⟨ht, -⟩
      · exact hc t rfl
      · exact h t ht
  | addWallet row =>
      simp only [apply] at ht
      split at ht <;> exact h t ht
  | _ => exact h t ht

end RecordWrite
end ServeProof
