import ServeProof.Requests
import ServeProof.Scenario
import ServeProof.Services.TaxReadiness

/-!
# ServeProof.Assets

Whether the columns of a payout row agree on what was paid: the rail, the asset and
the amount in base units.

One row is reused for every attempt at a payment.  An attempt in USDC writes all three
columns, and so does the first evidence of a payment on a legacy rail.  Evidence that is
registered over an attempt in USDC writes the rail alone.
-/

namespace ServeProof

open Interleave System

/-! ## The invariant -/

/-- The rail is USDC exactly where the asset is, and then the base units are those of the
cents. -/
structure Payout.WellFormed (p : Payout) : Prop where
  asset : p.rail = .usdc ↔ p.asset = "tUSDC"
  baseUnits : p.rail = .usdc → p.amountBaseUnits = 10000 * p.amountUsdCents

def World.PayoutsWellFormed (w : World) : Prop := ∀ p ∈ w.db.payouts.rows, p.WellFormed

/-- Evidence of a payment on a legacy rail is not registered over an attempt in USDC. -/
def RegistersApart : Command → Platform → Prop
  | .settle (.payout (.registerLegacy l)), s =>
      ∀ row ∈ s.world.db.payouts.find l.paymentId, row.rail ≠ .usdc
  | _, _ => True

instance (c : Command) (s : Platform) : Decidable (RegistersApart c s) :=
  match c with
  | .settle (.payout (.registerLegacy l)) =>
      inferInstanceAs (Decidable (∀ row ∈ s.world.db.payouts.find l.paymentId, _))
  | .settle (.payout (.heal ..)) | .settle (.payout (.create ..)) | .settle (.payout (.reset ..))
  | .settle (.payout (.claimBuild ..)) | .settle (.payout (.expire ..))
  | .settle (.payout (.expireAllocation ..)) | .settle (.payout (.claimSubmit ..))
  | .settle (.payout (.noteBroadcastError ..)) | .settle (.payout (.setStatus ..))
  | .settle (.payout (.finalize ..)) | .settle (.payout (.markFailed ..))
  | .settle (.payout (.countRebroadcast ..)) | .settle (.batch _) | .settle (.record _)
  | .settle (.broadcast ..) | .books _ | .disclose _ | .correct .. | .redis _ | .lockVenue ..
  | .unlockVenue .. | .answer _ => isTrue trivial

/-! ## A command -/

theorem UsdcPayout.wellFormed_row (d : UsdcPayout) : d.row.WellFormed where
  asset := iff_of_true rfl rfl
  baseUnits _ := Int.mul_comm d.amountUsdCents 10000

theorem LegacyEvidence.wellFormed_row (l : LegacyEvidence) : l.row.WellFormed where
  asset := iff_of_false l.rail.2 (show "USD" ≠ "tUSDC" by decide)
  baseUnits h := absurd h l.rail.2

/-- The row a payout command leaves. -/
theorem wellFormed_update {c : PayoutWrite} {p : Payout} (hp : p.WellFormed)
    (hc : ∀ l, c = .registerLegacy l → p.rail ≠ .usdc) : (c.update p).WellFormed := by
  cases c with
  | reset seen data => exact ⟨data.wellFormed_row.asset, data.wellFormed_row.baseUnits⟩
  | registerLegacy l =>
      have hasset : p.asset ≠ "tUSDC" := fun h => hc l rfl (hp.asset.mpr h)
      exact ⟨iff_of_false l.rail.2 hasset, fun h => absurd h l.rail.2⟩
  | _ => exact ⟨hp.asset, hp.baseUnits⟩

/-- Evidence over an attempt in USDC leaves the asset of the attempt. -/
theorem not_wellFormed_registerLegacy {l : LegacyEvidence} {p : Payout} (hp : p.WellFormed)
    (hrail : p.rail = .usdc) : ¬ ((PayoutWrite.registerLegacy l).update p).WellFormed := by
  intro h
  have hasset : p.asset = "tUSDC" := hp.asset.mp hrail
  exact l.rail.2 (h.asset.mpr hasset)

theorem wellFormed_insert {c : PayoutWrite} {p : Payout} (h : c.insert = some p) :
    p.WellFormed := by
  cases c with
  | create data =>
      obtain rfl := Option.some.inj h
      exact data.wellFormed_row
  | registerLegacy l =>
      obtain rfl := Option.some.inj h
      exact l.wellFormed_row
  | _ => cases h

/-- A payout command that does not register over an attempt in USDC. -/
theorem wellFormed_payout {c : PayoutWrite} {w : World} (hw : w.PayoutsWellFormed)
    (hc : ∀ l, c = .registerLegacy l → ∀ row ∈ w.db.payouts.find l.paymentId, row.rail ≠ .usdc) :
    ((Write.payout c).apply w).PayoutsWellFormed := by
  intro p hp
  by_cases happlies : c.Applies w.db
  · have hfind := Table.find_key hp
    rw [Write.apply_payout_db, PayoutWrite.find_payouts_apply happlies] at hfind
    split at hfind
    case isFalse => exact hw p (Table.mem_of_find hfind)
    case isTrue =>
        cases hold : w.db.payouts.find c.target with
        | none =>
            rw [hold] at hfind
            exact wellFormed_insert hfind
        | some old =>
            rw [hold] at hfind
            obtain rfl := Option.some.inj hfind
            refine wellFormed_update (hw old (Table.mem_of_find hold)) ?_
            rintro l rfl
            exact hc l rfl old hold
  · rw [Write.apply_payout_db, PayoutWrite.apply_of_not_applies happlies] at hp
    exact hw p hp

/-- What writes no payout. -/
theorem World.PayoutsWellFormed.congr {w w' : World} (hw : w.PayoutsWellFormed)
    (h : w'.db.payouts = w.db.payouts) : w'.PayoutsWellFormed := by
  intro p hp
  rw [h] at hp
  exact hw p hp

theorem wellFormed_commit (c : Command) (s : Platform) (hs : s.world.PayoutsWellFormed)
    (hc : RegistersApart c s) : (c.apply s).world.PayoutsWellFormed := by
  cases c with
  | settle c =>
      cases c with
      | payout c =>
          refine wellFormed_payout hs ?_
          rintro l rfl
          exact hc
      | batch c => exact hs.congr (c.payouts_apply s.world.db)
      | record c => exact hs.congr (c.payouts_apply s.world.db)
      | broadcast p tx => exact hs
  | lockVenue session venueId =>
      simp only [Command.apply]
      split <;> exact hs
  | unlockVenue session venueId =>
      simp only [Command.apply]
      split <;> exact hs
  | _ => exact hs

theorem wellFormed_env (e : PlatformMove) (s : Platform) (hs : s.world.PayoutsWellFormed) :
    (e.apply s).world.PayoutsWellFormed := by
  cases e with
  | world e => exact hs.congr (e.payouts_apply s.world)
  | payroll row => exact hs
  | wait ms => exact hs

/-! ## What the worker is told -/

/-- The payout of the entry is on the USDC rail. -/
def TaxRow.OnUsdc (row : TaxRow) : Prop := row.2.map Payout.rail = some .usdc

instance (row : TaxRow) : Decidable row.OnUsdc := inferInstanceAs (Decidable (_ = _))

def unmatchedCents (rows : List TaxRow) : Int := (rows.map TaxRow.unmatched).sum

/-- The amounts of the test asset are those of the payouts on the USDC rail. -/
structure TaxReadiness.ByRail (r : TaxReadiness) (rows : List TaxRow) : Prop where
  counted : ∀ row ∈ rows, row.TestAsset ↔ row.OnUsdc
  devnet : r.devnetTestUsdCents = unmatchedCents (rows.filter fun row => decide row.OnUsdc)
  unmatched : r.unmatchedUsdCents = unmatchedCents (rows.filter fun row => decide ¬ row.OnUsdc)

theorem devnetTestUsdCents_foldl (rows : List TaxRow) (t : TaxReadiness) :
    (rows.foldl TaxReadiness.count t).devnetTestUsdCents = t.devnetTestUsdCents +
      unmatchedCents (rows.filter fun row => decide row.TestAsset) := by
  induction rows generalizing t with
  | nil => exact (Int.add_zero _).symm
  | cons row rows ih =>
      rw [List.foldl_cons, ih]
      by_cases h : row.TestAsset
      · simp [TaxReadiness.count, unmatchedCents, h, Int.add_assoc]
      · simp [TaxReadiness.count, unmatchedCents, h]

theorem unmatchedUsdCents_foldl (rows : List TaxRow) (t : TaxReadiness) :
    (rows.foldl TaxReadiness.count t).unmatchedUsdCents = t.unmatchedUsdCents +
      unmatchedCents (rows.filter fun row => decide ¬ row.TestAsset) := by
  induction rows generalizing t with
  | nil => exact (Int.add_zero _).symm
  | cons row rows ih =>
      rw [List.foldl_cons, ih]
      by_cases h : row.TestAsset
      · simp [TaxReadiness.count, unmatchedCents, h]
      · simp [TaxReadiness.count, unmatchedCents, h, Int.add_assoc]

theorem year_foldl (rows : List TaxRow) (t : TaxReadiness) :
    (rows.foldl TaxReadiness.count t).year = t.year := by
  induction rows generalizing t with
  | nil => rfl
  | cons row rows ih =>
      rw [List.foldl_cons, ih, TaxReadiness.count]
      split <;> rfl

theorem testAsset_iff {s : Platform} (hs : s.world.PayoutsWellFormed) {createdAt : EntryId → Date}
    {workerId : WorkerId} {year : Int} {row : TaxRow}
    (hrow : row ∈ s.taxRows createdAt workerId year) : row.TestAsset ↔ row.OnUsdc := by
  obtain ⟨e, -, rfl⟩ := List.mem_map.mp hrow
  unfold TaxRow.TestAsset TaxRow.OnUsdc
  cases hpayout : e.data.payoutId.bind s.world.db.payouts.find with
  | none => simp
  | some p =>
      obtain ⟨id, -, hfind⟩ := Option.bind_eq_some_iff.mp hpayout
      simpa using (hs p (Table.mem_of_find hfind)).asset.symm

/-- Where payouts are well formed, the test asset is the USDC rail. -/
theorem taxReadiness_byRail {s : Platform} (hs : s.world.PayoutsWellFormed)
    {createdAt : EntryId → Date} {userId : UserId} {r : TaxReadiness}
    (hr : ((taxReadiness createdAt userId).eval Command.apply s).1 = .ok r) :
    ∃ worker ∈ s.workerOfUser userId, r.ByRail (s.taxRows createdAt worker.id r.year) := by
  rw [taxReadiness, workerOf, Prog.bind_assoc, Prog.eval_get_bind, Prog.eval_orThrow_bind] at hr
  cases hworker : s.workerOfUser userId with
  | none =>
      rw [hworker] at hr
      cases hr
  | some worker =>
      rw [hworker] at hr
      obtain rfl : (s.taxRows createdAt worker.id (utcYear s.clock)).foldl TaxReadiness.count
          (.zero (utcYear s.clock)) = r := Except.ok.inj hr
      have hcounted (row : TaxRow) (hrow : row ∈ s.taxRows createdAt worker.id (utcYear s.clock)) :
          row.TestAsset ↔ row.OnUsdc := testAsset_iff hs hrow
      refine ⟨worker, rfl, ?_⟩
      rw [year_foldl]
      refine ⟨hcounted, ?_, ?_⟩
      · rw [devnetTestUsdCents_foldl, List.filter_congr fun row hrow => decide_eq_decide.mpr
          (hcounted row hrow)]
        exact Int.zero_add _
      · rw [unmatchedUsdCents_foldl, List.filter_congr fun row hrow => decide_eq_decide.mpr
          (not_congr (hcounted row hrow))]
        exact Int.zero_add _

/-! ## The result -/

/-- In every run in which evidence of a payment on a legacy rail is not registered over
an attempt in USDC, every payout stays well formed, and what a worker is told counts as
the test asset what was paid on the USDC rail. -/
theorem payouts_well_formed [Collation] {s : Platform} (hs : s.world.PayoutsWellFormed)
    {ms : List (Move Request PlatformMove)}
    (hms : platform.Respects RegistersApart (fun _ _ => True) (number 0 ms) (Config.start s)) :
    let t := (platform.runFrom s ms).store
    (∀ p ∈ t.world.db.payouts.rows, p.WellFormed) ∧
      ∀ createdAt userId r, ((taxReadiness createdAt userId).eval Command.apply t).1 = .ok r →
        ∃ worker ∈ t.workerOfUser userId, r.ByRail (t.taxRows createdAt worker.id r.year) := by
  intro t
  have ht : t.world.PayoutsWellFormed :=
    @System.exec_inv _ _ _ _ _ platform _ _ (fun s => s.world.PayoutsWellFormed)
      wellFormed_commit (fun e s hs _ => wellFormed_env e s hs) _ _ hs hms
  exact ⟨ht, fun _ _ _ hr => taxReadiness_byRail ht hr⟩

section Concrete

open Scenario

/-- Allocation 1 is approved, in the year of its shift. -/
def Scenario.payable : Platform :=
  Platform.fresh ((@service byCodePoint).performAll approved World.empty) 1782900000000 "key"

/-- A payout in USDC is created for it. -/
def Scenario.created : List (Move Request PlatformMove) :=
  .call (.service create) :: List.replicate 10 (.step 0)

/-- Cash is handed out instead, and evidence of it registered. -/
def Scenario.paidInCash : List (Move Request PlatformMove) :=
  created ++
    .call (.income (.finalizeLegacy 1 cash "receipt" (some owner) 0)) ::
    List.replicate 40 (.step 1)

theorem wellFormed_payable : payable.world.PayoutsWellFormed := by
  have hnone : payable.world.db.payouts.rows = [] := by decide +kernel
  intro p hp
  rw [hnone] at hp
  cases hp

theorem payouts_well_formed_created :
    let t := ((@platform byCodePoint).runFrom payable created).store
    (∀ p ∈ t.world.db.payouts.rows, p.WellFormed) ∧
      ∀ createdAt userId r, ((taxReadiness createdAt userId).eval Command.apply t).1 = .ok r →
        ∃ worker ∈ t.workerOfUser userId, r.ByRail (t.taxRows createdAt worker.id r.year) :=
  @payouts_well_formed byCodePoint payable wellFormed_payable created (by decide +kernel)

/-- The payout is one in cash, of the test asset; the worker is told of no cash. -/
theorem cash_is_told_as_test_asset :
    let t := ((@platform byCodePoint).runFrom payable paidInCash).store
    t.world.db.payouts.rows.map
        (fun p => (p.rail, p.asset, p.amountBaseUnits, p.amountUsdCents, p.status)) =
      [(.cashDrawer, "tUSDC", 5000000, 500, .finalized)] ∧
    ((taxReadiness (fun _ => 0) "worker-user").eval Command.apply t).1.toOption =
      some ⟨2026, 0, 0, 500, []⟩ ∧
    ¬ ∀ p ∈ t.world.db.payouts.rows, p.WellFormed := by
  have hrow : ∃ p ∈
      ((@platform byCodePoint).runFrom payable paidInCash).store.world.db.payouts.rows,
      p.rail ≠ .usdc ∧ p.asset = "tUSDC" := by decide +kernel
  refine ⟨by decide +kernel, by decide +kernel, fun h => ?_⟩
  obtain ⟨p, hp, hrail, hasset⟩ := hrow
  exact hrail ((h p hp).asset.mpr hasset)

end Concrete

end ServeProof
