import ServeProof.Buckets
import ServeProof.InStep
import ServeProof.Interleave.Tickets

/-!
# ServeProof.Gaps

The planned rails that `autoAssignRails` fills, when other calls plan rails and
finalize payouts in between.

It reads which shares have no rail, and writes them by their ids later on, without another
look.  So a share that it has read as a gap is written even if a manager has planned a
rail for it in between, or it has been paid; a held share is not read as a gap.
-/

namespace ServeProof

open Interleave
open Interleave.System
open Prog (only_get_bind only_orThrow_bind only_require_bind only_putGet_bind)

/-! ## The calls -/

inductive RailCommand where
  /-- What `autoAssignRails` writes. -/
  | auto (c : RailWrite)
  /-- What `setPlannedRail` writes. -/
  | chosen (c : RailWrite)
  | settle (c : Write)

inductive RailCall where
  | autoAssignRails (batchId : BatchId)
  | setPlannedRail (allocationId : AllocationId) (rail : WorkerPayoutRail)
  | registerLegacyEvidence (allocationId : AllocationId) (rail : LegacyRail)
      (externalReference : String) (submittedByUserId : Option UserId) (now : Time)
  | finalizeFromChain (payoutId : AllocationId) (slot : Option Nat)

abbrev RailProg := Prog World RailCommand ApiError Unit

def RailCommand.apply : RailCommand → World → World
  | auto c | chosen c => c.apply
  | settle c => c.apply

def RailCall.prog : RailCall → RailProg
  | autoAssignRails batchId =>
      (do let _ ← ServeProof.autoAssignRails batchId : RailService Unit).lift id .auto
  | setPlannedRail p rail => (ServeProof.setPlannedRail p rail).lift id .chosen
  | registerLegacyEvidence p rail reference submittedBy now =>
      (discardResult (ServeProof.registerLegacyEvidence p rail reference submittedBy now)).lift id
        .settle
  | finalizeFromChain p slot => (ServeProof.finalizeFromChain p slot).lift id .settle

def rails : System World RailCommand ApiError RailCall EnvMove where
  apply := RailCommand.apply
  prog := RailCall.prog
  env := EnvMove.apply

abbrev RailConfig := Config World RailCommand ApiError

abbrev RailMove := Move RailCall EnvMove

/-! ## Gaps -/

def RailWrite.ids (c : RailWrite) : List AllocationId := c.assignments.map Prod.fst

/-- A rail is planned for the share on purpose. -/
def RailCommand.Chooses (w : World) (p : AllocationId) : RailCommand → Prop
  | chosen c => c.Applies w ∧ p ∈ c.ids
  | _ => False

/-- The share is paid. -/
def RailCommand.Pays (w : World) (p : AllocationId) : RailCommand → Prop
  | settle (.payout c) => c.Applies w.db ∧ c.target = p ∧ c.payment.map Prod.snd = some .paid
  | _ => False

instance RailCommand.decidableChooses (w : World) (p : AllocationId) :
    (c : RailCommand) → Decidable (c.Chooses w p)
  | .chosen c => inferInstanceAs (Decidable (c.Applies w ∧ p ∈ c.ids))
  | .auto _ | .settle _ => isFalse id

instance RailCommand.decidablePays (w : World) (p : AllocationId) :
    (c : RailCommand) → Decidable (c.Pays w p)
  | .settle (.payout c) => inferInstanceAs (Decidable (c.Applies w.db ∧ c.target = p ∧ _ = _))
  | .auto _ | .chosen _ | .settle (.batch _) | .settle (.record _) | .settle (.broadcast ..) =>
      isFalse id

/-- What the next step of a call commits, if it commits. -/
def commitOf (c : RailConfig) (n : Nat) : Option RailCommand :=
  match c.threads[n]? with
  | some (.commit k _) => some k
  | _ => none

/-- The shares that a call has read as gaps, and is about to write. -/
def gapsOf (c : RailConfig) (n : Nat) : List AllocationId :=
  match commitOf c n with
  | some (.auto k) => k.ids
  | _ => []

/-! ## What the commands do -/

/-- The commands of the calls. -/
def RailCommand.Issued : RailCommand → Prop
  | settle c => c.Finalizes
  | _ => True

/-- The commands of the calls but `autoAssignRails`. -/
def RailCommand.Meant : RailCommand → Prop
  | auto _ => False
  | chosen _ => True
  | settle c => c.Finalizes

theorem RailCommand.Meant.issued {c : RailCommand} (h : c.Meant) : c.Issued := by
  cases c with
  | auto => trivial
  | chosen => trivial
  | settle => exact h

section Commands

variable {w : World} {d : Db} {p : AllocationId} {a : WorkerAllocation}

theorem find_planOne {x : AllocationId × WorkerPayoutRail} :
    (RailWrite.planOne d x).allocations.find p =
      if x.1 = p then (d.allocations.find x.1).map (WorkerAllocation.plan x.2)
      else d.allocations.find p := by
  rw [RailWrite.planOne, Db.updateAllocation_allocations]
  exact d.allocations.find_update (f := WorkerAllocation.plan x.2) (fun _ => rfl) p

/-- Only the shares that are assigned a rail change. -/
theorem RailWrite.find_of_not_mem {c : RailWrite} (hp : p ∉ c.ids) :
    (c.apply w).db.allocations.find p = w.db.allocations.find p := by
  have hfold (l : List (AllocationId × WorkerPayoutRail)) (hl : p ∉ l.map Prod.fst) (d : Db) :
      (l.foldl planOne d).allocations.find p = d.allocations.find p := by
    induction l generalizing d with
    | nil => rfl
    | cons x l ih =>
        rw [List.map_cons, List.mem_cons, not_or] at hl
        rw [List.foldl_cons, ih hl.2, find_planOne, if_neg (Ne.symm hl.1)]
  unfold RailWrite.apply
  split
  · exact hfold c.assignments hp w.db
  · rfl

theorem find_foldl_planOne {l : List (AllocationId × WorkerPayoutRail)}
    (ha : d.allocations.find p = some a) :
    ∃ a', (l.foldl RailWrite.planOne d).allocations.find p = some a' ∧ a'.workerId = a.workerId ∧
      a'.payoutStatus = a.payoutStatus ∧
      (a.plannedPayoutRail ≠ none ∨ p ∈ l.map Prod.fst → a'.plannedPayoutRail ≠ none) := by
  induction l generalizing d a with
  | nil => exact ⟨a, ha, rfl, rfl, fun h => h.resolve_right List.not_mem_nil⟩
  | cons x l ih =>
      by_cases hx : x.1 = p
      · have hplan : (RailWrite.planOne d x).allocations.find p = some (a.plan x.2) := by
          rw [find_planOne, if_pos hx, hx, ha, Option.map_some]
        obtain ⟨a', ha', hworker, hstatus, hplanned⟩ := ih hplan
        exact ⟨a', ha', hworker, hstatus, fun _ => hplanned (.inl (Option.some_ne_none _))⟩
      · have hsame : (RailWrite.planOne d x).allocations.find p = some a := by
          rw [find_planOne, if_neg hx, ha]
        obtain ⟨a', ha', hworker, hstatus, hplanned⟩ := ih hsame
        refine ⟨a', ha', hworker, hstatus, fun h => hplanned (h.imp_right fun hmem => ?_)⟩
        exact (List.mem_cons.mp hmem).resolve_left (Ne.symm hx)

theorem RailWrite.find_apply {c : RailWrite} (ha : w.db.allocations.find p = some a) :
    ∃ a', (c.apply w).db.allocations.find p = some a' ∧ a'.workerId = a.workerId ∧
      a'.payoutStatus = a.payoutStatus ∧
      (a.plannedPayoutRail ≠ none ∨ c.Applies w ∧ p ∈ c.ids → a'.plannedPayoutRail ≠ none) := by
  unfold RailWrite.apply
  split
  · obtain ⟨a', ha', hworker, hstatus, hplanned⟩ := find_foldl_planOne (l := c.assignments) ha
    exact ⟨a', ha', hworker, hstatus, fun h => hplanned (h.imp_right And.right)⟩
  · next happlies => exact ⟨a, ha, rfl, rfl, fun h => h.resolve_right fun h => happlies h.1⟩

/-- A finalization pays its share, and plans nothing. -/
theorem find_finalizes {c : Write} (hc : c.Finalizes) (ha : w.db.allocations.find p = some a) :
    ∃ a', (c.apply w).db.allocations.find p = some a' ∧ a'.workerId = a.workerId ∧
      a'.plannedPayoutRail = a.plannedPayoutRail ∧
      (a'.payoutStatus = .paid ↔ a.payoutStatus = .paid ∨ (RailCommand.settle c).Pays w p) := by
  cases c with
  | record c => exact hc.elim
  | broadcast => exact hc.elim
  | batch c =>
      cases c with
      | rollup id status =>
          refine ⟨a, ?_, rfl, rfl, by simp [RailCommand.Pays]⟩
          exact (congrArg (Table.find · p) (BatchWrite.allocations_rollup id status w.db)).trans ha
      | saveCalculation | approve | reject | attach => exact hc.elim
  | payout c =>
      by_cases happlies : c.Applies w.db
      · have hfind := PayoutWrite.find_allocations_apply happlies p
        by_cases hp : c.target = p
        · rw [if_pos hp, hp, ha, Option.map_some] at hfind
          refine ⟨c.pay a, hfind, c.pay_workerId a, ?_, ?_⟩
          · unfold PayoutWrite.pay
            split <;> rfl
          · cases c with
            | registerLegacy l => simp [RailCommand.Pays, PayoutWrite.pay, PayoutWrite.payment,
                happlies, hp]
            | finalize => simp [RailCommand.Pays, PayoutWrite.pay, PayoutWrite.payment,
                happlies, hp]
            | _ => exact hc.elim
        · rw [if_neg hp] at hfind
          exact ⟨a, hfind.trans ha, rfl, rfl, by simp [RailCommand.Pays, hp]⟩
      · refine ⟨a, ?_, rfl, rfl, by simp [RailCommand.Pays, happlies]⟩
        exact (congrArg (fun d : Db => d.allocations.find p)
          (PayoutWrite.apply_of_not_applies happlies)).trans ha

/-- What a command does to a share. -/
theorem RailCommand.find_apply {c : RailCommand} (hc : c.Issued)
    (ha : w.db.allocations.find p = some a) :
    ∃ a', (c.apply w).db.allocations.find p = some a' ∧ a'.workerId = a.workerId ∧
      (a.plannedPayoutRail ≠ none ∨ c.Chooses w p → a'.plannedPayoutRail ≠ none) ∧
      (a'.payoutStatus = .paid ↔ a.payoutStatus = .paid ∨ c.Pays w p) := by
  cases c with
  | auto c =>
      obtain ⟨a', ha', hworker, hstatus, hplanned⟩ := RailWrite.find_apply (c := c) ha
      refine ⟨a', ha', hworker, fun h => hplanned (.inl (h.resolve_right id)), ?_⟩
      rw [hstatus]
      simp [Pays]
  | chosen c =>
      obtain ⟨a', ha', hworker, hstatus, hplanned⟩ := RailWrite.find_apply (c := c) ha
      refine ⟨a', ha', hworker, hplanned, ?_⟩
      rw [hstatus]
      simp [Pays]
  | settle c =>
      obtain ⟨a', ha', hworker, hplanned, hpaid⟩ := find_finalizes hc ha
      refine ⟨a', ha', hworker, fun h => ?_, hpaid⟩
      rw [hplanned]
      exact h.resolve_right id

end Commands

/-! ## The calls, step by step -/

theorem RailCall.only_prog (i : RailCall) : (∃ batchId, i = .autoAssignRails batchId) ∨
    i.prog.Only RailCommand.Meant := by
  cases i with
  | autoAssignRails batchId => exact .inl ⟨batchId, rfl⟩
  | setPlannedRail p rail =>
      refine .inr (Prog.Only.lift ?_)
      refine only_get_bind.mpr fun w => only_orThrow_bind.mpr fun a _ =>
        only_require_bind.mpr fun _ => only_planRails _ _ trivial
  | registerLegacyEvidence p rail reference submittedBy now =>
      refine .inr (Prog.Only.lift ?_)
      exact (finalizes_registerLegacyEvidence p rail reference submittedBy now).bind
        fun _ => trivial
  | finalizeFromChain p slot => exact .inr (Prog.Only.lift (finalizes_finalizeFromChain p slot))

/-- `autoAssignRails` reads the gaps, and then writes them, if there are any. -/
theorem autoAssignRails_reads (batchId : BatchId) :
    ∃ next, (RailCall.autoAssignRails batchId).prog = .read next ∧
      ∀ w, (next w).Only RailCommand.Meant ∨
        ∃ after, next w = .commit (.auto ⟨w.autoAssignments batchId⟩) after ∧
          ∀ t, (after t).Only RailCommand.Meant := by
  refine ⟨_, rfl, fun w => ?_⟩
  cases hbatch : w.db.batches.find batchId with
  | none =>
      simp only [hbatch, id]
      exact .inl trivial
  | some batch =>
      simp only [hbatch, id]
      generalize w.autoAssignments batchId = l
      cases l with
      | nil => exact .inl trivial
      | cons x l =>
          refine .inr ⟨_, rfl, fun t => ?_⟩
          dsimp only [Prog.bind, Prog.lift, id]
          by_cases hdone : RailWrite.Applies ⟨x :: l⟩ t
          · simp only [hdone]
            trivial
          · simp only [hdone]
            trivial

theorem mem_autoAssignments {w : World} {batchId : BatchId} {p : AllocationId}
    (hp : p ∈ RailWrite.ids ⟨w.autoAssignments batchId⟩) :
    ∃ a, w.db.allocations.find p = some a ∧ a.Connected ∧ a.plannedPayoutRail = none ∧
      a.payoutStatus ≠ .paid := by
  obtain ⟨x, hx, rfl⟩ := List.mem_map.mp hp
  obtain ⟨a, ha, rfl⟩ := List.mem_map.mp hx
  obtain ⟨ha, hgap⟩ := List.mem_filter.mp ha
  exact ⟨a, Table.find_key (BatchWrite.mem_rowsOf.mp ha).1, of_decide_eq_true hgap⟩

/-! ## A run -/

section Moves

variable {c : RailConfig} {m : RailMove} {n : Nat} {p : AllocationId}

/-- The move plans a rail for the share on purpose. -/
def ChosenBy (c : RailConfig) (k : Nat) (p : AllocationId) : Prop :=
  ∃ x ∈ commitOf c k, x.Chooses c.store p

/-- The move pays the share. -/
def PaidBy (c : RailConfig) (k : Nat) (p : AllocationId) : Prop :=
  ∃ x ∈ commitOf c k, x.Pays c.store p

instance (c : RailConfig) (k : Nat) (p : AllocationId) : Decidable (ChosenBy c k p) :=
  inferInstanceAs (Decidable (∃ _ ∈ _, _))

instance (c : RailConfig) (k : Nat) (p : AllocationId) : Decidable (PaidBy c k p) :=
  inferInstanceAs (Decidable (∃ _ ∈ _, _))

theorem commitOf_eq_some {k : RailCommand} :
    commitOf c n = some k ↔ ∃ next, c.threads[n]? = some (.commit k next) := by
  unfold commitOf
  cases hn : c.threads[n]? with
  | none => simp
  | some q => cases q <;> simp

theorem gapsOf_commit {k : RailWrite} {next : World → RailProg}
    (hn : c.threads[n]? = some (.commit (.auto k) next)) : gapsOf c n = k.ids := by
  rw [gapsOf, commitOf_eq_some.mpr ⟨next, hn⟩]

theorem exists_of_mem_gapsOf (h : p ∈ gapsOf c n) : ∃ k next,
    c.threads[n]? = some (.commit (.auto k) next) ∧ k.ids = gapsOf c n := by
  unfold gapsOf at h ⊢
  split at h
  · next k hk =>
    obtain ⟨next, hn⟩ := commitOf_eq_some.mp hk
    exact ⟨k, next, hn, rfl⟩
  · cases h

theorem gapsOf_eq_nil (h : ∀ k next, c.threads[n]? ≠ some (.commit (.auto k) next)) :
    gapsOf c n = [] := by
  unfold gapsOf
  cases hk : commitOf c n with
  | none => rfl
  | some k =>
      obtain ⟨next, hn⟩ := commitOf_eq_some.mp hk
      cases k with
      | auto k => exact absurd hn (h k next)
      | chosen => rfl
      | settle => rfl

/-- What a move does to a share. -/
theorem find_move (hc : ∀ k ∈ m.stepOf, ∀ x ∈ commitOf c k, x.Issued) {a : WorkerAllocation}
    (ha : c.store.db.allocations.find p = some a) :
    ∃ a', (rails.move m c).store.db.allocations.find p = some a' ∧ a'.workerId = a.workerId ∧
      (a.plannedPayoutRail ≠ none ∨ (∃ k ∈ m.stepOf, ChosenBy c k p) →
        a'.plannedPayoutRail ≠ none) ∧
      (a'.payoutStatus = .paid ↔ a.payoutStatus = .paid ∨ ∃ k ∈ m.stepOf, PaidBy c k p) := by
  cases m with
  | call i => exact ⟨a, ha, rfl, by simp [Move.stepOf], by simp [Move.stepOf]⟩
  | env e =>
      refine ⟨a, ?_, rfl, by simp [Move.stepOf], by simp [Move.stepOf]⟩
      exact (congrArg (Table.find · p) (e.allocations_apply c.store)).trans ha
  | step k =>
      simp only [Move.stepOf, Option.mem_def, Option.some.injEq, exists_eq_left',
        forall_eq'] at hc ⊢
      cases hk : commitOf c k with
      | some x =>
          obtain ⟨next, hn⟩ := commitOf_eq_some.mp hk
          rw [rails.move_commit hn, ChosenBy, PaidBy, hk]
          simp only [Option.mem_def, Option.some.injEq, exists_eq_left']
          exact x.find_apply (hc x hk) ha
      | none =>
          have hsame : (rails.move (.step k) c).store = c.store := by
            obtain hsame | ⟨e, he, -⟩ | ⟨n, x, next, hstep, hn, -⟩ := rails.store_move (.step k) c
            · exact hsame
            · cases he
            · cases hstep
              cases hk.symm.trans (commitOf_eq_some.mpr ⟨next, hn⟩)
          rw [hsame, ChosenBy, PaidBy, hk]
          exact ⟨a, ha, rfl, by simp, by simp⟩

end Moves

variable (s : World)

/-- The rail of the share has been planned on purpose, in the run or before. -/
def Explicit (ms : List RailMove) (p : AllocationId) : Prop :=
  (∃ a ∈ s.db.allocations.find p, a.plannedPayoutRail ≠ none) ∨
    SomeStep (fun before k => ChosenBy (rails.exec before (.start s)) k p) ms

/-- Since the call has read which shares are gaps, no rail has been planned for one of
them, and none of them has been paid. -/
def LeftAlone (ms : List RailMove) (n : Nat) : Prop :=
  AtSteps (fun before k => ∀ p ∈ gapsOf (rails.exec before (.start s)) n,
    ¬ ChosenBy (rails.exec before (.start s)) k p ∧
    ¬ PaidBy (rails.exec before (.start s)) k p) ms

/-- The shares that are written have a worker, are not paid, and no rail has been planned
for them on purpose. -/
def FillsGaps (ms : List RailMove) (ids : List AllocationId) : Prop :=
  ∀ p ∈ ids, ∀ a ∈ (rails.exec ms (.start s)).store.db.allocations.find p,
    a.Connected ∧ a.payoutStatus ≠ .paid ∧ ¬ Explicit s ms p

instance (ms : List RailMove) (p : AllocationId) : Decidable (Explicit s ms p) :=
  inferInstanceAs (Decidable ((∃ _ ∈ _, _) ∨ SomeStep _ ms))

instance (ms : List RailMove) (n : Nat) : Decidable (LeftAlone s ms n) :=
  inferInstanceAs (Decidable (AtSteps _ ms))

/-- A call, as far as `autoAssignRails` goes. -/
inductive Phase (ms : List RailMove) (n : Nat) : RailProg → Prop
  | reading (batchId : BatchId) (h : LeftAlone s ms n) :
      Phase ms n (RailCall.autoAssignRails batchId).prog
  | writing (k : RailWrite) (next : World → RailProg) (hnext : ∀ w, (next w).Only RailCommand.Meant)
      (hrow : ∀ p ∈ k.ids, ∃ a, (rails.exec ms (.start s)).store.db.allocations.find p = some a ∧
        a.Connected)
      (hgaps : FillsGaps s ms k.ids ↔ LeftAlone s ms n) : Phase ms n (.commit (.auto k) next)
  | other (q : RailProg) (h : q.Only RailCommand.Meant) : Phase ms n q

/-- The calls after the moves `ms`. -/
structure Traced (ms : List RailMove) : Prop where
  planned : ∀ p, Explicit s ms p →
    ∃ a, (rails.exec ms (.start s)).store.db.allocations.find p = some a ∧
      a.plannedPayoutRail ≠ none
  fresh : ∀ n, (rails.exec ms (.start s)).threads.length ≤ n → LeftAlone s ms n
  phase : ∀ n q, (rails.exec ms (.start s)).threads[n]? = some q → Phase s ms n q

variable {s} {ms : List RailMove} {m : RailMove} {n : Nat} {p : AllocationId}

theorem explicit_concat : Explicit s (ms ++ [m]) p ↔
    Explicit s ms p ∨ ∃ k ∈ m.stepOf, ChosenBy (rails.exec ms (.start s)) k p := by
  rw [Explicit, someStep_concat, ← or_assoc, Explicit]

theorem leftAlone_concat : LeftAlone s (ms ++ [m]) n ↔ LeftAlone s ms n ∧
    ∀ p ∈ gapsOf (rails.exec ms (.start s)) n,
      (¬ ∃ k ∈ m.stepOf, ChosenBy (rails.exec ms (.start s)) k p) ∧
      ¬ ∃ k ∈ m.stepOf, PaidBy (rails.exec ms (.start s)) k p := by
  rw [LeftAlone, atSteps_concat]
  refine and_congr_right fun _ => ?_
  simp only [not_exists, not_and]
  constructor
  · exact fun h p hp => ⟨fun k hk => (h k hk p hp).1, fun k hk => (h k hk p hp).2⟩
  · exact fun h k hk p hp => ⟨(h p hp).1 k hk, (h p hp).2 k hk⟩

theorem exec_concat : rails.exec (ms ++ [m]) (.start s) =
    rails.move m (rails.exec ms (.start s)) := by
  rw [exec_append, exec_cons, exec_nil]

theorem Phase.issued {q : RailProg} (h : Phase s ms n q) {x : RailCommand}
    {next : World → RailProg} (hq : q = .commit x next) : x.Issued := by
  cases h with
  | reading batchId h =>
      obtain ⟨next', hread, -⟩ := autoAssignRails_reads batchId
      cases hread.symm.trans hq
  | writing => cases hq; trivial
  | other _ h =>
      rw [hq] at h
      exact h.1.issued

theorem Traced.issued (h : Traced s ms) {k : Nat} {x : RailCommand}
    (hx : x ∈ commitOf (rails.exec ms (.start s)) k) : x.Issued := by
  obtain ⟨next, hn⟩ := commitOf_eq_some.mp hx
  exact (h.phase k _ hn).issued rfl

/-- A call that does not move stays where it is. -/
theorem Phase.wait (hs : Traced s ms) {q : RailProg} (h : Phase s ms n q)
    (hn : (rails.exec ms (.start s)).threads[n]? = some q) : Phase s (ms ++ [m]) n q := by
  have hmove {p : AllocationId} {a : WorkerAllocation}
      (ha : (rails.exec ms (.start s)).store.db.allocations.find p = some a) :=
    find_move (m := m) (fun k _ x hx => hs.issued hx) ha
  cases h with
  | reading batchId h =>
      refine .reading batchId (leftAlone_concat.mpr ⟨h, ?_⟩)
      obtain ⟨next, hread, -⟩ := autoAssignRails_reads batchId
      rw [gapsOf_eq_nil fun k next' hcommit => ?_]
      · simp
      · cases (hn.symm.trans hcommit).symm.trans (congrArg some hread)
  | writing k next hnext hrow hgaps =>
      refine .writing k next hnext (fun p hp => ?_) ?_
      · obtain ⟨a, ha, hconn⟩ := hrow p hp
        obtain ⟨a', ha', hworker, -⟩ := hmove ha
        rw [exec_concat]
        refine ⟨a', ha', ?_⟩
        rwa [WorkerAllocation.Connected, hworker]
      · rw [leftAlone_concat, ← hgaps, gapsOf_commit hn, FillsGaps, FillsGaps, exec_concat,
          ← forall₂_and]
        refine forall₂_congr fun p hp => ?_
        obtain ⟨a, ha, hconn⟩ := hrow p hp
        obtain ⟨a', ha', hworker, -, hpaid⟩ := hmove ha
        have hconn' : a'.Connected := by rwa [WorkerAllocation.Connected, hworker]
        simp only [Option.mem_def, ha, ha', Option.some.injEq, forall_eq', hconn, hconn',
          explicit_concat, true_and, hpaid, ne_eq, not_or]
        constructor
        · exact fun ⟨⟨hunpaid, hnopay⟩, hfree, hnochoice⟩ => ⟨⟨hunpaid, hfree⟩, hnochoice, hnopay⟩
        · exact fun ⟨⟨hunpaid, hfree⟩, hnochoice, hnopay⟩ => ⟨⟨hunpaid, hnopay⟩, hfree, hnochoice⟩
  | other q h => exact .other q h

/-- The call that moves. -/
theorem Phase.advance (hs : Traced s ms) {q : RailProg} (h : Phase s ms n q)
    (hn : (rails.exec ms (.start s)).threads[n]? = some q) :
    Phase s (ms ++ [.step n]) n (rails.advance q (rails.exec ms (.start s)).store).1 := by
  cases h with
  | other q h =>
      refine .other _ ?_
      cases q with
      | pure a => exact h
      | throw e => exact h
      | read next => exact h _
      | commit k next => exact h.2 _
  | writing k next hnext hrow hgaps => exact .other _ (hnext _)
  | reading batchId h =>
      obtain ⟨next, hread, hnext⟩ := autoAssignRails_reads batchId
      rw [hread] at hn ⊢
      have hcommit : commitOf (rails.exec ms (.start s)) n = none := by rw [commitOf, hn]
      have hnochoice (p : AllocationId) : ¬ ∃ k ∈ (Move.step n : RailMove).stepOf,
          ChosenBy (rails.exec ms (.start s)) k p := by
        simp [Move.stepOf, ChosenBy, hcommit]
      have hstore : (rails.exec (ms ++ [.step n]) (.start s)).store =
          (rails.exec ms (.start s)).store := by
        rw [exec_concat]
        simp only [System.move, hn]
        rfl
      obtain hother | ⟨after, hwrite, hafter⟩ := hnext (rails.exec ms (.start s)).store
      · exact .other _ hother
      · rw [show (rails.advance (.read next) (rails.exec ms (.start s)).store).1 =
          .commit _ after from hwrite]
        refine .writing _ after hafter (fun p hp => ?_) (iff_of_true (fun p hp a ha => ?_) ?_)
        · obtain ⟨a, ha, hconn, -⟩ := mem_autoAssignments hp
          exact ⟨a, hstore ▸ ha, hconn⟩
        · obtain ⟨a', ha', hconn, hunplanned, hunpaid⟩ := mem_autoAssignments hp
          rw [hstore, Option.mem_def, ha', Option.some.injEq] at ha
          subst ha
          refine ⟨hconn, hunpaid, fun hexplicit => ?_⟩
          have hbefore := (explicit_concat.mp hexplicit).resolve_right (hnochoice p)
          obtain ⟨a'', ha'', hplanned⟩ := hs.planned p hbefore
          cases ha'.symm.trans ha''
          exact hplanned hunplanned
        · refine leftAlone_concat.mpr ⟨h, ?_⟩
          rw [gapsOf, hcommit]
          simp

theorem Traced.start : Traced s [] where
  planned p hp := by
    obtain ⟨a, ha, hplanned⟩ | ⟨i, hi, -⟩ := hp
    · exact ⟨a, ha, hplanned⟩
    · exact absurd hi (Nat.not_lt_zero i)
  fresh n _ i hi := absurd hi (Nat.not_lt_zero i)
  phase n q hn := by cases hn

/-- A call that is not there yet fills no gaps. -/
theorem Traced.leftAlone (h : Traced s ms)
    (hn : (rails.exec ms (.start s)).threads.length ≤ n) : LeftAlone s (ms ++ [m]) n := by
  refine leftAlone_concat.mpr ⟨h.fresh n hn, ?_⟩
  rw [gapsOf_eq_nil fun k next hcommit => ?_]
  · simp
  · rw [List.getElem?_eq_none hn] at hcommit
    cases hcommit

theorem Traced.planned_move (h : Traced s ms) (hp : Explicit s (ms ++ [m]) p) :
    ∃ a, (rails.exec (ms ++ [m]) (.start s)).store.db.allocations.find p = some a ∧
      a.plannedPayoutRail ≠ none := by
  rw [exec_concat]
  have hissued (k : Nat) (_ : k ∈ m.stepOf) (x : RailCommand)
      (hx : x ∈ commitOf (rails.exec ms (.start s)) k) : x.Issued := h.issued hx
  obtain hbefore | hchosen := explicit_concat.mp hp
  · obtain ⟨a, ha, hplanned⟩ := h.planned p hbefore
    obtain ⟨a', ha', -, hplanned', -⟩ := find_move hissued ha
    exact ⟨a', ha', hplanned' (.inl hplanned)⟩
  · -- the share that a rail is planned for is there
    obtain ⟨k, hk, x, hx, hchoice⟩ := id hchosen
    cases x with
    | auto => exact hchoice.elim
    | settle => exact hchoice.elim
    | chosen c =>
        obtain ⟨y, hy, rfl⟩ := List.mem_map.mp hchoice.2
        obtain ⟨a, ha⟩ := Option.isSome_iff_exists.mp (hchoice.1 y hy)
        obtain ⟨a', ha', -, hplanned', -⟩ := find_move hissued ha
        exact ⟨a', ha', hplanned' (.inr hchosen)⟩

theorem Traced.phase_move (h : Traced s ms) {q : RailProg}
    (hq : (rails.exec (ms ++ [m]) (.start s)).threads[n]? = some q) :
    Phase s (ms ++ [m]) n q := by
  rw [exec_concat] at hq
  obtain ⟨-, hold⟩ | ⟨i, rfl, hlen, rfl⟩ | ⟨p, rfl, hold, rfl⟩ := rails.thread_move hq
  · exact (h.phase n q hold).wait h hold
  · obtain ⟨batchId, rfl⟩ | honly := i.only_prog
    · exact .reading batchId (h.leftAlone hlen.ge)
    · exact .other _ honly
  · exact (h.phase n p hold).advance h hold

theorem Traced.move (h : Traced s ms) : Traced s (ms ++ [m]) := by
  have hlength : (rails.exec ms (.start s)).threads.length ≤
      (rails.exec (ms ++ [m]) (.start s)).threads.length := by
    rw [exec_concat]
    cases m with
    | call i => simp [System.move]
    | env e => exact le_refl _
    | step k =>
        simp only [System.move]
        split
        · simp
        · exact le_refl _
  exact ⟨fun p hp => h.planned_move hp, fun n hn => h.leftAlone (hlength.trans hn),
    fun n q hq => h.phase_move hq⟩

theorem traced (s : World) (ms : List RailMove) : Traced s ms := by
  induction ms using List.reverseRecOn with
  | nil => exact .start
  | append_singleton ms m ih => exact ih.move

/-- **`autoAssignRails` fills only gaps**, exactly when nothing has disturbed it since it
has read them: then and only then each share that it writes has a worker, is not
paid, and has no rail that has been planned on purpose.  Other shares it leaves alone. -/
theorem auto_assign_fills_gaps_iff (s : World) (ms : List RailMove) (n : Nat) (k : RailWrite)
    (next : World → RailProg)
    (hn : (rails.exec ms (.start s)).threads[n]? = some (.commit (.auto k) next)) :
    (∀ p, p ∉ k.ids → (rails.exec (ms ++ [.step n]) (.start s)).store.db.allocations.find p =
      (rails.exec ms (.start s)).store.db.allocations.find p) ∧
      (FillsGaps s ms k.ids ↔ LeftAlone s ms n) := by
  constructor
  · intro p hp
    rw [exec_concat, rails.move_commit hn]
    exact RailWrite.find_of_not_mem hp
  · have hphase := (traced s ms).phase n _ hn
    generalize hq : (Prog.commit (.auto k) next : RailProg) = q at hphase
    cases hphase with
    | reading batchId h =>
        obtain ⟨next', hread, -⟩ := autoAssignRails_reads batchId
        cases hread.symm.trans hq.symm
    | writing k' next' hnext hrow hgaps =>
        cases hq
        exact hgaps
    | other q h =>
        rw [← hq] at h
        exact h.1.elim

section Concrete

open Scenario

namespace Scenario

/-- The rails of a batch are assigned while a manager plans the rail of a share. -/
def assignedWhile (allocationId : AllocationId) : List RailMove :=
  [.call (.autoAssignRails ⟨venue, date, 1⟩), .step 0,
    .call (.setPlannedRail allocationId .payroll), .step 1, .step 1]

end Scenario

/-- The rail of a held share is planned in between, which is no gap. -/
theorem auto_assign_fills_gaps_own : FillsGaps heldAndOwn (assignedWhile 1) [2] := by
  have hgaps : gapsOf (rails.exec (assignedWhile 1) (.start heldAndOwn)) 0 = [2] := by
    decide +kernel
  obtain ⟨k, next, hn, hids⟩ := exists_of_mem_gapsOf (hgaps ▸ List.mem_singleton_self 2)
  have hiff := (auto_assign_fills_gaps_iff heldAndOwn (assignedWhile 1) 0 k next hn).2
  rw [hids, hgaps] at hiff
  exact hiff.mpr (by decide +kernel)

/-- The rail that a manager has planned for the share is overwritten. -/
theorem chosen_rail_overwritten :
    let c := rails.exec (assignedWhile 2) (.start heldAndOwn)
    (∃ k next, c.threads[0]? = some (.commit (.auto k) next) ∧ 2 ∈ k.ids) ∧
      Explicit heldAndOwn (assignedWhile 2) 2 ∧
      (c.store.db.allocations.find 2).map WorkerAllocation.plannedPayoutRail =
        some (some .payroll) ∧
      ((rails.move (.step 0) c).store.db.allocations.find 2).map
        WorkerAllocation.plannedPayoutRail = some (some .usdc) := by
  intro c
  have hgap : 2 ∈ gapsOf c 0 := by decide +kernel
  obtain ⟨k, next, hn, hids⟩ := exists_of_mem_gapsOf hgap
  exact ⟨⟨k, next, hn, hids ▸ hgap⟩, by decide +kernel, by decide +kernel, by decide +kernel⟩

end Concrete

end ServeProof
