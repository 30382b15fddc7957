import Mathlib.Data.List.Chain
import ServeProof.Income.Lineage
import ServeProof.Income.Rebuild
import ServeProof.Conservation

/-!
# ServeProof.Corrections

The entries of a (worker, shift) pair, in the order in which they were written,
are one chain: a root, and corrections, each of the entry before it.  Only the
last entry is active.

A write that comes in time keeps the chains (`Linear.apply`) and leaves what is
superseded as it is (`superseded_stays`), so rebuilds and corrections do, one at
a time and in any order.
-/

namespace ServeProof

open Interleave

/-! ## Chains -/

/-- A root that corrects nothing, and corrections, each of the entry before it, all
of them going back to the root.  Only the last entry is active. -/
structure CorrectionChain (root : IncomeEntry) (corrections : List IncomeEntry) : Prop where
  base : root.Base
  first : root.originalEntryId = none
  linked : List.IsChain (fun e e' => e'.correctionOfId = some e.id) (root :: corrections)
  original : ∀ e ∈ corrections, e.originalEntryId = some root.id
  superseded : ∀ e ∈ (root :: corrections).dropLast, e.effectiveStatus = .superseded
  active : ((root :: corrections).getLast (List.cons_ne_nil _ _)).effectiveStatus = .active

namespace CorrectionChain

variable {root e : IncomeEntry} {corrections : List IncomeEntry}

/-- An entry that has not been corrected yet. -/
theorem single (hbase : root.Base) (hfirst : root.originalEntryId = none)
    (hactive : root.effectiveStatus = .active) : CorrectionChain root [] where
  base := hbase
  first := hfirst
  linked := List.isChain_singleton root
  original _ h := absurd h List.not_mem_nil
  superseded _ h := absurd h List.not_mem_nil
  active := hactive

theorem root_superseded (h : CorrectionChain root corrections) (hne : corrections ≠ []) :
    root.effectiveStatus = .superseded := by
  refine h.superseded root ?_
  rw [List.dropLast_cons_of_ne_nil hne]
  exact List.mem_cons_self

/-- The active entry is the last. -/
theorem eq_concat (h : CorrectionChain root corrections) (he : e ∈ root :: corrections)
    (hactive : e.effectiveStatus = .active) :
    root :: corrections = (root :: corrections).dropLast ++ [e] := by
  have hlast := List.dropLast_concat_getLast (List.cons_ne_nil root corrections)
  rw [← hlast, List.mem_append, List.mem_singleton] at he
  cases he with
  | inl he => exact absurd ((h.superseded e he).symm.trans hactive) (by decide)
  | inr he =>
      subst he
      exact hlast.symm

/-- The chain goes on: its last entry is superseded by a correction. -/
theorem snoc {init : List IncomeEntry} (h : CorrectionChain root corrections)
    (heq : root :: corrections = init ++ [e]) (input : Correction) (id : EntryId) :
    ∃ root' corrections', init ++ [e.supersede, e.corrected input id] = root' :: corrections' ∧
      CorrectionChain root' corrections' := by
  cases init with
  | nil =>
      obtain ⟨rfl, rfl⟩ := List.cons.inj heq
      refine ⟨_, _, rfl, h.base, h.first, List.isChain_pair.mpr rfl, ?_, ?_, rfl⟩
      · intro e he
        cases List.mem_singleton.mp he
        change root.originalEntryId.or (some root.id) = _
        rw [h.first]
        rfl
      · intro e he
        cases List.mem_singleton.mp he
        rfl
  | cons first init =>
      rw [List.cons_append, List.cons.injEq] at heq
      obtain ⟨rfl, rfl⟩ := heq
      have horiginal := h.original e (List.mem_append_right _ List.mem_cons_self)
      refine ⟨root, init ++ [e.supersede, e.corrected input id], rfl, h.base, h.first, ?_, ?_, ?_,
        ?_⟩
      · have hlinked := h.linked
        rw [← List.cons_append, List.isChain_append] at hlinked ⊢
        refine ⟨hlinked.1, List.isChain_pair.mpr rfl, fun x hx y hy => ?_⟩
        cases hy
        exact hlinked.2.2 x hx e rfl
      · intro x hx
        rw [List.mem_append, List.mem_cons, List.mem_singleton] at hx
        obtain hx | rfl | rfl := hx
        · exact h.original x (List.mem_append_left _ hx)
        · exact horiginal
        · change e.originalEntryId.or (some e.id) = _
          rw [horiginal]
          rfl
      · intro x hx
        have hprev := h.superseded
        rw [← List.cons_append, List.dropLast_concat] at hprev
        rw [← List.cons_append, List.append_cons, List.dropLast_concat, List.mem_append,
          List.mem_singleton] at hx
        cases hx with
        | inl hx => exact hprev x hx
        | inr hx => exact hx ▸ rfl
      · simp [IncomeEntry.corrected]

end CorrectionChain

/-! ## Lineages of a ledger -/

/-- The pair whose entries a write changes or adds to. -/
def BooksWrite.concerns : BooksWrite → Option (WorkerId × Option ShiftId)
  | updateEntry _ data => some data.pair
  | createEntry data => some data.pair
  | correct original _ _ => some original.pair
  | _ => none

/-- What is corrected is the entry as it stands. -/
def Books.Current (b : Books) : BooksWrite → Prop
  | .correct original _ _ => b.entries.find original.id = some original
  | _ => True

namespace Books

/-- The entries of a pair, in the order in which they were written. -/
def lineageOf (b : Books) (pair : WorkerId × Option ShiftId) : List IncomeEntry :=
  b.entries.rows.filter fun e => decide (e.pair = pair)

/-- Some entry of the pair is a correction. -/
def HasCorrection (b : Books) (pair : WorkerId × Option ShiftId) : Prop :=
  ∃ e ∈ b.lineageOf pair, ¬ e.Base

/-- The entries of each pair are one chain. -/
def Linear (b : Books) : Prop :=
  ∀ pair, b.lineageOf pair ≠ [] →
    ∃ root corrections, b.lineageOf pair = root :: corrections ∧ CorrectionChain root corrections

variable {b : Books} {c : BooksWrite} {pair : WorkerId × Option ShiftId} {e : IncomeEntry}

theorem mem_lineageOf : e ∈ b.lineageOf pair ↔ e ∈ b.entries.rows ∧ e.pair = pair := by
  rw [lineageOf, List.mem_filter, decide_eq_true_eq]

theorem linear_empty : Books.empty.Linear := fun _ h => absurd rfl h

theorem Linear.superseded (hb : b.Linear) (h : b.HasCorrection pair) : b.Superseded pair := by
  obtain ⟨e, he, hcorr⟩ := h
  obtain ⟨root, corrections, hl, hchain⟩ := hb pair (List.ne_nil_of_mem he)
  have hne : corrections ≠ [] := by
    rintro rfl
    rw [hl, List.mem_singleton] at he
    exact hcorr (he ▸ hchain.base)
  obtain ⟨hroot, hpair⟩ := mem_lineageOf.mp (hl ▸ List.mem_cons_self)
  exact ⟨root, hroot, hpair, hchain.root_superseded hne⟩

/-- What a write makes of the entries of a pair. -/
theorem lineageOf_apply (h : b.Admits c) (pair : WorkerId × Option ShiftId) :
    (c.apply b).lineageOf pair = (b.lineageOf pair).map c.change ++
      (c.added b.nextEntryId).filter fun e => decide (e.pair = pair) := by
  rw [lineageOf, BooksWrite.rows_apply, List.filter_append, List.filter_map, lineageOf]
  congr 2
  refine List.filter_congr fun e he => ?_
  rw [Function.comp_apply, ((changes_change c e).became h he).pair]

/-- A write changes the entry it is about. -/
theorem change_eq_self (h : b.Admits c) (he : e ∈ b.entries.rows) (hne : c.concerns ≠ some e.pair) :
    c.change e = e := by
  cases c with
  | updateEntry id data =>
      exact if_neg fun hid => hne (congrArg some (h.pair_of_update he hid).1.symm)
  | correct original actorUserId input =>
      refine if_neg fun hid => hne (congrArg some ?_)
      obtain ⟨e', he', hpair⟩ := h
      have heq := b.entries.eq_of_key_eq (Table.mem_of_find he') he
        ((Table.key_of_find he').trans hid.symm)
      exact (heq ▸ hpair).symm
  | createEntry | savePayroll | deleteAlerts | createAlerts | log => rfl

/-- Other pairs keep their entries. -/
theorem lineageOf_other (h : b.Admits c) (hne : c.concerns ≠ some pair) :
    (c.apply b).lineageOf pair = b.lineageOf pair := by
  have hchange : (b.lineageOf pair).map c.change = b.lineageOf pair := by
    refine (List.map_congr_left fun e he => ?_).trans (List.map_id _)
    obtain ⟨hmem, hpair⟩ := mem_lineageOf.mp he
    exact change_eq_self h hmem (hpair ▸ hne)
  have hadded : (c.added b.nextEntryId).filter (fun e => decide (e.pair = pair)) = [] := by
    refine List.filter_eq_nil_iff.mpr fun e he => ?_
    rw [decide_eq_true_eq]
    rintro rfl
    cases c with
    | createEntry data => exact hne (List.mem_singleton.mp he ▸ rfl)
    | correct original actorUserId input => exact hne (List.mem_singleton.mp he ▸ rfl)
    | updateEntry | savePayroll | deleteAlerts | createAlerts | log =>
        exact absurd he List.not_mem_nil
  rw [lineageOf_apply h, hchange, hadded, List.append_nil]

/-- A superseded entry stays as it is. -/
theorem superseded_stays (h : b.Admits c) (ht : b.Timely c) (he : e ∈ b.entries.rows)
    (hs : e.effectiveStatus = .superseded) : e ∈ (c.apply b).entries.rows := by
  obtain ⟨e', he', hc⟩ := entry_apply c he
  cases hc with
  | stays _ => exact he'
  | projected data hc =>
      subst hc
      exact absurd ⟨e, he, (h.pair_of_update he rfl).1, hs⟩ ht
  | superseded original actorUserId input hc hid =>
      subst hc
      obtain ⟨e₀, he₀, hactive⟩ := ht
      have heq := b.entries.eq_of_key_eq (Table.mem_of_find he₀) he
        ((Table.key_of_find he₀).trans hid)
      exact absurd ((heq ▸ hactive).symm.trans hs) (by decide)

/-- A pair is projected while its entry has not been corrected. -/
theorem Linear.updateEntry (hb : b.Linear) {id : EntryId} {data : EntryData}
    (h : b.Admits (.updateEntry id data)) (ht : ¬ b.Superseded data.pair) :
    ∃ root corrections,
      ((BooksWrite.updateEntry id data).apply b).lineageOf data.pair = root :: corrections ∧
        CorrectionChain root corrections := by
  have hknown := h
  obtain ⟨e, hentry, hid⟩ := hknown
  obtain ⟨hmem, hpair, hbase⟩ := mem_of_baseEntry hentry
  have he := mem_lineageOf.mpr ⟨hmem, hpair⟩
  obtain ⟨root, corrections, hl, hchain⟩ := hb data.pair (List.ne_nil_of_mem he)
  obtain ⟨hroot, hrootPair⟩ := mem_lineageOf.mp (hl ▸ List.mem_cons_self)
  have hnil : corrections = [] := by
    by_contra hne
    exact ht ⟨root, hroot, hrootPair, hchain.root_superseded hne⟩
  subst hnil
  rw [hl, List.mem_singleton] at he
  subst he
  rw [lineageOf_apply h, hl]
  refine ⟨e.project data, [], ?_, .single hbase hchain.first rfl⟩
  rw [List.map_singleton, BooksWrite.change, if_pos hid]
  rfl

/-- A pair gets its root while it has no entry. -/
theorem Linear.createEntry (hb : b.Linear) {data : EntryData}
    (h : b.Admits (.createEntry data)) :
    ∃ root corrections,
      ((BooksWrite.createEntry data).apply b).lineageOf data.pair = root :: corrections ∧
        CorrectionChain root corrections := by
  have hnil : b.lineageOf data.pair = [] := by
    by_contra hne
    obtain ⟨root, corrections, hl, hchain⟩ := hb data.pair hne
    obtain ⟨hroot, hpair⟩ := mem_lineageOf.mp (hl ▸ List.mem_cons_self)
    exact not_base_of_baseEntry h hroot hpair hchain.base
  refine ⟨.base data b.nextEntryId, [], ?_, .single rfl rfl rfl⟩
  rw [lineageOf_apply h, hnil]
  exact List.filter_eq_self.mpr fun e he => decide_eq_true (List.mem_singleton.mp he ▸ rfl)

/-- The chain of a pair goes on where it ends. -/
theorem Linear.correct (hb : b.Linear) {original : IncomeEntry} {actorUserId : UserId}
    {input : Correction} (h : b.Admits (.correct original actorUserId input))
    (hcurrent : b.entries.find original.id = some original)
    (hactive : original.effectiveStatus = .active) :
    ∃ root corrections,
      ((BooksWrite.correct original actorUserId input).apply b).lineageOf original.pair =
          root :: corrections ∧ CorrectionChain root corrections := by
  have he : original ∈ b.lineageOf original.pair :=
    mem_lineageOf.mpr ⟨Table.mem_of_find hcurrent, rfl⟩
  obtain ⟨root, corrections, hl, hchain⟩ := hb original.pair (List.ne_nil_of_mem he)
  have hlast := hchain.eq_concat (hl ▸ he) hactive
  have hsuperseded := hchain.superseded
  generalize (root :: corrections).dropLast = init at hlast hsuperseded
  have hinit : init.map (BooksWrite.correct original actorUserId input).change = init := by
    refine (List.map_congr_left fun e hmem => if_neg fun hid => ?_).trans (List.map_id _)
    have hrow : e ∈ b.lineageOf original.pair := by
      rw [hl, hlast]
      exact List.mem_append_left _ hmem
    have heq := b.entries.eq_of_key_eq (mem_lineageOf.mp hrow).1 (Table.mem_of_find hcurrent) hid
    exact absurd ((hsuperseded e hmem).symm.trans (heq ▸ hactive)) (by decide)
  have hnew : (BooksWrite.correct original actorUserId input).added b.nextEntryId =
      [original.corrected input b.nextEntryId] := rfl
  obtain ⟨root', corrections', hl', hchain'⟩ := hchain.snoc hlast input b.nextEntryId
  refine ⟨root', corrections', ?_, hchain'⟩
  rw [lineageOf_apply h, hl, hlast, List.map_append, hinit, hnew, ← hl', List.append_assoc]
  congr 1
  rw [List.map_singleton, BooksWrite.change, if_pos rfl,
    List.filter_eq_self.mpr fun e he => decide_eq_true (List.mem_singleton.mp he ▸ rfl)]
  rfl

/-- A write that comes in time keeps the chains. -/
theorem Linear.apply (hb : b.Linear) (h : b.Admits c) (ht : b.Timely c) (hc : b.Current c) :
    (c.apply b).Linear := by
  intro pair hne
  by_cases hpair : c.concerns = some pair
  · cases c with
    | updateEntry id data =>
        cases hpair
        exact hb.updateEntry h ht
    | createEntry data =>
        cases hpair
        exact hb.createEntry h
    | correct original actorUserId input =>
        cases hpair
        obtain ⟨e, he, hactive⟩ := ht
        cases he.symm.trans hc
        exact hb.correct h hc hactive
    | savePayroll | deleteAlerts | createAlerts | log => cases hpair
  · rw [lineageOf_other h hpair] at hne ⊢
    exact hb pair hne

end Books

/-! ## Rebuilds and corrections -/

namespace Books

variable {b : Books} {ev : Evidence} {venueId : VenueId} {x : ShiftEvidence} {workerId : WorkerId}

theorem concerns_projectionOn :
    (b.projectionOn ev venueId x workerId).concerns = some (workerId, some x.id) := by
  unfold projectionOn
  split <;> rfl

theorem current_projectionOn : b.Current (b.projectionOn ev venueId x workerId) := by
  unfold projectionOn
  split <;> trivial

theorem Linear.projectAll (hb : b.Linear) (shifts : List ShiftEvidence) :
    (b.projectAll ev venueId shifts).Linear :=
  projectAll_induction (P := Linear)
    (fun b x _ workerId hb _ hsuper => hb.apply (b.projectionOn_spec ev venueId x workerId).1
      (timely_projectionOn hsuper) current_projectionOn) hb

/-- A rebuild leaves the pairs that have been corrected alone. -/
theorem lineageOf_projectAll {pair : WorkerId × Option ShiftId} (h : b.Superseded pair)
    (shifts : List ShiftEvidence) :
    (b.projectAll ev venueId shifts).lineageOf pair = b.lineageOf pair := by
  obtain ⟨e, he, hpair, hs⟩ := h
  refine projectAll_induction (P := fun b' => b'.lineageOf pair = b.lineageOf pair) ?_ rfl
  intro b' x _ workerId hsame _ hsuper
  have he' : e ∈ b'.lineageOf pair := hsame ▸ mem_lineageOf.mpr ⟨he, hpair⟩
  rw [lineageOf_other (b'.projectionOn_spec ev venueId x workerId).1, hsame]
  rw [concerns_projectionOn]
  intro heq
  exact hsuper ⟨e, (mem_lineageOf.mp he').1, hpair.trans (Option.some.inj heq).symm, hs⟩

theorem superseded_stays_projectAll {e : IncomeEntry} (he : e ∈ b.entries.rows)
    (hs : e.effectiveStatus = .superseded) (shifts : List ShiftEvidence) :
    e ∈ (b.projectAll ev venueId shifts).entries.rows :=
  projectAll_induction (P := fun b => e ∈ b.entries.rows)
    (fun b x _ workerId he _ hsuper => superseded_stays
      (b.projectionOn_spec ev venueId x workerId).1 (timely_projectionOn hsuper) he hs) he

/-- Alerts and the audit log apart, a rebuild is the projection of the shifts. -/
theorem entries_rebuilt (b : Books) (ev : Evidence) (venueId : VenueId)
    (actorUserId : Option UserId) (source : IncomeProjectionSource) :
    (b.rebuilt ev venueId actorUserId source).entries =
      (b.projectAll ev venueId ev.shifts).entries := rfl

theorem lineageOf_congr {b' : Books} (h : b'.entries = b.entries)
    (pair : WorkerId × Option ShiftId) : b'.lineageOf pair = b.lineageOf pair := by
  rw [lineageOf, h, lineageOf]

theorem Linear.congr {b' : Books} (hb : b.Linear) (h : b'.entries = b.entries) : b'.Linear := by
  intro pair hne
  rw [lineageOf_congr h] at hne ⊢
  exact hb pair hne

end Books

/-- The operations on the income ledger, and what changes in between. -/
inductive LedgerOp where
  /-- Evidence, payouts and payroll records become what they may. -/
  | evidence (world : World) (payrollRecords : Table PayrollRecord.id)
  | rebuild (venueId : VenueId) (actorUserId : Option UserId) (source : IncomeProjectionSource)
  | correct (entryId : EntryId) (actorUserId : UserId) (input : Correction)

namespace LedgerOp

/-- One operation, that runs alone. -/
def apply : LedgerOp → Platform → Platform
  | evidence world payrollRecords, s =>
      { s with world := world, books := { s.books with payrollRecords := payrollRecords } }
  | rebuild venueId actorUserId source, s =>
      ((rebuildVenueIncome 0 venueId actorUserId source).eval Command.apply s).2
  | correct entryId actorUserId input, s =>
      ((correctEntry entryId actorUserId input).eval Command.apply s).2

def run (ops : List LedgerOp) (s : Platform) : Platform := ops.foldl (fun s op => op.apply s) s

end LedgerOp

/-- No venue is locked and the entries of each pair are one chain. -/
structure Platform.Orderly (s : Platform) : Prop where
  linear : s.books.Linear
  free : ∀ venueId, s.lock venueId = none

/-- What a correction does: nothing, where the entry is not there or not active. -/
theorem correctEntry_cases (s : Platform) (entryId : EntryId) (actorUserId : UserId)
    (input : Correction) :
    ((correctEntry entryId actorUserId input).eval Command.apply s).2 = s ∨
      ∃ original, s.books.entries.find entryId = some original ∧
        original.effectiveStatus = .active ∧
        ((correctEntry entryId actorUserId input).eval Command.apply s).2 =
          (Command.correct original actorUserId input).apply s := by
  unfold correctEntry
  rw [Prog.eval_get_bind, Prog.eval_orThrow_bind]
  cases hfound : s.books.entries.find entryId with
  | none => exact .inl rfl
  | some original =>
      by_cases hactive : original.effectiveStatus = .active
      · refine .inr ⟨original, rfl, hactive, ?_⟩
        simp only [Prog.eval_require_bind, if_pos hactive]
        rfl
      · refine .inl ?_
        simp only [Prog.eval_require_bind, if_neg hactive]

namespace Platform.Orderly

variable {s : Platform}

/-- What a rebuild does: nothing, where the venue is not there. -/
theorem rebuild_cases (h : s.Orderly) (venueId : VenueId) (actorUserId : Option UserId)
    (source : IncomeProjectionSource) :
    (LedgerOp.rebuild venueId actorUserId source).apply s = s ∨
      (LedgerOp.rebuild venueId actorUserId source).apply s =
        { s with books := s.books.rebuilt (s.evidence venueId) venueId actorUserId source } := by
  cases hvenue : s.world.db.venues.find venueId with
  | none =>
      exact .inl (congrArg Prod.snd (eval_rebuildVenueIncome_of_none s venueId hvenue 0 _ _))
  | some venue =>
      have hsome : (s.world.db.venues.find venueId).isSome := hvenue ▸ rfl
      exact .inr (congrArg Prod.snd
        (eval_rebuildVenueIncome s venueId hsome (h.free venueId) 0 _ _))

/-- What is corrected is there, as it stands. -/
theorem admits {entryId : EntryId} {original : IncomeEntry}
    (hfound : s.books.entries.find entryId = some original) (actorUserId : UserId)
    (input : Correction) :
    s.books.Admits (.correct original actorUserId input) ∧
      s.books.entries.find original.id = some original := by
  have hid : original.id = entryId := Table.key_of_find hfound
  rw [← hid] at hfound
  exact ⟨⟨original, hfound, rfl⟩, hfound⟩

theorem apply (h : s.Orderly) (op : LedgerOp) : (op.apply s).Orderly := by
  cases op with
  | evidence world payrollRecords => exact ⟨h.linear.congr rfl, h.free⟩
  | rebuild venueId actorUserId source =>
      obtain heq | heq := h.rebuild_cases venueId actorUserId source
      · rw [heq]
        exact h
      · rw [heq]
        exact ⟨(h.linear.projectAll _).congr (s.books.entries_rebuilt _ _ _ _), h.free⟩
  | correct entryId actorUserId input =>
      obtain heq | ⟨original, hfound, hactive, heq⟩ :=
        correctEntry_cases s entryId actorUserId input
      · rw [LedgerOp.apply, heq]
        exact h
      · obtain ⟨hadmits, hcurrent⟩ := admits hfound actorUserId input
        rw [LedgerOp.apply, heq]
        exact ⟨h.linear.apply hadmits ⟨original, hcurrent, hactive⟩ hcurrent, h.free⟩

theorem run (h : s.Orderly) (ops : List LedgerOp) : (LedgerOp.run ops s).Orderly := by
  induction ops generalizing s with
  | nil => exact h
  | cons op ops ih => exact ih (h.apply op)

/-- A rebuild leaves the chains that have been corrected alone. -/
theorem lineageOf_rebuild (h : s.Orderly) {pair : WorkerId × Option ShiftId}
    (hcorr : s.books.HasCorrection pair) (venueId : VenueId) (actorUserId : Option UserId)
    (source : IncomeProjectionSource) :
    ((LedgerOp.rebuild venueId actorUserId source).apply s).books.lineageOf pair =
      s.books.lineageOf pair := by
  obtain heq | heq := h.rebuild_cases venueId actorUserId source
  · rw [heq]
  · rw [heq, Books.lineageOf_congr (s.books.entries_rebuilt _ _ _ _)]
    exact Books.lineageOf_projectAll (h.linear.superseded hcorr) _

/-- No operation changes what is superseded. -/
theorem superseded_stays (h : s.Orderly) (op : LedgerOp) {e : IncomeEntry}
    (he : e ∈ s.books.entries.rows) (hs : e.effectiveStatus = .superseded) :
    e ∈ (op.apply s).books.entries.rows := by
  cases op with
  | evidence world payrollRecords => exact he
  | rebuild venueId actorUserId source =>
      obtain heq | heq := h.rebuild_cases venueId actorUserId source
      · rw [heq]
        exact he
      · rw [heq]
        exact Books.superseded_stays_projectAll he hs _
  | correct entryId actorUserId input =>
      obtain heq | ⟨original, hfound, hactive, heq⟩ :=
        correctEntry_cases s entryId actorUserId input
      · rw [LedgerOp.apply, heq]
        exact he
      · obtain ⟨hadmits, hcurrent⟩ := admits hfound actorUserId input
        rw [LedgerOp.apply, heq]
        exact Books.superseded_stays hadmits ⟨original, hcurrent, hactive⟩ he hs

end Platform.Orderly

/-- In every run of rebuilds and corrections, whatever the evidence becomes in
between, the entries of each pair are one chain, a rebuild changes no entry of a
chain that has been corrected, and nothing changes an entry that is superseded. -/
theorem correction_ledger (world : World) (clock : Date) (signingKey : String)
    (ops : List LedgerOp) :
    let s := LedgerOp.run ops (Platform.fresh world clock signingKey)
    (∀ pair, s.books.lineageOf pair ≠ [] → ∃ root corrections,
        s.books.lineageOf pair = root :: corrections ∧ CorrectionChain root corrections) ∧
      (∀ pair, s.books.HasCorrection pair → ∀ venueId actorUserId source,
        ((LedgerOp.rebuild venueId actorUserId source).apply s).books.lineageOf pair =
          s.books.lineageOf pair) ∧
      ∀ op : LedgerOp, ∀ e ∈ s.books.entries.rows, e.effectiveStatus = .superseded →
        e ∈ (op.apply s).books.entries.rows := by
  intro s
  have hstart : (Platform.fresh world clock signingKey).Orderly :=
    ⟨Books.linear_empty, fun _ => rfl⟩
  have hs : s.Orderly := hstart.run ops
  exact ⟨hs.linear, fun pair hcorr => hs.lineageOf_rebuild hcorr,
    fun op e he hsuper => hs.superseded_stays op he hsuper⟩

open Scenario in
/-- A correction of a correction, with rebuilds around them: each entry with what it
corrects and the original. -/
example :
    let fix (entryId : EntryId) : LedgerOp :=
      .correct entryId owner ⟨"recount", some 400, none, none, none⟩
    let s := LedgerOp.run
      [.rebuild venue none .manual, fix 1, .rebuild venue none .manual, fix 5, fix 1,
        .rebuild venue none .manual] paidDay
    (s.books.lineageOf (worker, some shift.id)).map
        (fun e => (e.id, e.correctionOfId, e.originalEntryId, e.effectiveStatus)) =
      [(1, none, none, .superseded), (5, some 1, some 1, .superseded),
        (6, some 5, some 1, .active)] := by
  decide +kernel

end ServeProof
