import ServeProof.Knowledge.Ledger
import ServeProof.Scenario.Disclosed

/-!
# ServeProof.Basis

What a valid report rests on, when reports are issued while entries are
corrected.

A correction flips the reports that are there.  A report that is created later,
over entries that were read before, is not flipped: it is sound to create it
only while none of the entries it rests on is superseded (`Command.Current`).
-/

namespace ServeProof

open Interleave

/-- A report is created while the entries it rests on still stand. -/
def Command.Current : Command → Platform → Prop
  | .disclose (.createReport row), s =>
      ∀ id ∈ row.basis, ∀ e ∈ s.books.entries.find id, e.effectiveStatus ≠ .superseded
  | _, _ => True

instance decidableCurrent (c : Command) (s : Platform) : Decidable (c.Current s) := by
  unfold Command.Current
  split <;> infer_instance

/-- The entry `id` is an entry of the worker, and is not superseded. -/
def Books.Stands (b : Books) (workerId : WorkerId) (id : EntryId) : Prop :=
  ∃ e, b.entries.find id = some e ∧ e.data.workerId = workerId ∧ e.effectiveStatus ≠ .superseded

/-- Issued reports rest on entries that stand, and there are no drafts. -/
structure Platform.Rests (s : Platform) : Prop where
  basis : ∀ r ∈ s.disclosures.reports.rows, r.status = .issued →
    ∀ id ∈ r.basis, s.books.Stands r.workerId id
  notDraft : ∀ r ∈ s.disclosures.reports.rows, r.status ≠ .draft

/-! ## One write -/

/-- A write to the ledger that is no correction leaves what stands. -/
theorem Books.Stands.apply {b : Books} {c : BooksWrite} (h : b.Admits c)
    (hc : (Command.books c).Projects) {workerId : WorkerId} {id : EntryId}
    (hs : b.Stands workerId id) : (c.apply b).Stands workerId id := by
  obtain ⟨e, he, hw, hstatus⟩ := hs
  have hmem := Table.mem_of_find he
  obtain ⟨e', he', hchange⟩ := Books.entry_apply c hmem
  have hsame := hchange.became h hmem
  have hid : e'.id = id := hsame.id.trans (Table.key_of_find he)
  refine ⟨e', by rw [← hid]; exact Table.find_key he', ?_, ?_⟩
  · exact (congrArg Prod.fst hsame.pair).trans hw
  · cases hchange with
    | stays _ => exact hstatus
    | projected => nofun
    | superseded original actor input hcorrect => subst hcorrect; exact hc.elim

/-- A correction leaves the entries of other workers. -/
theorem Books.Stands.correct {b : Books} {original : IncomeEntry} {actor : UserId}
    {input : Correction} (h : b.Admits (.correct original actor input)) {workerId : WorkerId}
    (hne : workerId ≠ original.data.workerId) {id : EntryId} (hs : b.Stands workerId id) :
    ((BooksWrite.correct original actor input).apply b).Stands workerId id := by
  obtain ⟨e, he, hw, hstatus⟩ := hs
  have hmem := Table.mem_of_find he
  obtain ⟨e', he', hchange⟩ := Books.entry_apply (.correct original actor input) hmem
  have hsame := hchange.became h hmem
  have hid : e'.id = id := hsame.id.trans (Table.key_of_find he)
  refine ⟨e', by rw [← hid]; exact Table.find_key he', ?_, ?_⟩
  · exact (congrArg Prod.fst hsame.pair).trans hw
  · cases hchange with
    | stays _ => exact hstatus
    | projected data hc => cases hc
    | superseded _ _ _ hc hid' =>
        -- the entry that is corrected is one of the corrected worker
        cases hc
        obtain ⟨e₀, he₀, hp⟩ := h
        have heq : e₀ = e := b.entries.eq_of_key_eq (Table.mem_of_find he₀) hmem
          ((Table.key_of_find he₀).trans hid')
        subst heq
        exact absurd (hw.symm.trans (congrArg Prod.fst hp)) hne

/-- Reports that are issued in the next state were issued in this one, or are
new. -/
theorem issued_of_apply {k : DisclosureWrite} {clock : Date} {d : Disclosures}
    {r' : VerificationReport} (h : r' ∈ (k.apply clock d).reports.rows)
    (hissued : r'.status = .issued) :
    (∃ r ∈ d.reports.rows, r.status = .issued ∧ r.basis = r'.basis ∧ r.workerId = r'.workerId) ∨
      ∃ row, k = .createReport row ∧ r' = row.row clock d.nextReportId := by
  cases DisclosureWrite.report_of_apply h with
  | inl hold =>
      obtain ⟨r, hr, hb, -⟩ := hold
      exact .inl ⟨r, hr, hb.issued hissued, hb.basis.symm, hb.workerId.symm⟩
  | inr hnew =>
      obtain ⟨row, hk, -, hrow⟩ := hnew
      exact .inr ⟨row, hk, hrow⟩

/-- The entries a report rests on are entries of its worker that were there. -/
theorem ReportRead.stands {n : Nat} {row : NewReport} {s u : Platform} {grant : DisclosureGrant}
    (h : ReportRead (ledger.of n) row s grant u) {id : EntryId} (hid : id ∈ row.basis) :
    ∃ e, s.books.entries.find id = some e ∧ e.data.workerId = row.workerId := by
  obtain ⟨key, issuedAt, previous, rfl⟩ := h.row
  obtain ⟨view, hview, rfl⟩ := List.mem_map.mp hid
  have hactive := List.mem_of_mem_filter hview
  obtain ⟨e, he, rfl⟩ := List.mem_map.mp hactive
  obtain ⟨hmem, hp⟩ := List.mem_filter.mp he
  have hworker := (of_decide_eq_true hp).1
  obtain ⟨e', he', hpair, -⟩ := h.entries.2.kept e.id e (Table.find_key hmem)
  exact ⟨e', he', (congrArg Prod.fst hpair).trans hworker⟩

/-! ## A step -/

theorem rests_commit {n : Nat} {c : Command} {s : Platform} (hs : s.Rests)
    (hk : Informed n c s) (hcurrent : c.Current s) : (c.apply s).Rests := by
  cases c with
  | settle | redis | answer => exact ⟨hs.basis, hs.notDraft⟩
  | lockVenue session v => simp only [Command.apply]; split <;> exact ⟨hs.basis, hs.notDraft⟩
  | unlockVenue session v => simp only [Command.apply]; split <;> exact ⟨hs.basis, hs.notDraft⟩
  | books k =>
      have hknown : (Command.books k).Projects ∧ BooksKnown n k s := hk.1
      refine ⟨fun r hr hissued id hid => ?_, hs.notDraft⟩
      exact (hs.basis r hr hissued id hid).apply hknown.2.1 hknown.1
  | correct original actor input =>
      have hadmits : s.books.Admits (.correct original actor input) := hk.1
      refine ⟨fun r' hr' hissued id hid => ?_, DisclosureWrite.not_draft_apply hs.notDraft⟩
      obtain ⟨r, hr, rfl⟩ := List.mem_map.mp hr'
      have hb := VerificationReport.became_flip original.data.workerId r
      have hne : r.workerId ≠ original.data.workerId := by
        intro hw
        rw [VerificationReport.flip, if_pos ⟨hw, hb.issued hissued⟩] at hissued
        cases hissued
      have hstands := hs.basis r hr (hb.issued hissued) id (hb.basis ▸ hid)
      rw [hb.workerId]
      exact hstands.correct hadmits hne
  | disclose k =>
      refine ⟨fun r' hr' hissued id hid => ?_, DisclosureWrite.not_draft_apply hs.notDraft⟩
      obtain ⟨r, hr, hr₀, hbasis, hw⟩ | ⟨row, rfl, rfl⟩ := issued_of_apply hr' hissued
      · have hstands := hs.basis r hr hr₀ id (hbasis ▸ hid)
        exact hw ▸ hstands
      · obtain ⟨grant, u, hread⟩ : ReportKnown (ledger.of n) row s := hk.2
        obtain ⟨e, he, hworker⟩ := hread.stands hid
        exact ⟨e, he, hworker, hcurrent id hid e he⟩

theorem rests_env (e : PlatformMove) {s : Platform} (hs : s.Rests) : (e.apply s).Rests := by
  cases e <;> exact ⟨hs.basis, hs.notDraft⟩

theorem rests_sound [Collation] : platform.SoundEach (fun _ _ => True)
    (ledger.refine Platform.Rests Command.Current) Informed :=
  ledger_sound.refine (fun _ _ _ _ hs _ hc hk => rests_commit hs hk hc) fun e _ _ hs _ =>
    rests_env e hs

/-- **What a valid report rests on**: in every run in which a report is created
only while its entries stand, no report that is VALID rests on an entry that is
superseded. -/
theorem valid_report_stands [Collation] {s : Platform} (hb : s.books.Lineage) (hs : s.Rests)
    {ms : List (Move Request PlatformMove)}
    (hms : platform.Respects (fun c s => c.Granted s ∧ c.Current s) (fun _ _ => True)
      (number 0 ms) (Config.start s)) :
    let t := (platform.runFrom s ms).store
    ∀ rawToken v r, t.findGrant rawToken = some v → reportStatus v t.clock = .valid →
      v.report = some r → ∀ id ∈ r.basis, ∀ e ∈ t.books.entries.find id,
        e.effectiveStatus ≠ .superseded := by
  intro t rawToken v r hv hvalid hr id hid e he
  have hrests : t.Rests := (rests_sound.held ⟨hb, hs⟩ hms).inv.2
  obtain ⟨hmem, -⟩ := Platform.report_of_findGrant hv hr
  obtain ⟨r', hr', hstatus, -⟩ := reportStatus_valid hvalid
  cases hr.symm.trans hr'
  have hissued : r.status = .issued := by
    have hdraft := hrests.notDraft r hmem
    simp_all
  obtain ⟨e', he', -, hstands⟩ := hrests.basis r hmem hissued id hid
  cases he'.symm.trans he
  exact hstands

section Concrete

open Scenario

theorem rests_start : start.Rests :=
  ⟨fun _ h => absurd h List.not_mem_nil, fun _ h => absurd h List.not_mem_nil⟩

/-- A grant over the ledger of the worker. -/
abbrev Scenario.grantedLedger : List (Move Request PlatformMove) :=
  rebuilt ++ .call (createGrantCall .level2 .link) :: List.replicate 2 (.step 1)

theorem valid_report_stands_of_issued :
    let t := ((@platform byCodePoint).runFrom start
      (grantedLedger ++ .call issueCall :: List.replicate 10 (.step 2))).store
    ∀ rawToken v r, t.findGrant rawToken = some v → reportStatus v t.clock = .valid →
      v.report = some r → ∀ id ∈ r.basis, ∀ e ∈ t.books.entries.find id,
        e.effectiveStatus ≠ .superseded :=
  @valid_report_stands byCodePoint start Books.lineage_empty rests_start _ (by decide +kernel)

/-- The entries are read for a report; one of them is corrected; the report is
created. -/
abbrev Scenario.correctedMeanwhile : List (Move Request PlatformMove) :=
  grantedLedger ++ [.call issueCall, .step 2, .step 2, .step 2, .step 2,
    .call (correctCall 1 "typo"), .step 3, .step 3, .step 2, .step 2, .step 2, .step 2]

/-- The report is VALID, and rests on the entry as it was before. -/
theorem valid_report_on_superseded_income :
    @Granted byCodePoint correctedMeanwhile start ∧
      let t := ((@platform byCodePoint).runFrom start correctedMeanwhile).store
      ∃ v ∈ t.findGrant "token", reportStatus v t.clock = .valid ∧
        ∃ r ∈ v.report, ∃ id ∈ r.basis, ∃ e ∈ t.books.entries.find id,
          e.effectiveStatus = .superseded := by
  decide +kernel

end Concrete

end ServeProof
