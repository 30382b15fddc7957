import ServeProof.Knowledge

/-!
# ServeProof.Knowledge.Evidence

What the calls that make and change batches know at their commands:
calculation, approval, rejection, imports, policies, mappings.
-/

namespace ServeProof

open Interleave

section Calls

variable [Collation] {D : Discipline World Write} {since : AllocationId → World → World → Prop}
  {s₀ : World}

/-! ## calculate, approve, reject -/

theorem sat_calculate (hD : D.Lawful) (venueId : VenueId) (businessDate : String)
    (policyVersion : Option Nat) (by' : Option UserId) (now : Time) :
    (calculate venueId businessDate policyVersion by' now).Sat D (Known D since) s₀
      fun _ _ => True := by
  simp only [calculate, Prog.sat_get_bind, Prog.sat_orThrow_bind, Prog.sat_require_bind]
  intro s₁ _ _ venue _ s₂ h₂ _ policy _ s₃ h₃ i₃ s₄ h₄ _ _ s₅ h₅ i₅ hrecalc result hresult
  rw [sat_transact_bind]
  intro s₆ h₆ _ _
  refine ⟨⟨⟨s₅, i₅, h₆, rfl⟩, hrecalc, s₃.tipsOn venueId businessDate,
    (s₄.shiftsOn venueId businessDate).map ShiftEvidence.input, policy.input, ?_,
    s₃, i₃, hD.trans h₄ (hD.trans h₅ h₆), fun t ht => (List.mem_filter.mp ht).1⟩, fun _ => ?_⟩
  · cases hc : computeAllocationBatch ((s₃.tipsOn venueId businessDate).map TipEvidence.input)
        ((s₄.shiftsOn venueId businessDate).map ShiftEvidence.input) policy.input with
    | error e => rw [hc] at hresult; contradiction
    | ok r =>
        rw [hc] at hresult
        cases hresult
        rfl
  · rw [Prog.sat_get_bind]
    intro s₇ _ _
    unfold Prog.orThrow
    split
    · exact fun _ _ _ => trivial
    · trivial

theorem sat_approve (id : BatchId) (by' : UserId) (now : Time) :
    (approve id by' now).Sat D (Known D since) s₀ fun _ _ => True := by
  simp only [approve, Prog.sat_get_bind, Prog.sat_orThrow_bind, Prog.sat_require_bind]
  intro s₁ _ i₁ batch hfound _ hcalculated
  have hid : batch.id = id := Table.key_of_find hfound
  exact sat_transact_last fun s hr => ⟨⟨s₁, i₁, hr, by rw [hid]; exact hfound⟩, hcalculated⟩

theorem sat_reject (id : BatchId) (by' : UserId) (reason : String) :
    (reject id by' reason).Sat D (Known D since) s₀ fun _ _ => True := by
  simp only [reject, Prog.sat_get_bind, Prog.sat_orThrow_bind, Prog.sat_require_bind]
  intro s₁ _ i₁ batch hfound hstatus
  have hid : batch.id = id := Table.key_of_find hfound
  exact sat_transact_last fun s hr => ⟨⟨s₁, i₁, hr, by rw [hid]; exact hfound⟩, hstatus⟩

/-! ## importCsv, policies -/

theorem sat_importCsv (hD : D.Lawful) (venueId : VenueId) (csv : CsvNormalizationResult)
    (by' : Option UserId) (now : Time) :
    (importCsv venueId csv by' now).Sat D (Known D since) s₀ fun _ _ => True := by
  simp only [importCsv, Prog.sat_get_bind, Prog.sat_orThrow_bind]
  intro s₁ _ _ venue _ s₂ _ _
  refine Prog.Sat.andThen hD (Prog.sat_forEach hD (fun tip _ s => ?_) s₂) fun _ s₃ => ?_
  · exact sat_commit_last fun _ _ row => by simp
  · refine Prog.Sat.andThen hD (Prog.sat_forEach hD (fun shift _ s => ?_) s₃) fun _ s₄ => ?_
    · exact sat_commit_last fun _ _ row => by simp
    · refine Prog.sat_forEach hD (fun date _ s => ?_) s₄
      exact Prog.Sat.attempt_bind hD (sat_calculate hD venueId date none by' now)
        fun _ _ _ _ _ => trivial

theorem sat_createVersion (venueId : VenueId) (input : PolicyInput) :
    (createVersion venueId input).Sat D (Known D since) s₀ fun _ _ => True :=
  sat_commit_last fun _ _ row => by simp

theorem sat_newVersionFrom (id : PolicyId) (overrides : PolicyOverrides) :
    (newVersionFrom id overrides).Sat D (Known D since) s₀ fun _ _ => True := by
  simp only [newVersionFrom, Prog.sat_get_bind, Prog.sat_orThrow_bind]
  exact fun _ _ _ _ _ => sat_createVersion _ _

/-! ## respondToMapping -/

theorem sat_attachHeldAllocations (hD : D.Lawful) (hM : Memory D since)
    (mapping : ExternalWorkerAccount) :
    (attachHeldAllocations mapping).Sat D (Known D since) s₀ fun _ _ => True := by
  rw [attachHeldAllocations, Prog.sat_get_bind]
  intro s₁ _ i₁
  refine Prog.sat_forEach_remember hD hM.remembers
    ((List.filter_sublist.map _).nodup s₁.db.allocations.nodup) ?_ ?_
  · intro held hheld s hs
    obtain ⟨hmem, hfilter⟩ := List.mem_filter.mp hheld
    have hrow : Recall D since held.id
        (fun w => w.db.allocations.find held.id = some held) s₁ :=
      .here hM i₁ (Table.find_key hmem)
    exact sat_transact_last fun t hr =>
      ⟨(hrow.lasts hM hs).of_rely hM hr, (of_decide_eq_true hfilter).1⟩
  · exact fun held _ p hp => only_transact.mpr (Ne.symm hp)

theorem sat_respondToMapping (hD : D.Lawful) (hM : Memory D since) (id : AccountId)
    (user : UserId) (decision : MappingDecision) :
    (respondToMapping id user decision).Sat D (Known D since) s₀ fun _ _ => True := by
  simp only [respondToMapping, Prog.sat_get_bind, Prog.sat_orThrow_bind, Prog.sat_require_bind]
  intro s₁ _ _ mapping _ _
  cases decision with
  | reject =>
      simp only [Prog.sat_require_bind]
      exact fun _ => sat_commit_last fun _ _ row => by simp
  | accept =>
      simp only [Prog.sat_require_bind]
      intro _
      split
      · exact fun _ _ _ => trivial
      · simp only [verifyMapping, Prog.sat_get_bind, Prog.sat_orThrow_bind,
          Prog.sat_require_bind, sat_commit_bind]
        intro s₂ _ _ account _ _ s₃ _ _ _
        exact ⟨fun row => by simp, sat_attachHeldAllocations hD hM account⟩

end Calls

end ServeProof
