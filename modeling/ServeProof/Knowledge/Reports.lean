import ServeProof.Knowledge.Requests

/-!
# ServeProof.Knowledge.Reports

What `issueReport` knows when it creates a report: the report is the one of a
grant that was open when it was read, over the entries of its worker as they
were read, each some time before.
-/

namespace ServeProof

open Interleave
open Prog (sat_get_bind sat_put_bind sat_putGet_bind sat_require_bind sat_orThrow_bind sat_throw
  sat_pure)

variable (D : Discipline Platform Command)

/-- What the issuer of the report `row` has read: the grant, and the entries of
its worker in the store `u`. -/
structure ReportRead (row : NewReport) (s : Platform) (grant : DisclosureGrant)
    (u : Platform) : Prop where
  found : ∃ t, D.rely t s ∧ t.disclosures.grants.find grant.id = some grant
  notRevoked : grant.revokedAt = none
  entries : D.inv u ∧ D.rely u s
  row : ∃ signingKey issuedAt previous,
    row = newReport grant (u.activeEntries grant.workerId) signingKey issuedAt previous

def ReportKnown (row : NewReport) (s : Platform) : Prop :=
  ∃ grant u, ReportRead D row s grant u

/-- What the issuer of a report knows when it stores the path of the PDF. -/
def UriKnown (id : ReportId) (s : Platform) : Prop :=
  ∃ row t, ReportKnown D row t ∧ (DisclosureWrite.createReport row).Applies t.disclosures ∧
    t.disclosures.nextReportId = id ∧ D.rely (D.apply (.disclose (.createReport row)) t) s

variable {D} {known : Command → Platform → Prop} {s₀ : Platform}

theorem sat_workerOf_bind {α : Type} {userId : UserId} {f : Worker → Action α}
    {post : α → Platform → Prop}
    (h : ∀ s worker, D.rely s₀ s → s.workerOfUser userId = some worker →
      (f worker).Sat D known s post) : (workerOf userId >>= f).Sat D known s₀ post := by
  change (Prog.get _ >>= fun found => Prog.orThrow found _ >>= f).Sat D known s₀ post
  rw [sat_get_bind]
  intro s hr _
  rw [sat_orThrow_bind]
  exact fun worker hw => h s worker hr hw

theorem sat_issueReport (hD : D.Lawful)
    (hcreate : ∀ row s, ReportKnown D row s → known (.disclose (.createReport row)) s)
    (huri : ∀ id s, UriKnown D id s → known (.disclose (.setReportUri id)) s)
    (userId : UserId) (grantId : GrantId) (renderError : Option String) :
    (issueReport userId grantId renderError).Sat D known s₀ fun _ _ => True := by
  refine sat_workerOf_bind fun s worker _ _ => ?_
  rw [sat_get_bind]
  intro s₁ _ _
  simp only [sat_orThrow_bind, sat_require_bind, sat_get_bind]
  intro grant hgrant hopen s₂ hr₂ _ _ s₃ hr₃ hi₃ s₄ hr₄ _ s₅ hr₅ _
  obtain ⟨hfound, -⟩ := Option.filter_eq_some_iff.mp hgrant
  have hid : grant.id = grantId := Table.key_of_find hfound
  refine Prog.Sat.bind hD ?_
  unfold insertRow
  rw [sat_putGet_bind]
  intro s hr _ _
  have hrow : ReportKnown D
      (newReport grant (s₃.activeEntries grant.workerId) s₄.signingKey s₄.clock
        (s₅.disclosures.previousReport grantId)) s := by
    refine ⟨grant, s₃, ⟨s₁, ?_, by rw [hid]; exact hfound⟩, hopen, ⟨hi₃, ?_⟩, _, _, _, rfl⟩
    · exact hD.trans hr₂ (hD.trans hr₃ (hD.trans hr₄ (hD.trans hr₅ hr)))
    · exact hD.trans hr₄ (hD.trans hr₅ hr)
  refine ⟨hcreate _ s hrow, ?_⟩
  split
  · next happlies =>
    intro t hrt _
    cases renderError with
    | some message => trivial
    | none =>
        rw [sat_put_bind]
        intro u hru _ _
        refine ⟨huri _ u ⟨_, s, hrow, happlies, rfl, hD.trans hrt hru⟩, fun _ _ _ => trivial⟩
  · trivial

/-! ## The newest report -/

theorem newest_mem {l : List VerificationReport} {r : VerificationReport}
    (h : newest l = some r) : r ∈ l := by
  suffices hgen : ∀ (l : List VerificationReport) best, l.foldl newer best = some r →
      r ∈ l ∨ best = some r by
    cases hgen l none h with
    | inl h => exact h
    | inr h => cases h
  intro l
  induction l with
  | nil => exact fun best h => .inr h
  | cons x l ih =>
      intro best h
      cases ih (newer best x) h with
      | inl h => exact .inl (List.mem_cons_of_mem x h)
      | inr h =>
          have hnewer : newer best x = some x ∨ newer best x = best := by
            cases best with
            | none => exact .inl rfl
            | some b => simp only [newer]; split <;> simp
          cases hnewer with
          | inl hx => exact .inl (List.mem_cons.mpr (.inl (Option.some.inj (h.symm.trans hx))))
          | inr hb => exact .inr (hb ▸ h)

/-- The report of a link is a report of its grant. -/
theorem Platform.report_of_findGrant {s : Platform} {rawToken : String} {v : GrantView}
    {r : VerificationReport} (h : s.findGrant rawToken = some v) (hr : v.report = some r) :
    r ∈ s.disclosures.reports.rows ∧ r.disclosureGrantId = v.grant.id := by
  obtain ⟨g, -, rfl⟩ := Option.map_eq_some_iff.mp h
  simpa [Disclosures.reportsOf] using newest_mem hr

/-- A report is valid when it is issued, and its grant is open. -/
theorem reportStatus_valid {v : GrantView} {now : Date} (h : reportStatus v now = .valid) :
    ∃ r, v.report = some r ∧ r.status ∈ [.issued, .draft] ∧ v.grant.revokedAt = none ∧
      now ≤ v.grant.expiresAt := by
  unfold reportStatus at h
  split at h
  · cases h
  · next hrevoked =>
    cases hr : v.report with
    | none => simp [hr] at h
    | some r =>
        simp only [hr] at h hrevoked
        split at h
        · cases h
        · next hexpired =>
          split at h
          · cases h
          · next hcorrected =>
            refine ⟨r, rfl, ?_, ?_, ?_⟩
            · cases hs : r.status <;> simp_all
            · by_contra hne
              exact hrevoked (.inl hne)
            · by_contra hlt
              exact hexpired (.inl (Int.not_le.mp hlt))

/-! ## Who writes reports -/

/-- The command creates a report or stores its path. -/
inductive Command.WritesReport : Command → Prop where
  | create (row : NewReport) : WritesReport (.disclose (.createReport row))
  | path (id : ReportId) : WritesReport (.disclose (.setReportUri id))

theorem Request.Makes.writesReport {r : Request} {c : Command} (h : r.Makes c)
    (hc : c.WritesReport) : ∃ user grant renderError,
      r = .disclosure (.issueReport user grant renderError) := by
  cases hc with
  | create row =>
      cases r with
      | service call => exact h.elim
      | income r => exact absurd trivial h.not_discloses
      | disclosure r => cases r <;> simp [Makes] at h ⊢
  | path id =>
      cases r with
      | service call => exact h.elim
      | income r => exact absurd trivial h.not_discloses
      | disclosure r => cases r <;> simp [Makes] at h ⊢

variable (D) in
/-- What an issuer knows of the report it writes. -/
def Issuing : Command → Platform → Prop
  | .disclose (.createReport row), s => ReportKnown D row s
  | .disclose (.setReportUri id), s => UriKnown D id s
  | _, _ => True

theorem issuing_of_not_writesReport {c : Command} (h : ¬ c.WritesReport) (s : Platform) :
    Issuing D c s := by
  unfold Issuing
  split
  · exact absurd (.create _) h
  · exact absurd (.path _) h
  · trivial

/-- Every call knows what an issuer should. -/
theorem sat_issuing [Collation] (hD : D.Lawful) (session : Nat) (r : Request) :
    (Request.prog (session, r)).Sat D (Issuing D) s₀ fun _ _ => True := by
  by_cases hr : ∃ user grant renderError, r = .disclosure (.issueReport user grant renderError)
  · obtain ⟨user, grant, renderError, rfl⟩ := hr
    have hissue : (issueReport user grant renderError).Sat D (Issuing D) s₀ fun _ _ => True :=
      sat_issueReport hD (fun _ _ h => h) (fun _ _ h => h) user grant renderError
    exact hissue.andThen hD fun _ _ _ _ _ => trivial
  · have honly : (Request.prog (session, r)).Only fun c => ∀ s, Issuing D c s :=
      (only_prog session r).imp fun c hc =>
        issuing_of_not_writesReport fun hw => hr (hc.writesReport hw)
    exact Prog.Sat.of_only honly fun _ _ => trivial

end ServeProof
