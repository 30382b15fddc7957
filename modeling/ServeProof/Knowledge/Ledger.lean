import ServeProof.Income.Lineage
import ServeProof.Knowledge.Reports

/-!
# ServeProof.Knowledge.Ledger

What a session knows when it writes the income ledger.

The projection of a venue is written by the session that holds the row of the
venue; as long as it does, the others leave the base entries of the venue as
they are (`Platform.Rely`).  A correction takes no lock: all its session knows
is that the entry was there, and active, when it was read.
-/

namespace ServeProof

open Interleave
open Prog (sat_get_bind sat_put_bind sat_put sat_putGet_bind sat_require_bind sat_orThrow_bind
  sat_ite sat_pure)

/-- The pair is one of a shift of the venue. -/
def ForVenue (venueId : VenueId) (pair : WorkerId × Option ShiftId) : Prop :=
  pair.2.map ShiftId.venueId = some venueId

theorem ForVenue.unique {v v' : VenueId} {pair : WorkerId × Option ShiftId} (h : ForVenue v pair)
    (h' : ForVenue v' pair) : v = v' := Option.some.inj (h.symm.trans h')

/-! ## What a session relies on -/

/-- What the session `n` can rely on while others move. -/
structure Platform.Rely (n : Nat) (s t : Platform) : Prop where
  kept : s.books.Kept t.books
  held : ∀ v, s.lock v = some n →
    t.lock v = some n ∧ s.books.KeptOn (ForVenue v) t.books

theorem Platform.Rely.refl (n : Nat) (s : Platform) : s.Rely n s :=
  ⟨.refl s.books, fun _ h => ⟨h, .refl s.books⟩⟩

theorem Platform.Rely.trans {n : Nat} {s t u : Platform} (h : s.Rely n t) (h' : t.Rely n u) :
    s.Rely n u := by
  refine ⟨h.kept.trans h'.kept, fun v hv => ?_⟩
  obtain ⟨ht, hk⟩ := h.held v hv
  obtain ⟨hu, hk'⟩ := h'.held v ht
  exact ⟨hu, hk.trans hk'⟩

/-- The sessions of the platform: lineages are kept, and the database grants
locks. -/
def ledger : Sessions Platform Command where
  apply := Command.apply
  rely := Platform.Rely
  inv s := s.books.Lineage
  ok := Command.Granted

theorem ledger_lawful (n : Nat) : (ledger.of n).Lawful :=
  ⟨Platform.Rely.refl n, Platform.Rely.trans⟩

/-! ## What a session knows -/

/-- A writer of the ledger knows what it should, and holds the venue of the
entry it projects. -/
def BooksKnown (n : Nat) (c : BooksWrite) (s : Platform) : Prop :=
  s.books.Admits c ∧ ∀ pair, c.target = some pair → ∃ v, s.lock v = some n ∧ ForVenue v pair

def LedgerKnown (n : Nat) : Command → Platform → Prop
  | .books c, s => (Command.books c).Projects ∧ BooksKnown n c s
  | .correct original actor input, s => s.books.Admits (.correct original actor input)
  | .lockVenue session _, _ | .unlockVenue session _, _ => session = n
  | _, _ => True

/-! ## What its commits do -/

section Commit

variable {n : Nat} {c : Command} {s : Platform}

/-- The write of a command to the ledger. -/
theorem books_apply (h : LedgerKnown n c s) : (c.apply s).books = s.books ∨
    ∃ k, (c.apply s).books = k.apply s.books ∧ BooksKnown n k s := by
  cases c with
  | books k => exact .inr ⟨k, rfl, h.2⟩
  | correct original actor input => exact .inr ⟨.correct original actor input, rfl, h, nofun⟩
  | lockVenue session v => simp only [Command.apply]; split <;> exact .inl rfl
  | unlockVenue session v => simp only [Command.apply]; split <;> exact .inl rfl
  | settle | disclose | redis | answer => exact .inl rfl

theorem lineage_commit (hs : s.books.Lineage) (h : LedgerKnown n c s) :
    (c.apply s).books.Lineage := by
  cases books_apply h with
  | inl h => exact h ▸ hs
  | inr h =>
      obtain ⟨k, hk, hknown⟩ := h
      exact hk ▸ hs.apply hknown.1

theorem kept_commit (h : LedgerKnown n c s) : s.books.Kept (c.apply s).books := by
  cases books_apply h with
  | inl h => exact h ▸ .refl s.books
  | inr h =>
      obtain ⟨k, hk, hknown⟩ := h
      exact hk ▸ Books.kept_apply hknown.1

/-- A session leaves the base entries of a venue that it does not hold. -/
theorem keptOn_commit (h : LedgerKnown n c s) {v : VenueId} (hv : s.lock v ≠ some n) :
    s.books.KeptOn (ForVenue v) (c.apply s).books := by
  cases books_apply h with
  | inl h => rw [h]; exact .refl s.books
  | inr h =>
      obtain ⟨k, hk, hknown⟩ := h
      rw [hk]
      refine (Books.keptOn_apply hknown.1).imp fun pair hpair htarget => ?_
      obtain ⟨v', hlock, hfor⟩ := hknown.2 pair htarget
      exact hv (hfor.unique hpair ▸ hlock)

/-- A session leaves the locks of the others. -/
theorem lock_commit (h : LedgerKnown n c s) (hok : c.Granted s) {v : VenueId} {m : Nat}
    (hm : m ≠ n) (hv : s.lock v = some m) : (c.apply s).lock v = some m := by
  cases c with
  | lockVenue session v' =>
      have hne : v ≠ v' := by
        rintro rfl
        exact nomatch hv.symm.trans hok
      simp only [Command.apply]
      split
      · simp only [Function.update_of_ne hne, hv]
      · exact hv
  | unlockVenue session v' =>
      have hsession : session = n := h
      simp only [Command.apply]
      split
      · next hlock =>
        have hne : v ≠ v' := by
          rintro rfl
          exact hm (Option.some.inj (hv.symm.trans (hlock.trans (congrArg some hsession))))
        simp only [Function.update_of_ne hne, hv]
      · exact hv
  | settle | books | disclose | correct | redis | answer => exact hv

theorem ledger_commit (hs : s.books.Lineage) (hok : c.Granted s) (h : LedgerKnown n c s) :
    (c.apply s).books.Lineage ∧ ∀ m, m ≠ n → s.Rely m (c.apply s) := by
  refine ⟨lineage_commit hs h, fun m hm => ⟨kept_commit h, fun v hv => ?_⟩⟩
  refine ⟨lock_commit h hok hm hv, keptOn_commit h fun hn => ?_⟩
  exact hm (Option.some.inj (hv.symm.trans hn))

/-- Nothing in the world around writes the entries, or holds a row. -/
theorem ledger_env (e : PlatformMove) (hs : s.books.Lineage) :
    (e.apply s).books.Lineage ∧ ∀ m, s.Rely m (e.apply s) := by
  cases e with
  | world e => exact ⟨hs, fun m => ⟨.refl s.books, fun v hv => ⟨hv, .refl s.books⟩⟩⟩
  | wait ms => exact ⟨hs, fun m => ⟨.refl s.books, fun v hv => ⟨hv, .refl s.books⟩⟩⟩
  | payroll row =>
      have hadmits : s.books.Admits (.savePayroll row) := trivial
      refine ⟨hs.apply hadmits, fun m => ⟨Books.kept_apply hadmits, fun v hv => ⟨hv, ?_⟩⟩⟩
      exact (Books.keptOn_apply hadmits).imp fun _ _ => nofun

end Commit

/-! ## A rebuild, under the lock -/

section Rebuild

/-- The base entry of a shift, where it is not left to its corrections, is the
projection of the evidence. -/
def ProjectedFrom (ev : Evidence) (venueId : VenueId) (b : Books) (shift : ShiftEvidence) : Prop :=
  ∀ workerId, shift.mappedWorkerId = some workerId → b.Superseded (workerId, some shift.id) ∨
    ∃ id, b.baseData (workerId, some shift.id) = some (id, ev.entryData venueId shift workerId)

theorem ProjectedFrom.keptOn {ev : Evidence} {venueId : VenueId} {b b' : Books}
    {shift : ShiftEvidence} {P : WorkerId × Option ShiftId → Prop}
    (h : ProjectedFrom ev venueId b shift) (hb : b.KeptOn P b')
    (hP : ∀ workerId, shift.mappedWorkerId = some workerId → P (workerId, some shift.id)) :
    ProjectedFrom ev venueId b' shift := by
  intro workerId hw
  cases h workerId hw with
  | inl h => exact .inl (hb.superseded _ (hP workerId hw) h)
  | inr h =>
      obtain ⟨id, hid⟩ := h
      exact .inr ⟨id, (hb.base _ (hP workerId hw)).trans hid⟩

/-- Evidence of a venue that was read, each part of it while `Q` held. -/
def ReadUnder (Q : Platform → Prop) (venueId : VenueId) (ev : Evidence) : Prop :=
  ∃ s₁ s₂ s₃ s₄, Q s₁ ∧ Q s₂ ∧ Q s₃ ∧ Q s₄ ∧
    ev = ⟨s₁.shiftsOf venueId, s₂.tipsOf venueId, s₃.batchesOf venueId, s₄.payrollOf venueId⟩

/-- The setting of a rebuild of the session `n`: as long as it holds the row of
the venue, others leave the projection alone, and `Q` lasts. -/
structure Rebuilding (D : Discipline Platform Command) (known : Command → Platform → Prop)
    (n : Nat) (venueId : VenueId) (Q : Platform → Prop) : Prop where
  lawful : D.Lawful
  apply : D.apply = Command.apply
  others : ∀ {s t}, s.lock venueId = some n → Q s → D.rely s t →
    t.lock venueId = some n ∧ Q t ∧ s.books.KeptOn (ForVenue venueId) t.books
  own : ∀ {c s}, Q s → (Command.books c).Projects → Q ((Command.books c).apply s)
  known : ∀ {c s}, s.lock venueId = some n → (Command.books c).Projects → BooksKnown n c s →
    known (.books c) s

variable {D : Discipline Platform Command} {known : Command → Platform → Prop} {n : Nat}
  {venueId : VenueId} {Q : Platform → Prop}

/-- The row is held, and the shifts `done` are projected. -/
structure Progress (n : Nat) (venueId : VenueId) (Q : Platform → Prop) (ev : Evidence)
    (done : List ShiftEvidence) (s : Platform) : Prop where
  lock : s.lock venueId = some n
  still : Q s
  venue : ∀ shift ∈ done, shift.id.venueId = venueId
  projected : ∀ shift ∈ done, ProjectedFrom ev venueId s.books shift

variable {ev : Evidence} {done : List ShiftEvidence} {s t : Platform}

theorem Progress.stable (h : Rebuilding D known n venueId Q)
    (hs : Progress n venueId Q ev done s) (hr : D.rely s t) : Progress n venueId Q ev done t := by
  obtain ⟨hlock, hstill, hkept⟩ := h.others hs.lock hs.still hr
  refine ⟨hlock, hstill, hs.venue, fun x hx => (hs.projected x hx).keptOn hkept ?_⟩
  exact fun workerId _ => congrArg some (hs.venue x hx)

/-- A write of the rebuild that projects no shift. -/
theorem Progress.write (h : Rebuilding D known n venueId Q) (hs : Progress n venueId Q ev done s)
    {c : BooksWrite} (hc : (Command.books c).Projects) (hadmits : s.books.Admits c)
    (htarget : c.target = none) :
    known (.books c) s ∧ Progress n venueId Q ev done ((Command.books c).apply s) := by
  refine ⟨h.known hs.lock hc ⟨hadmits, fun pair hp => nomatch htarget.symm.trans hp⟩, hs.lock,
    h.own hs.still hc, hs.venue, fun shift hshift => ?_⟩
  refine (hs.projected shift hshift).keptOn (Books.keptOn_apply hadmits) fun workerId _ => ?_
  rw [htarget]
  nofun

theorem Progress.venue_append (hs : Progress n venueId Q ev done s) {x : ShiftEvidence}
    (hx : x.id.venueId = venueId) : ∀ y ∈ done ++ [x], y.id.venueId = venueId := by
  intro y hy
  cases List.mem_append.mp hy with
  | inl hy => exact hs.venue y hy
  | inr hy => exact List.mem_singleton.mp hy ▸ hx

/-- A write of the rebuild that projects the shift `x`. -/
theorem Progress.project (h : Rebuilding D known n venueId Q)
    (hs : Progress n venueId Q ev done s) {x : ShiftEvidence} (hx : x.id.venueId = venueId)
    (hsame : ∀ y ∈ done, y.id = x.id → y = x) {workerId : WorkerId}
    (hw : x.mappedWorkerId = some workerId) {c : BooksWrite} (hadmits : s.books.Admits c)
    (hc : (Command.books c).Projects) (htarget : c.target = some (workerId, some x.id))
    (hdata : ∃ id, (c.apply s.books).baseData (workerId, some x.id) =
      some (id, ev.entryData venueId x workerId)) :
    known (.books c) s ∧ Progress n venueId Q ev (done ++ [x]) ((Command.books c).apply s) := by
  have hx' : ProjectedFrom ev venueId (c.apply s.books) x := by
    intro w hw'
    cases hw.symm.trans hw'
    exact .inr hdata
  refine ⟨h.known hs.lock hc ⟨hadmits, fun pair hp => ⟨venueId, hs.lock, ?_⟩⟩, hs.lock,
    h.own hs.still hc, hs.venue_append hx, fun y hy => ?_⟩
  · cases htarget.symm.trans hp
    exact congrArg some hx
  cases List.mem_append.mp hy with
  | inr hy => exact List.mem_singleton.mp hy ▸ hx'
  | inl hy =>
      by_cases hid : y.id = x.id
      · exact hsame y hy hid ▸ hx'
      · refine (hs.projected y hy).keptOn (Books.keptOn_apply hadmits) fun w _ => ?_
        rw [htarget]
        intro heq
        exact hid (Option.some.inj (congrArg Prod.snd (Option.some.inj heq))).symm

theorem Progress.append (hs : Progress n venueId Q ev done s) {x : ShiftEvidence}
    (hx : x.id.venueId = venueId) (hproj : ProjectedFrom ev venueId s.books x) :
    Progress n venueId Q ev (done ++ [x]) s := by
  refine ⟨hs.lock, hs.still, hs.venue_append hx, fun y hy => ?_⟩
  cases List.mem_append.mp hy with
  | inl hy => exact hs.projected y hy
  | inr hy => exact List.mem_singleton.mp hy ▸ hproj

/-- One turn of the loop. -/
theorem sat_projectShift (h : Rebuilding D known n venueId Q) {x : ShiftEvidence}
    (hx : x.id.venueId = venueId) (hsame : ∀ y ∈ done, y.id = x.id → y = x)
    (hs : Progress n venueId Q ev done s) :
    (projectShift ev venueId x).Sat D known s fun _ t =>
      Progress n venueId Q ev (done ++ [x]) t := by
  unfold projectShift
  cases hw : x.mappedWorkerId with
  | none =>
      intro t hr _
      exact (hs.stable h hr).append hx fun w hw' => nomatch hw.symm.trans hw'
  | some workerId =>
      have hfor : ForVenue venueId (workerId, some x.id) := congrArg some hx
      simp only [sat_get_bind, sat_ite]
      intro s₁ hr₁ _
      have hs₁ := hs.stable h hr₁
      refine ⟨fun hsuper t hr _ => ?_, fun _ s₂ hr₂ _ => ?_⟩
      · -- the pair is left to its corrections
        have hx₁ : ProjectedFrom ev venueId s₁.books x := by
          intro w hw'
          cases hw.symm.trans hw'
          exact .inl (of_decide_eq_true hsuper)
        exact (hs₁.append hx hx₁).stable h hr
      · have hs₂ := hs₁.stable h hr₂
        -- what was read of the base entry is still so when it is written
        have hkept {s₃ : Platform} (hr₃ : D.rely s₂ s₃) :
            s₃.books.baseData (workerId, some x.id) = s₂.books.baseData (workerId, some x.id) :=
          (h.others hs₂.lock hs₂.still hr₃).2.2.base _ hfor
        cases hbase : s₂.books.baseEntry (workerId, some x.id) with
        | none =>
            rw [sat_put_bind]
            intro s₃ hr₃ _ _
            have hs₃ := hs₂.stable h hr₃
            have hadmits : s₃.books.Admits (.createEntry (ev.entryData venueId x workerId)) := by
              have hnone := hkept hr₃
              rw [Books.baseData, Books.baseData, hbase] at hnone
              exact Option.map_eq_none_iff.mp hnone
            obtain ⟨hk, hp⟩ := hs₃.project h hx hsame hw hadmits trivial rfl
              ⟨_, Books.baseData_createEntry hadmits⟩
            exact ⟨hk, fun t hr _ => hp.stable h (by rw [h.apply] at hr; exact hr)⟩
        | some entry =>
            rw [sat_put_bind]
            intro s₃ hr₃ _ _
            have hs₃ := hs₂.stable h hr₃
            have hadmits : s₃.books.Admits
                (.updateEntry entry.id (ev.entryData venueId x workerId)) := by
              have hsome := hkept hr₃
              rw [Books.baseData, Books.baseData, hbase] at hsome
              obtain ⟨e, he, heq⟩ := Option.map_eq_some_iff.mp hsome
              exact ⟨e, he, congrArg Prod.fst heq⟩
            obtain ⟨hk, hp⟩ := hs₃.project h hx hsame hw hadmits trivial rfl
              ⟨_, Books.baseData_updateEntry hadmits⟩
            exact ⟨hk, fun t hr _ => hp.stable h (by rw [h.apply] at hr; exact hr)⟩

/-- A rebuild projects every shift of the venue from the evidence it reads. -/
theorem sat_rebuildVenueIncomeLocked (h : Rebuilding D known n venueId Q)
    (hlock : s.lock venueId = some n) (hQ : Q s) (actorUserId : Option UserId)
    (source : IncomeProjectionSource) :
    (rebuildVenueIncomeLocked venueId actorUserId source).Sat D known s fun _ t =>
      t.lock venueId = some n ∧ Q t ∧ ∃ ev, ReadUnder Q venueId ev ∧
        ∀ shift ∈ ev.shifts, ProjectedFrom ev venueId t.books shift := by
  simp only [rebuildVenueIncomeLocked, sat_get_bind]
  intro s₁ hr₁ _ s₂ hr₂ _ s₃ hr₃ _ s₄ hr₄ _
  obtain ⟨hlock₁, hQ₁, -⟩ := h.others hlock hQ hr₁
  obtain ⟨hlock₂, hQ₂, -⟩ := h.others hlock₁ hQ₁ hr₂
  obtain ⟨hlock₃, hQ₃, -⟩ := h.others hlock₂ hQ₂ hr₃
  obtain ⟨hlock₄, hQ₄, -⟩ := h.others hlock₃ hQ₃ hr₄
  generalize hev : (⟨s₁.shiftsOf venueId, s₂.tipsOf venueId, s₃.batchesOf venueId,
    s₄.payrollOf venueId⟩ : Evidence) = ev
  have hread : ReadUnder Q venueId ev := ⟨s₁, s₂, s₃, s₄, hQ₁, hQ₂, hQ₃, hQ₄, hev.symm⟩
  have hshifts : ev.shifts = s₁.shiftsOf venueId := hev ▸ rfl
  have hmem {x : ShiftEvidence} (hx : x ∈ s₁.shiftsOf venueId) :
      x ∈ s₁.world.db.shifts.rows ∧ x.id.venueId = venueId := by
    simpa [Platform.shiftsOf] using hx
  have hloop : (Prog.mapEach (s₁.shiftsOf venueId) (projectShift ev venueId)).Sat D known s₄
      fun _ t => Progress n venueId Q ev (s₁.shiftsOf venueId) t := by
    refine Prog.sat_mapEach h.lawful (fun _ _ _ hs hr _ => hs.stable h hr) ?_
      ⟨hlock₄, hQ₄, fun _ h => absurd h List.not_mem_nil, fun _ h => absurd h List.not_mem_nil⟩
    intro done x rest hxs s hs
    have hx := hmem (hxs ▸ List.mem_append_right done List.mem_cons_self)
    refine sat_projectShift h hx.2 (fun y hy hid => ?_) hs
    have hy' := hmem (hxs ▸ List.mem_append_left _ hy)
    exact s₁.world.db.shifts.eq_of_key_eq hy'.1 hx.1 hid
  refine Prog.Sat.bind h.lawful (hloop.mono fun outcomes t ht => ?_)
  simp only [sat_put_bind, sat_pure]
  intro t₁ hr₁ _ _
  obtain ⟨hk₁, hp₁⟩ := (ht.stable h hr₁).write h (c := .deleteAlerts venueId) trivial trivial rfl
  rw [← h.apply] at hp₁
  refine ⟨hk₁, fun t₂ hr₂ _ _ => ?_⟩
  obtain ⟨hk₂, hp₂⟩ := (hp₁.stable h hr₂).write h (c := .createAlerts _) trivial trivial rfl
  rw [← h.apply] at hp₂
  refine ⟨hk₂, fun t₃ hr₃ _ _ => ?_⟩
  obtain ⟨hk₃, hp₃⟩ := (hp₂.stable h hr₃).write h (c := .log _) trivial trivial rfl
  rw [← h.apply] at hp₃
  refine ⟨hk₃, fun t₄ hr₄ _ => ?_⟩
  have hp := hp₃.stable h hr₄
  exact ⟨hp.lock, hp.still, ev, hread, hshifts ▸ hp.projected⟩

end Rebuild

/-! ## What every call knows -/

section Calls

variable {n : Nat} {s : Platform}

theorem rebuilding_ledger (n : Nat) (venueId : VenueId) :
    Rebuilding (ledger.of n) (LedgerKnown n) n venueId fun _ => True where
  lawful := ledger_lawful n
  apply := rfl
  others hlock _ hr := ⟨(hr.held _ hlock).1, trivial, (hr.held _ hlock).2⟩
  own _ _ := trivial
  known _ hc hk := ⟨hc, hk⟩

theorem sat_rebuildVenueIncome (n : Nat) (venueId : VenueId) (actorUserId : Option UserId)
    (source : IncomeProjectionSource) :
    (rebuildVenueIncome n venueId actorUserId source).Sat (ledger.of n) (LedgerKnown n) s
      fun _ _ => True := by
  unfold rebuildVenueIncome
  rw [sat_putGet_bind]
  intro t _ _ _
  refine ⟨rfl, sat_ite.mpr ⟨fun _ _ _ _ => trivial, fun hfound => ?_⟩⟩
  have hlock : ((Command.lockVenue n venueId).apply t).lock venueId = some n := by
    rw [Bool.not_eq_false] at hfound
    simp only [Command.apply, if_pos hfound, Function.update_self]
  have hlocked := sat_rebuildVenueIncomeLocked (rebuilding_ledger n venueId) hlock trivial
    actorUserId source
  refine Prog.Sat.bind (ledger_lawful n) (hlocked.mono fun result u hu => ?_)
  rw [sat_put_bind]
  exact fun _ _ _ _ => ⟨rfl, fun _ _ _ => trivial⟩

/-- The entry that is corrected is the one that was read. -/
theorem sat_correctEntry (entryId : EntryId) (actorUserId : UserId) (input : Correction) :
    (correctEntry entryId actorUserId input).Sat (ledger.of n) (LedgerKnown n) s
      fun _ _ => True := by
  simp only [correctEntry, sat_get_bind, sat_orThrow_bind, sat_require_bind]
  intro t _ _ original hfound _ u hr _ _
  refine ⟨?_, fun _ _ _ => trivial⟩
  have hid : original.id = entryId := Table.key_of_find hfound
  obtain ⟨e, he, hp, -⟩ := hr.kept entryId original hfound
  exact ⟨e, by rw [hid]; exact he, hp⟩

/-- Every call knows what a writer of the ledger should. -/
theorem sat_ledger [Collation] (n : Nat) (r : Request) :
    (Request.prog (n, r)).Sat (ledger.of n) (LedgerKnown n) s fun _ _ => True := by
  refine sat_prog_of (fun _ _ => trivial) (fun c hc s => ?_) (fun r s => ?_) r
  · cases c with
    | disclose | redis | answer => trivial
    | settle | books | correct | lockVenue | unlockVenue => exact hc.elim
  · exact sat_incomeProg_of (ledger_lawful n) (fun _ _ => trivial)
      (fun venueId by' source s => sat_rebuildVenueIncome n venueId by' source)
      (fun id by' input s => sat_correctEntry id by' input) r

/-- What a session knows, of the ledger and of the reports it writes. -/
def Informed (n : Nat) (c : Command) (s : Platform) : Prop :=
  LedgerKnown n c s ∧ Issuing (ledger.of n) c s

/-- The sessions of the platform live up to what they rely on. -/
theorem ledger_sound [Collation] : platform.SoundEach (fun _ _ => True) ledger Informed where
  lawful := ledger_lawful
  commit _ _ _ hi hok hk := ledger_commit hi hok hk.1
  env e _ hi _ := ledger_env e hi
  apply_eq := rfl
  call n r s _ := by
    have hboth := (sat_ledger (s := s) n r).and (sat_issuing (ledger_lawful n) n r)
    exact hboth.mono fun _ _ _ => trivial

end Calls

end ServeProof
