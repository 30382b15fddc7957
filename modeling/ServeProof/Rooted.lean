import ServeProof.Income.Lineage
import ServeProof.Knowledge.Requests

/-!
# ServeProof.Rooted

Every income entry is about a shift on record, in every state that calls can
reach, however they overlap: an entry is created about a shift that was read,
corrected about the same shift, and no shift is ever taken off the record.
-/

namespace ServeProof

open Interleave
open Prog (sat_get_bind sat_put_bind sat_putGet_bind sat_require_bind sat_orThrow_bind sat_ite
  sat_pure)

/-! ## Shifts on record -/

namespace Platform

/-- There is a shift, and it is on record. -/
def OnRecord (s : Platform) (shiftId : Option ShiftId) : Prop :=
  ∃ id, shiftId = some id ∧ (s.world.db.shifts.find id).isSome

/-- All entries are about shifts on record. -/
def Rooted (s : Platform) : Prop := ∀ e ∈ s.books.entries.rows, s.OnRecord e.data.shiftId

/-- No shift is taken off the record. -/
def KeepsShifts (s t : Platform) : Prop :=
  ∀ id, (s.world.db.shifts.find id).isSome → (t.world.db.shifts.find id).isSome

theorem OnRecord.mono {s t : Platform} {shiftId : Option ShiftId} (h : s.OnRecord shiftId)
    (hkeeps : s.KeepsShifts t) : t.OnRecord shiftId := by
  obtain ⟨id, hid, hfound⟩ := h
  exact ⟨id, hid, hkeeps id hfound⟩

theorem onRecord_of_shiftsOf {s : Platform} {venueId : VenueId} {shift : ShiftEvidence}
    (h : shift ∈ s.shiftsOf venueId) : s.OnRecord (some shift.id) := by
  have hrow : shift ∈ s.world.db.shifts.rows := List.mem_of_mem_filter h
  exact ⟨shift.id, rfl, Option.isSome_of_eq_some (Table.find_key hrow)⟩

end Platform

/-- The shift a write makes an entry about. -/
def BooksWrite.about : BooksWrite → Option (Option ShiftId)
  | updateEntry _ data => some data.shiftId
  | createEntry data => some data.shiftId
  | correct original _ _ => some original.data.shiftId
  | _ => none

/-- An entry after a write is about the shift of an entry before, or that of the
write. -/
theorem Books.about_of_apply {c : BooksWrite} {b : Books} {e' : IncomeEntry}
    (h : e' ∈ (c.apply b).entries.rows) :
    (∃ e ∈ b.entries.rows, e'.data.shiftId = e.data.shiftId) ∨ c.about = some e'.data.shiftId := by
  obtain ⟨e, he, hc⟩ | ⟨data, rfl, rfl⟩ | ⟨original, actor, input, rfl, rfl⟩ := entry_of_apply h
  · cases hc with
    | stays => exact .inl ⟨e', he, rfl⟩
    | projected data hc => exact .inr (hc ▸ rfl)
    | superseded => exact .inl ⟨e, he, rfl⟩
  · exact .inr rfl
  · exact .inr rfl

/-! ## What a session knows -/

/-- The calls of the platform: shifts stay. -/
def rooting : Discipline Platform Command where
  apply := Command.apply
  rely := Platform.KeepsShifts
  inv := Platform.Rooted
  ok _ _ := True

theorem rooting_lawful : rooting.Lawful :=
  ⟨fun _ _ h => h, fun h h' id hid => h' id (h id hid)⟩

/-- Who writes an entry knows that its shift is on record. -/
def RootedKnown : Command → Platform → Prop
  | .books c, s => ∀ shiftId, c.about = some shiftId → s.OnRecord shiftId
  | .correct original _ _, s => s.OnRecord original.data.shiftId
  | _, _ => True

theorem keepsShifts_apply (c : Command) (s : Platform) : s.KeepsShifts (c.apply s) := by
  intro id hid
  cases c with
  | settle c => exact Write.find_shift_apply hid
  | lockVenue session v => simp only [Command.apply]; split <;> exact hid
  | unlockVenue session v => simp only [Command.apply]; split <;> exact hid
  | books | disclose | correct | redis | answer => exact hid

theorem keepsShifts_env (e : PlatformMove) (s : Platform) : s.KeepsShifts (e.apply s) := by
  intro id hid
  cases e with
  | world e =>
      cases e with
      | chain step => exact hid
      | record c => exact Write.find_shift_apply hid
  | payroll row => exact hid
  | wait ms => exact hid

/-- A write of an entry about a shift on record. -/
theorem Platform.Rooted.write {s t : Platform} (hs : s.Rooted) (hkeeps : s.KeepsShifts t)
    {c : BooksWrite} (hbooks : t.books = c.apply s.books)
    (hknown : ∀ shiftId, c.about = some shiftId → s.OnRecord shiftId) : t.Rooted := by
  intro e he
  rw [hbooks] at he
  cases Books.about_of_apply he with
  | inl h =>
      obtain ⟨e₀, he₀, hsame⟩ := h
      exact hsame ▸ (hs e₀ he₀).mono hkeeps
  | inr h => exact (hknown _ h).mono hkeeps

theorem rooted_commit {c : Command} {s : Platform} (hs : s.Rooted) (hknown : RootedKnown c s) :
    (c.apply s).Rooted := by
  have hkeeps := keepsShifts_apply c s
  have hsame (h : (c.apply s).books = s.books) : (c.apply s).Rooted := by
    intro e he
    rw [h] at he
    exact (hs e he).mono hkeeps
  cases c with
  | books c => exact hs.write hkeeps rfl hknown
  | correct original actor input =>
      refine hs.write (c := .correct original actor input) hkeeps rfl fun shiftId h => ?_
      exact Option.some.inj h ▸ hknown
  | lockVenue session v => exact hsame (by simp only [Command.apply]; split <;> rfl)
  | unlockVenue session v => exact hsame (by simp only [Command.apply]; split <;> rfl)
  | settle | disclose | redis | answer => exact hsame rfl

theorem rooted_env (e : PlatformMove) {s : Platform} (hs : s.Rooted) : (e.apply s).Rooted := by
  have hkeeps := keepsShifts_env e s
  cases e with
  | world e => exact fun x hx => (hs x hx).mono hkeeps
  | payroll row => exact hs.write (c := .savePayroll row) hkeeps rfl nofun
  | wait ms => exact hs

/-! ## What every call knows -/

section Calls

variable {s : Platform}

/-- A shift is projected that is on record. -/
theorem sat_projectShift_rooted (ev : Evidence) (venueId : VenueId) {shift : ShiftEvidence}
    (h : s.OnRecord (some shift.id)) :
    (projectShift ev venueId shift).Sat rooting RootedKnown s fun _ _ => True := by
  unfold projectShift
  cases shift.mappedWorkerId with
  | none => exact fun _ _ _ => trivial
  | some workerId =>
      simp only [sat_get_bind, sat_ite]
      intro s₁ hr₁ _
      refine ⟨fun _ _ _ _ => trivial, fun _ s₂ hr₂ _ => ?_⟩
      have h₂ : s₂.OnRecord (some shift.id) := (h.mono hr₁).mono hr₂
      cases s₂.books.baseEntry (workerId, some shift.id) with
      | none =>
          rw [sat_put_bind]
          intro s₃ hr₃ _ _
          refine ⟨fun shiftId heq => ?_, fun _ _ _ => trivial⟩
          exact Option.some.inj heq ▸ h₂.mono hr₃
      | some entry =>
          rw [sat_put_bind]
          intro s₃ hr₃ _ _
          refine ⟨fun shiftId heq => ?_, fun _ _ _ => trivial⟩
          exact Option.some.inj heq ▸ h₂.mono hr₃

/-- What a call has seen on record stays on record. -/
theorem sat_keepsShifts {α : Type} {p : Action α}
    (hp : p.Sat rooting RootedKnown s fun _ _ => True) :
    p.Sat rooting RootedKnown s fun _ t => s.KeepsShifts t := by
  have hremembers : Prog.Remembers rooting RootedKnown (fun _ => True) Platform.KeepsShifts :=
    { refl := rooting_lawful.refl
      trans := rooting_lawful.trans
      of_rely := id
      of_commit := fun _ _ _ _ => keepsShifts_apply _ _ }
  exact (hp.remember hremembers (Prog.only_true p)).mono fun _ _ h => h.2

/-- The shifts that were read are on record throughout the loop. -/
theorem sat_mapEach_rooted (ev : Evidence) (venueId : VenueId) {shifts : List ShiftEvidence}
    (h : ∀ shift ∈ shifts, s.OnRecord (some shift.id)) :
    (Prog.mapEach shifts (projectShift ev venueId)).Sat rooting RootedKnown s
      fun _ t => ∀ shift ∈ shifts, t.OnRecord (some shift.id) := by
  refine Prog.sat_mapEach rooting_lawful
    (J := fun _ t => ∀ shift ∈ shifts, t.OnRecord (some shift.id)) ?_ ?_ h
  · exact fun _ _ _ ht hr _ shift hshift => (ht shift hshift).mono hr
  · intro done shift rest hxs t ht
    have hmem : shift ∈ shifts := hxs ▸ List.mem_append_right _ List.mem_cons_self
    have hsat := sat_keepsShifts (sat_projectShift_rooted ev venueId (ht shift hmem))
    exact hsat.mono fun _ u hu x hx => (ht x hx).mono hu

theorem sat_rebuildVenueIncomeLocked_rooted (venueId : VenueId) (actorUserId : Option UserId)
    (source : IncomeProjectionSource) :
    (rebuildVenueIncomeLocked venueId actorUserId source).Sat rooting RootedKnown s
      fun _ _ => True := by
  simp only [rebuildVenueIncomeLocked, sat_get_bind]
  intro s₁ _ _ s₂ hr₂ _ s₃ hr₃ _ s₄ hr₄ _
  have hread : ∀ shift ∈ s₁.shiftsOf venueId, s₄.OnRecord (some shift.id) := by
    intro shift hshift
    exact (((Platform.onRecord_of_shiftsOf hshift).mono hr₂).mono hr₃).mono hr₄
  refine Prog.Sat.bind rooting_lawful ((sat_mapEach_rooted _ venueId hread).mono fun _ t _ => ?_)
  simp only [sat_put_bind, sat_pure]
  refine fun _ _ _ _ => ⟨?_, fun _ _ _ _ => ⟨?_, fun _ _ _ _ => ⟨?_, fun _ _ _ => trivial⟩⟩⟩
  all_goals
    intro shiftId habout
    cases habout

theorem sat_rebuildVenueIncome_rooted (session : Nat) (venueId : VenueId)
    (actorUserId : Option UserId) (source : IncomeProjectionSource) :
    (rebuildVenueIncome session venueId actorUserId source).Sat rooting RootedKnown s
      fun _ _ => True := by
  unfold rebuildVenueIncome
  rw [sat_putGet_bind]
  refine fun t _ _ _ => ⟨trivial, sat_ite.mpr ⟨fun _ _ _ _ => trivial, fun _ => ?_⟩⟩
  have hlocked := sat_rebuildVenueIncomeLocked_rooted
    (s := rooting.apply (.lockVenue session venueId) t) venueId actorUserId source
  refine hlocked.andThen rooting_lawful fun result u => ?_
  rw [sat_put_bind]
  exact fun _ _ _ _ => ⟨trivial, fun _ _ _ => trivial⟩

/-- The correction of an entry is about the shift of the entry. -/
theorem sat_correctEntry_rooted (entryId : EntryId) (actorUserId : UserId) (input : Correction) :
    (correctEntry entryId actorUserId input).Sat rooting RootedKnown s fun _ _ => True := by
  simp only [correctEntry, sat_get_bind, sat_orThrow_bind, sat_require_bind]
  intro t _ ht original hfound _ u hr _ _
  have hshift : t.OnRecord original.data.shiftId := ht original (Table.mem_of_find hfound)
  exact ⟨hshift.mono hr, fun _ _ _ => trivial⟩

theorem sat_rooted [Collation] (session : Nat) (r : Request) :
    (Request.prog (session, r)).Sat rooting RootedKnown s fun _ _ => True := by
  refine sat_prog_of (fun _ _ => trivial) (fun c hc s => ?_) (fun r s => ?_) r
  · cases c with
    | disclose | redis | answer => trivial
    | settle | books | correct | lockVenue | unlockVenue => exact hc.elim
  · exact sat_incomeProg_of rooting_lawful (fun _ _ => trivial)
      (fun venueId by' source s => sat_rebuildVenueIncome_rooted session venueId by' source)
      (fun id by' input s => sat_correctEntry_rooted id by' input) r

/-- The calls live up to it, with no lock at all. -/
theorem rooting_sound [Collation] : platform.Sound (fun _ _ => True) rooting RootedKnown where
  lawful := rooting_lawful
  commit c s hs _ hknown := ⟨keepsShifts_apply c s, rooted_commit hs hknown⟩
  env e s hs _ := ⟨keepsShifts_env e s, rooted_env e hs⟩
  apply_eq := rfl
  call := fun (session, r) _ _ => sat_rooted session r

/-- **Rooted ledgers**: in every state that calls reach, every entry is about a shift
that is on record. -/
theorem rooted_runFrom [Collation] {s : Platform} (hs : s.Rooted)
    (ms : List (Move Request PlatformMove)) : (platform.runFrom s ms).store.Rooted := by
  refine rooting_sound.exec_inv hs (platform.respects_of_all _ _ ?_ ?_ _ _)
  · exact fun _ _ => trivial
  · exact fun _ _ => trivial

theorem rooted_fresh (world : World) (clock : Date) (signingKey : String) :
    (Platform.fresh world clock signingKey).Rooted := fun _ h => absurd h List.not_mem_nil

end Calls

end ServeProof
