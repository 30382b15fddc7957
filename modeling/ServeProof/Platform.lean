import ServeProof.Disclosure.AccessStore
import ServeProof.Disclosure.Grants
import ServeProof.Disclosure.Snapshot
import ServeProof.Income.Ledger
import ServeProof.Interleave.Sessions
import ServeProof.Writes

/-!
# ServeProof.Platform

The store of the whole platform -- the world of the settlement core, the
income ledger, the disclosures, the access store, the venue rows that are
locked, the clock -- and the commands on it.

The statements of a transaction take effect one by one.  The one transaction
of more than one statement that is not a single command is the rebuild of a
venue: until it commits, the rows it has written are locked, so whoever would
change one of them comes after it.
-/

namespace ServeProof

open Interleave

structure Platform where
  world : World
  books : Books
  disclosures : Disclosures
  access : AccessStore
  /-- The session that holds `SELECT … FOR UPDATE` on a venue row. -/
  lock : VenueId → Option Nat
  clock : Date
  signingKey : String

/-- A platform whose ledger is empty, with nothing disclosed yet. -/
def Platform.fresh (world : World) (clock : Date) (signingKey : String) : Platform where
  world := world
  books := Books.empty
  disclosures := Disclosures.empty
  access := ∅
  lock := fun _ => none
  clock := clock
  signingKey := signingKey

/-! ## Responses -/

/-- What a verification link answers to: the status of its report. -/
inductive VerificationStatus where
  | valid | expired | revoked | corrected | notIssued
  deriving DecidableEq, Repr

/-- What everyone with the link may know. -/
structure VerificationBase where
  status : VerificationStatus
  issuer : String
  purpose : String
  level : DisclosureLevel
  workerDisplayName : String
  issuedAt : Option Date
  expiresAt : Date
  reportId : Option ReportId
  reportHash : Option ReportHash
  accessMode : DisclosureAccessMode
  deriving DecidableEq, Repr

inductive VerifyResponse where
  | metadata (base : VerificationBase)
  | authRequired (accessMode : DisclosureAccessMode) (expiresAt : Date)
      (recipientEmailMasked : String)
  | disclosed (base : VerificationBase) (snapshot : Option Snapshot)
  deriving DecidableEq, Repr

/-! ## Commands -/

inductive Command where
  /-- A command of the settlement core. -/
  | settle (c : Write)
  | books (c : BooksWrite)
  | disclose (c : DisclosureWrite)
  /-- Correct an income entry; issued reports of its worker flip to CORRECTED. -/
  | correct (original : IncomeEntry) (actorUserId : UserId) (input : Correction)
  | redis (c : RedisCommand)
  /-- `SELECT … FOR UPDATE` of a venue row by a session. -/
  | lockVenue (session : Nat) (venueId : VenueId)
  /-- The transaction of the session commits. -/
  | unlockVenue (session : Nat) (venueId : VenueId)
  /-- A response goes out. -/
  | answer (r : VerifyResponse)

namespace Command

def apply : Command → Platform → Platform
  | settle c, s => { s with world := c.apply s.world }
  | books c, s => { s with books := c.apply s.books }
  | disclose c, s => { s with disclosures := c.apply s.clock s.disclosures }
  | correct original actorUserId input, s =>
      { s with
        books := (BooksWrite.correct original actorUserId input).apply s.books
        disclosures :=
          (DisclosureWrite.flipReports original.data.workerId).apply s.clock s.disclosures }
  | redis c, s => { s with access := s.access.apply s.clock c }
  | lockVenue session venueId, s =>
      if (s.world.db.venues.find venueId).isSome then
        { s with lock := Function.update s.lock venueId (some session) }
      else s
  | unlockVenue session venueId, s =>
      if s.lock venueId = some session then
        { s with lock := Function.update s.lock venueId none }
      else s
  | answer _, s => s

/-- The database grants a lock on a row that no session holds. -/
def Granted : Command → Platform → Prop
  | lockVenue _ venueId, s => s.lock venueId = none
  | _, _ => True

instance decidableGranted (c : Command) (s : Platform) : Decidable (c.Granted s) :=
  match c with
  | lockVenue _ venueId => inferInstanceAs (Decidable (s.lock venueId = none))
  | settle _ | books _ | disclose _ | correct .. | redis _ | unlockVenue .. | answer _ =>
      isTrue trivial

/-- What a command does to the disclosures: nothing, or one write. -/
theorem disclosures_apply (c : Command) (s : Platform) :
    (c.apply s).disclosures = s.disclosures ∨
      ∃ k : DisclosureWrite, (c.apply s).disclosures = k.apply s.clock s.disclosures ∧
        (c = .disclose k ∨ ∃ workerId, k = .flipReports workerId) := by
  cases c with
  | settle c => exact .inl rfl
  | books c => exact .inl rfl
  | disclose k => exact .inr ⟨k, rfl, .inl rfl⟩
  | correct original actorUserId input => exact .inr ⟨_, rfl, .inr ⟨_, rfl⟩⟩
  | redis c => exact .inl rfl
  | lockVenue session venueId => simp only [apply]; split <;> exact .inl rfl
  | unlockVenue session venueId => simp only [apply]; split <;> exact .inl rfl
  | answer r => exact .inl rfl

end Command

/-- The program of a platform call. -/
abbrev Action (α : Type) := Prog Platform Command ApiError α

/-- A program of the settlement core, on the platform. -/
def settling {α : Type} (p : Service α) : Action α := p.lift Platform.world .settle

end ServeProof
