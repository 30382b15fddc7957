import ServeProof.Knowledge.Ledger
import ServeProof.Scenario.Disclosed

/-!
# ServeProof.Effective

One effective value for each lineage of income entries, when corrections and
rebuilds overlap.

It is kept as long as every write comes in time: an entry is corrected while it
is still active, a pair is projected while none of its entries is superseded.
Nothing in the code makes them come in time: two corrections that both read an
entry before either is written leave two active entries.
-/

namespace ServeProof

open Interleave

/-- The write comes before any other write of its lineage that its session has
not seen. -/
def Command.Timely : Command → Platform → Prop
  | .books c, s => s.books.Timely c
  | .correct original actor input, s => s.books.Timely (.correct original actor input)
  | _, _ => True

instance decidableTimely (c : Command) (s : Platform) : Decidable (c.Timely s) := by
  unfold Command.Timely
  split <;> infer_instance

theorem oneActive_commit {n : Nat} {c : Command} {s : Platform} (hb : s.books.Lineage)
    (ha : s.books.OneActive) (hk : LedgerKnown n c s) (ht : c.Timely s) :
    (c.apply s).books.OneActive := by
  cases c with
  | books k => exact ha.apply hb hk.2.1 ht
  | correct original actor input =>
      have hadmits : s.books.Admits (.correct original actor input) := hk
      exact ha.apply hb hadmits ht
  | lockVenue session v => simp only [Command.apply]; split <;> exact ha
  | unlockVenue session v => simp only [Command.apply]; split <;> exact ha
  | settle | disclose | redis | answer => exact ha

/-- What is superseded stays superseded. -/
def Books.StaysSuperseded (b b' : Books) : Prop :=
  ∀ id e, b.entries.find id = some e → e.effectiveStatus = .superseded →
    ∃ e', b'.entries.find id = some e' ∧ e'.effectiveStatus = .superseded

theorem Books.StaysSuperseded.refl (b : Books) : b.StaysSuperseded b :=
  fun _ e he hs => ⟨e, he, hs⟩

theorem Books.staysSuperseded_apply {b : Books} {c : BooksWrite} (h : b.Admits c)
    (ht : b.Timely c) : b.StaysSuperseded (c.apply b) := by
  intro id e he hs
  obtain ⟨e', he', hc⟩ := Books.entry_apply c (Table.mem_of_find he)
  have hid : e'.id = id :=
    (hc.became h (Table.mem_of_find he)).id.trans (Table.key_of_find he)
  refine ⟨e', by rw [← hid]; exact Table.find_key he', ?_⟩
  exact Books.superseded_of_changes h ht (Table.mem_of_find he) hc hs

theorem staysSuperseded_commit {n : Nat} {c : Command} {s : Platform} (hk : LedgerKnown n c s)
    (ht : c.Timely s) : s.books.StaysSuperseded (c.apply s).books := by
  cases c with
  | books k => exact Books.staysSuperseded_apply hk.2.1 ht
  | correct original actor input =>
      have hadmits : s.books.Admits (.correct original actor input) := hk
      exact Books.staysSuperseded_apply hadmits ht
  | lockVenue session v => simp only [Command.apply]; split <;> exact .refl s.books
  | unlockVenue session v => simp only [Command.apply]; split <;> exact .refl s.books
  | settle | disclose | redis | answer => exact .refl s.books

theorem Books.StaysSuperseded.trans {b b' b'' : Books} (h : b.StaysSuperseded b')
    (h' : b'.StaysSuperseded b'') : b.StaysSuperseded b'' := by
  intro id e he hs
  obtain ⟨e', he', hs'⟩ := h id e he hs
  exact h' id e' he' hs'

theorem oneActive_env (e : PlatformMove) {s : Platform} (ha : s.books.OneActive) :
    (e.apply s).books.OneActive := by
  cases e with
  | world e => exact ha
  | payroll row => exact ⟨ha.active, ha.notReversed⟩
  | wait ms => exact ha

theorem staysSuperseded_env (e : PlatformMove) (s : Platform) :
    s.books.StaysSuperseded (e.apply s).books := by
  cases e <;> exact fun _ e he hs => ⟨e, he, hs⟩

theorem oneActive_sound [Collation] : platform.SoundEach (fun _ _ => True)
    (ledger.refine (fun s => s.books.OneActive) Command.Timely) Informed :=
  ledger_sound.refine (fun _ _ _ hb ha _ ht hk => oneActive_commit hb ha hk.1 ht)
    fun e _ _ ha _ => oneActive_env e ha

/-- Runs whose writes to the ledger all come in time. -/
abbrev InTime [Collation] (ms : List (Move Request PlatformMove)) (s : Platform) : Prop :=
  platform.Respects (fun c s => c.Granted s ∧ c.Timely s) (fun _ _ => True) (number 0 ms)
    (Config.start s)

/-- **One effective value**: in every run whose writes come in time, a pair has
one active entry at most in every state, and an entry that is superseded never
becomes active again. -/
theorem one_effective_value [Collation] {s : Platform} (hb : s.books.Lineage)
    (ha : s.books.OneActive) {ms ms' : List (Move Request PlatformMove)}
    (hms : InTime (ms ++ ms') s) :
    let b := (platform.runFrom s ms).store.books
    let b' := (platform.runFrom s (ms ++ ms')).store.books
    (∀ e ∈ b'.entries.rows, ∀ e' ∈ b'.entries.rows, e.effectiveStatus = .active →
      e'.effectiveStatus = .active → e.pair = e'.pair → e = e') ∧
    ∀ id e, b.entries.find id = some e → e.effectiveStatus = .superseded →
      ∃ e', b'.entries.find id = some e' ∧ e'.effectiveStatus = .superseded := by
  have hsound := oneActive_sound
  have hstart : (ledger.refine (fun s => s.books.OneActive) Command.Timely).inv s := ⟨hb, ha⟩
  constructor
  · exact (hsound.held hstart hms).inv.2.active
  · exact hsound.relates_runFrom (R := fun s t => s.books.StaysSuperseded t.books)
      (fun s => .refl s.books) (fun _ _ _ h h' => h.trans h')
      (fun n c s _ hok hk => staysSuperseded_commit hk.1 hok.2)
      (fun e s _ _ => staysSuperseded_env e s) hstart hms

section Concrete

open Scenario

theorem one_effective_value_of_one_correction :
    let ms := rebuilt
    let ms' := [.call (correctCall 1 "typo"), .step 1, .step 1]
    let b := ((@platform byCodePoint).runFrom start ms).store.books
    let b' := ((@platform byCodePoint).runFrom start (ms ++ ms')).store.books
    (∀ e ∈ b'.entries.rows, ∀ e' ∈ b'.entries.rows, e.effectiveStatus = .active →
      e'.effectiveStatus = .active → e.pair = e'.pair → e = e') ∧
    ∀ id e, b.entries.find id = some e → e.effectiveStatus = .superseded →
      ∃ e', b'.entries.find id = some e' ∧ e'.effectiveStatus = .superseded :=
  @one_effective_value byCodePoint start Books.lineage_empty Books.oneActive_empty rebuilt
    [.call (correctCall 1 "typo"), .step 1, .step 1] (by decide +kernel)

/-- Two corrections of one entry, each of which reads it before the other is
written. -/
abbrev Scenario.twoCorrections : List (Move Request PlatformMove) :=
  rebuilt ++ [.call (correctCall 1 "typo"), .call (correctCall 1 "late"), .step 1, .step 2,
    .step 1, .step 2]

/-- Two corrections that overlap leave two active entries for one shift. -/
theorem two_corrections_are_both_effective :
    @Granted byCodePoint twoCorrections start ∧
      (((@platform byCodePoint).runFrom start twoCorrections).store.books.entries.rows.filter
        fun e => decide (e.effectiveStatus = .active ∧ e.pair = (worker, some shift.id))).length =
          2 := by
  decide +kernel

end Concrete

end ServeProof
