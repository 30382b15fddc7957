import ServeProof.Interleave.Sessions

/-!
# ServeProof.Interleave.Refresh

A view that is kept in step with its source by the calls that write the source:
each of them, before it returns, takes a lock, reads the source again, brings the
view up to date, and lets go of the lock.

Writing the source takes no lock, so a call that refreshes the view may have read
what is out of date by then.  But the call that wrote in between still owes a
refresh (`Prog.Owes`).  So at every moment some call owes a refresh, or the view
is in step, or the call that holds the lock is about to leave it in step
(`Refresh.Fresh`) -- and when all calls have returned, only the second is left.
-/

open Interleave.System (HeldEach Legal)

namespace Interleave

variable {σ κ ε ι η : Type}

/-- What the calls of a run do to a view and its source. -/
structure Refresh (σ κ : Type) where
  /-- What holds throughout the run. -/
  stable : σ → Prop
  /-- The commands before a refresh. -/
  changes : κ → Prop
  /-- The session takes the lock. -/
  take : Nat → κ
  /-- The commands of a refresh, once the lock is taken. -/
  writes : κ → Prop
  holds : Nat → σ → Prop
  /-- The source is the same. -/
  same : σ → σ → Prop
  inStep : σ → Prop

namespace Prog

variable {α β : Type}

/-- The program has returned. -/
def Returned : Prog σ κ ε α → Prop
  | pure _ => True
  | _ => False

/-- Nothing is left of the program. -/
def Ended : Prog σ κ ε α → Prop
  | pure _ | throw _ => True
  | _ => False

instance : (p : Prog σ κ ε α) → Decidable p.Returned
  | pure _ => isTrue trivial
  | throw _ | read _ | commit .. => isFalse id

instance : (p : Prog σ κ ε α) → Decidable p.Ended
  | pure _ | throw _ => isTrue trivial
  | read _ | commit .. => isFalse id

theorem Ended.only {p : Prog σ κ ε α} (h : p.Ended) (ok : κ → Prop) : p.Only ok := by
  cases p with
  | pure | throw => trivial
  | read | commit => exact h.elim

/-- The program does not return before it has taken the lock; `after` is said of
what is left of it then. -/
def Owes (R : Refresh σ κ) (n : Nat) (after : Prog σ κ ε α → σ → Prop) : Prog σ κ ε α → Prop
  | pure _ => False
  | throw _ => True
  | read next => ∀ s, R.stable s → (next s).Owes R n after
  | commit c next =>
      (R.changes c ∧ ∀ s, (next s).Owes R n after) ∨
        (c = R.take n ∧ ∀ s, R.stable s → after (next s) s)

variable {R : Refresh σ κ} {n : Nat} {after : Prog σ κ ε β → σ → Prop}

/-- What comes before the refresh. -/
theorem Owes.of_only {p : Prog σ κ ε α} (hp : p.Only R.changes) {f : α → Prog σ κ ε β}
    (hf : ∀ a, (f a).Owes R n after) : (p >>= f).Owes R n after := by
  change (p.bind f).Owes R n after
  induction p with
  | pure a => exact hf a
  | throw e => trivial
  | read next ih => exact fun s _ => ih s (hp s)
  | commit c next ih => exact .inl ⟨hp.1, fun s => ih s (hp.2 s)⟩

theorem owes_get_bind {g : σ → α} {f : α → Prog σ κ ε β} :
    (get g >>= f).Owes R n after ↔ ∀ s, R.stable s → (f (g s)).Owes R n after := Iff.rfl

theorem Owes.orThrow {o : Option α} {e : ε} {f : α → Prog σ κ ε β}
    (hf : ∀ a, o = some a → (f a).Owes R n after) :
    (Prog.orThrow o e >>= f).Owes R n after := by
  cases o with
  | none => trivial
  | some a => exact hf a rfl

end Prog

namespace Refresh

variable (R : Refresh σ κ) (D : Sessions σ κ)

/-- The setting of the session `n` while it holds the lock and nobody writes the
source. -/
def holder (n : Nat) : Discipline σ κ where
  apply := D.apply
  rely s t := D.rely n s t ∧ R.same s t ∧ (¬ R.holds n s → ¬ R.holds n t)
  inv := D.inv
  ok := D.ok

/-- The session lets go of the lock when the view is in step. -/
def LetsGo (n : Nat) (c : κ) (s : σ) : Prop :=
  R.holds n s → R.holds n (D.apply c s) ∨ R.inStep (D.apply c s)

/-- The program leaves the view in step, as long as nobody writes the source. -/
def Mends (n : Nat) (p : Prog σ κ ε Unit) (s : σ) : Prop :=
  p.Sat (R.holder D n) (R.LetsGo D n) s fun _ t => ¬ R.holds n t

/-- What is left of a call that has taken the lock is a refresh. -/
def Refreshes (n : Nat) (p : Prog σ κ ε Unit) (s : σ) : Prop :=
  p.Only R.writes ∧ (D.inv s → D.ok (R.take n) s → R.Mends D n p (D.apply (R.take n) s))

/-- What the commands do to the view, the source and the lock. -/
structure Keeps (S : System σ κ ε (Nat × ι) η) (okEnv : η → σ → Prop) (quiet : η → Prop)
    (known : Nat → κ → σ → Prop) : Prop where
  sound : S.SoundEach okEnv D known
  same_refl : ∀ s, R.same s s
  same_trans : ∀ {s t u}, R.same s t → R.same t u → R.same s u
  changes : ∀ {c s}, R.changes c → R.stable s → R.stable (S.apply c s)
  take : ∀ {n s}, R.stable s → D.ok (R.take n) s →
    R.stable (S.apply (R.take n) s) ∧ R.holds n (S.apply (R.take n) s)
  writes : ∀ {n c s}, R.writes c → D.inv s → D.ok c s → known n c s →
    (R.stable s → R.stable (S.apply c s)) ∧ R.same s (S.apply c s) ∧
      (∀ m, m ≠ n → (R.holds m (S.apply c s) ↔ R.holds m s)) ∧
      (R.holds n (S.apply c s) → R.holds n s) ∧
      (R.holds n s → ¬ R.holds n (S.apply c s) → ∀ m, ¬ R.holds m (S.apply c s))
  inStep : ∀ {n c s}, R.writes c → D.inv s → D.ok c s → known n c s →
    (∀ m, ¬ R.holds m s) → R.inStep s → R.inStep (S.apply c s)
  env : ∀ {e s}, quiet e → (R.stable s → R.stable (S.env e s)) ∧ R.same s (S.env e s) ∧
    (∀ m, R.holds m (S.env e s) ↔ R.holds m s) ∧ (R.inStep s → R.inStep (S.env e s))

section Runs

variable {R : Refresh σ κ} {D : Sessions σ κ} {S : System σ κ ε (Nat × ι) η}
  {okEnv : η → σ → Prop} {quiet : η → Prop} {known : Nat → κ → σ → Prop} {k n : Nat}
  {c : Config σ κ ε} {p : Prog σ κ ε Unit}

variable (R D) in
/-- The call `n` still owes a refresh. -/
def Owing (n : Nat) (c : Config σ κ ε) : Prop :=
  ∃ p, c.threads[n]? = some p ∧ p.Owes R n (R.Refreshes D n)

variable (R D) in
/-- The call `n` holds the lock and is about to leave the view in step. -/
def Mending (n : Nat) (c : Config σ κ ε) : Prop :=
  ∃ p, c.threads[n]? = some p ∧ R.holds n c.store ∧ R.Mends D n p c.store

variable (R) in
/-- Nobody holds the lock, and the view is in step. -/
def Settled (s : σ) : Prop := (∀ m, ¬ R.holds m s) ∧ R.inStep s

variable (R D k) in
/-- The calls from `k` on owe a refresh or are in one; those before only write the
view. -/
structure Tracked (c : Config σ κ ε) : Prop where
  stable : R.stable c.store
  phase : ∀ n p, c.threads[n]? = some p →
    p.Only R.writes ∨ k ≤ n ∧ p.Owes R n (R.Refreshes D n)

variable (R D k) in
/-- The view is in step, or a call sees to it. -/
def Fresh (c : Config σ κ ε) : Prop :=
  (∃ n, k ≤ n ∧ R.Owing D n c) ∨ R.Settled c.store ∨ ∃ n, k ≤ n ∧ R.Mending D n c

/-- The threads after a step of the call `n`. -/
theorem getElem?_set_thread {threads : List (Prog σ κ ε Unit)} {p' q : Prog σ κ ε Unit}
    (hn : threads[n]? = some p) {m : Nat} (hm : (threads.set n p')[m]? = some q) :
    m = n ∧ q = p' ∨ m ≠ n ∧ threads[m]? = some q := by
  have hlt : n < threads.length := (List.getElem?_eq_some_iff.mp hn).1
  by_cases hmn : m = n
  · subst hmn
    rw [List.getElem?_set_self hlt, Option.some.injEq] at hm
    exact .inl ⟨rfl, hm.symm⟩
  · rw [List.getElem?_set_ne (Ne.symm hmn)] at hm
    exact .inr ⟨hmn, hm⟩

/-! ## One step -/

variable {p' : Prog σ κ ε Unit} {s' : σ}

theorem Tracked.set (h : R.Tracked D k c) (hn : c.threads[n]? = some p) (hs' : R.stable s')
    (hp' : p'.Only R.writes ∨ k ≤ n ∧ p'.Owes R n (R.Refreshes D n)) :
    R.Tracked D k ⟨s', c.threads.set n p'⟩ := by
  refine ⟨hs', fun m q hm => ?_⟩
  obtain ⟨rfl, rfl⟩ | ⟨-, hm⟩ := getElem?_set_thread hn hm
  · exact hp'
  · exact h.phase m q hm

theorem getElem?_set_self (hn : c.threads[n]? = some p) :
    (c.threads.set n p')[n]? = some p' := by
  rw [List.getElem?_set_self (List.getElem?_eq_some_iff.mp hn).1]

/-- A call that does not take the step owes what it owed. -/
theorem Owing.of_ne {m : Nat} (h : R.Owing D m c) (hne : m ≠ n) :
    R.Owing D m ⟨s', c.threads.set n p'⟩ := by
  obtain ⟨q, hq, howes⟩ := h
  exact ⟨q, by rw [List.getElem?_set_ne hne.symm, hq], howes⟩

theorem Keeps.holder_lawful (hK : R.Keeps D S okEnv quiet known) (n : Nat) :
    (R.holder D n).Lawful where
  refl s := ⟨(hK.sound.lawful n).refl s, hK.same_refl s, id⟩
  trans h h' :=
    ⟨(hK.sound.lawful n).trans h.1 h'.1, hK.same_trans h.2.1 h'.2.1, h'.2.2 ∘ h.2.2⟩

/-- A call that waits can rely on what the holder of the lock can. -/
theorem Mends.wait (hK : R.Keeps D S okEnv quiet known) {s : σ} (h : R.Mends D n p s)
    (hr : (R.holder D n).rely s s') : R.Mends D n p s' :=
  Prog.Sat.wait (hK.holder_lawful n) h hr

/-- A read. -/
theorem fresh_read (hK : R.Keeps D S okEnv quiet known) (hheld : HeldEach D known c)
    (hs : R.stable c.store) {next : σ → Prog σ κ ε Unit}
    (hn : c.threads[n]? = some (.read next)) (h : R.Fresh D k c) :
    R.Fresh D k ⟨c.store, c.threads.set n (next c.store)⟩ := by
  obtain ⟨m, hk, hm⟩ | hm | ⟨m, hk, hm⟩ := h
  · by_cases hmn : m = n
    · subst hmn
      obtain ⟨q, hq, howes⟩ := hm
      cases hn.symm.trans hq
      exact .inl ⟨m, hk, _, getElem?_set_self hn, howes c.store hs⟩
    · exact .inl ⟨m, hk, hm.of_ne hmn⟩
  · exact .inr (.inl hm)
  · obtain ⟨q, hq, hholds, hmends⟩ := hm
    by_cases hmn : m = n
    · subst hmn
      cases hn.symm.trans hq
      refine .inr (.inr ⟨m, hk, _, getElem?_set_self hn, hholds, ?_⟩)
      exact hmends c.store ⟨(hK.sound.lawful m).refl _, hK.same_refl _, id⟩ hheld.inv
    · exact .inr (.inr ⟨m, hk, q, by rw [List.getElem?_set_ne (Ne.symm hmn), hq], hholds, hmends⟩)

/-- A write to the view. -/
theorem fresh_write (hK : R.Keeps D S okEnv quiet known) (hheld : HeldEach D known c) {j : κ}
    {next : σ → Prog σ κ ε Unit} (hn : c.threads[n]? = some (.commit j next))
    (hok : D.ok j c.store) (hj : R.writes j)
    (hnot : ¬ (k ≤ n ∧ (Prog.commit j next).Owes R n (R.Refreshes D n)))
    (h : R.Fresh D k c) :
    R.Fresh D k ⟨S.apply j c.store, c.threads.set n (next c.store)⟩ := by
  have hknown := hheld.known_commit hK.sound hn hok
  obtain ⟨-, hsame, hothers, hback, hrelease⟩ := hK.writes hj hheld.inv hok hknown
  have happly : D.apply = S.apply := hK.sound.apply_eq
  obtain ⟨m, hk, hm⟩ | hm | ⟨m, hk, hm⟩ := h
  · have hmn : m ≠ n := by
      rintro rfl
      obtain ⟨q, hq, howes⟩ := hm
      cases hn.symm.trans hq
      exact hnot ⟨hk, howes⟩
    exact .inl ⟨m, hk, hm.of_ne hmn⟩
  · refine .inr (.inl ⟨fun m => ?_, hK.inStep hj hheld.inv hok hknown hm.1 hm.2⟩)
    by_cases hmn : m = n
    · subst hmn
      exact fun hholds => hm.1 m (hback hholds)
    · exact fun hholds => hm.1 m ((hothers m hmn).mp hholds)
  · obtain ⟨q, hq, hholds, hmends⟩ := hm
    by_cases hmn : m = n
    · subst hmn
      cases hn.symm.trans hq
      obtain ⟨hlets, hnext⟩ := hmends c.store
        ⟨(hK.sound.lawful m).refl _, hK.same_refl _, id⟩ hheld.inv hok
      have hstore : (R.holder D m).apply j c.store = S.apply j c.store :=
        congrFun (congrFun happly j) _
      rw [hstore] at hnext
      rw [LetsGo, happly] at hlets
      by_cases hstill : R.holds m (S.apply j c.store)
      · exact .inr (.inr ⟨m, hk, _, getElem?_set_self hn, hstill, hnext⟩)
      · refine .inr (.inl ⟨hrelease hholds hstill, ?_⟩)
        exact (hlets hholds).resolve_left hstill
    · refine .inr (.inr ⟨m, hk, q, by rw [List.getElem?_set_ne (Ne.symm hmn), hq],
        (hothers m hmn).mpr hholds, hmends.wait hK ⟨?_, hsame, ?_⟩⟩)
      · exact (hK.sound.commit n j c.store hheld.inv hok hknown).2 m hmn
      · exact fun hnot hholds' => hnot ((hothers m hmn).mp hholds')

/-- A write to the source, or the taking of the lock. -/
theorem tracked_owing (hK : R.Keeps D S okEnv quiet known) (hheld : HeldEach D known c)
    (h : R.Tracked D k c) {j : κ} {next : σ → Prog σ κ ε Unit} (hk : k ≤ n)
    (hn : c.threads[n]? = some (.commit j next)) (hok : D.ok j c.store)
    (howes : (Prog.commit j next).Owes R n (R.Refreshes D n)) :
    R.Tracked D k ⟨S.apply j c.store, c.threads.set n (next c.store)⟩ ∧
      R.Fresh D k ⟨S.apply j c.store, c.threads.set n (next c.store)⟩ := by
  obtain ⟨hchanges, hnext⟩ | ⟨rfl, hnext⟩ := howes
  · refine ⟨h.set hn (hK.changes hchanges h.stable) (.inr ⟨hk, hnext c.store⟩), ?_⟩
    exact .inl ⟨n, hk, _, getElem?_set_self hn, hnext c.store⟩
  · obtain ⟨hstable, hholds⟩ := hK.take h.stable hok
    obtain ⟨hwrites, hmends⟩ := hnext c.store h.stable
    refine ⟨h.set hn hstable (.inl hwrites),
      .inr (.inr ⟨n, hk, _, getElem?_set_self hn, hholds, ?_⟩)⟩
    have happly : D.apply = S.apply := hK.sound.apply_eq
    exact happly ▸ hmends hheld.inv hok

theorem tracked_step (hK : R.Keeps D S okEnv quiet known) (hheld : HeldEach D known c)
    (h : R.Tracked D k c) (hm : Legal (ι := Nat × ι) D.ok okEnv (.step n) c) :
    R.Tracked D k (S.move (.step n) c) ∧ (R.Fresh D k c → R.Fresh D k (S.move (.step n) c)) := by
  cases hn : c.threads[n]? with
  | none =>
      have hsame : S.move (.step n) c = c := by simp only [System.move, hn]
      rw [hsame]
      exact ⟨h, id⟩
  | some p =>
      have hmove : S.move (.step n) c =
          ⟨(S.advance p c.store).2, c.threads.set n (S.advance p c.store).1⟩ := by
        simp only [System.move, hn]
      have hset : c.threads.set n p = c.threads := by
        obtain ⟨hlt, rfl⟩ := List.getElem?_eq_some_iff.mp hn
        exact List.set_getElem_self hlt
      rw [hmove]
      cases p with
      | pure a =>
          simp only [System.advance, hset]
          exact ⟨h, id⟩
      | throw e =>
          simp only [System.advance, hset]
          exact ⟨h, id⟩
      | read next =>
          refine ⟨h.set hn h.stable ?_, fresh_read hK hheld h.stable hn⟩
          obtain hwrites | ⟨hk, howes⟩ := h.phase n _ hn
          · exact .inl (hwrites c.store)
          · exact .inr ⟨hk, howes c.store h.stable⟩
      | commit j next =>
          have hok : D.ok j c.store := (System.legal_commit D.ok okEnv hn).mp hm
          by_cases howes : k ≤ n ∧ (Prog.commit j next).Owes R n (R.Refreshes D n)
          · obtain ⟨htracked, hfresh⟩ := tracked_owing hK hheld h howes.1 hn hok howes.2
            exact ⟨htracked, fun _ => hfresh⟩
          · have hwrites := (h.phase n _ hn).resolve_right howes
            have hknown := hheld.known_commit hK.sound hn hok
            have hstable := (hK.writes hwrites.1 hheld.inv hok hknown).1 h.stable
            exact ⟨h.set hn hstable (.inl (hwrites.2 c.store)),
              fresh_write hK hheld hn hok hwrites.1 howes⟩

theorem tracked_env (hK : R.Keeps D S okEnv quiet known) (hheld : HeldEach D known c)
    (h : R.Tracked D k c) {e : η} (he : quiet e) (hok : okEnv e c.store) :
    R.Tracked D k (S.move (.env e) c) ∧ (R.Fresh D k c → R.Fresh D k (S.move (.env e) c)) := by
  obtain ⟨hstable, hsame, hholds, hinStep⟩ := hK.env (s := c.store) he
  refine ⟨⟨hstable h.stable, h.phase⟩, ?_⟩
  rintro (⟨m, hk, hm⟩ | hm | ⟨m, hk, q, hq, hheldm, hmends⟩)
  · exact .inl ⟨m, hk, hm⟩
  · exact .inr (.inl ⟨fun m hholdsm => hm.1 m ((hholds m).mp hholdsm), hinStep hm.2⟩)
  · refine .inr (.inr ⟨m, hk, q, hq, (hholds m).mpr hheldm, hmends.wait hK ⟨?_, hsame, ?_⟩⟩)
    · exact (hK.sound.env e c.store hheld.inv hok).2 m
    · exact fun hnot hholdsm => hnot ((hholds m).mp hholdsm)

/-- A call that starts owes a refresh. -/
theorem tracked_call (h : R.Tracked D k c) (hk : k ≤ c.threads.length) {i : Nat × ι}
    (howes : (S.prog i).Owes R c.threads.length (R.Refreshes D c.threads.length)) :
    R.Tracked D k (S.move (.call i) c) ∧ R.Fresh D k (S.move (.call i) c) := by
  have hnew : (c.threads ++ [S.prog i])[c.threads.length]? = some (S.prog i) := by simp
  refine ⟨⟨h.stable, fun n q hq => ?_⟩, .inl ⟨_, hk, _, hnew, howes⟩⟩
  obtain ⟨-, hold⟩ | ⟨i', hi, rfl, rfl⟩ | ⟨p, hstep, -⟩ := S.thread_move hq
  · exact h.phase n q hold
  · cases hi
    exact .inr ⟨hk, howes⟩
  · cases hstep

/-! ## A run -/

/-- At every moment of a run of calls that owe a refresh the view is in step, or a
call sees to it. -/
theorem fresh_exec (hK : R.Keeps D S okEnv quiet known)
    (hheld : HeldEach D known c) (h : R.Tracked D k c) (hk : k ≤ c.threads.length)
    {ms : List (Move ι η)}
    (hcalls : ∀ i ∈ calls ms, ∀ n, (S.prog (n, i)).Owes R n (R.Refreshes D n))
    (hms : S.Respects D.ok okEnv (number c.threads.length ms) c)
    (hquiet : ∀ e, .env e ∈ ms → quiet e) (hstart : R.Fresh D k c ∨ calls ms ≠ []) :
    R.Fresh D k (S.exec (number c.threads.length ms) c) := by
  induction ms generalizing c with
  | nil => exact hstart.resolve_right fun h => h rfl
  | cons m ms ih =>
      obtain ⟨m', hnum, hcons⟩ := System.number_cons m ms c.threads.length
      have hlen := S.length_move m' c
      rw [hcons, ← hlen] at hms ⊢
      obtain ⟨hm, hms⟩ := hms
      obtain ⟨hheld', -⟩ := hheld.move hK.sound hnum hm
      have hk' : k ≤ (S.move m' c).threads.length := Nat.le_trans hk (by omega)
      have hquiet' : ∀ e, .env e ∈ ms → quiet e := fun e he => hquiet e (List.mem_cons_of_mem m he)
      cases m with
      | call i =>
          cases hnum
          obtain ⟨htracked, hfresh⟩ := tracked_call h hk (hcalls i List.mem_cons_self _)
          refine ih hheld' htracked hk' (fun i hi => ?_) hms hquiet' (.inl hfresh)
          exact hcalls i (List.mem_cons_of_mem _ hi)
      | step n =>
          cases hnum
          obtain ⟨htracked, hfresh⟩ := tracked_step hK hheld h hm
          exact ih hheld' htracked hk' hcalls hms hquiet' (hstart.imp_left hfresh)
      | env e =>
          cases hnum
          obtain ⟨htracked, hfresh⟩ := tracked_env hK hheld h (hquiet e List.mem_cons_self) hm
          exact ih hheld' htracked hk' hcalls hms hquiet' (hstart.imp_left hfresh)

/-- **The rule**: once the calls have returned, the view is in step. -/
theorem Fresh.inStep (hK : R.Keeps D S okEnv quiet known) (hheld : HeldEach D known c)
    (h : R.Fresh D k c)
    (hreturned : ∀ p ∈ c.threads.drop k, p.Returned) : R.inStep c.store := by
  have hmem {n : Nat} {p : Prog σ κ ε Unit} (hk : k ≤ n) (hn : c.threads[n]? = some p) :
      p ∈ c.threads.drop k := by
    refine List.mem_of_getElem? (i := n - k) ?_
    rw [List.getElem?_drop, Nat.add_sub_cancel' hk, hn]
  obtain ⟨m, hk, q, hq, howes⟩ | hm | ⟨m, hk, q, hq, hholds, hmends⟩ := h
  · have hq' := hreturned q (hmem hk hq)
    cases q with
    | pure a => exact howes.elim
    | throw | read | commit => exact hq'.elim
  · exact hm.2
  · have hq' := hreturned q (hmem hk hq)
    cases q with
    | pure a =>
        exact absurd hholds
          (hmends c.store ⟨(hK.sound.lawful m).refl _, hK.same_refl _, id⟩ hheld.inv)
    | throw | read | commit => exact hq'.elim

end Runs

end Refresh
end Interleave
