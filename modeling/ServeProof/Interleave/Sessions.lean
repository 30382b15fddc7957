import Mathlib.Data.List.Induction
import ServeProof.Interleave.Eval

/-!
# ServeProof.Interleave.Sessions

Calls that know who they are: each call runs as a *session*, whose number is
its place among the calls of the run (`number`).  A session can hold a lock
in the store under its number, and rely on what the others leave alone as long
as it does: the rely condition of a discipline is a condition for each session.

* `SoundEach.exec` -- the rule: what each session knows at its own commits
  holds along every admitted run;
* `session_follows` -- a session goes on in the stores it sees;
* `Made` -- a run makes a commit.
-/

namespace Interleave

variable {σ κ ε ι η : Type}

/-! ## Sessions -/

/-- Number the calls of a run, from `k` on. -/
def number : Nat → List (Move ι η) → List (Move (Nat × ι) η)
  | _, [] => []
  | k, .call i :: ms => .call (k, i) :: number (k + 1) ms
  | k, .step n :: ms => .step n :: number k ms
  | k, .env e :: ms => .env e :: number k ms

/-- The calls of a run, in order. -/
def calls : List (Move ι η) → List ι
  | [] => []
  | .call i :: ms => i :: calls ms
  | .step _ :: ms => calls ms
  | .env _ :: ms => calls ms

theorem number_append (ms ms' : List (Move ι η)) (k : Nat) :
    number k (ms ++ ms') = number k ms ++ number (k + (calls ms).length) ms' := by
  induction ms generalizing k with
  | nil => simp [number, calls]
  | cons m ms ih =>
      cases m with
      | call i => simp [number, calls, ih, Nat.add_assoc, Nat.add_comm 1]
      | step n => simp [number, calls, ih]
      | env e => simp [number, calls, ih]

theorem calls_append (ms ms' : List (Move ι η)) : calls (ms ++ ms') = calls ms ++ calls ms' := by
  induction ms with
  | nil => rfl
  | cons m ms ih => cases m <;> simp [calls, ih]

/-- A discipline for each session: they share the store, its invariant and
what is admitted. -/
structure Sessions (σ κ : Type) where
  apply : κ → σ → σ
  rely : Nat → σ → σ → Prop
  inv : σ → Prop
  ok : κ → σ → Prop

/-- The sessions with a further invariant and a further condition. -/
def Sessions.refine (D : Sessions σ κ) (inv : σ → Prop) (ok : κ → σ → Prop) : Sessions σ κ where
  apply := D.apply
  rely := D.rely
  inv s := D.inv s ∧ inv s
  ok c s := D.ok c s ∧ ok c s

/-- The discipline of the session `n`. -/
def Sessions.of (D : Sessions σ κ) (n : Nat) : Discipline σ κ where
  apply := D.apply
  rely := D.rely n
  inv := D.inv
  ok := D.ok

namespace System

variable (S : System σ κ ε (Nat × ι) η)

/-- Every session keeps the invariant and stays within what the others rely
on, and has at its commits the knowledge it should. -/
structure SoundEach (okEnv : η → σ → Prop) (D : Sessions σ κ) (known : Nat → κ → σ → Prop) :
    Prop where
  lawful : ∀ n, (D.of n).Lawful
  commit : ∀ n c s, D.inv s → D.ok c s → known n c s →
    D.inv (S.apply c s) ∧ ∀ m, m ≠ n → D.rely m s (S.apply c s)
  env : ∀ e s, D.inv s → okEnv e s → D.inv (S.env e s) ∧ ∀ m, D.rely m s (S.env e s)
  apply_eq : D.apply = S.apply
  call : ∀ n i s, D.inv s → (S.prog (n, i)).Sat (D.of n) (known n) s fun _ _ => True

structure HeldEach (D : Sessions σ κ) (known : Nat → κ → σ → Prop) (c : Config σ κ ε) : Prop where
  inv : D.inv c.store
  threads : ∀ n (p : Prog σ κ ε Unit), c.threads[n]? = some p →
    p.Sat (D.of n) (known n) c.store fun _ _ => True

variable {S} {okEnv : η → σ → Prop} {D : Sessions σ κ} {known : Nat → κ → σ → Prop}

theorem heldEach_start {s : σ} (hs : D.inv s) :
    HeldEach D known (Config.start s : Config σ κ ε) :=
  ⟨hs, fun _ _ hp => by cases hp⟩

/-- A move changes the number of calls only when it is one. -/
theorem length_move (m : Move (Nat × ι) η) (c : Config σ κ ε) :
    (S.move m c).threads.length = c.threads.length + (calls [m]).length := by
  cases m with
  | call i => simp [System.move, calls]
  | env e => simp [System.move, calls]
  | step n =>
      simp only [System.move, calls, List.length_nil, Nat.add_zero]
      cases c.threads[n]? <;> simp

/-- A step of the session `n`, for itself and for the others. -/
theorem HeldEach.advance (hS : S.SoundEach okEnv D known) {c : Config σ κ ε}
    (h : HeldEach D known c) {n : Nat} {p : Prog σ κ ε Unit}
    (hp : p.Sat (D.of n) (known n) c.store fun _ _ => True)
    (hok : ∀ k next, p = .commit k next → D.ok k c.store) :
    (∀ m, m ≠ n → D.rely m c.store (S.advance p c.store).2) ∧ D.inv (S.advance p c.store).2 ∧
      (S.advance p c.store).1.Sat (D.of n) (known n) (S.advance p c.store).2 fun _ _ => True := by
  have hrefl (m : Nat) : D.rely m c.store c.store := (hS.lawful m).refl c.store
  cases p with
  | pure a => exact ⟨fun m _ => hrefl m, h.inv, hp⟩
  | throw e => exact ⟨fun m _ => hrefl m, h.inv, hp⟩
  | read next => exact ⟨fun m _ => hrefl m, h.inv, hp _ (hrefl n) h.inv⟩
  | commit k next =>
      have hk := hok k next rfl
      obtain ⟨hknown, hn⟩ := hp _ (hrefl n) h.inv hk
      have happly : (D.of n).apply = S.apply := hS.apply_eq
      rw [happly] at hn
      obtain ⟨hi, hr⟩ := hS.commit n k _ h.inv hk hknown
      exact ⟨hr, hi, hn⟩

/-- One admitted move keeps the configuration held; a session that does not
make it can rely on it. -/
theorem HeldEach.move (hS : S.SoundEach okEnv D known) {c : Config σ κ ε}
    (h : HeldEach D known c) {m : Move ι η} {m' : Move (Nat × ι) η}
    (hnum : number c.threads.length [m] = [m']) (hm : Legal D.ok okEnv m' c) :
    HeldEach D known (S.move m' c) ∧
      ∀ n, c.threads.length ≤ n → D.rely n c.store (S.move m' c).store := by
  cases m with
  | call i =>
      cases hnum
      refine ⟨⟨h.inv, fun n p hp => ?_⟩, fun n _ => (hS.lawful n).refl _⟩
      obtain ⟨-, hold⟩ | ⟨i', hi, rfl, rfl⟩ | ⟨p', hstep, -⟩ := S.thread_move hp
      · exact h.threads n p hold
      · cases hi
        exact hS.call _ i _ h.inv
      · cases hstep
  | env e =>
      cases hnum
      obtain ⟨hi, hr⟩ := hS.env e _ h.inv hm
      exact ⟨⟨hi, fun n p hp => (h.threads n p hp).wait (hS.lawful n) (hr n)⟩, fun n _ => hr n⟩
  | step n =>
      cases hnum
      simp only [System.move]
      cases hn : c.threads[n]? with
      | none => exact ⟨h, fun n _ => (hS.lawful n).refl _⟩
      | some p =>
          have hlt : n < c.threads.length := (List.getElem?_eq_some_iff.mp hn).1
          have hok : ∀ k next, p = .commit k next → D.ok k c.store := by
            intro k next hpk
            simpa [Legal, hn, hpk] using hm
          obtain ⟨hr, hi, hsat⟩ := h.advance hS (h.threads n p hn) hok
          refine ⟨⟨hi, fun k q hq => ?_⟩, fun k hk => hr k (by omega)⟩
          by_cases hkn : k = n
          · subst hkn
            rw [List.getElem?_set_self hlt, Option.some.injEq] at hq
            exact hq ▸ hsat
          · rw [List.getElem?_set_ne (Ne.symm hkn)] at hq
            exact (h.threads k q hq).wait (hS.lawful k) (hr k hkn)

theorem number_cons (m : Move ι η) (ms : List (Move ι η)) (k : Nat) :
    ∃ m', number k [m] = [m'] ∧
      number k (m :: ms) = m' :: number (k + (calls [m']).length) ms := by
  cases m with
  | call i => exact ⟨.call (k, i), rfl, rfl⟩
  | step n => exact ⟨.step n, rfl, rfl⟩
  | env e => exact ⟨.env e, rfl, rfl⟩

/-- **The rule**: along every admitted run the invariant holds, every session
knows at its commits what it should, and the run as a whole stays within what
a session that is not in it can rely on. -/
theorem SoundEach.exec (hS : S.SoundEach okEnv D known) {c : Config σ κ ε}
    (h : HeldEach D known c) {ms : List (Move ι η)}
    (hms : S.Respects D.ok okEnv (number c.threads.length ms) c) :
    HeldEach D known (S.exec (number c.threads.length ms) c) ∧
      ∀ n, (S.exec (number c.threads.length ms) c).threads.length ≤ n →
        c.threads.length ≤ n ∧
          D.rely n c.store (S.exec (number c.threads.length ms) c).store := by
  induction ms generalizing c with
  | nil => exact ⟨h, fun n hn => ⟨hn, (hS.lawful n).refl _⟩⟩
  | cons m ms ih =>
      obtain ⟨m', hnum, hcons⟩ := number_cons m ms c.threads.length
      rw [hcons] at hms ⊢
      obtain ⟨hm, hms⟩ := hms
      obtain ⟨h', hr⟩ := h.move hS hnum hm
      have hlen := S.length_move m' c
      rw [← hlen] at hms ⊢
      obtain ⟨h'', hr'⟩ := ih h' hms
      refine ⟨h'', fun n hn => ?_⟩
      obtain ⟨hle, hrn⟩ := hr' n hn
      have hcn : c.threads.length ≤ n := by omega
      exact ⟨hcn, (hS.lawful n).trans (hr n hcn) hrn⟩

/-- A further invariant, of the runs that are admitted by a further condition. -/
theorem SoundEach.refine (hS : S.SoundEach okEnv D known) {inv : σ → Prop} {ok : κ → σ → Prop}
    (hcommit : ∀ n c s, D.inv s → inv s → D.ok c s → ok c s → known n c s → inv (S.apply c s))
    (henv : ∀ e s, D.inv s → inv s → okEnv e s → inv (S.env e s)) :
    S.SoundEach okEnv (D.refine inv ok) known where
  lawful n := ⟨(hS.lawful n).refl, (hS.lawful n).trans⟩
  commit n c s hi hok hk := by
    obtain ⟨hinv, hr⟩ := hS.commit n c s hi.1 hok.1 hk
    exact ⟨⟨hinv, hcommit n c s hi.1 hi.2 hok.1 hok.2 hk⟩, hr⟩
  env e s hi hok := by
    obtain ⟨hinv, hr⟩ := hS.env e s hi.1 hok
    exact ⟨⟨hinv, henv e s hi.1 hi.2 hok⟩, hr⟩
  apply_eq := hS.apply_eq
  call n i s hi := by
    refine Prog.Sat.restrict (D := D.of n) ((D.refine inv ok).of n) rfl (fun _ _ h => h)
      (fun _ h => ?_) (fun _ _ h => ?_) (fun _ _ _ h => h) (hS.call n i s hi.1)
    · exact h.1
    · exact h.1

/-! ## Sessions, in a run from the start -/

variable (S) in
/-- The configuration after a run of numbered calls. -/
def runFrom (s : σ) (ms : List (Move ι η)) : Config σ κ ε := S.exec (number 0 ms) (Config.start s)

theorem length_exec_number (ms : List (Move ι η)) (c : Config σ κ ε) :
    (S.exec (number c.threads.length ms) c).threads.length =
      c.threads.length + (calls ms).length := by
  induction ms generalizing c with
  | nil => simp [number, calls]
  | cons m ms ih =>
      obtain ⟨m', hnum, hcons⟩ := number_cons m ms c.threads.length
      have hlen := S.length_move m' c
      rw [hcons, exec_cons, ← hlen, ih, hlen]
      cases m with
      | call i => cases hnum; simp [calls]; omega
      | step n => cases hnum; simp [calls]
      | env e => cases hnum; simp [calls]

theorem runFrom_append (s : σ) (ms ms' : List (Move ι η)) :
    S.runFrom s (ms ++ ms') =
      S.exec (number (S.runFrom s ms).threads.length ms') (S.runFrom s ms) := by
  have hlen := S.length_exec_number ms (Config.start s)
  have hzero : (Config.start s : Config σ κ ε).threads.length = 0 := rfl
  rw [hzero, Nat.zero_add] at hlen
  rw [runFrom, number_append, exec_append, Nat.zero_add]
  rw [runFrom, hlen]

/-- The store after a step that is a commit. -/
theorem runFrom_commit {s : σ} {ms : List (Move ι η)} {n : Nat} {k : κ}
    {next : σ → Prog σ κ ε Unit} (hn : (S.runFrom s ms).threads[n]? = some (.commit k next)) :
    (S.runFrom s (ms ++ [.step n])).store = S.apply k (S.runFrom s ms).store := by
  rw [runFrom_append]
  exact S.move_commit hn

/-- The last move of a run leaves the store, or is a move of the environment, or a
commit. -/
theorem store_runFrom_snoc (s : σ) (ms : List (Move ι η)) (m : Move ι η) :
    (S.runFrom s (ms ++ [m])).store = (S.runFrom s ms).store ∨
      (∃ e, m = .env e ∧ (S.runFrom s (ms ++ [m])).store = S.env e (S.runFrom s ms).store) ∨
      ∃ n k next, m = .step n ∧ (S.runFrom s ms).threads[n]? = some (.commit k next) ∧
        (S.runFrom s (ms ++ [m])).store = S.apply k (S.runFrom s ms).store := by
  rw [runFrom_append]
  cases m with
  | call i => exact .inl rfl
  | env e => exact .inr (.inl ⟨e, rfl, rfl⟩)
  | step n =>
      obtain hsame | ⟨e, he, -⟩ | ⟨n', k, next, hn', hk, hstore⟩ :=
        S.store_move (.step n) (S.runFrom s ms)
      · exact .inl hsame
      · cases he
      · cases hn'
        exact .inr (.inr ⟨n, k, next, rfl, hk, hstore⟩)

theorem SoundEach.held (hS : S.SoundEach okEnv D known) {s : σ} (hs : D.inv s)
    {ms : List (Move ι η)} (hms : S.Respects D.ok okEnv (number 0 ms) (Config.start s)) :
    HeldEach D known (S.runFrom s ms) :=
  (hS.exec (c := Config.start s) (heldEach_start hs) hms).1

/-- What a session knows when its next step is a commit. -/
theorem HeldEach.known_commit (hS : S.SoundEach okEnv D known) {c : Config σ κ ε}
    (h : HeldEach D known c) {n : Nat} {k : κ} {next : σ → Prog σ κ ε Unit}
    (hn : c.threads[n]? = some (.commit k next)) (hok : D.ok k c.store) : known n k c.store :=
  (h.threads n _ hn c.store ((hS.lawful n).refl c.store) h.inv hok).1

/-- What every commit and every move of the environment does to the store, a
run does. -/
theorem SoundEach.relates (hS : S.SoundEach okEnv D known) {R : σ → σ → Prop}
    (hrefl : ∀ s, R s s) (htrans : ∀ s t u, R s t → R t u → R s u)
    (hcommit : ∀ n k s, D.inv s → D.ok k s → known n k s → R s (S.apply k s))
    (henv : ∀ e s, D.inv s → okEnv e s → R s (S.env e s)) {c : Config σ κ ε}
    (h : HeldEach D known c) {ms : List (Move ι η)}
    (hms : S.Respects D.ok okEnv (number c.threads.length ms) c) :
    R c.store (S.exec (number c.threads.length ms) c).store := by
  induction ms generalizing c with
  | nil => exact hrefl c.store
  | cons m ms ih =>
      obtain ⟨m', hnum, hcons⟩ := number_cons m ms c.threads.length
      rw [hcons] at hms ⊢
      obtain ⟨hm, hms⟩ := hms
      obtain ⟨h', -⟩ := h.move hS hnum hm
      have hmove : R c.store (S.move m' c).store := by
        obtain hsame | ⟨e, rfl, he⟩ | ⟨n, k, next, rfl, hn, hk⟩ := S.store_move m' c
        · rw [hsame]
          exact hrefl c.store
        · rw [he]
          exact henv e c.store h.inv hm
        · have hok : D.ok k c.store := by simpa [Legal, hn] using hm
          rw [hk]
          exact hcommit n k c.store h.inv hok (h.known_commit hS hn hok)
      have hlen := S.length_move m' c
      rw [← hlen] at hms ⊢
      exact htrans _ _ _ hmove (ih h' hms)

/-- What holds between two stores of one run, an earlier and a later. -/
theorem SoundEach.relates_runFrom (hS : S.SoundEach okEnv D known) {R : σ → σ → Prop}
    (hrefl : ∀ s, R s s) (htrans : ∀ s t u, R s t → R t u → R s u)
    (hcommit : ∀ n k s, D.inv s → D.ok k s → known n k s → R s (S.apply k s))
    (henv : ∀ e s, D.inv s → okEnv e s → R s (S.env e s)) {s : σ} (hs : D.inv s)
    {ms ms' : List (Move ι η)}
    (hms : S.Respects D.ok okEnv (number 0 (ms ++ ms')) (Config.start s)) :
    R (S.runFrom s ms).store (S.runFrom s (ms ++ ms')).store := by
  rw [number_append, respects_append, Nat.zero_add] at hms
  have hlen := S.length_exec_number ms (Config.start s)
  have hzero : (Config.start s : Config σ κ ε).threads.length = 0 := rfl
  rw [hzero, Nat.zero_add] at hlen
  have hheld := hS.held hs hms.1
  have hrest := hms.2
  rw [← hlen] at hrest
  rw [runFrom_append]
  exact hS.relates hrefl htrans hcommit henv hheld hrest

/-! ## What a session has read -/

variable (S) in
/-- The stores in which the session `n` takes its steps. -/
def seen (n : Nat) : List (Move (Nat × ι) η) → Config σ κ ε → List σ
  | [], _ => []
  | .call i :: ms, c => seen n ms (S.move (.call i) c)
  | .env e :: ms, c => seen n ms (S.move (.env e) c)
  | .step k :: ms, c =>
      if k = n ∧ n < c.threads.length then c.store :: seen n ms (S.move (.step k) c)
      else seen n ms (S.move (.step k) c)

end System

/-- What is left of a program that has taken one step in each of these stores. -/
def Prog.follow {α : Type} : Prog σ κ ε α → List σ → Prog σ κ ε α
  | p, [] => p
  | .read next, s :: l => (next s).follow l
  | .commit _ next, s :: l => (next s).follow l
  | .pure a, _ :: l => (Prog.pure a).follow l
  | .throw e, _ :: l => (Prog.throw e).follow l

namespace System

variable {S : System σ κ ε (Nat × ι) η}

theorem advance_fst (p : Prog σ κ ε Unit) (s : σ) : (S.advance p s).1 = p.follow [s] := by
  cases p <;> simp [advance, Prog.follow]

theorem follow_cons {α : Type} (p : Prog σ κ ε α) (s : σ) (l : List σ) :
    p.follow (s :: l) = (p.follow [s]).follow l := by
  cases p <;> simp [Prog.follow]

/-- A session in progress goes on in the stores it sees. -/
theorem thread_follows {n : Nat} {p : Prog σ κ ε Unit} (ms : List (Move (Nat × ι) η))
    {c : Config σ κ ε} (hp : c.threads[n]? = some p) :
    (S.exec ms c).threads[n]? = some (p.follow (S.seen n ms c)) := by
  induction ms generalizing c p with
  | nil => simp [seen, Prog.follow, hp]
  | cons m ms ih =>
      have hlt : n < c.threads.length := (List.getElem?_eq_some_iff.mp hp).1
      cases m with
      | call i =>
          refine ih ?_
          simp only [System.move]
          rw [List.getElem?_append_left hlt, hp]
      | env e => exact ih hp
      | step k =>
          by_cases hk : k = n
          · subst hk
            have hmove : (S.move (.step k) c).threads[k]? = some (p.follow [c.store]) := by
              simp only [System.move, hp, List.getElem?_set_self hlt, advance_fst]
            rw [seen, if_pos ⟨rfl, hlt⟩, follow_cons]
            exact ih hmove
          · rw [seen, if_neg fun h => hk h.1]
            refine ih ?_
            simp only [System.move]
            cases c.threads[k]? with
            | none => exact hp
            | some q => simpa [List.getElem?_set_ne hk] using hp

variable (S) in
/-- The stores in which the call `n` of a run takes its steps. -/
def seenBy (s : σ) (ms : List (Move ι η)) (n : Nat) : List σ :=
  S.seen n (number 0 ms) (Config.start s)

/-- Every session in progress is a call of the run, and has gone on in the
stores it has seen. -/
theorem session_follows {s : σ} {ms : List (Move ι η)} {n : Nat} {q : Prog σ κ ε Unit}
    (hq : (S.runFrom s ms).threads[n]? = some q) :
    ∃ i, (calls ms)[n]? = some i ∧ q = (S.prog (n, i)).follow (S.seenBy s ms n) := by
  suffices hgen : ∀ (c : Config σ κ ε) (k : Nat), c.threads.length = k → k ≤ n →
      (S.exec (number k ms) c).threads[n]? = some q →
      ∃ i, (calls ms)[n - k]? = some i ∧ q = (S.prog (n, i)).follow (S.seen n (number k ms) c) from
    hgen (Config.start s) 0 rfl (Nat.zero_le n) hq
  clear hq
  induction ms with
  | nil =>
      intro c k hk hkn hq
      have hlt := (List.getElem?_eq_some_iff.mp hq).1
      simp only [number, exec_nil] at hlt
      omega
  | cons m ms ih =>
      intro c k hk hkn hq
      cases m with
      | env e => exact ih (S.move (.env e) c) k hk hkn hq
      | step j =>
          have hlen := S.length_move (.step j) c
          simp only [calls, List.length_nil, Nat.add_zero] at hlen
          obtain ⟨i, hi, he⟩ := ih (S.move (.step j) c) k (hlen.trans hk) hkn hq
          refine ⟨i, hi, ?_⟩
          rw [number, seen, if_neg (by omega)]
          exact he
      | call i =>
          have hlen := S.length_move (.call (k, i)) c
          simp only [calls, List.length_cons, List.length_nil] at hlen
          by_cases hn : n = k
          · have hp : (S.move (.call (k, i)) c).threads[n]? = some (S.prog (k, i)) := by
              simp [System.move, hn, ← hk]
            have hqe : (S.exec (number (k + 1) ms) (S.move (.call (k, i)) c)).threads[n]? =
                some q := hq
            rw [thread_follows (number (k + 1) ms) hp, Option.some.injEq] at hqe
            refine ⟨i, by simp [calls, hn], ?_⟩
            rw [← hqe, hn]
            rfl
          · have hkn' : k + 1 ≤ n := by omega
            obtain ⟨i', hi, he⟩ := ih (S.move (.call (k, i)) c) (k + 1) (by omega) hkn' hq
            refine ⟨i', ?_, he⟩
            have hsub : n - k = n - (k + 1) + 1 := by omega
            rw [calls, hsub, List.getElem?_cons_succ]
            exact hi

/-- What a call sees at a step is the store after a part of the run, in which it
has seen what it saw before. -/
theorem seenBy_split {s u : σ} {ms : List (Move ι η)} {n : Nat} {l₁ l₂ : List σ}
    (h : S.seenBy s ms n = l₁ ++ u :: l₂) :
    ∃ ms₁ ms₂, ms = ms₁ ++ .step n :: ms₂ ∧ u = (S.runFrom s ms₁).store ∧
      S.seenBy s ms₁ n = l₁ ∧ n < (S.runFrom s ms₁).threads.length := by
  suffices hgen : ∀ (k : Nat) (c : Config σ κ ε) (l₁ : List σ),
      S.seen n (number k ms) c = l₁ ++ u :: l₂ →
      ∃ ms₁ ms₂, ms = ms₁ ++ .step n :: ms₂ ∧ u = (S.exec (number k ms₁) c).store ∧
        S.seen n (number k ms₁) c = l₁ ∧ n < (S.exec (number k ms₁) c).threads.length from
    hgen 0 _ l₁ h
  clear h
  induction ms with
  | nil => exact fun k c l₁ h => by cases l₁ <;> cases h
  | cons m ms ih =>
      intro k c l₁ h
      -- the move is none of its steps: it is seen later
      have hlater {k' : Nat} {m' : Move (Nat × ι) η} {l : List σ}
          (hnum : ∀ ms, number k (m :: ms) = m' :: number k' ms)
          (hseen : ∀ ms, S.seen n (m' :: number k' ms) c =
            l ++ S.seen n (number k' ms) (S.move m' c)) {l' : List σ} (hl : l₁ = l ++ l')
          (h : S.seen n (number k' ms) (S.move m' c) = l' ++ u :: l₂) :
          ∃ ms₁ ms₂, m :: ms = ms₁ ++ .step n :: ms₂ ∧ u = (S.exec (number k ms₁) c).store ∧
            S.seen n (number k ms₁) c = l₁ ∧ n < (S.exec (number k ms₁) c).threads.length := by
        obtain ⟨ms₁, ms₂, rfl, hu, hl', hlt⟩ := ih _ _ l' h
        refine ⟨m :: ms₁, ms₂, rfl, ?_, ?_, ?_⟩
        · rw [hnum, exec_cons]
          exact hu
        · rw [hnum, hseen, hl', hl]
        · rw [hnum, exec_cons]
          exact hlt
      cases m with
      | call i => exact hlater (fun _ => rfl) (fun _ => (List.nil_append _).symm) rfl h
      | env e => exact hlater (fun _ => rfl) (fun _ => (List.nil_append _).symm) rfl h
      | step j =>
          rw [number, seen] at h
          split at h
          · next hj =>
            cases l₁ with
            | nil =>
                refine ⟨[], ms, by rw [hj.1]; rfl, ?_, rfl, hj.2⟩
                exact ((List.cons.inj h).1).symm
            | cons v l₁ =>
                obtain ⟨rfl, htail⟩ := List.cons.inj h
                refine hlater (fun _ => rfl) (l := [c.store]) (fun ms => ?_) rfl htail
                rw [seen, if_pos hj]
                rfl
          · next hj =>
            refine hlater (fun _ => rfl) (l := []) (fun ms => ?_) rfl h
            rw [seen, if_neg hj]
            rfl

theorem seen_append (ms ms' : List (Move (Nat × ι) η)) (n : Nat) (c : Config σ κ ε) :
    S.seen n (ms ++ ms') c = S.seen n ms c ++ S.seen n ms' (S.exec ms c) := by
  induction ms generalizing c with
  | nil => rfl
  | cons m ms ih =>
      cases m with
      | call i => exact ih _
      | env e => exact ih _
      | step k =>
          rw [List.cons_append, seen, seen, ih, exec_cons]
          split <;> rfl

/-- A call sees more as the run goes on. -/
theorem seenBy_append (s : σ) (ms ms' : List (Move ι η)) (n : Nat) :
    ∃ l, S.seenBy s (ms ++ ms') n = S.seenBy s ms n ++ l := by
  rw [seenBy, number_append, seen_append]
  exact ⟨_, rfl⟩

/-- A call in progress takes its step in the store as it is. -/
theorem seenBy_step {s : σ} {ms : List (Move ι η)} {n : Nat}
    (hn : n < (S.runFrom s ms).threads.length) (ms' : List (Move ι η)) :
    ∃ l, S.seenBy s (ms ++ .step n :: ms') n =
      S.seenBy s ms n ++ (S.runFrom s ms).store :: l := by
  have hn' : n < (S.exec (number 0 ms) (Config.start s)).threads.length := hn
  rw [seenBy, number_append, seen_append, number, seen, if_pos ⟨rfl, hn'⟩]
  exact ⟨_, rfl⟩

theorem mem_seenBy {s t : σ} {ms : List (Move ι η)} {n : Nat} (h : t ∈ S.seenBy s ms n) :
    ∃ ms₁ ms₂, ms = ms₁ ++ .step n :: ms₂ ∧ t = (S.runFrom s ms₁).store := by
  obtain ⟨l₁, l₂, hl⟩ := List.append_of_mem h
  obtain ⟨ms₁, ms₂, hms, ht, -⟩ := seenBy_split hl
  exact ⟨ms₁, ms₂, hms, ht⟩

/-- What a call sees is in the order that every move keeps. -/
theorem seen_pairwise {R : σ → σ → Prop} (hrefl : ∀ s, R s s)
    (htrans : ∀ s t u, R s t → R t u → R s u) (hcommit : ∀ k s, R s (S.apply k s))
    (henv : ∀ e s, R s (S.env e s)) {n : Nat} (ms : List (Move (Nat × ι) η))
    (c : Config σ κ ε) :
    (S.seen n ms c).Pairwise R ∧ ∀ t ∈ S.seen n ms c, R c.store t := by
  induction ms generalizing c with
  | nil => exact ⟨List.Pairwise.nil, fun _ h => absurd h List.not_mem_nil⟩
  | cons m ms ih =>
      have hmove : R c.store (S.move m c).store := by
        obtain hsame | ⟨e, -, he⟩ | ⟨n, k, next, -, -, hk⟩ := S.store_move m c
        · rw [hsame]
          exact hrefl c.store
        · rw [he]
          exact henv e c.store
        · rw [hk]
          exact hcommit k c.store
      obtain ⟨hpair, hall⟩ := ih (S.move m c)
      have hlater : ∀ t ∈ S.seen n ms (S.move m c), R c.store t := fun t ht =>
        htrans _ _ _ hmove (hall t ht)
      cases m with
      | call i => exact ⟨hpair, hlater⟩
      | env e => exact ⟨hpair, hlater⟩
      | step k =>
          rw [seen]
          split
          · refine ⟨List.pairwise_cons.mpr ⟨hlater, hpair⟩, fun t ht => ?_⟩
            cases List.mem_cons.mp ht with
            | inl h => exact h ▸ hrefl c.store
            | inr h => exact hlater t h
          · exact ⟨hpair, hlater⟩

/-! ## The commits of a run -/

variable (S) in
/-- The run makes the commit `k`, as session `n`, in the store `t`. -/
def Made (ms : List (Move ι η)) (s : σ) (n : Nat) (k : κ) (t : σ) : Prop :=
  ∃ ms₁ ms₂ next, ms = ms₁ ++ .step n :: ms₂ ∧
    (S.runFrom s ms₁).threads[n]? = some (.commit k next) ∧ t = (S.runFrom s ms₁).store

theorem Made.append {ms : List (Move ι η)} {s t : σ} {n : Nat} {k : κ}
    (h : S.Made ms s n k t) (ms' : List (Move ι η)) : S.Made (ms ++ ms') s n k t := by
  obtain ⟨ms₁, ms₂, next, rfl, hn, ht⟩ := h
  exact ⟨ms₁, ms₂ ++ ms', next, by simp, hn, ht⟩

/-- What every move keeps holds after a run. -/
theorem exec_keeps {Q : σ → Prop} (hcommit : ∀ k s, Q s → Q (S.apply k s))
    (henv : ∀ e s, Q s → Q (S.env e s)) (ms : List (Move (Nat × ι) η)) {c : Config σ κ ε}
    (h : Q c.store) : Q (S.exec ms c).store := by
  induction ms generalizing c with
  | nil => exact h
  | cons m ms ih =>
      refine ih ?_
      obtain hsame | ⟨e, -, he⟩ | ⟨n, k, next, -, -, hk⟩ := S.store_move m c
      · rw [hsame]
        exact h
      · rw [he]
        exact henv e _ h
      · rw [hk]
        exact hcommit k _ h

/-- A commit that brings about what every move keeps is in the part of the run
before it is there. -/
theorem Made.before {Q : σ → Prop} (hcommit : ∀ k s, Q s → Q (S.apply k s))
    (henv : ∀ e s, Q s → Q (S.env e s)) {ms ms' : List (Move ι η)} {s t : σ} {n : Nat} {k : κ}
    (h : S.Made (ms ++ ms') s n k t) (ht : ¬ Q t) (hQ : Q (S.runFrom s ms).store) :
    S.Made ms s n k t := by
  obtain ⟨ms₁, ms₂, next, hms, hn, rfl⟩ := h
  obtain ⟨as, hs, hs'⟩ | ⟨as, hs, hs'⟩ := List.append_eq_append_iff.mp hms
  · refine absurd ?_ ht
    rw [hs, runFrom_append]
    exact exec_keeps hcommit henv _ hQ
  · cases as with
    | nil =>
        refine absurd ?_ ht
        rw [List.append_nil] at hs
        exact hs ▸ hQ
    | cons m as =>
        obtain ⟨rfl, -⟩ := List.cons.inj hs'
        exact ⟨ms₁, as, next, hs, hn, rfl⟩

/-- Only one commit of a run brings about what every move keeps. -/
theorem Made.unique {Q : σ → Prop} (hcommit : ∀ k s, Q s → Q (S.apply k s))
    (henv : ∀ e s, Q s → Q (S.env e s)) {ms : List (Move ι η)} {s t t' : σ} {n n' : Nat}
    {k k' : κ} (h : S.Made ms s n k t) (h' : S.Made ms s n' k' t') (ht : ¬ Q t) (ht' : ¬ Q t')
    (hk : Q (S.apply k t)) (hk' : Q (S.apply k' t')) : n = n' := by
  obtain ⟨ms₁, ms₂, next, rfl, hn, rfl⟩ := h
  have hafter : Q (S.runFrom s (ms₁ ++ [.step n])).store := by
    rw [runFrom_commit hn]
    exact hk
  have hsplit : ms₁ ++ .step n :: ms₂ = (ms₁ ++ [.step n]) ++ ms₂ := by simp
  rw [hsplit] at h'
  obtain ⟨ms₁', ms₂', next', hms, hn', rfl⟩ := h'.before hcommit henv ht' hafter
  -- the other commit is no later, and would be there before this one
  obtain ⟨as, hs, hs'⟩ | ⟨as, hs, hs'⟩ := List.append_eq_append_iff.mp hms
  · cases as with
    | nil =>
        obtain ⟨h, -⟩ := List.cons.inj hs'
        cases h
        rfl
    | cons m as =>
        have hnil := (List.cons.inj hs').2
        simp at hnil
  · cases as with
    | nil =>
        obtain ⟨h, -⟩ := List.cons.inj hs'
        cases h
        rfl
    | cons m as =>
        obtain ⟨rfl, -⟩ := List.cons.inj hs'
        refine absurd ?_ ht
        have hsplit' : ms₁ = (ms₁' ++ [.step n']) ++ as := by rw [hs]; simp
        rw [hsplit', runFrom_append]
        refine exec_keeps hcommit henv _ ?_
        rw [runFrom_commit hn']
        exact hk'

/-- What every commit of a run brings about, and every move of the environment
leaves, comes from a commit of the run when it was not there at the start. -/
theorem made_of {P : (Nat → κ → σ → Prop) → σ → Prop} {s : σ}
    (hstart : P (fun _ _ _ => False) s)
    (hmono : ∀ {Q Q' : Nat → κ → σ → Prop} {t}, (∀ n k u, Q n k u → Q' n k u) → P Q t → P Q' t)
    (henv : ∀ {Q : Nat → κ → σ → Prop} {t} e, P Q t → P Q (S.env e t))
    (hcommit : ∀ {Q : Nat → κ → σ → Prop} {t} n k, P Q t → Q n k t → P Q (S.apply k t))
    (ms : List (Move ι η)) : P (fun n k t => S.Made ms s n k t) (S.runFrom s ms).store := by
  induction ms using List.reverseRecOn with
  | nil => exact hmono (fun _ _ _ h => h.elim) hstart
  | append_singleton ms m ih =>
      have hlater : P (fun n k t => S.Made (ms ++ [m]) s n k t) (S.runFrom s ms).store :=
        hmono (fun n k t h => h.append [m]) ih
      rw [runFrom_append]
      cases m with
      | call i => exact hlater
      | env e => exact henv e hlater
      | step n =>
          change P _ (S.move (.step n) (S.runFrom s ms)).store
          cases hn : (S.runFrom s ms).threads[n]? with
          | none => simpa only [System.move, hn] using hlater
          | some p =>
              cases p with
              | commit k next =>
                  rw [S.move_commit hn]
                  exact hcommit n k hlater ⟨ms, [], next, rfl, hn, rfl⟩
              | pure a => simp only [System.move, hn]; exact hlater
              | throw e => simp only [System.move, hn]; exact hlater
              | read next => simp only [System.move, hn]; exact hlater

end System

end Interleave
