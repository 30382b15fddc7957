import ServeProof.Interleave.Prog

/-!
# ServeProof.Interleave.Pool

Many calls on one store, one step at a time: a configuration is the store and
the calls in progress, and a run is any list of moves -- a new call starts,
a call in progress takes its next step, or the environment moves the store.

A run *respects* a pair of conditions when every commit and every environment
move it makes is admitted where it is made.  The rule of the module
(`Sound.exec`) turns what each call knows at its own commits (`Prog.Sat`) into
what holds along every run that respects the conditions.
-/

namespace Interleave

variable {σ κ ε ι η : Type}

/-! ## Runs -/

/-- Calls `ι`, the programs they run, what their commands do, and the moves
`η` the store makes by itself. -/
structure System (σ κ ε ι η : Type) where
  apply : κ → σ → σ
  prog : ι → Prog σ κ ε Unit
  env : η → σ → σ

inductive Move (ι η : Type) where
  | call (i : ι)
  | step (n : Nat)
  | env (e : η)

/-- The store and the calls in progress. -/
structure Config (σ κ ε : Type) where
  store : σ
  threads : List (Prog σ κ ε Unit)

/-- No call in progress. -/
def Config.start (s : σ) : Config σ κ ε := ⟨s, []⟩

namespace System

variable (S : System σ κ ε ι η)

/-- One step of a program: what is left of it, and the store after it. -/
def advance : Prog σ κ ε Unit → σ → Prog σ κ ε Unit × σ
  | .read next, s => (next s, s)
  | .commit c next, s => (next s, S.apply c s)
  | .pure a, s => (.pure a, s)
  | .throw e, s => (.throw e, s)

/-- One move.  A step of a call that does not exist, or has ended, changes
nothing. -/
def move : Move ι η → Config σ κ ε → Config σ κ ε
  | .call i, c => { c with threads := c.threads ++ [S.prog i] }
  | .step n, c =>
      match c.threads[n]? with
      | some p => ⟨(S.advance p c.store).2, c.threads.set n (S.advance p c.store).1⟩
      | none => c
  | .env e, c => { c with store := S.env e c.store }

def exec (ms : List (Move ι η)) (c : Config σ κ ε) : Config σ κ ε :=
  ms.foldl (fun c m => S.move m c) c

@[simp] theorem exec_nil (c : Config σ κ ε) : S.exec [] c = c := rfl

@[simp] theorem exec_cons (m : Move ι η) (ms : List (Move ι η)) (c : Config σ κ ε) :
    S.exec (m :: ms) c = S.exec ms (S.move m c) := rfl

theorem exec_append (ms ms' : List (Move ι η)) (c : Config σ κ ε) :
    S.exec (ms ++ ms') c = S.exec ms' (S.exec ms c) := by
  simp [exec]

/-! ## Admitted runs -/

variable (ok : κ → σ → Prop) (okEnv : η → σ → Prop)

/-- The move is admitted: a commit by `ok`, an environment move by `okEnv`. -/
def Legal : Move ι η → Config σ κ ε → Prop
  | .call _, _ => True
  | .step n, c =>
      match c.threads[n]? with
      | some (.commit k _) => ok k c.store
      | _ => True
  | .env e, c => okEnv e c.store

/-- Every move of the run is admitted where it is made. -/
def Respects : List (Move ι η) → Config σ κ ε → Prop
  | [], _ => True
  | m :: ms, c => Legal ok okEnv m c ∧ Respects ms (S.move m c)

theorem legal_commit {n : Nat} {c : Config σ κ ε} {k : κ} {next : σ → Prog σ κ ε Unit}
    (hn : c.threads[n]? = some (.commit k next)) :
    Legal (ι := ι) ok okEnv (.step n) c ↔ ok k c.store := by
  simp only [Legal, hn]

/-- A step that is a commit. -/
theorem move_commit {n : Nat} {c : Config σ κ ε} {k : κ} {next : σ → Prog σ κ ε Unit}
    (hn : c.threads[n]? = some (.commit k next)) :
    (S.move (.step n) c).store = S.apply k c.store := by
  simp only [System.move, hn]
  rfl

/-- A move leaves the store, or is a move of the environment, or a commit. -/
theorem store_move (m : Move ι η) (c : Config σ κ ε) :
    (S.move m c).store = c.store ∨
      (∃ e, m = .env e ∧ (S.move m c).store = S.env e c.store) ∨
      ∃ n k next, m = .step n ∧ c.threads[n]? = some (.commit k next) ∧
        (S.move m c).store = S.apply k c.store := by
  cases m with
  | call i => exact .inl rfl
  | env e => exact .inr (.inl ⟨e, rfl, rfl⟩)
  | step n =>
      cases hn : c.threads[n]? with
      | none => exact .inl (by simp only [System.move, hn])
      | some p =>
          cases p with
          | commit k next => exact .inr (.inr ⟨n, k, next, rfl, hn, S.move_commit hn⟩)
          | pure a => exact .inl (by simp only [System.move, hn]; rfl)
          | throw e => exact .inl (by simp only [System.move, hn]; rfl)
          | read next => exact .inl (by simp only [System.move, hn]; rfl)

/-- A call in progress was there and did not move, or has just started, or has made its
step. -/
theorem thread_move {m : Move ι η} {c : Config σ κ ε} {n : Nat} {q : Prog σ κ ε Unit}
    (hq : (S.move m c).threads[n]? = some q) :
    (∀ k, m = .step k → k ≠ n) ∧ c.threads[n]? = some q ∨
      (∃ i, m = .call i ∧ n = c.threads.length ∧ q = S.prog i) ∨
      ∃ p, m = .step n ∧ c.threads[n]? = some p ∧ q = (S.advance p c.store).1 := by
  cases m with
  | call i =>
      rw [System.move, List.getElem?_append] at hq
      split at hq
      · exact .inl ⟨by rintro _ ⟨⟩, hq⟩
      · rw [List.getElem?_singleton] at hq
        split at hq
        · exact .inr (.inl ⟨i, rfl, by omega, (Option.some.inj hq).symm⟩)
        · cases hq
  | env e => exact .inl ⟨by rintro _ ⟨⟩, hq⟩
  | step k =>
      cases hk : c.threads[k]? with
      | none =>
          simp only [System.move, hk] at hq
          refine .inl ⟨?_, hq⟩
          rintro _ ⟨⟩ rfl
          cases hk.symm.trans hq
      | some p =>
          simp only [System.move, hk] at hq
          by_cases hkn : k = n
          · subst hkn
            rw [List.getElem?_set_self (List.getElem?_eq_some_iff.mp hk).1] at hq
            exact .inr (.inr ⟨p, rfl, hk, (Option.some.inj hq).symm⟩)
          · rw [List.getElem?_set_ne hkn] at hq
            refine .inl ⟨?_, hq⟩
            rintro _ ⟨⟩
            exact hkn

instance decidableLegal [∀ c s, Decidable (ok c s)] [∀ e s, Decidable (okEnv e s)]
    (m : Move ι η) (c : Config σ κ ε) : Decidable (Legal ok okEnv m c) :=
  match m with
  | .call _ => isTrue trivial
  | .step n =>
      match h : c.threads[n]? with
      | some (.commit k _) => decidable_of_iff (ok k c.store) (by simp only [Legal, h])
      | some (.pure _) | some (.throw _) | some (.read _) | none =>
          isTrue (by simp only [Legal, h])
  | .env e => inferInstanceAs (Decidable (okEnv e c.store))

instance decidableRespects [∀ c s, Decidable (ok c s)] [∀ e s, Decidable (okEnv e s)] :
    (ms : List (Move ι η)) → (c : Config σ κ ε) → Decidable (S.Respects ok okEnv ms c)
  | [], _ => isTrue trivial
  | m :: ms, c =>
      have := decidableRespects ms (S.move m c)
      inferInstanceAs (Decidable (Legal ok okEnv m c ∧ S.Respects ok okEnv ms (S.move m c)))

theorem respects_append (ms ms' : List (Move ι η)) (c : Config σ κ ε) :
    S.Respects ok okEnv (ms ++ ms') c ↔
      S.Respects ok okEnv ms c ∧ S.Respects ok okEnv ms' (S.exec ms c) := by
  induction ms generalizing c with
  | nil => simp [Respects]
  | cons m ms ih => simp [Respects, ih, and_assoc]

/-- When everything is admitted, every run is. -/
theorem respects_of_all (hok : ∀ c s, ok c s) (henv : ∀ e s, okEnv e s) (ms : List (Move ι η))
    (c : Config σ κ ε) : S.Respects ok okEnv ms c := by
  induction ms generalizing c with
  | nil => trivial
  | cons m ms ih =>
      refine ⟨?_, ih _⟩
      cases m with
      | call i => trivial
      | env e => exact henv e c.store
      | step n =>
          simp only [Legal]
          split
          · exact hok _ c.store
          · trivial

/-- An invariant that every admitted commit and environment move keeps, whoever makes it. -/
theorem exec_inv {ok : κ → σ → Prop} {okEnv : η → σ → Prop} {inv : σ → Prop}
    (hcommit : ∀ c s, inv s → ok c s → inv (S.apply c s))
    (henv : ∀ e s, inv s → okEnv e s → inv (S.env e s)) {ms : List (Move ι η)}
    {c : Config σ κ ε} (hc : inv c.store) (hms : S.Respects ok okEnv ms c) :
    inv (S.exec ms c).store := by
  induction ms generalizing c with
  | nil => exact hc
  | cons m ms ih =>
      refine ih ?_ hms.2
      obtain hsame | ⟨e, rfl, he⟩ | ⟨n, k, next, rfl, hn, hk⟩ := S.store_move m c
      · rwa [hsame]
      · rw [he]
        exact henv e c.store hc hms.1
      · rw [hk]
        exact hcommit k c.store hc ((legal_commit ok okEnv hn).mp hms.1)

/-! ## The rule -/

/-- The calls and the environment of `S` live up to the discipline `D`: each
commit that is admitted and made with the knowledge `known` keeps the
invariant and stays within the rely condition, and so does the environment;
each call has that knowledge at its commits. -/
structure Sound (D : Discipline σ κ) (known : κ → σ → Prop) : Prop where
  lawful : D.Lawful
  commit : ∀ c s, D.inv s → D.ok c s → known c s →
    D.rely s (S.apply c s) ∧ D.inv (S.apply c s)
  env : ∀ e s, D.inv s → okEnv e s → D.rely s (S.env e s) ∧ D.inv (S.env e s)
  apply_eq : D.apply = S.apply
  call : ∀ i s, D.inv s → (S.prog i).Sat D known s fun _ _ => True

/-- The invariant holds, and every call in progress knows at its commits what
it should. -/
structure Held (D : Discipline σ κ) (known : κ → σ → Prop) (c : Config σ κ ε) : Prop where
  inv : D.inv c.store
  threads : ∀ p ∈ c.threads, p.Sat D known c.store fun _ _ => True

variable {S ok okEnv} {D : Discipline σ κ} {known : κ → σ → Prop}

theorem held_start {s : σ} (hs : D.inv s) :
    Held D known (Config.start s : Config σ κ ε) :=
  ⟨hs, fun _ hp => absurd hp List.not_mem_nil⟩

/-- A step of one call keeps what the other calls know. -/
theorem Held.advance (hS : S.Sound okEnv D known) {c : Config σ κ ε} (h : Held D known c)
    {p : Prog σ κ ε Unit} (hp : p.Sat D known c.store fun _ _ => True)
    (hok : ∀ k next, p = .commit k next → D.ok k c.store) :
    D.rely c.store (S.advance p c.store).2 ∧ D.inv (S.advance p c.store).2 ∧
      (S.advance p c.store).1.Sat D known (S.advance p c.store).2 fun _ _ => True := by
  have hrefl := hS.lawful.refl c.store
  cases p with
  | pure a => exact ⟨hrefl, h.inv, hp⟩
  | throw e => exact ⟨hrefl, h.inv, hp⟩
  | read next => exact ⟨hrefl, h.inv, hp _ hrefl h.inv⟩
  | commit k next =>
      have hk := hok k next rfl
      obtain ⟨hknown, hn⟩ := hp _ hrefl h.inv hk
      rw [hS.apply_eq] at hn
      obtain ⟨hr, hi⟩ := hS.commit k _ h.inv hk hknown
      exact ⟨hr, hi, hn⟩

/-- One admitted move keeps the configuration held, and stays within the rely
condition. -/
theorem Held.move (hS : S.Sound okEnv D known) {c : Config σ κ ε} (h : Held D known c)
    {m : Move ι η} (hm : Legal D.ok okEnv m c) :
    Held D known (S.move m c) ∧ D.rely c.store (S.move m c).store := by
  cases m with
  | call i =>
      refine ⟨⟨h.inv, fun p hp => ?_⟩, hS.lawful.refl _⟩
      cases List.mem_append.mp hp with
      | inl hp => exact h.threads p hp
      | inr hp => exact List.mem_singleton.mp hp ▸ hS.call i _ h.inv
  | env e =>
      obtain ⟨hr, hi⟩ := hS.env e _ h.inv hm
      exact ⟨⟨hi, fun p hp => (h.threads p hp).wait hS.lawful hr⟩, hr⟩
  | step n =>
      simp only [System.move]
      cases hn : c.threads[n]? with
      | none => exact ⟨h, hS.lawful.refl _⟩
      | some p =>
          have hp : p ∈ c.threads := List.mem_of_getElem? hn
          have hok : ∀ k next, p = .commit k next → D.ok k c.store := by
            intro k next hpk
            simpa [Legal, hn, hpk] using hm
          obtain ⟨hr, hi, hsat⟩ := h.advance hS (h.threads p hp) hok
          refine ⟨⟨hi, fun q hq => ?_⟩, hr⟩
          cases List.mem_or_eq_of_mem_set hq with
          | inl hq => exact (h.threads q hq).wait hS.lawful hr
          | inr hq => exact hq ▸ hsat

/-- **The rule**: along every admitted run the invariant holds, every call
knows at its commits what it should, and the run as a whole stays within the
rely condition. -/
theorem Sound.exec (hS : S.Sound okEnv D known) {c : Config σ κ ε} (h : Held D known c)
    {ms : List (Move ι η)} (hms : S.Respects D.ok okEnv ms c) :
    Held D known (S.exec ms c) ∧ D.rely c.store (S.exec ms c).store := by
  induction ms generalizing c with
  | nil => exact ⟨h, hS.lawful.refl _⟩
  | cons m ms ih =>
      obtain ⟨h', hr⟩ := h.move hS hms.1
      obtain ⟨h'', hr'⟩ := ih h' hms.2
      exact ⟨h'', hS.lawful.trans hr hr'⟩

/-- The invariant after an admitted run. -/
theorem Sound.exec_inv (hS : S.Sound okEnv D known) {s : σ} (hs : D.inv s)
    {ms : List (Move ι η)} (hms : S.Respects D.ok okEnv ms (Config.start s)) :
    D.inv (S.exec ms (Config.start s)).store :=
  (hS.exec (held_start hs) hms).1.inv

/-- What holds of two stores of one admitted run, an earlier and a later. -/
theorem Sound.exec_rely (hS : S.Sound okEnv D known) {s : σ} (hs : D.inv s)
    {ms ms' : List (Move ι η)} (hms : S.Respects D.ok okEnv (ms ++ ms') (Config.start s)) :
    D.rely (S.exec ms (Config.start s)).store (S.exec (ms ++ ms') (Config.start s)).store := by
  rw [respects_append] at hms
  obtain ⟨h, -⟩ := hS.exec (held_start hs) hms.1
  rw [exec_append]
  exact (hS.exec h hms.2).2

/-- What the call at `n` knows when its next step is a commit. -/
theorem Sound.known_commit (hS : S.Sound okEnv D known) {s : σ} (hs : D.inv s)
    {ms : List (Move ι η)} (hms : S.Respects D.ok okEnv ms (Config.start s)) {n : Nat}
    {k : κ} {next : σ → Prog σ κ ε Unit}
    (hn : (S.exec ms (Config.start s)).threads[n]? = some (.commit k next))
    (hok : D.ok k (S.exec ms (Config.start s)).store) :
    known k (S.exec ms (Config.start s)).store := by
  obtain ⟨h, -⟩ := hS.exec (held_start hs) hms
  exact (h.threads _ (List.mem_of_getElem? hn) _ (hS.lawful.refl _) h.inv hok).1

/-! ## One call at a time -/

/-- What happens when calls do not overlap: a call takes its first `steps` steps
(all of them, or it breaks off), or the environment moves. -/
inductive Act (ι η : Type) where
  | call (i : ι) (steps : Nat)
  | env (e : η)

variable (S ok okEnv)

def perform : Act ι η → σ → σ
  | .call i n, s => Prog.runFor S.apply n (S.prog i) s
  | .env e, s => S.env e s

def performAll (as : List (Act ι η)) (s : σ) : σ := as.foldl (fun s a => S.perform a s) s

@[simp] theorem performAll_nil (s : σ) : S.performAll [] s = s := rfl

@[simp] theorem performAll_cons (a : Act ι η) (as : List (Act ι η)) (s : σ) :
    S.performAll (a :: as) s = S.performAll as (S.perform a s) := rfl

/-- Every commit and every environment move is admitted where it is made. -/
def Admits : List (Act ι η) → σ → Prop
  | [], _ => True
  | .call i n :: as, s =>
      Prog.Allows S.apply ok n (S.prog i) s ∧ Admits as (S.perform (.call i n) s)
  | .env e :: as, s => okEnv e s ∧ Admits as (S.env e s)

instance decidableAdmits [∀ c s, Decidable (ok c s)] [∀ e s, Decidable (okEnv e s)] :
    (as : List (Act ι η)) → (s : σ) → Decidable (S.Admits ok okEnv as s)
  | [], _ => isTrue trivial
  | .call i n :: as, s =>
      have := decidableAdmits as (S.perform (.call i n) s)
      inferInstanceAs (Decidable (Prog.Allows S.apply ok n (S.prog i) s ∧ _))
  | .env e :: as, s =>
      have := decidableAdmits as (S.env e s)
      inferInstanceAs (Decidable (okEnv e s ∧ S.Admits ok okEnv as (S.env e s)))

variable {S ok okEnv}

/-- An invariant that each admitted commit and environment move keeps holds
after every run of one call at a time. -/
theorem performAll_inv {inv : σ → Prop} {known : κ → σ → Prop}
    (hcommit : ∀ c s, inv s → ok c s → known c s → inv (S.apply c s))
    (henv : ∀ e s, inv s → okEnv e s → inv (S.env e s))
    (hcall : ∀ i s, inv s →
      (S.prog i).Sat (.alone S.apply inv ok) known s fun _ _ => True)
    {as : List (Act ι η)} {s : σ} (hs : inv s) (has : S.Admits ok okEnv as s) :
    inv (S.performAll as s) := by
  induction as generalizing s with
  | nil => exact hs
  | cons a as ih =>
      cases a with
      | call i n => exact ih ((hcall i s hs).runFor_inv hcommit hs has.1) has.2
      | env e => exact ih (henv e s hs has.1) has.2

/-! ## One call at a time is one way to interleave -/

/-- The moves of a run of one call at a time, after `k` earlier calls. -/
def moves : Nat → List (Act ι η) → List (Move ι η)
  | _, [] => []
  | k, .call i n :: as => .call i :: (List.replicate n (.step k) ++ moves (k + 1) as)
  | k, .env e :: as => .env e :: moves k as

end System

end Interleave
