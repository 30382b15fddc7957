import Mathlib.Data.Finset.Card
import ServeProof.Interleave.Reaches

/-!
# ServeProof.Interleave.Tickets

Calls that draw a number.  Each of some calls of a run takes a step in which a
counter stands at its number; as long as the counter only grows, no two calls
draw the same one, so a bound on the numbers is a bound on the calls.

* `returned` -- what a part of a program has returned, in the stores it has seen;
* `relates_steps` -- what every move of a part of a run does, the part does;
* `tickets_bounded` -- the bound;
* `once` -- the bound for a ticket there is only one of.
-/

namespace Interleave

variable {σ κ ε ι η α β : Type}

namespace Prog

/-- The result of a program that takes a step in each of the stores `l`, if it
returns one. -/
def returned : Prog σ κ ε α → List σ → Option α
  | pure a, _ => some a
  | throw _, _ => none
  | read _, [] => none
  | read next, s :: l => (next s).returned l
  | commit _ _, [] => none
  | commit _ next, s :: l => (next s).returned l

theorem returned_eq_some_iff {p : Prog σ κ ε α} {l : List σ} {a : α} :
    p.returned l = some a ↔ p.Reaches l (.returns a) := by
  induction p generalizing l with
  | pure b => simp [returned, Reaches, eq_comm]
  | throw e => simp [returned, Reaches]
  | read next ih => cases l <;> simp [returned, Reaches, ih]
  | commit c next ih => cases l <;> simp [returned, Reaches, ih]

/-- Who has returned has returned, whatever it sees afterwards. -/
theorem Reaches.append {p : Prog σ κ ε α} {l : List σ} {a : α} (h : p.Reaches l (.returns a))
    (l' : List σ) : p.Reaches (l ++ l') (.returns a) := by
  induction p generalizing l with
  | pure b => exact h
  | throw e => exact h.elim
  | read next ih =>
      cases l with
      | nil => exact h.elim
      | cons s l => exact ih s h
  | commit c next ih =>
      cases l with
      | nil => cases h
      | cons s l => exact ih s h

/-- The program returns `a` after exactly one step in each of the stores `l`. -/
def Takes : Prog σ κ ε α → List σ → α → Prop
  | pure b, [], a => b = a
  | read next, s :: l, a => (next s).Takes l a
  | commit _ next, s :: l, a => (next s).Takes l a
  | _, _, _ => False

theorem Takes.reaches {p : Prog σ κ ε α} {l : List σ} {a : α} (h : p.Takes l a) :
    p.Reaches l (.returns a) := by
  induction p generalizing l with
  | pure b =>
      cases l with
      | nil => exact congrArg Outcome.returns (Eq.symm h)
      | cons s l => exact h.elim
  | throw e => cases l <;> exact h.elim
  | read next ih =>
      cases l with
      | nil => exact h.elim
      | cons s l => exact ih s h
  | commit c next ih =>
      cases l with
      | nil => exact h.elim
      | cons s l => exact ih s h

/-- A program that has returned takes no more steps. -/
theorem Takes.minimal {p : Prog σ κ ε α} {l l' : List σ} {a b : α} (h : p.Takes (l ++ l') a)
    (hb : p.Reaches l (.returns b)) : l' = [] := by
  induction p generalizing l with
  | pure c =>
      cases l with
      | nil =>
          cases l' with
          | nil => rfl
          | cons s l' => exact h.elim
      | cons s l => exact h.elim
  | throw e => exact hb.elim
  | read next ih =>
      cases l with
      | nil => exact hb.elim
      | cons s l => exact ih s h hb
  | commit c next ih =>
      cases l with
      | nil => cases hb
      | cons s l => exact ih s h hb

/-- A program of two parts goes on with the second. -/
theorem Takes.bind {p : Prog σ κ ε α} {f : α → Prog σ κ ε β} {l l' : List σ} {a : α}
    {o : Outcome κ β} (h : p.Takes l a) (hf : (f a).Reaches l' o) :
    (p >>= f).Reaches (l ++ l') o := by
  change (p.bind f).Reaches (l ++ l') o
  induction p generalizing l with
  | pure b =>
      cases l with
      | nil => cases h; exact hf
      | cons s l => exact h.elim
  | throw e => cases l <;> exact h.elim
  | read next ih =>
      cases l with
      | nil => exact h.elim
      | cons s l => exact ih s h
  | commit c next ih =>
      cases l with
      | nil => exact h.elim
      | cons s l => exact ih s h

/-- A program of two parts that returns has returned from the first. -/
theorem takes_of_reaches_bind {p : Prog σ κ ε α} {f : α → Prog σ κ ε β} {l : List σ} {b : β}
    (h : (p >>= f).Reaches l (.returns b)) :
    ∃ l₁ l₂ a, l = l₁ ++ l₂ ∧ p.Takes l₁ a ∧ (f a).Reaches l₂ (.returns b) := by
  change (p.bind f).Reaches l (.returns b) at h
  induction p generalizing l with
  | pure a => exact ⟨[], l, a, rfl, rfl, h⟩
  | throw e => exact h.elim
  | read next ih =>
      cases l with
      | nil => exact h.elim
      | cons s l =>
          obtain ⟨l₁, l₂, a, rfl, h₁, h₂⟩ := ih s h
          exact ⟨s :: l₁, l₂, a, rfl, h₁, h₂⟩
  | commit c next ih =>
      cases l with
      | nil => cases h
      | cons s l =>
          obtain ⟨l₁, l₂, a, rfl, h₁, h₂⟩ := ih s h
          exact ⟨s :: l₁, l₂, a, rfl, h₁, h₂⟩

end Prog

namespace System

variable {S : System σ κ ε (Nat × ι) η} {s : σ} {ms ms' : List (Move ι η)}

/-- What every move of a part of a run does, the part does. -/
theorem relates_steps {R : σ → σ → Prop} (hrefl : ∀ s, R s s)
    (htrans : ∀ s t u, R s t → R t u → R s u) {as : List (Move ι η)}
    (hstep : ∀ as₁ m as₂, as = as₁ ++ m :: as₂ →
      R (S.runFrom s (ms ++ as₁)).store (S.runFrom s (ms ++ as₁ ++ [m])).store) :
    R (S.runFrom s ms).store (S.runFrom s (ms ++ as)).store := by
  induction as using List.reverseRecOn with
  | nil => rw [List.append_nil]; exact hrefl _
  | append_singleton as m ih =>
      have hpart := ih fun as₁ m' as₂ h => hstep as₁ m' (as₂ ++ [m]) (by rw [h]; simp)
      rw [← List.append_assoc]
      exact htrans _ _ _ hpart (hstep as m [] rfl)

/-- A step a call has not taken in the first part of a run it takes in the second. -/
theorem seenBy_split_append {u : σ} {n : Nat} {l₁ l₂ : List σ}
    (hshort : (S.seenBy s ms n).length ≤ l₁.length)
    (h : S.seenBy s (ms ++ ms') n = l₁ ++ u :: l₂) :
    ∃ as bs, ms' = as ++ .step n :: bs ∧ u = (S.runFrom s (ms ++ as)).store ∧
      S.seenBy s (ms ++ as) n = l₁ ∧ n < (S.runFrom s (ms ++ as)).threads.length := by
  obtain ⟨ms₁, ms₂, hms, hu, hl, hlt⟩ := seenBy_split h
  have hdone (as : List (Move ι η)) (has : ms = ms₁ ++ .step n :: as) : False := by
    obtain ⟨l, hl'⟩ := seenBy_step hlt as
    rw [has, hl', hl, List.length_append, List.length_cons] at hshort
    omega
  obtain ⟨as, rfl, has⟩ | ⟨as, has, has'⟩ := List.append_eq_append_iff.mp hms
  · exact ⟨as, ms₂, has, hu, hl, hlt⟩
  · cases as with
    | nil =>
        rw [List.append_nil] at has
        subst has
        exact ⟨[], ms₂, by simpa using has'.symm, by rwa [List.append_nil],
          by rwa [List.append_nil], by rwa [List.append_nil]⟩
    | cons m as =>
        cases (List.cons.inj has').1
        exact (hdone as has).elim

theorem length_runFrom (s : σ) (ms : List (Move ι η)) :
    (S.runFrom s ms).threads.length = (calls ms).length := by
  have hlen := S.length_exec_number ms (Config.start s)
  have hzero : (Config.start s : Config σ κ ε).threads.length = 0 := rfl
  rwa [hzero, Nat.zero_add] at hlen

/-- Only a call that has started takes steps. -/
theorem lt_of_mem_seenBy {t : σ} {n : Nat} (h : t ∈ S.seenBy s ms n) : n < (calls ms).length := by
  obtain ⟨l₁, l₂, hl⟩ := List.append_of_mem h
  obtain ⟨ms₁, ms₂, rfl, -, -, hlt⟩ := seenBy_split hl
  rw [length_runFrom] at hlt
  rw [calls_append, List.length_append]
  omega

/-- A commit a call comes to only in the second part of a run it makes there. -/
theorem commit_of_seen {i : ι} {u : σ} {n : Nat} {k : κ} {l₁ l₂ : List σ}
    (hi : (calls (ms ++ ms'))[n]? = some i)
    (hshort : (S.seenBy s ms n).length ≤ l₁.length)
    (hseen : S.seenBy s (ms ++ ms') n = l₁ ++ u :: l₂)
    (hk : (S.prog (n, i)).Reaches l₁ (.commits k)) :
    ∃ as bs next, ms' = as ++ .step n :: bs ∧ u = (S.runFrom s (ms ++ as)).store ∧
      S.seenBy s (ms ++ as) n = l₁ ∧ (calls (ms ++ as))[n]? = some i ∧
      (S.runFrom s (ms ++ as)).threads[n]? = some (.commit k next) := by
  obtain ⟨as, bs, hms, hu, hl, hlt⟩ := seenBy_split_append hshort hseen
  have hin : n < (calls (ms ++ as)).length := S.length_runFrom s (ms ++ as) ▸ hlt
  rw [hms, ← List.append_assoc, calls_append, List.getElem?_append_left hin] at hi
  obtain ⟨next, hnext⟩ := thread_of_reaches hlt hi (hl ▸ hk)
  exact ⟨as, bs, next, hms, hu, hl, hi, hnext⟩

/-- The second part of a run admits each of its moves. -/
theorem legal_of_respects {ok : κ → σ → Prop} {okEnv : η → σ → Prop}
    (hms : S.Respects ok okEnv (number (calls ms).length ms') (S.runFrom s ms))
    {as₁ as₂ : List (Move ι η)} {m : Move ι η} (has : ms' = as₁ ++ m :: as₂) :
    ∃ m' k, number k [m] = [m'] ∧ Legal ok okEnv m' (S.runFrom s (ms ++ as₁)) := by
  subst has
  obtain ⟨m', hnum, hcons⟩ := number_cons m as₂ ((calls ms).length + (calls as₁).length)
  rw [number_append, hcons, respects_append, ← S.length_runFrom s ms, ← runFrom_append] at hms
  exact ⟨m', _, hnum, hms.2.1⟩

/-- A commit the second part of a run makes is admitted where it is made. -/
theorem ok_of_respects {ok : κ → σ → Prop} {okEnv : η → σ → Prop}
    (hms : S.Respects ok okEnv (number (calls ms).length ms') (S.runFrom s ms))
    {as₁ as₂ : List (Move ι η)} {n : Nat} (has : ms' = as₁ ++ .step n :: as₂) {k : κ}
    {next : σ → Prog σ κ ε Unit}
    (hn : (S.runFrom s (ms ++ as₁)).threads[n]? = some (.commit k next)) :
    ok k (S.runFrom s (ms ++ as₁)).store := by
  obtain ⟨m', _, hnum, hlegal⟩ := legal_of_respects hms has
  cases hnum
  exact (legal_commit ok okEnv hn).mp hlegal

/-- What the moves of a run do when the second part of it is admitted. -/
theorem relates_admitted {R : σ → σ → Prop} {ok : κ → σ → Prop} {okEnv : η → σ → Prop}
    (hms : S.Respects ok okEnv (number (calls ms).length ms') (S.runFrom s ms))
    (hrefl : ∀ s, R s s)
    (hcommit : ∀ n i k l s, (S.prog (n, i)).Reaches l (.commits k) → ok k s → R s (S.apply k s))
    (henv : ∀ e s, okEnv e s → R s (S.env e s))
    {as₁ as₂ : List (Move ι η)} {m : Move ι η} (has : ms' = as₁ ++ m :: as₂) :
    R (S.runFrom s (ms ++ as₁)).store (S.runFrom s (ms ++ as₁ ++ [m])).store := by
  obtain hsame | ⟨e, rfl, he⟩ | ⟨n, k, next, rfl, hn, hk⟩ := S.store_runFrom_snoc s (ms ++ as₁) m
  · rw [hsame]
    exact hrefl _
  · obtain ⟨m', _, hnum, hlegal⟩ := legal_of_respects hms has
    cases hnum
    rw [he]
    exact henv e _ hlegal
  · rw [hk]
    obtain ⟨i, -, hreaches⟩ := reaches_of_thread hn
    exact hcommit n i k _ _ hreaches (ok_of_respects hms has hn)

variable (S s ms ms') in
/-- **The bound**: each call of `ns` takes a step in a store that satisfies `P`,
where the counter stands below `k`; at every later store that satisfies `P` the
counter has grown.  Then there are no more than `k` calls. -/
theorem tickets_bounded (P : σ → Prop) (count : σ → Int) {k : Nat} {ns : List Nat}
    (hns : ns.Nodup)
    (hticket : ∀ n ∈ ns, ∃ as bs, ms' = as ++ .step n :: bs ∧
      P (S.runFrom s (ms ++ as)).store ∧ 0 ≤ count (S.runFrom s (ms ++ as)).store ∧
      count (S.runFrom s (ms ++ as)).store < k ∧
      ∀ cs ds, bs = cs ++ ds → P (S.runFrom s (ms ++ (as ++ .step n :: cs))).store →
        count (S.runFrom s (ms ++ as)).store <
          count (S.runFrom s (ms ++ (as ++ .step n :: cs))).store) :
    ns.length ≤ k := by
  choose! as bs hms hP hpos hlt hgrows using hticket
  -- of two calls the one that draws first draws the smaller number
  have hfirst (n : Nat) (hn : n ∈ ns) (m : Nat) (hm : m ∈ ns) (cs : List (Move ι η))
      (has : as m = as n ++ .step n :: cs) : count (S.runFrom s (ms ++ as n)).store <
        count (S.runFrom s (ms ++ as m)).store := by
    rw [has]
    refine hgrows n hn cs (.step m :: bs m) ?_ (has ▸ hP m hm)
    have h := (hms n hn).symm.trans (hms m hm)
    rw [has, List.append_assoc, List.append_cancel_left_eq] at h
    exact (List.cons.inj h).2
  have hinj (n : Nat) (hn : n ∈ ns) (m : Nat) (hm : m ∈ ns)
      (heq : (count (S.runFrom s (ms ++ as n)).store).toNat =
        (count (S.runFrom s (ms ++ as m)).store).toNat) : n = m := by
    have hcount := hpos n hn
    have hcount' := hpos m hm
    obtain ⟨cs, hcs, hcs'⟩ | ⟨cs, hcs, hcs'⟩ :=
      List.append_eq_append_iff.mp ((hms n hn).symm.trans (hms m hm))
    · cases cs with
      | nil => cases (List.cons.inj hcs').1; rfl
      | cons c cs =>
          obtain ⟨rfl, -⟩ := List.cons.inj hcs'
          have := hfirst n hn m hm cs hcs
          omega
    · cases cs with
      | nil => cases (List.cons.inj hcs').1; rfl
      | cons c cs =>
          obtain ⟨rfl, -⟩ := List.cons.inj hcs'
          have := hfirst m hm n hn cs hcs
          omega
  have hcard : ns.toFinset.card ≤ (Finset.range k).card :=
    Finset.card_le_card_of_injOn (fun n => (count (S.runFrom s (ms ++ as n)).store).toNat)
      (fun n hn => by
        have hn' : n ∈ ns := List.mem_toFinset.mp hn
        have h₁ := hpos n hn'
        have h₂ := hlt n hn'
        simp only [Finset.coe_range, Set.mem_Iio]
        omega)
      (fun n hn m hm heq => hinj n (List.mem_toFinset.mp hn) m (List.mem_toFinset.mp hm) heq)
  rwa [List.toFinset_card_of_nodup hns, Finset.card_range] at hcard

variable (S s ms ms') in
/-- Of the calls that take a step in which `H` is there and then is gone for good,
there is one at most. -/
theorem once (H : σ → Prop) {ns : List Nat} (hns : ns.Nodup)
    (hgone : ∀ as₁ m as₂, ms' = as₁ ++ m :: as₂ → ¬ H (S.runFrom s (ms ++ as₁)).store →
      ¬ H (S.runFrom s (ms ++ as₁ ++ [m])).store)
    (hstep : ∀ n ∈ ns, ∃ as bs, ms' = as ++ .step n :: bs ∧ H (S.runFrom s (ms ++ as)).store ∧
      ¬ H (S.runFrom s (ms ++ as ++ [.step n])).store) : ns.length ≤ 1 := by
  refine tickets_bounded S s ms ms' H (fun _ => 0) hns fun n hn => ?_
  obtain ⟨as, bs, hms, hH, hafter⟩ := hstep n hn
  refine ⟨as, bs, hms, hH, le_rfl, by decide, fun cs ds hbs hlater => ?_⟩
  -- what is gone stays away
  have hrest : ¬ H (S.runFrom s (ms ++ as ++ [.step n])).store →
      ¬ H (S.runFrom s (ms ++ as ++ [.step n] ++ cs)).store := by
    refine relates_steps (R := fun t u => ¬ H t → ¬ H u) (fun _ h => h)
      (fun _ _ _ h h' ht => h' (h ht)) fun as₁ m as₂ has => ?_
    have h := hgone (as ++ .step n :: as₁) m (as₂ ++ ds) (by rw [hms, hbs, has]; simp)
    have hsame : ms ++ (as ++ .step n :: as₁) = ms ++ as ++ [.step n] ++ as₁ := by simp
    rwa [hsame] at h
  refine absurd ?_ (hrest hafter)
  have hsame : ms ++ as ++ [.step n] ++ cs = ms ++ (as ++ .step n :: cs) := by simp
  rwa [hsame]

/-- What holds at the end of a run held after its first part, or a commit of the second part has
brought it about. -/
theorem brought_about {H : σ → Prop} (henv : ∀ e t, H (S.env e t) → H t)
    (h : H (S.runFrom s (ms ++ ms')).store) : H (S.runFrom s ms).store ∨
      ∃ as n bs k next, ms' = as ++ .step n :: bs ∧
        (S.runFrom s (ms ++ as)).threads[n]? = some (.commit k next) ∧
          ¬ H (S.runFrom s (ms ++ as)).store ∧ H (S.apply k (S.runFrom s (ms ++ as)).store) := by
  induction ms' using List.reverseRecOn with
  | nil => exact .inl (by rwa [List.append_nil] at h)
  | append_singleton ms' m ih =>
      by_cases hbefore : H (S.runFrom s (ms ++ ms')).store
      · obtain hfirst | ⟨as, n, bs, k, next, rfl, hcommit⟩ := ih hbefore
        · exact .inl hfirst
        · exact .inr ⟨as, n, bs ++ [m], k, next, by simp, hcommit⟩
      · rw [← List.append_assoc] at h
        obtain hsame | ⟨e, rfl, he⟩ | ⟨n, k, next, rfl, hn, hk⟩ :=
          S.store_runFrom_snoc s (ms ++ ms') m
        · exact absurd (hsame ▸ h) hbefore
        · exact absurd (henv e _ (he ▸ h)) hbefore
        · exact .inr ⟨ms', n, [], k, next, rfl, hn, hbefore, hk ▸ h⟩

/-! ## Conditions on the steps of a run -/

end System

/-- The call that takes the step, if the move is one. -/
def Move.stepOf : Move ι η → Option Nat
  | .step n => some n
  | _ => none

/-- `P` holds wherever a call is about to take a step. -/
def AtSteps (P : List (Move ι η) → Nat → Prop) (ms : List (Move ι η)) : Prop :=
  ∀ i < ms.length, ∀ n ∈ ms[i]?.bind Move.stepOf, P (ms.take i) n

instance decidableAtSteps (P : List (Move ι η) → Nat → Prop) [∀ ms n, Decidable (P ms n)]
    (ms : List (Move ι η)) : Decidable (AtSteps P ms) :=
  inferInstanceAs (Decidable (∀ i < ms.length, ∀ n ∈ ms[i]?.bind Move.stepOf, P (ms.take i) n))

theorem AtSteps.split {P : List (Move ι η) → Nat → Prop} {ms as bs : List (Move ι η)} {n : Nat}
    (h : AtSteps P ms) (hms : ms = as ++ .step n :: bs) : P as n := by
  subst hms
  have hget : (as ++ .step n :: bs)[as.length]?.bind Move.stepOf = some n := by
    simp [Move.stepOf]
  have hP := h as.length (by simp) n hget
  rwa [List.take_left] at hP

theorem atSteps_concat {P : List (Move ι η) → Nat → Prop} {ms : List (Move ι η)} {m : Move ι η} :
    AtSteps P (ms ++ [m]) ↔ AtSteps P ms ∧ ∀ n ∈ m.stepOf, P ms n := by
  constructor
  · intro h
    constructor
    · intro i hi n hn
      have hi' : i < (ms ++ [m]).length := by simp; omega
      have hP := h i hi' n (by rwa [List.getElem?_append_left hi])
      rwa [List.take_append_of_le_length (Nat.le_of_lt hi)] at hP
    · intro n hn
      have hP := h ms.length (by simp) n (by simpa using hn)
      rwa [List.take_left] at hP
  · rintro ⟨h, hm⟩ i hi n hn
    rw [List.length_append, List.length_singleton] at hi
    obtain hlt | rfl := Nat.lt_succ_iff_lt_or_eq.mp hi
    · rw [List.getElem?_append_left hlt] at hn
      rw [List.take_append_of_le_length (Nat.le_of_lt hlt)]
      exact h i hlt n hn
    · rw [List.take_left]
      exact hm n (by simpa using hn)

/-- `P` holds where some call is about to take a step. -/
def SomeStep (P : List (Move ι η) → Nat → Prop) (ms : List (Move ι η)) : Prop :=
  ∃ i < ms.length, ∃ n ∈ ms[i]?.bind Move.stepOf, P (ms.take i) n

instance decidableSomeStep (P : List (Move ι η) → Nat → Prop) [∀ ms n, Decidable (P ms n)]
    (ms : List (Move ι η)) : Decidable (SomeStep P ms) :=
  inferInstanceAs (Decidable (∃ i < ms.length, ∃ n ∈ ms[i]?.bind Move.stepOf, P (ms.take i) n))

theorem someStep_iff_not {P : List (Move ι η) → Nat → Prop} {ms : List (Move ι η)} :
    SomeStep P ms ↔ ¬ AtSteps (fun before n => ¬ P before n) ms := by
  simp only [SomeStep, AtSteps, not_forall, not_not, exists_prop]

theorem someStep_concat {P : List (Move ι η) → Nat → Prop} {ms : List (Move ι η)} {m : Move ι η} :
    SomeStep P (ms ++ [m]) ↔ SomeStep P ms ∨ ∃ n ∈ m.stepOf, P ms n := by
  rw [someStep_iff_not, atSteps_concat, not_and_or, ← someStep_iff_not]
  simp only [not_forall, not_not, exists_prop]

end Interleave
