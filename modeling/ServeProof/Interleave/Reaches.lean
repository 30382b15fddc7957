import ServeProof.Interleave.Sessions

/-!
# ServeProof.Interleave.Reaches

What a program has seen when it comes to a commit or to its result: `Reaches l o`
says that it does so after one step in each of the stores `l`, in their order.

The lemmas `reaches_*` unfold a program into the stores it has read and the tests
it has passed.
-/

namespace Interleave

/-- What a program comes to: its next commit, or its result. -/
inductive Outcome (κ α : Type) where
  | commits (c : κ)
  | returns (a : α)

namespace Prog

variable {σ κ ε α β : Type}

def Reaches : Prog σ κ ε α → List σ → Outcome κ α → Prop
  | pure a, _, o => o = .returns a
  | throw _, _, _ => False
  | read _, [], _ => False
  | read next, s :: l, o => (next s).Reaches l o
  | commit c _, [], o => o = .commits c
  | commit _ next, s :: l, o => (next s).Reaches l o

theorem reaches_of_follow {p : Prog σ κ ε α} {l : List σ} {c : κ} {next : σ → Prog σ κ ε α}
    (h : p.follow l = .commit c next) : p.Reaches l (.commits c) := by
  induction l generalizing p with
  | nil =>
      simp only [follow] at h
      rw [h]
      exact rfl
  | cons s l ih =>
      cases p with
      | read next => exact ih h
      | commit k next => exact ih h
      | pure a =>
          have hpure : (Prog.pure a : Prog σ κ ε α).follow l = .pure a := by
            clear h ih
            induction l with
            | nil => rfl
            | cons _ _ ih => exact ih
          cases hpure.symm.trans h
      | throw e =>
          have hthrow : (Prog.throw e : Prog σ κ ε α).follow l = .throw e := by
            clear h ih
            induction l with
            | nil => rfl
            | cons _ _ ih => exact ih
          cases hthrow.symm.trans h

theorem follow_of_reaches {p : Prog σ κ ε α} {l : List σ} {c : κ} (h : p.Reaches l (.commits c)) :
    ∃ next, p.follow l = .commit c next := by
  induction l generalizing p with
  | nil =>
      cases p with
      | commit k next => cases h; exact ⟨next, rfl⟩
      | pure a => cases h
      | throw e => exact h.elim
      | read next => exact h.elim
  | cons s l ih =>
      cases p with
      | commit k next => exact ih h
      | pure a => cases h
      | throw e => exact h.elim
      | read next => exact ih h

/-- A commit of a program is one it makes. -/
theorem Only.reaches {ok : κ → Prop} {p : Prog σ κ ε α} (hp : p.Only ok) {l : List σ} {c : κ}
    (h : p.Reaches l (.commits c)) : ok c := by
  induction p generalizing l with
  | pure a => cases h
  | throw e => exact h.elim
  | read next ih =>
      cases l with
      | nil => exact h.elim
      | cons s l => exact ih s (hp s) h
  | commit k next ih =>
      cases l with
      | nil => cases h; exact hp.1
      | cons s l => exact ih s (hp.2 s) h

theorem reaches_bind {p : Prog σ κ ε α} {f : α → Prog σ κ ε β} {l : List σ} {o : Outcome κ β}
    (h : (p >>= f).Reaches l o) : (∃ c, o = .commits c ∧ p.Reaches l (.commits c)) ∨
      ∃ l₁ l₂ a, l = l₁ ++ l₂ ∧ p.Reaches l₁ (.returns a) ∧ (f a).Reaches l₂ o := by
  change (p.bind f).Reaches l o at h
  induction p generalizing l with
  | pure a => exact .inr ⟨[], l, a, rfl, rfl, h⟩
  | throw e => exact h.elim
  | read next ih =>
      cases l with
      | nil => exact h.elim
      | cons s l =>
          cases ih s h with
          | inl h => exact .inl h
          | inr h =>
              obtain ⟨l₁, l₂, a, rfl, h₁, h₂⟩ := h
              exact .inr ⟨s :: l₁, l₂, a, rfl, h₁, h₂⟩
  | commit c next ih =>
      cases l with
      | nil => exact .inl ⟨c, h, rfl⟩
      | cons s l =>
          cases ih s h with
          | inl h => exact .inl h
          | inr h =>
              obtain ⟨l₁, l₂, a, rfl, h₁, h₂⟩ := h
              exact .inr ⟨s :: l₁, l₂, a, rfl, h₁, h₂⟩

theorem reaches_bind_commits {p : Prog σ κ ε α} {l : List σ} {c : κ}
    (h : p.Reaches l (.commits c)) (f : α → Prog σ κ ε β) : (p >>= f).Reaches l (.commits c) := by
  change (p.bind f).Reaches l (.commits c)
  induction p generalizing l with
  | pure a => cases h
  | throw e => exact h.elim
  | read next ih =>
      cases l with
      | nil => exact h.elim
      | cons s l => exact ih s h
  | commit k next ih =>
      cases l with
      | nil => cases h; rfl
      | cons s l => exact ih s h

/-- A program that only reads returns before what comes after it. -/
theorem reaches_read_bind {p : Prog σ κ ε α} (hp : p.Only fun _ => False)
    {f : α → Prog σ κ ε β} {l : List σ} {o : Outcome κ β} (h : (p >>= f).Reaches l o) :
    ∃ l₁ l₂ a, l = l₁ ++ l₂ ∧ p.Reaches l₁ (.returns a) ∧ (f a).Reaches l₂ o := by
  cases reaches_bind h with
  | inl h =>
      obtain ⟨c, -, h⟩ := h
      exact (hp.reaches h).elim
  | inr h => exact h

section Unfold

variable {l : List σ} {o : Outcome κ β} {f : α → Prog σ κ ε β}

theorem reaches_pure {b : β} :
    (Pure.pure b : Prog σ κ ε β).Reaches l o ↔ o = .returns b := by
  change (Prog.pure b : Prog σ κ ε β).Reaches l o ↔ o = .returns b
  rw [Reaches]

theorem reaches_throw {e : ε} : (Prog.throw e : Prog σ κ ε β).Reaches l o ↔ False := by
  rw [Reaches]

theorem reaches_get_bind {g : σ → α} : (get g >>= f).Reaches l o ↔
    ∃ s l', l = s :: l' ∧ (f (g s)).Reaches l' o := by
  change (Prog.read fun s => f (g s)).Reaches l o ↔ _
  cases l with
  | nil => simp [Reaches]
  | cons s l => simp [Reaches]

theorem reaches_get {o : Outcome κ α} {g : σ → α} : (get g : Prog σ κ ε α).Reaches l o ↔
    ∃ s l', l = s :: l' ∧ o = .returns (g s) := by
  change (Prog.read fun s => .pure (g s)).Reaches l o ↔ _
  cases l with
  | nil => simp [Reaches]
  | cons s l => simp [Reaches]

theorem reaches_putGet_bind {c : κ} {g : σ → α} : (putGet c g >>= f).Reaches l o ↔
    (l = [] ∧ o = .commits c) ∨ ∃ s l', l = s :: l' ∧ (f (g s)).Reaches l' o := by
  change (Prog.commit c fun s => f (g s)).Reaches l o ↔ _
  cases l with
  | nil => simp [Reaches]
  | cons s l => simp [Reaches]

theorem reaches_put_bind {c : κ} {f : Unit → Prog σ κ ε β} : (put c >>= f).Reaches l o ↔
    (l = [] ∧ o = .commits c) ∨ ∃ s l', l = s :: l' ∧ (f ()).Reaches l' o := by
  change (Prog.commit c fun _ => f ()).Reaches l o ↔ _
  cases l with
  | nil => simp [Reaches]
  | cons s l => simp [Reaches]

theorem reaches_put {c : κ} {o : Outcome κ Unit} : (put c : Prog σ κ ε Unit).Reaches l o ↔
    (l = [] ∧ o = .commits c) ∨ (l ≠ [] ∧ o = .returns ()) := by
  change (Prog.commit c fun _ => .pure ()).Reaches l o ↔ _
  cases l with
  | nil => simp [Reaches]
  | cons s l => simp [Reaches]

theorem reaches_require_bind {p : Prop} [Decidable p] {e : ε} {f : Unit → Prog σ κ ε β} :
    (require p e >>= f).Reaches l o ↔ p ∧ (f ()).Reaches l o := by
  unfold require
  by_cases hp : p
  · simp only [hp, true_and]
    exact Iff.rfl
  · simp only [hp, false_and]
    exact reaches_throw

theorem reaches_require {p : Prop} [Decidable p] {e : ε} {o : Outcome κ Unit} :
    (require p e : Prog σ κ ε Unit).Reaches l o ↔ p ∧ o = .returns () := by
  unfold require
  by_cases hp : p
  · simp only [hp, true_and]
    exact reaches_pure
  · simp only [hp, false_and]
    exact reaches_throw

theorem reaches_orThrow_bind {v : Option α} {e : ε} : (orThrow v e >>= f).Reaches l o ↔
    ∃ a, v = some a ∧ (f a).Reaches l o := by
  cases v with
  | none =>
      simp only [reduceCtorEq, false_and, exists_false]
      exact reaches_throw
  | some a =>
      simp only [Option.some.injEq, exists_eq_left']
      exact Iff.rfl

theorem reaches_orThrow {v : Option α} {e : ε} {o : Outcome κ α} :
    (orThrow v e).Reaches l o ↔ ∃ a, v = some a ∧ o = .returns a := by
  cases v with
  | none =>
      simp only [reduceCtorEq, false_and, exists_false]
      exact reaches_throw
  | some a =>
      simp only [Option.some.injEq, exists_eq_left']
      exact reaches_pure

theorem reaches_ite {c : Prop} [Decidable c] {p q : Prog σ κ ε β} :
    (if c then p else q).Reaches l o ↔ (c ∧ p.Reaches l o) ∨ (¬ c ∧ q.Reaches l o) := by
  by_cases hc : c <;> simp [hc]

end Unfold

/-- A program over a part of a store has seen that part of the stores. -/
theorem reaches_lift {τ κ' : Type} {view : τ → σ} {emb : κ → κ'} {p : Prog σ κ ε α}
    {l : List τ} {k : κ'} (h : (p.lift view emb).Reaches l (.commits k)) :
    ∃ c, k = emb c ∧ p.Reaches (l.map view) (.commits c) := by
  induction p generalizing l with
  | pure a => cases h
  | throw e => exact h.elim
  | read next ih =>
      cases l with
      | nil => exact h.elim
      | cons s l => exact ih _ h
  | commit c next ih =>
      cases l with
      | nil =>
          cases h
          exact ⟨c, rfl, rfl⟩
      | cons s l => exact ih _ h

end Prog

/-- What the session of a commit has seen before it. -/
theorem System.reaches_of_thread {σ κ ε ι η : Type} {S : System σ κ ε (Nat × ι) η}
    {ms : List (Move ι η)} {s : σ} {n : Nat} {k : κ} {next : σ → Prog σ κ ε Unit}
    (h : (S.runFrom s ms).threads[n]? = some (.commit k next)) :
    ∃ i, (calls ms)[n]? = some i ∧ (S.prog (n, i)).Reaches (S.seenBy s ms n) (.commits k) := by
  obtain ⟨i, hi, hfollow⟩ := session_follows h
  exact ⟨i, hi, Prog.reaches_of_follow hfollow.symm⟩

/-- A call in progress that has come to a commit makes it next. -/
theorem System.thread_of_reaches {σ κ ε ι η : Type} {S : System σ κ ε (Nat × ι) η}
    {ms : List (Move ι η)} {s : σ} {n : Nat} {i : ι} {k : κ}
    (hlt : n < (S.runFrom s ms).threads.length) (hi : (calls ms)[n]? = some i)
    (hk : (S.prog (n, i)).Reaches (S.seenBy s ms n) (.commits k)) :
    ∃ next, (S.runFrom s ms).threads[n]? = some (.commit k next) := by
  obtain ⟨q, hq⟩ : ∃ q, (S.runFrom s ms).threads[n]? = some q :=
    ⟨_, List.getElem?_eq_getElem hlt⟩
  obtain ⟨i', hi', rfl⟩ := session_follows hq
  cases hi.symm.trans hi'
  obtain ⟨next, hnext⟩ := Prog.follow_of_reaches hk
  exact ⟨next, hnext ▸ hq⟩

/-- A call that comes to a commit where it takes its next step makes it. -/
theorem System.made_of_reaches {σ κ ε ι η : Type} {S : System σ κ ε (Nat × ι) η}
    {ms : List (Move ι η)} {s u : σ} {n : Nat} {i : ι} {k : κ} {l₁ l₂ : List σ}
    (hi : (calls ms)[n]? = some i) (hseen : S.seenBy s ms n = l₁ ++ u :: l₂)
    (hk : (S.prog (n, i)).Reaches l₁ (.commits k)) : S.Made ms s n k u := by
  obtain ⟨ms₁, ms₂, rfl, hu, hl, hlt⟩ := seenBy_split hseen
  have hin : n < (calls ms₁).length := by
    obtain ⟨i', hi', -⟩ := session_follows (List.getElem?_eq_getElem hlt)
    exact (List.getElem?_eq_some_iff.mp hi').1
  rw [calls_append, List.getElem?_append_left hin] at hi
  obtain ⟨next, hnext⟩ := thread_of_reaches hlt hi (hl ▸ hk)
  exact ⟨ms₁, ms₂, next, rfl, hnext, hu⟩

end Interleave
