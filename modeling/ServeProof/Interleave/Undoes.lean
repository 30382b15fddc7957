import Mathlib.Data.List.Infix
import ServeProof.Interleave.Eval

/-!
# ServeProof.Interleave.Undoes

Programs that run alone, and a property of the store that some commits end.

`ok` admits the commits that the property outlives.  A program `Undoes` it where
it is gone after every run with a commit that is not admitted.  If every call of
a system does, the property holds along a sequence of calls exactly when all
their commits are admitted (`holds_along_iff`).
-/

namespace Interleave

namespace Prog

variable {σ κ ε α β : Type} {apply : κ → σ → σ} {ok : κ → σ → Prop}

/-! ## Admitted commits -/

theorem admitted_bind {p : Prog σ κ ε α} {f : α → Prog σ κ ε β} {s : σ} :
    (p >>= f).Admitted apply ok s ↔ p.Admitted apply ok s ∧
      ∀ a, (p.eval apply s).1 = .ok a → (f a).Admitted apply ok (p.eval apply s).2 := by
  change (p.bind f).Admitted apply ok s ↔ _
  induction p generalizing s with
  | pure a =>
      refine ⟨fun h => ⟨trivial, fun b hb => ?_⟩, fun h => h.2 a rfl⟩
      cases hb
      exact h
  | throw e => exact ⟨fun _ => ⟨trivial, nofun⟩, fun _ => trivial⟩
  | read next ih => exact ih s
  | commit c next ih =>
      simp only [Prog.bind, Admitted, eval, ih s]
      exact and_assoc.symm

theorem admitted_get_bind {g : σ → α} {f : α → Prog σ κ ε β} {s : σ} :
    (get g >>= f).Admitted apply ok s ↔ (f (g s)).Admitted apply ok s := Iff.rfl

theorem admitted_put_bind {c : κ} {f : Unit → Prog σ κ ε β} {s : σ} :
    (put c >>= f).Admitted apply ok s ↔ ok c s ∧ (f ()).Admitted apply ok (apply c s) := Iff.rfl

theorem admitted_orThrow_bind {o : Option α} {e : ε} {f : α → Prog σ κ ε β} {s : σ} :
    (Prog.orThrow o e >>= f).Admitted apply ok s ↔ ∀ a, o = some a → (f a).Admitted apply ok s := by
  cases o with
  | none => exact ⟨fun _ => nofun, fun _ => trivial⟩
  | some a => exact ⟨fun h b hb => Option.some.inj hb ▸ h, fun h => h a rfl⟩

/-- Where all commits of a program are harmless, it is admitted. -/
theorem Only.admitted {harmless : κ → Prop} (h : ∀ c s, harmless c → ok c s)
    {p : Prog σ κ ε α} (hp : p.Only harmless) (s : σ) : p.Admitted apply ok s := by
  induction p generalizing s with
  | pure a => trivial
  | throw e => trivial
  | read next ih => exact ih s (hp s) s
  | commit c next ih => exact ⟨h c s hp.1, ih s (hp.2 s) (apply c s)⟩

/-- What an admitted commit keeps, a program whose commits are admitted keeps. -/
theorem Admitted.eval {P : σ → Prop} (hcommit : ∀ c s, P s → ok c s → P (apply c s))
    {p : Prog σ κ ε α} {s : σ} (hp : p.Admitted apply ok s) (hs : P s) :
    P (p.eval apply s).2 := by
  induction p generalizing s with
  | pure a => exact hs
  | throw e => exact hs
  | read next ih => exact ih s hp hs
  | commit c next ih => exact ih s hp.2 (hcommit c s hs hp.1)

theorem Admitted.and {ok' : κ → σ → Prop} {p : Prog σ κ ε α} {s : σ}
    (hp : p.Admitted apply ok s) (hp' : p.Admitted apply ok' s) :
    p.Admitted apply (fun c s => ok c s ∧ ok' c s) s := by
  induction p generalizing s with
  | pure a => trivial
  | throw e => trivial
  | read next ih => exact ih s hp hp'
  | commit c next ih => exact ⟨⟨hp.1, hp'.1⟩, ih s hp.2 hp'.2⟩

/-! ## Programs over a part of the store -/

section Lift

variable {τ κ' : Type} {view : τ → σ} {emb : κ → κ'} {apply' : κ' → τ → τ}

theorem eval_lift (hview : ∀ c t, view (apply' (emb c) t) = apply c (view t)) (p : Prog σ κ ε α)
    (t : τ) : view ((p.lift view emb).eval apply' t).2 = (p.eval apply (view t)).2 := by
  induction p generalizing t with
  | pure a => rfl
  | throw e => rfl
  | read next ih => exact ih (view t) t
  | commit c next ih => exact (ih (view t) _).trans (by rw [hview c t]; rfl)

theorem admitted_lift (hview : ∀ c t, view (apply' (emb c) t) = apply c (view t))
    {ok' : κ' → τ → Prop} (hok : ∀ c t, ok c (view t) → ok' (emb c) t) {p : Prog σ κ ε α} {t : τ}
    (hp : p.Admitted apply ok (view t)) : (p.lift view emb).Admitted apply' ok' t := by
  induction p generalizing t with
  | pure a => trivial
  | throw e => trivial
  | read next ih => exact ih (view t) hp
  | commit c next ih => exact ⟨hok c t hp.1, ih (view t) (by rw [hview c t]; exact hp.2)⟩

end Lift

/-! ## Programs that undo a property -/

/-- What the program ends is gone after it, and it never comes back. -/
structure Undoes (apply : κ → σ → σ) (ok : κ → σ → Prop) (gone : σ → Prop)
    (p : Prog σ κ ε α) : Prop where
  stays : ∀ s, gone s → gone (p.eval apply s).2
  undone : ∀ s, ¬ p.Admitted apply ok s → gone (p.eval apply s).2

variable {gone : σ → Prop}

theorem Undoes.bind {p : Prog σ κ ε α} {f : α → Prog σ κ ε β} (hp : p.Undoes apply ok gone)
    (hf : ∀ a, (f a).Undoes apply ok gone) : (p >>= f).Undoes apply ok gone := by
  have hrest {s : σ} (hgone : gone (p.eval apply s).2) : gone ((p >>= f).eval apply s).2 := by
    rw [eval_bind]
    rcases hrun : p.eval apply s with ⟨a | e, t⟩
    · rw [hrun] at hgone
      exact hgone
    · rw [hrun] at hgone
      exact (hf _).stays t hgone
  refine ⟨fun s hs => hrest (hp.stays s hs), fun s hnot => ?_⟩
  by_cases had : p.Admitted apply ok s
  · rw [admitted_bind, not_and] at hnot
    have hnot := hnot had
    push Not at hnot
    obtain ⟨a, ha, hnot⟩ := hnot
    rw [eval_bind]
    rcases hrun : p.eval apply s with ⟨e | b, t⟩
    · rw [hrun] at ha
      cases ha
    · rw [hrun] at ha hnot
      cases ha
      exact (hf _).undone t hnot
  · exact hrest (hp.undone s had)

/-- A program of harmless commits. -/
theorem Undoes.of_only {harmless : κ → Prop} (hok : ∀ c s, harmless c → ok c s)
    (hgone : ∀ c s, harmless c → gone s → gone (apply c s)) {p : Prog σ κ ε α}
    (hp : p.Only harmless) : p.Undoes apply ok gone where
  stays _ hs := Admitted.eval (fun c s hs hc => hgone c s hc hs)
    (hp.admitted (fun _ _ h => h) _) hs
  undone s hnot := absurd (hp.admitted hok s) hnot

theorem undoes_pure (a : α) : (Pure.pure a : Prog σ κ ε α).Undoes apply ok gone where
  stays _ hs := hs
  undone _ hnot := absurd trivial hnot

theorem undoes_throw (e : ε) : (throw e : Prog σ κ ε α).Undoes apply ok gone where
  stays _ hs := hs
  undone _ hnot := absurd trivial hnot

theorem undoes_get_bind {g : σ → α} {f : α → Prog σ κ ε β}
    (h : ∀ a, (f a).Undoes apply ok gone) : (get g >>= f).Undoes apply ok gone where
  stays s hs := (h (g s)).stays s hs
  undone s hnot := (h (g s)).undone s hnot

theorem Undoes.orThrow {o : Option α} {e : ε} :
    (Prog.orThrow o e : Prog σ κ ε α).Undoes apply ok gone := by
  cases o with
  | some a => exact undoes_pure a
  | none => exact undoes_throw e

theorem Undoes.require {c : Prop} [Decidable c] {e : ε} :
    (Prog.require c e : Prog σ κ ε Unit).Undoes apply ok gone := by
  unfold Prog.require
  split
  · exact undoes_pure ()
  · exact undoes_throw e

theorem Undoes.when {c : Prop} [Decidable c] {p : Prog σ κ ε Unit} (hp : p.Undoes apply ok gone) :
    (when c p).Undoes apply ok gone := by
  unfold Prog.when
  split
  · exact hp
  · exact undoes_pure ()

theorem Undoes.forEach {xs : List β} {body : β → Prog σ κ ε Unit}
    (h : ∀ x, (body x).Undoes apply ok gone) : (forEach xs body).Undoes apply ok gone := by
  induction xs with
  | nil => exact undoes_pure ()
  | cons x xs ih => exact (h x).bind fun _ => ih

theorem Undoes.lift {τ κ' : Type} {view : τ → σ} {emb : κ → κ'} {apply' : κ' → τ → τ}
    {ok' : κ' → τ → Prop} (hview : ∀ c t, view (apply' (emb c) t) = apply c (view t))
    (hok : ∀ c t, ok c (view t) → ok' (emb c) t) {p : Prog σ κ ε α}
    (hp : p.Undoes apply ok gone) :
    (p.lift view emb).Undoes apply' ok' fun t => gone (view t) where
  stays t ht := by
    rw [eval_lift hview]
    exact hp.stays _ ht
  undone t hnot := by
    rw [eval_lift hview]
    exact hp.undone _ fun had => hnot (admitted_lift hview hok had)

end Prog

/-! ## Sequences of calls -/

namespace System

open Prog

variable {σ κ ε ι η : Type} {S : System σ κ ε ι η} {ok ok' : κ → σ → Prop}

/-- A property that every commit that is not admitted ends holds along a sequence of
calls exactly when all their commits are admitted. -/
theorem holds_along_iff {P : σ → Prop}
    (hcommit : ∀ c s, P s → ok c s → ok' c s → P (S.apply c s))
    (henv : ∀ e s, P s → P (S.env e s))
    (hends : ∀ i s, ¬ (S.prog i).Admitted S.apply ok s → ¬ P (S.evalOp (.call i) s))
    {ops : List (Op ι η)} {s : σ} (hs : P s)
    (had : S.AdmittedAll ok' (fun _ _ => True) ops s) :
    (∀ ops₁, ops₁ <+: ops → P (S.evalAll ops₁ s)) ↔
      S.AdmittedAll ok (fun _ _ => True) ops s := by
  induction ops generalizing s with
  | nil =>
      refine ⟨fun _ => trivial, fun _ ops₁ h => ?_⟩
      rw [List.prefix_nil] at h
      exact h ▸ hs
  | cons op ops ih =>
      have hcons (op : Op ι η) : (∀ ops₁, ops₁ <+: op :: ops → P (S.evalAll ops₁ s)) ↔
          ∀ ops₁, ops₁ <+: ops → P (S.evalAll ops₁ (S.evalOp op s)) := by
        refine ⟨fun h ops₁ hpre => h (op :: ops₁) (List.cons_prefix_cons.mpr ⟨rfl, hpre⟩),
          fun h ops₁ hpre => ?_⟩
        cases ops₁ with
        | nil => exact hs
        | cons op' ops₁ =>
            obtain ⟨rfl, hrest⟩ := List.cons_prefix_cons.mp hpre
            exact h ops₁ hrest
      rw [hcons]
      cases op with
      | env e => exact (ih (henv e s hs) had.2).trans ⟨fun h => ⟨trivial, h⟩, fun h => h.2⟩
      | call i =>
          by_cases hi : (S.prog i).Admitted S.apply ok s
          · have hnext : P (S.evalOp (.call i) s) :=
              (hi.and had.1).eval (fun c s hs hc => hcommit c s hs hc.1 hc.2) hs
            exact (ih hnext had.2).trans ⟨fun h => ⟨hi, h⟩, fun h => h.2⟩
          · have hgone := hends i s hi
            exact ⟨fun h => absurd (h [] List.nil_prefix) hgone, fun h => absurd h.1 hi⟩

end System

end Interleave
