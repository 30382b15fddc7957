import ServeProof.Interleave.Eval

/-!
# ServeProof.Interleave.Lockstep

Two programs in lockstep, in two stores that are related: they read at the
same steps, their commits keep the stores related, and they end in results that
are related, or in the same error.

Whatever the related stores differ in is not seen in the results
(`Lockstep.eval`).
-/

namespace Interleave

/-- Related results, or the same error. -/
def Agree {ε α α' : Type} (Q : α → α' → Prop) : Except ε α → Except ε α' → Prop
  | .ok a, .ok a' => Q a a'
  | .error e, .error e' => e = e'
  | _, _ => False

theorem Agree.eq {ε α : Type} {r r' : Except ε α} (h : Agree Eq r r') : r = r' := by
  cases r with
  | ok a =>
      cases r' with
      | ok a' => exact congrArg Except.ok h
      | error e' => exact h.elim
  | error e =>
      cases r' with
      | ok a' => exact h.elim
      | error e' => exact congrArg Except.error h

namespace Prog

variable {σ κ ε α α' β β' : Type}

def Lockstep (apply : κ → σ → σ) (R : σ → σ → Prop) (Q : α → α' → Prop) :
    Prog σ κ ε α → Prog σ κ ε α' → Prop
  | pure a, pure a' => Q a a'
  | throw e, throw e' => e = e'
  | read next, read next' => ∀ s s', R s s' → Lockstep apply R Q (next s) (next' s')
  | commit c next, commit c' next' => ∀ s s', R s s' →
      R (apply c s) (apply c' s') ∧ Lockstep apply R Q (next s) (next' s')
  | _, _ => False

variable {apply : κ → σ → σ} {R : σ → σ → Prop}

/-- **The rule**: related stores give related results, and stay related. -/
theorem Lockstep.eval {Q : α → α' → Prop} {p : Prog σ κ ε α} {p' : Prog σ κ ε α'}
    (h : Lockstep apply R Q p p') {s s' : σ} (hs : R s s') :
    Agree Q (p.eval apply s).1 (p'.eval apply s').1 ∧
      R (p.eval apply s).2 (p'.eval apply s').2 := by
  induction p generalizing p' s s' with
  | pure a =>
      cases p' with
      | pure a' => exact ⟨h, hs⟩
      | throw | read | commit => exact h.elim
  | throw e =>
      cases p' with
      | throw e' => exact ⟨h, hs⟩
      | pure | read | commit => exact h.elim
  | read next ih =>
      cases p' with
      | read next' => exact ih s (h s s' hs) hs
      | pure | throw | commit => exact h.elim
  | commit c next ih =>
      cases p' with
      | commit c' next' =>
          obtain ⟨hR, hn⟩ := h s s' hs
          exact ih s hn hR
      | pure | throw | read => exact h.elim

/-- The sequencing rule. -/
theorem Lockstep.bind {Q : α → α' → Prop} {Q' : β → β' → Prop} {p : Prog σ κ ε α}
    {p' : Prog σ κ ε α'} {f : α → Prog σ κ ε β} {f' : α' → Prog σ κ ε β'}
    (h : Lockstep apply R Q p p') (hf : ∀ a a', Q a a' → Lockstep apply R Q' (f a) (f' a')) :
    Lockstep apply R Q' (p >>= f) (p' >>= f') := by
  change Lockstep apply R Q' (p.bind f) (p'.bind f')
  induction p generalizing p' with
  | pure a =>
      cases p' with
      | pure a' => exact hf a a' h
      | throw | read | commit => exact h.elim
  | throw e =>
      cases p' with
      | throw e' => exact h
      | pure | read | commit => exact h.elim
  | read next ih =>
      cases p' with
      | read next' => exact fun s s' hs => ih s (h s s' hs)
      | pure | throw | commit => exact h.elim
  | commit c next ih =>
      cases p' with
      | commit c' next' =>
          intro s s' hs
          obtain ⟨hR, hn⟩ := h s s' hs
          exact ⟨hR, ih s hn⟩
      | pure | throw | read => exact h.elim

section Unfold

variable {Q : β → β' → Prop} {f : α → Prog σ κ ε β} {f' : α' → Prog σ κ ε β'}

theorem lockstep_pure {b : β} {b' : β'} :
    Lockstep apply R Q (Pure.pure b : Prog σ κ ε β) (Pure.pure b') ↔ Q b b' := by
  change Lockstep apply R Q (.pure b) (.pure b') ↔ Q b b'
  rw [Lockstep]

theorem lockstep_get_bind {g : σ → α} {g' : σ → α'}
    (h : ∀ s s', R s s' → Lockstep apply R Q (f (g s)) (f' (g' s'))) :
    Lockstep apply R Q (get g >>= f) (get g' >>= f') := h

theorem lockstep_get {Q : α → α' → Prop} {g : σ → α} {g' : σ → α'}
    (h : ∀ s s', R s s' → Q (g s) (g' s')) :
    Lockstep apply R Q (get g : Prog σ κ ε α) (get g') := h

theorem lockstep_putGet_bind {c c' : κ} {g : σ → α} {g' : σ → α'}
    (hR : ∀ s s', R s s' → R (apply c s) (apply c' s'))
    (h : ∀ s s', R s s' → Lockstep apply R Q (f (g s)) (f' (g' s'))) :
    Lockstep apply R Q (putGet c g >>= f) (putGet c' g' >>= f') :=
  fun s s' hs => ⟨hR s s' hs, h s s' hs⟩

theorem lockstep_put_bind {c c' : κ} {f : Unit → Prog σ κ ε β} {f' : Unit → Prog σ κ ε β'}
    (hR : ∀ s s', R s s' → R (apply c s) (apply c' s')) (h : Lockstep apply R Q (f ()) (f' ())) :
    Lockstep apply R Q (put c >>= f) (put c' >>= f') :=
  fun s s' hs => ⟨hR s s' hs, h⟩

theorem lockstep_require_bind {p p' : Prop} [Decidable p] [Decidable p'] {e : ε}
    {f : Unit → Prog σ κ ε β} {f' : Unit → Prog σ κ ε β'} (hp : p ↔ p')
    (h : p → Lockstep apply R Q (f ()) (f' ())) :
    Lockstep apply R Q (require p e >>= f) (require p' e >>= f') := by
  unfold require
  by_cases hc : p
  · simp only [if_pos hc, if_pos (hp.mp hc)]
    exact h hc
  · simp only [if_neg hc, if_neg fun h => hc (hp.mpr h)]
    exact rfl

theorem lockstep_orThrow {Q : α → α' → Prop} {o : Option α} {o' : Option α'} {e : ε}
    (h : Option.Rel Q o o') : Lockstep apply R Q (orThrow o e) (orThrow o' e) := by
  cases h with
  | none => exact rfl
  | some h => exact h

theorem lockstep_orThrow_self {o : Option α} {e : ε} :
    Lockstep apply R Eq (orThrow o e) (orThrow o e) := by
  cases o with
  | none => exact rfl
  | some a => exact rfl

end Unfold

end Prog

end Interleave
