import ServeProof.Interleave.Eval

/-!
# ServeProof.Interleave.Ends

What a program that runs alone leaves when it ends, by its result or by an
error: `Ends`.  Between two of its commits nothing need hold.

Where `Sat` speaks of the store at each commit, `Ends` only speaks of the last
one; so a program may break an invariant as long as it mends it before it can
return or throw.
-/

namespace Interleave

namespace Prog

variable {σ κ ε α β : Type}

/-- The program, run alone from `s`, returns in a store where `post` holds or
throws in one where `fails` holds -- when each of its commits is admitted. -/
def Ends (apply : κ → σ → σ) (ok : κ → σ → Prop) (fails : σ → Prop) :
    Prog σ κ ε α → σ → (α → σ → Prop) → Prop
  | pure a, s, post => post a s
  | throw _, s, _ => fails s
  | read next, s, post => (next s).Ends apply ok fails s post
  | commit c next, s, post => ok c s → (next s).Ends apply ok fails (apply c s) post

variable {apply : κ → σ → σ} {ok : κ → σ → Prop} {fails : σ → Prop}

theorem Ends.eval {p : Prog σ κ ε α} {s : σ} {post : α → σ → Prop}
    (h : p.Ends apply ok fails s post) (had : p.Admitted apply ok s)
    (hpost : ∀ a t, post a t → fails t) : fails (p.eval apply s).2 := by
  induction p generalizing s with
  | pure a => exact hpost a s h
  | throw e => exact h
  | read next ih => exact ih s h had
  | commit c next ih => exact ih s (h had.1) had.2

theorem Ends.mono {p : Prog σ κ ε α} {s : σ} {post post' : α → σ → Prop}
    (h : p.Ends apply ok fails s post) (hpost : ∀ a t, post a t → post' a t) :
    p.Ends apply ok fails s post' := by
  induction p generalizing s with
  | pure a => exact hpost a s h
  | throw e => exact h
  | read next ih => exact ih s h
  | commit c next ih => exact fun hok => ih s (h hok)

/-- A weaker promise for an error. -/
theorem Ends.imp_fails {fails' : σ → Prop} {p : Prog σ κ ε α} {s : σ} {post : α → σ → Prop}
    (h : p.Ends apply ok fails s post) (hfails : ∀ t, fails t → fails' t) :
    p.Ends apply ok fails' s post := by
  induction p generalizing s with
  | pure a => exact h
  | throw e => exact hfails s h
  | read next ih => exact ih s h
  | commit c next ih => exact fun hok => ih s (h hok)

/-- The sequencing rule. -/
theorem Ends.bind {p : Prog σ κ ε α} {f : α → Prog σ κ ε β} {s : σ} {post : β → σ → Prop}
    (h : p.Ends apply ok fails s fun a t => (f a).Ends apply ok fails t post) :
    (p >>= f).Ends apply ok fails s post := by
  change (p.bind f).Ends apply ok fails s post
  induction p generalizing s with
  | pure a => exact h
  | throw e => exact h
  | read next ih => exact ih s h
  | commit c next ih => exact fun hok => ih s (h hok)

section Unfold

variable {s : σ} {post : β → σ → Prop} {f : α → Prog σ κ ε β}

theorem ends_get_bind {g : σ → α} : (get g >>= f).Ends apply ok fails s post ↔
    (f (g s)).Ends apply ok fails s post := Iff.rfl

theorem ends_put_bind {c : κ} {f : Unit → Prog σ κ ε β} :
    (put c >>= f).Ends apply ok fails s post ↔
      (ok c s → (f ()).Ends apply ok fails (apply c s) post) := Iff.rfl

theorem ends_putGet_bind {c : κ} {g : σ → α} : (putGet c g >>= f).Ends apply ok fails s post ↔
    (ok c s → (f (g s)).Ends apply ok fails (apply c s) post) := Iff.rfl

theorem Ends.require {p : Prop} [Decidable p] {e : ε} {f : Unit → Prog σ κ ε β} (hs : fails s)
    (h : p → (f ()).Ends apply ok fails s post) :
    (Prog.require p e >>= f).Ends apply ok fails s post := by
  unfold Prog.require
  split
  · next hp => exact h hp
  · exact hs

theorem Ends.orThrow {o : Option α} {e : ε} (hs : fails s)
    (h : ∀ a, o = some a → (f a).Ends apply ok fails s post) :
    (Prog.orThrow o e >>= f).Ends apply ok fails s post := by
  cases o with
  | none => exact hs
  | some a => exact h a rfl

theorem Ends.ite {c : Prop} [Decidable c] {p q : Prog σ κ ε β}
    (hp : c → p.Ends apply ok fails s post) (hq : ¬ c → q.Ends apply ok fails s post) :
    (if c then p else q).Ends apply ok fails s post := by
  split
  · next hc => exact hp hc
  · next hc => exact hq hc

theorem Ends.when {c : Prop} [Decidable c] {p : Prog σ κ ε Unit} {post : Unit → σ → Prop}
    (hp : c → p.Ends apply ok fails s post) (hs : ¬ c → post () s) :
    (Prog.when c p).Ends apply ok fails s post := by
  unfold Prog.when
  split
  · next hc => exact hp hc
  · next hc => exact hs hc

end Unfold

/-- The loop rule: `J xs` holds when the elements `xs` are still to be run. -/
theorem Ends.forEach {J : List β → σ → Prop} {body : β → Prog σ κ ε Unit}
    (hbody : ∀ x xs s, J (x :: xs) s → (body x).Ends apply ok fails s fun _ t => J xs t)
    {xs : List β} {s : σ} (hs : J xs s) :
    (Prog.forEach xs body).Ends apply ok fails s fun _ t => J [] t := by
  induction xs generalizing s with
  | nil => exact hs
  | cons x xs ih => exact Ends.bind ((hbody x xs s hs).mono fun _ _ ht => ih ht)

/-- The loop rule, for a loop that collects results. -/
theorem Ends.mapEach {J : List β → σ → Prop} {body : β → Prog σ κ ε α}
    (hbody : ∀ x xs s, J (x :: xs) s → (body x).Ends apply ok fails s fun _ t => J xs t)
    {xs : List β} {s : σ} (hs : J xs s) :
    (Prog.mapEach xs body).Ends apply ok fails s fun _ t => J [] t := by
  induction xs generalizing s with
  | nil => exact hs
  | cons x xs ih =>
      exact Ends.bind ((hbody x xs s hs).mono fun _ _ ht => Ends.bind ((ih ht).mono fun _ _ h => h))

end Prog

/-- A property that every call restores before it ends holds after every
sequence of calls. -/
theorem System.evalAll_of_ends {σ κ ε ι η : Type} {S : System σ κ ε ι η} {ok : κ → σ → Prop}
    {okEnv : η → σ → Prop} {inv : σ → Prop}
    (hcall : ∀ i s, inv s → (S.prog i).Admitted S.apply ok s →
      inv ((S.prog i).eval S.apply s).2)
    (henv : ∀ e s, inv s → okEnv e s → inv (S.env e s))
    {ops : List (Op ι η)} {s : σ} (hs : inv s) (had : S.AdmittedAll ok okEnv ops s) :
    inv (S.evalAll ops s) := by
  induction ops generalizing s with
  | nil => exact hs
  | cons op ops ih =>
      cases op with
      | env e => exact ih (henv e s hs had.1) had.2
      | call i => exact ih (hcall i s hs had.1) had.2

end Interleave
