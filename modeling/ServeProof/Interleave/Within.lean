import ServeProof.Interleave.Eval

/-!
# ServeProof.Interleave.Within

Unfolding a program that is part of a larger one: `lift_*` for a program over a
part of the store, `attempt_*` for one whose error is caught.

* `ofExcept` -- a result that may be an error, as a step of a program;
* `Sat.lift` -- what a program over a part of the store knows.
-/

namespace Interleave
namespace Prog

variable {σ τ κ κ' ε α β : Type}

/-! ## Over a part of the store -/

section Lift

variable {view : τ → σ} {emb : κ → κ'} {f : α → Prog σ κ ε β}

theorem lift_bind (p : Prog σ κ ε α) :
    (p >>= f).lift view emb = p.lift view emb >>= fun a => (f a).lift view emb := by
  change (p.bind f).lift view emb = (p.lift view emb).bind fun a => (f a).lift view emb
  induction p with
  | pure a => rfl
  | throw e => rfl
  | read next ih => exact congrArg Prog.read (funext fun t => ih (view t))
  | commit c next ih => exact congrArg (Prog.commit (emb c)) (funext fun t => ih (view t))

@[simp] theorem lift_pure (a : α) :
    (Pure.pure a : Prog σ κ ε α).lift view emb = Pure.pure a := rfl

@[simp] theorem lift_get (g : σ → α) :
    (get g : Prog σ κ ε α).lift view emb = get fun t => g (view t) := rfl

@[simp] theorem lift_put (c : κ) :
    (put c : Prog σ κ ε Unit).lift view emb = put (emb c) := rfl

@[simp] theorem lift_putGet (c : κ) (g : σ → α) :
    (putGet c g : Prog σ κ ε α).lift view emb = putGet (emb c) fun t => g (view t) := rfl

@[simp] theorem lift_require (p : Prop) [Decidable p] (e : ε) :
    (require p e : Prog σ κ ε Unit).lift view emb = require p e := by
  unfold require
  split <;> rfl

@[simp] theorem lift_orThrow (o : Option α) (e : ε) :
    (orThrow o e : Prog σ κ ε α).lift view emb = orThrow o e := by
  cases o <;> rfl

end Lift

/-! ## With the error caught -/

section Attempt

variable {f : α → Prog σ κ ε β}

@[simp] theorem attempt_pure (a : α) :
    (Pure.pure a : Prog σ κ ε α).attempt = Pure.pure (.ok a) := rfl

@[simp] theorem attempt_get_bind (g : σ → α) :
    (get g >>= f).attempt = get g >>= fun a => (f a).attempt := rfl

@[simp] theorem attempt_put_bind (c : κ) {f : Unit → Prog σ κ ε β} :
    (put c >>= f).attempt = put c >>= fun _ => (f ()).attempt := rfl

@[simp] theorem attempt_putGet_bind (c : κ) (g : σ → α) :
    (putGet c g >>= f).attempt = putGet c g >>= fun a => (f a).attempt := rfl

@[simp] theorem attempt_require_bind (p : Prop) [Decidable p] (e : ε) {f : Unit → Prog σ κ ε β} :
    (require p e >>= f).attempt =
      if p then (f ()).attempt else Pure.pure (.error e) := by
  unfold require
  split <;> rfl

@[simp] theorem attempt_orThrow_bind (o : Option α) (e : ε) :
    (orThrow o e >>= f).attempt =
      match o with
      | some a => (f a).attempt
      | none => Pure.pure (.error e) := by
  cases o <;> rfl

/-- What is known of a program and its result, its error caught. -/
theorem Sat.of_attempt {D : Discipline σ κ} {known : κ → σ → Prop} {p : Prog σ κ ε α} {s₀ : σ}
    {post : Except ε α → σ → Prop} (h : p.attempt.Sat D known s₀ post) :
    p.Sat D known s₀ fun a s => post (.ok a) s := by
  induction p generalizing s₀ with
  | pure a => exact h
  | throw e => trivial
  | read next ih => exact fun s hr hi => ih s (h s hr hi)
  | commit c next ih =>
      intro s hr hi hok
      obtain ⟨hk, hn⟩ := h s hr hi hok
      exact ⟨hk, ih s hn⟩

end Attempt

/-! ## A result that may be an error -/

def ofExcept : Except ε α → Prog σ κ ε α
  | .ok a => .pure a
  | .error e => .throw e

theorem sat_ofExcept_bind {D : Discipline σ κ} {known : κ → σ → Prop} {r : Except ε α}
    {f : α → Prog σ κ ε β} {s₀ : σ} {post : β → σ → Prop} :
    (ofExcept r >>= f).Sat D known s₀ post ↔ ∀ a, r = .ok a → (f a).Sat D known s₀ post := by
  cases r with
  | error e =>
      simp only [reduceCtorEq, false_implies, implies_true, iff_true]
      trivial
  | ok a =>
      simp only [Except.ok.injEq, forall_eq']
      exact Iff.rfl

theorem only_ofExcept {ok : κ → Prop} (r : Except ε α) :
    (ofExcept r : Prog σ κ ε α).Only ok := by
  cases r <;> trivial

/-! ## What a program over a part of the store knows -/

/-- What holds of the commands a program makes it knows whatever the store is. -/
theorem Only.sat {D : Discipline σ κ} {ok : κ → Prop} {p : Prog σ κ ε α} (hp : p.Only ok)
    (s₀ : σ) : p.Sat D (fun c _ => ok c) s₀ fun _ _ => True := by
  induction p generalizing s₀ with
  | pure a => exact fun _ _ _ => trivial
  | throw e => trivial
  | read next ih => exact fun s _ _ => ih s (hp s) s
  | commit c next ih => exact fun s _ _ _ => ⟨hp.1, ih s (hp.2 s) _⟩

/-- What a program knows over a part of the store it knows over the whole. -/
theorem Sat.lift {D : Discipline σ κ} {D' : Discipline τ κ'} {known : κ → σ → Prop}
    {known' : κ' → τ → Prop} {view : τ → σ} {emb : κ → κ'}
    (hrely : ∀ s t, D'.rely s t → D.rely (view s) (view t))
    (hinv : ∀ s, D'.inv s → D.inv (view s)) (hok : ∀ c s, D'.ok (emb c) s → D.ok c (view s))
    (hknown : ∀ c s, known c (view s) → known' (emb c) s)
    (happly : ∀ c s, view (D'.apply (emb c) s) = D.apply c (view s)) {p : Prog σ κ ε α} {s₀ : τ}
    {post : α → σ → Prop} (h : p.Sat D known (view s₀) post) :
    (p.lift view emb).Sat D' known' s₀ fun a s => post a (view s) := by
  induction p generalizing s₀ with
  | pure a => exact fun s hr hi => h _ (hrely _ _ hr) (hinv _ hi)
  | throw e => trivial
  | read next ih => exact fun s hr hi => ih _ (h _ (hrely _ _ hr) (hinv _ hi))
  | commit c next ih =>
      intro s hr hi hc
      obtain ⟨hk, hn⟩ := h _ (hrely _ _ hr) (hinv _ hi) (hok _ _ hc)
      rw [← happly] at hn
      exact ⟨hknown _ _ hk, ih _ hn⟩

end Prog
end Interleave
