/-!
# ServeProof.Interleave.Prog

Programs of a service that shares one store with other calls: a program is a
sequence of atomic reads and atomic commits, and whatever stands between two
of them may be interrupted by every other call.

A commit is named by a *command* `κ`; what a command does to the store is the
parameter `apply`, so that a step of any program is known by its command.

Two readings of a program are given here:

* `runFor` -- the program alone, for its first `n` steps;
* `Sat` -- what the program knows at each of its commits when other calls
  change the store in between (`Discipline.rely`).

The rules of `Sat` are the `sat_*` lemmas: unfolding a program with them gives
one first-order statement about the stores it has seen.
-/

namespace Interleave

/-- A program over the store `σ`: atomic reads, atomic commits of commands
`κ`, a result `α` or an error `ε`.  The continuation of a commit is given the
store *before* the commit, from which it reads what the commit reports (a row
count, a violated constraint). -/
inductive Prog (σ κ ε α : Type) where
  | pure (a : α)
  | throw (e : ε)
  | read (next : σ → Prog σ κ ε α)
  | commit (c : κ) (next : σ → Prog σ κ ε α)

namespace Prog

variable {σ κ ε α β : Type}

/-! ## The monad -/

def bind : Prog σ κ ε α → (α → Prog σ κ ε β) → Prog σ κ ε β
  | pure a, f => f a
  | throw e, _ => throw e
  | read next, f => read fun s => (next s).bind f
  | commit c next, f => commit c fun s => (next s).bind f

instance : Monad (Prog σ κ ε) where
  pure := Prog.pure
  bind := Prog.bind

theorem bind_assoc {γ : Type} (p : Prog σ κ ε α) (f : α → Prog σ κ ε β)
    (g : β → Prog σ κ ε γ) : (p >>= f) >>= g = p >>= fun a => f a >>= g := by
  change (p.bind f).bind g = p.bind fun a => (f a).bind g
  induction p with
  | pure a => rfl
  | throw e => rfl
  | read next ih => exact congrArg Prog.read (funext ih)
  | commit c next ih => exact congrArg (Prog.commit c) (funext ih)

/-! ## The steps a service is written with -/

/-- One atomic read. -/
def get (f : σ → α) : Prog σ κ ε α := .read fun s => .pure (f s)

/-- One atomic commit. -/
def put (c : κ) : Prog σ κ ε Unit := .commit c fun _ => .pure ()

/-- One atomic commit that reports `f` of the store it was applied to. -/
def putGet (c : κ) (f : σ → α) : Prog σ κ ε α := .commit c fun s => .pure (f s)

/-- Go on only when `p` holds. -/
def require (p : Prop) [Decidable p] (e : ε) : Prog σ κ ε Unit :=
  if p then .pure () else .throw e

/-- Go on only with a value. -/
def orThrow : Option α → ε → Prog σ κ ε α
  | some a, _ => .pure a
  | none, e => .throw e

/-- Run a program only when `c` holds. -/
def when (c : Prop) [Decidable c] (p : Prog σ κ ε Unit) : Prog σ κ ε Unit :=
  if c then p else .pure ()

/-- Run a program and catch its error. -/
def attempt : Prog σ κ ε α → Prog σ κ ε (Except ε α)
  | pure a => .pure (.ok a)
  | throw e => .pure (.error e)
  | read next => read fun s => (next s).attempt
  | commit c next => commit c fun s => (next s).attempt

/-- Run `body` on each element in turn. -/
def forEach : List β → (β → Prog σ κ ε Unit) → Prog σ κ ε Unit
  | [], _ => .pure ()
  | x :: xs, body => (body x).bind fun _ => forEach xs body

/-! ## A program alone -/

/-- Run the first `n` steps of a program with no other call in between.  The
program may break off there: a query fails, the process dies. -/
def runFor (apply : κ → σ → σ) : Nat → Prog σ κ ε α → σ → σ
  | n + 1, read next, s => runFor apply n (next s) s
  | n + 1, commit c next, s => runFor apply n (next s) (apply c s)
  | _, _, s => s

/-- Every commit among the first `n` steps of the program, run alone from `s`,
is made in a store where `ok` admits it. -/
def Allows (apply : κ → σ → σ) (ok : κ → σ → Prop) : Nat → Prog σ κ ε α → σ → Prop
  | n + 1, read next, s => Allows apply ok n (next s) s
  | n + 1, commit c next, s => ok c s ∧ Allows apply ok n (next s) (apply c s)
  | _, _, _ => True

instance decidableAllows (apply : κ → σ → σ) (ok : κ → σ → Prop) [∀ c s, Decidable (ok c s)] :
    (n : Nat) → (p : Prog σ κ ε α) → (s : σ) → Decidable (Allows apply ok n p s)
  | n + 1, read next, s => decidableAllows apply ok n (next s) s
  | n + 1, commit c next, s =>
      have := decidableAllows apply ok n (next s) (apply c s)
      inferInstanceAs (Decidable (ok c s ∧ Allows apply ok n (next s) (apply c s)))
  | 0, _, _ => isTrue trivial
  | _ + 1, pure _, _ => isTrue trivial
  | _ + 1, throw _, _ => isTrue trivial

end Prog

/-! ## What a program knows at its commits -/

/-- The setting a call runs in: what commands do, what may happen to the store
between two steps of the call (`rely`), what holds of every store it can see
(`inv`), and which commits are admitted (`ok`). -/
structure Discipline (σ κ : Type) where
  apply : κ → σ → σ
  rely : σ → σ → Prop
  inv : σ → Prop
  ok : κ → σ → Prop

/-- A rely condition that other calls can be folded into. -/
structure Discipline.Lawful (D : Discipline σ κ) : Prop where
  refl : ∀ s, D.rely s s
  trans : ∀ {s t u}, D.rely s t → D.rely t u → D.rely s u

/-- The setting of a call that runs alone: nothing happens in between. -/
def Discipline.alone (apply : κ → σ → σ) (inv : σ → Prop) (ok : κ → σ → Prop) :
    Discipline σ κ where
  apply := apply
  rely := Eq
  inv := inv
  ok := ok

theorem Discipline.alone_lawful (apply : κ → σ → σ) (inv : σ → Prop) (ok : κ → σ → Prop) :
    (Discipline.alone apply inv ok).Lawful where
  refl _ := rfl
  trans := Eq.trans

namespace Prog

variable {σ κ ε α β : Type} {D : Discipline σ κ} {known : κ → σ → Prop}

/-- From a store the call last saw as `s₀`, every commit `c` of the program is
made in a store where `known c` holds, and a result is returned in a store
where `post` holds.  A program that throws promises nothing more. -/
def Sat (D : Discipline σ κ) (known : κ → σ → Prop) :
    Prog σ κ ε α → σ → (α → σ → Prop) → Prop
  | pure a, s₀, post => ∀ s, D.rely s₀ s → D.inv s → post a s
  | throw _, _, _ => True
  | read next, s₀, post => ∀ s, D.rely s₀ s → D.inv s → (next s).Sat D known s post
  | commit c next, s₀, post =>
      ∀ s, D.rely s₀ s → D.inv s → D.ok c s →
        known c s ∧ (next s).Sat D known (D.apply c s) post

/-- What holds whatever the store was when the call went on holds of the
store it last saw. -/
theorem sat_of_rely (hD : D.Lawful) {p : Prog σ κ ε α} {s₀ : σ} {post : α → σ → Prop}
    (h : ∀ s, D.rely s₀ s → D.inv s → p.Sat D known s post) : p.Sat D known s₀ post := by
  cases p with
  | pure a => exact fun s hr hi => h s hr hi s (hD.refl s) hi
  | throw e => trivial
  | read next => exact fun s hr hi => h s hr hi s (hD.refl s) hi
  | commit c next => exact fun s hr hi hok => h s hr hi s (hD.refl s) hi hok

/-- Waiting longer before the next step changes nothing. -/
theorem Sat.wait (hD : D.Lawful) {p : Prog σ κ ε α} {s₀ s₁ : σ} {post : α → σ → Prop}
    (h : p.Sat D known s₀ post) (hr : D.rely s₀ s₁) : p.Sat D known s₁ post := by
  cases p with
  | pure a => exact fun s hr' hi => h s (hD.trans hr hr') hi
  | throw e => trivial
  | read next => exact fun s hr' hi => h s (hD.trans hr hr') hi
  | commit c next => exact fun s hr' hi hok => h s (hD.trans hr hr') hi hok

/-- The sequencing rule. -/
theorem Sat.bind (hD : D.Lawful) {p : Prog σ κ ε α} {f : α → Prog σ κ ε β} {s₀ : σ}
    {post : β → σ → Prop}
    (h : p.Sat D known s₀ fun a s => (f a).Sat D known s post) :
    (p >>= f).Sat D known s₀ post := by
  change (p.bind f).Sat D known s₀ post
  induction p generalizing s₀ with
  | pure a => exact sat_of_rely hD h
  | throw e => trivial
  | read next ih => exact fun s hr hi => ih s (h s hr hi)
  | commit c next ih =>
      intro s hr hi hok
      obtain ⟨hk, hn⟩ := h s hr hi hok
      exact ⟨hk, ih s hn⟩

/-- A weaker postcondition. -/
theorem Sat.mono {p : Prog σ κ ε α} {s₀ : σ} {post post' : α → σ → Prop}
    (h : p.Sat D known s₀ post) (hpost : ∀ a s, post a s → post' a s) :
    p.Sat D known s₀ post' := by
  induction p generalizing s₀ with
  | pure a => exact fun s hr hi => hpost a s (h s hr hi)
  | throw e => trivial
  | read next ih => exact fun s hr hi => ih s (h s hr hi)
  | commit c next ih =>
      intro s hr hi hok
      obtain ⟨hk, hn⟩ := h s hr hi hok
      exact ⟨hk, ih s hn⟩

/-- The sequencing rule for a continuation that needs to know nothing of the
first program. -/
theorem Sat.andThen (hD : D.Lawful) {p : Prog σ κ ε α} {f : α → Prog σ κ ε β} {s₀ : σ}
    {post : β → σ → Prop} (hp : p.Sat D known s₀ fun _ _ => True)
    (hf : ∀ a s, (f a).Sat D known s post) : (p >>= f).Sat D known s₀ post :=
  Sat.bind hD (hp.mono fun a s _ => hf a s)

/-- A caught error leaves a continuation that must hold from any store. -/
theorem Sat.attempt_bind (hD : D.Lawful) {p : Prog σ κ ε α} {f : Except ε α → Prog σ κ ε β}
    {s₀ : σ} {post : β → σ → Prop} (hp : p.Sat D known s₀ fun _ _ => True)
    (hf : ∀ r s, (f r).Sat D known s post) : (p.attempt >>= f).Sat D known s₀ post := by
  refine Sat.bind hD ?_
  induction p generalizing s₀ with
  | pure a => exact fun s _ _ => hf _ s
  | throw e => exact fun s _ _ => hf _ s
  | read next ih => exact fun s hr hi => ih s (hp s hr hi)
  | commit c next ih =>
      intro s hr hi hok
      obtain ⟨hk, hn⟩ := hp s hr hi hok
      exact ⟨hk, ih s hn⟩

theorem sat_when {c : Prop} [Decidable c] {p : Prog σ κ ε Unit} {s₀ : σ}
    (hp : c → p.Sat D known s₀ fun _ _ => True) :
    (when c p).Sat D known s₀ fun _ _ => True := by
  unfold when
  split
  · next hc => exact hp hc
  · exact fun _ _ _ => trivial

/-- A loop whose body is sound from any store. -/
theorem sat_forEach (hD : D.Lawful) {xs : List β} {body : β → Prog σ κ ε Unit}
    (hbody : ∀ x ∈ xs, ∀ s, (body x).Sat D known s fun _ _ => True) (s₀ : σ) :
    (forEach xs body).Sat D known s₀ fun _ _ => True := by
  induction xs generalizing s₀ with
  | nil => exact fun _ _ _ => trivial
  | cons x xs ih =>
      refine Sat.andThen hD (hbody x List.mem_cons_self s₀) fun _ s => ?_
      exact ih (fun y hy => hbody y (List.mem_cons_of_mem x hy)) s

/-! ## What a program remembers

What a call has read it may still rely on after commits of its own, as long as
these spare what it remembers. -/

/-- Every commit of the program is one of `ok`. -/
def Only (ok : κ → Prop) : Prog σ κ ε α → Prop
  | pure _ => True
  | throw _ => True
  | read next => ∀ s, (next s).Only ok
  | commit c next => ok c ∧ ∀ s, (next s).Only ok

theorem Only.bind {ok : κ → Prop} {p : Prog σ κ ε α} {f : α → Prog σ κ ε β} (hp : p.Only ok)
    (hf : ∀ a, (f a).Only ok) : (p >>= f).Only ok := by
  change (p.bind f).Only ok
  induction p with
  | pure a => exact hf a
  | throw e => trivial
  | read next ih => exact fun s => ih s (hp s)
  | commit c next ih => exact ⟨hp.1, fun s => ih s (hp.2 s)⟩

theorem Only.when {ok : κ → Prop} {c : Prop} [Decidable c] {p : Prog σ κ ε Unit}
    (hp : p.Only ok) : (Prog.when c p).Only ok := by
  unfold Prog.when
  split
  · exact hp
  · trivial

theorem Only.ite {ok : κ → Prop} {c : Prop} [Decidable c] {p q : Prog σ κ ε α}
    (hp : p.Only ok) (hq : q.Only ok) : (if c then p else q).Only ok := by
  split
  · exact hp
  · exact hq

/-- A program knows which commits it makes. -/
theorem Sat.only {ok : κ → Prop} {p : Prog σ κ ε α} (hp : p.Only ok) {s₀ : σ}
    {post : α → σ → Prop} (h : p.Sat D known s₀ post) :
    p.Sat D (fun c s => ok c ∧ known c s) s₀ post := by
  induction p generalizing s₀ with
  | pure a => exact h
  | throw e => trivial
  | read next ih => exact fun s hr hi => ih s (hp s) (h s hr hi)
  | commit c next ih =>
      intro s hr hi hok
      obtain ⟨hk, hn⟩ := h s hr hi hok
      exact ⟨⟨hp.1, hk⟩, ih s (hp.2 s) hn⟩

/-- `since s t`: what was remembered at `s` is still so at `t`.  It outlasts
the moves of other calls, and the commits of the call itself that `spares`
admits. -/
structure Remembers (D : Discipline σ κ) (known : κ → σ → Prop) (spares : κ → Prop)
    (since : σ → σ → Prop) : Prop where
  refl : ∀ s, since s s
  trans : ∀ {s t u}, since s t → since t u → since s u
  of_rely : ∀ {s t}, D.rely s t → since s t
  of_commit : ∀ {c s}, D.inv s → D.ok c s → known c s → spares c → since s (D.apply c s)

/-- A program whose commits are all spared by a memory leaves it intact. -/
theorem Sat.remember {spares : κ → Prop} {since : σ → σ → Prop}
    (hm : Remembers D known spares since) {p : Prog σ κ ε α} (hp : p.Only spares) {s₀ : σ}
    {post : α → σ → Prop} (h : p.Sat D known s₀ post) :
    p.Sat D known s₀ fun a s => post a s ∧ since s₀ s := by
  suffices hgen : ∀ {p : Prog σ κ ε α}, p.Only spares → ∀ {r s₀}, since r s₀ →
      p.Sat D known s₀ post → p.Sat D known s₀ fun a s => post a s ∧ since r s from
    hgen hp (hm.refl s₀) h
  intro p
  induction p with
  | pure a => exact fun _ _ _ hr h s hs hi => ⟨h s hs hi, hm.trans hr (hm.of_rely hs)⟩
  | throw e => exact fun _ _ _ _ _ => trivial
  | read next ih =>
      intro hp r s₀ hr h s hs hi
      exact ih s (hp s) (hm.trans hr (hm.of_rely hs)) (h s hs hi)
  | commit c next ih =>
      intro hp r s₀ hr h s hs hi hok
      obtain ⟨hk, hn⟩ := h s hs hi hok
      have hc := hm.of_commit hi hok hk hp.1
      exact ⟨hk, ih s (hp.2 s) (hm.trans hr (hm.trans (hm.of_rely hs) hc)) hn⟩

section Family

variable {ι : Type} {spares : ι → κ → Prop} {since : ι → σ → σ → Prop} {P : ι → Prop}

theorem Only.all {p : Prog σ κ ε α} (h : ∀ i, P i → p.Only (spares i)) :
    p.Only fun c => ∀ i, P i → spares i c := by
  induction p with
  | pure a => trivial
  | throw e => trivial
  | read next ih => exact fun s => ih s fun i hi => h i hi s
  | commit c next ih => exact ⟨fun i hi => (h i hi).1, fun s => ih s fun i hi => (h i hi).2 s⟩

theorem Remembers.all (h : ∀ i, Remembers D known (spares i) (since i)) :
    Remembers D known (fun c => ∀ i, P i → spares i c) fun s t => ∀ i, P i → since i s t where
  refl s i _ := (h i).refl s
  trans hst htu i hi := (h i).trans (hst i hi) (htu i hi)
  of_rely hs i _ := (h i).of_rely hs
  of_commit hinv hok hk hc i hi := (h i).of_commit hinv hok hk (hc i hi)

end Family

/-- A loop over things that were read before it: what is remembered of `x` is
intact when its turn comes, since the turns of the others spare it. -/
theorem sat_forEach_remember {ι : Type} {spares : ι → κ → Prop} {since : ι → σ → σ → Prop}
    (hD : D.Lawful) (hm : ∀ i, Remembers D known (spares i) (since i)) {key : β → ι}
    {xs : List β} (hxs : (xs.map key).Nodup) {body : β → Prog σ κ ε Unit} {s₀ : σ}
    (hbody : ∀ x ∈ xs, ∀ s, since (key x) s₀ s → (body x).Sat D known s fun _ _ => True)
    (hspares : ∀ x ∈ xs, ∀ i, i ≠ key x → (body x).Only (spares i)) :
    (forEach xs body).Sat D known s₀ fun _ _ => True := by
  suffices hgen : ∀ s, (∀ x ∈ xs, since (key x) s₀ s) →
      (forEach xs body).Sat D known s fun _ _ => True from
    hgen s₀ fun x _ => (hm (key x)).refl s₀
  induction xs with
  | nil => exact fun _ _ _ _ _ => trivial
  | cons x xs ih =>
      rw [List.map_cons, List.nodup_cons] at hxs
      have hrest := ih hxs.2 (fun y hy => hbody y (List.mem_cons_of_mem x hy))
        (fun y hy => hspares y (List.mem_cons_of_mem x hy))
      intro s hs
      have hx := hbody x List.mem_cons_self s (hs x List.mem_cons_self)
      have hothers := hx.remember (Remembers.all (P := (· ≠ key x)) hm)
        (Only.all fun i hi => hspares x List.mem_cons_self i hi)
      refine Sat.bind hD (hothers.mono fun _ t ht => hrest t fun y hy => ?_)
      have hne : key y ≠ key x := fun h => hxs.1 (h ▸ List.mem_map_of_mem hy)
      exact (hm (key y)).trans (hs y (List.mem_cons_of_mem x hy)) (ht.2 (key y) hne)

/-! ## Unfolding a program -/

section Unfold

variable {s₀ : σ} {post : β → σ → Prop} {f : α → Prog σ κ ε β}

theorem sat_pure {b : β} :
    (Pure.pure b : Prog σ κ ε β).Sat D known s₀ post ↔
      ∀ s, D.rely s₀ s → D.inv s → post b s := Iff.rfl

theorem sat_throw {e : ε} : (Prog.throw e : Prog σ κ ε β).Sat D known s₀ post ↔ True := Iff.rfl

theorem sat_pure_bind {a : α} :
    ((Pure.pure a : Prog σ κ ε α) >>= f).Sat D known s₀ post ↔ (f a).Sat D known s₀ post :=
  Iff.rfl

theorem sat_get_bind {g : σ → α} :
    (get g >>= f).Sat D known s₀ post ↔
      ∀ s, D.rely s₀ s → D.inv s → (f (g s)).Sat D known s post := Iff.rfl

theorem sat_put_bind {c : κ} {f : Unit → Prog σ κ ε β} :
    (put c >>= f).Sat D known s₀ post ↔
      ∀ s, D.rely s₀ s → D.inv s → D.ok c s →
        known c s ∧ (f ()).Sat D known (D.apply c s) post := Iff.rfl

theorem sat_putGet_bind {c : κ} {g : σ → α} :
    (putGet c g >>= f).Sat D known s₀ post ↔
      ∀ s, D.rely s₀ s → D.inv s → D.ok c s →
        known c s ∧ (f (g s)).Sat D known (D.apply c s) post := Iff.rfl

theorem sat_put {c : κ} {post : Unit → σ → Prop} :
    (put c : Prog σ κ ε Unit).Sat D known s₀ post ↔
      ∀ s, D.rely s₀ s → D.inv s → D.ok c s →
        known c s ∧ ∀ s', D.rely (D.apply c s) s' → D.inv s' → post () s' := Iff.rfl

theorem sat_require_bind {p : Prop} [Decidable p] {e : ε} {f : Unit → Prog σ κ ε β} :
    (require p e >>= f).Sat D known s₀ post ↔ (p → (f ()).Sat D known s₀ post) := by
  unfold require
  by_cases hp : p
  · simp only [hp, true_implies]; exact Iff.rfl
  · simp only [hp, false_implies, iff_true]; trivial

theorem sat_orThrow_bind {o : Option α} {e : ε} :
    (orThrow o e >>= f).Sat D known s₀ post ↔ ∀ a, o = some a → (f a).Sat D known s₀ post := by
  cases o with
  | none => simp only [reduceCtorEq, false_implies, implies_true, iff_true]; trivial
  | some a =>
      simp only [Option.some.injEq, forall_eq']
      exact Iff.rfl

theorem sat_ite {c : Prop} [Decidable c] {p q : Prog σ κ ε β} :
    (if c then p else q).Sat D known s₀ post ↔
      (c → p.Sat D known s₀ post) ∧ (¬ c → q.Sat D known s₀ post) := by
  by_cases hc : c <;> simp [hc]

/-! The same for the commits a program may make. -/

variable {ok : κ → Prop}

theorem only_pure {b : β} : (Pure.pure b : Prog σ κ ε β).Only ok ↔ True := Iff.rfl

theorem only_throw {e : ε} : (Prog.throw e : Prog σ κ ε β).Only ok ↔ True := Iff.rfl

theorem only_pure_bind {a : α} :
    ((Pure.pure a : Prog σ κ ε α) >>= f).Only ok ↔ (f a).Only ok := Iff.rfl

theorem only_get_bind {g : σ → α} :
    (get g >>= f).Only ok ↔ ∀ s, (f (g s)).Only ok := Iff.rfl

theorem only_put_bind {c : κ} {f : Unit → Prog σ κ ε β} :
    (put c >>= f).Only ok ↔ ok c ∧ ∀ _ : σ, (f ()).Only ok := Iff.rfl

theorem only_putGet_bind {c : κ} {g : σ → α} :
    (putGet c g >>= f).Only ok ↔ ok c ∧ ∀ s, (f (g s)).Only ok := Iff.rfl

theorem only_put {c : κ} : (put c : Prog σ κ ε Unit).Only ok ↔ ok c :=
  ⟨fun h => h.1, fun h => ⟨h, fun _ => trivial⟩⟩

theorem only_require_bind {p : Prop} [Decidable p] {e : ε} {f : Unit → Prog σ κ ε β} :
    (require p e >>= f).Only ok ↔ (p → (f ()).Only ok) := by
  unfold require
  by_cases hp : p
  · simp only [hp, true_implies]; exact Iff.rfl
  · simp only [hp, false_implies, iff_true]; trivial

theorem only_require {p : Prop} [Decidable p] {e : ε} :
    (require p e : Prog σ κ ε Unit).Only ok := by
  unfold require
  split <;> trivial

theorem only_orThrow {o : Option α} {e : ε} : (orThrow o e : Prog σ κ ε α).Only ok := by
  cases o <;> trivial

theorem only_orThrow_bind {o : Option α} {e : ε} :
    (orThrow o e >>= f).Only ok ↔ ∀ a, o = some a → (f a).Only ok := by
  cases o with
  | none => simp only [reduceCtorEq, false_implies, implies_true, iff_true]; trivial
  | some a =>
      simp only [Option.some.injEq, forall_eq']
      exact Iff.rfl

theorem only_ite {c : Prop} [Decidable c] {p q : Prog σ κ ε β} :
    (if c then p else q).Only ok ↔ (c → p.Only ok) ∧ (¬ c → q.Only ok) := by
  by_cases hc : c <;> simp [hc]

end Unfold

/-! ## The program alone keeps what its commits keep -/

/-- Run alone, and broken off anywhere, a program keeps an invariant that each
of its admitted commits keeps. -/
theorem Sat.runFor_inv {apply : κ → σ → σ} {inv : σ → Prop} {ok : κ → σ → Prop}
    (hcommit : ∀ c s, inv s → ok c s → known c s → inv (apply c s))
    {n : Nat} {p : Prog σ κ ε α} {s : σ} {post : α → σ → Prop}
    (hp : p.Sat (.alone apply inv ok) known s post) (hs : inv s) (hok : Allows apply ok n p s) :
    inv (runFor apply n p s) := by
  induction n generalizing p s with
  | zero => exact hs
  | succ n ih =>
      cases p with
      | pure a => exact hs
      | throw e => exact hs
      | read next => exact ih (hp s rfl hs) hs hok
      | commit c next =>
          obtain ⟨hk, hn⟩ := hp s rfl hs hok.1
          exact ih hn (hcommit c s hs hok.1 hk) hok.2

end Prog

end Interleave
