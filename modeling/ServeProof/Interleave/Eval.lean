import ServeProof.Interleave.Pool

/-!
# ServeProof.Interleave.Eval

Programs as functions, and programs inside larger ones:

* `lift` -- a program over a part of a larger store;
* `mapEach` -- a loop that collects a result for each element, with the loop
  rule `sat_mapEach`;
* `eval` -- the result of a program that runs alone to its end, and the store
  it leaves; `evalAll` for one call after another.
-/

namespace Interleave

namespace Prog

variable {σ τ κ κ' ε α β : Type}

/-! ## Programs over a part of a store -/

def lift (view : τ → σ) (emb : κ → κ') : Prog σ κ ε α → Prog τ κ' ε α
  | pure a => .pure a
  | throw e => .throw e
  | read next => .read fun t => (next (view t)).lift view emb
  | commit c next => .commit (emb c) fun t => (next (view t)).lift view emb

theorem Only.lift {view : τ → σ} {emb : κ → κ'} {ok : κ' → Prop} {p : Prog σ κ ε α}
    (hp : p.Only fun c => ok (emb c)) : (p.lift view emb).Only ok := by
  induction p with
  | pure a => trivial
  | throw e => trivial
  | read next ih => exact fun t => ih _ (hp (view t))
  | commit c next ih => exact ⟨hp.1, fun t => ih _ (hp.2 (view t))⟩

theorem only_true (p : Prog σ κ ε α) : p.Only fun _ => True := by
  induction p with
  | pure a => trivial
  | throw e => trivial
  | read next ih => exact fun s => ih s
  | commit c next ih => exact ⟨trivial, fun s => ih s⟩

theorem Only.imp {ok ok' : κ → Prop} (h : ∀ c, ok c → ok' c) {p : Prog σ κ ε α}
    (hp : p.Only ok) : p.Only ok' := by
  induction p with
  | pure a => trivial
  | throw e => trivial
  | read next ih => exact fun s => ih s (hp s)
  | commit c next ih => exact ⟨h c hp.1, fun s => ih s (hp.2 s)⟩

theorem Only.attempt {ok : κ → Prop} {p : Prog σ κ ε α} (hp : p.Only ok) : p.attempt.Only ok := by
  induction p with
  | pure a => trivial
  | throw e => trivial
  | read next ih => exact fun s => ih s (hp s)
  | commit c next ih => exact ⟨hp.1, fun s => ih s (hp.2 s)⟩

theorem Only.forEach {ok : κ → Prop} {xs : List β} {body : β → Prog σ κ ε Unit}
    (h : ∀ x ∈ xs, (body x).Only ok) : (Prog.forEach xs body).Only ok := by
  induction xs with
  | nil => trivial
  | cons x xs ih =>
      exact Only.bind (h x List.mem_cons_self) fun _ =>
        ih fun y hy => h y (List.mem_cons_of_mem x hy)

section Knowledge

variable {D : Discipline σ κ} {known : κ → σ → Prop}

/-- A program that only makes commits of which nothing need be known. -/
theorem Sat.of_only {p : Prog σ κ ε α} (hp : p.Only fun c => ∀ s, known c s) {s₀ : σ}
    {post : α → σ → Prop} (hpost : ∀ a s, post a s) : p.Sat D known s₀ post := by
  induction p generalizing s₀ with
  | pure a => exact fun s _ _ => hpost a s
  | throw e => trivial
  | read next ih => exact fun s _ _ => ih s (hp s)
  | commit c next ih => exact fun s _ _ _ => ⟨hp.1 s, ih s (hp.2 s)⟩

/-- What is known for two reasons. -/
theorem Sat.and {known' : κ → σ → Prop} {p : Prog σ κ ε α} {s₀ : σ} {post post' : α → σ → Prop}
    (h : p.Sat D known s₀ post) (h' : p.Sat D known' s₀ post') :
    p.Sat D (fun c s => known c s ∧ known' c s) s₀ fun a s => post a s ∧ post' a s := by
  induction p generalizing s₀ with
  | pure a => exact fun s hr hi => ⟨h s hr hi, h' s hr hi⟩
  | throw e => trivial
  | read next ih => exact fun s hr hi => ih s (h s hr hi) (h' s hr hi)
  | commit c next ih =>
      intro s hr hi hok
      exact ⟨⟨(h s hr hi hok).1, (h' s hr hi hok).1⟩, ih s (h s hr hi hok).2 (h' s hr hi hok).2⟩

/-- What holds in one setting holds in one where less can happen. -/
theorem Sat.restrict (D' : Discipline σ κ) {known' : κ → σ → Prop} (happly : D'.apply = D.apply)
    (hrely : ∀ s t, D'.rely s t → D.rely s t) (hinv : ∀ s, D'.inv s → D.inv s)
    (hok : ∀ c s, D'.ok c s → D.ok c s) (hknown : ∀ c s, D'.inv s → known c s → known' c s)
    {p : Prog σ κ ε α} {s₀ : σ} {post : α → σ → Prop} (h : p.Sat D known s₀ post) :
    p.Sat D' known' s₀ post := by
  induction p generalizing s₀ with
  | pure a => exact fun s hr hi => h s (hrely _ _ hr) (hinv s hi)
  | throw e => trivial
  | read next ih => exact fun s hr hi => ih s (h s (hrely _ _ hr) (hinv s hi))
  | commit c next ih =>
      intro s hr hi hc
      obtain ⟨hk, hn⟩ := h s (hrely _ _ hr) (hinv s hi) (hok c s hc)
      rw [happly]
      exact ⟨hknown c s hi hk, ih s hn⟩

end Knowledge

/-! ## Loops with results -/

/-- Run `body` on each element in turn and collect the results. -/
def mapEach : List β → (β → Prog σ κ ε α) → Prog σ κ ε (List α)
  | [], _ => .pure []
  | x :: xs, body => (body x).bind fun a => (mapEach xs body).bind fun as => .pure (a :: as)

theorem only_mapEach {ok : κ → Prop} {xs : List β} {body : β → Prog σ κ ε α}
    (h : ∀ x ∈ xs, (body x).Only ok) : (mapEach xs body).Only ok := by
  induction xs with
  | nil => trivial
  | cons x xs ih =>
      refine Only.bind (h x List.mem_cons_self) fun a => ?_
      exact Only.bind (ih fun y hy => h y (List.mem_cons_of_mem x hy)) fun _ => trivial

/-- The loop rule: `J done` holds when the elements `done` have been run. -/
theorem sat_mapEach {D : Discipline σ κ} {known : κ → σ → Prop} (hD : D.Lawful)
    {J : List β → σ → Prop}
    (hstable : ∀ done {s t}, J done s → D.rely s t → D.inv t → J done t)
    {xs : List β} {body : β → Prog σ κ ε α}
    (hbody : ∀ done x rest, xs = done ++ x :: rest → ∀ s, J done s →
      (body x).Sat D known s fun _ t => J (done ++ [x]) t)
    {s₀ : σ} (h₀ : J [] s₀) : (mapEach xs body).Sat D known s₀ fun _ t => J xs t := by
  suffices hgen : ∀ rest done, xs = done ++ rest → ∀ s, J done s →
      (mapEach rest body).Sat D known s fun _ t => J xs t from hgen xs [] rfl s₀ h₀
  intro rest
  induction rest with
  | nil =>
      intro done hxs s hs t hr hi
      rw [List.append_nil] at hxs
      exact hstable xs (hxs ▸ hs) hr hi
  | cons x rest ih =>
      intro done hxs s hs
      refine Sat.bind hD ((hbody done x rest hxs s hs).mono fun a t ht => ?_)
      have hrest := ih (done ++ [x]) (by rw [hxs, List.append_assoc, List.singleton_append]) t ht
      exact Sat.bind hD (hrest.mono fun as u hu v hr hi => hstable xs hu hr hi)

/-! ## A program alone, to its end -/

variable {apply : κ → σ → σ}

def eval (apply : κ → σ → σ) : Prog σ κ ε α → σ → Except ε α × σ
  | pure a, s => (.ok a, s)
  | throw e, s => (.error e, s)
  | read next, s => (next s).eval apply s
  | commit c next, s => (next s).eval apply (apply c s)

theorem eval_bind {p : Prog σ κ ε α} {f : α → Prog σ κ ε β} {s : σ} :
    (p >>= f).eval apply s =
      match p.eval apply s with
      | (.ok a, t) => (f a).eval apply t
      | (.error e, t) => (.error e, t) := by
  change (p.bind f).eval apply s = _
  induction p generalizing s with
  | pure a => rfl
  | throw e => rfl
  | read next ih => exact ih s
  | commit c next ih => exact ih s

section Unfold

variable {f : α → Prog σ κ ε β} {s : σ}

theorem eval_pure {b : β} : (Pure.pure b : Prog σ κ ε β).eval apply s = (.ok b, s) := rfl

theorem eval_throw {e : ε} : (Prog.throw e : Prog σ κ ε β).eval apply s = (.error e, s) := rfl

theorem eval_get_bind {g : σ → α} : (get g >>= f).eval apply s = (f (g s)).eval apply s := rfl

theorem eval_putGet_bind {c : κ} {g : σ → α} :
    (putGet c g >>= f).eval apply s = (f (g s)).eval apply (apply c s) := rfl

theorem eval_put_bind {c : κ} {f : Unit → Prog σ κ ε β} :
    (put c >>= f).eval apply s = (f ()).eval apply (apply c s) := rfl

theorem eval_require_bind {p : Prop} [Decidable p] {e : ε} {f : Unit → Prog σ κ ε β} :
    (require p e >>= f).eval apply s = if p then (f ()).eval apply s else (.error e, s) := by
  unfold require
  split <;> rfl

theorem eval_orThrow_bind {o : Option α} {e : ε} :
    (orThrow o e >>= f).eval apply s =
      match o with
      | some a => (f a).eval apply s
      | none => (.error e, s) := by
  cases o <;> rfl

theorem eval_attempt {p : Prog σ κ ε α} :
    p.attempt.eval apply s = (.ok (p.eval apply s).1, (p.eval apply s).2) := by
  induction p generalizing s with
  | pure a => rfl
  | throw e => rfl
  | read next ih => exact ih s
  | commit c next ih => exact ih s

/-- Forgetting the result leaves the store. -/
theorem eval_bind_pure {p : Prog σ κ ε α} {b : β} :
    ((p >>= fun _ => Pure.pure b).eval apply s).2 = (p.eval apply s).2 := by
  rw [eval_bind]
  rcases p.eval apply s with ⟨a | e, t⟩ <;> rfl

/-- A loop whose turns all return runs them in order. -/
theorem eval_forEach {body : β → Prog σ κ ε Unit} (turn : β → σ → σ)
    (h : ∀ x s, (body x).eval apply s = (.ok (), turn x s)) (xs : List β) (s : σ) :
    (forEach xs body).eval apply s = (.ok (), xs.foldl (fun s x => turn x s) s) := by
  induction xs generalizing s with
  | nil => rfl
  | cons x xs ih =>
      change (body x >>= fun _ => forEach xs body).eval apply s = _
      rw [eval_bind, h x s]
      exact ih (turn x s)

end Unfold

/-- What none of its commits changes, a program leaves. -/
theorem Only.eval_eq {ok : κ → Prop} {f : σ → β} (hf : ∀ c s, ok c → f (apply c s) = f s)
    {p : Prog σ κ ε α} (hp : p.Only ok) (s : σ) : f (p.eval apply s).2 = f s := by
  induction p generalizing s with
  | pure a => rfl
  | throw e => rfl
  | read next ih => exact ih s (hp s) s
  | commit c next ih => exact (ih s (hp.2 s) (apply c s)).trans (hf c s hp.1)

/-- Every commit of the program, run alone, is made in a store where `ok`
admits it. -/
def Admitted (apply : κ → σ → σ) (ok : κ → σ → Prop) : Prog σ κ ε α → σ → Prop
  | pure _, _ => True
  | throw _, _ => True
  | read next, s => (next s).Admitted apply ok s
  | commit c next, s => ok c s ∧ (next s).Admitted apply ok (apply c s)

instance decidableAdmitted (apply : κ → σ → σ) (ok : κ → σ → Prop) [∀ c s, Decidable (ok c s)] :
    (p : Prog σ κ ε α) → (s : σ) → Decidable (p.Admitted apply ok s)
  | pure _, _ => isTrue trivial
  | throw _, _ => isTrue trivial
  | read next, s => decidableAdmitted apply ok (next s) s
  | commit c next, s =>
      have := decidableAdmitted apply ok (next s) (apply c s)
      inferInstanceAs (Decidable (ok c s ∧ (next s).Admitted apply ok (apply c s)))

/-- A program that runs alone keeps an invariant that each of its admitted
commits keeps, and ends in its postcondition. -/
theorem Sat.eval {inv : σ → Prop} {ok known : κ → σ → Prop}
    (hcommit : ∀ c s, inv s → ok c s → known c s → inv (apply c s))
    {p : Prog σ κ ε α} {s : σ} {post : α → σ → Prop}
    (hp : p.Sat (.alone apply inv ok) known s post) (hs : inv s)
    (hok : p.Admitted apply ok s) :
    inv (p.eval apply s).2 ∧ ∀ a, (p.eval apply s).1 = .ok a → post a (p.eval apply s).2 := by
  induction p generalizing s with
  | pure a =>
      refine ⟨hs, fun b hb => ?_⟩
      cases hb
      exact hp s rfl hs
  | throw e => exact ⟨hs, fun b hb => by cases hb⟩
  | read next ih => exact ih s (hp s rfl hs) hs hok
  | commit c next ih =>
      obtain ⟨hk, hn⟩ := hp s rfl hs hok.1
      exact ih s hn (hcommit c s hs hok.1 hk) hok.2

end Prog

/-! ## One call after another -/

/-- A call that runs to its end, or a move of the environment. -/
inductive Op (ι η : Type) where
  | call (i : ι)
  | env (e : η)

namespace System

variable {σ κ ε ι η : Type} (S : System σ κ ε ι η)

def evalOp : Op ι η → σ → σ
  | .call i, s => ((S.prog i).eval S.apply s).2
  | .env e, s => S.env e s

def evalAll (ops : List (Op ι η)) (s : σ) : σ := ops.foldl (fun s op => S.evalOp op s) s

@[simp] theorem evalAll_nil (s : σ) : S.evalAll [] s = s := rfl

@[simp] theorem evalAll_cons (op : Op ι η) (ops : List (Op ι η)) (s : σ) :
    S.evalAll (op :: ops) s = S.evalAll ops (S.evalOp op s) := rfl

theorem evalAll_append (ops ops' : List (Op ι η)) (s : σ) :
    S.evalAll (ops ++ ops') s = S.evalAll ops' (S.evalAll ops s) := by
  simp [evalAll]

variable (ok : κ → σ → Prop) (okEnv : η → σ → Prop)

/-- Every commit and every move of the environment is admitted where it is
made. -/
def AdmittedAll : List (Op ι η) → σ → Prop
  | [], _ => True
  | .call i :: ops, s => (S.prog i).Admitted S.apply ok s ∧ AdmittedAll ops (S.evalOp (.call i) s)
  | .env e :: ops, s => okEnv e s ∧ AdmittedAll ops (S.evalOp (.env e) s)

instance decidableAdmittedAll [∀ c s, Decidable (ok c s)] [∀ e s, Decidable (okEnv e s)] :
    (ops : List (Op ι η)) → (s : σ) → Decidable (S.AdmittedAll ok okEnv ops s)
  | [], _ => isTrue trivial
  | .call i :: ops, s =>
      have := decidableAdmittedAll ops (S.evalOp (.call i) s)
      inferInstanceAs (Decidable ((S.prog i).Admitted S.apply ok s ∧ _))
  | .env e :: ops, s =>
      have := decidableAdmittedAll ops (S.evalOp (.env e) s)
      inferInstanceAs (Decidable (okEnv e s ∧ _))

variable {S ok okEnv}

theorem admittedAll_append (ops ops' : List (Op ι η)) (s : σ) :
    S.AdmittedAll ok okEnv (ops ++ ops') s ↔
      S.AdmittedAll ok okEnv ops s ∧ S.AdmittedAll ok okEnv ops' (S.evalAll ops s) := by
  induction ops generalizing s with
  | nil => simp [AdmittedAll]
  | cons op ops ih => cases op <;> simp [AdmittedAll, ih, and_assoc]

/-- An invariant that each admitted commit and move of the environment keeps
holds after every sequence of calls. -/
theorem evalAll_inv {inv : σ → Prop} {known : κ → σ → Prop} {allowed : ι → Prop}
    (hcommit : ∀ c s, inv s → ok c s → known c s → inv (S.apply c s))
    (henv : ∀ e s, inv s → okEnv e s → inv (S.env e s))
    (hcall : ∀ i, allowed i → ∀ s, inv s →
      (S.prog i).Sat (.alone S.apply inv ok) known s fun _ _ => True)
    {ops : List (Op ι η)} (hops : ∀ i, .call i ∈ ops → allowed i) {s : σ} (hs : inv s)
    (had : S.AdmittedAll ok okEnv ops s) : inv (S.evalAll ops s) := by
  induction ops generalizing s with
  | nil => exact hs
  | cons op ops ih =>
      have hrest : ∀ i, .call i ∈ ops → allowed i := fun i hi => hops i (List.mem_cons_of_mem op hi)
      cases op with
      | env e => exact ih hrest (henv e s hs had.1) had.2
      | call i =>
          have hi := hcall i (hops i List.mem_cons_self) s hs
          exact ih hrest (hi.eval hcommit hs had.1).1 had.2

end System

/-- Everything is admitted where nothing is asked. -/
theorem Prog.admitted_true {σ κ ε α : Type} {apply : κ → σ → σ} (p : Prog σ κ ε α) (s : σ) :
    p.Admitted apply (fun _ _ => True) s := by
  induction p generalizing s with
  | pure a => trivial
  | throw e => trivial
  | read next ih => exact ih s s
  | commit c next ih => exact ⟨trivial, ih s (apply c s)⟩

theorem System.admittedAll_true {σ κ ε ι η : Type} (S : System σ κ ε ι η) (ops : List (Op ι η))
    (s : σ) : S.AdmittedAll (fun _ _ => True) (fun _ _ => True) ops s := by
  induction ops generalizing s with
  | nil => trivial
  | cons op ops ih =>
      cases op with
      | call i => exact ⟨(S.prog i).admitted_true s, ih _⟩
      | env e => exact ⟨trivial, ih _⟩

end Interleave
