import ServeProof.Table

/-!
# ServeProof.Interleave.ReadCommitted

Transactions on one table under read committed isolation, one statement at a time.

Each statement sees the rows that are committed when it starts, under what its own
transaction has written.  What a transaction has written is locked until it ends: an
update or an insert by another one waits.  An update finds its rows when it starts, takes
them in any order, and looks at each again before it changes it.  An insert of a key
that is committed rolls its transaction back.

* `Config.exec` -- a run of any number of transactions;
* `Outline` -- what holds of a transaction before each of its statements, and
  outlasts the commits of the others;
* `Outline.exec` -- the rule: what an outline says holds along every run.
-/

namespace ReadCommitted

variable {κ ρ ι : Type} [DecidableEq κ] {key : ρ → κ}

/-! ## Tables -/

/-- The table under rows that take the place of its own. -/
def atop (writes t : Table key) : Table key := t.setAll writes.rows

theorem find_setAll {rs : List ρ} (hrs : (rs.map key).Nodup) (t : Table key) (k : κ) :
    (t.setAll rs).find k = (rs.find? fun r => decide (key r = k)).or (t.find k) := by
  induction rs generalizing t with
  | nil => rfl
  | cons r rs ih =>
      rw [List.map_cons, List.nodup_cons] at hrs
      have hset : (t.setAll (r :: rs)).find k = ((t.set r).setAll rs).find k := rfl
      rw [hset, ih hrs.2, Table.find_set, List.find?_cons]
      by_cases hk : key r = k
      · have hnone : (rs.find? fun x => decide (key x = k)) = none := by
          rw [List.find?_eq_none]
          intro x hx hxk
          exact hrs.1 (hk.trans (of_decide_eq_true hxk).symm ▸ List.mem_map_of_mem hx)
        rw [hnone, if_pos hk, decide_eq_true hk]
        rfl
      · rw [if_neg hk, decide_eq_false hk]

theorem find_atop (writes t : Table key) (k : κ) :
    (atop writes t).find k = (writes.find k).or (t.find k) :=
  find_setAll writes.nodup t k

@[simp] theorem atop_empty (t : Table key) : atop ∅ t = t := rfl

theorem mem_atop {writes t : Table key} {r : ρ} :
    r ∈ (atop writes t).rows ↔ r ∈ writes.rows ∨ r ∈ t.rows ∧ writes.find (key r) = none := by
  rw [← and_true (r ∈ (atop writes t).rows), ← eq_self (key r), ← Table.find_eq_some_iff, find_atop,
    Option.or_eq_some_iff, Table.find_eq_some_iff, Table.find_eq_some_iff]
  simp [and_comm]

/-! ## Transactions -/

/-- `updateMany`: the rows that satisfy `p` are changed, keys kept. -/
structure Update (key : ρ → κ) where
  p : ρ → Bool
  change : ρ → ρ
  key_change : ∀ r, key (change r) = key r

/-- What is left of a transaction. -/
inductive Tx (key : ρ → κ) where
  | commit
  | rollback
  | query (next : Table key → Tx key)
  | insert (r : ρ) (next : Tx key)
  | update (u : Update key) (next : Tx key)
  /-- An update under way, with the rows that it has found and not taken yet. -/
  | scan (found : List κ) (u : Update key) (next : Tx key)

/-- A transaction: the rows it has written, and what is left of it. -/
structure Session (key : ρ → κ) where
  writes : Table key
  rest : Tx key

/-- A transaction that has ended. -/
def Session.ended : Session key := ⟨∅, .rollback⟩

def Session.isEnded (s : Session key) : Bool :=
  match s.rest with
  | .rollback => s.writes.rows.isEmpty
  | _ => false

structure Config (key : ρ → κ) where
  committed : Table key
  sessions : List (Session key)

inductive Move (ι κ : Type) where
  | begin (i : ι)
  | step (n : Nat)
  /-- The update of a transaction takes a row that it has found. -/
  | take (n : Nat) (k : κ)
  /-- A transaction is rolled back: a deadlock, or a connection that is lost. -/
  | abort (n : Nat)

/-- The row with a key, when it still satisfies the condition. -/
def Update.row (u : Update key) (t : Table key) (k : κ) : Option ρ := (t.find k).filter u.p

/-- What a transaction has written after it has changed a row. -/
def Update.write (u : Update key) (writes : Table key) : Option ρ → Table key
  | some r => writes.set (u.change r)
  | none => writes

namespace Config

/-- Another transaction than the one at `n` has written the row. -/
def Locked (c : Config key) (n : Nat) (k : κ) : Prop :=
  ∃ s ∈ c.sessions.eraseIdx n, (s.writes.find k).isSome

instance (c : Config key) (n : Nat) (k : κ) : Decidable (c.Locked n k) :=
  inferInstanceAs (Decidable (∃ _ ∈ _, _))

def put (c : Config key) (n : Nat) (s : Session key) : Config key :=
  { c with sessions := c.sessions.set n s }

/-- A statement of the transaction at `n`. -/
def step (c : Config key) (n : Nat) (s : Session key) : Config key :=
  match s.rest with
  | .commit => ⟨atop s.writes c.committed, c.sessions.set n .ended⟩
  | .rollback => c.put n .ended
  | .query next => c.put n ⟨s.writes, next (atop s.writes c.committed)⟩
  | .insert r next =>
      if ((atop s.writes c.committed).find (key r)).isSome then c.put n .ended
      else if c.Locked n (key r) then c
      else c.put n ⟨s.writes.set r, next⟩
  | .update u next =>
      let found := ((atop s.writes c.committed).rows.filter u.p).map key
      c.put n ⟨s.writes, .scan found u next⟩
  | .scan [] _ next => c.put n ⟨s.writes, next⟩
  | .scan (_ :: _) _ _ => c

def take (c : Config key) (n : Nat) (s : Session key) (k : κ) : Config key :=
  match s.rest with
  | .scan found u next =>
      if k ∈ found ∧ ¬ c.Locked n k then
        c.put n ⟨u.write s.writes (u.row (atop s.writes c.committed) k),
          .scan (found.filter fun x => decide (x ≠ k)) u next⟩
      else c
  | _ => c

/-- One move.  A transaction that has to wait stays where it is. -/
def move (prog : ι → Tx key) (c : Config key) : Move ι κ → Config key
  | .begin i => { c with sessions := c.sessions ++ [⟨∅, prog i⟩] }
  | .step n =>
      match c.sessions[n]? with
      | some s => c.step n s
      | none => c
  | .take n k =>
      match c.sessions[n]? with
      | some s => c.take n s k
      | none => c
  | .abort n => c.put n .ended

def exec (prog : ι → Tx key) (ms : List (Move ι κ)) (c : Config key) : Config key :=
  ms.foldl (move prog) c

variable (prog : ι → Tx key)

@[simp] theorem exec_nil (c : Config key) : exec prog [] c = c := rfl

@[simp] theorem exec_cons (m : Move ι κ) (ms : List (Move ι κ)) (c : Config key) :
    exec prog (m :: ms) c = exec prog ms (move prog c m) := rfl

theorem exec_append (ms ms' : List (Move ι κ)) (c : Config key) :
    exec prog (ms ++ ms') c = exec prog ms' (exec prog ms c) :=
  List.foldl_append

/-- No transaction yet. -/
def start (t : Table key) : Config key := ⟨t, []⟩

/-! ## Admitted runs -/

variable (ok : Table key → ρ → ρ → Prop)

/-- The change of a row is admitted: by what the transaction has written before, the row
and what becomes of it. -/
def AdmitsTake (c : Config key) (n : Nat) (k : κ) : Session key → Prop
  | ⟨writes, .scan found u _⟩ => k ∈ found → ¬ c.Locked n k →
      ∀ r ∈ u.row (atop writes c.committed) k, ok writes r (u.change r)
  | _ => True

def Admits (c : Config key) : Move ι κ → Prop
  | .take n k => ∀ s ∈ c.sessions[n]?, c.AdmitsTake ok n k s
  | _ => True

/-- Every change of a row in the run is admitted where it is made. -/
def Respects : List (Move ι κ) → Config key → Prop
  | [], _ => True
  | m :: ms, c => c.Admits ok m ∧ Respects ms (move prog c m)

instance decidableAdmitsTake [∀ writes r r', Decidable (ok writes r r')] (c : Config key) (n : Nat)
    (k : κ) : (s : Session key) → Decidable (c.AdmitsTake ok n k s)
  | ⟨writes, .scan found u _⟩ =>
      inferInstanceAs (Decidable (k ∈ found → ¬ c.Locked n k →
        ∀ r ∈ u.row (atop writes c.committed) k, ok writes r (u.change r)))
  | ⟨_, .commit⟩ | ⟨_, .rollback⟩ | ⟨_, .query _⟩ | ⟨_, .insert ..⟩ | ⟨_, .update ..⟩ =>
      isTrue trivial

instance decidableAdmits [∀ writes r r', Decidable (ok writes r r')] (c : Config key) :
    (m : Move ι κ) → Decidable (c.Admits ok m)
  | .take n k => inferInstanceAs (Decidable (∀ s ∈ c.sessions[n]?, c.AdmitsTake ok n k s))
  | .begin _ | .step _ | .abort _ => isTrue trivial

instance decidableRespects [∀ writes r r', Decidable (ok writes r r')] :
    (ms : List (Move ι κ)) → (c : Config key) → Decidable (Respects prog ok ms c)
  | [], _ => isTrue trivial
  | m :: ms, c =>
      have := decidableRespects ms (move prog c m)
      inferInstanceAs (Decidable (c.Admits ok m ∧ Respects prog ok ms (move prog c m)))

theorem respects_append (ms ms' : List (Move ι κ)) (c : Config key) :
    Respects prog ok (ms ++ ms') c ↔
      Respects prog ok ms c ∧ Respects prog ok ms' (exec prog ms c) := by
  induction ms generalizing c with
  | nil => simp [Respects]
  | cons m ms ih => simp [Respects, ih, and_assoc]

/-- When every change is admitted, every run is. -/
theorem respects_of_all (hok : ∀ writes r r', ok writes r r') (ms : List (Move ι κ))
    (c : Config key) : Respects prog ok ms c := by
  induction ms generalizing c with
  | nil => trivial
  | cons m ms ih =>
      refine ⟨?_, ih _⟩
      cases m with
      | take n k =>
          rintro ⟨writes, rest⟩ -
          cases rest with
          | scan found u next => exact fun _ _ _ _ => hok _ _ _
          | _ => trivial
      | _ => trivial

end Config

/-! ## Outlines -/

/-- What holds of the committed rows (`I`), and of each transaction with them (`A`): every
statement takes its transaction on, and the commits of the others, which have
written other rows, leave it. -/
structure Outline (prog : ι → Tx key) (ok : Table key → ρ → ρ → Prop) (I : Table key → Prop)
    (A : Session key → Table key → Prop) : Prop where
  begin : ∀ i {t}, I t → A ⟨∅, prog i⟩ t
  ended : ∀ {t}, I t → A .ended t
  query : ∀ {w next t}, I t → A ⟨w, .query next⟩ t → A ⟨w, next (atop w t)⟩ t
  insert : ∀ {w r next t}, I t → A ⟨w, .insert r next⟩ t → (atop w t).find (key r) = none →
    A ⟨w.set r, next⟩ t
  update : ∀ {w u next t}, I t → A ⟨w, .update u next⟩ t →
    A ⟨w, .scan (((atop w t).rows.filter u.p).map key) u next⟩ t
  scanned : ∀ {w u next t}, I t → A ⟨w, .scan [] u next⟩ t → A ⟨w, next⟩ t
  take : ∀ {w found u next t k}, I t → A ⟨w, .scan found u next⟩ t → k ∈ found →
    (∀ r ∈ u.row (atop w t) k, ok w r (u.change r)) →
    A ⟨u.write w (u.row (atop w t) k), .scan (found.filter fun x => decide (x ≠ k)) u next⟩ t
  commit : ∀ {w t}, I t → A ⟨w, .commit⟩ t → I (atop w t)
  stable : ∀ {w s t}, I t → A ⟨w, .commit⟩ t → A s t →
    (∀ k, (w.find k).isSome → s.writes.find k = none) → A s (atop w t)

/-- An outline holds, and no row has been written by two transactions. -/
structure Holds (I : Table key → Prop) (A : Session key → Table key → Prop) (c : Config key) :
    Prop where
  committed : I c.committed
  sessions : ∀ {n : Nat} {s}, c.sessions[n]? = some s → A s c.committed
  locks : ∀ {m n : Nat} {s t}, m ≠ n → c.sessions[m]? = some s → c.sessions[n]? = some t → ∀ k,
    (s.writes.find k).isSome → t.writes.find k = none

section Rule

variable {prog : ι → Tx key} {ok : Table key → ρ → ρ → Prop} {I : Table key → Prop}
  {A : Session key → Table key → Prop} {c : Config key} {n : Nat} {s s' : Session key}

theorem Config.not_locked {k : κ} (h : ¬ c.Locked n k) {m : Nat} (hm : m ≠ n) {t : Session key}
    (ht : c.sessions[m]? = some t) : t.writes.find k = none := by
  by_contra hsome
  refine h ⟨t, List.mem_eraseIdx_iff_getElem?.mpr ⟨m, hm, ht⟩, ?_⟩
  exact Option.isSome_iff_ne_none.mpr hsome

theorem holds_start {t : Table key} (ht : I t) : Holds I A (Config.start t) where
  committed := ht
  sessions h := by cases h
  locks _ h := by cases h

/-- A transaction goes on; what it has written is locked. -/
theorem Holds.put (h : Holds I A c) (hn : c.sessions[n]? = some s) (hs : A s' c.committed)
    (hwrites : ∀ k, (s'.writes.find k).isSome → (s.writes.find k).isSome ∨ ¬ c.Locked n k) :
    Holds I A (c.put n s') := by
  have hother {m : Nat} {t : Session key} (hm : m ≠ n)
      (ht : (c.sessions.set n s')[m]? = some t) : c.sessions[m]? = some t := by
    rwa [List.getElem?_set_ne hm.symm] at ht
  have hself {t : Session key} (ht : (c.sessions.set n s')[n]? = some t) : t = s' := by
    obtain ⟨hlt, -⟩ := List.getElem?_eq_some_iff.mp hn
    rw [List.getElem?_set_self hlt] at ht
    exact (Option.some.inj ht).symm
  have hapart {m : Nat} {t : Session key} (hm : m ≠ n) (ht : c.sessions[m]? = some t) (k : κ)
      (hk : (s'.writes.find k).isSome) : t.writes.find k = none := by
    cases hwrites k hk with
    | inl hold => exact h.locks hm.symm hn ht k hold
    | inr hfree => exact Config.not_locked hfree hm ht
  constructor
  · exact h.committed
  · intro m t ht
    by_cases hm : m = n
    · subst hm
      rw [hself ht]
      exact hs
    · exact h.sessions (hother hm ht)
  · intro m m' t t' hne ht ht' k hk
    by_cases hm : m = n
    · subst hm
      rw [hself ht] at hk
      exact hapart hne.symm (hother hne.symm ht') k hk
    · by_cases hm' : m' = n
      · subst hm'
        rw [hself ht']
        by_contra hsome
        have hnone := hapart hm (hother hm ht) k (Option.isSome_iff_ne_none.mpr hsome)
        rw [hnone] at hk
        cases hk
      · exact h.locks hne (hother hm ht) (hother hm' ht') k hk

theorem Holds.end (hO : Outline prog ok I A) (h : Holds I A c) (n : Nat) :
    Holds I A (c.put n .ended) := by
  cases hn : c.sessions[n]? with
  | some s => exact h.put hn (hO.ended h.committed) fun k hk => by cases hk
  | none =>
      have hsame : c.put n .ended = c := by
        rw [Config.put, List.set_eq_of_length_le (List.getElem?_eq_none_iff.mp hn)]
      rw [hsame]
      exact h

/-- A commit. -/
theorem Holds.commit (hO : Outline prog ok I A) (h : Holds I A c) {w : Table key}
    (hn : c.sessions[n]? = some ⟨w, .commit⟩) :
    Holds I A ⟨atop w c.committed, c.sessions.set n .ended⟩ := by
  have hw := h.sessions hn
  have hafter : I (atop w c.committed) := hO.commit h.committed hw
  have hended := h.end hO n
  constructor
  · exact hafter
  · intro m t ht
    by_cases hm : m = n
    · subst hm
      obtain ⟨hlt, -⟩ := List.getElem?_eq_some_iff.mp hn
      rw [List.getElem?_set_self hlt] at ht
      cases ht
      exact hO.ended hafter
    · rw [List.getElem?_set_ne (Ne.symm hm)] at ht
      exact hO.stable h.committed hw (h.sessions ht) (h.locks (Ne.symm hm) hn ht)
  · exact hended.locks

/-- A transaction that begins holds no lock. -/
theorem Holds.begin (hO : Outline prog ok I A) (h : Holds I A c) (i : ι) :
    Holds I A (Config.move prog c (.begin i)) := by
  have hnew {n : Nat} {s : Session key} (hs : (c.sessions ++ [⟨∅, prog i⟩])[n]? = some s) :
      c.sessions[n]? = some s ∨ n = c.sessions.length ∧ s = ⟨∅, prog i⟩ := by
    rw [List.getElem?_append] at hs
    split at hs
    · exact .inl hs
    · next hge =>
      rw [List.getElem?_singleton] at hs
      split at hs
      · exact .inr ⟨by omega, (Option.some.inj hs).symm⟩
      · cases hs
  constructor
  · exact h.committed
  · intro n s hs
    obtain hold | ⟨-, rfl⟩ := hnew hs
    · exact h.sessions hold
    · exact hO.begin i h.committed
  · intro m n s t hne hs ht k hk
    obtain hs | ⟨rfl, rfl⟩ := hnew hs
    · obtain ht | ⟨-, rfl⟩ := hnew ht
      · exact h.locks hne hs ht k hk
      · rfl
    · cases hk

/-- A statement: only an insert takes a lock. -/
theorem Holds.step (hO : Outline prog ok I A) (h : Holds I A c) (n : Nat) :
    Holds I A (Config.move prog c (.step n)) := by
  simp only [Config.move]
  cases hn : c.sessions[n]? with
  | none => exact h
  | some s =>
      obtain ⟨w, rest⟩ := s
      have hs := h.sessions hn
      cases rest with
      | commit => exact h.commit hO hn
      | rollback => exact h.end hO n
      | query next => exact h.put hn (hO.query h.committed hs) fun k hk => .inl hk
      | update u next => exact h.put hn (hO.update h.committed hs) fun k hk => .inl hk
      | scan found u next =>
          cases found with
          | nil => exact h.put hn (hO.scanned h.committed hs) fun k hk => .inl hk
          | cons k found => exact h
      | insert r next =>
          simp only [Config.step]
          split
          · exact h.end hO n
          · next hfresh =>
            split
            · exact h
            · next hfree =>
              have hnone := Option.not_isSome_iff_eq_none.mp hfresh
              refine h.put hn (hO.insert h.committed hs hnone) fun k hk => ?_
              rw [Table.find_set] at hk
              split at hk
              · next hkey => exact .inr (hkey ▸ hfree)
              · exact .inl hk

/-- An update takes a row that nobody else has locked. -/
theorem Holds.take (hO : Outline prog ok I A) (h : Holds I A c) {n : Nat} {k : κ}
    (hm : c.Admits ok (.take n k : Move ι κ)) : Holds I A (Config.move prog c (.take n k)) := by
  simp only [Config.move]
  cases hn : c.sessions[n]? with
  | none => exact h
  | some s =>
      obtain ⟨w, rest⟩ := s
      have hs := h.sessions hn
      cases rest with
      | scan found u next =>
          simp only [Config.take]
          split
          · next hfound =>
            refine h.put hn (hO.take h.committed hs hfound.1
              (hm _ hn hfound.1 hfound.2)) fun k' hk' => ?_
            cases hrow : u.row (atop w c.committed) k with
            | none =>
                rw [hrow] at hk'
                exact .inl hk'
            | some r =>
                rw [hrow, Update.write, Table.find_set, u.key_change,
                  Table.key_of_find (Option.filter_eq_some_iff.mp hrow).1] at hk'
                split at hk'
                · next hkey => exact .inr (hkey ▸ hfound.2)
                · exact .inl hk'
          · exact h
      | _ => exact h

theorem Holds.move (hO : Outline prog ok I A) (h : Holds I A c) {m : Move ι κ}
    (hm : c.Admits ok m) : Holds I A (Config.move prog c m) := by
  cases m with
  | begin i => exact h.begin hO i
  | step n => exact h.step hO n
  | take n k => exact h.take hO hm
  | abort n => exact h.end hO n

/-- **What an outline says holds along every admitted run.** -/
theorem Outline.exec (hO : Outline prog ok I A) {ms : List (Move ι κ)} (h : Holds I A c)
    (hms : Config.Respects prog ok ms c) : Holds I A (Config.exec prog ms c) := by
  induction ms generalizing c with
  | nil => exact h
  | cons m ms ih => exact ih (h.move hO hms.1) hms.2

/-- The committed rows change by commits only. -/
theorem Config.committed_move (prog : ι → Tx key) (c : Config key) (m : Move ι κ) :
    (Config.move prog c m).committed = c.committed ∨
      ∃ n w, m = .step n ∧ c.sessions[n]? = some ⟨w, .commit⟩ ∧
        (Config.move prog c m).committed = atop w c.committed := by
  cases m with
  | begin i => exact .inl rfl
  | abort n => exact .inl rfl
  | step n =>
      simp only [Config.move]
      cases hn : c.sessions[n]? with
      | none => exact .inl rfl
      | some s =>
          obtain ⟨w, rest⟩ := s
          cases rest with
          | commit => exact .inr ⟨n, w, rfl, hn, rfl⟩
          | scan found u next => cases found <;> exact .inl rfl
          | insert r next =>
              refine .inl ?_
              simp only [Config.step]
              split
              · rfl
              · split <;> rfl
          | _ => exact .inl rfl
  | take n k =>
      refine .inl ?_
      simp only [Config.move]
      cases c.sessions[n]? with
      | none => rfl
      | some s =>
          obtain ⟨w, rest⟩ := s
          cases rest with
          | scan found u next =>
              simp only [Config.take]
              split <;> rfl
          | _ => rfl

/-- What a commit does to the committed rows, from an earlier store to a later one. -/
theorem Outline.exec_relates (hO : Outline prog ok I A) {R : Table key → Table key → Prop}
    (hrefl : ∀ t, R t t) (htrans : ∀ {t u v}, R t u → R u v → R t v)
    (hcommit : ∀ {w t}, I t → A ⟨w, .commit⟩ t → R t (atop w t)) {ms : List (Move ι κ)}
    (h : Holds I A c) (hms : Config.Respects prog ok ms c) :
    R c.committed (Config.exec prog ms c).committed := by
  induction ms generalizing c with
  | nil => exact hrefl _
  | cons m ms ih =>
      have hrest := ih (h.move hO hms.1) hms.2
      obtain hsame | ⟨n, w, rfl, hn, hover⟩ := c.committed_move prog m
      · rwa [hsame] at hrest
      · rw [hover] at hrest
        exact htrans (hcommit h.committed (h.sessions hn)) hrest

end Rule

end ReadCommitted
