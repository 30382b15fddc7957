import Mathlib.Data.Finset.Card
import ServeProof.Engine

/-!
# ServeProof.Recipients

The recipients of the engine, from the shifts that count: a shift counts for a
worker, or for a held share when it has none, and the key of the recipient decides
which shifts add up.

* `recipients_scoresOf` -- the loop over the shifts adds up what they count for;
* `totalScore_collect` -- the total is the total of the shifts, whatever the keys;
* `collect_paired` -- under two keys that tell the same shifts apart the rows of the
  two tables belong together, and `length_collect_lt` -- under a key that tells more
  of them apart there are more rows.
-/

namespace ServeProof
namespace Engine

/-! ## What a shift counts for -/

/-- The score of a shift, when it is one that counts. -/
def shiftScore (policy : AllocationPolicyInput) (shift : AllocationShiftInput) : Option Score :=
  if shift.shiftStatus ≠ .completed ∧ shift.shiftStatus ≠ .approved then none
  else if shift.role ∈ policy.excludedRoles then none
  else if shift.workedMinutes ≤ 0 then none
  else (roleWeight policy shift.role).map fun weight =>
    weight.map fun w => (shift.workedMinutes : ℚ) * w

/-- The shifts that count, with their scores. -/
def counted (policy : AllocationPolicyInput) (shifts : List AllocationShiftInput) :
    List (AllocationShiftInput × Score) :=
  shifts.filterMap fun shift => (shiftScore policy shift).map fun score => (shift, score)

/-- The recipients of a list of contributions. -/
def collect (contributions : List Recipient) : Table Recipient.key :=
  contributions.foldl addScore ∅

theorem recipients_scoresOf (policy : AllocationPolicyInput) (shifts : List AllocationShiftInput)
    (issues : List AllocationIssue) : (scoresOf policy shifts issues).recipients =
      collect ((counted policy shifts).map fun p => recipientOf p.1 p.2) := by
  suffices hgen : ∀ scores : Scores, (shifts.foldl (addShift policy) scores).recipients =
      ((counted policy shifts).map fun p => recipientOf p.1 p.2).foldl addScore
        scores.recipients from hgen ⟨∅, issues⟩
  induction shifts with
  | nil => exact fun _ => rfl
  | cons shift shifts ih =>
      intro scores
      rw [List.foldl_cons, ih]
      have hcounted : counted policy (shift :: shifts) =
          ((shiftScore policy shift).map fun score => (shift, score)).toList ++
            counted policy shifts := by
        rw [counted, List.filterMap_cons, counted]
        cases shiftScore policy shift <;> rfl
      rw [hcounted, List.map_append, List.foldl_append]
      refine congrArg (fun t => List.foldl addScore t _) ?_
      unfold addShift shiftScore
      split
      · rfl
      · split
        · rfl
        · by_cases hminutes : shift.workedMinutes ≤ 0
          · simp only [hminutes, if_true]
            rfl
          · simp only [hminutes, if_false]
            cases roleWeight policy shift.role <;> rfl

/-! ## The total -/

theorem Score.add_right_comm (a b c : Score) : (a.add b).add c = (a.add c).add b := by
  cases a <;> cases b <;> cases c <;> simp [Score.add]
  ring

theorem Score.add_assoc (a b c : Score) : (a.add b).add c = a.add (b.add c) := by
  cases a <;> cases b <;> cases c <;> simp [Score.add]
  ring

theorem Score.zero_add (a : Score) : Score.add (some 0) a = a := by
  cases a <;> simp [Score.add]

/-- The sum of the scores, from `start` on. -/
def sumFrom (start : Score) (l : List Recipient) : Score :=
  l.foldl (fun sum r => sum.add r.score) start

theorem sumFrom_add (start a : Score) (l : List Recipient) :
    sumFrom (start.add a) l = (sumFrom start l).add a := by
  induction l generalizing start with
  | nil => rfl
  | cons r l ih =>
      change sumFrom ((start.add a).add r.score) l = (sumFrom (start.add r.score) l).add a
      rw [Score.add_right_comm, ih]

theorem sumFrom_setRow_of_none {l : List Recipient} {r : Recipient} (start : Score)
    (h : l.find? (fun x => decide (x.key = r.key)) = none) :
    sumFrom start (Table.setRow Recipient.key r l) = (sumFrom start l).add r.score := by
  induction l generalizing start with
  | nil => rfl
  | cons x l ih =>
      rw [List.find?_cons] at h
      split at h
      · cases h
      · next hx =>
        rw [Table.setRow, if_neg (of_decide_eq_false hx)]
        exact ih (start.add x.score) h

theorem sumFrom_setRow_of_some {l : List Recipient} {r old : Recipient} {a : Score}
    (start : Score) (h : l.find? (fun x => decide (x.key = r.key)) = some old)
    (hr : r.score = old.score.add a) :
    sumFrom start (Table.setRow Recipient.key r l) = (sumFrom start l).add a := by
  induction l generalizing start with
  | nil => cases h
  | cons x l ih =>
      rw [List.find?_cons] at h
      split at h
      · next hx =>
        cases h
        rw [Table.setRow, if_pos (of_decide_eq_true hx)]
        change sumFrom (start.add r.score) l = (sumFrom (start.add old.score) l).add a
        rw [hr, ← sumFrom_add, ← Score.add_assoc]
      · next hx =>
        rw [Table.setRow, if_neg (of_decide_eq_false hx)]
        exact ih (start.add x.score) h

/-- A score that is added to its recipient is added to the total. -/
theorem totalScore_addScore (t : Table Recipient.key) (r : Recipient) :
    totalScore (addScore t r).rows = (totalScore t.rows).add r.score := by
  rw [addScore]
  split
  · next old hold => exact sumFrom_setRow_of_some (some 0) hold rfl
  · next hnone =>
    rw [Score.zero_add]
    exact sumFrom_setRow_of_none (some 0) hnone

theorem totalScore_collect (contributions : List Recipient) :
    totalScore (collect contributions).rows = sumFrom (some 0) contributions := by
  suffices hgen : ∀ t : Table Recipient.key, totalScore (contributions.foldl addScore t).rows =
      sumFrom (totalScore t.rows) contributions from hgen ∅
  induction contributions with
  | nil => exact fun _ => rfl
  | cons r l ih =>
      intro t
      rw [List.foldl_cons, ih, totalScore_addScore]
      rfl

/-! ## Two tables of recipients -/

section Pairs

variable {γ : Type} {f g : γ → Recipient} {ps : List γ} {rows rows' : List Recipient}

/-- The rows are those of one item, under its two keys. -/
def Paired (f g : γ → Recipient) (ps : List γ) (r r' : Recipient) : Prop :=
  ∃ p ∈ ps, ∃ score, r = { f p with score := score } ∧ r' = { g p with score := score }

/-- The items that share a key share the other. -/
def KeysAlike (f g : γ → Recipient) (ps : List γ) : Prop :=
  ∀ p ∈ ps, ∀ q ∈ ps, (f p).key = (f q).key ↔ (g p).key = (g q).key

theorem Paired.key_iff (h : KeysAlike f g ps) {r r' : Recipient} (hr : Paired f g ps r r') {p : γ}
    (hp : p ∈ ps) : r.key = (f p).key ↔ r'.key = (g p).key := by
  obtain ⟨q, hq, score, rfl, rfl⟩ := hr
  exact h q hq p hp

theorem find_paired (h : KeysAlike f g ps) (hrows : List.Forall₂ (Paired f g ps) rows rows')
    {p : γ} (hp : p ∈ ps) :
    Option.Rel (Paired f g ps) (rows.find? fun x => decide (x.key = (f p).key))
      (rows'.find? fun x => decide (x.key = (g p).key)) := by
  induction hrows with
  | nil => exact .none
  | @cons r r' rows rows' hr hrest ih =>
      have hiff := hr.key_iff h hp
      by_cases hkey : r.key = (f p).key
      · rw [List.find?_cons_of_pos (by simpa using hkey),
          List.find?_cons_of_pos (by simpa using hiff.mp hkey)]
        exact .some hr
      · rw [List.find?_cons_of_neg (by simpa using hkey),
          List.find?_cons_of_neg (by simpa using fun h => hkey (hiff.mpr h))]
        exact ih

theorem setRow_paired (h : KeysAlike f g ps) (hrows : List.Forall₂ (Paired f g ps) rows rows')
    {p : γ} (hp : p ∈ ps) (score : Score) :
    List.Forall₂ (Paired f g ps)
      (Table.setRow Recipient.key { f p with score := score } rows)
      (Table.setRow Recipient.key { g p with score := score } rows') := by
  have hnew : Paired f g ps { f p with score := score } { g p with score := score } :=
    ⟨p, hp, score, rfl, rfl⟩
  induction hrows with
  | nil => exact .cons hnew .nil
  | @cons r r' rows rows' hr hrest ih =>
      have hiff := hr.key_iff h hp
      by_cases hkey : r.key = (f p).key
      · rw [Table.setRow, if_pos hkey, Table.setRow, if_pos (hiff.mp hkey)]
        exact .cons hnew hrest
      · rw [Table.setRow, if_neg hkey, Table.setRow, if_neg fun h => hkey (hiff.mpr h)]
        exact .cons hr ih

theorem addScore_paired (h : KeysAlike f g ps) {t t' : Table Recipient.key}
    (hrows : List.Forall₂ (Paired f g ps) t.rows t'.rows) {p : γ} (hp : p ∈ ps)
    (hscore : (f p).score = (g p).score) :
    List.Forall₂ (Paired f g ps) (addScore t (f p)).rows (addScore t' (g p)).rows := by
  have hfind := find_paired h hrows hp
  rw [addScore, addScore]
  cases hold : t.find (f p).key with
  | none =>
      cases hold' : t'.find (g p).key with
      | none =>
          rw [hscore]
          exact setRow_paired h hrows hp _
      | some old' =>
          rw [Table.find] at hold hold'
          rw [hold, hold'] at hfind
          cases hfind
  | some old =>
      cases hold' : t'.find (g p).key with
      | none =>
          rw [Table.find] at hold hold'
          rw [hold, hold'] at hfind
          cases hfind
      | some old' =>
          rw [Table.find] at hold hold'
          rw [hold, hold'] at hfind
          obtain ⟨q, -, score, hq, hq'⟩ : Paired f g ps old old' := by cases hfind; assumption
          have hsame : old.score = old'.score := by rw [hq, hq']
          dsimp only
          rw [hscore, hsame]
          exact setRow_paired h hrows hp _

/-- Items whose two keys agree make the same table, under either. -/
theorem collect_paired (h : KeysAlike f g ps) (hscore : ∀ p ∈ ps, (f p).score = (g p).score) :
    List.Forall₂ (Paired f g ps) (collect (ps.map f)).rows (collect (ps.map g)).rows := by
  suffices hgen : ∀ (l : List γ) (t t' : Table Recipient.key), (∀ p ∈ l, p ∈ ps) →
      List.Forall₂ (Paired f g ps) t.rows t'.rows →
      List.Forall₂ (Paired f g ps) ((l.map f).foldl addScore t).rows
        ((l.map g).foldl addScore t').rows from hgen ps ∅ ∅ (fun _ hp => hp) .nil
  intro l
  induction l with
  | nil => exact fun _ _ _ hrows => hrows
  | cons p l ih =>
      intro t t' hl hrows
      have hp := hl p List.mem_cons_self
      exact ih _ _ (fun q hq => hl q (List.mem_cons_of_mem p hq))
        (addScore_paired h hrows hp (hscore p hp))

/-- The keys of a table are those of its contributions. -/
theorem mem_keys_collect (contributions : List Recipient) (k : String) :
    k ∈ (collect contributions).rows.map Recipient.key ↔ k ∈ contributions.map Recipient.key := by
  suffices hgen : ∀ t : Table Recipient.key,
      k ∈ (contributions.foldl addScore t).rows.map Recipient.key ↔
        k ∈ t.rows.map Recipient.key ∨ k ∈ contributions.map Recipient.key from
    (hgen ∅).trans (by simp)
  induction contributions with
  | nil => simp
  | cons r l ih =>
      intro t
      have hset (score : Score) : k ∈ (t.set { r with score := score }).rows.map Recipient.key ↔
          k ∈ t.rows.map Recipient.key ∨ k = r.key := by
        simp only [List.mem_map, Table.mem_set]
        grind
      rw [List.foldl_cons, ih, List.map_cons, List.mem_cons, ← or_assoc]
      refine or_congr_left ?_
      rw [addScore]
      split <;> exact hset _

theorem length_collect (contributions : List Recipient) :
    (collect contributions).rows.length = (contributions.map Recipient.key).toFinset.card := by
  rw [← List.length_map Recipient.key, ← List.toFinset_card_of_nodup (collect contributions).nodup]
  refine congrArg Finset.card (Finset.ext fun k => ?_)
  rw [List.mem_toFinset, List.mem_toFinset, mem_keys_collect]

/-- Keys that only ever tell items apart that shared a key make no fewer recipients,
and more when they do. -/
theorem length_collect_lt (h : ∀ p ∈ ps, ∀ q ∈ ps, (g p).key = (g q).key → (f p).key = (f q).key)
    (hne : ¬ KeysAlike f g ps) :
    (collect (ps.map f)).rows.length < (collect (ps.map g)).rows.length := by
  classical
  -- the key that an item with this new key had
  let old (k : String) : String :=
    if hk : ∃ p ∈ ps, (g p).key = k then (f hk.choose).key else k
  have hold (p : γ) (hp : p ∈ ps) : old (g p).key = (f p).key := by
    have hk : ∃ q ∈ ps, (g q).key = (g p).key := ⟨p, hp, rfl⟩
    change (if hk : ∃ q ∈ ps, (g q).key = (g p).key then (f hk.choose).key else _) = _
    rw [dif_pos hk]
    exact h _ hk.choose_spec.1 p hp hk.choose_spec.2
  have himage : ((ps.map f).map Recipient.key).toFinset =
      ((ps.map g).map Recipient.key).toFinset.image old := by
    ext k
    simp only [List.mem_toFinset, Finset.mem_image, List.mem_map, exists_exists_and_eq_and]
    refine exists_congr fun p => and_congr_right fun hp => ?_
    rw [hold p hp]
  rw [length_collect, length_collect, himage]
  refine lt_of_le_of_ne Finset.card_image_le fun heq => hne fun p hp q hq => ?_
  refine ⟨fun hkey => ?_, h p hp q hq⟩
  refine Finset.card_image_iff.mp heq ?_ ?_ ?_
  · simp only [Finset.mem_coe, List.mem_toFinset, List.mem_map, exists_exists_and_eq_and]
    exact ⟨p, hp, rfl⟩
  · simp only [Finset.mem_coe, List.mem_toFinset, List.mem_map, exists_exists_and_eq_and]
    exact ⟨q, hq, rfl⟩
  · rw [hold p hp, hold q hq, hkey]

end Pairs

/-! ## Keys and identities -/

theorem shiftScore_eq (policy : AllocationPolicyInput) {s t : AllocationShiftInput}
    (h : (s.role, s.workedMinutes, s.shiftStatus) = (t.role, t.workedMinutes, t.shiftStatus)) :
    shiftScore policy s = shiftScore policy t := by
  obtain ⟨hrole, h⟩ := Prod.mk.inj h
  obtain ⟨hminutes, hstatus⟩ := Prod.mk.inj h
  rw [shiftScore, shiftScore, hrole, hminutes, hstatus]

/-- Who a row of the split is for. -/
def Recipient.identity (r : Recipient) : Option WorkerId × Option String × Option String :=
  (r.workerId, r.provider, r.externalWorkerId)

/-- Whom a shift counts for. -/
def shiftIdentity (shift : AllocationShiftInput) :
    Option WorkerId × Option String × Option String := (recipientOf shift none).identity

/-- The key a shift counts under. -/
def shiftKey (shift : AllocationShiftInput) : String := (recipientOf shift none).key

theorem recipientOf_eq (shift : AllocationShiftInput) (score : Score) :
    recipientOf shift score = { recipientOf shift none with score := score } := by
  unfold recipientOf
  cases truthyWorkerId shift <;> rfl

theorem shiftKey_of_some {s : AllocationShiftInput} {id : WorkerId}
    (h : truthyWorkerId s = some id) : shiftKey s = "worker:" ++ id := by
  rw [shiftKey, recipientOf, h]

theorem shiftKey_of_none {s : AllocationShiftInput} (h : truthyWorkerId s = none) :
    shiftKey s = "held:" ++ s.provider ++ ":" ++ s.externalWorkerId := by
  rw [shiftKey, recipientOf, h]

theorem shiftIdentity_of_some {s : AllocationShiftInput} {id : WorkerId}
    (h : truthyWorkerId s = some id) : shiftIdentity s = (some id, none, none) := by
  rw [shiftIdentity, recipientOf, h]
  rfl

theorem shiftIdentity_of_none {s : AllocationShiftInput} (h : truthyWorkerId s = none) :
    shiftIdentity s = (none, some s.provider, some s.externalWorkerId) := by
  rw [shiftIdentity, recipientOf, h]
  rfl

theorem workerKey_injective {a b : String} (h : "worker:" ++ a = "worker:" ++ b) : a = b := by
  have hlist := congrArg String.toList h
  rw [String.toList_append, String.toList_append, List.append_cancel_left_eq] at hlist
  exact String.toList_injective hlist

theorem workerKey_ne_held (a b : String) : "worker:" ++ a ≠ "held:" ++ b := by
  intro h
  have hlist := congrArg (fun s => s.toList.head?) h
  simp only [String.toList_append] at hlist
  cases hlist

/-- A key is worker's own only. -/
theorem truthy_of_key {s : AllocationShiftInput} {id : WorkerId}
    (h : shiftKey s = "worker:" ++ id) : truthyWorkerId s = some id := by
  cases hs : truthyWorkerId s with
  | some id' =>
      rw [shiftKey_of_some hs] at h
      rw [workerKey_injective h]
  | none =>
      rw [shiftKey_of_none hs, String.append_assoc, String.append_assoc] at h
      exact absurd h.symm (workerKey_ne_held id _)

/-- Whom a shift counts for determines its row. -/
theorem recipientOf_congr {s t : AllocationShiftInput} (h : shiftIdentity s = shiftIdentity t)
    (score : Score) : recipientOf s score = recipientOf t score := by
  unfold recipientOf
  cases hs : truthyWorkerId s with
  | some id =>
      cases ht : truthyWorkerId t with
      | some id' =>
          rw [shiftIdentity_of_some hs, shiftIdentity_of_some ht] at h
          cases h
          rfl
      | none =>
          rw [shiftIdentity_of_some hs, shiftIdentity_of_none ht] at h
          cases h
  | none =>
      cases ht : truthyWorkerId t with
      | some id' =>
          rw [shiftIdentity_of_none hs, shiftIdentity_of_some ht] at h
          cases h
      | none =>
          rw [shiftIdentity_of_none hs, shiftIdentity_of_none ht] at h
          obtain ⟨-, hrest⟩ := Prod.mk.inj h
          obtain ⟨hp, he⟩ := Prod.mk.inj hrest
          dsimp only
          rw [Option.some.inj hp, Option.some.inj he]

theorem shiftKey_eq {s t : AllocationShiftInput} (h : shiftIdentity s = shiftIdentity t) :
    shiftKey s = shiftKey t := congrArg Recipient.key (recipientOf_congr h none)

end Engine
end ServeProof
