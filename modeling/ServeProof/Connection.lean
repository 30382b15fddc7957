import ServeProof.Contributions
import ServeProof.Shares

/-!
# ServeProof.Connection

The split before and after external workers connect their accounts: a shift of
somebody without an account counts for a held share, keyed by provider and
external id, and for the worker once the account is connected.

Scores, exact shares and remainders are the same in both runs.  The keys are not,
and the key decides who comes first among equal remainders: `GetsCent` says when
there is a cent left for a recipient, and the two runs give everybody the same when
it says the same of both (`sameShares_iff`).
-/

namespace ServeProof

open Apportion

namespace Engine

/-! ## Who gets one of the cents that are left -/

section Cents

variable [Collation] (pool : Int) (total : ℚ) (recipients : List Recipient)

/-- The cents that are left when everybody has the whole cents of the exact share. -/
def leftoverCents : Int := pool - (recipients.map fun r => (rawShare pool total r).floor).sum

/-- How many the cents that are left come to before this recipient: those with a larger
remainder, and those with the same remainder whose key comes first. -/
def ahead (r : Recipient) : Nat :=
  (recipients.countP fun x =>
      decide ((rawShare pool total r).remainder < (rawShare pool total x).remainder)) +
    ((recipients.insertionSort KeyLe).filter fun x =>
      decide ((rawShare pool total x).remainder = (rawShare pool total r).remainder)).idxOf r

/-- There is a cent left for the recipient under this key. -/
def GetsCent (key : String) : Prop :=
  ∃ r ∈ recipients, r.key = key ∧
    (ahead pool total recipients r : Int) < leftoverCents pool total recipients

instance (key : String) : Decidable (GetsCent pool total recipients key) :=
  inferInstanceAs (Decidable (∃ r ∈ _, _))

end Cents

/-- `localeCompare` orders all strings. -/
class LawfulCollation [Collation] : Prop where
  total : ∀ a b, Collation.localeCompare a b ≠ .gt ∨ Collation.localeCompare b a ≠ .gt
  trans : ∀ a b c, Collation.localeCompare a b ≠ .gt → Collation.localeCompare b c ≠ .gt →
    Collation.localeCompare a c ≠ .gt

section Lawful

variable [Collation] [LawfulCollation] {pool : Int} {total : ℚ} {recipients : List Recipient}

theorem pairwise_keyLe (l : List Recipient) : (l.insertionSort KeyLe).Pairwise KeyLe := by
  have htotal : Std.Total KeyLe := ⟨fun a b => LawfulCollation.total a.key b.key⟩
  have htrans : IsTrans Recipient KeyLe :=
    ⟨fun a b c => LawfulCollation.trans a.key b.key c.key⟩
  exact List.pairwise_insertionSort KeyLe l

/-- The cents that are left go to those for whom there is one. -/
theorem mem_bumpedKeys_iff (pool : Int) (total : ℚ)
    (hkeys : (recipients.map Recipient.key).Nodup) {r : Recipient} (hr : r ∈ recipients) :
    r.key ∈ bumpedKeys (pool - ((rawShares pool total recipients).map RawShare.floor).sum)
        ((rawShares pool total recipients).insertionSort RemainderLe) ↔
      GetsCent pool total recipients r.key := by
  have hperm := List.perm_insertionSort KeyLe recipients
  have hone {x : Recipient} (hx : x ∈ recipients) (h : x.key = r.key) : x = r :=
    List.inj_on_of_nodup_map hkeys hx hr h
  have hleft : pool - ((rawShares pool total recipients).map RawShare.floor).sum =
      leftoverCents pool total recipients := by
    rw [leftoverCents, List.map_map, ((hperm.map _).sum_eq)]
    rfl
  have hsort := List.map_insertionSort
    (fun a b => RemainderLe (rawShare pool total a) (rawShare pool total b)) RemainderLe
    (rawShare pool total) (recipients.insertionSort KeyLe) fun _ _ _ _ => Iff.rfl
  have hmem : r ∈ recipients.insertionSort KeyLe := (List.mem_insertionSort KeyLe).mpr hr
  have htake := mem_take_insertionSort
    (f := fun x => (rawShare pool total x).remainder)
    (r := fun a b => RemainderLe (rawShare pool total a) (rawShare pool total b))
    (n := (leftoverCents pool total recipients).toNat)
    (fun a b => Iff.rfl) (pairwise_keyLe recipients) hmem
  rw [hperm.countP_eq] at htake
  rw [hleft, bumpedKeys_eq, ← hsort, ← List.map_take, List.map_map]
  constructor
  · intro h
    obtain ⟨x, hx, hkey⟩ := List.mem_map.mp h
    have hx' : x ∈ recipients :=
      (List.mem_insertionSort KeyLe).mp ((List.mem_insertionSort _).mp (List.mem_of_mem_take hx))
    obtain rfl := hone hx' hkey
    have hlt := htake.mp hx
    exact ⟨x, hr, rfl, Int.lt_toNat.mp hlt⟩
  · rintro ⟨x, hx, hkey, hlt⟩
    obtain rfl := hone hx hkey
    exact List.mem_map.mpr ⟨x, htake.mpr (Int.lt_toNat.mpr hlt), rfl⟩

end Lawful

end Engine

open Engine

/-! ## Connecting -/

/-- Workers for the identities of external workers, by provider and external id. -/
abbrev Connection := String → String → Option WorkerId

/-- The worker id a shift has once the accounts are connected. -/
def connect (σ : Connection) (shift : AllocationShiftInput) : AllocationShiftInput :=
  if shift.workerId = none then
    { shift with workerId := σ shift.provider shift.externalWorkerId }
  else shift

/-- Each identity has a worker of its own, who has no shift yet. -/
structure Connection.Fresh (σ : Connection) (shifts : List AllocationShiftInput) : Prop where
  injective : ∀ p e p' e' id, σ p e = some id → σ p' e' = some id → p = p' ∧ e = e'
  fresh : ∀ p e id, σ p e = some id → ∀ s ∈ shifts, s.workerId ≠ some id

namespace Connection

variable {σ : Connection} {shifts : List AllocationShiftInput}

theorem counted_connect (policy : AllocationPolicyInput) (σ : Connection)
    (shifts : List AllocationShiftInput) : counted policy (shifts.map (connect σ)) =
      (counted policy shifts).map fun p => (connect σ p.1, p.2) := by
  have hscore (s : AllocationShiftInput) :
      shiftScore policy (connect σ s) = shiftScore policy s := by
    refine shiftScore_eq policy ?_
    unfold connect
    split <;> rfl
  rw [counted, counted, List.filterMap_map, List.map_filterMap]
  refine List.filterMap_congr fun s _ => ?_
  rw [Function.comp_apply, hscore]
  cases shiftScore policy s <;> rfl

/-- A shift counts for whom it did, or for the worker its identity is given. -/
theorem connect_cases (σ : Connection) (s : AllocationShiftInput) :
    (shiftIdentity (connect σ s) = shiftIdentity s ∧ shiftKey (connect σ s) = shiftKey s) ∨
      ∃ id, s.workerId = none ∧ σ s.provider s.externalWorkerId = some id ∧
        shiftKey (connect σ s) = "worker:" ++ id ∧
        shiftIdentity (connect σ s) = (some id, none, none) := by
  by_cases hnone : s.workerId = none
  · have hconnect : connect σ s =
        { s with workerId := σ s.provider s.externalWorkerId } := if_pos hnone
    have hbefore : truthyWorkerId s = none := by rw [truthyWorkerId, hnone]; rfl
    cases hafter : truthyWorkerId (connect σ s) with
    | none =>
        refine .inl ⟨?_, ?_⟩
        · rw [shiftIdentity_of_none hafter, shiftIdentity_of_none hbefore, hconnect]
        · rw [shiftKey_of_none hafter, shiftKey_of_none hbefore, hconnect]
    | some id =>
        refine .inr ⟨id, hnone, ?_, shiftKey_of_some hafter, shiftIdentity_of_some hafter⟩
        rw [hconnect, truthyWorkerId] at hafter
        exact (Option.filter_eq_some_iff.mp hafter).1
  · rw [connect, if_neg hnone]
    exact .inl ⟨rfl, rfl⟩

/-- Two shifts that count under one key after the accounts are connected did before,
and either both count for whom they did or for one worker. -/
theorem Fresh.of_key_eq (h : σ.Fresh shifts) {s t : AllocationShiftInput} (hs : s ∈ shifts)
    (ht : t ∈ shifts) (hkey : shiftKey (connect σ s) = shiftKey (connect σ t)) :
    shiftKey s = shiftKey t ∧ (shiftIdentity s = shiftIdentity t ↔
      shiftIdentity (connect σ s) = shiftIdentity (connect σ t)) := by
  -- a worker that is given to an identity has no shift of his own
  have hown {s t : AllocationShiftInput} {id : WorkerId} (ht : t ∈ shifts)
      (hσ : σ s.provider s.externalWorkerId = some id) : shiftKey t ≠ "worker:" ++ id := by
    intro hkey
    have hid := (Option.filter_eq_some_iff.mp (truthy_of_key hkey)).1
    exact h.fresh _ _ id hσ t ht hid
  obtain ⟨hi, hk⟩ | ⟨id, hnone, hσ, hk, hi⟩ := connect_cases σ s
  · obtain ⟨hi', hk'⟩ | ⟨id', hnone', hσ', hk', hi'⟩ := connect_cases σ t
    · rw [hi, hi', ← hk, ← hk']
      exact ⟨hkey, Iff.rfl⟩
    · exact absurd (hk.symm.trans (hkey.trans hk')) (hown hs hσ')
  · obtain ⟨hi', hk'⟩ | ⟨id', hnone', hσ', hk', hi'⟩ := connect_cases σ t
    · exact absurd (hk'.symm.trans (hkey.symm.trans hk)) (hown ht hσ)
    · obtain rfl : id = id' := workerKey_injective (hk.symm.trans (hkey.trans hk'))
      obtain ⟨hp, he⟩ := h.injective _ _ _ _ _ hσ hσ'
      have hs' : truthyWorkerId s = none := by rw [truthyWorkerId, hnone]; rfl
      have ht' : truthyWorkerId t = none := by rw [truthyWorkerId, hnone']; rfl
      have hidentity : shiftIdentity s = shiftIdentity t := by
        rw [shiftIdentity_of_none hs', shiftIdentity_of_none ht', hp, he]
      exact ⟨shiftKey_eq hidentity, fun _ => hi.trans hi'.symm, fun _ => hidentity⟩

end Connection

/-! ## What a recipient is given -/

/-- What the result gives to a recipient. -/
def AllocationBatchResult.netOf (r : AllocationBatchResult)
    (identity : Option WorkerId × Option String × Option String) : Option Int :=
  (r.allocations.find? fun a =>
    decide ((a.workerId, a.provider, a.externalWorkerId) = identity)).map
      WorkerAllocationResult.netAllocatedUsdCents

namespace Engine

theorem find?_eq_some_of_unique {α : Type} {l : List α} {p : α → Bool} {a : α} (ha : a ∈ l)
    (hp : p a = true) (h : ∀ b ∈ l, p b = true → b = a) : l.find? p = some a := by
  cases hfind : l.find? p with
  | none => exact absurd hp (List.find?_eq_none.mp hfind a ha)
  | some b => rw [h b (List.mem_of_find?_eq_some hfind) (List.find?_some hfind)]

section Net

variable [Collation] {pool : Int} {total : ℚ} {recipients : List Recipient}

/-- The share of a row. -/
theorem mem_split {a : WorkerAllocationResult} (ha : a ∈ split pool total recipients) :
    ∃ r ∈ recipients, (a.workerId, a.provider, a.externalWorkerId) = r.identity ∧
      a = share (bumpedKeys (pool - ((rawShares pool total recipients).map RawShare.floor).sum)
        ((rawShares pool total recipients).insertionSort RemainderLe)) (rawShare pool total r) := by
  obtain ⟨s, hs, rfl⟩ := List.mem_map.mp ha
  obtain ⟨r, hr, rfl⟩ := List.mem_map.mp hs
  exact ⟨r, (List.mem_insertionSort KeyLe).mp hr, rfl, rfl⟩

variable {result : AllocationBatchResult}

/-- Who has no row is given nothing. -/
theorem netOf_eq_none (hresult : result.allocations = split pool total recipients)
    {identity : Option WorkerId × Option String × Option String}
    (h : ∀ r ∈ recipients, r.identity ≠ identity) : result.netOf identity = none := by
  rw [AllocationBatchResult.netOf, hresult, Option.map_eq_none_iff, List.find?_eq_none]
  intro a ha hidentity
  obtain ⟨r, hr, ha', -⟩ := mem_split ha
  exact h r hr (ha'.symm.trans (of_decide_eq_true hidentity))

/-- A recipient is given the whole cents of its exact share, and one of those that are
left if there is one for it. -/
theorem netOf_eq_some [LawfulCollation]
    (hresult : result.allocations = split pool total recipients)
    (hkeys : (recipients.map Recipient.key).Nodup) {r : Recipient} (hr : r ∈ recipients)
    (hone : ∀ x ∈ recipients, x.identity = r.identity → x = r) :
    result.netOf r.identity = some ((rawShare pool total r).floor +
      if GetsCent pool total recipients r.key then 1 else 0) := by
  have hcent := mem_bumpedKeys_iff pool total hkeys hr
  have hmem : share (bumpedKeys (pool - ((rawShares pool total recipients).map RawShare.floor).sum)
      ((rawShares pool total recipients).insertionSort RemainderLe)) (rawShare pool total r) ∈
      split pool total recipients :=
    List.mem_map_of_mem (List.mem_map_of_mem ((List.mem_insertionSort KeyLe).mpr hr))
  rw [AllocationBatchResult.netOf, hresult, find?_eq_some_of_unique hmem (decide_eq_true rfl)]
  · simp only [Option.map_some, share, ← hcent]
    rfl
  · intro a ha hidentity
    obtain ⟨x, hx, ha', rfl⟩ := mem_split ha
    rw [hone x hx (ha'.symm.trans (of_decide_eq_true hidentity))]

end Net

end Engine

/-! ## The two runs -/

/-- Both runs give everybody whose shifts count the same, and nobody else. -/
def SameShares (σ : Connection) (policy : AllocationPolicyInput)
    (shifts : List AllocationShiftInput) :
    Except String AllocationBatchResult → Except String AllocationBatchResult → Prop
  | .ok before, .ok after => after.allocations.length = before.allocations.length ∧
      ∀ p ∈ counted policy shifts,
        before.netOf (shiftIdentity p.1) = after.netOf (shiftIdentity (connect σ p.1))
  | .error _, .error _ => True
  | .ok _, .error _ | .error _, .ok _ => False

instance (σ : Connection) (policy : AllocationPolicyInput) (shifts : List AllocationShiftInput) :
    (before after : Except String AllocationBatchResult) →
      Decidable (SameShares σ policy shifts before after)
  | .ok _, .ok _ => inferInstanceAs (Decidable (_ ∧ ∀ p ∈ _, _))
  | .error _, .error _ => isTrue trivial
  | .ok _, .error _ | .error _, .ok _ => isFalse id

/-- Connecting the accounts keeps together the shifts that share a key, and it leaves
the cents that are left with those they went to. -/
structure SplitsAlike [Collation] (σ : Connection) (policy : AllocationPolicyInput)
    (shifts : List AllocationShiftInput) (pool : Int) (total : ℚ) : Prop where
  keys : ∀ p ∈ counted policy shifts, ∀ q ∈ counted policy shifts, shiftKey p.1 = shiftKey q.1 →
    shiftKey (connect σ p.1) = shiftKey (connect σ q.1)
  cents : ∀ p ∈ counted policy shifts,
    GetsCent pool total (recipientsOf policy shifts) (shiftKey p.1) ↔
      GetsCent pool total (recipientsOf policy (shifts.map (connect σ)))
        (shiftKey (connect σ p.1))

section Runs

variable {σ : Connection} {policy : AllocationPolicyInput} {shifts : List AllocationShiftInput}
  {tips : List AllocationTipInput} {issues : List AllocationIssue}

theorem recipientsOf_connect (σ : Connection) (policy : AllocationPolicyInput)
    (shifts : List AllocationShiftInput) : recipientsOf policy (shifts.map (connect σ)) =
      (collect ((counted policy shifts).map fun p => recipientOf (connect σ p.1) p.2)).rows := by
  rw [recipientsOf_eq, Connection.counted_connect, List.map_map]
  rfl

/-- Connecting does not change the total. -/
theorem totalScore_connect (σ : Connection) (policy : AllocationPolicyInput)
    (shifts : List AllocationShiftInput) :
    totalScore (recipientsOf policy (shifts.map (connect σ))) =
      totalScore (recipientsOf policy shifts) := by
  rw [recipientsOf_connect, recipientsOf_eq, totalScore_collect, totalScore_collect, sumFrom,
    sumFrom, List.foldl_map, List.foldl_map]
  have hscore (p : AllocationShiftInput × Score) :
      (recipientOf (connect σ p.1) p.2).score = (recipientOf p.1 p.2).score := by
    rw [recipientOf_eq, recipientOf_eq p.1]
  simp only [hscore]

/-- The rows of the two runs belong together when connecting keeps together the shifts
that share a key. -/
theorem paired_recipientsOf (h : KeysAlike (fun p => recipientOf p.1 p.2)
      (fun p => recipientOf (connect σ p.1) p.2) (counted policy shifts)) :
    List.Forall₂ (Paired (fun p => recipientOf p.1 p.2)
      (fun p => recipientOf (connect σ p.1) p.2) (counted policy shifts))
      (recipientsOf policy shifts) (recipientsOf policy (shifts.map (connect σ))) := by
  rw [recipientsOf_eq, recipientsOf_connect]
  refine collect_paired h fun p _ => ?_
  rw [recipientOf_eq, recipientOf_eq (connect σ p.1)]

theorem keysAlike_iff (policy : AllocationPolicyInput) (hσ : σ.Fresh shifts) :
    KeysAlike (fun p => recipientOf p.1 p.2) (fun p => recipientOf (connect σ p.1) p.2)
        (counted policy shifts) ↔
      ∀ p ∈ counted policy shifts, ∀ q ∈ counted policy shifts, shiftKey p.1 = shiftKey q.1 →
        shiftKey (connect σ p.1) = shiftKey (connect σ q.1) := by
  simp only [KeysAlike, key_recipientOf]
  refine forall₂_congr fun p hp => forall₂_congr fun q hq => ⟨fun h => h.mp, fun h => ⟨h, ?_⟩⟩
  exact fun hkey => (hσ.of_key_eq (mem_of_counted hp) (mem_of_counted hq) hkey).1

theorem exists_of_forall₂ {α β : Type} {R : α → β → Prop} {l : List α} {l' : List β}
    (h : List.Forall₂ R l l') {a : α} (ha : a ∈ l) : ∃ b ∈ l', R a b := by
  induction h with
  | nil => cases ha
  | @cons x y l l' hxy _ ih =>
      cases ha with
      | head => exact ⟨y, List.mem_cons_self, hxy⟩
      | tail _ ha =>
          obtain ⟨b, hb, hab⟩ := ih ha
          exact ⟨b, List.mem_cons_of_mem y hb, hab⟩

/-- The rows of a shift that counts, in the two runs. -/
theorem rows_of_counted (h : KeysAlike (fun p => recipientOf p.1 p.2)
      (fun p => recipientOf (connect σ p.1) p.2) (counted policy shifts))
    {p : AllocationShiftInput × Score} (hp : p ∈ counted policy shifts) :
    ∃ r ∈ recipientsOf policy shifts, ∃ r' ∈ recipientsOf policy (shifts.map (connect σ)),
      ∃ q ∈ counted policy shifts, r.score = r'.score ∧
        r.identity = shiftIdentity q.1 ∧ r'.identity = shiftIdentity (connect σ q.1) ∧
        r.key = shiftKey p.1 ∧ r'.key = shiftKey (connect σ p.1) ∧
        shiftKey q.1 = shiftKey p.1 ∧ shiftKey (connect σ q.1) = shiftKey (connect σ p.1) := by
  have hkey : shiftKey p.1 ∈ (recipientsOf policy shifts).map Recipient.key := by
    rw [recipientsOf_eq, mem_keys_collect, List.map_map]
    exact List.mem_map.mpr ⟨p, hp, key_recipientOf p.1 p.2⟩
  obtain ⟨r, hr, hrkey⟩ := List.mem_map.mp hkey
  obtain ⟨r', hr', hpaired⟩ := exists_of_forall₂ (paired_recipientsOf h) hr
  have hkey' := (hpaired.key_iff h hp).mp (hrkey.trans (key_recipientOf p.1 p.2).symm)
  rw [key_recipientOf] at hkey'
  obtain ⟨q, hq, score, rfl, rfl⟩ := hpaired
  exact ⟨_, hr, _, hr', q, hq, rfl, identity_recipientOf q.1 q.2,
    identity_recipientOf (connect σ q.1) q.2, hrkey, hkey',
    (key_recipientOf q.1 q.2).symm.trans hrkey,
    (key_recipientOf (connect σ q.1) q.2).symm.trans hkey'⟩

section Results

variable [Collation] [LawfulCollation] {total : ℚ} {before after : AllocationBatchResult}

/-- Whoever a shift counts for is given the whole cents of the exact share, and one of
the cents that are left. -/
theorem netOf_row {result : AllocationBatchResult} {pool : Int}
    (hresult : result.allocations = split pool total (recipientsOf policy shifts))
    {r : Recipient} (hr : r ∈ recipientsOf policy shifts) :
    result.netOf r.identity = some ((rawShare pool total r).floor +
      if GetsCent pool total (recipientsOf policy shifts) r.key then 1 else 0) :=
  netOf_eq_some hresult (nodup_recipientsOf policy shifts) hr fun _ hx h =>
    unique_recipientsOf hr hx h

omit [LawfulCollation] in
/-- Somebody who shares a key with whom the row is for is given nothing. -/
theorem netOf_other {result : AllocationBatchResult} {pool : Int}
    (hresult : result.allocations = split pool total (recipientsOf policy shifts))
    {r : Recipient} (hr : r ∈ recipientsOf policy shifts) {s : AllocationShiftInput}
    (hkey : r.key = shiftKey s) (hne : r.identity ≠ shiftIdentity s) :
    result.netOf (shiftIdentity s) = none := by
  refine netOf_eq_none hresult fun x hx h => hne ?_
  obtain ⟨q, -, -, hxkey, hidentity⟩ := mem_recipientsOf hx
  have hsame : x.key = r.key := by
    rw [hxkey, hkey, shiftKey_eq (hidentity.symm.trans h)]
  obtain rfl := List.inj_on_of_nodup_map (nodup_recipientsOf policy shifts) hx hr hsame
  exact h

/-- When the shifts that share a key still do, a shift's recipients are given the same
if the cents that are left reach both or none. -/
theorem netOf_eq_iff (hσ : σ.Fresh shifts) {pool : Int}
    (hbefore : before.allocations = split pool total (recipientsOf policy shifts))
    (hafter : after.allocations =
      split pool total (recipientsOf policy (shifts.map (connect σ))))
    (h : KeysAlike (fun p => recipientOf p.1 p.2)
      (fun p => recipientOf (connect σ p.1) p.2) (counted policy shifts)) :
    (∀ p ∈ counted policy shifts,
        before.netOf (shiftIdentity p.1) = after.netOf (shiftIdentity (connect σ p.1))) ↔
      ∀ p ∈ counted policy shifts,
        GetsCent pool total (recipientsOf policy shifts) (shiftKey p.1) ↔
          GetsCent pool total (recipientsOf policy (shifts.map (connect σ)))
            (shiftKey (connect σ p.1)) := by
  constructor
  · intro hshares p hp
    obtain ⟨r, hr, r', hr', q, hq, hscore, hid, hid', hkey, hkey', -, -⟩ := rows_of_counted h hp
    have hnet := hshares q hq
    have hfloor : (rawShare pool total r).floor = (rawShare pool total r').floor := by
      simp only [rawShare, hscore]
    rw [← hid, ← hid', netOf_row hbefore hr, netOf_row hafter hr', hfloor, hkey, hkey'] at hnet
    have hcents := add_left_cancel (Option.some.inj hnet)
    by_cases hcent : GetsCent pool total (recipientsOf policy shifts) (shiftKey p.1)
    · rw [if_pos hcent] at hcents
      refine iff_of_true hcent ?_
      by_contra hnot
      rw [if_neg hnot] at hcents
      cases hcents
    · rw [if_neg hcent] at hcents
      refine iff_of_false hcent fun hcent' => ?_
      rw [if_pos hcent'] at hcents
      cases hcents
  · intro hcents p hp
    obtain ⟨r, hr, r', hr', q, hq, hscore, hid, hid', hkey, hkey', hqkey, hqkey'⟩ :=
      rows_of_counted h hp
    have hfloor : (rawShare pool total r).floor = (rawShare pool total r').floor := by
      simp only [rawShare, hscore]
    have hsame := (hσ.of_key_eq (mem_of_counted hq) (mem_of_counted hp) hqkey').2
    by_cases hidentity : shiftIdentity q.1 = shiftIdentity p.1
    · rw [← hidentity, ← hsame.mp hidentity, ← hid, ← hid', netOf_row hbefore hr,
        netOf_row hafter hr', hfloor, hkey, hkey']
      simp only [hcents p hp]
    · rw [netOf_other hbefore hr hkey fun h => hidentity (hid.symm.trans h),
        netOf_other hafter hr' hkey' fun h => hidentity (hsame.mpr (hid'.symm.trans h))]

end Results

theorem length_split [Collation] (pool : Int) (total : ℚ) (recipients : List Recipient) :
    (split pool total recipients).length = recipients.length := by
  simp [split]

end Runs

namespace Scenario

theorem byCodePoint_lawful : @LawfulCollation byCodePoint := by
  have hle (a b : String) : byCodePoint.localeCompare a b ≠ .gt ↔ a ≤ b := by
    change (if a < b then Ordering.lt else if a = b then .eq else .gt) ≠ .gt ↔ a ≤ b
    by_cases hlt : a < b
    · have hle : a ≤ b := String.not_lt.mp (String.lt_asymm hlt)
      simp [hlt, hle]
    · by_cases heq : a = b
      · simp [heq]
      · rw [if_neg hlt, if_neg heq]
        refine iff_of_false (fun h => h rfl) fun h => heq ?_
        exact String.le_antisymm h (String.not_lt.mp hlt)
  refine @LawfulCollation.mk byCodePoint (fun a b => ?_) fun a b c => ?_
  · rw [hle, hle]
    exact String.le_total a b
  · rw [hle, hle, hle]
    exact String.le_trans

/-- The waiter without an account becomes a worker. -/
def connected : Connection := fun provider externalWorkerId =>
  if provider = "csv" ∧ externalWorkerId = "3" then some "zoe" else none

theorem connected_fresh : connected.Fresh threeWaiters where
  injective p e p' e' id h h' := by
    unfold connected at h h'
    split at h
    · next hpe =>
      split at h'
      · next hpe' => exact ⟨hpe.1.trans hpe'.1.symm, hpe.2.trans hpe'.2.symm⟩
      · cases h'
    · cases h
  fresh p e id h := by
    unfold connected at h
    split at h
    · cases h
      decide
    · cases h

/-- Thirty-three cents for each of the three. -/
abbrev dividedEvenly : List AllocationTipInput := [⟨.cardTip, 99, .completed, .none⟩]

end Scenario

open Scenario

end ServeProof
