import ServeProof.Disclosure.Schema

/-!
# ServeProof.Disclosure.AccessStore

The Redis keys behind recipient access: one-time codes with their counters,
and sessions; and the codes of a login.  A key with a time to live is gone once
its time has passed.
-/

namespace ServeProof

inductive RedisKey where
  | otp (grantId : GrantId)
  | attempts (grantId : GrantId)
  | cooldown (grantId : GrantId)
  | hourlyRequests (grantId : GrantId)
  | session (grantId : GrantId) (accessToken : Sha256)
  | loginOtp (email : String)
  | loginAttempts (email : String)
  deriving DecidableEq, Repr

inductive RedisValue where
  | flag
  | count (n : Int)
  | hash (h : Sha256)
  deriving DecidableEq, Repr

structure RedisEntry where
  key : RedisKey
  value : RedisValue
  expiresAt : Option Date
  deriving DecidableEq, Repr

def RedisEntry.Alive (now : Date) (e : RedisEntry) : Prop := ∀ t ∈ e.expiresAt, now ≤ t

instance (now : Date) (e : RedisEntry) : Decidable (e.Alive now) :=
  inferInstanceAs (Decidable (∀ _ ∈ _, _))

abbrev AccessStore := Table RedisEntry.key

inductive RedisCommand where
  | set (key : RedisKey) (value : RedisValue) (ttlSeconds : Int)
  /-- `SET … NX`: only when the key is not there. -/
  | setNx (key : RedisKey) (value : RedisValue) (ttlSeconds : Int)
  /-- `INCR` and `DECR`: an absent key counts from 0 and does not expire. -/
  | add (key : RedisKey) (n : Int)
  | expire (key : RedisKey) (ttlSeconds : Int)
  | del (keys : List RedisKey)
  deriving DecidableEq, Repr

/-- The key a command gives a value to. -/
def RedisCommand.key : RedisCommand → Option RedisKey
  | set key _ _ | setNx key _ _ | add key _ | expire key _ => some key
  | del _ => none

namespace AccessStore

variable (st : AccessStore) (now : Date)

/-- The entry of a key, if its time has not passed. -/
def live (key : RedisKey) : Option RedisEntry :=
  (st.find key).filter fun e => decide (e.Alive now)

def get (key : RedisKey) : Option RedisValue := (live st now key).map RedisEntry.value

/-- The number under a key, 0 when there is none. -/
def count (key : RedisKey) : Int :=
  match get st now key with
  | some (.count n) => n
  | _ => 0

def after (ttlSeconds : Int) : Date := now + ttlSeconds * 1000

def apply : RedisCommand → AccessStore
  | .set key value ttl => st.set ⟨key, value, some (after now ttl)⟩
  | .setNx key value ttl =>
      if live st now key = none then st.set ⟨key, value, some (after now ttl)⟩ else st
  | .add key n =>
      st.set ⟨key, .count (count st now key + n), (live st now key).bind RedisEntry.expiresAt⟩
  | .expire key ttl =>
      match live st now key with
      | some e => st.set { e with expiresAt := some (after now ttl) }
      | none => st
  | .del keys => st.erase fun e => decide (e.key ∈ keys)

variable {st now}

/-- What a command leaves under a key it gives no value to was there. -/
theorem find_of_apply {c : RedisCommand} {key : RedisKey} {e : RedisEntry}
    (hc : c.key ≠ some key) (h : (st.apply now c).find key = some e) : st.find key = some e := by
  have hset {e' : RedisEntry} (hne : e'.key ≠ key) (h : (st.set e').find key = some e) :
      st.find key = some e := by
    rwa [Table.find_set, if_neg hne] at h
  cases c with
  | set k value ttl => exact hset (fun hk => hc (congrArg some hk)) h
  | setNx k value ttl =>
      simp only [apply] at h
      split at h
      · exact hset (fun hk => hc (congrArg some hk)) h
      · exact h
  | add k n => exact hset (fun hk => hc (congrArg some hk)) h
  | expire k ttl =>
      simp only [apply] at h
      split at h
      · next e' he' =>
        obtain ⟨hfind, -⟩ := Option.filter_eq_some_iff.mp he'
        refine hset (fun hk => hc ?_) h
        rw [RedisCommand.key, ← hk, Table.key_of_find hfind]
      · exact h
  | del keys =>
      simp only [apply, Table.find_erase] at h
      exact (Option.filter_eq_some_iff.mp h).1

/-- A value that is read has not outlived its time. -/
theorem find_of_get {key : RedisKey} (h : (get st now key).isSome) :
    ∃ e, st.find key = some e ∧ e.Alive now := by
  obtain ⟨value, hvalue⟩ := Option.isSome_iff_exists.mp h
  obtain ⟨e, he, -⟩ := Option.map_eq_some_iff.mp hvalue
  obtain ⟨hfind, halive⟩ := Option.filter_eq_some_iff.mp he
  exact ⟨e, hfind, of_decide_eq_true halive⟩

end AccessStore
end ServeProof
