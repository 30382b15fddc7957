import ServeProof.Disclosure.AccessStore
import ServeProof.Interleave.Tickets

/-!
# ServeProof.Disclosure.Codes

A one-time code in the access store, and the counter of the attempts at it.

Commands that only guess at a code (`RedisCommand.Guesses`) never bring its
counter down as long as it is there; nor as long as the code is there, when the
counter does not expire before the code (`Outlived`).  So the calls that count
an attempt meanwhile are bounded (`attempts_bounded`).
-/

namespace ServeProof

open Interleave

/-- A command that gives the code no value, only adds to its counter, and deletes
the counter only with the code. -/
structure RedisCommand.Guesses (code attempts : RedisKey) (c : RedisCommand) : Prop where
  sets : c.key ≠ some code
  adds : c.key = some attempts → ∃ n, 0 ≤ n ∧ c = .add attempts n
  deletes : ∀ keys, c = .del keys → attempts ∈ keys → code ∈ keys

theorem RedisCommand.Guesses.of_key {code attempts : RedisKey} {c : RedisCommand}
    (h : c.key ≠ some code) (h' : c.key ≠ some attempts) (hdel : ∀ keys, c ≠ .del keys) :
    c.Guesses code attempts :=
  ⟨h, fun hk => absurd hk h', fun keys hk => absurd hk (hdel keys)⟩

namespace AccessStore

variable {st st' st'' : AccessStore} {now now' now'' : Date} {key code attempts : RedisKey}

/-! ## What is live -/

theorem live_eq_some_iff {e : RedisEntry} :
    st.live now key = some e ↔ st.find key = some e ∧ e.Alive now := by
  simp [live, Option.filter_eq_some_iff]

theorem live_isSome_iff_get : (st.live now key).isSome = (st.get now key).isSome := by
  rw [get, Option.isSome_map]

theorem live_eq_none_iff_get : st.live now key = none ↔ st.get now key = none := by
  rw [get, Option.map_eq_none_iff]

/-- A command leaves the key alone: it gives it no value and does not delete it. -/
theorem find_apply {c : RedisCommand} (hkey : c.key ≠ some key)
    (hdel : ∀ keys, c = .del keys → key ∉ keys) : (st.apply now c).find key = st.find key := by
  have hset (e : RedisEntry) (hne : e.key ≠ key) : (st.set e).find key = st.find key := by
    rw [Table.find_set, if_neg hne]
  cases c with
  | set k value ttl => exact hset _ fun h => hkey (congrArg some h)
  | setNx k value ttl =>
      simp only [apply]
      split
      · exact hset _ fun h => hkey (congrArg some h)
      · rfl
  | add k n => exact hset _ fun h => hkey (congrArg some h)
  | expire k ttl =>
      simp only [apply]
      split
      · next e he =>
        refine hset _ fun h => hkey ?_
        rw [RedisCommand.key, ← h, Table.key_of_find (live_eq_some_iff.mp he).1]
      · rfl
  | del keys =>
      simp only [apply, Table.find_erase]
      cases hfind : st.find key with
      | none => rfl
      | some e =>
          rw [Option.filter_eq_some_iff]
          refine ⟨rfl, ?_⟩
          rw [Table.key_of_find hfind]
          simpa using hdel keys rfl

theorem find_del {keys : List RedisKey} (h : key ∈ keys) :
    (st.apply now (.del keys)).find key = none := by
  simp only [apply, Table.find_erase]
  cases hfind : st.find key with
  | none => rfl
  | some e => simp [Table.key_of_find hfind, h]

theorem live_congr (h : st'.find key = st.find key) : st'.live now key = st.live now key := by
  rw [live, live, h]

theorem count_congr (h : st'.live now' key = st.live now key) :
    st'.count now' key = st.count now key := by
  rw [count, count, get, get, h]

/-- What is alive later has been alive all along. -/
theorem live_of_later (hle : now ≤ now') {e : RedisEntry} (h : st.live now' key = some e) :
    st.live now key = some e := by
  obtain ⟨hfind, halive⟩ := live_eq_some_iff.mp h
  exact live_eq_some_iff.mpr ⟨hfind, fun t ht => Int.le_trans hle (halive t ht)⟩

/-- A value that a key holds afterwards it held before, unless it was set. -/
theorem get_of_apply {c : RedisCommand} {value : RedisValue} (hkey : ∀ ttl, c ≠ .set key value ttl)
    (hset : c.key = some key → ∃ value ttl, c = .set key value ttl)
    (h : (st.apply now c).get now key = some value) : st.get now key = some value := by
  obtain ⟨e, he, rfl⟩ := Option.map_eq_some_iff.mp h
  obtain ⟨hfind, halive⟩ := live_eq_some_iff.mp he
  by_cases hc : c.key = some key
  · obtain ⟨value, ttl, rfl⟩ := hset hc
    rw [apply, Table.find_set, if_pos rfl] at hfind
    cases hfind
    exact absurd rfl (hkey ttl)
  · rw [get, live_eq_some_iff.mpr ⟨find_of_apply hc hfind, halive⟩]
    rfl

theorem get_of_later {value : RedisValue} (hle : now ≤ now')
    (h : st.get now' key = some value) : st.get now key = some value := by
  obtain ⟨e, he, rfl⟩ := Option.map_eq_some_iff.mp h
  rw [get, live_of_later hle he]
  rfl

theorem get_del {keys : List RedisKey} (h : key ∈ keys) :
    (st.apply now (.del keys)).get now key = none := by
  rw [get, live, find_del h]
  rfl

/-! ## The counter -/

/-- The entry of a counter that has been added to. -/
theorem live_add (n : Int) : (st.apply now (.add key n)).live now key =
    some ⟨key, .count (st.count now key + n), (st.live now key).bind RedisEntry.expiresAt⟩ := by
  refine live_eq_some_iff.mpr ⟨by simp [apply], fun t ht => ?_⟩
  obtain ⟨e, he, hexpires⟩ := Option.bind_eq_some_iff.mp ht
  exact (live_eq_some_iff.mp he).2 t hexpires

theorem count_add (n : Int) :
    (st.apply now (.add key n)).count now key = st.count now key + n := by
  rw [count, get, live_add]
  rfl

variable (key attempts) in
/-- A key that is there afterwards was there before, and the counter has not come
down. -/
def Keeps (now now' : Date) (st st' : AccessStore) : Prop :=
  (st'.live now' key).isSome →
    (st.live now key).isSome ∧ st.count now attempts ≤ st'.count now' attempts

theorem Keeps.refl : Keeps key attempts now now st st := fun hl => ⟨hl, Int.le_refl _⟩

theorem Keeps.trans (h : Keeps key attempts now now' st st')
    (h' : Keeps key attempts now' now'' st' st'') : Keeps key attempts now now'' st st'' := by
  intro hkey
  obtain ⟨hkey', hle'⟩ := h' hkey
  obtain ⟨hkey'', hle⟩ := h hkey'
  exact ⟨hkey'', Int.le_trans hle hle'⟩

/-- Nothing is said of a key that is gone. -/
theorem Keeps.of_gone (h : st'.live now' key = none) : Keeps key attempts now now' st st' :=
  fun hl => by rw [h] at hl; cases hl

theorem Keeps.of_find (hkey : st'.find key = st.find key)
    (hattempts : st'.find attempts = st.find attempts) : Keeps key attempts now now st st' := by
  intro hl
  refine ⟨live_congr hkey ▸ hl, ?_⟩
  rw [count_congr (live_congr hattempts)]

/-- An attempt is counted. -/
theorem keeps_add {n : Int} (hn : 0 ≤ n) (hlive : (st.live now key).isSome) :
    Keeps key attempts now now st (st.apply now (.add attempts n)) := by
  intro _
  refine ⟨hlive, ?_⟩
  rw [count_add]
  omega

/-- A counter that is there keeps what it has counted. -/
theorem keeps_counter {c : RedisCommand} (hc : c.Guesses code attempts)
    (hlive : c.key = some attempts → (st.live now attempts).isSome) :
    Keeps attempts attempts now now st (st.apply now c) := by
  by_cases hkey : c.key = some attempts
  · obtain ⟨n, hn, rfl⟩ := hc.adds hkey
    exact keeps_add hn (hlive hkey)
  · by_cases hgone : ∃ keys, c = .del keys ∧ attempts ∈ keys
    · obtain ⟨keys, rfl, hmem⟩ := hgone
      exact .of_gone (by rw [live, find_del hmem]; rfl)
    · have hsame : (st.apply now c).find attempts = st.find attempts :=
        find_apply hkey fun keys hk hmem => hgone ⟨keys, hk, hmem⟩
      exact .of_find hsame hsame

theorem keeps_counter_wait (hle : now ≤ now') : Keeps attempts attempts now now' st st := by
  intro hl
  obtain ⟨e, he⟩ := Option.isSome_iff_exists.mp hl
  have hlive := live_of_later hle he
  refine ⟨by rw [hlive]; rfl, ?_⟩
  rw [count_congr (he.trans hlive.symm)]

/-! ## The counter of a code -/

variable (st now code attempts) in
/-- As long as the code is alive its counter is. -/
def Outlived : Prop :=
  ∀ e, st.live now code = some e →
    ∃ a, st.find attempts = some a ∧ ∀ t ∈ a.expiresAt, ∃ t' ∈ e.expiresAt, t' ≤ t

/-- The counter of a code that will be alive is alive all the while. -/
theorem Outlived.live {e : RedisEntry} (h : st.Outlived now code attempts) (hle : now ≤ now')
    (he : st.live now' code = some e) : ∃ a, st.find attempts = some a ∧ a.Alive now' := by
  obtain ⟨a, ha, hexpires⟩ := h e (live_of_later hle he)
  refine ⟨a, ha, fun t ht => ?_⟩
  obtain ⟨t', ht', hle'⟩ := hexpires t ht
  exact Int.le_trans ((live_eq_some_iff.mp he).2 t' ht') hle'

theorem outlived_of_gone (h : st.live now code = none) : st.Outlived now code attempts :=
  fun _ he => nomatch h.symm.trans he

/-- As long as a code is there, its counter keeps what it has counted, and does not
expire before it. -/
theorem keeps_code {c : RedisCommand} (hc : c.Guesses code attempts)
    (ho : st.Outlived now code attempts) : (st.apply now c).Outlived now code attempts ∧
      Keeps code attempts now now st (st.apply now c) := by
  by_cases hgone : ∃ keys, c = .del keys ∧ code ∈ keys
  · obtain ⟨keys, rfl, hmem⟩ := hgone
    have hnone : (st.apply now (.del keys)).live now code = none := by
      rw [AccessStore.live, find_del hmem]
      rfl
    exact ⟨outlived_of_gone hnone, .of_gone hnone⟩
  · have hcode : (st.apply now c).find code = st.find code :=
      find_apply hc.sets fun keys hk hmem => hgone ⟨keys, hk, hmem⟩
    have hlive : (st.apply now c).live now code = st.live now code := live_congr hcode
    by_cases hkey : c.key = some attempts
    · obtain ⟨n, hn, rfl⟩ := hc.adds hkey
      refine ⟨fun e he => ?_, fun hl => keeps_add hn (hlive ▸ hl) hl⟩
      obtain ⟨a, ha, hexpires⟩ := ho e (hlive ▸ he)
      obtain ⟨a', ha', halive⟩ := ho.live (Int.le_refl now) (hlive ▸ he)
      obtain rfl : a' = a := Option.some.inj (ha'.symm.trans ha)
      refine ⟨_, (live_eq_some_iff.mp (live_add n)).1, ?_⟩
      rw [live_eq_some_iff.mpr ⟨ha, halive⟩]
      exact hexpires
    · have hattempts : (st.apply now c).find attempts = st.find attempts :=
        find_apply hkey fun keys hk hmem => hgone ⟨keys, hk, hc.deletes keys hk hmem⟩
      refine ⟨fun e he => ?_, .of_find hcode hattempts⟩
      rw [hattempts]
      exact ho e (hlive ▸ he)

theorem keeps_code_wait (hle : now ≤ now') (ho : st.Outlived now code attempts) :
    st.Outlived now' code attempts ∧ Keeps code attempts now now' st st := by
  refine ⟨fun e he => ho e (live_of_later hle he), fun hl => ?_⟩
  obtain ⟨e, he⟩ := Option.isSome_iff_exists.mp hl
  obtain ⟨a, ha, halive⟩ := ho.live hle he
  have hlater : st.live now' attempts = some a := live_eq_some_iff.mpr ⟨ha, halive⟩
  refine ⟨by rw [live_of_later hle he]; rfl, ?_⟩
  rw [count_congr (hlater.trans (live_of_later hle hlater).symm)]

/-- A key expires; the counter only when the code is gone. -/
theorem keeps_code_expire {expired : RedisKey}
    (hfirst : expired = attempts → st.live now code = none)
    (ho : st.Outlived now code attempts) :
    Outlived (st.erase fun e => decide (e.key = expired)) now code attempts ∧
      Keeps code attempts now now st (st.erase fun e => decide (e.key = expired)) := by
  by_cases hlive : AccessStore.live (st.erase fun e => decide (e.key = expired)) now code = none
  · exact ⟨outlived_of_gone hlive, .of_gone hlive⟩
  · have hcode : expired ≠ code := by
      rintro rfl
      exact hlive (by rw [AccessStore.live, Table.find_erase_key, if_pos rfl]; rfl)
    have hsame : Table.find (st.erase fun e => decide (e.key = expired)) code = st.find code := by
      rw [Table.find_erase_key, if_neg hcode]
    have hcounter : expired ≠ attempts := fun h => hlive ((live_congr hsame).trans (hfirst h))
    have hsame' : Table.find (st.erase fun e => decide (e.key = expired)) attempts =
        st.find attempts := by
      rw [Table.find_erase_key, if_neg hcounter]
    refine ⟨fun e he => ?_, .of_find hsame hsame'⟩
    rw [hsame']
    exact ho e (live_congr hsame ▸ he)

/-! ## A new code -/

variable (st now code) in
/-- The code has no more than its time to live ahead of it. -/
def Lasts (ttlSeconds : Int) : Prop :=
  ∀ e, st.find code = some e → ∃ t ∈ e.expiresAt, t ≤ after now ttlSeconds

theorem lasts_apply {ttlSeconds : Int} {c : RedisCommand}
    (hc : c.key = some code → ∃ value, c = .set code value ttlSeconds)
    (h : st.Lasts now code ttlSeconds) : (st.apply now c).Lasts now code ttlSeconds := by
  intro e he
  by_cases hkey : c.key = some code
  · obtain ⟨value, rfl⟩ := hc hkey
    rw [apply, Table.find_set, if_pos rfl] at he
    cases he
    exact ⟨_, rfl, Int.le_refl _⟩
  · exact h e (find_of_apply hkey he)

theorem lasts_wait {ttlSeconds : Int} (hle : now ≤ now') (h : st.Lasts now code ttlSeconds) :
    st.Lasts now' code ttlSeconds := by
  intro e he
  obtain ⟨t, ht, hlt⟩ := h e he
  exact ⟨t, ht, Int.le_trans hlt (Int.add_le_add_right hle _)⟩

/-- A counter that is set starts from 0. -/
theorem live_set {value : RedisValue} {ttlSeconds : Int} (h0 : 0 ≤ ttlSeconds) :
    (st.apply now (.set key value ttlSeconds)).live now key =
      some ⟨key, value, some (after now ttlSeconds)⟩ := by
  refine live_eq_some_iff.mpr ⟨by simp [apply], fun t ht => ?_⟩
  cases ht
  exact Int.le_add_of_nonneg_right (Int.mul_nonneg h0 (by decide))

theorem count_set {n ttlSeconds : Int} (h0 : 0 ≤ ttlSeconds) :
    (st.apply now (.set key (.count n) ttlSeconds)).count now key = n := by
  rw [count, get, live_set h0]
  rfl

/-- A counter that is set after its code outlives it. -/
theorem outlived_set (hne : code ≠ attempts) {value : RedisValue} {ttlSeconds : Int}
    (h0 : 0 ≤ ttlSeconds) (h : st.Lasts now code ttlSeconds) :
    (st.apply now (.set attempts value ttlSeconds)).Outlived now code attempts := by
  have hcode : (st.apply now (.set attempts value ttlSeconds)).find code = st.find code :=
    find_apply (fun hk => hne (Option.some.inj hk).symm) (fun _ hk => by cases hk)
  intro e he
  rw [live_congr hcode] at he
  obtain ⟨t, ht, hle⟩ := h e (live_eq_some_iff.mp he).1
  refine ⟨_, (live_eq_some_iff.mp (live_set h0)).1, fun t' ht' => ⟨t, ht, ?_⟩⟩
  cases ht'
  exact hle

/-! ## The attempts of a run -/

section Run

variable {σ κ ε ι η : Type} {S : System σ κ ε (Nat × ι) η} {s : σ} {ms ms' : List (Move ι η)}

/-- The access store and the clock of a store keep a key, between two stores. -/
def KeepsIn (access : σ → AccessStore) (clock : σ → Date) (key attempts : RedisKey) (s t : σ) :
    Prop := Keeps key attempts (clock s) (clock t) (access s) (access t)

/-- What every move keeps, a part of a run keeps. -/
theorem KeepsIn.part {access : σ → AccessStore} {clock : σ → Date}
    (hstep : ∀ as₁ m as₂, ms' = as₁ ++ m :: as₂ → KeepsIn access clock key attempts
      (S.runFrom s (ms ++ as₁)).store (S.runFrom s (ms ++ as₁ ++ [m])).store)
    (as cs bs : List (Move ι η)) (hms : ms' = as ++ cs ++ bs) :
    KeepsIn access clock key attempts (S.runFrom s (ms ++ as)).store
      (S.runFrom s (ms ++ as ++ cs)).store := by
  refine System.relates_steps (R := KeepsIn access clock key attempts) (fun _ => .refl)
    (fun _ _ _ => .trans) fun as₁ m as₂ has => ?_
  have h := hstep (as ++ as₁) m (as₂ ++ bs) (by rw [hms, has]; simp)
  rwa [← List.append_assoc] at h

variable (key attempts ms') in
/-- After a part of a run with the counter at 0, the calls that count an attempt
while the key is there, and are told a number up to `k`, are no more than `k`. -/
theorem attempts_bounded (access : σ → AccessStore) (clock : σ → Date) {k : Nat} {ns : List Nat}
    (hns : ns.Nodup)
    (hzero : (access (S.runFrom s ms).store).count (clock (S.runFrom s ms).store) attempts = 0)
    (hstep : ∀ as₁ m as₂, ms' = as₁ ++ m :: as₂ → KeepsIn access clock key attempts
      (S.runFrom s (ms ++ as₁)).store (S.runFrom s (ms ++ as₁ ++ [m])).store)
    (hattempt : ∀ n ∈ ns, ∃ as bs, ms' = as ++ .step n :: bs ∧
      ((access (S.runFrom s (ms ++ as)).store).live (clock (S.runFrom s (ms ++ as)).store)
        key).isSome ∧
      (access (S.runFrom s (ms ++ as)).store).count (clock (S.runFrom s (ms ++ as)).store)
        attempts + 1 ≤ k ∧
      clock (S.runFrom s (ms ++ as ++ [.step n])).store = clock (S.runFrom s (ms ++ as)).store ∧
      access (S.runFrom s (ms ++ as ++ [.step n])).store =
        (access (S.runFrom s (ms ++ as)).store).apply (clock (S.runFrom s (ms ++ as)).store)
          (.add attempts 1)) :
    ns.length ≤ k := by
  refine System.tickets_bounded S s ms ms'
    (fun t => ((access t).live (clock t) key).isSome) (fun t => (access t).count (clock t) attempts)
    hns fun n hn => ?_
  obtain ⟨as, bs, hms, hlive, hcount, hclock, haccess⟩ := hattempt n hn
  have hstart := KeepsIn.part hstep [] as (.step n :: bs) (by simpa using hms)
  rw [List.append_nil] at hstart
  refine ⟨as, bs, hms, hlive, hzero ▸ (hstart hlive).2, by omega, fun cs ds hbs hkey => ?_⟩
  -- the attempt is counted, and the counter has not come down since
  have hrest := KeepsIn.part hstep (as ++ [.step n]) cs ds (by rw [hms, hbs]; simp)
  have hsame : ms ++ (as ++ .step n :: cs) = ms ++ (as ++ [.step n]) ++ cs := by simp
  rw [hsame] at hkey ⊢
  rw [← List.append_assoc] at hrest hkey ⊢
  have hle := (hrest hkey).2
  rw [haccess, hclock, count_add] at hle
  omega

end Run

end AccessStore
end ServeProof
