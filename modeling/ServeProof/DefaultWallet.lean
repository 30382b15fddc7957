import ServeProof.Services.Wallets

/-!
# ServeProof.DefaultWallet

The default wallet of a worker, which is a flag of the wallet and a pointer of the
worker.

A transaction that gives a worker a default locks the worker when it writes the pointer,
so no other one moves the default before it ends.  The two agree when the pointer
that it overwrites is none, or its own, or that of a wallet whose flag it has cleared
(`Replaces`).  `addWallet` clears no flag, and relies on a worker that it has read before.
-/

namespace ServeProof.Wallets

open ReadCommitted

/-! ## Agreement -/

def HasWorker (t : Table Row.key) (id : WorkerId) : Prop := (t.find (.worker id)).isSome

def HasWallet (t : Table Row.key) (k : WalletKey) : Prop := (t.find (.wallet k)).isSome

/-- The worker points to its default wallet, and has no wallet when it has none. -/
structure Agreed (t : Table Row.key) (w : WorkerRow) : Prop where
  unset : w.defaultWalletId = none → ∀ x, .wallet x ∈ t.rows → x.id.workerId ≠ w.id
  target : ∀ k, w.defaultWalletId = some k → k.workerId = w.id ∧ HasWallet t k
  flag : ∀ k x, w.defaultWalletId = some k → .wallet x ∈ t.rows → x.id.workerId = w.id →
    (x.isDefault = true ↔ x.id = k)

def Agrees (t : Table Row.key) : Prop := ∀ w, .worker w ∈ t.rows → Agreed t w

/-- A change of a worker's pointer: the pointer before is none, or the same, or that
of a wallet whose flag the transaction has cleared. -/
def Replaces (writes : Table Row.key) : Row → Row → Prop
  | .worker w, .worker w' => w.defaultWalletId = none ∨ w.defaultWalletId = w'.defaultWalletId ∨
      ∃ j ∈ w.defaultWalletId, ∃ x ∈ findWallet writes j, x.isDefault = false
  | _, _ => True

instance : ∀ writes r r', Decidable (Replaces writes r r')
  | _, .worker _, .worker _ => inferInstanceAs (Decidable (_ = none ∨ _ = _ ∨ ∃ _ ∈ _, ∃ _ ∈ _, _))
  | _, .wallet _, _ | _, .worker _, .wallet _ => isTrue trivial

variable {t ws : Table Row.key} {id : WorkerId} {k : WalletKey}

theorem worker_of_find {r : Row} (h : t.find (.worker id) = some r) :
    ∃ w, r = .worker w ∧ w.id = id ∧ .worker w ∈ t.rows := by
  have hkey : r.key = .worker id := Table.key_of_find h
  cases r with
  | wallet x => cases hkey
  | worker w => exact ⟨w, rfl, RowKey.worker.inj hkey, Table.mem_of_find h⟩

theorem wallet_of_find {r : Row} (h : t.find (.wallet k) = some r) :
    ∃ x, r = .wallet x ∧ x.id = k ∧ .wallet x ∈ t.rows := by
  have hkey : r.key = .wallet k := Table.key_of_find h
  cases r with
  | worker w => cases hkey
  | wallet x => exact ⟨x, rfl, RowKey.wallet.inj hkey, Table.mem_of_find h⟩

theorem find_wallet {x : WalletRow} (h : .wallet x ∈ t.rows) :
    t.find (.wallet x.id) = some (.wallet x) :=
  t.find_eq_some_iff.mpr ⟨h, rfl⟩

theorem find_worker {w : WorkerRow} (h : .worker w ∈ t.rows) :
    t.find (.worker w.id) = some (.worker w) :=
  t.find_eq_some_iff.mpr ⟨h, rfl⟩

theorem findWallet_eq_some_iff {x : WalletRow} :
    findWallet t k = some x ↔ .wallet x ∈ t.rows ∧ x.id = k := by
  unfold findWallet
  cases h : t.find (.wallet k) with
  | none =>
      simp only [reduceCtorEq, false_iff, not_and]
      rintro hx rfl
      cases h.symm.trans (find_wallet hx)
  | some r =>
      obtain ⟨y, rfl, rfl, hy⟩ := wallet_of_find h
      simp only [Option.some.injEq]
      constructor
      · rintro rfl
        exact ⟨hy, rfl⟩
      · rintro ⟨hx, hid⟩
        have hfind := find_wallet hx
        rw [hid, h] at hfind
        exact Row.wallet.inj (Option.some.inj hfind)

theorem mem_of_getWorker {userId : UserId} {w : WorkerRow}
    (h : getWorkerByUserId t userId = some w) : .worker w ∈ t.rows := by
  obtain ⟨r, hr, hw⟩ := List.exists_of_findSome?_eq_some h
  cases r with
  | wallet x => cases hw
  | worker w' =>
      simp only at hw
      split at hw
      · cases hw
        exact hr
      · cases hw

/-- The row that an update takes. -/
theorem mem_of_row {u : Update Row.key} {r : Row} {rk : RowKey} (h : u.row t rk = some r) :
    r ∈ t.rows ∧ r.key = rk ∧ u.p r = true := by
  obtain ⟨hfind, hp⟩ := Option.filter_eq_some_iff.mp h
  exact ⟨Table.mem_of_find hfind, Table.key_of_find hfind, hp⟩

/-! ## What a transaction has written -/

def HasDefault (t : Table Row.key) (id : WorkerId) : Prop :=
  ∃ w, .worker w ∈ t.rows ∧ w.id = id ∧ w.defaultWalletId ≠ none

/-- No worker has been written. -/
def NoWorker (ws : Table Row.key) : Prop := ∀ w, .worker w ∉ ws.rows

/-- The worker points to `k`, and no other wallet of it has the flag. -/
structure Wrote (ws : Table Row.key) (id : WorkerId) (k : WalletKey) : Prop where
  worker : ∀ w, .worker w ∈ ws.rows → w.id = id ∧ w.defaultWalletId = some k
  wallet : ∀ x, .wallet x ∈ ws.rows → x.id.workerId = id ∧ (x.id ≠ k → x.isDefault = false)

/-- The pointer has been written, and every flag but that of `k` has been cleared. -/
structure Pointed (ws t : Table Row.key) (id : WorkerId) (k : WalletKey) : Prop where
  worker : ∃ w, .worker w ∈ ws.rows
  covers : ∀ x, .wallet x ∈ t.rows → x.id.workerId = id → x.isDefault = true →
    x.id = k ∨ HasWallet ws x.id

def Flagged (ws : Table Row.key) (k : WalletKey) : Prop :=
  ∃ x, .wallet x ∈ ws.rows ∧ x.id = k ∧ x.isDefault = true

/-- Only the wallet `k` has been written, with its flag as it was. -/
def Quiet (ws t : Table Row.key) (k : WalletKey) : Prop :=
  ∀ r ∈ ws.rows, ∃ x, r = .wallet x ∧ x.id = k ∧
    x.isDefault = ((findWallet t k).map WalletRow.isDefault).getD false

/-- Flags of wallets have been cleared. -/
def Cleared (ws : Table Row.key) (id : WorkerId) : Prop :=
  ∀ r ∈ ws.rows, ∃ x, r = .wallet x ∧ x.id.workerId = id ∧ x.isDefault = false

/-- After the pointer: the flag, unless it has been written. -/
def AfterPointer (ws t : Table Row.key) (k : WalletKey) (next : WalletTx) : Prop :=
  next = .commit ∧ Flagged ws k ∨ next = .update (makeDefault k) .commit ∧ HasWallet (atop ws t) k

/-- After the flag: the pointer, unless it has been written. -/
def AfterFlag (ws t : Table Row.key) (id : WorkerId) (k : WalletKey) (next : WalletTx) : Prop :=
  next = .commit ∧ Pointed ws t id k ∨ next = .update (pointTo id k) .commit ∧ NoWorker ws

/-- A transaction before each of its statements. -/
inductive Stage : Session Row.key → Table Row.key → Prop
  | ended {s} : Stage .ended s
  | adding {userId address walletType s} : Stage ⟨∅, addWallet userId address walletType⟩ s
  | upserting {worker address walletType s} (hworker : HasWorker s worker.id)
      (hp : worker.defaultWalletId ≠ none → HasDefault s worker.id) :
      Stage ⟨∅, upsertWallet worker address walletType⟩ s
  | activating {worker id s} (hworker : HasWorker s worker.id)
      (hp : worker.defaultWalletId ≠ none → HasDefault s worker.id) (hid : id.workerId = worker.id)
      (hwallet : HasWallet s id) : Stage ⟨∅, .update (activate id) (settleDefault worker id)⟩ s
  | scanActivate {worker id found w s} (hworker : HasWorker s worker.id)
      (hp : worker.defaultWalletId ≠ none → HasDefault s worker.id) (hid : id.workerId = worker.id)
      (hwallet : HasWallet s id) (hw : Quiet w s id) :
      Stage ⟨w, .scan found (activate id) (settleDefault worker id)⟩ s
  | inserting {worker id walletType s} (hworker : HasWorker s worker.id)
      (hp : worker.defaultWalletId ≠ none → HasDefault s worker.id)
      (hid : id.workerId = worker.id) :
      Stage ⟨∅, .insert (.wallet ⟨id, walletType, .active, false⟩) (settleDefault worker id)⟩ s
  | setting {userId walletId s} : Stage ⟨∅, setDefaultWallet userId walletId⟩ s
  | checking {worker walletId s} (hworker : HasWorker s worker.id) :
      Stage ⟨∅, checkWallet worker walletId⟩ s
  | clearing {workerId id s} (hworker : HasWorker s workerId) (hid : id.workerId = workerId)
      (hwallet : HasWallet s id) : Stage ⟨∅, replaceDefault workerId id⟩ s
  | scanClear {workerId id found w s} (hworker : HasWorker s workerId)
      (hid : id.workerId = workerId) (hwallet : HasWallet s id) (hw : Cleared w workerId) :
      Stage ⟨w, .scan found (clearDefaults workerId)
        (.update (makeDefault id) (.update (pointTo workerId id) .commit))⟩ s
  | pointing {workerId id next w s} (hworker : HasWorker s workerId) (hid : id.workerId = workerId)
      (hw : Wrote w workerId id) (hno : NoWorker w) (hnext : AfterPointer w s id next) :
      Stage ⟨w, .update (pointTo workerId id) next⟩ s
  | scanPoint {workerId id next found w s} (hworker : HasWorker s workerId)
      (hid : id.workerId = workerId) (hw : Wrote w workerId id)
      (hfound : Pointed w s workerId id ∨ NoWorker w ∧ .worker workerId ∈ found)
      (hnext : AfterPointer w s id next) :
      Stage ⟨w, .scan found (pointTo workerId id) next⟩ s
  | flagging {workerId id next w s} (hworker : HasWorker s workerId) (hid : id.workerId = workerId)
      (hw : Wrote w workerId id) (hwallet : HasWallet (atop w s) id)
      (hnext : AfterFlag w s workerId id next) : Stage ⟨w, .update (makeDefault id) next⟩ s
  | scanFlag {workerId id next found w s} (hworker : HasWorker s workerId)
      (hid : id.workerId = workerId) (hw : Wrote w workerId id) (hwallet : HasWallet (atop w s) id)
      (hfound : Flagged w id ∨ .wallet id ∈ found) (hnext : AfterFlag w s workerId id next) :
      Stage ⟨w, .scan found (makeDefault id) next⟩ s
  | quiet {id w s} (hp : HasDefault s id.workerId) (hw : Quiet w s id) : Stage ⟨w, .commit⟩ s
  | sets {workerId id w s} (hid : id.workerId = workerId) (hw : Wrote w workerId id)
      (hpointed : Pointed w s workerId id) (hflagged : Flagged w id) : Stage ⟨w, .commit⟩ s

/-! ## The rows of a transaction -/

theorem HasWorker.under (h : HasWorker t id) (ws : Table Row.key) : HasWorker (atop ws t) id := by
  rw [HasWorker, find_atop, Option.isSome_or, h, Bool.or_true]

theorem HasWallet.under (h : HasWallet t k) (ws : Table Row.key) : HasWallet (atop ws t) k := by
  rw [HasWallet, find_atop, Option.isSome_or, h, Bool.or_true]

theorem hasWorker_of_mem {w : WorkerRow} (h : .worker w ∈ t.rows) : HasWorker t w.id := by
  rw [HasWorker, find_worker h, Option.isSome_some]

theorem hasWallet_of_mem {x : WalletRow} (h : .wallet x ∈ t.rows) : HasWallet t x.id := by
  rw [HasWallet, find_wallet h, Option.isSome_some]

theorem HasWallet.set (h : HasWallet t k) (r : Row) : HasWallet (t.set r) k := by
  rw [HasWallet, Table.find_set]
  split
  · rfl
  · exact h

theorem worker_mem_set {w : WorkerRow} {r : Row} (h : .worker w ∈ (t.set r).rows) :
    .worker w = r ∨ .worker w ∈ t.rows := (t.mem_set.mp h).imp_right And.left

theorem wallet_mem_set {x : WalletRow} {r : Row} (h : .wallet x ∈ (t.set r).rows) :
    .wallet x = r ∨ .wallet x ∈ t.rows := (t.mem_set.mp h).imp_right And.left

/-! ## What is written -/

variable {found : List RowKey} {next : WalletTx}

theorem Quiet.empty : Quiet ∅ t k := fun r h => by cases h

theorem Cleared.empty : Cleared ∅ id := fun r h => by cases h

theorem Quiet.noWorker (h : Quiet ws t k) : NoWorker ws := fun w hw => by
  obtain ⟨x, hx, -⟩ := h _ hw
  cases hx

theorem Cleared.noWorker (h : Cleared ws id) : NoWorker ws := fun w hw => by
  obtain ⟨x, hx, -⟩ := h _ hw
  cases hx

theorem Quiet.wrote (h : Quiet ws t k) : Wrote ws k.workerId k where
  worker w hw := absurd hw (h.noWorker w)
  wallet x hx := by
    obtain ⟨y, hy, hid, -⟩ := h _ hx
    cases hy
    exact ⟨congrArg WalletKey.workerId hid, fun hne => absurd hid hne⟩

theorem Cleared.wrote (h : Cleared ws id) : Wrote ws id k where
  worker w hw := absurd hw (h.noWorker w)
  wallet x hx := by
    obtain ⟨y, hy, hid, hflag⟩ := h _ hx
    cases hy
    exact ⟨hid, fun _ => hflag⟩

/-- Only the wallets of the worker, and the worker, are written. -/
theorem Wrote.worker_eq (h : Wrote ws id k) {u : WorkerId} (hu : HasWorker ws u) : u = id := by
  obtain ⟨r, hr⟩ := Option.isSome_iff_exists.mp hu
  obtain ⟨w, rfl, rfl, hw⟩ := worker_of_find hr
  exact (h.worker w hw).1

theorem Wrote.point (h : Wrote ws id k) {w : WorkerRow} (hw : w.id = id) :
    Wrote (ws.set (.worker { w with defaultWalletId := some k })) id k where
  worker w' hw' := by
    obtain heq | hold := worker_mem_set hw'
    · cases heq
      exact ⟨hw, rfl⟩
    · exact h.worker w' hold
  wallet x hx := by
    obtain heq | hold := wallet_mem_set hx
    · cases heq
    · exact h.wallet x hold

theorem Wrote.raise (h : Wrote ws id k) {x : WalletRow} (hx : x.id = k) (hid : k.workerId = id) :
    Wrote (ws.set (.wallet { x with isDefault := true })) id k where
  worker w hw := by
    obtain heq | hold := worker_mem_set hw
    · cases heq
    · exact h.worker w hold
  wallet y hy := by
    obtain heq | hold := wallet_mem_set hy
    · cases heq
      exact ⟨hx ▸ hid, fun hne => absurd hx hne⟩
    · exact h.wallet y hold

theorem Pointed.set (h : Pointed ws t id k) {x : WalletRow} :
    Pointed (ws.set (.wallet x)) t id k where
  worker := by
    obtain ⟨w, hw⟩ := h.worker
    exact ⟨w, ws.mem_set.mpr (.inr ⟨hw, by simp [Row.key]⟩)⟩
  covers y hy hid hflag := (h.covers y hy hid hflag).imp_right fun hin => hin.set _

theorem Pointed.point (h : Pointed ws t id k) {w : WorkerRow} :
    Pointed (ws.set (.worker w)) t id k where
  worker := ⟨w, ws.mem_set.mpr (.inl rfl)⟩
  covers y hy hid hflag := (h.covers y hy hid hflag).imp_right fun hin => hin.set _

theorem NoWorker.set (h : NoWorker ws) {x : WalletRow} : NoWorker (ws.set (.wallet x)) := by
  intro w hw
  obtain heq | hold := worker_mem_set hw
  · cases heq
  · exact h w hold

theorem Flagged.set (h : Flagged ws k) {w : WorkerRow} : Flagged (ws.set (.worker w)) k := by
  obtain ⟨x, hx, hid, hflag⟩ := h
  exact ⟨x, ws.mem_set.mpr (.inr ⟨hx, by simp [Row.key]⟩), hid, hflag⟩

theorem Flagged.hasWallet (h : Flagged ws k) : HasWallet ws k := by
  obtain ⟨x, hx, rfl, -⟩ := h
  exact hasWallet_of_mem hx

theorem AfterPointer.set (h : AfterPointer ws t k next) {w : WorkerRow} :
    AfterPointer (ws.set (.worker w)) t k next := by
  obtain ⟨rfl, hflag⟩ | ⟨rfl, hwallet⟩ := h
  · exact .inl ⟨rfl, hflag.set⟩
  · refine .inr ⟨rfl, ?_⟩
    rw [HasWallet, find_atop, Option.isSome_or, Bool.or_eq_true] at hwallet ⊢
    exact hwallet.imp_left fun hin => HasWallet.set hin _

theorem AfterFlag.set (h : AfterFlag ws t id k next) {x : WalletRow} :
    AfterFlag (ws.set (.wallet x)) t id k next := by
  obtain ⟨rfl, hpointed⟩ | ⟨rfl, hno⟩ := h
  · exact .inl ⟨rfl, hpointed.set⟩
  · exact .inr ⟨rfl, hno.set⟩

/-- **The pointer is written**: what it pointed to before covers the flags of the others. -/
theorem Pointed.of_replaces (ht : Agrees t) {w : WorkerRow}
    (hw : .worker w ∈ t.rows) (hwid : w.id = id)
    (hr : Replaces ws (.worker w) (.worker { w with defaultWalletId := some k })) :
    Pointed (ws.set (.worker { w with defaultWalletId := some k })) t id k where
  worker := ⟨_, ws.mem_set.mpr (.inl rfl)⟩
  covers x hx hxid hflag := by
    have hagreed := ht w hw
    have hxw : x.id.workerId = w.id := hxid.trans hwid.symm
    obtain hnone | hsame | ⟨j, hj, y, hy, -⟩ := hr
    · exact absurd hxw (hagreed.unset hnone x hx)
    · exact .inl ((hagreed.flag k x hsame hx hxw).mp hflag)
    · obtain ⟨hmem, rfl⟩ := findWallet_eq_some_iff.mp hy
      have hxj := (hagreed.flag _ x hj hx hxw).mp hflag
      exact .inr (hxj ▸ (hasWallet_of_mem hmem).set _)

/-! ## The statements -/

theorem hasWorker_of_getWorker {userId : UserId} {w : WorkerRow}
    (h : getWorkerByUserId t userId = some w) : HasWorker t w.id :=
  hasWorker_of_mem (mem_of_getWorker h)

theorem hasDefault_of_getWorker {userId : UserId} {w : WorkerRow}
    (h : getWorkerByUserId t userId = some w) (hp : w.defaultWalletId ≠ none) :
    HasDefault t w.id :=
  ⟨w, mem_of_getWorker h, rfl, hp⟩

theorem stage_begin (i : WalletCall) : Stage ⟨∅, i.tx⟩ t := by
  cases i with
  | addWallet userId address walletType => exact .adding
  | setDefaultWallet userId walletId => exact .setting

theorem stage_query {next : Table Row.key → WalletTx} (h : Stage ⟨ws, .query next⟩ t) :
    Stage ⟨ws, next (atop ws t)⟩ t := by
  cases h with
  | adding =>
      simp only [atop_empty]
      split
      · exact .ended
      · next worker hworker =>
        exact .upserting (hasWorker_of_getWorker hworker) (hasDefault_of_getWorker hworker)
  | upserting hworker hp =>
      simp only [atop_empty]
      split
      · next x hx =>
        obtain ⟨hx, hid⟩ := findWallet_eq_some_iff.mp hx
        exact .activating hworker hp rfl (hid ▸ hasWallet_of_mem hx)
      · exact .inserting hworker hp rfl
  | setting =>
      simp only [atop_empty]
      split
      · exact .ended
      · next worker hworker => exact .checking (hasWorker_of_getWorker hworker)
  | checking hworker =>
      simp only [atop_empty]
      split
      · exact .ended
      · next x hx =>
        obtain ⟨hmem, rfl⟩ := findWallet_eq_some_iff.mp hx
        split
        · exact .ended
        · next hid =>
          split
          · exact .ended
          · exact .clearing hworker (not_not.mp hid) (hasWallet_of_mem hmem)

/-- The worker that is to be written is found. -/
theorem mem_found_worker (h : HasWorker t id) :
    .worker id ∈ (t.rows.filter (pointTo id k).p).map Row.key := by
  obtain ⟨r, hr⟩ := Option.isSome_iff_exists.mp h
  obtain ⟨w, rfl, rfl, hw⟩ := worker_of_find hr
  exact List.mem_map.mpr ⟨_, List.mem_filter.mpr ⟨hw, decide_eq_true rfl⟩, rfl⟩

/-- The wallet that is to be written is found. -/
theorem mem_found_wallet (h : HasWallet t k) :
    .wallet k ∈ (t.rows.filter (makeDefault k).p).map Row.key := by
  obtain ⟨r, hr⟩ := Option.isSome_iff_exists.mp h
  obtain ⟨x, rfl, rfl, hx⟩ := wallet_of_find hr
  exact List.mem_map.mpr ⟨_, List.mem_filter.mpr ⟨hx, decide_eq_true rfl⟩, rfl⟩

theorem stage_update {u : Update Row.key} (h : Stage ⟨ws, .update u next⟩ t) :
    Stage ⟨ws, .scan (((atop ws t).rows.filter u.p).map Row.key) u next⟩ t := by
  cases h with
  | activating hworker hp hid hwallet => exact .scanActivate hworker hp hid hwallet .empty
  | clearing hworker hid hwallet => exact .scanClear hworker hid hwallet .empty
  | pointing hworker hid hw hno hnext =>
      exact .scanPoint hworker hid hw (.inr ⟨hno, mem_found_worker (hworker.under _)⟩) hnext
  | flagging hworker hid hw hwallet hnext =>
      exact .scanFlag hworker hid hw hwallet (.inr (mem_found_wallet hwallet)) hnext

/-- After the upsert. -/
theorem stage_settleDefault {worker : WorkerRow} (hworker : HasWorker t worker.id)
    (hp : worker.defaultWalletId ≠ none → HasDefault t worker.id) (hid : k.workerId = worker.id)
    (hwallet : HasWallet (atop ws t) k) (hw : Quiet ws t k) :
    Stage ⟨ws, settleDefault worker k⟩ t := by
  rw [settleDefault]
  split
  · exact .pointing hworker hid (hid ▸ hw.wrote) hw.noWorker (.inr ⟨rfl, hwallet⟩)
  · next hdefault => exact .quiet (hid ▸ hp hdefault) hw

theorem stage_scanned {u : Update Row.key} (h : Stage ⟨ws, .scan [] u next⟩ t) :
    Stage ⟨ws, next⟩ t := by
  cases h with
  | scanActivate hworker hp hid hwallet hw =>
      exact stage_settleDefault hworker hp hid (hwallet.under _) hw
  | scanClear hworker hid hwallet hw =>
      exact .flagging hworker hid hw.wrote (hwallet.under _) (.inr ⟨rfl, hw.noWorker⟩)
  | scanPoint hworker hid hw hfound hnext =>
      have hpointed := hfound.resolve_right fun h => List.not_mem_nil h.2
      obtain ⟨rfl, hflag⟩ | ⟨rfl, hwallet⟩ := hnext
      · exact .sets hid hw hpointed hflag
      · exact .flagging hworker hid hw hwallet (.inl ⟨rfl, hpointed⟩)
  | scanFlag hworker hid hw hwallet hfound hnext =>
      have hflag := hfound.resolve_right List.not_mem_nil
      obtain ⟨rfl, hpointed⟩ | ⟨rfl, hno⟩ := hnext
      · exact .sets hid hw hpointed hflag
      · exact .pointing hworker hid hw hno (.inl ⟨rfl, hflag⟩)

theorem Quiet.insert {walletType : WalletType} (h : findWallet t k = none) :
    Quiet (Table.set ∅ (.wallet ⟨k, walletType, .active, false⟩)) t k := by
  intro r hr
  obtain rfl | ⟨hr, -⟩ := (Table.mem_set _).mp hr
  · exact ⟨_, rfl, rfl, by rw [h]; rfl⟩
  · cases hr

theorem stage_insert {r : Row} (h : Stage ⟨ws, .insert r next⟩ t)
    (hfresh : (atop ws t).find r.key = none) : Stage ⟨ws.set r, next⟩ t := by
  cases h with
  | inserting hworker hp hid =>
      rename_i worker k walletType
      have hnone : findWallet t k = none := by
        rw [atop_empty] at hfresh
        rw [findWallet, show t.find (.wallet k) = none from hfresh]
      refine stage_settleDefault hworker hp hid ?_ (.insert hnone)
      refine hasWallet_of_mem (x := ⟨k, walletType, .active, false⟩) ?_
      exact mem_atop.mpr (.inl ((Table.mem_set _).mpr (.inl rfl)))

/-- The row that is to be written is there when it is taken. -/
theorem row_pointTo (h : HasWorker t id) :
    ∃ w, (pointTo id k).row t (.worker id) = some (.worker w) := by
  obtain ⟨r, hr⟩ := Option.isSome_iff_exists.mp h
  obtain ⟨w, rfl, rfl, -⟩ := worker_of_find hr
  exact ⟨w, Option.filter_eq_some_iff.mpr ⟨hr, decide_eq_true rfl⟩⟩

theorem row_makeDefault (h : HasWallet t k) :
    ∃ x, (makeDefault k).row t (.wallet k) = some (.wallet x) := by
  obtain ⟨r, hr⟩ := Option.isSome_iff_exists.mp h
  obtain ⟨x, rfl, rfl, -⟩ := wallet_of_find hr
  exact ⟨x, Option.filter_eq_some_iff.mpr ⟨hr, decide_eq_true rfl⟩⟩

theorem Quiet.activate {x : WalletRow} (h : Quiet ws t k) (hx : .wallet x ∈ (atop ws t).rows)
    (hid : x.id = k) : Quiet (ws.set (.wallet { x with status := .active })) t k := by
  intro r hr
  obtain rfl | ⟨hr, -⟩ := ws.mem_set.mp hr
  · refine ⟨_, rfl, hid, ?_⟩
    obtain hx | ⟨hx, -⟩ := mem_atop.mp hx
    · obtain ⟨y, hy, -, hflag⟩ := h _ hx
      cases hy
      exact hflag
    · rw [findWallet_eq_some_iff.mpr ⟨hx, hid⟩]
      rfl
  · exact h r hr

theorem Cleared.clear {x : WalletRow} (h : Cleared ws id) (hid : x.id.workerId = id) :
    Cleared (ws.set (.wallet { x with isDefault := false })) id := by
  intro r hr
  obtain rfl | ⟨hr, -⟩ := ws.mem_set.mp hr
  · exact ⟨_, rfl, hid, rfl⟩
  · exact h r hr

/-- The rows that are found, but the one that has been taken. -/
theorem mem_rest {rk k' : RowKey} (h : rk ∈ found) (hne : rk ≠ k') :
    rk ∈ found.filter fun x => decide (x ≠ k') :=
  List.mem_filter.mpr ⟨h, decide_eq_true hne⟩

/-- A row that does not match is passed by, and none of the rows the stage counts on is such. -/
theorem stage_pass {u : Update Row.key} {rk : RowKey} (h : Stage ⟨ws, .scan found u next⟩ t)
    (hrow : u.row (atop ws t) rk = none) :
    Stage ⟨ws, .scan (found.filter fun x => decide (x ≠ rk)) u next⟩ t := by
  cases h with
  | scanActivate hworker hp hid hwallet hw => exact .scanActivate hworker hp hid hwallet hw
  | scanClear hworker hid hwallet hw => exact .scanClear hworker hid hwallet hw
  | scanPoint hworker hid hw hfound hnext =>
      refine .scanPoint hworker hid hw (hfound.imp_right fun hrest => ⟨hrest.1, ?_⟩) hnext
      refine mem_rest hrest.2 ?_
      rintro rfl
      obtain ⟨w, hw⟩ := row_pointTo (hworker.under ws)
      cases hrow.symm.trans hw
  | scanFlag hworker hid hw hwallet hfound hnext =>
      refine .scanFlag hworker hid hw hwallet (hfound.imp_right fun hin => ?_) hnext
      refine mem_rest hin ?_
      rintro rfl
      obtain ⟨x, hx⟩ := row_makeDefault hwallet
      cases hrow.symm.trans hx

theorem stage_write {u : Update Row.key} {rk : RowKey} {r : Row} (ht : Agrees t)
    (h : Stage ⟨ws, .scan found u next⟩ t) (hrow : u.row (atop ws t) rk = some r)
    (hreplaces : Replaces ws r (u.change r)) :
    Stage ⟨ws.set (u.change r), .scan (found.filter fun x => decide (x ≠ rk)) u next⟩ t := by
  obtain ⟨hr, -, hp⟩ := mem_of_row hrow
  cases h with
  | scanActivate hworker hp' hid hwallet hw =>
      cases r with
      | worker w => cases hp
      | wallet x =>
          exact .scanActivate hworker hp' hid hwallet (hw.activate hr (of_decide_eq_true hp))
  | scanClear hworker hid hwallet hw =>
      cases r with
      | worker w => cases hp
      | wallet x =>
          exact .scanClear hworker hid hwallet (hw.clear (of_decide_eq_true hp))
  | scanPoint hworker hid hw hfound hnext =>
      cases r with
      | wallet x => cases hp
      | worker w =>
          have hwid := of_decide_eq_true hp
          refine .scanPoint hworker hid (hw.point hwid) (.inl ?_) hnext.set
          obtain hold | ⟨hr, -⟩ := mem_atop.mp hr
          · -- it has written the pointer before
            exact (hfound.resolve_right fun hrest => hrest.1 w hold).point
          · exact .of_replaces ht hr hwid hreplaces
  | scanFlag hworker hid hw hwallet hfound hnext =>
      cases r with
      | worker w => cases hp
      | wallet x =>
          have hxid := of_decide_eq_true hp
          refine .scanFlag hworker hid (hw.raise hxid hid) ?_ (.inl ?_) hnext.set
          · rw [HasWallet, find_atop, Option.isSome_or, Bool.or_eq_true] at hwallet ⊢
            exact hwallet.imp_left fun hin => HasWallet.set hin _
          · exact ⟨_, ws.mem_set.mpr (.inl rfl), hxid, rfl⟩

theorem stage_take {u : Update Row.key} {rk : RowKey} (ht : Agrees t)
    (h : Stage ⟨ws, .scan found u next⟩ t)
    (hok : ∀ r ∈ u.row (atop ws t) rk, Replaces ws r (u.change r)) :
    Stage ⟨u.write ws (u.row (atop ws t) rk), .scan (found.filter fun x => decide (x ≠ rk)) u next⟩
      t := by
  cases hrow : u.row (atop ws t) rk with
  | none => exact stage_pass h hrow
  | some r => exact stage_write ht h hrow (hok r hrow)

/-! ## The commits -/

/-- A flag that a quiet transaction has written is one of before. -/
theorem Quiet.flag {x : WalletRow} (h : Quiet ws t k) (hx : .wallet x ∈ ws.rows)
    (hflag : x.isDefault = true) : ∃ y, .wallet y ∈ t.rows ∧ y.id = x.id ∧ y.isDefault = true := by
  obtain ⟨x', heq, hid, hold⟩ := h _ hx
  cases heq
  rw [hflag] at hold
  cases hy : findWallet t k with
  | none => rw [hy] at hold; cases hold
  | some y =>
      obtain ⟨hmem, hyid⟩ := findWallet_eq_some_iff.mp hy
      rw [hy] at hold
      exact ⟨y, hmem, hyid.trans hid.symm, hold.symm⟩

/-- A wallet that is written by a quiet transaction has the flag that it should have. -/
theorem Quiet.agrees (ht : Agrees t) (hp : HasDefault t k.workerId) (hw : Quiet ws t k) :
    Agrees (atop ws t) := by
  intro w hmem
  have hold : .worker w ∈ t.rows :=
    (mem_atop.mp hmem).resolve_left (hw.noWorker w) |>.1
  have hagreed := ht w hold
  constructor
  · intro hnone x hx hxid
    obtain hx | ⟨hx, -⟩ := mem_atop.mp hx
    · obtain ⟨y, hy, hyk, -⟩ := hw _ hx
      cases hy
      obtain ⟨w', hw', hid, hdefault⟩ := hp
      rw [hyk] at hxid
      have hsame : Row.worker w = Row.worker w' :=
        t.eq_of_key_eq hold hw' (congrArg RowKey.worker (hxid.symm.trans hid.symm))
      cases hsame
      exact hdefault hnone
    · exact hagreed.unset hnone x hx hxid
  · intro j hj
    exact (hagreed.target j hj).imp_right fun h => h.under ws
  · intro j x hj hx hxid
    obtain hx | ⟨hx, -⟩ := mem_atop.mp hx
    · constructor
      · intro hflag
        obtain ⟨y, hy, hyid, hyflag⟩ := hw.flag hx hflag
        rw [← hyid]
        exact (hagreed.flag j y hj hy (hyid ▸ hxid)).mp hyflag
      · rintro rfl
        obtain ⟨x', hx', hid, hflag⟩ := hw _ hx
        cases hx'
        obtain ⟨r, hr⟩ := Option.isSome_iff_exists.mp (hagreed.target _ hj).2
        obtain ⟨y, rfl, hyid, hy⟩ := wallet_of_find hr
        rw [hflag, findWallet_eq_some_iff.mpr ⟨hy, hyid.trans hid⟩]
        exact (hagreed.flag _ y hj hy (hyid ▸ hxid)).mpr hyid
    · exact hagreed.flag j x hj hx hxid

/-- The worker whose pointer has been written points to the wallet whose flag has. -/
theorem Wrote.agreed {w : WorkerRow} (hid : k.workerId = id) (hw : Wrote ws id k)
    (hpointed : Pointed ws t id k) (hflagged : Flagged ws k) (hnew : .worker w ∈ ws.rows) :
    Agreed (atop ws t) w := by
  obtain ⟨hwid, hdefault⟩ := hw.worker w hnew
  constructor
  · intro hunset
    cases hdefault.symm.trans hunset
  · intro j hj
    cases hdefault.symm.trans hj
    refine ⟨hid.trans hwid.symm, ?_⟩
    obtain ⟨x, hx, rfl, -⟩ := hflagged
    exact hasWallet_of_mem (mem_atop.mpr (.inl hx))
  · intro j x hj hx hxid
    cases hdefault.symm.trans hj
    obtain ⟨y, hy, hyid, hyflag⟩ := hflagged
    constructor
    · intro hflag
      obtain hx | ⟨hx, hunwritten⟩ := mem_atop.mp hx
      · by_contra hne
        cases hflag.symm.trans ((hw.wallet x hx).2 hne)
      · refine (hpointed.covers x hx (hxid.trans hwid) hflag).resolve_right fun hin => ?_
        rw [HasWallet, show ws.find (.wallet x.id) = none from hunwritten] at hin
        cases hin
    · intro hxj
      have hsame : Row.wallet x = Row.wallet y :=
        (atop ws t).eq_of_key_eq hx (mem_atop.mpr (.inl hy))
          (congrArg RowKey.wallet (hxj.trans hyid.symm))
      rw [Row.wallet.inj hsame]
      exact hyflag

/-- Another worker keeps its wallets. -/
theorem Wrote.agreed_other {w : WorkerRow} (hw : Wrote ws id k) (hne : w.id ≠ id)
    (hagreed : Agreed t w) : Agreed (atop ws t) w := by
  have hwallet {x : WalletRow} (hx : .wallet x ∈ (atop ws t).rows)
      (hxid : x.id.workerId = w.id) : .wallet x ∈ t.rows := by
    obtain hx | ⟨hx, -⟩ := mem_atop.mp hx
    · exact absurd (hxid.symm.trans (hw.wallet x hx).1) hne
    · exact hx
  constructor
  · exact fun hunset x hx hxid => hagreed.unset hunset x (hwallet hx hxid) hxid
  · exact fun j hj => (hagreed.target j hj).imp_right fun h => h.under ws
  · exact fun j x hj hx hxid => hagreed.flag j x hj (hwallet hx hxid) hxid

/-- The flag and the pointer that have been written agree. -/
theorem Wrote.agrees (ht : Agrees t) (hid : k.workerId = id) (hw : Wrote ws id k)
    (hpointed : Pointed ws t id k) (hflagged : Flagged ws k) : Agrees (atop ws t) := by
  intro w hmem
  obtain hnew | ⟨hold, hnone⟩ := mem_atop.mp hmem
  · exact hw.agreed hid hpointed hflagged hnew
  · refine hw.agreed_other ?_ (ht w hold)
    rintro rfl
    obtain ⟨w', hw'⟩ := hpointed.worker
    have hwid := (hw.worker w' hw').1
    have hin := hasWorker_of_mem hw'
    rw [hwid, HasWorker, show ws.find (.worker w.id) = none from hnone] at hin
    cases hin

theorem stage_commit (ht : Agrees t) (h : Stage ⟨ws, .commit⟩ t) : Agrees (atop ws t) := by
  cases h with
  | quiet hp hw => exact hw.agrees ht hp
  | sets hid hw hpointed hflagged => exact hw.agrees ht hid hpointed hflagged

/-- The committed rows after a commit, under which a transaction goes on. -/
theorem HasDefault.commit (h : HasDefault t id) (hc : Stage ⟨ws, .commit⟩ t) :
    HasDefault (atop ws t) id := by
  obtain ⟨w, hw, rfl, hdefault⟩ := h
  cases hfind : ws.find (.worker w.id) with
  | none => exact ⟨w, mem_atop.mpr (.inr ⟨hw, hfind⟩), rfl, hdefault⟩
  | some r =>
      obtain ⟨w', rfl, hid, hw'⟩ := worker_of_find hfind
      refine ⟨w', mem_atop.mpr (.inl hw'), hid, ?_⟩
      cases hc with
      | quiet hp hquiet => exact absurd hw' (hquiet.noWorker w')
      | sets hid hwrote hpointed hflagged =>
          rw [(hwrote.worker w' hw').2]
          exact Option.some_ne_none _

section Stable

variable {w : Table Row.key} (hc : Stage ⟨w, .commit⟩ t)
  (hapart : ∀ rk, (w.find rk).isSome → ws.find rk = none)

include hapart in
theorem Quiet.stable (h : Quiet ws t k) : Quiet ws (atop w t) k := by
  intro r hr
  obtain ⟨x, rfl, hid, hflag⟩ := h r hr
  refine ⟨x, rfl, hid, ?_⟩
  have hsame : findWallet (atop w t) k = findWallet t k := by
    have hnone : w.find (.wallet k) = none := by
      by_contra hsome
      have hfree := hapart _ (Option.isSome_iff_ne_none.mpr hsome)
      rw [← hid, find_wallet hr] at hfree
      cases hfree
    rw [findWallet, find_atop, hnone, Option.none_or, findWallet]
  rw [hsame, hflag]

include hc hapart in
/-- No other transaction moves the default of a worker that is locked. -/
theorem Pointed.stable (h : Pointed ws t id k) (hwrote : Wrote ws id k) :
    Pointed ws (atop w t) id k where
  worker := h.worker
  covers x hx hid hflag := by
    obtain hx | ⟨hx, -⟩ := mem_atop.mp hx
    · cases hc with
      | quiet hp hquiet =>
          obtain ⟨y, hy, hyid, hyflag⟩ := hquiet.flag hx hflag
          rw [← hyid] at hid ⊢
          exact h.covers y hy hid hyflag
      | sets hid' hwrote' hpointed' hflagged' =>
          obtain ⟨v, hv⟩ := h.worker
          obtain ⟨v', hv'⟩ := hpointed'.worker
          have hkey := (hwrote'.worker v' hv').1.trans
            ((hwrote'.wallet x hx).1.symm.trans (hid.trans (hwrote.worker v hv).1.symm))
          have hfree := hapart _ (hasWorker_of_mem hv')
          rw [hkey, find_worker hv] at hfree
          cases hfree
    · exact h.covers x hx hid hflag

include hc hapart in
theorem AfterFlag.stable (h : AfterFlag ws t id k next) (hwrote : Wrote ws id k) :
    AfterFlag ws (atop w t) id k next :=
  h.imp_left fun ⟨hnext, hpointed⟩ => ⟨hnext, hpointed.stable hc hapart hwrote⟩

theorem HasWallet.stable (h : HasWallet (atop ws t) k) : HasWallet (atop ws (atop w t)) k := by
  rw [HasWallet, find_atop, Option.isSome_or, Bool.or_eq_true] at h ⊢
  exact h.imp_right fun hold => HasWallet.under hold w

theorem AfterPointer.stable (h : AfterPointer ws t k next) :
    AfterPointer ws (atop w t) k next :=
  h.imp_right fun ⟨hnext, hwallet⟩ => ⟨hnext, hwallet.stable⟩

end Stable

theorem stage_stable {w : Table Row.key} {s : Session Row.key} (hc : Stage ⟨w, .commit⟩ t)
    (h : Stage s t) (hapart : ∀ rk, (w.find rk).isSome → s.writes.find rk = none) :
    Stage s (atop w t) := by
  cases h with
  | ended => exact .ended
  | adding => exact .adding
  | upserting hworker hp =>
      exact .upserting (hworker.under w) fun hdefault => (hp hdefault).commit hc
  | activating hworker hp hid hwallet =>
      exact .activating (hworker.under w) (fun hdefault => (hp hdefault).commit hc) hid
        (hwallet.under w)
  | scanActivate hworker hp hid hwallet hw =>
      exact .scanActivate (hworker.under w) (fun hdefault => (hp hdefault).commit hc) hid
        (hwallet.under w) (hw.stable hapart)
  | inserting hworker hp hid =>
      exact .inserting (hworker.under w) (fun hdefault => (hp hdefault).commit hc) hid
  | setting => exact .setting
  | checking hworker => exact .checking (hworker.under w)
  | clearing hworker hid hwallet => exact .clearing (hworker.under w) hid (hwallet.under w)
  | scanClear hworker hid hwallet hw =>
      exact .scanClear (hworker.under w) hid (hwallet.under w) hw
  | pointing hworker hid hw hno hnext =>
      exact .pointing (hworker.under w) hid hw hno hnext.stable
  | scanPoint hworker hid hw hfound hnext =>
      exact .scanPoint (hworker.under w) hid hw
        (hfound.imp_left fun hpointed => hpointed.stable hc hapart hw) hnext.stable
  | flagging hworker hid hw hwallet hnext =>
      exact .flagging (hworker.under w) hid hw hwallet.stable (hnext.stable hc hapart hw)
  | scanFlag hworker hid hw hwallet hfound hnext =>
      exact .scanFlag (hworker.under w) hid hw hwallet.stable hfound (hnext.stable hc hapart hw)
  | quiet hp hw => exact .quiet (hp.commit hc) (hw.stable hapart)
  | sets hid hw hpointed hflagged => exact .sets hid hw (hpointed.stable hc hapart hw) hflagged

theorem outline : Outline WalletCall.tx Replaces Agrees Stage where
  begin i _ _ := stage_begin i
  ended _ := .ended
  query _ := stage_query
  insert _ := stage_insert
  update _ := stage_update
  scanned _ := stage_scanned
  take ht h _ := stage_take ht h
  commit := stage_commit
  stable _ := stage_stable

/-! ## One default -/

def walletsOf (t : Table Row.key) (id : WorkerId) : List WalletRow :=
  t.rows.filterMap fun
    | .worker _ => none
    | .wallet x => if x.id.workerId = id then some x else none

/-- One wallet of each worker that has any is its default, by flag and by pointer. -/
def OneDefault (t : Table Row.key) : Prop :=
  ∀ w, .worker w ∈ t.rows → walletsOf t w.id ≠ [] → ∃ k, w.defaultWalletId = some k ∧
    ((walletsOf t w.id).filter WalletRow.isDefault).map WalletRow.id = [k]

theorem mem_walletsOf {x : WalletRow} :
    x ∈ walletsOf t id ↔ .wallet x ∈ t.rows ∧ x.id.workerId = id := by
  rw [walletsOf, List.mem_filterMap]
  constructor
  · rintro ⟨r, hr, hx⟩
    cases r with
    | worker w => cases hx
    | wallet y =>
        simp only [Option.ite_none_right_eq_some, Option.some.injEq] at hx
        obtain ⟨hid, rfl⟩ := hx
        exact ⟨hr, hid⟩
  · rintro ⟨hx, hid⟩
    exact ⟨_, hx, if_pos hid⟩

/-- The wallets of a worker have distinct ids. -/
theorem nodup_walletsOf : ((walletsOf t id).map WalletRow.id).Nodup := by
  have hwallets : ((walletsOf t id).map fun x => RowKey.wallet x.id).Sublist
      (t.rows.map Row.key) := by
    rw [walletsOf, List.map_filterMap]
    induction t.rows with
    | nil => exact List.nil_sublist _
    | cons r rows ih =>
        rw [List.filterMap_cons, List.map_cons]
        cases r with
        | worker w => exact ih.cons _
        | wallet x =>
            simp only
            split
            · exact ih.cons _
            · next k hk =>
              split at hk
              · cases hk
                exact ih.cons_cons _
              · cases hk
  have hnodup := hwallets.nodup t.nodup
  rw [show (fun x : WalletRow => RowKey.wallet x.id) = RowKey.wallet ∘ WalletRow.id from rfl,
    ← List.map_map] at hnodup
  exact hnodup.of_map _

theorem Agrees.oneDefault (h : Agrees t) : OneDefault t := by
  intro w hw hne
  have hagreed := h w hw
  obtain ⟨x, hx⟩ := List.exists_mem_of_ne_nil _ hne
  obtain ⟨hx, hxid⟩ := mem_walletsOf.mp hx
  cases hdefault : w.defaultWalletId with
  | none => exact absurd hxid (hagreed.unset hdefault x hx)
  | some k =>
      refine ⟨k, rfl, ?_⟩
      have hflag := hagreed.flag k
      obtain ⟨hkid, hwallet⟩ := hagreed.target k hdefault
      have hnodup : (((walletsOf t w.id).filter WalletRow.isDefault).map WalletRow.id).Nodup :=
        nodup_walletsOf.sublist (List.filter_sublist.map _)
      refine List.perm_singleton.mp
        ((List.perm_ext_iff_of_nodup hnodup (List.nodup_singleton k)).mpr fun j => ?_)
      rw [List.mem_map, List.mem_singleton]
      constructor
      · rintro ⟨y, hy, rfl⟩
        obtain ⟨hy, hyflag⟩ := List.mem_filter.mp hy
        obtain ⟨hy, hyid⟩ := mem_walletsOf.mp hy
        exact (hflag y hdefault hy hyid).mp hyflag
      · rintro rfl
        obtain ⟨r, hr⟩ := Option.isSome_iff_exists.mp hwallet
        obtain ⟨y, rfl, rfl, hy⟩ := wallet_of_find hr
        exact ⟨y, List.mem_filter.mpr ⟨mem_walletsOf.mpr ⟨hy, hkid⟩,
          (hflag y hdefault hy hkid).mpr rfl⟩, rfl⟩

section Run

variable {s : Table Row.key} {ms : List (Move WalletCall RowKey)}

/-- **One default wallet**: along every run of any number of `addWallet` and
`setDefaultWallet` calls that replace no default but one whose flag they have cleared. -/
theorem one_default_of_replaces (hs : Agrees s)
    (hms : Config.Respects WalletCall.tx Replaces ms (.start s)) :
    OneDefault (Config.exec WalletCall.tx ms (.start s)).committed :=
  (outline.exec (holds_start hs) hms).committed.oneDefault

end Run

section Concrete

namespace Scenario

/-- A worker with no wallet. -/
def hired : Table Row.key :=
  ⟨[.worker ⟨"w1", "u1", none⟩], List.nodup_singleton _⟩

theorem hired_agrees : Agrees hired := by
  intro w hw
  cases List.mem_singleton.mp hw
  constructor
  · rintro - x hx
    cases List.mem_singleton.mp hx
  · intro k hk
    cases hk
  · intro k x hk
    cases hk

/-- The first wallet is added. -/
def first : List (Move WalletCall RowKey) :=
  [.begin (.addWallet "u1" "A" none), .step 0, .step 0, .step 0, .step 0, .take 0 (.worker "w1"),
    .step 0, .step 0, .take 0 (.wallet ⟨"w1", "A"⟩), .step 0, .step 0]

/-- A second one is added, and becomes the default. -/
def second : List (Move WalletCall RowKey) :=
  [.begin (.addWallet "u1" "B" none), .step 1, .step 1, .step 1, .step 1,
    .begin (.setDefaultWallet "u1" ⟨"w1", "B"⟩), .step 2, .step 2, .step 2,
    .take 2 (.wallet ⟨"w1", "A"⟩), .take 2 (.wallet ⟨"w1", "B"⟩), .step 2, .step 2,
    .take 2 (.wallet ⟨"w1", "B"⟩), .step 2, .step 2, .take 2 (.worker "w1"), .step 2, .step 2]

/-- Two wallets are added at the same time: both calls have read that the worker has no
default. -/
def twice : List (Move WalletCall RowKey) :=
  [.begin (.addWallet "u1" "A" none), .begin (.addWallet "u1" "B" none), .step 0, .step 1,
    .step 0, .step 0, .step 0, .take 0 (.worker "w1"), .step 0, .step 0,
    .take 0 (.wallet ⟨"w1", "A"⟩), .step 0, .step 0,
    .step 1, .step 1, .step 1, .take 1 (.worker "w1"), .step 1, .step 1,
    .take 1 (.wallet ⟨"w1", "B"⟩), .step 1, .step 1]

end Scenario

open Scenario

theorem one_default_of_replaces_three :
    OneDefault (Config.exec WalletCall.tx (first ++ second) (.start hired)).committed :=
  one_default_of_replaces hired_agrees (by decide +kernel)

theorem two_defaults :
    Agrees hired ∧ ∃ ms : List (Move WalletCall RowKey),
      (Config.exec WalletCall.tx ms (.start hired)).sessions.all Session.isEnded = true ∧
      ¬ OneDefault (Config.exec WalletCall.tx ms (.start hired)).committed := by
  refine ⟨hired_agrees, twice, by decide +kernel, fun h => ?_⟩
  obtain ⟨k, -, hk⟩ := h ⟨"w1", "u1", some ⟨"w1", "B"⟩⟩ (by decide +kernel) (by decide +kernel)
  have htwo : ((walletsOf (Config.exec WalletCall.tx twice (.start hired)).committed "w1").filter
      WalletRow.isDefault).map WalletRow.id = [⟨"w1", "A"⟩, ⟨"w1", "B"⟩] := by decide +kernel
  cases htwo.symm.trans hk

end Concrete

end ServeProof.Wallets
