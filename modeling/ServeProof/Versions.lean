import ServeProof.Services.Policies

/-!
# ServeProof.Versions

The policy versions of a venue are appended one by one, and the last one is active.

A transaction that inserts version `n + 1` has read that the latest one is `n`; the key
`n + 1` is its own until it ends, so the latest is `n` when it commits, and the
version it has archived is `n`.  Whoever has read `n` as well finds the key taken, and is
rolled back with what it has archived.
-/

namespace ServeProof.Policies

open ReadCommitted

/-! ## Versions -/

/-- The versions of the venue are `1` to `n`, and `n` alone is active. -/
structure Versioned (t : Table PolicyVersion.policyId) (venueId : VenueId) (n : Nat) : Prop where
  isSome_iff : ∀ v, (t.find ⟨venueId, v⟩).isSome ↔ 1 ≤ v ∧ v ≤ n
  active_iff : ∀ v p, t.find ⟨venueId, v⟩ = some p → (p.status = .active ↔ v = n)

def AllVersioned (t : Table PolicyVersion.policyId) : Prop := ∀ venueId, ∃ n, Versioned t venueId n

variable {t w : Table PolicyVersion.policyId} {venueId : VenueId} {n : Nat}

theorem find_policy {p : PolicyVersion} (hp : p ∈ t.rows) (hvenue : p.id.venueId = venueId) :
    t.find ⟨venueId, p.id.version⟩ = some p := by
  refine t.find_eq_some_iff.mpr ⟨hp, ?_⟩
  rw [PolicyVersion.policyId, ← hvenue]

theorem id_of_find {k : PolicyId} {p : PolicyVersion} (h : t.find k = some p) : p.id = k := by
  have hkey : p.policyId = k := Table.key_of_find h
  exact hkey

theorem Versioned.bounds (h : Versioned t venueId n) {p : PolicyVersion} (hp : p ∈ t.rows)
    (hvenue : p.id.venueId = venueId) : 1 ≤ p.id.version ∧ p.id.version ≤ n := by
  rw [← h.isSome_iff, find_policy hp hvenue]
  rfl

theorem Versioned.latest (h : Versioned t venueId n) : latestVersion t venueId = n := by
  have hmem {v : Nat} : v ∈ ((t.rows.filter fun p => decide (p.id.venueId = venueId)).map
      fun p => p.id.version) ↔ 1 ≤ v ∧ v ≤ n := by
    rw [List.mem_map, ← h.isSome_iff]
    constructor
    · rintro ⟨p, hp, rfl⟩
      obtain ⟨hp, hvenue⟩ := List.mem_filter.mp hp
      rw [find_policy hp (of_decide_eq_true hvenue)]
      rfl
    · intro hv
      obtain ⟨p, hp⟩ := Option.isSome_iff_exists.mp hv
      have hid := id_of_find hp
      refine ⟨p, List.mem_filter.mpr ⟨Table.mem_of_find hp, ?_⟩, ?_⟩
      · simp [hid]
      · rw [hid]
  rw [latestVersion]
  cases n with
  | zero =>
      have hnil : ((t.rows.filter fun p => decide (p.id.venueId = venueId)).map
          fun p => p.id.version) = [] := by
        rw [List.eq_nil_iff_forall_not_mem]
        intro v hv
        have := hmem.mp hv
        omega
      rw [hnil]
      rfl
  | succ n =>
      have hmax := List.max?_eq_some_iff.mpr
        ⟨hmem.mpr ⟨by omega, le_refl (n + 1)⟩, fun v hv => (hmem.mp hv).2⟩
      rw [hmax, Option.getD_some]

theorem Versioned.unique {m : Nat} (h : Versioned t venueId n) (h' : Versioned t venueId m) :
    m = n := h'.latest.symm.trans h.latest

/-- Only the row of version `n` is archived, by who has found it active. -/
theorem Versioned.archived (h : Versioned t venueId n) {now : Time} {k : PolicyId}
    {p : PolicyVersion} (hp : t.find k = some p) (hactive : (archive venueId now).p p = true) :
    k = ⟨venueId, n⟩ := by
  obtain ⟨hvenue, hstatus⟩ := of_decide_eq_true hactive
  have hid := id_of_find hp
  obtain ⟨u, v⟩ := k
  rw [hid] at hvenue
  cases hvenue
  rw [(h.active_iff v p hp).mp hstatus]

/-! ## What a transaction has done -/

/-- It has archived the version `n` at most. -/
def Archives (w t : Table PolicyVersion.policyId) (venueId : VenueId) (now : Time) (n : Nat) :
    Prop :=
  ∀ k r, w.find k = some r → k = ⟨venueId, n⟩ ∧ ∃ p, t.find k = some p ∧
    r = (archive venueId now).change p

/-- It has archived the version `n`, if there is one, and inserted the next. -/
structure Appends (w t : Table PolicyVersion.policyId) (venueId : VenueId) (now : Time) (n : Nat) :
    Prop where
  new : ∃ r, w.find ⟨venueId, n + 1⟩ = some r ∧ r.status = .active
  old : 1 ≤ n → ∃ p, t.find ⟨venueId, n⟩ = some p ∧
    w.find ⟨venueId, n⟩ = some ((archive venueId now).change p)
  only : ∀ k, (w.find k).isSome → k = ⟨venueId, n⟩ ∧ 1 ≤ n ∨ k = ⟨venueId, n + 1⟩

/-- A transaction before each of its statements. -/
inductive Stage : Session PolicyVersion.policyId → Table PolicyVersion.policyId → Prop
  | ended {s} : Stage .ended s
  | founding {u creatorUserId now s} : Stage ⟨∅, createVenue u creatorUserId now⟩ s
  | cloning {policyId createdBy overrides now s} :
      Stage ⟨∅, newVersionFrom policyId createdBy overrides now⟩ s
  | reading {u createdBy input now s} : Stage ⟨∅, createVersion u createdBy input now⟩ s
  | archiving {u createdBy input now m k s} (hn : Versioned s u k) (hle : m ≤ k) :
      Stage ⟨∅, .update (archive u now) (.insert (versionRow u (m + 1) createdBy input) .commit)⟩ s
  | scanning {u createdBy input now m k found ws s} (hn : Versioned s u k) (hle : m ≤ k)
      (hw : Archives ws s u now k)
      (hfound : m = k → 1 ≤ k → (ws.find ⟨u, k⟩).isSome ∨ ⟨u, k⟩ ∈ found) :
      Stage ⟨ws, .scan found (archive u now)
        (.insert (versionRow u (m + 1) createdBy input) .commit)⟩ s
  | inserting {u createdBy input now m k ws s} (hn : Versioned s u k) (hle : m ≤ k)
      (hw : Archives ws s u now k) (hold : m = k → 1 ≤ k → (ws.find ⟨u, k⟩).isSome) :
      Stage ⟨ws, .insert (versionRow u (m + 1) createdBy input) .commit⟩ s
  | committing {u now k ws s} (hn : Versioned s u k) (hw : Appends ws s u now k) :
      Stage ⟨ws, .commit⟩ s

/-! ## The statements -/

theorem Archives.empty {now : Time} : Archives ∅ t venueId now n := by
  intro k r h
  cases h

theorem stage_begin (i : PolicyCall) : Stage ⟨∅, i.tx⟩ t := by
  cases i with
  | createVersion u createdBy input now => exact .reading
  | newVersionFrom policyId createdBy overrides now => exact .cloning
  | createVenue u creatorUserId now => exact .founding

theorem stage_query {next : Table PolicyVersion.policyId → PolicyTx} (ht : AllVersioned t)
    (h : Stage ⟨w, .query next⟩ t) : Stage ⟨w, next (atop w t)⟩ t := by
  cases h with
  | reading =>
      rename_i u createdBy input now
      obtain ⟨n, hn⟩ := ht u
      simp only [atop_empty, hn.latest]
      exact .archiving hn (le_refl n)
  | cloning =>
      simp only [atop_empty]
      split
      · exact .ended
      · exact .reading

theorem stage_update {u : Update PolicyVersion.policyId} {next : PolicyTx}
    (h : Stage ⟨w, .update u next⟩ t) :
    Stage ⟨w, .scan (((atop w t).rows.filter u.p).map PolicyVersion.policyId) u next⟩ t := by
  cases h with
  | archiving hn hle =>
      refine .scanning hn hle .empty fun _ hpos => .inr ?_
      -- the latest version is active
      rw [atop_empty]
      obtain ⟨p, hp⟩ := Option.isSome_iff_exists.mp ((hn.isSome_iff _).mpr ⟨hpos, le_refl _⟩)
      have hid := id_of_find hp
      refine List.mem_map.mpr ⟨p, List.mem_filter.mpr ⟨Table.mem_of_find hp, ?_⟩, hid⟩
      have hactive := (hn.active_iff _ p hp).mpr rfl
      simp [archive, hid, hactive]

theorem stage_scanned {u : Update PolicyVersion.policyId} {next : PolicyTx}
    (h : Stage ⟨w, .scan [] u next⟩ t) : Stage ⟨w, next⟩ t := by
  cases h with
  | scanning hn hle hw hfound =>
      exact .inserting hn hle hw fun hm hpos => (hfound hm hpos).resolve_right List.not_mem_nil

/-- The row that is taken is the latest version, or has been archived before. -/
theorem Archives.row {now : Time} {k : PolicyId} (hn : Versioned t venueId n)
    (hw : Archives w t venueId now n) :
    (∃ p, (archive venueId now).row (atop w t) k = some p ∧ k = ⟨venueId, n⟩ ∧ t.find k = some p) ∨
      (archive venueId now).row (atop w t) k = none ∧
        (k = ⟨venueId, n⟩ → 1 ≤ n → (w.find k).isSome) := by
  cases hold : w.find k with
  | some r =>
      refine .inr ⟨?_, fun _ _ => rfl⟩
      obtain ⟨-, p, -, rfl⟩ := hw k r hold
      rw [Update.row, find_atop, hold]
      simp [archive]
  | none =>
      have hfind : (atop w t).find k = t.find k := by rw [find_atop, hold, Option.none_or]
      cases hrow : (archive venueId now).row (atop w t) k with
      | some p =>
          rw [Update.row, hfind, Option.filter_eq_some_iff] at hrow
          exact .inl ⟨p, rfl, hn.archived hrow.1 hrow.2, hrow.1⟩
      | none =>
          refine .inr ⟨rfl, fun hk hpos => ?_⟩
          subst hk
          -- the latest version is active
          obtain ⟨p, hp⟩ := Option.isSome_iff_exists.mp ((hn.isSome_iff _).mpr ⟨hpos, le_refl _⟩)
          rw [Update.row, hfind, hp, Option.filter_eq_none_iff] at hrow
          have hactive := (hn.active_iff _ p hp).mpr rfl
          have hid := id_of_find hp
          exact absurd (by simp [archive, hid, hactive]) (hrow p rfl)

theorem Archives.take {now : Time} {p : PolicyVersion} (hw : Archives w t venueId now n)
    (hp : t.find ⟨venueId, n⟩ = some p) :
    Archives (w.set ((archive venueId now).change p)) t venueId now n := by
  have hkey : PolicyVersion.policyId ((archive venueId now).change p) = ⟨venueId, n⟩ :=
    ((archive venueId now).key_change p).trans (id_of_find hp)
  intro k r hr
  rw [Table.find_set, hkey] at hr
  split at hr
  · next hk =>
    cases hr
    exact ⟨hk.symm, p, hk ▸ hp, rfl⟩
  · exact hw k r hr

theorem stage_take {found : List PolicyId} {u : Update PolicyVersion.policyId} {next : PolicyTx}
    {k : PolicyId} (h : Stage ⟨w, .scan found u next⟩ t) :
    Stage ⟨u.write w (u.row (atop w t) k), .scan (found.filter fun x => decide (x ≠ k)) u next⟩
      t := by
  cases h with
  | scanning hn hle hw hfound =>
      rename_i venueId createdBy input now m n
      obtain ⟨p, hrow, rfl, hp⟩ | ⟨hrow, hlocked⟩ := hw.row hn (k := k)
      · rw [hrow]
        refine .scanning hn hle (hw.take hp) fun _ _ => .inl ?_
        have hkey : PolicyVersion.policyId ((archive venueId now).change p) = ⟨venueId, n⟩ :=
          ((archive venueId now).key_change p).trans (id_of_find hp)
        rw [Update.write, ← hkey, Table.find_set_self]
        rfl
      · rw [hrow]
        refine .scanning hn hle hw fun hm hpos => ?_
        by_cases hk : k = ⟨venueId, n⟩
        · exact .inl (hk ▸ hlocked hk hpos)
        · refine (hfound hm hpos).imp_right fun hmem => List.mem_filter.mpr ⟨hmem, ?_⟩
          exact decide_eq_true (Ne.symm hk)

/-- No version is free up to the last one. -/
theorem Versioned.eq_of_free {m : Nat} (hn : Versioned t venueId n)
    (hfree : t.find ⟨venueId, m + 1⟩ = none) (hle : m ≤ n) : m = n := by
  have hmore := hn.isSome_iff (m + 1)
  rw [hfree] at hmore
  simp at hmore
  omega

theorem stage_insert {r : PolicyVersion} {next : PolicyTx} (ht : AllVersioned t)
    (h : Stage ⟨w, .insert r next⟩ t) (hfresh : (atop w t).find r.policyId = none) :
    Stage ⟨w.set r, next⟩ t := by
  have hnone : t.find r.policyId = none := by
    rw [find_atop, Option.or_eq_none_iff] at hfresh
    exact hfresh.2
  cases h with
  | founding =>
      rename_i u creatorUserId now
      obtain ⟨n, hn⟩ := ht u
      obtain rfl : 0 = n := hn.eq_of_free hnone (Nat.zero_le n)
      suffices hw : Appends (Table.set ∅ (defaultPolicy u creatorUserId now)) t u now 0 from
        .committing hn hw
      refine ⟨⟨defaultPolicy u creatorUserId now, ?_, rfl⟩, ?_, ?_⟩
      · exact Table.find_set_self _ _
      · intro hpos
        omega
      · intro k hk
        rw [Table.find_set] at hk
        split at hk
        · next hkey => exact .inr hkey.symm
        · cases hk
  | inserting hn hle hw hold =>
      rename_i u createdBy input now m n
      have hkey : PolicyVersion.policyId (versionRow u (m + 1) createdBy input) = ⟨u, m + 1⟩ := rfl
      rw [hkey] at hnone
      obtain rfl : m = n := hn.eq_of_free hnone hle
      have hset (k : PolicyId) : (w.set (versionRow u (m + 1) createdBy input)).find k =
          if ⟨u, m + 1⟩ = k then some (versionRow u (m + 1) createdBy input) else w.find k := by
        rw [Table.find_set, hkey]
      suffices hw' : Appends (w.set (versionRow u (m + 1) createdBy input)) t u now m from
        .committing hn hw'
      refine ⟨⟨_, by rw [hset, if_pos rfl], rfl⟩, ?_, ?_⟩
      · intro hpos
        obtain ⟨r, hr⟩ := Option.isSome_iff_exists.mp (hold rfl hpos)
        obtain ⟨-, p, hp, rfl⟩ := hw _ r hr
        refine ⟨p, hp, ?_⟩
        rw [hset, if_neg (by simp), hr]
      · intro k hk
        rw [hset] at hk
        split at hk
        · next hkey => exact .inr hkey.symm
        · obtain ⟨r, hr⟩ := Option.isSome_iff_exists.mp hk
          obtain ⟨rfl, p, hp, -⟩ := hw k r hr
          exact .inl ⟨rfl, ((hn.isSome_iff _).mp (by rw [hp]; rfl)).1⟩

/-! ## The commits -/

theorem Appends.find_elsewhere {now : Time} (hw : Appends w t venueId now n) {u : VenueId}
    (hne : u ≠ venueId) (v : Nat) : (atop w t).find ⟨u, v⟩ = t.find ⟨u, v⟩ := by
  have hnone : w.find ⟨u, v⟩ = none := by
    by_contra hsome
    obtain ⟨hk, -⟩ | hk := hw.only _ (Option.isSome_iff_ne_none.mpr hsome)
    · exact hne (PolicyId.mk.inj hk).1
    · exact hne (PolicyId.mk.inj hk).1
  rw [find_atop, hnone, Option.none_or]

theorem Versioned.elsewhere {now : Time} {u : VenueId} {m : Nat} (h : Versioned t u m)
    (hw : Appends w t venueId now n) (hne : u ≠ venueId) : Versioned (atop w t) u m where
  isSome_iff v := by rw [hw.find_elsewhere hne, h.isSome_iff]
  active_iff v p hp := by
    rw [hw.find_elsewhere hne] at hp
    exact h.active_iff v p hp

/-- **A commit appends the next version**, and archives the one before. -/
theorem Appends.versioned {now : Time} (hw : Appends w t venueId now n)
    (hn : Versioned t venueId n) : Versioned (atop w t) venueId (n + 1) := by
  obtain ⟨r, hr, hactive⟩ := hw.new
  constructor
  · intro v
    rw [find_atop, Option.isSome_or, Bool.or_eq_true, hn.isSome_iff]
    constructor
    · rintro (h | h)
      · obtain ⟨hk, hpos⟩ | hk := hw.only _ h
        · cases hk
          omega
        · cases hk
          omega
      · omega
    · intro h
      by_cases hv : v = n + 1
      · subst hv
        rw [hr]
        exact .inl rfl
      · exact .inr (by omega)
  · intro v p hp
    rw [find_atop, Option.or_eq_some_iff] at hp
    obtain hp | ⟨hnone, hp⟩ := hp
    · obtain ⟨hk, hpos⟩ | hk := hw.only _ (by rw [hp]; rfl)
      · cases hk
        obtain ⟨q, -, hq⟩ := hw.old hpos
        cases hp.symm.trans hq
        simp [archive]
      · cases hk
        cases hp.symm.trans hr
        simp [hactive]
    · -- the other versions are not the latest, nor active
      have hbounds := (hn.isSome_iff v).mp (by rw [hp]; rfl)
      have hv : v ≠ n := by
        rintro rfl
        obtain ⟨q, -, hq⟩ := hw.old hbounds.1
        rw [hq] at hnone
        cases hnone
      rw [hn.active_iff v p hp]
      omega

theorem stage_commit (ht : AllVersioned t) (h : Stage ⟨w, .commit⟩ t) :
    AllVersioned (atop w t) := by
  cases h with
  | committing hn hw =>
      rename_i u now n
      intro venueId
      by_cases hne : venueId = u
      · subst hne
        exact ⟨n + 1, hw.versioned hn⟩
      · obtain ⟨m, hm⟩ := ht venueId
        exact ⟨m, hm.elsewhere hw hne⟩

/-- Who has written other rows has archived nothing, once the venue has a next
version. -/
theorem Archives.after_appends {ws : Table PolicyVersion.policyId} {now now' : Time}
    (hn : Versioned t venueId n) (hw : Appends w t venueId now n)
    (hws : Archives ws t venueId now' n)
    (hapart : ∀ k, (w.find k).isSome → ws.find k = none) :
    Archives ws (atop w t) venueId now' (n + 1) := by
  intro k r hr
  obtain ⟨rfl, p, hp, -⟩ := hws k r hr
  have hpos := ((hn.isSome_iff n).mp (by rw [hp]; rfl)).1
  obtain ⟨q, -, hq⟩ := hw.old hpos
  cases hr.symm.trans (hapart _ (by rw [hq]; rfl))

theorem Archives.elsewhere {ws : Table PolicyVersion.policyId} {u : VenueId} {m : Nat}
    {now now' : Time} (hws : Archives ws t u now' m) (hw : Appends w t venueId now n)
    (hne : u ≠ venueId) : Archives ws (atop w t) u now' m := by
  intro k r hr
  obtain ⟨rfl, p, hp, hchange⟩ := hws k r hr
  exact ⟨rfl, p, (hw.find_elsewhere hne m).trans hp, hchange⟩

/-- The commit of another transaction leaves a transaction where it is. -/
theorem stage_stable {s : Session PolicyVersion.policyId} (h : Stage ⟨w, .commit⟩ t)
    (hs : Stage s t) (hapart : ∀ k, (w.find k).isSome → s.writes.find k = none) :
    Stage s (atop w t) := by
  cases h with
  | committing hn hw =>
      rename_i venueId now n
      cases hs with
      | ended => exact .ended
      | founding => exact .founding
      | cloning => exact .cloning
      | reading => exact .reading
      | archiving hn' hle =>
          rename_i u _ _ _ m k
          by_cases hne : u = venueId
          · subst hne
            cases hn.unique hn'
            exact .archiving (hw.versioned hn) (Nat.le_succ_of_le hle)
          · exact .archiving (hn'.elsewhere hw hne) hle
      | scanning hn' hle hws hfound =>
          rename_i u _ _ _ m k found ws
          by_cases hne : u = venueId
          · subst hne
            cases hn.unique hn'
            refine .scanning (hw.versioned hn) (Nat.le_succ_of_le hle)
              (hws.after_appends hn hw hapart) fun hm => ?_
            omega
          · refine .scanning (hn'.elsewhere hw hne) hle (hws.elsewhere hw hne) hfound
      | inserting hn' hle hws hold =>
          rename_i u _ _ now' m k ws
          by_cases hne : u = venueId
          · subst hne
            cases hn.unique hn'
            refine .inserting (hw.versioned hn) (Nat.le_succ_of_le hle)
              (hws.after_appends hn hw hapart) fun hm => ?_
            omega
          · refine .inserting (hn'.elsewhere hw hne) hle (hws.elsewhere hw hne) hold
      | committing hn' hws =>
          rename_i u now' m ws
          by_cases hne : u = venueId
          · -- the key of the next version has one owner
            subst hne
            cases hn.unique hn'
            obtain ⟨r, hr, -⟩ := hw.new
            obtain ⟨r', hr', -⟩ := hws.new
            have hnone := hapart _ (by rw [hr]; rfl)
            cases hr'.symm.trans hnone
          · suffices hws' : Appends ws (atop w t) u now' m from
              .committing (hn'.elsewhere hw hne) hws'
            refine ⟨hws.new, fun hpos => ?_, hws.only⟩
            obtain ⟨p, hp, hold⟩ := hws.old hpos
            exact ⟨p, (hw.find_elsewhere hne m).trans hp, hold⟩

theorem outline : Outline PolicyCall.tx (fun _ _ _ => True) AllVersioned Stage where
  begin i _ _ := stage_begin i
  ended _ := .ended
  query := stage_query
  insert := stage_insert
  update _ := stage_update
  scanned _ := stage_scanned
  take _ h _ _ := stage_take h
  commit := stage_commit
  stable _ := stage_stable

/-! ## In a run -/

/-- What a policy says: all its columns but the status and the end. -/
def PolicyVersion.terms (p : PolicyVersion) : PolicyVersion :=
  { p with status := .draft, effectiveTo := none }

/-- Every version is there still, and says the same. -/
def Kept (t t' : Table PolicyVersion.policyId) : Prop :=
  ∀ p ∈ t.rows, ∃ q ∈ t'.rows, q.id = p.id ∧ q.terms = p.terms

theorem Kept.refl (t : Table PolicyVersion.policyId) : Kept t t :=
  fun p hp => ⟨p, hp, rfl, rfl⟩

theorem Kept.trans {t u v : Table PolicyVersion.policyId} (htu : Kept t u) (huv : Kept u v) :
    Kept t v := by
  intro p hp
  obtain ⟨q, hq, hid, hterms⟩ := htu p hp
  obtain ⟨r, hr, hid', hterms'⟩ := huv q hq
  exact ⟨r, hr, hid'.trans hid, hterms'.trans hterms⟩

theorem kept_commit (h : Stage ⟨w, .commit⟩ t) : Kept t (atop w t) := by
  cases h with
  | committing hn hw =>
      rename_i venueId now n
      intro p hp
      have hfind : t.find p.id = some p := Table.find_key hp
      cases hold : w.find p.id with
      | none => exact ⟨p, mem_atop.mpr (.inr ⟨hp, hold⟩), rfl, rfl⟩
      | some r =>
          refine ⟨r, mem_atop.mpr (.inl (Table.mem_of_find hold)), id_of_find hold, ?_⟩
          obtain ⟨hk, hpos⟩ | hk := hw.only _ (by rw [hold]; rfl)
          · obtain ⟨q, hq, hchange⟩ := hw.old hpos
            rw [hk] at hfind hold
            cases hfind.symm.trans hq
            cases hold.symm.trans hchange
            rfl
          · -- the next version is new
            have hbounds := hn.bounds hp (by rw [hk])
            rw [hk] at hbounds
            exact absurd hbounds.2 (Nat.not_succ_le_self n)

/-- Every venue has the policy that was created with it, if it has one. -/
def Founded (t : Table PolicyVersion.policyId) : Prop :=
  ∀ p ∈ t.rows, ∃ creatorUserId now, p = defaultPolicy p.id.venueId creatorUserId now

theorem Founded.allVersioned (h : Founded t) : AllVersioned t := by
  intro u
  have hone {v : Nat} {p : PolicyVersion} (hp : t.find ⟨u, v⟩ = some p) :
      v = 1 ∧ p.status = .active := by
    obtain ⟨creatorUserId, now, heq⟩ := h p (Table.mem_of_find hp)
    have hid := id_of_find hp
    have hversion : p.id.version = 1 := by rw [heq]; rfl
    rw [hid] at hversion
    exact ⟨hversion, by rw [heq]; rfl⟩
  cases hfirst : t.find ⟨u, 1⟩ with
  | none =>
      refine ⟨0, fun v => ?_, fun v p hp => ?_⟩
      · cases hv : t.find ⟨u, v⟩ with
        | none => simp; omega
        | some p =>
            obtain ⟨rfl, -⟩ := hone hv
            cases hfirst.symm.trans hv
      · obtain ⟨rfl, -⟩ := hone hp
        cases hfirst.symm.trans hp
  | some first =>
      refine ⟨1, fun v => ?_, fun v p hp => ?_⟩
      · cases hv : t.find ⟨u, v⟩ with
        | none =>
            have hne : v ≠ 1 := by
              rintro rfl
              cases hfirst.symm.trans hv
            simp
            omega
        | some p =>
            obtain ⟨rfl, -⟩ := hone hv
            simp
      · obtain ⟨rfl, hactive⟩ := hone hp
        simp [hactive]

/-- The policies of a venue, in the order of the table. -/
def policiesOf (t : Table PolicyVersion.policyId) (venueId : VenueId) : List PolicyVersion :=
  t.rows.filter fun p => decide (p.id.venueId = venueId)

/-- The versions, as a list. -/
theorem Versioned.perm (h : Versioned t venueId n) :
    ((policiesOf t venueId).map fun p => p.id.version).Perm (List.range' 1 n) := by
  have hnodup : ((policiesOf t venueId).map fun p => p.id.version).Nodup := by
    refine List.Nodup.map_on (fun p hp q hq hpq => ?_) ((t.nodup.of_map _).filter _)
    obtain ⟨hp, hvenue⟩ := List.mem_filter.mp hp
    obtain ⟨hq, hvenue'⟩ := List.mem_filter.mp hq
    refine t.eq_of_key_eq hp hq ?_
    have hfind := find_policy hp (of_decide_eq_true hvenue)
    rw [hpq] at hfind
    exact (Table.key_of_find hfind).trans
      (Table.key_of_find (find_policy hq (of_decide_eq_true hvenue'))).symm
  refine (List.perm_ext_iff_of_nodup hnodup List.nodup_range').mpr fun v => ?_
  rw [List.mem_map, List.mem_range'_1]
  constructor
  · rintro ⟨p, hp, rfl⟩
    obtain ⟨hp, hvenue⟩ := List.mem_filter.mp hp
    have hbounds := h.bounds hp (of_decide_eq_true hvenue)
    omega
  · intro hv
    obtain ⟨p, hp⟩ := Option.isSome_iff_exists.mp ((h.isSome_iff v).mpr (by omega))
    have hid := id_of_find hp
    exact ⟨p, List.mem_filter.mpr ⟨Table.mem_of_find hp, by simp [hid]⟩, by rw [hid]⟩

theorem Versioned.active (h : Versioned t venueId n) (hpos : 1 ≤ n) :
    ((policiesOf t venueId).filter fun p => decide (p.status = .active)).map
      (fun p => p.id.version) = [n] := by
  obtain ⟨p, hp⟩ := Option.isSome_iff_exists.mp ((h.isSome_iff n).mpr ⟨hpos, le_refl n⟩)
  have hid := id_of_find hp
  have hone : ((policiesOf t venueId).filter fun p => decide (p.status = .active)).Perm [p] := by
    refine (List.perm_ext_iff_of_nodup ?_ (List.nodup_singleton p)).mpr fun q => ?_
    · exact (((t.nodup.of_map _).filter _).filter _)
    · rw [policiesOf, List.filter_filter, List.mem_filter, List.mem_singleton, Bool.and_eq_true,
        decide_eq_true_eq, decide_eq_true_eq]
      constructor
      · rintro ⟨hq, hactive, hvenue⟩
        have hfind := find_policy hq hvenue
        rw [(h.active_iff _ q hfind).mp hactive] at hfind
        exact Option.some.inj (hfind.symm.trans hp)
      · rintro rfl
        exact ⟨Table.mem_of_find hp, (h.active_iff n q hp).mpr rfl, by rw [hid]⟩
  rw [List.perm_singleton.mp hone, List.map_singleton, hid]

section Run

variable {s : Table PolicyVersion.policyId} {before after : List (Move PolicyCall PolicyId)}

/-- **Versions are appended, and the last is active**: along every run of any number
of `createVersion`, `newVersionFrom` and `createVenue`, for every venue. -/
theorem policy_versions_append (hs : Founded s) (venueId : VenueId) :
    let t := (Config.exec PolicyCall.tx before (.start s)).committed
    let t' := (Config.exec PolicyCall.tx (before ++ after) (.start s)).committed
    (∃ n, ((policiesOf t venueId).map fun p => p.id.version).Perm (List.range' 1 n) ∧
      (1 ≤ n → ((policiesOf t venueId).filter fun p => decide (p.status = .active)).map
        (fun p => p.id.version) = [n]) ∧
      (policiesOf s venueId ≠ [] → 1 ≤ n)) ∧
      Kept t t' := by
  intro t t'
  have hstart : Holds AllVersioned Stage (.start s) := holds_start hs.allVersioned
  have hall (ms : List (Move PolicyCall PolicyId)) (c : Config PolicyVersion.policyId) :
      Config.Respects PolicyCall.tx (fun _ _ _ => True) ms c :=
    Config.respects_of_all _ _ (fun _ _ _ => trivial) ms c
  have hbefore := outline.exec hstart (hall before _)
  have hkept {ms : List (Move PolicyCall PolicyId)} {c : Config PolicyVersion.policyId}
      (h : Holds AllVersioned Stage c) :
      Kept c.committed (Config.exec PolicyCall.tx ms c).committed :=
    outline.exec_relates Kept.refl Kept.trans (fun _ h => kept_commit h) h (hall ms c)
  constructor
  · obtain ⟨n, hn⟩ := hbefore.committed venueId
    refine ⟨n, hn.perm, hn.active, fun hne => ?_⟩
    -- the policy of the start is there still
    obtain ⟨p, hp⟩ := List.exists_mem_of_ne_nil _ hne
    obtain ⟨hp, hvenue⟩ := List.mem_filter.mp hp
    obtain ⟨q, hq, hid, -⟩ := hkept hstart p hp
    have hbounds := hn.bounds hq (by rw [hid]; exact of_decide_eq_true hvenue)
    omega
  · rw [show t' = (Config.exec PolicyCall.tx after (Config.exec PolicyCall.tx before
      (.start s))).committed from congrArg Config.committed (Config.exec_append _ _ _ _)]
    exact hkept hbefore

end Run

section Concrete

/-- A venue with the policy that was created with it. -/
def Scenario.founded : Table PolicyVersion.policyId :=
  ⟨[defaultPolicy "bar" "owner" 0], List.nodup_singleton _⟩

def Scenario.equalSplit : VersionInput where
  roleWeights := []
  poolInclusion := []
  excludedRoles := []
  allocationType := .equalSplit
  tipOutRules := none
  effectiveFrom := 0

/-- Two managers create a version at the same time: both have read that version 1 is
the latest, and the second one waits for the row. -/
def Scenario.twoVersions : List (Move PolicyCall PolicyId) :=
  [.begin (.createVersion "bar" "owner" equalSplit 1),
    .begin (.createVersion "bar" "manager" equalSplit 2), .step 0, .step 1, .step 0, .step 1,
    .take 0 ⟨"bar", 1⟩, .take 1 ⟨"bar", 1⟩, .step 0, .step 0, .step 0, .take 1 ⟨"bar", 1⟩, .step 1,
    .step 1]

open Policies.Scenario

example : ((Config.exec PolicyCall.tx twoVersions (.start founded)).committed.rows.map fun p =>
    (p.id.version, p.status, p.createdBy)) =
      [(1, .archived, "owner"), (2, .active, "owner")] := by decide +kernel

theorem policy_versions_append_two :
    let t := (Config.exec PolicyCall.tx (twoVersions.take 9) (.start founded)).committed
    let t' := (Config.exec PolicyCall.tx (twoVersions.take 9 ++ twoVersions.drop 9)
      (.start founded)).committed
    (∃ n, ((policiesOf t "bar").map fun p => p.id.version).Perm (List.range' 1 n) ∧
      (1 ≤ n → ((policiesOf t "bar").filter fun p => decide (p.status = .active)).map
        (fun p => p.id.version) = [n]) ∧
      (policiesOf founded "bar" ≠ [] → 1 ≤ n)) ∧
      Kept t t' :=
  policy_versions_append (fun p hp => ⟨"owner", 0, by rw [List.mem_singleton.mp hp]; rfl⟩) "bar"

end Concrete

end ServeProof.Policies
