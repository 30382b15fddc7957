import ServeProof.Income.Ledger

/-!
# ServeProof.Income.Lineage

The entries of a (worker, shift) pair form a lineage: one base entry, and the
corrections that hang on it.

`Lineage` is what every write keeps when its writer knows what it should
(`Admits`).  That a lineage has one effective value (`OneActive`) takes more:
the writes have to come in time (`Timely`), before another write of the lineage
that the writer has not seen.
-/

namespace ServeProof

namespace IncomeEntry

/-- An entry changes, but is about the same. -/
structure Became (e e' : IncomeEntry) : Prop where
  id : e'.id = e.id
  pair : e'.pair = e.pair
  correctionOfId : e'.correctionOfId = e.correctionOfId

theorem Became.refl (e : IncomeEntry) : e.Became e := ⟨rfl, rfl, rfl⟩

end IncomeEntry

namespace Books

/-- Some entry corrects the entry `id`. -/
def Corrected (b : Books) (id : EntryId) : Prop :=
  ∃ e ∈ b.entries.rows, e.correctionOfId = some id

/-- What the writer of the ledger knows of it. -/
def Admits (b : Books) : BooksWrite → Prop
  | .updateEntry id data => ∃ e, b.baseEntry data.pair = some e ∧ e.id = id
  | .createEntry data => b.baseEntry data.pair = none
  | .correct original _ _ => ∃ e, b.entries.find original.id = some e ∧ e.pair = original.pair
  | _ => True

/-- The write comes in time: a pair is projected while none of its entries is
superseded, an entry is corrected while it is active. -/
def Timely (b : Books) : BooksWrite → Prop
  | .updateEntry _ data => ¬ b.Superseded data.pair
  | .correct original _ _ =>
      ∃ e ∈ b.entries.find original.id, e.effectiveStatus = .active
  | _ => True

instance decidableTimely (b : Books) (c : BooksWrite) : Decidable (b.Timely c) :=
  match c with
  | .updateEntry _ data => inferInstanceAs (Decidable (¬ b.Superseded data.pair))
  | .correct original _ _ => inferInstanceAs (Decidable (∃ e ∈ b.entries.find original.id, _))
  | .createEntry _ | .savePayroll _ | .deleteAlerts _ | .createAlerts _ | .log _ => isTrue trivial

end Books

namespace BooksWrite

/-- The entry a write changes. -/
def touches : BooksWrite → Option EntryId
  | updateEntry id _ => some id
  | correct original _ _ => some original.id
  | _ => none

/-- The pair whose base entry a write changes or creates. -/
def target : BooksWrite → Option (WorkerId × Option ShiftId)
  | updateEntry _ data => some data.pair
  | createEntry data => some data.pair
  | _ => none

/-- What a write makes of an entry that is there. -/
def change : BooksWrite → IncomeEntry → IncomeEntry
  | updateEntry id data, e => if e.id = id then e.project data else e
  | correct original _ _, e => if e.id = original.id then e.supersede else e
  | _, e => e

/-- The entries a write adds. -/
def added : BooksWrite → EntryId → List IncomeEntry
  | createEntry data, id => [.base data id]
  | correct original _ input, id => [original.corrected input id]
  | _, _ => []

theorem rows_apply (c : BooksWrite) (b : Books) :
    (c.apply b).entries.rows = b.entries.rows.map c.change ++ c.added b.nextEntryId := by
  cases c with
  | updateEntry id data =>
      exact (b.rows_update (IncomeEntry.id_project data)).trans (List.append_nil _).symm
  | createEntry data =>
      rw [show change (createEntry data) = id from rfl, List.map_id]
      exact b.rows_insert (IncomeEntry.id_base data)
  | correct original actorUserId input =>
      have hinsert := (b.update original.id IncomeEntry.supersede
        IncomeEntry.id_supersede).rows_insert (original.id_corrected input)
      rw [b.rows_update IncomeEntry.id_supersede] at hinsert
      exact hinsert
  | savePayroll row => exact (List.map_id _).symm.trans (List.append_nil _).symm
  | deleteAlerts venueId => exact (List.map_id _).symm.trans (List.append_nil _).symm
  | createAlerts alerts => exact (List.map_id _).symm.trans (List.append_nil _).symm
  | log row => exact (List.map_id _).symm.trans (List.append_nil _).symm

end BooksWrite

/-- How a write changes an entry that is there. -/
inductive BooksWrite.Changes (c : BooksWrite) (e : IncomeEntry) : IncomeEntry → Prop where
  | stays (h : c.touches ≠ some e.id) : Changes c e e
  | projected (data : EntryData) (h : c = .updateEntry e.id data) : Changes c e (e.project data)
  | superseded (original : IncomeEntry) (actorUserId : UserId) (input : Correction)
      (h : c = .correct original actorUserId input) (hid : original.id = e.id) :
      Changes c e e.supersede

namespace Books

variable {b : Books} {c : BooksWrite}

theorem mem_of_baseEntry {pair : WorkerId × Option ShiftId} {e : IncomeEntry}
    (h : b.baseEntry pair = some e) : e ∈ b.entries.rows ∧ e.pair = pair ∧ e.Base := by
  have hp := List.find?_some h
  simp only [decide_eq_true_eq] at hp
  exact ⟨List.mem_of_find?_eq_some h, hp⟩

theorem not_base_of_baseEntry {pair : WorkerId × Option ShiftId} (h : b.baseEntry pair = none)
    {e : IncomeEntry} (he : e ∈ b.entries.rows) (hp : e.pair = pair) : ¬ e.Base := by
  have hnot := List.find?_eq_none.mp h e he
  simp only [decide_eq_true_eq, not_and] at hnot
  exact hnot hp

/-- The entry that is projected is the one of the pair. -/
theorem Admits.pair_of_update {id : EntryId} {data : EntryData}
    (h : b.Admits (.updateEntry id data)) {e : IncomeEntry} (he : e ∈ b.entries.rows)
    (hid : e.id = id) : e.pair = data.pair ∧ e.Base := by
  obtain ⟨e₀, he₀, hid₀⟩ := h
  obtain ⟨hmem, hp⟩ := mem_of_baseEntry he₀
  have heq : e = e₀ := b.entries.eq_of_key_eq he hmem (hid.trans hid₀.symm)
  exact heq ▸ hp

end Books

theorem BooksWrite.Changes.became {b : Books} {c : BooksWrite} (h : b.Admits c)
    {e e' : IncomeEntry} (he : e ∈ b.entries.rows) (hc : c.Changes e e') : e.Became e' := by
  cases hc with
  | stays _ => exact .refl e
  | projected data hc =>
      subst hc
      exact ⟨rfl, (h.pair_of_update he rfl).1.symm, rfl⟩
  | superseded => exact ⟨rfl, rfl, rfl⟩

theorem IncomeEntry.Became.base {e e' : IncomeEntry} (h : e.Became e') : e'.Base ↔ e.Base := by
  rw [IncomeEntry.Base, h.correctionOfId, IncomeEntry.Base]

namespace Books

variable {b : Books} {c : BooksWrite}

theorem changes_change (c : BooksWrite) (e : IncomeEntry) : c.Changes e (c.change e) := by
  cases c with
  | updateEntry id data =>
      by_cases hid : e.id = id
      · rw [BooksWrite.change, if_pos hid]
        exact .projected data (by rw [hid])
      · rw [BooksWrite.change, if_neg hid]
        exact .stays fun h => hid (Option.some.inj h).symm
  | correct original actorUserId input =>
      by_cases hid : e.id = original.id
      · rw [BooksWrite.change, if_pos hid]
        exact .superseded original actorUserId input rfl hid.symm
      · rw [BooksWrite.change, if_neg hid]
        exact .stays fun h => hid (Option.some.inj h).symm
  | createEntry | savePayroll | deleteAlerts | createAlerts | log => exact .stays nofun

/-- An entry of the next state is an entry of this one, changed, or it is new. -/
theorem entry_of_apply {e' : IncomeEntry} (h : e' ∈ (c.apply b).entries.rows) :
    (∃ e ∈ b.entries.rows, c.Changes e e') ∨
      (∃ data, c = .createEntry data ∧ e' = .base data b.nextEntryId) ∨
      ∃ original actorUserId input, c = .correct original actorUserId input ∧
        e' = original.corrected input b.nextEntryId := by
  rw [c.rows_apply b, List.mem_append, List.mem_map] at h
  cases h with
  | inl h =>
      obtain ⟨e, he, rfl⟩ := h
      exact .inl ⟨e, he, changes_change c e⟩
  | inr h =>
      cases c with
      | createEntry data => exact .inr (.inl ⟨data, rfl, List.mem_singleton.mp h⟩)
      | correct original actorUserId input =>
          exact .inr (.inr ⟨original, actorUserId, input, rfl, List.mem_singleton.mp h⟩)
      | updateEntry | savePayroll | deleteAlerts | createAlerts | log =>
          exact absurd h List.not_mem_nil

/-- An entry stays, changed or not. -/
theorem entry_apply (c : BooksWrite) {e : IncomeEntry} (he : e ∈ b.entries.rows) :
    ∃ e' ∈ (c.apply b).entries.rows, c.Changes e e' := by
  refine ⟨c.change e, ?_, changes_change c e⟩
  rw [c.rows_apply b]
  exact List.mem_append_left _ (List.mem_map_of_mem he)

/-- What a write keeps of the entries. -/
theorem kept_apply (h : b.Admits c) : b.Kept (c.apply b) := by
  intro id e he
  obtain ⟨e', he', hc⟩ := entry_apply c (Table.mem_of_find he)
  have hsame := hc.became h (Table.mem_of_find he)
  have hid : e'.id = id := hsame.id.trans (Table.key_of_find he)
  exact ⟨e', by rw [← hid]; exact Table.find_key he', hsame.pair, hsame.correctionOfId⟩

/-- A write shows on the base entry of its target only. -/
theorem keptOn_apply (h : b.Admits c) :
    b.KeptOn (fun pair => c.target ≠ some pair) (c.apply b) := by
  cases c with
  | updateEntry id data =>
      have hspares : b.Spares id (IncomeEntry.project data) := fun e he hid =>
        ⟨(h.pair_of_update he hid).1.symm, rfl⟩
      have hkept := keptOn_update (IncomeEntry.id_project data) hspares
        fun e he hid => (h.pair_of_update he hid).1
      exact hkept.imp fun pair hne hp => hne (congrArg some hp.symm)
  | createEntry data =>
      exact keptOn_insert b (IncomeEntry.id_base data)
        fun pair hne hnew => hne (congrArg some hnew.1)
  | correct original actorUserId input => exact keptOn_correct b original actorUserId input
  | savePayroll | deleteAlerts | createAlerts | log => exact ⟨fun _ _ => rfl, fun _ _ h => h⟩

/-- The base entry of a pair after it is projected. -/
theorem baseData_updateEntry {id : EntryId} {data : EntryData}
    (h : b.Admits (.updateEntry id data)) :
    ((BooksWrite.updateEntry id data).apply b).baseData data.pair = some (id, data) := by
  have hspares : b.Spares id (IncomeEntry.project data) := fun e he hid =>
    ⟨(h.pair_of_update he hid).1.symm, rfl⟩
  obtain ⟨e, he, hid⟩ := h
  have hbase := baseEntry_update (IncomeEntry.id_project data) hspares data.pair
  rw [he, Option.map_some, if_pos hid] at hbase
  rw [baseData, show ((BooksWrite.updateEntry id data).apply b).baseEntry data.pair = _ from hbase,
    Option.map_some, IncomeEntry.id_project, hid]
  rfl

theorem baseData_createEntry {data : EntryData} (h : b.Admits (.createEntry data)) :
    ((BooksWrite.createEntry data).apply b).baseData data.pair =
      some (b.nextEntryId, data) := by
  have hnone : b.baseEntry data.pair = none := h
  have hbase := b.baseEntry_insert (IncomeEntry.id_base data) data.pair
  rw [hnone, Option.none_or, if_pos ⟨rfl, rfl⟩] at hbase
  rw [baseData, show ((BooksWrite.createEntry data).apply b).baseEntry data.pair = _ from hbase]
  rfl

/-! ## Lineages -/

/-- A pair has one base entry, and what is not a base entry hangs on it; a
superseded entry has been corrected. -/
structure Lineage (b : Books) : Prop where
  oneBase : ∀ e ∈ b.entries.rows, ∀ e' ∈ b.entries.rows, e.Base → e'.Base → e.pair = e'.pair →
    e = e'
  base : ∀ e ∈ b.entries.rows, ¬ e.Base →
    ∃ e₀ ∈ b.entries.rows, e₀.Base ∧ e₀.pair = e.pair ∧ b.Corrected e₀.id
  superseded : ∀ e ∈ b.entries.rows, e.effectiveStatus = .superseded → b.Corrected e.id

theorem lineage_empty : Books.empty.Lineage where
  oneBase _ h := absurd h List.not_mem_nil
  base _ h := absurd h List.not_mem_nil
  superseded _ h := absurd h List.not_mem_nil

/-- A pair without a base entry has no entry at all. -/
theorem Lineage.no_entry (hb : b.Lineage) {pair : WorkerId × Option ShiftId}
    (h : b.baseEntry pair = none) {e : IncomeEntry} (he : e ∈ b.entries.rows) : e.pair ≠ pair := by
  intro hp
  have hbase := not_base_of_baseEntry h he hp
  obtain ⟨e₀, he₀, hbase₀, hp₀, -⟩ := hb.base e he hbase
  exact not_base_of_baseEntry h he₀ (hp₀.trans hp) hbase₀

/-- A pair whose base entry has not been corrected has no superseded entry. -/
theorem Lineage.not_superseded (hb : b.Lineage) {e : IncomeEntry} (he : e ∈ b.entries.rows)
    (hbase : e.Base) (hnot : ¬ b.Corrected e.id) : ¬ b.Superseded e.pair := by
  intro ⟨e', he', hp, hs⟩
  by_cases hbase' : e'.Base
  · have heq := hb.oneBase e' he' e he hbase' hbase hp
    exact hnot (heq ▸ hb.superseded e' he' hs)
  · obtain ⟨e₀, he₀, hbase₀, hp₀, hcorr⟩ := hb.base e' he' hbase'
    have heq := hb.oneBase e₀ he₀ e he hbase₀ hbase (hp₀.trans hp)
    exact hnot (heq ▸ hcorr)

theorem Corrected.apply (h : b.Admits c) {id : EntryId} (hid : b.Corrected id) :
    (c.apply b).Corrected id := by
  obtain ⟨e, he, hc⟩ := hid
  obtain ⟨e', he', hchange⟩ := entry_apply c he
  exact ⟨e', he', (hchange.became h he).correctionOfId.trans hc⟩

/-- Two entries of the next state that come from one entry are one. -/
theorem eq_of_changes (h : b.Admits c) {e e₁ e₂ : IncomeEntry} (he : e ∈ b.entries.rows)
    (h₁ : e₁ ∈ (c.apply b).entries.rows) (h₂ : e₂ ∈ (c.apply b).entries.rows)
    (hc₁ : c.Changes e e₁) (hc₂ : c.Changes e e₂) : e₁ = e₂ :=
  (c.apply b).entries.eq_of_key_eq h₁ h₂
    ((hc₁.became h he).id.trans (hc₂.became h he).id.symm)

/-- A write whose writer knows what it should keeps the lineages. -/
theorem Lineage.apply (hb : b.Lineage) (h : b.Admits c) : (c.apply b).Lineage := by
  have hold {e e' : IncomeEntry} (he : e ∈ b.entries.rows) (hc : c.Changes e e') := hc.became h he
  constructor
  · intro e₁ h₁ e₂ h₂ hbase₁ hbase₂ hp
    -- a new base entry has a pair of its own
    have hnew {data : EntryData} (hc : c = .createEntry data) {e e' : IncomeEntry}
        (he : e ∈ b.entries.rows) (hchange : c.Changes e e') : e'.pair ≠ data.pair := by
      subst hc
      exact (hold he hchange).pair.trans_ne (hb.no_entry h he)
    obtain ⟨e, he, hc₁⟩ | ⟨data, hc, rfl⟩ | ⟨original, actor, input, -, rfl⟩ := entry_of_apply h₁
    · obtain ⟨e', he', hc₂⟩ | ⟨data, hc, rfl⟩ | ⟨original, actor, input, -, rfl⟩ :=
        entry_of_apply h₂
      · have hpair : e.pair = e'.pair :=
          (hold he hc₁).pair.symm.trans (hp.trans (hold he' hc₂).pair)
        have heq := hb.oneBase e he e' he' ((hold he hc₁).base.mp hbase₁)
          ((hold he' hc₂).base.mp hbase₂) hpair
        subst heq
        exact eq_of_changes h he h₁ h₂ hc₁ hc₂
      · exact absurd hp (hnew hc he hc₁)
      · cases hbase₂
    · obtain ⟨e', he', hc₂⟩ | ⟨data', hc', rfl⟩ | ⟨original, actor, input, -, rfl⟩ :=
        entry_of_apply h₂
      · exact absurd hp.symm (hnew hc he' hc₂)
      · cases hc.symm.trans hc'
        rfl
      · cases hbase₂
    · cases hbase₁
  · intro e' h' hbase
    obtain ⟨e, he, hc'⟩ | ⟨data, hc, rfl⟩ | ⟨original, actor, input, hc, rfl⟩ := entry_of_apply h'
    · have hnot : ¬ e.Base := fun hb => hbase ((hold he hc').base.mpr hb)
      obtain ⟨e₀, he₀, hbase₀, hp₀, hcorr⟩ := hb.base e he hnot
      obtain ⟨e₁, he₁, hc₁⟩ := entry_apply c he₀
      have hsame := hold he₀ hc₁
      refine ⟨e₁, he₁, hsame.base.mpr hbase₀, ?_, hsame.id ▸ hcorr.apply h⟩
      exact hsame.pair.trans (hp₀.trans (hold he hc').pair.symm)
    · exact absurd rfl hbase
    · -- a correction hangs where the entry it corrects hangs
      have hcorr : (c.apply b).Corrected original.id := ⟨_, h', rfl⟩
      subst hc
      have hknown := h
      obtain ⟨e, he, hp⟩ := hknown
      have hmem := Table.mem_of_find he
      have hid : e.id = original.id := Table.key_of_find he
      by_cases hbase' : e.Base
      · obtain ⟨e₁, he₁, hc₁⟩ := entry_apply (.correct original actor input) hmem
        have hsame := hold hmem hc₁
        exact ⟨e₁, he₁, hsame.base.mpr hbase', hsame.pair.trans hp,
          by rw [hsame.id, hid]; exact hcorr⟩
      · obtain ⟨e₀, he₀, hbase₀, hp₀, hcorr₀⟩ := hb.base e hmem hbase'
        obtain ⟨e₁, he₁, hc₁⟩ := entry_apply (.correct original actor input) he₀
        have hsame := hold he₀ hc₁
        exact ⟨e₁, he₁, hsame.base.mpr hbase₀, hsame.pair.trans (hp₀.trans hp),
          hsame.id ▸ hcorr₀.apply h⟩
  · intro e' h' hs
    obtain ⟨e, he, hc'⟩ | ⟨data, hc, rfl⟩ | ⟨original, actor, input, hc, rfl⟩ := entry_of_apply h'
    · rw [(hold he hc').id]
      cases hc' with
      | stays _ => exact (hb.superseded _ he hs).apply h
      | projected => cases hs
      | superseded original actor input hc hid =>
          subst hc
          have hnew : original.corrected input b.nextEntryId ∈
              ((BooksWrite.correct original actor input).apply b).entries.rows := by
            rw [BooksWrite.rows_apply]
            exact List.mem_append_right _ (List.mem_singleton.mpr rfl)
          exact ⟨_, hnew, congrArg some hid⟩
    · cases hs
    · cases hs

/-! ## One effective value -/

/-- A pair has one active entry at most, and no entry is reversed. -/
structure OneActive (b : Books) : Prop where
  active : ∀ e ∈ b.entries.rows, ∀ e' ∈ b.entries.rows, e.effectiveStatus = .active →
    e'.effectiveStatus = .active → e.pair = e'.pair → e = e'
  notReversed : ∀ e ∈ b.entries.rows, e.effectiveStatus ≠ .reversed

theorem oneActive_empty : Books.empty.OneActive where
  active _ h := absurd h List.not_mem_nil
  notReversed _ h := absurd h List.not_mem_nil

/-- An entry that a timely write leaves active was active before. -/
theorem OneActive.was_active (ha : b.OneActive) (h : b.Admits c) (ht : b.Timely c)
    {e e' : IncomeEntry} (he : e ∈ b.entries.rows) (hc : c.Changes e e')
    (hactive : e'.effectiveStatus = .active) : e.effectiveStatus = .active := by
  cases hc with
  | stays _ => exact hactive
  | superseded => cases hactive
  | projected data hc =>
      subst hc
      have hnot : e.effectiveStatus ≠ .superseded :=
        fun hs => ht ⟨e, he, (h.pair_of_update he rfl).1, hs⟩
      have hrev := ha.notReversed e he
      cases hstatus : e.effectiveStatus with
      | active => rfl
      | superseded => exact absurd hstatus hnot
      | reversed => exact absurd hstatus hrev

/-- Timely writes keep the one effective value of a lineage. -/
theorem OneActive.apply (ha : b.OneActive) (hb : b.Lineage) (h : b.Admits c) (ht : b.Timely c) :
    (c.apply b).OneActive := by
  have hold {e e' : IncomeEntry} (he : e ∈ b.entries.rows) (hc : c.Changes e e') := hc.became h he
  have hnew {data : EntryData} (hc : c = .createEntry data) {e e' : IncomeEntry}
      (he : e ∈ b.entries.rows) (hchange : c.Changes e e') : e'.pair ≠ data.pair := by
    subst hc
    exact (hold he hchange).pair.trans_ne (hb.no_entry h he)
  -- the entry that is corrected was the active one
  have hcorrected {original : IncomeEntry} {actor : UserId} {input : Correction}
      (hc : c = .correct original actor input) {e e' : IncomeEntry} (he : e ∈ b.entries.rows)
      (hchange : c.Changes e e') (hactive : e'.effectiveStatus = .active) :
      e'.pair ≠ original.pair := by
    intro hp
    have hwas := ha.was_active h ht he hchange hactive
    subst hc
    obtain ⟨e₀, he₀, hp₀⟩ := h
    obtain ⟨e₀', he₀', hactive₀⟩ := ht
    cases he₀.symm.trans he₀'
    have heq := ha.active e he e₀ (Table.mem_of_find he₀) hwas hactive₀
      ((hold he hchange).pair.symm.trans (hp.trans hp₀.symm))
    have hid : original.id = e.id := heq ▸ (Table.key_of_find he₀).symm
    cases hchange with
    | stays hne => exact hne (congrArg some hid)
    | projected data hc => cases hc
    | superseded => cases hactive
  constructor
  · intro e₁ h₁ e₂ h₂ ha₁ ha₂ hp
    obtain ⟨e, he, hc₁⟩ | ⟨data, hc, rfl⟩ | ⟨original, actor, input, hc, rfl⟩ := entry_of_apply h₁
    · obtain ⟨e', he', hc₂⟩ | ⟨data, hc, rfl⟩ | ⟨original, actor, input, hc, rfl⟩ :=
        entry_of_apply h₂
      · have hpair : e.pair = e'.pair :=
          (hold he hc₁).pair.symm.trans (hp.trans (hold he' hc₂).pair)
        have heq := ha.active e he e' he' (ha.was_active h ht he hc₁ ha₁)
          (ha.was_active h ht he' hc₂ ha₂) hpair
        subst heq
        exact eq_of_changes h he h₁ h₂ hc₁ hc₂
      · exact absurd hp (hnew hc he hc₁)
      · exact absurd hp (hcorrected hc he hc₁ ha₁)
    · obtain ⟨e', he', hc₂⟩ | ⟨data', hc', rfl⟩ | ⟨original, actor, input, hc', rfl⟩ :=
        entry_of_apply h₂
      · exact absurd hp.symm (hnew hc he' hc₂)
      · cases hc.symm.trans hc'
        rfl
      · cases hc.symm.trans hc'
    · obtain ⟨e', he', hc₂⟩ | ⟨data', hc', rfl⟩ | ⟨original', actor', input', hc', rfl⟩ :=
        entry_of_apply h₂
      · exact absurd hp.symm (hcorrected hc he' hc₂ ha₂)
      · cases hc.symm.trans hc'
      · cases hc.symm.trans hc'
        rfl
  · intro e' h' hrev
    obtain ⟨e, he, hc'⟩ | ⟨data, hc, rfl⟩ | ⟨original, actor, input, hc, rfl⟩ := entry_of_apply h'
    · cases hc' with
      | stays _ => exact ha.notReversed _ he hrev
      | projected => cases hrev
      | superseded => cases hrev
    · cases hrev
    · cases hrev

/-- A timely write leaves a superseded entry superseded. -/
theorem superseded_of_changes (h : b.Admits c) (ht : b.Timely c) {e e' : IncomeEntry}
    (he : e ∈ b.entries.rows) (hc : c.Changes e e') (hs : e.effectiveStatus = .superseded) :
    e'.effectiveStatus = .superseded := by
  cases hc with
  | stays _ => exact hs
  | superseded => rfl
  | projected data hc =>
      subst hc
      exact absurd ⟨e, he, (h.pair_of_update he rfl).1, hs⟩ ht

end Books

end ServeProof
