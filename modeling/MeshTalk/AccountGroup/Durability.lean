import MeshTalk.AccountGroup.Journal

/-! # What the journal keeps

A write either leaves the maps as they are or puts exactly what it was given, and the rows of the
file replay to the maps: whether the file was compacted or not, a journal that opens again holds the
same operations. -/

namespace MeshTalk.AccountGroup.Journal

open Lib Channel Journal Table Option List

/-- The rows a write starts from: those of the file, or those of the maps. -/
def Base (j : Journal) (rows : List Record) : Prop := rows = j.rows ∨ rows = j.compactedRows

/-- The maps are as they were, and the file may have been compacted. -/
def Idle (j k : Journal) : Prop := ∃ rows, j.Base rows ∧ k = { j with rows := rows }

theorem Idle.refl (j : Journal) : j.Idle j := ⟨j.rows, .inl rfl, rfl⟩

/-- What a write does: nothing but perhaps compacting the file, or appending a row and changing the
maps. -/
def Outcome (j : Journal) (body : RecordBody) (change : Journal → Journal) (P : Prop)
    (r : Except LogError Unit × Journal) : Prop :=
  ((∃ e, r.1 = .error e) ∧ j.Idle r.2) ∨
    (r.1 = .ok () ∧ P ∧ ∃ rows, j.Base rows ∧ r.2 = change { j with rows := rows ++ [j.row body] })

theorem Outcome.error (j : Journal) (e body) (change : Journal → Journal) (P : Prop) :
    j.Outcome body change P (.error e, j) := .inl ⟨⟨e, rfl⟩, Idle.refl j⟩

variable [Sha256] [EventCrypto] [Serde] [RecordJson] {j k : Journal}

/-! ### What a write does -/

omit [Sha256] [EventCrypto] [Serde] [RecordJson] in
theorem commit_cases (full) (io : Io) (body change) {P : Prop} (hP : P) :
    j.Outcome body change P (j.commit full io body change) := by
  unfold commit append
  cases full
  · cases io.appended with
    | error e => exact Outcome.error j e body change P
    | ok u => exact .inr ⟨rfl, hP, j.rows, .inl rfl, rfl⟩
  · cases io.rewritten with
    | error e => exact Outcome.error j e body change P
    | ok u =>
      cases io.appended with
      | error e => exact .inl ⟨⟨e, rfl⟩, j.compactedRows, .inr rfl, rfl⟩
      | ok u => exact .inr ⟨rfl, hP, j.compactedRows, .inr rfl, rfl⟩

theorem put_cases (io : Io) (e : Entry) :
    j.Outcome (.entry (stored e (j.sequence + 1))) (fun k => k.install (stored e (j.sequence + 1)))
      (j.validate e = true) (j.put io e) := by
  unfold put
  split_ifs with hv
  · cases hs : checkedAdd u64Max j.sequence 1 with
    | none => exact Outcome.error ..
    | some sequence =>
      obtain ⟨-, rfl⟩ := checkedAdd_eq_some.mp hs
      dsimp only
      split_ifs
      · exact commit_cases _ io _ _ (Bool.and_eq_true_iff.mp hv).1
      · exact Outcome.error ..
  · exact Outcome.error ..

omit [EventCrypto] in
theorem putLookup_cases (io : Io) (l) :
    j.Outcome (.lookup { l with sequence := j.sequence + 1 })
      (fun k => k.installLookup { l with sequence := j.sequence + 1 })
      (j.validateLookup l = true ∧ j.entries.get l.id = none) (j.putLookup io l) := by
  unfold putLookup
  split_ifs with hv
  · cases hs : checkedAdd u64Max j.sequence 1 with
    | none => exact Outcome.error ..
    | some sequence =>
      obtain ⟨-, rfl⟩ := checkedAdd_eq_some.mp hs
      simp only [Bool.and_eq_true, Bool.not_eq_true'] at hv
      dsimp only
      split_ifs
      · exact commit_cases _ io _ _ ⟨hv.1.1, has_eq_false.mp hv.1.2⟩
      · exact Outcome.error ..
  · exact Outcome.error ..

omit [Sha256] [EventCrypto] [Serde] [RecordJson] in
theorem storedBatch_spec : ∀ {entries stored' sequence},
    storedBatch sequence entries = some stored' → ∀ s ∈ stored', ∃ e ∈ entries, ∃ n, s = stored e n
  | [], _, _, h => by cases h; exact fun _ h => (by cases h)
  | e :: rest, _, sequence, h => by
    simp only [storedBatch, bind_eq_some_iff, map_eq_some_iff] at h
    obtain ⟨next, hnext, tail, htail, rfl⟩ := h
    intro s hs
    rcases mem_cons.mp hs with rfl | hs
    · exact ⟨e, mem_cons_self, next, rfl⟩
    · obtain ⟨e', he', n, rfl⟩ := storedBatch_spec htail s hs
      exact ⟨e', mem_cons_of_mem _ he', n, rfl⟩

theorem legs_cases (io : Io) (batch) : ∃ entries : List Entry,
    (∀ s ∈ entries, ∃ e ∈ batch.entries, ∃ n, s = stored e n) ∧
    j.Outcome (.legacy { batch with entries := entries })
      (fun k => k.installLegacyBatch { batch with entries := entries })
      (j.validateLegacyBatch { batch with entries := entries } = true)
        (j.appendLegacyBatch io batch) := by
  unfold appendLegacyBatch
  cases hs : storedBatch j.sequence batch.entries with
  | none => exact ⟨[], fun _ h => (by cases h), Outcome.error ..⟩
  | some entries =>
    refine ⟨entries, storedBatch_spec hs, ?_⟩
    dsimp only
    split_ifs with hv
    · exact commit_cases _ io _ _ (Bool.and_eq_true_iff.mp hv).1
    · exact Outcome.error ..

/-! ### The same operations -/

structure Same (j k : Journal) : Prop where
  account : j.account = k.account
  device : j.device = k.device
  entries : ∀ id, j.entries.get id = k.entries.get id
  lookups : ∀ id, j.lookups.get id = k.lookups.get id

section
omit [Sha256] [EventCrypto] [Serde] [RecordJson]

theorem Same.refl (j : Journal) : j.Same j := ⟨rfl, rfl, fun _ => rfl, fun _ => rfl⟩

theorem Same.trans {i : Journal} (h : i.Same j) (h' : j.Same k) : i.Same k :=
  ⟨h.account.trans h'.account, h.device.trans h'.device, fun id =>
    (h.entries id).trans (h'.entries id), fun id => (h.lookups id).trans (h'.lookups id)⟩

theorem Same.symm (h : j.Same k) : k.Same j :=
  ⟨h.account.symm, h.device.symm, fun id => (h.entries id).symm, fun id => (h.lookups id).symm⟩

end

section
omit [Sha256] [EventCrypto] [Serde]

theorem get_install (e id) :
    (j.install e).entries.get id = if id = e.reference.id then some e else j.entries.get id :=
  get_set ..

theorem lookups_install (e id) :
    (j.install e).lookups.get id = if id = e.reference.id then none else j.lookups.get id :=
  get_erase ..

theorem lookups_installLookup (l id) :
    (j.installLookup l).lookups.get id = if id = l.id then some l else j.lookups.get id :=
  get_set ..

theorem Same.install (h : j.Same k) (e) : (j.install e).Same (k.install e) where
  account := h.account
  device := h.device
  entries id := by rw [get_install, get_install, h.entries]
  lookups id := by rw [lookups_install, lookups_install, h.lookups]

theorem Same.installLookup (h : j.Same k) (l) : (j.installLookup l).Same (k.installLookup l) where
  account := h.account
  device := h.device
  entries := h.entries
  lookups id := by rw [lookups_installLookup, lookups_installLookup, h.lookups]

theorem Same.foldl_install : ∀ (entries : List Entry) {j k}, j.Same k →
    (entries.foldl Journal.install j).Same (entries.foldl Journal.install k)
  | [], _, _, h => h
  | e :: rest, _, _, h => Same.foldl_install rest (h.install e)

theorem foldl_install_frame : ∀ (entries : List Entry) (j : Journal),
    (entries.foldl install j).rows = j.rows ∧
      (entries.foldl install j).account = j.account ∧
      (entries.foldl install j).device = j.device
  | [], _ => ⟨rfl, rfl, rfl⟩
  | e :: entries, j => foldl_install_frame entries (j.install e)

theorem same_installLegacyBatch (j) (batch : LegacyBatch) :
    (j.installLegacyBatch batch).Same (batch.entries.foldl install j) ∧
      (j.installLegacyBatch batch).sequence = (batch.entries.foldl install j).sequence ∧
      (j.installLegacyBatch batch).rows = j.rows := by
  have hlinks : ∀ (links : List (OperationId × OperationReference)) (j : Journal),
      (links.foldl installLink j).Same j ∧ (links.foldl installLink j).sequence = j.sequence ∧
        (links.foldl installLink j).rows = j.rows := by
    intro links
    induction links with
    | nil => exact fun j => ⟨Same.refl j, rfl, rfl⟩
    | cons link links ih => exact fun j => ⟨(ih (j.installLink link)).1.trans
        ⟨rfl, rfl, fun _ => rfl, fun _ => rfl⟩, (ih (j.installLink link)).2⟩
  obtain ⟨hs, hq, hr⟩ := hlinks batch.links (batch.entries.foldl install j)
  rw [(foldl_install_frame batch.entries j).1] at hr
  unfold installLegacyBatch
  cases batch.plan with
  | none => exact ⟨hs, hq, hr⟩
  | some plan => exact ⟨⟨hs.account, hs.device, hs.entries, hs.lookups⟩, hq, hr⟩

end

variable {payload : FilePayload} {assets : Option FileAssetsReceipt}

theorem same_installPreparation (h : j.installPreparation payload assets = .ok k) :
    k.Same j ∧ k.sequence = j.sequence ∧
      k.rows = j.rows := by
  obtain ⟨id, -, h⟩ := bind_eq_ok.mp h
  obtain ⟨-, -, h⟩ := bind_eq_ok.mp h
  obtain ⟨-, -, h⟩ := bind_eq_ok.mp h
  cases h
  exact ⟨⟨rfl, rfl, fun _ => rfl, fun _ => rfl⟩, rfl, rfl⟩

/-- A write of a preparation leaves the operations, and writes at most its row. -/
theorem file_cases (io payload) (assets : Option FileAssetsReceipt) :
    (j.putFilePreparation io payload assets).2.Same j ∧
      (j.putFilePreparation io payload assets).2.sequence = j.sequence ∧ ∃ rows, j.Base rows ∧
      ((j.putFilePreparation io payload assets).2.rows = rows ∨ ∃ receipt,
        (j.putFilePreparation io payload assets).2.rows =
          rows ++ [j.row (.filePreparation payload receipt)]) := by
  have idle : j.Same j ∧ j.sequence = j.sequence ∧ ∃ rows, j.Base rows ∧ (j.rows = rows ∨ ∃ receipt,
      j.rows = rows ++ [j.row (.filePreparation payload receipt)]) :=
    ⟨Same.refl j, rfl, j.rows, .inl rfl, .inl rfl⟩
  unfold putFilePreparation
  cases j.validatePreparation payload with
  | error e => exact idle
  | ok id =>
    dsimp only
    split_ifs
    · exact idle
    · exact idle
    · generalize assets.or (j.fileAssetReceipts.get id) = receipt
      have h := commit_cases (j := j)
        (decide (j.bytes + j.rowSize (.filePreparation payload receipt) >
        maxFile) || decide (j.rows.length ≥ j.total * 2 + 32)) io (.filePreparation payload receipt)
        (fun j => j) trivial
      generalize j.commit _ io _ _ = r at h ⊢
      obtain ⟨r, m⟩ := r
      rcases h with ⟨⟨e, he⟩, rows, hb, hm⟩ | ⟨hok, -, rows, hb, hm⟩
      · cases he
        cases hm
        exact ⟨⟨rfl, rfl, fun _ => rfl, fun _ => rfl⟩, rfl, rows, hb, .inl rfl⟩
      · cases hok
        cases hm
        dsimp only
        cases hi : installPreparation _ payload receipt with
        | error e => exact ⟨⟨rfl, rfl, fun _ => rfl, fun _ => rfl⟩, rfl, rows, hb,
            .inr ⟨receipt, rfl⟩⟩
        | ok k =>
          obtain ⟨hs, hq, hr⟩ := same_installPreparation hi
          exact ⟨hs.trans ⟨rfl, rfl, fun _ => rfl, fun _ => rfl⟩, hq, rows, hb, .inr ⟨receipt, hr⟩⟩
    · exact idle

/-! ### Replaying rows -/

variable {d : PublicIdentity} {a : PubKey}

theorem replay_entry {e} (h : j.replay ⟨a, d, .entry e⟩ = .ok k) :
    k = if (j.entries.get e.reference.id).all fun old => old.sequence < e.sequence then j.install e
      else j := by
  obtain ⟨-, -, h⟩ := bind_eq_ok.mp h
  obtain ⟨-, -, h⟩ := bind_eq_ok.mp h
  exact (Except.ok.inj h).symm

theorem replay_lookup {l} (h : j.replay ⟨a, d, .lookup l⟩ = .ok k) :
    k = if ((j.entries.get l.id).all fun e => e.sequence < l.sequence) &&
        (j.lookups.get l.id).all fun old => old.sequence < l.sequence then j.installLookup l
      else j := by
  obtain ⟨-, -, h⟩ := bind_eq_ok.mp h
  obtain ⟨-, -, h⟩ := bind_eq_ok.mp h
  exact (Except.ok.inj h).symm

theorem replay_legacy {batch} (h : j.replay ⟨a, d, .legacy batch⟩ = .ok k) :
    k = j.installLegacyBatch batch := by
  obtain ⟨-, -, h⟩ := bind_eq_ok.mp h
  obtain ⟨-, -, h⟩ := bind_eq_ok.mp h
  exact (Except.ok.inj h).symm

theorem replay_file (h : j.replay ⟨a, d, .filePreparation payload assets⟩ = .ok k) :
    k.Same j ∧ k.sequence = j.sequence := by
  obtain ⟨-, -, h⟩ := bind_eq_ok.mp h
  obtain ⟨hs, hq, -⟩ := same_installPreparation h
  exact ⟨hs, hq⟩

/-- Every operation has its own id as its key, and no later sequence than the journal. -/
structure Bounded (j : Journal) : Prop where
  entries : ∀ id e, j.entries.get id = some e → e.reference.id = id ∧ e.sequence ≤ j.sequence
  lookups : ∀ id l, j.lookups.get id = some l → l.id = id ∧ l.sequence ≤ j.sequence

section
omit [Sha256] [EventCrypto] [Serde] [RecordJson]

theorem bounded_fresh (a d) : (fresh a d).Bounded :=
  ⟨fun _ _ h => (by cases h), fun _ _ h => (by cases h)⟩

theorem Bounded.of_same (h : j.Bounded) (hs : k.Same j) (hq : j.sequence ≤ k.sequence) :
    k.Bounded where
  entries id e he := by
    rw [hs.entries] at he
    exact ⟨(h.entries id e he).1, (h.entries id e he).2.trans hq⟩
  lookups id l hl := by
    rw [hs.lookups] at hl
    exact ⟨(h.lookups id l hl).1, (h.lookups id l hl).2.trans hq⟩

end

section
omit [Sha256] [EventCrypto] [Serde]

theorem Bounded.install (h : j.Bounded) (e) : (j.install e).Bounded where
  entries id e' he := by
    rw [get_install] at he
    split_ifs at he with hid
    · cases he
      exact ⟨hid.symm, le_max_right ..⟩
    · exact ⟨(h.entries id e' he).1, (h.entries id e' he).2.trans (le_max_left ..)⟩
  lookups id l hl := by
    rw [lookups_install] at hl
    split_ifs at hl
    exact ⟨(h.lookups id l hl).1, (h.lookups id l hl).2.trans (le_max_left ..)⟩

theorem Bounded.installLookup (h : j.Bounded) (l) : (j.installLookup l).Bounded where
  entries id e he := ⟨(h.entries id e he).1, (h.entries id e he).2.trans (le_max_left ..)⟩
  lookups id l' hl := by
    rw [lookups_installLookup] at hl
    split_ifs at hl with hid
    · cases hl
      exact ⟨hid.symm, le_max_right ..⟩
    · exact ⟨(h.lookups id l' hl).1, (h.lookups id l' hl).2.trans (le_max_left ..)⟩

theorem Bounded.foldl_install : ∀ (entries : List Entry) {j}, j.Bounded →
    (entries.foldl Journal.install j).Bounded
  | [], _, h => h
  | e :: rest, _, h => Bounded.foldl_install rest (h.install e)

theorem Bounded.installLegacyBatch (h : j.Bounded) (batch) : (j.installLegacyBatch batch).Bounded :=
  have ⟨hs, hq, _⟩ := same_installLegacyBatch j batch
  (Bounded.foldl_install batch.entries h).of_same hs hq.ge

end

theorem Bounded.replay (h : j.Bounded) {r} (hk : j.replay r = .ok k) : k.Bounded := by
  obtain ⟨a, d, body⟩ := r
  cases body with
  | entry e =>
    obtain rfl := replay_entry hk
    split_ifs
    · exact h.install e
    · exact h
  | lookup l =>
    obtain rfl := replay_lookup hk
    split_ifs
    · exact h.installLookup l
    · exact h
  | legacy batch =>
    obtain rfl := replay_legacy hk
    exact h.installLegacyBatch batch
  | filePreparation payload assets =>
    obtain ⟨hs, hq⟩ := replay_file hk
    exact h.of_same hs hq.ge

variable {d : PublicIdentity} {a : PubKey} {rows : List Record}

theorem replayAll_bounded (h : replayAll a d rows = .ok k) : k.Bounded :=
  foldlM_ok h (bounded_fresh a d) fun _ _ _ _ hj hk => hj.replay hk

theorem replay_scope {r} (h : j.replay r = .ok k) :
    k.account = j.account ∧ k.device = j.device := by
  obtain ⟨a, d, body⟩ := r
  cases body with
  | entry e =>
    obtain rfl := replay_entry h
    split_ifs <;> exact ⟨rfl, rfl⟩
  | lookup l =>
    obtain rfl := replay_lookup h
    split_ifs <;> exact ⟨rfl, rfl⟩
  | legacy batch =>
    obtain rfl := replay_legacy h
    have hs := (same_installLegacyBatch j batch).1
    obtain ⟨-, ha, hd⟩ := foldl_install_frame batch.entries j
    exact ⟨hs.account.trans ha, hs.device.trans hd⟩
  | filePreparation payload assets =>
    exact ⟨(replay_file h).1.account, (replay_file h).1.device⟩

theorem replayAll_scope (h : replayAll a d rows = .ok k) : k.account = a ∧ k.device = d :=
  foldlM_ok (P := fun j : Journal => j.account = a ∧ j.device = d) h ⟨rfl, rfl⟩ fun _ _ _ _ hj hk =>
    ⟨(replay_scope hk).1.trans hj.1, (replay_scope hk).2.trans hj.2⟩

theorem openRows_scope (h : openRows a d rows = .ok k) : k.account = a ∧ k.device = d := by
  unfold openRows at h
  cases hr : replayAll a d rows with
  | error e => rw [hr] at h; cases h
  | ok m =>
    rw [hr] at h
    cases h
    have hm := replayAll_scope hr
    exact hm

omit [Sha256] [EventCrypto] [Serde] [RecordJson] in
theorem Idle.scope [RecordJson] (h : j.Idle k) : k.account = j.account ∧ k.device = j.device := by
  obtain ⟨rows, -, rfl⟩ := h
  exact ⟨rfl, rfl⟩

theorem write_scope (j : Journal) (io : Io) (c) :
    (j.write io c).2.account = j.account ∧ (j.write io c).2.device = j.device := by
  cases c with
  | entry e =>
    rcases put_cases (j := j) io e with ⟨-, hidle⟩ | ⟨-, -, rows, -, heq⟩
    · exact hidle.scope
    · rw [write, heq]
      exact ⟨rfl, rfl⟩
  | lookup l =>
    rcases putLookup_cases (j := j) io l with ⟨-, hidle⟩ | ⟨-, -, rows, -, heq⟩
    · exact hidle.scope
    · rw [write, heq]
      exact ⟨rfl, rfl⟩
  | legs batch =>
    obtain ⟨entries, -, ⟨-, hidle⟩ | ⟨-, -, rows, -, heq⟩⟩ := legs_cases (j := j) io batch
    · exact hidle.scope
    · rw [write, heq]
      obtain ⟨hs, -, -⟩ := same_installLegacyBatch { j with rows := rows ++ _ }
        { batch with entries := entries }
      obtain ⟨-, ha, hd⟩ := foldl_install_frame entries { j with rows := rows ++ _ }
      exact ⟨hs.account.trans ha, hs.device.trans hd⟩
  | file payload assets =>
    exact ⟨(file_cases io payload assets).1.account, (file_cases io payload assets).1.device⟩

/-! ### One operation -/

def Change.entries : Change → List Entry
  | .entry e => [e]
  | .legs batch => batch.entries
  | _ => []

/-- An entry may follow another: the reference stays, a source stays one, and what has ended
stays. -/
structure Follows (old e : Entry) : Prop where
  reference : e.reference = old.reference
  source : old.source = true → e.source = true
  settled : old.terminal = true → e.status = old.status ∧ e.source = old.source ∧
    e.cancel = old.cancel

structure Fits (j : Journal) (e : Entry) : Prop where
  valid : e.reference.valid j.account = true
  follows : ∀ old, j.entries.get e.reference.id = some old → Follows old e
  here : e.source = true → e.reference.executor.device = j.device
  clean : e.status.phase.stopped = true → e.status.committedEvents = []

omit [RecordJson] in
theorem fits_of_validate {e} (h : j.validate e = true) : j.Fits e := by
  simp only [validate, describes, follows, stoppedClean, Bool.and_eq_true, Bool.or_eq_true,
    Bool.not_eq_true', decide_eq_true_eq, List.isEmpty_iff] at h
  obtain ⟨⟨⟨⟨-, ⟨⟨⟨⟨⟨⟨⟨⟨hv, -⟩, -⟩, -⟩, -⟩, -⟩, hhere⟩, -⟩, -⟩⟩, hf⟩, hc⟩, -⟩ := h
  refine ⟨hv, fun old hold => ?_, fun hs => ?_, fun hstop => ?_⟩
  · rw [hold] at hf
    simp only [Option.all_some, Bool.and_eq_true, Bool.or_eq_true, Bool.not_eq_true',
      OperationReference.same_eq_true, decide_eq_true_eq] at hf
    obtain ⟨⟨href, hsrc⟩, hset⟩ := hf
    refine ⟨href.symm, fun hs => ?_, fun ht => ?_⟩
    · rcases hsrc with hsrc | hsrc
      · rw [hs] at hsrc
        cases hsrc
      · exact hsrc
    · rcases hset with hset | hset
      · rw [ht] at hset
        cases hset
      · exact ⟨hset.1.1.1, hset.1.2, hset.2⟩
  · rcases hhere with hhere | hhere
    · rw [hs] at hhere
      cases hhere
    · exact hhere
  · rcases hc with hc | hc
    · rw [hstop] at hc
      cases hc
    · exact hc.1.1

omit [RecordJson] in
theorem fits_stored {e} (h : j.Fits e) (n) : j.Fits (stored e n) where
  valid := h.valid
  follows old hold :=
    ⟨(h.follows old hold).reference, (h.follows old hold).source, (h.follows old hold).settled⟩
  here := h.here
  clean := h.clean

omit [Sha256] [EventCrypto] [Serde] in
/-- Installing entries one after the other puts the last one of each id. -/
theorem get_foldl_install (id) : ∀ (entries : List Entry) (j : Journal),
    ((∀ e ∈ entries, e.reference.id ≠ id) ∧
        (entries.foldl install j).entries.get id = j.entries.get id ∧
        (entries.foldl install j).lookups.get id = j.lookups.get id) ∨
      ∃ e ∈ entries, e.reference.id = id ∧
        (entries.foldl install j).entries.get id = some e ∧
        (entries.foldl install j).lookups.get id = none
  | [], j => .inl ⟨fun _ h => (by cases h), rfl, rfl⟩
  | e :: entries, j => by
    rcases get_foldl_install id entries (j.install e) with ⟨hnot, he, hl⟩ | ⟨e', hmem, hid, he⟩
    · rw [get_install] at he
      rw [lookups_install] at hl
      by_cases hid : id = e.reference.id
      · rw [if_pos hid] at he hl
        exact .inr ⟨e, mem_cons_self, hid.symm, he, hl⟩
      · rw [if_neg hid] at he hl
        refine .inl ⟨fun e' he' => ?_, he, hl⟩
        rcases mem_cons.mp he' with rfl | he'
        · exact Ne.symm hid
        · exact hnot e' he'
    · exact .inr ⟨e', mem_cons_of_mem _ hmem, hid, he⟩

inductive Effect (j k : Journal) (c : Change) (id : OperationId) : Prop
  | unchanged (entry : k.entries.get id = j.entries.get id)
      (lookup : k.lookups.get id = j.lookups.get id)
  | put {e : Entry} {sequence : ℕ} (mem : e ∈ c.entries) (key : e.reference.id = id)
      (fits : j.Fits (stored e sequence)) (entry : k.entries.get id = some (stored e sequence))
      (lookup : k.lookups.get id = none) (legs : ∀ batch, c = .legs batch → e.source = false)
  | lookup {l : Lookup} {sequence : ℕ} (change : c = .lookup l) (key : l.id = id)
      (old : j.entries.get id = none) (entry : k.entries.get id = none)
      (lookup : k.lookups.get id = some { l with sequence := sequence })

omit [RecordJson] in
theorem Idle.effect (h : j.Idle k) (c id) : Effect j k c id := by
  obtain ⟨rows, -, rfl⟩ := h
  exact .unchanged rfl rfl

/-- **A write leaves an operation as it is, or puts what the change says of it.** -/
theorem write_effect (j) (io : Io) (c id) : Effect j (j.write io c).2 c id := by
  cases c with
  | entry e =>
    rcases put_cases (j := j) io e with ⟨-, hidle⟩ | ⟨-, hv, rows, -, heq⟩
    · exact hidle.effect _ _
    · rw [write, heq]
      by_cases hid : id = e.reference.id
      · refine .put List.mem_cons_self hid.symm
          (fits_stored (fits_of_validate hv) (j.sequence + 1)) ?_ ?_
          (fun _ h => by cases h)
        · exact (get_install ..).trans (if_pos hid)
        · exact (lookups_install ..).trans (if_pos hid)
      · exact .unchanged ((get_install ..).trans (if_neg hid))
          ((lookups_install ..).trans (if_neg hid))
  | lookup l =>
    rcases putLookup_cases (j := j) io l with ⟨-, hidle⟩ | ⟨-, ⟨-, hnone⟩, rows, -, heq⟩
    · exact hidle.effect _ _
    · rw [write, heq]
      by_cases hid : id = l.id
      · subst hid
        exact .lookup rfl rfl hnone hnone ((lookups_installLookup ..).trans (if_pos rfl))
      · exact .unchanged rfl ((lookups_installLookup ..).trans (if_neg hid))
  | legs batch =>
    obtain ⟨entries, hstored, ⟨-, hidle⟩ | ⟨-, hv, rows, -, heq⟩⟩ := legs_cases (j := j) io batch
    · exact hidle.effect _ _
    · rw [write, heq]
      obtain ⟨hs, -, -⟩ := same_installLegacyBatch { j with rows := rows ++ _ }
        { batch with entries := entries }
      rcases get_foldl_install id entries { j with rows := rows ++ _ } with ⟨-, he, hl⟩
        | ⟨s, hmem, hid, he, hl⟩
      · exact .unchanged ((hs.entries id).trans he) ((hs.lookups id).trans hl)
      · obtain ⟨e, hmem', n, rfl⟩ := hstored s hmem
        simp only [validateLegacyBatch, batchEntriesOk, Bool.and_eq_true, List.all_eq_true,
          Bool.not_eq_true'] at hv
        obtain ⟨⟨hvalid, hsource⟩, -⟩ := hv.1.1.1.2.2 _ hmem
        exact .put hmem' hid (fits_of_validate hvalid) ((hs.entries id).trans he)
          ((hs.lookups id).trans hl)
          fun _ _ => hsource
  | file payload assets =>
    have hs := (file_cases (j := j) io payload assets).1
    exact .unchanged (hs.entries id) (hs.lookups id)

/-! ### Compacted rows -/

omit [Sha256] [EventCrypto] [Serde] [RecordJson] in
/-- What is listed, or there once a value of another id is put, is what is listed with it, or
there. -/
theorem mem_or_put {ν : Type} {l : List (OperationId × ν)} {id id' x x' o}
    (hl : id' ∉ l.map Prod.fst) (ho : id = id' → o = none) :
    ((id, x) ∈ l ∨ (if id = id' then some x' else o) = some x) ↔
      ((id, x) ∈ (id', x') :: l ∨ o = some x) := by
  by_cases hid : id = id'
  · subst hid
    have hx : (id, x) ∉ l := fun h => hl (mem_map_of_mem h)
    simp [hx, ho rfl, eq_comm]
  · simp [hid]

theorem replay_entries :
    ∀ {l : List (OperationId × Entry)} {j : Journal}, (l.map Prod.fst).Nodup →
      (∀ r ∈ l, r.2.reference.id = r.1 ∧ j.entries.get r.1 = none) →
        (∀ id, j.lookups.get id = none) →
      (l.map fun r => (⟨a, d, .entry r.2⟩ : Record)).foldlM replay j = .ok k →
      (∀ id e, k.entries.get id = some e ↔ (id, e) ∈ l ∨ j.entries.get id = some e) ∧
        ∀ id, k.lookups.get id = none
  | [], j, _, _, hl, h => by
    cases h
    exact ⟨fun id e => by simp, hl⟩
  | r :: l, j, hn, hr, hl, h => by
    obtain ⟨m, hm, h⟩ := bind_eq_ok.mp h
    obtain ⟨hkey, hnone⟩ := hr r mem_cons_self
    obtain rfl := replay_entry hm
    rw [hkey, hnone, all_none, if_pos rfl] at h
    rw [map_cons, nodup_cons] at hn
    have hlater : ∀ r' ∈ l, r'.1 ≠ r.1 := fun r' hr' he => hn.1 (he ▸ mem_map_of_mem hr')
    obtain ⟨hent, hlook⟩ := replay_entries hn.2
      (fun r' hr' => ⟨(hr r' (mem_cons_of_mem _ hr')).1, by
        rw [get_install, hkey, if_neg (hlater r' hr')]
        exact (hr r' (mem_cons_of_mem _ hr')).2⟩)
      (fun id => by rw [lookups_install]; split_ifs; exacts [rfl, hl id]) h
    refine ⟨fun id e => ?_, hlook⟩
    rw [hent, get_install, hkey]
    exact mem_or_put hn.1 fun hid => hid ▸ hnone

theorem replay_lookups :
    ∀ {l : List (OperationId × Lookup)} {j : Journal}, (l.map Prod.fst).Nodup →
      (∀ r ∈ l, r.2.id = r.1 ∧ j.entries.get r.1 = none ∧ j.lookups.get r.1 = none) →
      (l.map fun r => (⟨a, d, .lookup r.2⟩ : Record)).foldlM replay j = .ok k →
      (∀ id, k.entries.get id = j.entries.get id) ∧
        ∀ id x, k.lookups.get id = some x ↔ (id, x) ∈ l ∨ j.lookups.get id = some x
  | [], j, _, _, h => by
    cases h
    exact ⟨fun _ => rfl, fun id x => by simp⟩
  | r :: l, j, hn, hr, h => by
    obtain ⟨m, hm, h⟩ := bind_eq_ok.mp h
    obtain ⟨hkey, hnone, hfresh⟩ := hr r mem_cons_self
    obtain rfl := replay_lookup hm
    rw [hkey, hnone, hfresh, all_none, all_none, Bool.and_self, if_pos rfl] at h
    rw [map_cons, nodup_cons] at hn
    have hlater : ∀ r' ∈ l, r'.1 ≠ r.1 := fun r' hr' he => hn.1 (he ▸ mem_map_of_mem hr')
    obtain ⟨hent, hlook⟩ := replay_lookups hn.2
      (fun r' hr' => by
        obtain ⟨h1, h2, h3⟩ := hr r' (mem_cons_of_mem _ hr')
        exact ⟨h1, h2, by rw [lookups_installLookup, hkey, if_neg (hlater r' hr'), h3]⟩) h
    refine ⟨hent, fun id x => ?_⟩
    rw [hlook, lookups_installLookup, hkey]
    exact mem_or_put hn.1 fun hid => hid ▸ hfresh

def Record.Plain (r : Record) : Prop :=
  match r.body with
  | .filePreparation _ _ => True
  | .legacy batch => batch.entries = []
  | _ => False

theorem replay_plain : ∀ {rows : List Record} {j : Journal}, (∀ r ∈ rows, Record.Plain r) →
    rows.foldlM replay j = .ok k → k.Same j
  | [], _, _, h => by cases h; exact Same.refl _
  | r :: rows, j, hp, h => by
    obtain ⟨m, hm, h⟩ := bind_eq_ok.mp h
    refine (replay_plain (fun r' hr' => hp r' (mem_cons_of_mem _ hr')) h).trans ?_
    have hr := hp r mem_cons_self
    obtain ⟨a, d, body⟩ := r
    cases body with
    | entry e => exact hr.elim
    | lookup l => exact hr.elim
    | legacy batch =>
      have hs := (same_installLegacyBatch j batch).1
      rw [show batch.entries = [] from hr, ← replay_legacy hm] at hs
      exact hs
    | filePreparation payload assets => exact (replay_file hm).1

theorem foldlM_append_ok {rows' i} (h : (rows ++ rows').foldlM replay i = .ok k) :
    ∃ m, rows.foldlM replay i = .ok m ∧ rows'.foldlM replay m = .ok k := by
  rw [foldlM_append] at h
  exact bind_eq_ok.mp h

/-- **The compacted rows hold the operations of the maps.** -/
theorem compactedRows_replay (hb : j.Bounded)
    (hapart : ∀ id e, j.entries.get id = some e → j.lookups.get id = none)
    (h : replayAll j.account j.device j.compactedRows = .ok k) : k.Same j := by
  have hscope := replayAll_scope h
  obtain ⟨m4, h, h5⟩ := foldlM_append_ok h
  obtain ⟨m3, h, h4⟩ := foldlM_append_ok h
  obtain ⟨m2, h, h3⟩ := foldlM_append_ok h
  obtain ⟨m1, h1, h2⟩ := foldlM_append_ok h
  have hsame : k.Same m2 := by
    refine (replay_plain ?_ h5).trans ((replay_plain ?_ h4).trans (replay_plain ?_ h3))
    · intro r hr
      obtain ⟨link, -, rfl⟩ := mem_map.mp hr
      rfl
    · intro r hr
      obtain ⟨plan, -, rfl⟩ := mem_map.mp hr
      rfl
    · intro r hr
      obtain ⟨file, -, rfl⟩ := mem_map.mp hr
      trivial
  obtain ⟨hent, hnone⟩ := replay_entries (nodup_byKey j.entries)
    (fun r hr => ⟨(hb.entries _ _ (mem_byKey.mp hr)).1, rfl⟩) (fun _ => rfl) h1
  have hent' : ∀ id, m1.entries.get id = j.entries.get id := fun id => ext fun e => by
    rw [hent, mem_byKey]
    exact ⟨fun h => h.elim (fun h => h) (fun h => (by cases h)), .inl⟩
  obtain ⟨hent2, hlook⟩ := replay_lookups (nodup_byKey j.lookups)
    (fun r hr => by
      have hr' := mem_byKey.mp hr
      refine ⟨(hb.lookups _ _ hr').1, ?_, hnone _⟩
      rw [hent']
      cases he : j.entries.get r.1 with
      | none => rfl
      | some e => rw [hapart _ _ he] at hr'; cases hr') h2
  have hlook' : ∀ id, m2.lookups.get id = j.lookups.get id := fun id => ext fun x => by
    rw [hlook, mem_byKey, hnone]
    exact ⟨fun h => h.elim (fun h => h) (fun h => (by cases h)), .inl⟩
  exact ⟨hscope.1, hscope.2, fun id => (hsame.entries id).trans ((hent2 id).trans (hent' id)),
    fun id => (hsame.lookups id).trans (hlook' id)⟩

/-! ### The file and the maps -/

/-- The maps hold each operation once, under its id, and the rows of the file replay to them. -/
structure Sound (j : Journal) : Prop extends j.Bounded where
  apart : ∀ id e, j.entries.get id = some e → j.lookups.get id = none
  replays : ∀ k, replayAll j.account j.device j.rows = .ok k → k.Same j

theorem sound_fresh (a) (d : PublicIdentity) : (fresh a d).Sound where
  toBounded := bounded_fresh a d
  apart _ _ h := by cases h
  replays k h := by
    cases h
    exact Same.refl _

theorem Sound.base (h : j.Sound) (hb : j.Base rows)
    (hk : replayAll j.account j.device rows = .ok k) :
    k.Same j := by
  rcases hb with rfl | rfl
  · exact h.replays k hk
  · exact compactedRows_replay h.toBounded h.apart hk

theorem Sound.idle (h : j.Sound) (hk : j.Idle k) : k.Sound := by
  obtain ⟨rows, hb, rfl⟩ := hk
  exact ⟨⟨h.entries, h.lookups⟩, h.apart, fun m hm =>
    have hs := h.base hb hm
    ⟨hs.account, hs.device, hs.entries, hs.lookups⟩⟩

/-- A journal whose file got a row is sound, if replaying the row does what was done to the maps. -/
theorem Sound.snoc (h : j.Sound) {rows} (hb : j.Base rows) {r} (hbound : k.Bounded)
    (hapart : ∀ id e, k.entries.get id = some e → k.lookups.get id = none)
    (hrows : k.rows = rows ++ [r]) (hacc : k.account = j.account) (hdev : k.device = j.device)
    (hreplay : ∀ m k' : Journal, m.Same j → m.replay r = .ok k' → k'.Same k) : k.Sound where
  toBounded := hbound
  apart := hapart
  replays k' hk := by
    rw [hrows, hacc, hdev] at hk
    obtain ⟨m, hm, hr⟩ := foldlM_append_ok hk
    obtain ⟨k'', hk'', hr⟩ := bind_eq_ok.mp hr
    cases hr
    exact hreplay m k' (h.base hb hm) hk''

theorem Sound.install (h : j.Sound) {rows} (hb : j.Base rows) {e : Entry}
    (hseq : j.sequence < e.sequence) :
    Sound (install { j with rows := rows ++ [j.row (.entry e)] } e) := by
  have hn : Same { j with rows := rows ++ [j.row (.entry e)] } j :=
    ⟨rfl, rfl, fun _ => rfl, fun _ => rfl⟩
  refine h.snoc hb ((h.toBounded.of_same hn le_rfl).install e) (fun id e' he => ?_) rfl rfl rfl
    (fun m k' hm hr => ?_)
  · rw [get_install] at he
    rw [lookups_install]
    split_ifs at he ⊢ with hid
    · rfl
    · exact h.apart id e' he
  · have hlater : ((m.entries.get e.reference.id).all fun old => old.sequence < e.sequence) =
      true := by
      rw [hm.entries]
      cases hold : j.entries.get e.reference.id with
      | none => rfl
      | some old =>
        have := (h.entries _ _ hold).2
        exact decide_eq_true (by omega)
    obtain rfl := replay_entry hr
    rw [if_pos hlater]
    exact (hm.trans hn.symm).install e

theorem Sound.installLookup (h : j.Sound) {rows} (hb : j.Base rows) {l : Lookup}
    (hseq : j.sequence < l.sequence) (hnone : j.entries.get l.id = none) :
    Sound (installLookup { j with rows := rows ++ [j.row (.lookup l)] } l) := by
  have hn : Same { j with rows := rows ++ [j.row (.lookup l)] } j :=
    ⟨rfl, rfl, fun _ => rfl, fun _ => rfl⟩
  refine h.snoc hb ((h.toBounded.of_same hn le_rfl).installLookup l) (fun id e he => ?_) rfl rfl rfl
    (fun m k' hm hr => ?_)
  · rw [lookups_installLookup]
    split_ifs with hid
    · have he' : j.entries.get id = some e := he
      rw [hid, hnone] at he'
      cases he'
    · exact h.apart id e he
  · have hlater : ((m.lookups.get l.id).all fun old => old.sequence < l.sequence) = true := by
      rw [hm.lookups]
      cases hold : j.lookups.get l.id with
      | none => rfl
      | some old =>
        have := (h.lookups _ _ hold).2
        exact decide_eq_true (by omega)
    obtain rfl := replay_lookup hr
    rw [hm.entries, hnone, hlater, all_none, Bool.and_self, if_pos rfl]
    exact (hm.trans hn.symm).installLookup l

omit [Sha256] [EventCrypto] [Serde] in
theorem apart_foldl_install : ∀ (entries : List Entry) {j},
    (∀ id e, j.entries.get id = some e → j.lookups.get id = none) →
    ∀ id e, (entries.foldl install j).entries.get id = some e →
      (entries.foldl install j).lookups.get id = none
  | [], _, h => h
  | e :: rest, j, h => apart_foldl_install rest fun id e' he => by
    rw [get_install] at he
    rw [lookups_install]
    split_ifs at he ⊢
    · rfl
    · exact h id e' he

theorem Sound.installLegacyBatch (h : j.Sound) {rows : List Record} (hb : j.Base rows) (batch) :
    Sound (Journal.installLegacyBatch { j with
      rows := rows ++ [j.row (.legacy batch)] } batch) := by
  have hn : Same { j with rows := rows ++ [j.row (.legacy batch)] } j :=
    ⟨rfl, rfl, fun _ => rfl, fun _ => rfl⟩
  obtain ⟨hs, -, hr⟩ :=
    same_installLegacyBatch { j with rows := rows ++ [j.row (.legacy batch)] } batch
  obtain ⟨-, ha, hd⟩ := foldl_install_frame batch.entries
    { j with rows := rows ++ [j.row (.legacy batch)] }
  refine h.snoc hb ((h.toBounded.of_same hn le_rfl).installLegacyBatch batch) (fun id e he => ?_) hr
    (hs.account.trans ha) (hs.device.trans hd) (fun m k' hm hr' => ?_)
  · rw [hs.entries] at he
    rw [hs.lookups]
    refine apart_foldl_install batch.entries (fun id e he => ?_) id e he
    exact h.apart id e he
  · obtain rfl := replay_legacy hr'
    have hfold := Same.foldl_install batch.entries (hm.trans hn.symm)
    exact (same_installLegacyBatch m batch).1.trans (hfold.trans hs.symm)

/-- **Every write keeps a journal sound.** -/
theorem Sound.write (h : j.Sound) (io c) : (j.write io c).2.Sound := by
  cases c with
  | entry e =>
    rcases put_cases (j := j) io e with ⟨-, hidle⟩ | ⟨-, -, rows, hb, heq⟩
    · exact h.idle hidle
    · rw [Journal.write, heq]
      exact h.install hb (Nat.lt_succ_self _)
  | lookup l =>
    rcases putLookup_cases (j := j) io l with ⟨-, hidle⟩ | ⟨-, ⟨-, hnone⟩, rows, hb, heq⟩
    · exact h.idle hidle
    · rw [Journal.write, heq]
      exact h.installLookup (l := { l with sequence := j.sequence + 1 }) hb
        (Nat.lt_succ_self _) hnone
  | legs batch =>
    obtain ⟨entries, -, ⟨-, hidle⟩ | ⟨-, -, rows, hb, heq⟩⟩ := legs_cases (j := j) io batch
    · exact h.idle hidle
    · rw [Journal.write, heq]
      exact h.installLegacyBatch hb _
  | file payload assets =>
    obtain ⟨hs, hq, rows, hb, hrows⟩ := file_cases (j := j) io payload assets
    have hbound := h.toBounded.of_same hs hq.ge
    have hapart : ∀ id e, (j.putFilePreparation io payload assets).2.entries.get id = some e →
        (j.putFilePreparation io payload assets).2.lookups.get id = none := by
      intro id e he
      rw [hs.entries] at he
      rw [hs.lookups]
      exact h.apart id e he
    rcases hrows with hrows | ⟨receipt, hrows⟩
    · refine ⟨hbound, hapart, fun k hk => ?_⟩
      rw [Journal.write, hrows, hs.account, hs.device] at hk
      exact (h.base hb hk).trans hs.symm
    · exact h.snoc hb hbound hapart hrows hs.account hs.device fun m k' hm hr =>
        (replay_file hr).1.trans (hm.trans hs.symm)

/-- **A journal that opens again holds the same operations.** -/
theorem Sound.openRows (h : j.Sound) (hk : openRows j.account j.device j.rows = .ok k) :
    k.Sound ∧ k.Same j := by
  unfold Journal.openRows at hk
  cases hr : replayAll j.account j.device j.rows with
  | error e => rw [hr] at hk; cases hk
  | ok m =>
    rw [hr] at hk
    cases hk
    have hs := h.replays m hr
    have hs' : Same { m with rows := j.rows } j := ⟨hs.account, hs.device, hs.entries, hs.lookups⟩
    refine ⟨⟨(replayAll_bounded hr).of_same ⟨rfl, rfl, fun _ => rfl, fun _ => rfl⟩ le_rfl,
      fun id e he => ?_, fun k' hk' => ?_⟩, hs'⟩
    · rw [hs'.entries] at he
      rw [hs'.lookups]
      exact h.apart id e he
    · rw [hs'.account, hs'.device] at hk'
      exact (h.replays k' hk').trans hs'.symm

end MeshTalk.AccountGroup.Journal
