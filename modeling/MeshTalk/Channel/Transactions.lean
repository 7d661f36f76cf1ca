import MeshTalk.Channel.Reception

/-! # What the transactions of a receive change

One lemma for each transaction of a device that receives: what it checked when it succeeds, and what
the tables are after it. Everything else about them follows from these. -/

namespace MeshTalk.Channel

open Lib Ratchet Table

namespace ReceiverTables

variable {Secret Key : Type} {C : RatchetCrypto Secret Key (List UInt8)}
  {db db' : ReceiverTables Key}
  {chain : ChainId}

/-- The row of a chain that may have become able to open more, after a wake-up. -/
def woken (revision position : ℕ) (row : Option RetryChain) : RetryChain :=
  (row.map fun row => ⟨max row.revision revision, max row.nextN position⟩).getD ⟨revision, position⟩

theorem get_retryChains_wakeChainOn (revision position x) :
    (db.wakeChainOn chain revision position).retryChains.get x =
      if x.1 = chain ∧ isReceived x.2 = true then
        some (woken revision position (db.retryChains.get x))
      else db.retryChains.get x := by
  obtain ⟨κ, kind⟩ := x
  show ((db.retryChains.upsert (chain, .message) _ _).upsert (chain, .fileManifest) _ _).get
    (κ, kind) = _
  rw [get_upsert, get_upsert, get_upsert]
  by_cases hκ : κ = chain
  · subst hκ
    by_cases hf : kind = .fileManifest
    · subst hf
      simp [isReceived, woken]
    · by_cases hm : kind = .message
      · subst hm
        simp [isReceived, woken]
      · simp [isReceived, hf, hm]
  · simp [hκ]

/-- How a distribution changes the row of its chain. -/
inductive Taking (d : SenderKeyDistribution Key) (refresh : Bool) :
    Option (ReceiverRow Key) → ReceiverRow Key → Prop
  | installed {cp} (hcp : initialReceiverCheckpoint d = .ok cp) :
      Taking d refresh none ⟨0, cp, 0, d.n⟩
  | kept {row : ReceiverRow Key}
      (h : refresh = true → refreshedReceiverCheckpoint row.checkpoint d = .ok row.checkpoint) :
      Taking d refresh (some row) row
  | jumped {row : ReceiverRow Key} {cp d'} (hr : refresh = true)
      (hcp : refreshedReceiverCheckpoint row.checkpoint d = .ok cp)
        (hd : checkpointDistribution cp = .ok d') :
      Taking d refresh (some row) ⟨row.revision + 1, cp, row.keyRevision + 1, d'.n⟩

/-- What a distribution changes: the row of its chain, and it wakes the chain up if that is new or
was refreshed. -/
structure Distributed (db : ReceiverTables Key) (chain : ChainId) (d : SenderKeyDistribution Key)
    (refresh : Bool) (row : ReceiverRow Key) (db' : ReceiverTables Key) : Prop where
  taking : Taking d refresh (db.receivers.get chain) row
  rows : ∀ κ, db'.receivers.get κ = if κ = chain then some row else db.receivers.get κ
  retry : (db.receivers.get chain = some row ∧ db'.retryChains = db.retryChains) ∨
    ∃ d', checkpointDistribution row.checkpoint = .ok d' ∧
      db'.retryChains = (db.wakeChainOn chain row.keyRevision d'.n.toNat).retryChains
  rest : db' = { db with receivers := db'.receivers, retryChains := db'.retryChains }

theorem installDistributionOn_spec {d} (refresh) (h : db.installDistributionOn chain d = .ok db')
    (hr : refresh = true → db.receivers.get chain = none) :
    ∃ row, Distributed db chain d refresh row db' := by
  unfold installDistributionOn at h
  obtain ⟨cp, hcp, h⟩ := bind_eq_ok.mp h
  replace hcp := mapError_eq_ok hcp
  cases hrow : db.receivers.get chain with
  | none =>
    obtain ⟨receivers, hins, -⟩ := insertNew_of_get (v := ⟨0, cp, 0, d.n⟩) hrow
    rw [hins] at h
    cases h
    obtain ⟨cp', hcp', hholds⟩ := holds_initial d
    obtain rfl := Except.ok.inj (hcp.symm.trans hcp')
    refine ⟨⟨0, cp, 0, d.n⟩, hrow ▸ .installed hcp, get_insertNew hins,
      .inr ⟨_, hholds.distribution, rfl⟩, rfl⟩
  | some row =>
    rw [insertNew_of_some hrow] at h
    cases h
    refine ⟨row, hrow ▸ .kept fun hrefresh => ?_, fun κ => ?_, .inl ⟨hrow, rfl⟩, rfl⟩
    · rw [hr hrefresh] at hrow
      cases hrow
    · split_ifs with hκ
      · rw [hκ, hrow]
      · rfl

variable [DecidableEq Key]

theorem refreshRow_cases {row row' : ReceiverRow Key} {cp n} (h : refreshRow row cp n = .ok row') :
    (cp = row.checkpoint ∧ row' = row) ∨
      row' = ⟨row.revision + 1, cp, row.keyRevision + 1, n⟩ := by
  unfold refreshRow at h
  split_ifs at h with hsame
  · exact .inl ⟨hsame, (Except.ok.inj h).symm⟩
  · exact .inr (Except.ok.inj h).symm

/-- **Taking a distribution in.** -/
theorem distributeOn_spec {channel d} (h : db.distributeOn channel d = .ok db') :
    ∃ row, Distributed db ⟨channel, d.author, d.epoch⟩ d.distribution d.refresh row db' := by
  unfold distributeOn at h
  split_ifs at h with hrefresh
  · unfold refreshDistributionOn at h
    cases hrow : db.receivers.get ⟨channel, d.author, d.epoch⟩ with
    | none =>
      rw [hrow] at h
      exact installDistributionOn_spec _ h fun _ => hrow
    | some row =>
      rw [hrow] at h
      obtain ⟨cp, hcp, h⟩ := bind_eq_ok.mp h
      obtain ⟨d', hd', h⟩ := bind_eq_ok.mp h
      obtain ⟨row', hrow', h⟩ := bind_eq_ok.mp h
      replace hcp := mapError_eq_ok hcp
      replace hd' := mapError_eq_ok hd'
      cases h
      have hcheck : row'.checkpoint = cp := by
        rcases refreshRow_cases hrow' with ⟨hsame, rfl⟩ | rfl
        · exact hsame.symm
        · rfl
      refine ⟨row', ?_, fun κ => ?_, .inr ⟨d', by rw [hcheck]; exact hd', rfl⟩, rfl⟩
      · rw [hrow]
        rcases refreshRow_cases hrow' with ⟨hsame, rfl⟩ | rfl
        · exact .kept fun _ => by rw [hcp, hsame]
        · exact .jumped hrefresh hcp hd'
      · show (db.receivers.modify _ _).get κ = _
        rw [get_modify]
        split_ifs with hκ
        · rw [hκ, hrow]
          rfl
        · rfl
  · exact installDistributionOn_spec _ h fun hr => absurd hr hrefresh

structure Projected [Sha256] (db : ReceiverTables Key) (e : Event) (job : JobId) (rank : ℕ)
    (processed receive : Bool) (db' : ReceiverTables Key) : Prop where
  new : db.authority.get (job, e.conversationId, e.id) = none
  authority : ∀ k, db'.authority.get k =
    if k = (job, e.conversationId, e.id) then some receive else db.authority.get k
  done : ∀ k, db.processed.has k = true → db'.processed.has k = true
  pending : db'.pending = if isPending e.kind && !processed then
    (db.queueOn e job rank receive).pending else db.pending
  rest : db' = { db with
    processed := db'.processed, authority := db'.authority, work :=
      db'.work, pending := db'.pending }

section Transactions

variable [Sha256] {owner : EventOwner} {e : Event} {job : JobId} {revision rank : ℕ}
  {distributions : List (ReceiveDistribution Key)} {processed receive : Bool}

/-- **Projecting an event.** -/
theorem projectOn_spec
    (h : db.projectOn owner e job revision rank distributions processed receive = .ok db') :
    db.source.get e.conversationId = some (job, revision) ∧ ∃ mid,
      distributions.foldlM (fun db d => db.distributeOn e.conversationId d) db = .ok mid ∧
      Projected mid e job rank processed receive db' := by
  unfold projectOn at h
  obtain ⟨-, -, h⟩ := bind_eq_ok.mp h
  obtain ⟨hsource, h⟩ := ensure_bind_eq_ok.mp h
  obtain ⟨-, -, h⟩ := bind_eq_ok.mp h
  obtain ⟨mid, hmid, h⟩ := bind_eq_ok.mp h
  obtain ⟨authority, hauth, h⟩ := bind_eq_ok.mp h
  have hauth := need_eq_ok.mp hauth
  refine ⟨hsource, mid, hmid, ?_⟩
  have hdone : ∀ k, mid.processed.has k = true → (if !processed && bringsKeys e.kind &&
      !distributions.isEmpty then mid.processed.insertOrIgnore (e.conversationId, e.id) 2
      else mid.processed).has k = true := by
    intro k hk
    split_ifs
    · rw [has_insertOrIgnore, hk, Bool.or_true]
    · exact hk
  have hnew := (insertNew_eq_some hauth).1
  by_cases hq : (isPending e.kind && !processed) = true
  · dsimp only at h
    rw [if_pos hq] at h
    cases h
    exact ⟨hnew, get_insertNew hauth, hdone, by rw [if_pos hq]; rfl, rfl⟩
  · dsimp only at h
    rw [if_neg hq] at h
    cases h
    exact ⟨hnew, get_insertNew hauth, hdone, by rw [if_neg hq], rfl⟩

/-- What a message is opened on: what the one before it on the chain leaves, or the checkpoint. -/
inductive Basis (row : ReceiverRow Key) : Option (PreparedChannelReceive Key) →
    ℕ × ReceiverCheckpoint Key → Prop
  | stored : Basis row none (row.revision, row.checkpoint)
  | following {q : PreparedChannelReceive Key} (hrevision : q.revision = row.revision) :
      Basis row (some q) (row.revision + 1, q.candidate.checkpoint)

variable {sourceRevision : ℕ} {preceding : Option (PreparedChannelReceive Key)}
  {basis : ℕ × ReceiverCheckpoint Key}

omit [DecidableEq Key] [Sha256] in
theorem receiveBasis_spec {row}
    (h : receiveBasis owner e job sourceRevision row preceding = .ok basis) :
    Basis row preceding basis := by
  unfold receiveBasis at h
  cases preceding with
  | none =>
    cases h
    exact .stored
  | some q =>
    obtain ⟨hq, h⟩ := ensure_bind_eq_ok.mp h
    obtain ⟨revision, hrev, h⟩ := bind_eq_ok.mp h
    cases h
    obtain ⟨-, rfl⟩ := checkedAdd_eq_some.mp (need_eq_ok.mp hrev)
    exact .following hq.2.2.2.2

variable [EventCrypto] [BincodeRead MsgHeader]

structure MayReceive (db : ReceiverTables Key) (owner : EventOwner) (e : Event) (job : JobId)
    (sourceRevision : ℕ) : Prop where
  kind : isReceived e.kind = true
  unprocessed : db.processedOn e.conversationId e.id = false
  current : ∃ row, db.current.get e.conversationId = some row ∧ row.ownerAccount = owner.account
  authority : db.authority.get (job, e.conversationId, e.id) = some true
  source : db.source.get e.conversationId = some (job, sourceRevision)

/-- How the first transaction of a receive ends. -/
inductive Prepares (C : RatchetCrypto Secret Key (List UInt8)) (db : ReceiverTables Key)
    (owner : EventOwner) (e : Event) (preceding : Option (PreparedChannelReceive Key)) :
    Preparation Key → Prop
  | ignored : Prepares C db owner e preceding .ignored
  | unreadable {job : JobId} {sourceRevision : ℕ} (hmay : MayReceive db owner e job sourceRevision)
      (hepoch : senderMessageEpoch e.userId e.ciphertext = none) :
      Prepares C db owner e preceding (.waiting ⟨e, none, -1, job, sourceRevision, none⟩)
  | keyless {job : JobId} {sourceRevision epoch : ℕ}
      (hmay : MayReceive db owner e job sourceRevision)
      (hepoch : senderMessageEpoch e.userId e.ciphertext = some epoch)
      (hrow : db.receivers.get ⟨e.conversationId, e.userId, epoch⟩ = none) :
      Prepares C db owner e preceding (.waiting ⟨e, some epoch, -1, job, sourceRevision, none⟩)
  | tried {job : JobId} {sourceRevision epoch : ℕ} {row : ReceiverRow Key}
      {basis : ℕ × ReceiverCheckpoint Key} {r : Preparation Key}
      (hmay : MayReceive db owner e job sourceRevision)
      (hepoch : senderMessageEpoch e.userId e.ciphertext = some epoch)
      (hrow : db.receivers.get ⟨e.conversationId, e.userId, epoch⟩ = some row)
      (hbasis : Basis row (preceding.filter (onChain e epoch)) basis)
      (hopen : openOn C owner e job sourceRevision epoch row.keyRevision basis = .ok r) :
      Prepares C db owner e preceding r

omit [DecidableEq Key] [Sha256] [EventCrypto] [BincodeRead MsgHeader] in
theorem receiveAuthority_eq_some (h : db.receiveAuthority owner e = some (job, sourceRevision)) :
    (∃ row, db.current.get e.conversationId = some row ∧ row.ownerAccount = owner.account) ∧
      db.authority.get (job, e.conversationId, e.id) = some true := by
  obtain ⟨row, hrow, heq⟩ := Option.map_eq_some_iff.mp h
  obtain ⟨hcur, hrow⟩ := Option.filter_eq_some_iff.mp hrow
  obtain ⟨rfl, -⟩ := Prod.mk.inj heq
  obtain ⟨hacc, hauth⟩ := Bool.and_eq_true_iff.mp hrow
  exact ⟨⟨row, hcur, by simpa using hacc⟩, by simpa using hauth⟩

omit [DecidableEq Key] in
/-- **The first transaction of a receive.** -/
theorem prepareReceive_spec {r} (h : db.prepareReceive C owner e preceding = .ok r) :
    Prepares C db owner e preceding r := by
  unfold prepareReceive at h
  obtain ⟨-, -, h⟩ := bind_eq_ok.mp h
  obtain ⟨-, -, h⟩ := bind_eq_ok.mp h
  split_ifs at h with hmay
  · obtain ⟨hkind, hunprocessed⟩ := Bool.and_eq_true_iff.mp hmay
    have hunprocessed : db.processedOn e.conversationId e.id = false := by simpa using hunprocessed
    cases hauth : db.receiveAuthority owner e with
    | none =>
      rw [hauth] at h
      cases h
      exact .ignored
    | some source =>
      obtain ⟨job, sourceRevision⟩ := source
      rw [hauth] at h
      obtain ⟨hsource, h⟩ := ensure_bind_eq_ok.mp h
      have hmay : MayReceive db owner e job sourceRevision :=
        ⟨hkind, hunprocessed, (receiveAuthority_eq_some hauth).1,
          (receiveAuthority_eq_some hauth).2, hsource⟩
      unfold prepareFrom at h
      cases hepoch : senderMessageEpoch e.userId e.ciphertext with
      | none =>
        rw [hepoch] at h
        cases h
        exact .unreadable hmay hepoch
      | some epoch =>
        rw [hepoch] at h
        dsimp only at h
        cases hrow : db.receivers.get ⟨e.conversationId, e.userId, epoch⟩ with
        | none =>
          rw [hrow] at h
          cases h
          exact .keyless hmay hepoch hrow
        | some row =>
          rw [hrow] at h
          obtain ⟨basis, hbasis, h⟩ := bind_eq_ok.mp h
          exact .tried hmay hepoch hrow (receiveBasis_spec hbasis) h
  · cases h
    exact .ignored

structure Installs (db : ReceiverTables Key) (p : PreparedChannelReceive Key)
    (row : ReceiverRow Key)
    (db' : ReceiverTables Key) : Prop where
  unprocessed : db.processedOn p.channel p.event = false
  stored : db.receivers.get p.chain = some row
  current : row.revision = p.revision
  rows : ∀ κ, db'.receivers.get κ = if κ = p.chain then
    some ⟨row.revision + 1, p.candidate.checkpoint, row.keyRevision, p.candidate.nextPosition⟩
    else db.receivers.get κ
  retry : db'.retryChains =
    (db.wakeChainOn p.chain p.keyRevision p.candidate.nextPosition.toNat).retryChains
  done : ∀ k, db'.processed.has k = (decide (k = (p.channel, p.event)) || db.processed.has k)
  pending : db'.pending = db.pending.erase (p.channel, p.event)
  rest : db' = { db with receivers := db'.receivers, retryChains := db'.retryChains,
                         processed := db'.processed, pending := db'.pending }

variable {p : PreparedChannelReceive Key}

omit [DecidableEq Key] [Sha256] [EventCrypto] [BincodeRead MsgHeader] in
/-- **The second transaction of a receive.** -/
theorem commitReception_spec {transcript installed}
    (h : db.commitReception owner p transcript = .ok (installed, db')) :
    if installed then ∃ row, Installs db p row db' else db' = db := by
  unfold commitReception at h
  obtain ⟨-, -, h⟩ := bind_eq_ok.mp h
  obtain ⟨⟨done, mid⟩, hmid, h⟩ := bind_eq_ok.mp h
  obtain ⟨-, -, h⟩ := bind_eq_ok.mp h
  cases h
  unfold installReceiveOn at hmid
  obtain ⟨-, -, hmid⟩ := bind_eq_ok.mp hmid
  split_ifs at hmid with hdone
  · cases hmid
    rfl
  · obtain ⟨-, -, hmid⟩ := bind_eq_ok.mp hmid
    obtain ⟨row, hrow, hmid⟩ := bind_eq_ok.mp hmid
    cases hmid
    obtain ⟨hrow, hcur⟩ := Option.filter_eq_some_iff.mp (need_eq_ok.mp hrow)
    have hcur : row.revision = p.revision := by simpa using (Bool.and_eq_true_iff.mp hcur).1
    refine ⟨row, by simpa using hdone, hrow, hcur, fun κ => ?_, rfl, fun k => ?_, rfl, rfl⟩
    · show (db.receivers.modify p.chain _).get κ = _
      rw [get_modify]
      split_ifs with hκ
      · rw [hκ, hrow]
        rfl
      · rfl
    · exact has_set _ _ _ k

omit [DecidableEq Key] [EventCrypto] in
theorem openOn_prepared {epoch keyRevision}
    (h : openOn C owner e job sourceRevision epoch keyRevision basis = .ok (.prepared p)) :
    prepareCheckpointMessage C e.userId basis.2 e.ciphertext = .ok p.candidate ∧
      p = ⟨e.conversationId, e.id, e.wallClock, e.kind, basis.1, keyRevision, job, sourceRevision,
        owner, p.candidate⟩ := by
  unfold openOn at h
  split at h <;> rename_i hopen
  · injection h with h
    injection h with h
    subst h
    exact ⟨hopen, rfl⟩
  · injection h with h
    injection h
  · injection h with h
    injection h
  · injection h

omit [DecidableEq Key] [EventCrypto] in
theorem openOn_waiting {epoch keyRevision a}
    (h : openOn C owner e job sourceRevision epoch keyRevision basis = .ok (.waiting a)) :
    (prepareCheckpointMessage C e.userId basis.2 e.ciphertext = .error .rejected ∧
      a = ⟨e, some epoch, keyRevision, job, sourceRevision, none⟩) ∨
    ∃ position, prepareCheckpointMessage C e.userId basis.2 e.ciphertext = .error (.gap position) ∧
      a = ⟨e, some epoch, keyRevision, job, sourceRevision, some position⟩ := by
  unfold openOn at h
  split at h <;> rename_i hopen
  · injection h with h
    injection h
  · injection h with h
    injection h with h
    exact .inl ⟨hopen, h.symm⟩
  · injection h with h
    injection h with h
    exact .inr ⟨_, hopen, h.symm⟩
  · injection h

omit [DecidableEq Key] [Sha256] [EventCrypto] [BincodeRead MsgHeader] in
/-- **Noting an attempt.** -/
theorem noteAttempt_spec {a} (h : db.noteAttempt owner a = .ok db') :
    (a.epoch = none ∧ db' = { db with
      processed := db.processed.insertOrIgnore (a.event.conversationId, a.event.id) 3
      pending := db.pending.erase (a.event.conversationId, a.event.id) }) ∨
    ∃ epoch, a.epoch = some epoch ∧ db' = { db with
      pending := db.pending.modify (a.event.conversationId, a.event.id) fun row =>
        row.noted a epoch } := by
  unfold noteAttempt at h
  obtain ⟨-, -, h⟩ := bind_eq_ok.mp h
  obtain ⟨-, -, h⟩ := bind_eq_ok.mp h
  cases hepoch : a.epoch with
  | none =>
    rw [hepoch] at h
    exact .inl ⟨rfl, (Except.ok.inj h).symm⟩
  | some epoch =>
    rw [hepoch] at h
    exact .inr ⟨epoch, rfl, (Except.ok.inj h).symm⟩

end Transactions

theorem readPage_ne_nil : ∀ {l bytes result ids},
    readPage l bytes result = .ok ids → result ≠ [] → ids ≠ []
  | [], _, _, _, h, hne => Except.ok.inj h ▸ hne
  | (id, storedBytes) :: l, bytes, result, ids, h, hne => by
    unfold readPage at h
    split at h
    · cases h
    · split_ifs at h
      · exact readPage_ne_nil h (by simp)
      · exact Except.ok.inj h ▸ hne

theorem eq_nil_of_readPage {l bytes} (h : readPage l bytes [] = .ok []) : l = [] := by
  cases l with
  | nil => rfl
  | cons x l =>
    unfold readPage at h
    split at h
    · cases h
    · split_ifs at h with hfits hnil
      · exact absurd rfl (readPage_ne_nil h (by simp))
      · exact absurd rfl hnil

omit [DecidableEq Key] in
theorem not_of_readPage {α : Type} [LinearOrder α] {f : (ConversationId × EventId) × PendingRow → α}
    {q} (h : readPage (db.listed (db.pending.listBy f q)) 0 [] = .ok []) {k row x}
    (hrow : db.pending.get k = some row) (hx : db.retained.get k.2 = some x) :
    q (k, row) = false := by
  by_contra hq
  have hmem : (k, row) ∈ db.pending.listBy f q :=
    mem_listBy.mpr ⟨get_eq_some.mp hrow, by simpa using hq⟩
  have hnil : (db.pending.listBy f q).filterMap (fun r =>
      (db.retained.get r.1.2).map fun e => (r.1.2, e.2)) = [] := by
    have := eq_nil_of_readPage h
    unfold listed at this
    simpa using this
  have hnone := List.filterMap_eq_nil_iff.mp hnil (k, row) hmem
  rw [hx] at hnone
  cases hnone

/-- How a selection that has something ends. -/
inductive Found (db : ReceiverTables Key) (channel : ConversationId) (kind : EventKind)
    (excluded : Option EventId) : PendingChannelPage → ReceiverTables Key → Prop
  /-- Events that were not tried yet. -/
  | fresh {t ids} : Found db channel kind excluded ⟨ids, true⟩ { db with schedule := t }
  /-- Events of a chain that may have become able to open more. -/
  | retried {t ids} {κ : ChainId} {row} (hκ : κ.channel = channel)
      (hrow : db.retryChains.get (κ, kind) = some row)
      (hids : db.retryIds κ kind excluded row = .ok ids) :
      Found db channel kind excluded ⟨ids, true⟩ { db with
        schedule := t
        retryChains := if ids = [] then db.retryChains.erase (κ, kind) else db.retryChains }

/-- Nothing was not tried yet, and no chain may have become able to open more. -/
def NothingFound (db : ReceiverTables Key) (channel : ConversationId) (kind : EventKind)
    (excluded : Option EventId) : Prop :=
  db.freshPage channel kind excluded = .ok [] ∧
    ∀ κ : ChainId, κ.channel = channel → db.retryChains.get (κ, kind) = none

inductive Selected (db : ReceiverTables Key) (owner : EventOwner) (channel : ConversationId)
    (kind : EventKind) (excluded : Option EventId) : PendingChannelPage → ReceiverTables Key → Prop
  /-- The channel has no view of the owner's. -/
  | unseen (h : ∀ row, db.current.get channel = some row → row.ownerAccount ≠ owner.account) :
      Selected db owner channel kind excluded ⟨[], false⟩ db
  | nothing {t} (h : NothingFound db channel kind excluded) :
      Selected db owner channel kind excluded ⟨[], false⟩ { db with schedule := t }
  | found {page db'} (h : Found db channel kind excluded page db') :
      Selected db owner channel kind excluded page db'

section Selections

variable {owner : EventOwner} {channel : ConversationId} {kind : EventKind}
  {excluded : Option EventId}

section
omit [DecidableEq Key]

variable {after : Option (String × ℕ)}

theorem nextRetry_eq_none (h : db.nextRetry channel kind after = none) {κ}
    (hκ : κ.channel = channel) :
    db.retryChains.get (κ, kind) = none := by
  obtain ⟨-, h⟩ := (Option.orElse_eq_none _ _).mp h
  cases hrow : db.retryChains.get (κ, kind) with
  | none => rfl
  | some row =>
    have := first_eq_none.mp h _ (get_eq_some.mp hrow)
    simp [retryHere, hκ] at this

theorem nextRetry_eq_some {r} (h : db.nextRetry channel kind after = some r) :
    db.retryChains.get r.1 = some r.2 ∧ r.1.1.channel = channel ∧ r.1.2 = kind := by
  have hmem : r ∈ db.retryChains.rows ∧ retryHere channel kind r = true := by
    rcases (Option.orElse_eq_some _ _ _).mp h with h | ⟨-, h⟩
    · obtain ⟨hmem, hp, -⟩ := first_eq_some h
      exact ⟨hmem, (Bool.and_eq_true_iff.mp hp).1⟩
    · obtain ⟨hmem, hp, -⟩ := first_eq_some h
      exact ⟨hmem, hp⟩
  refine ⟨get_eq_some.mpr hmem.1, ?_⟩
  simpa [retryHere] using hmem.2

variable {r : Option (PendingChannelPage × ReceiverTables Key)}

theorem retryPage_spec (h : db.retryPage channel kind after excluded = .ok r) :
    (r = none ∧ ∀ κ : ChainId, κ.channel = channel → db.retryChains.get (κ, kind) = none) ∨
      ∃ x, r = some x ∧ Found db channel kind excluded x.1 x.2 := by
  unfold retryPage at h
  cases hnext : db.nextRetry channel kind after with
  | none =>
    rw [hnext] at h
    exact .inl ⟨(Except.ok.inj h).symm, fun κ => nextRetry_eq_none hnext⟩
  | some found =>
    obtain ⟨⟨κ, kind'⟩, row⟩ := found
    obtain ⟨hrow, hκ, rfl⟩ := nextRetry_eq_some hnext
    rw [hnext] at h
    obtain ⟨ids, hids, h⟩ := bind_eq_ok.mp h
    exact .inr ⟨_, (Except.ok.inj h).symm, .retried hκ hrow hids⟩

theorem freshSelection_spec (h : db.freshSelection channel kind excluded = .ok r) :
    (r = none ∧ db.freshPage channel kind excluded = .ok []) ∨
      ∃ x, r = some x ∧ Found db channel kind excluded x.1 x.2 := by
  unfold freshSelection at h
  obtain ⟨ids, hids, h⟩ := bind_eq_ok.mp h
  cases h
  by_cases hnil : ids = []
  · subst hnil
    exact .inl ⟨rfl, hids⟩
  · rw [if_neg hnil]
    exact .inr ⟨_, rfl, .fresh⟩

theorem orElse_spec {P Q : Prop} {F : PendingChannelPage × ReceiverTables Key → Prop} {first second}
    (h : orElse first second = .ok r)
    (hfirst : ∀ r, first = .ok r → (r = none ∧ P) ∨ ∃ x, r = some x ∧ F x)
    (hsecond : ∀ r, second = .ok r → (r = none ∧ Q) ∨ ∃ x, r = some x ∧ F x) :
    (r = none ∧ P ∧ Q) ∨ ∃ x, r = some x ∧ F x := by
  unfold orElse at h
  obtain ⟨found, hfound, h⟩ := bind_eq_ok.mp h
  rcases hfirst _ hfound with ⟨rfl, hP⟩ | ⟨x, rfl, hF⟩
  · rcases hsecond _ h with ⟨rfl, hQ⟩ | hF
    · exact .inl ⟨rfl, hP, hQ⟩
    · exact .inr hF
  · exact .inr ⟨x, (Except.ok.inj h).symm, hF⟩

theorem select_spec {row} (h : db.select channel kind excluded row = .ok r) :
    (r = none ∧ NothingFound db channel kind excluded) ∨
      ∃ x, r = some x ∧ Found db channel kind excluded x.1 x.2 := by
  unfold select at h
  split_ifs at h
  · rcases orElse_spec h (fun _ => retryPage_spec) (fun _ => freshSelection_spec) with
      ⟨rfl, hretry, hfresh⟩ | h
    · exact .inl ⟨rfl, hfresh, hretry⟩
    · exact .inr h
  · exact orElse_spec h (fun _ => freshSelection_spec) (fun _ => retryPage_spec)

variable {page : PendingChannelPage}

/-- What is found does not depend on where the last selection ended. -/
theorem Found.of_schedule {t} (h : Found { db with schedule := t } channel kind excluded page db') :
    Found db channel kind excluded page db' := by
  cases h with
  | fresh => exact .fresh
  | retried hκ hrow hids => exact .retried hκ hrow hids

/-- **A selection.** -/
theorem pendingPageExcluding_spec
    (h : db.pendingPageExcluding owner channel kind excluded = .ok (page, db')) :
    Selected db owner channel kind excluded page db' := by
  unfold pendingPageExcluding at h
  obtain ⟨-, -, h⟩ := bind_eq_ok.mp h
  obtain ⟨-, -, h⟩ := bind_eq_ok.mp h
  split at h <;> rename_i hrow
  · cases h
    refine .unseen fun row hcur hacc => ?_
    rw [hcur] at hrow
    simp [Option.filter, hacc] at hrow
  · obtain ⟨-, -, h⟩ := bind_eq_ok.mp h
    obtain ⟨found, hfound, h⟩ := bind_eq_ok.mp h
    rcases select_spec hfound with ⟨rfl, hnothing⟩ | ⟨x, rfl, hx⟩
    · cases h
      exact .nothing hnothing
    · obtain rfl : x = (page, db') := Except.ok.inj h
      exact .found hx.of_schedule

end

end Selections

end ReceiverTables

end MeshTalk.Channel
