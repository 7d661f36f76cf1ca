import MeshTalk.Channel.Transactions
import MeshTalk.Channel.Governance
import MeshTalk.Lib.Run

/-! # Messages are consumed once

The machine of a device that receives: the transactions in any order, with the messages that were
opened and not installed yet and the failed attempts that were not noted yet in memory. A
transaction that fails leaves the tables as they were. -/

namespace MeshTalk.Channel

open Lib Ratchet ReceiverTables List

/-! ### The machine -/

/-- A message that was opened: on the checkpoint of its chain, or on what another one leaves. -/
structure OpenedMessage (Key : Type) where
  event : Event
  prepared : PreparedChannelReceive Key
  follows : Option (PreparedChannelReceive Key)
deriving DecidableEq

inductive Taken (Key : Type) where
  | distributed (d : SenderKeyDistribution Key) (refresh : Bool)
  | received (m : OpenedMessage Key)

/-- A device that receives. `owed` are the opened messages that a selection left out or that a
failed attempt was made on top of. -/
structure Receiver (Key : Type) where
  db : ReceiverTables Key
  opened : List (OpenedMessage Key) := []
  attempts : List Attempt := []
  history : List (ChainId × Taken Key) := []
  owed : List (PreparedChannelReceive Key) := []

/-- What happens next. Opened messages are named by their place among the `opened`. -/
inductive Action (Key : Type) where
  | adopt (owner : Option EventOwner)
  | retain (e : Event) (storedBytes : ℕ)
  | publish (channel : ConversationId) (job : JobId) (revision : ℕ)
  | distribute (channel : ConversationId) (d : ReceiveDistribution Key)
  | project (owner : EventOwner) (id : EventId) (job : JobId) (revision rank : ℕ)
      (distributions : List (ReceiveDistribution Key)) (processed receive : Bool)
  | view (owner : EventOwner) (channel : ConversationId) (job : JobId) (revision : ℕ)
  | prepare (owner : EventOwner) (id : EventId) (preceding : Option ℕ)
  | note (owner : EventOwner) (a : Attempt)
  | commit (owner : EventOwner) (i : ℕ) (transcript : Except LogError Unit)
  | select (owner : EventOwner) (channel : ConversationId) (kind : EventKind) (excluded : Option ℕ)

def ReceiveDistribution.entry {Key : Type} (channel : ConversationId)
    (d : ReceiveDistribution Key) :
    ChainId × Taken Key :=
  (⟨channel, d.author, d.epoch⟩, .distributed d.distribution d.refresh)

namespace Receiver

variable {Secret Key : Type}

def start (owner : Option EventOwner) : Receiver Key := { db := { owner := owner } }

def received (s : Receiver Key) : List (OpenedMessage Key) :=
  s.history.filterMap fun entry => match entry.2 with
    | .received o => some o
    | .distributed .. => none

def taken (s : Receiver Key) (chain : ChainId) : List (Taken Key) :=
  (s.history.filter fun entry => entry.1 = chain).map Prod.snd

def mayPublish (s : Receiver Key) (channel : ConversationId) (job : JobId) : Bool :=
  ((s.db.source.get channel).any fun source => source.1 = job) ||
    s.db.authority.rows.all fun row => row.1.1 ≠ job

def prepared [Sha256] (s : Receiver Key) (e : Event)
    (preceding : Option (PreparedChannelReceive Key)) :
    Preparation Key → Receiver Key
  | .prepared p => { s with
      opened := s.opened ++
        [⟨e, p, preceding.filter (ReceiverTables.onChain e p.candidate.epoch)⟩] }
  | .waiting a => { s with
      attempts := s.attempts ++ [a]
      owed := s.owed ++ (preceding.filter fun q =>
        a.epoch.any fun epoch => ReceiverTables.onChain e epoch q).toList }
  | .ignored => s

def selected (s : Receiver Key) (excluded : Option (OpenedMessage Key)) (db : ReceiverTables Key) :
    Receiver Key :=
  { s with db := db, owed := s.owed ++ (excluded.map OpenedMessage.prepared).toList }

variable (C : RatchetCrypto Secret Key (List UInt8)) [DecidableEq Key] [Sha256] [EventCrypto]
  [BincodeRead MsgHeader]

/-- **One step.** An event is read from the store, and that it was processed is known from an
earlier read. -/
def step (s : Receiver Key) : Action Key → Receiver Key
  | .adopt owner => { s with db := { s.db with owner := owner } }
  | .retain e storedBytes => { s with
      db := { s.db with retained := s.db.retained.insertOrIgnore e.id (e, storedBytes) } }
  | .publish channel job revision =>
    if s.mayPublish channel job then
      { s with db := { s.db with source := s.db.source.set channel (job, revision) } }
    else s
  | .distribute channel d =>
    match s.db.distributeOn channel d with
    | .ok db => { s with db := db, history := s.history ++ [d.entry channel] }
    | .error _ => s
  | .project owner id job revision rank distributions processed receive =>
    match s.db.retained.get id with
    | none => s
    | some (e, _) =>
      if processed = true → s.db.processedOn e.conversationId e.id = true then
        match s.db.projectOn owner e job revision rank distributions processed receive with
        | .ok db => { s with
            db := db
            history := s.history ++ distributions.map (ReceiveDistribution.entry e.conversationId) }
        | .error _ => s
      else s
  | .view owner channel job revision =>
    match s.db.installCurrentOn owner channel job revision with
    | .ok db => { s with db := db }
    | .error _ => s
  | .prepare owner id preceding =>
    match s.db.retained.get id with
    | none => s
    | some (e, _) =>
      let prior := (preceding.bind fun i => s.opened[i]?).map OpenedMessage.prepared
      match s.db.prepareReceive C owner e prior with
      | .ok p => s.prepared e prior p
      | .error _ => s
  | .note owner a =>
    if a ∈ s.attempts then
      match s.db.noteAttempt owner a with
      | .ok db => { s with db := db, attempts := s.attempts.erase a }
      | .error _ => { s with attempts := s.attempts.erase a }
    else s
  | .commit owner i transcript =>
    match s.opened[i]? with
    | none => s
    | some o =>
      match s.db.commitReception owner o.prepared transcript with
      | .ok (true, db) => { s with
          db := db, history := s.history ++ [(o.prepared.chain, .received o)] }
      | .ok (false, db) => { s with db := db }
      | .error _ => s
  | .select owner channel kind excluded =>
    let left := excluded.bind fun i => s.opened[i]?
    match s.db.pendingPageExcluding owner channel kind (left.map fun o => o.prepared.event) with
    | .ok (_, db) => s.selected left db
    | .error _ => s

def run (s : Receiver Key) (actions : List (Action Key)) : Receiver Key := actions.foldl (step C) s

end Receiver

/-! ### Replaying a chain -/

section Replay

variable {Secret Key : Type} (C : RatchetCrypto Secret Key (List UInt8)) [Sha256]
  [BincodeRead MsgHeader]

/-- What a chain is after it takes something in. -/
def take (cp : Option (ReceiverCheckpoint Key)) : Taken Key → Option (ReceiverCheckpoint Key)
  | .distributed d refresh =>
    match cp with
    | none => (initialReceiverCheckpoint d).toOption
    | some cp => if refresh then (refreshedReceiverCheckpoint cp d).toOption else some cp
  | .received m => cp.bind fun cp =>
    (prepareCheckpointMessage C m.event.userId cp m.event.ciphertext).toOption.map (·.checkpoint)

/-- **What opening messages one after another leaves**, from the first distribution on. -/
def replay (entries : List (Taken Key)) : Option (ReceiverCheckpoint Key) :=
  entries.foldl (take C) none

theorem replay_append (entries t) : replay C (entries ++ [t]) = take C (replay C entries) t := by
  simp [replay]

end Replay

/-! ### Chains move on -/

section Chains

variable {Secret Key : Type} {C : RatchetCrypto Secret Key (List UInt8)}
  {db db' : ReceiverTables Key}

/-- The rows of chains stay, and a checkpoint changes only with its revision. -/
def MovesOn (db db' : ReceiverTables Key) : Prop :=
  ∀ κ row, db.receivers.get κ = some row → ∃ row', db'.receivers.get κ = some row' ∧
    row.revision ≤ row'.revision ∧ (row'.revision = row.revision → row'.checkpoint = row.checkpoint)

theorem MovesOn.of_eq (h : db'.receivers = db.receivers) : MovesOn db db' := by
  intro κ row hrow
  exact ⟨row, h ▸ hrow, le_rfl, fun _ => rfl⟩

variable {row : ReceiverRow Key}

theorem ReceiverTables.Distributed.movesOn {chain d refresh}
    (h : db.Distributed chain d refresh row db') : MovesOn db db' := by
  intro κ old hold
  rw [h.rows]
  by_cases hκ : κ = chain
  · subst hκ
    have htaking := h.taking
    rw [hold] at htaking
    rw [if_pos rfl]
    refine ⟨row, rfl, ?_⟩
    cases htaking with
    | kept h => exact ⟨le_rfl, fun _ => rfl⟩
    | jumped => exact ⟨by simp, fun heq => absurd heq (by simp)⟩
  · rw [if_neg hκ]
    exact ⟨old, hold, le_rfl, fun _ => rfl⟩

variable {p : PreparedChannelReceive Key}

theorem ReceiverTables.Installs.movesOn (h : db.Installs p row db') : MovesOn db db' := by
  intro κ old hold
  rw [h.rows]
  by_cases hκ : κ = p.chain
  · subst hκ
    obtain rfl := Option.mem_unique h.stored hold
    rw [if_pos rfl]
    exact ⟨_, rfl, by simp, fun heq => absurd heq (by simp)⟩
  · rw [if_neg hκ]
    exact ⟨old, hold, le_rfl, fun _ => rfl⟩

/-- How a message in memory was opened: on the checkpoint its chain had at its revision, or on what
another one leaves. -/
structure OpenedFrom [Sha256] [BincodeRead MsgHeader] (C : RatchetCrypto Secret Key (List UInt8))
    (db : ReceiverTables Key) (m : OpenedMessage Key) (cp : ReceiverCheckpoint Key) : Prop where
  event : m.prepared.event = m.event.id
  channel : m.prepared.channel = m.event.conversationId
  opens : prepareCheckpointMessage C m.event.userId cp m.event.ciphertext = .ok m.prepared.candidate
  stored : ∃ row, db.receivers.get m.prepared.chain = some row ∧ (m.follows = none →
    m.prepared.revision ≤ row.revision ∧ (row.revision = m.prepared.revision → row.checkpoint = cp))
  follows : ∀ q, m.follows = some q → q.chain = m.prepared.chain ∧
    m.prepared.revision = q.revision + 1 ∧ q.candidate.checkpoint = cp

/-- A message that was installed: its chain is past it, or as it left it. -/
structure Consumed (db : ReceiverTables Key) (p : PreparedChannelReceive Key) : Prop where
  done : db.processed.has (p.channel, p.event) = true
  stored : ∃ row, db.receivers.get p.chain = some row ∧ p.revision < row.revision ∧
    (row.revision = p.revision + 1 → row.checkpoint = p.candidate.checkpoint)

theorem OpenedFrom.movesOn [Sha256] [BincodeRead MsgHeader] {m cp} (h : OpenedFrom C db m cp)
    (hm : MovesOn db db') : OpenedFrom C db' m cp := by
  refine ⟨h.event, h.channel, h.opens, ?_, h.follows⟩
  obtain ⟨row, hrow, hfirst⟩ := h.stored
  obtain ⟨row', hrow', hle, hsame⟩ := hm _ _ hrow
  refine ⟨row', hrow', fun hf => ?_⟩
  obtain ⟨hrev, hcp⟩ := hfirst hf
  refine ⟨hrev.trans hle, fun heq => ?_⟩
  have hrow : row.revision = m.prepared.revision := by omega
  rw [hsame (by omega), hcp hrow]

theorem Consumed.movesOn (h : Consumed db p) (hm : MovesOn db db')
    (hdone : ∀ k, db.processed.has k = true → db'.processed.has k = true) : Consumed db' p := by
  refine ⟨hdone _ h.done, ?_⟩
  obtain ⟨row, hrow, hlt, hcp⟩ := h.stored
  obtain ⟨row', hrow', hle, hsame⟩ := hm _ _ hrow
  refine ⟨row', hrow', by omega, fun heq => ?_⟩
  rw [hsame (by omega), hcp (by omega)]

theorem OpenedFrom.current [Sha256] [BincodeRead MsgHeader] {m cp row} (h : OpenedFrom C db m cp)
    (hi : db.Installs m.prepared row db') (hq : ∀ q, m.follows = some q → Consumed db q) :
    row.checkpoint = cp := by
  cases hf : m.follows with
  | none =>
    obtain ⟨row', hrow', hfirst⟩ := h.stored
    obtain rfl := Option.mem_unique hi.stored hrow'
    exact (hfirst hf).2 hi.current
  | some q =>
    obtain ⟨hchain, hrev, hcp⟩ := h.follows q hf
    obtain ⟨row', hrow', hlt, hsame⟩ := (hq q hf).stored
    rw [hchain] at hrow'
    obtain rfl := Option.mem_unique hi.stored hrow'
    have := hi.current
    rw [hsame (by omega), hcp]

end Chains

/-! ### Runs in order -/

namespace Receiver

variable {Secret Key : Type} {C : RatchetCrypto Secret Key (List UInt8)} [Sha256]
  [BincodeRead MsgHeader] {s s' : Receiver Key}

/-- What a run in order keeps. -/
structure Inv (C : RatchetCrypto Secret Key (List UInt8)) (s : Receiver Key) : Prop where
  rows : ∀ κ, (s.db.receivers.get κ).map (·.checkpoint) = replay C (s.taken κ)
  opened : ∀ m ∈ s.opened, ∃ cp, OpenedFrom C s.db m cp
  listed : ∀ m ∈ s.received, m ∈ s.opened
  consumed : ∀ m ∈ s.received, Consumed s.db m.prepared
  once : (s.received.map fun m => (m.prepared.channel, m.prepared.event)).Nodup

omit [Sha256] [BincodeRead MsgHeader] in
theorem taken_append {entry} (h : s'.history = s.history ++ [entry]) (κ) :
    s'.taken κ = if entry.1 = κ then s.taken κ ++ [entry.2] else s.taken κ := by
  unfold taken
  rw [h, filter_append]
  split_ifs with hκ <;> simp [hκ]

theorem Inv.start (owner) : Inv C (start owner) := by
  refine ⟨fun κ => rfl, ?_, ?_, ?_, nodup_nil⟩ <;>
  · intro m hm
    cases hm

theorem Inv.quiet (h : Inv C s) (hr : s'.db.receivers = s.db.receivers)
    (hd : ∀ k, s.db.processed.has k = true → s'.db.processed.has k = true)
    (ho : s'.opened = s.opened) (hh : s'.history = s.history) : Inv C s' := by
  have hreceived : s'.received = s.received := by rw [received, hh]; rfl
  have hm : MovesOn s.db s'.db := .of_eq hr
  refine ⟨fun κ => ?_, fun m hmem => ?_, fun m hmem => ?_, fun m hmem => ?_, ?_⟩
  · rw [hr, taken, hh]
    exact h.rows κ
  · obtain ⟨cp, hcp⟩ := h.opened m (ho ▸ hmem)
    exact ⟨cp, hcp.movesOn hm⟩
  · rw [hreceived] at hmem
    exact ho ▸ h.listed m hmem
  · rw [hreceived] at hmem
    exact (h.consumed m hmem).movesOn hm hd
  · rw [hreceived]
    exact h.once

variable {row : ReceiverRow Key}

/-- A chain takes something in and has the checkpoint that follows from it. -/
theorem Inv.rows_append (h : Inv C s) (entry)
    (hrows : ∀ κ, s'.db.receivers.get κ = if κ = entry.1 then some row else s.db.receivers.get κ)
    (hh : s'.history = s.history ++ [entry])
    (htake : take C ((s.db.receivers.get entry.1).map (·.checkpoint)) entry.2 = some row.checkpoint)
    (κ) : (s'.db.receivers.get κ).map (·.checkpoint) = replay C (s'.taken κ) := by
  rw [hrows, taken_append hh]
  by_cases hκ : κ = entry.1
  · rw [if_pos hκ, if_pos hκ.symm, replay_append, ← h.rows, hκ, htake]
    rfl
  · rw [if_neg hκ, if_neg fun heq => hκ heq.symm]
    exact h.rows κ

theorem take_distributed {d refresh old} (h : ReceiverTables.Taking d refresh old row) :
    take C (old.map (·.checkpoint)) (.distributed d refresh) = some row.checkpoint := by
  cases h with
  | installed hcp =>
    show (initialReceiverCheckpoint d).toOption = _
    rw [hcp]
    rfl
  | @kept row h =>
    show (if refresh = true then (refreshedReceiverCheckpoint row.checkpoint d).toOption
      else some row.checkpoint) = _
    split_ifs with hr
    · rw [h hr]
      rfl
    · rfl
  | @jumped row cp d' hr hcp =>
    show (if refresh = true then (refreshedReceiverCheckpoint row.checkpoint d).toOption
      else some row.checkpoint) = _
    rw [if_pos hr, hcp]
    rfl

theorem Inv.distributed (h : Inv C s) {chain d refresh row db}
    (hd : s.db.Distributed chain d refresh row db) :
    Inv C { s with db := db, history := s.history ++ [(chain, .distributed d refresh)] } := by
  have hreceived : ({ s with
      db := db, history := s.history ++ [(chain, .distributed d refresh)] } :
        Receiver Key).received =
      s.received := by
    simp [received]
  have hdone : db.processed = s.db.processed := by rw [hd.rest]
  refine ⟨h.rows_append (chain, .distributed d refresh) hd.rows rfl
    (take_distributed hd.taking), fun m hmem => ?_, fun m hmem => ?_, fun m hmem => ?_, ?_⟩
  · obtain ⟨cp, hcp⟩ := h.opened m hmem
    exact ⟨cp, hcp.movesOn hd.movesOn⟩
  · rw [hreceived] at hmem
    exact h.listed m hmem
  · rw [hreceived] at hmem
    refine (h.consumed m hmem).movesOn hd.movesOn fun k hk => ?_
    rw [hdone]
    exact hk
  · rw [hreceived]
    exact h.once

omit [Sha256] [BincodeRead MsgHeader] in
/-- What a distribution keeps, a list of them keeps. -/
theorem distributeAll [DecidableEq Key] {channel} {P : Receiver Key → Prop}
    (hP : ∀ {s chain d refresh row db}, P s → s.db.Distributed chain d refresh row db →
      P { s with db := db, history := s.history ++ [(chain, .distributed d refresh)] }) :
    ∀ {ds : List (ReceiveDistribution Key)} {s db},
      P s → ds.foldlM (fun db d => db.distributeOn channel d) s.db = .ok db →
      P { s with db := db, history := s.history ++ ds.map (·.entry channel) }
  | [], s, db, h, hds => by
    cases hds
    simpa using h
  | d :: ds, s, db, h, hds => by
    rw [foldlM_cons] at hds
    obtain ⟨mid, hmid, hds⟩ := bind_eq_ok.mp hds
    obtain ⟨row, hd⟩ := distributeOn_spec hmid
    have hrest := distributeAll hP (hP h hd) hds
    simpa [ReceiveDistribution.entry] using hrest

theorem Inv.opening (h : Inv C s) {m cp} (hm : OpenedFrom C s.db m cp) :
    Inv C { s with opened := s.opened ++ [m] } := by
  refine ⟨h.rows, fun m' hm' => ?_, fun m' hm' => ?_, h.consumed, h.once⟩
  · rcases mem_append.mp hm' with hm' | hm'
    · exact h.opened m' hm'
    · obtain rfl := mem_singleton.mp hm'
      exact ⟨cp, hm⟩
  · exact mem_append_left _ (h.listed m' hm')

theorem Inv.installed (h : Inv C s) {m row db} (hmem : m ∈ s.opened)
    (hi : s.db.Installs m.prepared row db) (hq : ∀ q, m.follows = some q → Consumed s.db q) :
    Inv C { s with db := db, history := s.history ++ [(m.prepared.chain, .received m)] } := by
  obtain ⟨cp, hfrom⟩ := h.opened m hmem
  have hcp : row.checkpoint = cp := hfrom.current hi hq
  have hdone : ∀ k, s.db.processed.has k = true → db.processed.has k = true := by
    intro k hk
    rw [hi.done, hk, Bool.or_true]
  have hreceived : ({ s with
      db := db, history := s.history ++ [(m.prepared.chain, .received m)] } :
        Receiver Key).received =
      s.received ++ [m] := by
    simp [received]
  refine ⟨h.rows_append (m.prepared.chain, .received m) hi.rows rfl ?_,
    fun m' hm' => ?_, fun m' hm' => ?_, fun m' hm' => ?_, ?_⟩
  · rw [hi.stored]
    show Option.map _ (prepareCheckpointMessage C m.event.userId row.checkpoint _).toOption = _
    rw [hcp, hfrom.opens]
    rfl
  · obtain ⟨cp, hcp⟩ := h.opened m' hm'
    exact ⟨cp, hcp.movesOn hi.movesOn⟩
  · rw [hreceived] at hm'
    rcases mem_append.mp hm' with hm' | hm'
    · exact h.listed m' hm'
    · obtain rfl := mem_singleton.mp hm'
      exact hmem
  · rw [hreceived] at hm'
    rcases mem_append.mp hm' with hm' | hm'
    · exact (h.consumed m' hm').movesOn hi.movesOn hdone
    · obtain rfl := mem_singleton.mp hm'
      refine ⟨by rw [hi.done]; simp, _, (hi.rows _).trans (if_pos rfl), ?_, fun _ => rfl⟩
      show _ < row.revision + 1
      have := hi.current
      omega
  · rw [hreceived, map_append, nodup_append]
    refine ⟨h.once, nodup_singleton _, ?_⟩
    rintro k hk _ hk' rfl
    -- an event that was received is processed, so it is not installed again
    obtain ⟨m', hm', rfl⟩ := mem_map.mp hk
    have hproc := (h.consumed m' hm').done
    have heq := mem_singleton.mp hk'
    rw [heq] at hproc
    exact absurd hproc (by rw [show s.db.processed.has _ = false from hi.unprocessed]; simp)

section Steps

variable [DecidableEq Key] [EventCrypto]

/-- A message that was opened on top of another one is committed after it. -/
def InOrder (s : Receiver Key) : Action Key → Prop
  | .commit _ i _ => ∀ m ∈ s.opened[i]?, ∀ q ∈ m.follows, q ∈ s.received.map OpenedMessage.prepared
  | _ => True

instance (s : Receiver Key) (a : Action Key) : Decidable (s.InOrder a) := by
  cases a <;> unfold InOrder <;> infer_instance

omit [DecidableEq Key] [EventCrypto] in
theorem openedFrom_prepares {owner e p preceding}
    (h : ReceiverTables.Prepares C s.db owner e preceding (.prepared p)) :
    ∃ cp, OpenedFrom C s.db ⟨e, p, preceding.filter (onChain e p.candidate.epoch)⟩ cp := by
  obtain _ | _ | _ | @⟨job, sourceRevision, epoch, row, basis, _, hmay, hepoch, hrow,
    hbasis, hopen⟩ := h
  obtain ⟨hopens, hp⟩ := openOn_prepared hopen
  obtain ⟨hepoch', hauthor⟩ := prepareCheckpointMessage_names C hopens
  have hsame : epoch = p.candidate.epoch := Option.mem_unique hepoch hepoch'
  have hchannel : p.channel = e.conversationId := by rw [hp]
  have hrevision : p.revision = basis.1 := by rw [hp]
  have hchain : p.chain = ⟨e.conversationId, e.userId, epoch⟩ := by
    rw [PreparedChannelReceive.chain, hchannel, hauthor, hsame]
  have hstored : s.db.receivers.get p.chain = some row := by rw [hchain, hrow]
  rw [hsame] at hbasis
  refine ⟨basis.2, by rw [hp], hchannel, hopens, ⟨row, hstored, fun hnone => ?_⟩, fun q hq => ?_⟩
  · dsimp only at hnone
    rw [hnone] at hbasis
    cases hbasis
    exact ⟨hrevision.le, fun _ => rfl⟩
  · have hq' := Option.filter_eq_some_iff.mp hq
    dsimp only at hq
    rw [hq] at hbasis
    have hon : q.channel = e.conversationId ∧ q.candidate.author = e.userId ∧
        q.candidate.epoch = p.candidate.epoch := by
      simpa [onChain, and_assoc] using hq'.2
    cases hbasis with
    | following hrev =>
      refine ⟨?_, by rw [hrevision, hrev], rfl⟩
      rw [hchain, PreparedChannelReceive.chain, hon.1, hon.2.1, hon.2.2, hsame]

omit [DecidableEq Key] [EventCrypto] in
theorem Inv.consumed_follows (h : Inv C s) {owner i transcript m}
    (ho : s.InOrder (.commit owner i transcript))
    (hm : s.opened[i]? = some m) (q) (hq : m.follows = some q) : Consumed s.db q := by
  obtain ⟨m', hm', rfl⟩ := mem_map.mp (ho m hm q hq)
  exact h.consumed m' hm'

/-- **A step in order keeps the invariant.** -/
theorem Inv.step (h : Inv C s) (a) (ho : s.InOrder a) : Inv C (s.step C a) := by
  cases a with
  | adopt owner => exact h.quiet rfl (fun _ => id) rfl rfl
  | retain e storedBytes => exact h.quiet rfl (fun _ => id) rfl rfl
  | publish channel job revision =>
    rw [Receiver.step]
    split
    · exact h.quiet rfl (fun _ => id) rfl rfl
    · exact h
  | distribute channel d =>
    rw [Receiver.step]
    split
    · rename_i db hdb
      obtain ⟨row, hd⟩ := distributeOn_spec hdb
      exact h.distributed hd
    · exact h
  | project owner id job revision rank distributions processed receive =>
    rw [Receiver.step]
    split
    · exact h
    · rename_i e storedBytes he
      split
      · split
        · rename_i db hdb
          obtain ⟨-, mid, hmid, hp⟩ := projectOn_spec hdb
          exact (distributeAll (·.distributed) h hmid).quiet (by rw [hp.rest]) hp.done rfl rfl
        · exact h
      · exact h
  | view owner channel job revision =>
    rw [Receiver.step]
    split
    · rename_i db hdb
      obtain ⟨-, -, hdb⟩ := bind_eq_ok.mp hdb
      obtain ⟨-, -, hdb⟩ := bind_eq_ok.mp hdb
      cases hdb
      exact h.quiet rfl (fun _ => id) rfl rfl
    · exact h
  | prepare owner id preceding =>
    rw [Receiver.step]
    split
    · exact h
    · dsimp only
      split
      · rename_i p hp
        have hprep := prepareReceive_spec hp
        cases p with
        | prepared p =>
          obtain ⟨cp, hcp⟩ := openedFrom_prepares hprep
          exact h.opening hcp
        | waiting a => exact h.quiet rfl (fun _ hk => hk) rfl rfl
        | ignored => exact h
      · exact h
  | note owner a =>
    rw [Receiver.step]
    split
    · split
      · rename_i db hdb
        rcases noteAttempt_spec hdb with ⟨-, rfl⟩ | ⟨epoch, -, rfl⟩
        · refine h.quiet rfl (fun k hk => ?_) rfl rfl
          rw [Table.has_insertOrIgnore, hk, Bool.or_true]
        · exact h.quiet rfl (fun _ => id) rfl rfl
      · exact h.quiet rfl (fun _ => id) rfl rfl
    · exact h
  | commit owner i transcript =>
    rw [Receiver.step]
    split
    · exact h
    · rename_i m hm
      split
      · rename_i db hdb
        obtain ⟨row, hi⟩ := commitReception_spec hdb
        exact h.installed (mem_of_getElem? hm) hi (h.consumed_follows ho hm)
      · rename_i db hdb
        obtain rfl := commitReception_spec hdb
        exact h
      · exact h
  | select owner channel kind excluded =>
    rw [Receiver.step]
    split
    · rename_i page db hdb
      have hrest : db.receivers = s.db.receivers ∧ db.processed = s.db.processed := by
        cases pendingPageExcluding_spec hdb with
        | unseen => exact ⟨rfl, rfl⟩
        | nothing => exact ⟨rfl, rfl⟩
        | found hfound => cases hfound <;> exact ⟨rfl, rfl⟩
      refine h.quiet hrest.1 (fun k hk => ?_) rfl rfl
      show db.processed.has k = true
      rw [hrest.2]
      exact hk
    · exact h

theorem db_step_commit (C : RatchetCrypto Secret Key (List UInt8)) (s : Receiver Key)
    (owner i transcript) (h : (s.step C (.commit owner i transcript)).received = s.received) :
    (s.step C (.commit owner i transcript)).db = s.db := by
  rw [Receiver.step] at h ⊢
  split at h
  · rfl
  · split at h
    · simp [received] at h
    · rename_i db hdb
      exact commitReception_spec hdb
    · rfl

end Steps

end Receiver

open Receiver in
/-- **Messages are consumed exactly once**: in every run that commits a message opened on top of
another one after that one, no event is received twice, each stored checkpoint is what its chain
took in leaves, message by message in the order of the commits, and a commit that receives nothing
changes no table. -/
theorem consumed_once {Secret Key : Type} [DecidableEq Key] [Sha256] [EventCrypto]
    [BincodeRead MsgHeader] (C : RatchetCrypto Secret Key (List UInt8)) (owner : Option EventOwner)
    (actions : List (Action Key)) (h : Along (step C) InOrder (start owner) actions) :
    let s := run C (start owner) actions
    (s.received.map fun m => (m.event.conversationId, m.event.id)).Nodup ∧
      (∀ κ, (s.db.receivers.get κ).map (·.checkpoint) = replay C (s.taken κ)) ∧
      ∀ owner' i transcript, (s.step C (.commit owner' i transcript)).received = s.received →
        (s.step C (.commit owner' i transcript)).db = s.db := by
  intro s
  have hinv : Inv C s :=
    h.inv (fun s a hs ha => hs.step a ha) (.start owner)
  refine ⟨?_, hinv.rows, db_step_commit C _⟩
  have hsame : s.received.map (fun m => (m.event.conversationId, m.event.id)) =
      s.received.map fun m => (m.prepared.channel, m.prepared.event) := by
    refine List.map_congr_left fun m hm => ?_
    obtain ⟨cp, hcp⟩ := hinv.opened m (hinv.listed m hm)
    rw [hcp.channel, hcp.event]
  rw [hsame]
  exact hinv.once

/-! ### A message committed without the one it was opened on -/

/-- Chain keys are numbers, each the message key of its position, and a message is its key. -/
def sampleChains : RatchetCrypto Unit ℕ (List UInt8) where
  publicKey _ := 0
  dh _ _ := 0
  kdfRk rk _ := (rk, rk)
  kdfCk k := (k + 1, k)
  aeadEncrypt k _ _ := some [UInt8.ofNat k]
  aeadDecrypt k ct _ := if ct = [UInt8.ofNat k] then some [] else none

@[reducible] def sampleHeaders [Sha256] : BincodeRead MsgHeader where
  deserialize bs := match bs with
    | [epoch, n] => .ok ⟨epoch.toNat, (sampleDevice 2).userId, n.toUInt32⟩
    | _ => .error "io error: unexpected end of file"

def sampleMessage (id : ℕ) (n : UInt8) : Event := sampleEvent id 2 [] .message [0, 2, 1, n, n]

def sampleOwner : EventOwner := ⟨0, 0⟩

def sampleChain [Sha256] : ChainId := ⟨⟨7⟩, (sampleDevice 2).userId, 1⟩

/-- Three messages are stored and admitted, and the key of their chain is there. -/
def sampleAdmitted [Sha256] : List (Action ℕ) :=
  [.retain (sampleMessage 10 0) 100, .retain (sampleMessage 11 1) 100,
    .retain (sampleMessage 12 2) 100,
    .publish ⟨7⟩ 1 0, .distribute ⟨7⟩ ⟨(sampleDevice 2).userId, 1, ⟨0, 0⟩, false⟩,
    .project sampleOwner ⟨10⟩ 1 0 0 [] false true, .project sampleOwner ⟨11⟩ 1 0 1 [] false true,
    .project sampleOwner ⟨12⟩ 1 0 2 [] false true, .view sampleOwner ⟨7⟩ 1 0]

/-- The second message is opened on top of the first one and committed after it, and the third one
is committed too late. -/
def sampleFollowing [Sha256] : List (Action ℕ) :=
  sampleAdmitted ++
    [.prepare sampleOwner ⟨10⟩ none, .prepare sampleOwner ⟨12⟩ none,
      .prepare sampleOwner ⟨11⟩ (some 0),
      .commit sampleOwner 0 (.ok ()), .commit sampleOwner 1 (.ok ()),
        .commit sampleOwner 2 (.ok ())]

open Receiver in
theorem consumed_once_following :
    letI := sampleDigest; letI := sampleSigner; letI := sampleHeaders
    (run sampleChains (start (some sampleOwner)) sampleFollowing).received.map
      (fun m => m.event.id) = [⟨10⟩, ⟨11⟩] ∧
      ((run sampleChains (start (some sampleOwner)) sampleFollowing).received.map fun m =>
        (m.event.conversationId, m.event.id)).Nodup := by
  let := sampleDigest
  let := sampleSigner
  let := sampleHeaders
  have hordered : Along (step sampleChains) InOrder (start (some sampleOwner)) sampleFollowing := by
    decide +kernel
  exact ⟨by decide +kernel,
    (consumed_once sampleChains (some sampleOwner) sampleFollowing hordered).1⟩

open Receiver in
/-- Of two messages opened on one checkpoint, and a third on top of the first, the second and the
third are committed: the stored checkpoint has used up the first one, which was never committed, and
not the second. -/
theorem consumed_without_predecessor :
    letI := sampleDigest; letI := sampleSigner; letI := sampleHeaders
    let s := run sampleChains (start (some sampleOwner)) (sampleAdmitted ++
      [.prepare sampleOwner ⟨10⟩ none, .prepare sampleOwner ⟨12⟩ none,
        .prepare sampleOwner ⟨11⟩ (some 0), .commit sampleOwner 1 (.ok ()),
        .commit sampleOwner 2 (.ok ())])
    s.received.map (fun m => m.event.id) = [⟨12⟩, ⟨11⟩] ∧
      (s.db.receivers.get sampleChain).map (·.checkpoint) ≠
        replay sampleChains (s.taken sampleChain) := by
  let := sampleDigest
  let := sampleSigner
  let := sampleHeaders
  decide +kernel

end MeshTalk.Channel
