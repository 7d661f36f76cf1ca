import MeshTalk.Channel.Checkpoint
import MeshTalk.Channel.Controls
import MeshTalk.Lib.Table
import Mathlib.Data.String.Basic

/-! # Receiving the messages of a channel

The tables by which a device receives the messages of a channel, and the transactions on them
(`node/channel/checkpoint.rs`, `checkpoint/pending.rs`, `checkpoint/replay.rs`): the checkpoints of
the senders' chains, the events that were processed and those that wait, and the chains that may
have become able to open more.

A message is received in two transactions. The first reads the checkpoint of the chain and opens the
message on a copy of it; the second installs the copy, if the checkpoint has not changed meanwhile.
A message that cannot be opened waits: for a key, or until the chain is far enough. -/

namespace MeshTalk.Channel

open Lib Ratchet

abbrev JobId := BitVec 128

structure EventOwner where
  account : PubKey
  generation : ℕ
deriving DecidableEq

structure ChainId where
  channel : ConversationId
  author : String
  epoch : ℕ
deriving DecidableEq

inductive WaitReason where
  | fresh | key | gap
deriving DecidableEq

structure ReceiverRow (Key : Type) where
  revision : ℕ
  checkpoint : ReceiverCheckpoint Key
  keyRevision : ℕ
  nextN : UInt32

/-- An event that waits. -/
structure PendingRow where
  ordinal : ℕ
  reason : WaitReason
  author : String
  kind : EventKind
  admitted : Bool
  epoch : Option ℕ := none
  attemptJob : Option JobId := none
  attemptRevision : ℤ := -1
  wakeAt : ℕ := 0
deriving DecidableEq

/-- Where the selection of waiting events goes on. -/
structure ScheduleRow where
  preferRetry : Bool := false
  after : Option (String × ℕ) := none
deriving DecidableEq

/-- A chain whose waiting events may have become ready. -/
structure RetryChain where
  revision : ℕ
  nextN : ℕ
deriving DecidableEq

/-- The view of a channel that is current, by the order it was made from. -/
structure CurrentRow where
  sourceJob : JobId
  sourceRevision : ℕ
  ownerAccount : PubKey
deriving DecidableEq

/-- The tables. `source` has the published order of each conversation, `retained` the events with
their stored sizes. -/
structure ReceiverTables (Key : Type) where
  owner : Option EventOwner
  retained : Table EventId (Event × ℕ) := ∅
  source : Table ConversationId (JobId × ℕ) := ∅
  current : Table ConversationId CurrentRow := ∅
  work : Table (JobId × ConversationId) ℕ := ∅
  authority : Table (JobId × ConversationId × EventId) Bool := ∅
  receivers : Table ChainId (ReceiverRow Key) := ∅
  processed : Table (ConversationId × EventId) ℕ := ∅
  pending : Table (ConversationId × EventId) PendingRow := ∅
  schedule : Table (ConversationId × EventKind) ScheduleRow := ∅
  retryChains : Table (ChainId × EventKind) RetryChain := ∅

/-- A message that was opened and not installed yet. -/
structure PreparedChannelReceive (Key : Type) where
  channel : ConversationId
  event : EventId
  wallClock : ℕ
  kind : EventKind
  revision : ℕ
  keyRevision : ℕ
  sourceJob : JobId
  sourceRevision : ℕ
  owner : EventOwner
  candidate : PreparedChannelMessage Key
deriving DecidableEq

def PreparedChannelReceive.chain {Key : Type} (p : PreparedChannelReceive Key) : ChainId :=
  ⟨p.channel, p.candidate.author, p.candidate.epoch⟩

/-- A message that could not be opened, and why. -/
structure Attempt where
  event : Event
  epoch : Option ℕ
  revision : ℤ
  job : JobId
  sourceRevision : ℕ
  waitUntil : Option ℕ
deriving DecidableEq

/-- The reason an event waits for, after an attempt. -/
def PendingRow.noted (row : PendingRow) (a : Attempt) (epoch : ℕ) : PendingRow :=
  { row with
    epoch := some epoch
    attemptJob := some a.job
    attemptRevision := a.revision
    reason := if a.waitUntil = none then .key else .gap
    wakeAt := a.waitUntil.getD 0 }

/-- How the first transaction of a receive ends. -/
inductive Preparation (Key : Type) where
  | prepared (p : PreparedChannelReceive Key)
  | waiting (a : Attempt)
  | ignored
deriving DecidableEq

/-- A selection of waiting events. -/
structure PendingChannelPage where
  ids : List EventId
  moreWork : Bool
deriving DecidableEq

/-- A snapshot of a chain that was sealed to the device, and whether it may replace one. -/
structure ReceiveDistribution (Key : Type) where
  author : String
  epoch : ℕ
  distribution : SenderKeyDistribution Key
  refresh : Bool

/-- The kinds of events that are opened with a sender's chain. -/
def isReceived (kind : EventKind) : Bool := kind = .message || kind = .fileManifest

def channelPendingBytes : ℕ := 8 * 1024 * 1024

def ChannelError.toLog : ChannelError → LogError
  | .malformed text => .corruptFile ("malformed channel envelope: " ++ text)

namespace ReceiverTables

variable {Secret Key : Type} (C : RatchetCrypto Secret Key (List UInt8)) (db : ReceiverTables Key)

/-! ### Checks -/

def checkEventOwnerOn (owner : EventOwner) : Except LogError Unit :=
  ensure (db.owner = some owner) .staleCursor

def requireSourceOn (channel : ConversationId) (job : JobId) (revision : ℕ) :
    Except LogError Unit :=
  ensure (db.source.get channel = some (job, revision)) .staleCursor

def processedOn (channel : ConversationId) (event : EventId) : Bool :=
    db.processed.has (channel, event)

/-! ### Chains -/

/-- A chain may have become able to open more events of both kinds. -/
def wakeChainOn (chain : ChainId) (revision position : ℕ) : ReceiverTables Key :=
  [EventKind.message, .fileManifest].foldl (fun db kind =>
    { db with
      retryChains := db.retryChains.upsert (chain, kind) ⟨revision, position⟩ fun row =>
        ⟨max row.revision revision, max row.nextN position⟩ }) db

/-- Follow a chain from a snapshot, unless it is followed already. -/
def installDistributionOn (chain : ChainId) (d : SenderKeyDistribution Key) :
    Except LogError (ReceiverTables Key) := do
  let checkpoint ← (initialReceiverCheckpoint d).mapError ChannelError.toLog
  match db.receivers.insertNew chain ⟨0, checkpoint, 0, d.n⟩ with
  | some receivers => return wakeChainOn { db with receivers := receivers } chain 0 d.n.toNat
  | none => return db

def refreshRow [DecidableEq Key] (row : ReceiverRow Key) (candidate : ReceiverCheckpoint Key)
    (position : UInt32) : Except LogError (ReceiverRow Key) :=
  if candidate = row.checkpoint then .ok row
  else if row.revision < i64Max ∧ row.keyRevision < i64Max then
    .ok ⟨row.revision + 1, candidate, row.keyRevision + 1, position⟩
  else .error .repositoryCounterExhausted

/-- Let a chain jump to a snapshot that it cannot reach. -/
def refreshDistributionOn [DecidableEq Key] (chain : ChainId) (d : SenderKeyDistribution Key) :
    Except LogError (ReceiverTables Key) :=
  match db.receivers.get chain with
  | none => db.installDistributionOn chain d
  | some row => do
    let candidate ← (refreshedReceiverCheckpoint row.checkpoint d).mapError ChannelError.toLog
    let distribution ← (checkpointDistribution candidate).mapError ChannelError.toLog
    let row ← refreshRow row candidate distribution.n
    return wakeChainOn { db with receivers := db.receivers.modify chain fun _ => row } chain
      row.keyRevision distribution.n.toNat

def distributeOn [DecidableEq Key] (channel : ConversationId) (d : ReceiveDistribution Key) :
    Except LogError (ReceiverTables Key) :=
  if d.refresh then db.refreshDistributionOn ⟨channel, d.author, d.epoch⟩ d.distribution
  else db.installDistributionOn ⟨channel, d.author, d.epoch⟩ d.distribution

/-! ### Projection -/

/-- Whether an event of the order waits for something to be done with it. -/
def isPending (kind : EventKind) : Bool :=
  isReceived kind || kind = .delete || kind = .channelDeviceInheritance

def bringsKeys (kind : EventKind) : Bool := kind = .keyRotation || kind = .channelDeviceInheritance

variable [Sha256]

/-- An event waits, anew if it was last tried in another order. -/
def queueOn (e : Event) (job : JobId) (rank : ℕ) (receive : Bool) : ReceiverTables Key :=
  { db with
    pending := db.pending.upsert (e.conversationId, e.id)
      { ordinal := rank, reason := .fresh, author := e.userId, kind := e.kind, admitted := receive }
      fun row => { row with
        ordinal := rank
        admitted := receive
        reason := if row.attemptJob.any fun old => old ≠ job then .fresh else row.reason } }

/-- One event of an order is projected: its distributions are taken in, the decision whether it is
received is recorded, and it waits. `processed` was read before. -/
def projectOn [DecidableEq Key] (owner : EventOwner) (e : Event) (job : JobId) (revision rank : ℕ)
    (distributions : List (ReceiveDistribution Key)) (processed receive : Bool) :
    Except LogError (ReceiverTables Key) := do
  db.checkEventOwnerOn owner
  db.requireSourceOn e.conversationId job revision
  ensure ((db.work.get (job, e.conversationId)).getD 0 = rank) .staleCursor
  let db ← distributions.foldlM (fun db d => db.distributeOn e.conversationId d) db
  let authority ← need (db.authority.insertNew (job, e.conversationId, e.id) receive)
    (.database "UNIQUE constraint failed: channel_event_authority.job, channel, event")
  let db := { db with
    processed := if !processed && bringsKeys e.kind && !distributions.isEmpty then
      db.processed.insertOrIgnore (e.conversationId, e.id) 2 else db.processed
    authority := authority
    work := db.work.set (job, e.conversationId) (rank + 1) }
  return if isPending e.kind && !processed then db.queueOn e job rank receive else db

def installCurrentOn (owner : EventOwner) (channel : ConversationId) (job : JobId) (revision : ℕ) :
    Except LogError (ReceiverTables Key) := do
  db.checkEventOwnerOn owner
  db.requireSourceOn channel job revision
  return { db with current := db.current.set channel ⟨job, revision, owner.account⟩ }

/-! ### Receiving -/

def receiveAuthority (owner : EventOwner) (e : Event) : Option (JobId × ℕ) :=
  ((db.current.get e.conversationId).filter fun row => row.ownerAccount = owner.account &&
    db.authority.get (row.sourceJob, e.conversationId, e.id) = some true).map
      fun row => (row.sourceJob, row.sourceRevision)

/-- The message was opened on the chain, and not installed yet. -/
def onChain (e : Event) (epoch : ℕ) (p : PreparedChannelReceive Key) : Bool :=
  p.channel = e.conversationId && p.candidate.author = e.userId && p.candidate.epoch = epoch

/-- What a message is opened on: the checkpoint of its chain, or what a message before it leaves. -/
def receiveBasis (owner : EventOwner) (e : Event) (job : JobId) (sourceRevision : ℕ)
    (row : ReceiverRow Key) (preceding : Option (PreparedChannelReceive Key)) :
    Except LogError (ℕ × ReceiverCheckpoint Key) :=
  match preceding with
  | some prior => do
    ensure (prior.event ≠ e.id ∧ prior.owner = owner ∧ prior.sourceJob = job ∧
      prior.sourceRevision = sourceRevision ∧ prior.revision = row.revision) .staleCursor
    let revision ← need (checkedAdd i64Max row.revision 1) .repositoryCounterExhausted
    return (revision, prior.candidate.checkpoint)
  | none => .ok (row.revision, row.checkpoint)

variable [BincodeRead MsgHeader]

def openOn (owner : EventOwner) (e : Event) (job : JobId) (sourceRevision epoch keyRevision : ℕ)
    (basis : ℕ × ReceiverCheckpoint Key) : Except LogError (Preparation Key) :=
  match prepareCheckpointMessage C e.userId basis.2 e.ciphertext with
  | .ok candidate =>
      .ok (.prepared ⟨e.conversationId, e.id, e.wallClock, e.kind, basis.1, keyRevision,
      job, sourceRevision, owner, candidate⟩)
  | .error .rejected => .ok (.waiting ⟨e, some epoch, keyRevision, job, sourceRevision, none⟩)
  | .error (.gap position) =>
    .ok (.waiting ⟨e, some epoch, keyRevision, job, sourceRevision, some position⟩)
  | .error (.malformed text) => .error (.corruptFile text)

/-- Open a message that may be received in an order. -/
def prepareFrom (owner : EventOwner) (e : Event) (preceding : Option (PreparedChannelReceive Key))
    (job : JobId) (sourceRevision : ℕ) : Except LogError (Preparation Key) :=
  match senderMessageEpoch e.userId e.ciphertext with
  | none => .ok (.waiting ⟨e, none, -1, job, sourceRevision, none⟩)
  | some epoch =>
    match db.receivers.get ⟨e.conversationId, e.userId, epoch⟩ with
    | none => .ok (.waiting ⟨e, some epoch, -1, job, sourceRevision, none⟩)
    | some row => do
      let basis ← receiveBasis owner e job sourceRevision row (preceding.filter (onChain e epoch))
      openOn C owner e job sourceRevision epoch row.keyRevision basis

variable [EventCrypto]

/-- **The first transaction of a receive**: open the message, on what another one leaves that is not
installed yet if that is on the same chain. -/
def prepareReceive (owner : EventOwner) (e : Event)
    (preceding : Option (PreparedChannelReceive Key)) : Except LogError (Preparation Key) := do
  ensure (validEvent e = true) (.corruptFile "unauthenticated channel receiver source")
  db.checkEventOwnerOn owner
  if isReceived e.kind && !db.processedOn e.conversationId e.id then
    match db.receiveAuthority owner e with
    | none => .ok .ignored
    | some (job, sourceRevision) => do
      db.requireSourceOn e.conversationId job sourceRevision
      db.prepareFrom C owner e preceding job sourceRevision
  else .ok .ignored

/-- Record why a message could not be opened. One whose header cannot be read never can. -/
def noteAttempt (owner : EventOwner) (a : Attempt) : Except LogError (ReceiverTables Key) := do
  db.checkEventOwnerOn owner
  db.requireSourceOn a.event.conversationId a.job a.sourceRevision
  match a.epoch with
  | none => return { db with
      processed := db.processed.insertOrIgnore (a.event.conversationId, a.event.id) 3
      pending := db.pending.erase (a.event.conversationId, a.event.id) }
  | some epoch => return { db with
      pending := db.pending.modify (a.event.conversationId, a.event.id) fun row =>
        row.noted a epoch }

/-- **The second transaction of a receive**: install what the message leaves of its chain, if the
checkpoint is still the one it was opened on. -/
def installReceiveOn (p : PreparedChannelReceive Key) :
    Except LogError (Bool × ReceiverTables Key) := do
  db.checkEventOwnerOn p.owner
  if db.processedOn p.channel p.event then return (false, db)
  else do
    db.requireSourceOn p.channel p.sourceJob p.sourceRevision
    let row ← need ((db.receivers.get p.chain).filter fun row =>
      row.revision = p.revision && row.revision < i64Max) .staleCursor
    let db := { db with
      receivers := db.receivers.modify p.chain fun _ =>
        { row with
          revision := row.revision + 1
          checkpoint := p.candidate.checkpoint
          nextN := p.candidate.nextPosition } }
    let db := db.wakeChainOn p.chain p.keyRevision p.candidate.nextPosition.toNat
    return (true, { db with
      processed := db.processed.set (p.channel, p.event) 1
      pending := db.pending.erase (p.channel, p.event) })

def transcribe (installed : Bool) (transcript : Except LogError Unit) : Except LogError Unit :=
  if installed then transcript else .ok ()

/-- The transaction that installs a receive together with its transcript, which may fail. -/
def commitReception (owner : EventOwner) (p : PreparedChannelReceive Key)
    (transcript : Except LogError Unit) : Except LogError (Bool × ReceiverTables Key) := do
  db.checkEventOwnerOn owner
  let (installed, db) ← db.installReceiveOn p
  transcribe installed transcript
  return (installed, db)

end ReceiverTables

/-! ### Selection -/

def pendingCharge (storedBytes : ℕ) : Except LogError ℕ :=
  need (if storedBytes * 4 ≤ usizeMax then checkedAdd usizeMax (storedBytes * 4) 1024 else none)
    (.corruptFile "invalid channel pending charge")

/-- The first of some events, as many as may be charged together. -/
def readPage : List (EventId × ℕ) → ℕ → List EventId → Except LogError (List EventId)
  | [], _, result => .ok result
  | (id, storedBytes) :: rest, bytes, result =>
    match pendingCharge storedBytes with
    | .error e => .error e
    | .ok charge =>
      if bytes + charge ≤ channelPendingBytes then readPage rest (bytes + charge) (result ++ [id])
      else if result = [] then .error (.pageBudgetTooSmall charge)
      else .ok result

namespace ReceiverTables

variable {Key : Type} (db : ReceiverTables Key)

def listed (rows : List ((ConversationId × EventId) × PendingRow)) : List (EventId × ℕ) :=
  (rows.filterMap fun r => (db.retained.get r.1.2).map fun e => (r.1.2, e.2)).take 64

def waitsFor (channel : ConversationId) (kind : EventKind) (excluded : Option EventId)
    (reason : WaitReason) (r : (ConversationId × EventId) × PendingRow) : Bool :=
  r.1.1 = channel && r.2.kind = kind && r.2.reason = reason && r.2.admitted && excluded ≠ some r.1.2

def freshPage (channel : ConversationId) (kind : EventKind) (excluded : Option EventId) :
    Except LogError (List EventId) :=
  readPage (db.listed (db.pending.listBy (fun r => toLex (r.2.ordinal, r.1.2))
    (waitsFor channel kind excluded .fresh))) 0 []

def keyPage (chain : ChainId) (kind : EventKind) (excluded : Option EventId) (revision : ℕ) :
    Except LogError (List EventId) :=
  readPage (db.listed (db.pending.listBy
    (fun r => toLex (r.2.attemptRevision, toLex (r.2.ordinal, r.1.2)))
    fun r => waitsFor chain.channel kind excluded .key r && r.2.author = chain.author &&
      r.2.epoch = some chain.epoch && r.2.attemptRevision < revision)) 0 []

def gapPage (chain : ChainId) (kind : EventKind) (excluded : Option EventId) (position : ℕ) :
    Except LogError (List EventId) :=
  readPage (db.listed (db.pending.listBy (fun r => toLex (r.2.wakeAt, toLex (r.2.ordinal, r.1.2)))
    fun r => waitsFor chain.channel kind excluded .gap r && r.2.author = chain.author &&
      r.2.epoch = some chain.epoch && r.2.wakeAt ≤ position)) 0 []

/-- The place of a chain among those that may have become able to open more. -/
def retryPlace (r : (ChainId × EventKind) × RetryChain) : String ×ₗ ℕ :=
  toLex (r.1.1.author, r.1.1.epoch)

/-- A chain of a channel that may have become able to open more of a kind. -/
def retryHere (channel : ConversationId) (kind : EventKind)
    (r : (ChainId × EventKind) × RetryChain) :
    Bool :=
  r.1.1.channel = channel && r.1.2 = kind

/-- The next chain that may have become able to open more, after one; from the first again at the
end. -/
def nextRetry (channel : ConversationId) (kind : EventKind) (after : Option (String × ℕ)) :
    Option ((ChainId × EventKind) × RetryChain) :=
  (db.retryChains.first retryPlace fun r => retryHere channel kind r &&
    after.all fun a => decide (toLex a < retryPlace r)) <|>
    db.retryChains.first retryPlace (retryHere channel kind)

/-- The events of a chain that may have become ready: those that waited for a key, or else those
that waited for a position. -/
def retryIds (chain : ChainId) (kind : EventKind) (excluded : Option EventId) (row : RetryChain) :
    Except LogError (List EventId) := do
  let ids ← db.keyPage chain kind excluded row.revision
  if ids = [] then db.gapPage chain kind excluded row.nextN else .ok ids

/-- The next selection from a chain that may have become able to open more. A chain without any more
such events is taken out. -/
def retryPage (channel : ConversationId) (kind : EventKind) (after : Option (String × ℕ))
    (excluded : Option EventId) :
      Except LogError (Option (PendingChannelPage × ReceiverTables Key)) :=
  match db.nextRetry channel kind after with
  | none => .ok none
  | some ((chain, _), row) => do
    let ids ← db.retryIds chain kind excluded row
    return some (⟨ids, true⟩, { db with
      schedule := db.schedule.modify (channel, kind) fun _ =>
        ⟨false, some (chain.author, chain.epoch)⟩
      retryChains := if ids = [] then db.retryChains.erase (chain, kind) else db.retryChains })

/-- The next selection from the events that were not tried yet, or `none`. -/
def freshSelection (channel : ConversationId) (kind : EventKind) (excluded : Option EventId) :
    Except LogError (Option (PendingChannelPage × ReceiverTables Key)) := do
  let ids ← db.freshPage channel kind excluded
  return if ids = [] then none else some (⟨ids, true⟩, { db with
    schedule := db.schedule.modify (channel, kind) fun row => { row with preferRetry := true } })

def orElse (first second : Except LogError (Option (PendingChannelPage × ReceiverTables Key))) :
    Except LogError (Option (PendingChannelPage × ReceiverTables Key)) := do
  match ← first with
  | some page => return some page
  | none => second

/-- The next selection of a channel and kind, by turns of events that were not tried yet and of
chains that may have become able to open more. -/
def select (channel : ConversationId) (kind : EventKind) (excluded : Option EventId)
    (row : ScheduleRow) : Except LogError (Option (PendingChannelPage × ReceiverTables Key)) :=
  if row.preferRetry then
    orElse (db.retryPage channel kind row.after excluded) (db.freshSelection channel kind excluded)
  else orElse (db.freshSelection channel kind excluded)
    (db.retryPage channel kind row.after excluded)

/-- **A selection of waiting events** of a channel and kind. -/
def pendingPageExcluding (owner : EventOwner) (channel : ConversationId) (kind : EventKind)
    (excluded : Option EventId) : Except LogError (PendingChannelPage × ReceiverTables Key) := do
  ensure (isReceived kind = true) .invalidPageBudget
  db.checkEventOwnerOn owner
  match (db.current.get channel).filter fun row => row.ownerAccount = owner.account with
  | none => return (⟨[], false⟩, db)
  | some row => do
    db.requireSourceOn channel row.sourceJob row.sourceRevision
    let db := { db with schedule := db.schedule.insertOrIgnore (channel, kind) {} }
    let found ← db.select channel kind excluded ((db.schedule.get (channel, kind)).getD {})
    return found.getD (⟨[], false⟩, db)

end ReceiverTables

end MeshTalk.Channel
