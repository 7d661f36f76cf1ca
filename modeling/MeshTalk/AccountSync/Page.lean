import MeshTalk.Event
import MeshTalk.Lib.Outcome
import Mathlib.Tactic.Ring

/-! # Pages of account history on the wire

How a page of history travels between two devices of one account (`node/account_sync.rs`,
`account_sync/page.rs`): each record as a header and chunks of its bytes, the page closed by a frame
with the cursor of the next page and the digest of the archive. The receiver puts them together
again in a `HistoryPageAssembler`, which bounds the number and the size of the records. -/

namespace MeshTalk.AccountSync

open MeshTalk.Lib List

/-- An exclusive, content-addressed position in the history archive. -/
structure HistoryCursor where
  tag : ℕ
  id : EventId
deriving DecidableEq

theorem HistoryCursor.toLex_injective :
    Function.Injective fun c : HistoryCursor => toLex (c.tag, c.id) := by
  rintro ⟨t, i⟩ ⟨t', i'⟩ h
  have heq : (t, i) = (t', i') := toLex.injective h
  injection heq with ht hi
  subst ht hi
  rfl

instance : LinearOrder HistoryCursor := LinearOrder.lift' _ HistoryCursor.toLex_injective

def maxChunk : ℕ := 16 * 1024

def maxRecord : ℕ := 256 * 1024

def recordsPerPage : ℕ := 16

/-- What a direct message says of itself. -/
structure DmEnvelope where
  msgId : EventId
  senderAccount : String
  recipientAccount : String
  body : List UInt8
deriving DecidableEq

/-- The codec of direct messages, and the conversation of two accounts. -/
class Envelopes where
  decode : List UInt8 → Option DmEnvelope
  accountConversationId : String → String → ConversationId

structure BackfillRecord where
  conv : ConversationId
  sender : String
  wallClock : ℕ
  plaintext : List UInt8
  eventId : EventId
deriving DecidableEq

structure ChannelRecord where
  conversation : ConversationId
  sender : String
  wallClock : ℕ
  eventId : EventId
  plaintext : List UInt8
deriving DecidableEq

structure FileCardRecord where
  host : ConversationId
  peerAccount : Option String
  sender : String
  wallClock : ℕ
  eventId : EventId
  payload : List UInt8
deriving DecidableEq

/-- A record of history: a direct message, a message of a group, a file message. -/
inductive HistoryRecord where
  | direct (r : BackfillRecord)
  | channel (r : ChannelRecord)
  | fileCard (r : FileCardRecord)
deriving DecidableEq

/-- The frames that carry records. Every other frame of the protocol is `other` to the assembler. -/
inductive AccountHistoryFrame where
  | recordHeader (conversation : ConversationId) (sender : String) (wallClock : ℕ)
      (eventId : EventId) (totalLen : ℕ)
  | channelHeader (channel : ConversationId) (sender : String) (wallClock : ℕ)
      (eventId : EventId) (totalLen : ℕ)
  | fileCardHeader (host : ConversationId) (peerAccount : Option String) (sender : String)
      (wallClock : ℕ) (eventId : EventId) (totalLen : ℕ)
  | recordChunk (bytes : List UInt8)
  | complete (nextCursor : Option HistoryCursor) (digest : BitVec 256)
  | other
deriving DecidableEq

inductive NodeError where
  | channel (message : String)
  | authorization (message : String)
  | pageBudgetTooSmall (required : ℕ)
deriving DecidableEq

/-! ### The receiver -/

structure PendingRecord where
  kind : ℕ
  conversation : ConversationId
  peerAccount : Option String
  sender : String
  wallClock : ℕ
  eventId : EventId
  totalLen : ℕ
  plaintext : List UInt8
deriving DecidableEq

def PendingRecord.extend (p : PendingRecord) (bytes : List UInt8) : PendingRecord :=
  { p with plaintext := p.plaintext ++ bytes }

def otherAccount (own : String) (env : DmEnvelope) : Option String :=
  if env.senderAccount = own then some env.recipientAccount
  else if env.recipientAccount = own then some env.senderAccount
  else none

section
variable [Envelopes]

/-- The record that was received; a direct message must be one of this account, and its header must
agree with it. -/
def PendingRecord.finish (p : PendingRecord) (ownAccountId : String) : Option HistoryRecord :=
  if p.plaintext.length ≠ p.totalLen then none
  else if p.kind = 2 then
    some (.fileCard ⟨p.conversation, p.peerAccount, p.sender, p.wallClock, p.eventId, p.plaintext⟩)
  else if p.kind = 1 then
    some (.channel ⟨p.conversation, p.sender, p.wallClock, p.eventId, p.plaintext⟩)
  else if p.kind ≠ 0 then none
  else match Envelopes.decode p.plaintext with
    | none => none
    | some env =>
      if env.msgId ≠ p.eventId ∨ env.senderAccount ≠ p.sender then none
      else match otherAccount ownAccountId env with
        | none => none
        | some other =>
          if Envelopes.accountConversationId ownAccountId other ≠ p.conversation then none
          else some (.direct ⟨p.conversation, p.sender, p.wallClock, p.plaintext, p.eventId⟩)

structure HistoryPageCompletion where
  records : List HistoryRecord
  nextCursor : Option HistoryCursor
  digest : BitVec 256
deriving DecidableEq

/-- Owns the ordering and size limits for one inbound history page. -/
structure HistoryPageAssembler where
  pending : Option PendingRecord
  records : List HistoryRecord
deriving DecidableEq

namespace HistoryPageAssembler

def new : HistoryPageAssembler := ⟨none, []⟩

def header (a : HistoryPageAssembler) (p : PendingRecord) (error : String) :
    Except NodeError (HistoryPageAssembler × Option HistoryPageCompletion) :=
  if a.pending.isSome then .error (.channel "unexpected history frame")
  else if recordsPerPage ≤ a.records.length ∨ p.totalLen = 0 ∨ maxRecord < p.totalLen then
    .error (.channel error)
  else .ok ({ a with pending := some p }, none)

/-- A chunk: more bytes of the pending record, which may now be complete. -/
def chunk (a : HistoryPageAssembler) (bytes : List UInt8) (ownAccountId : String) :
    Except NodeError (HistoryPageAssembler × Option HistoryPageCompletion) :=
  if bytes.isEmpty ∨ maxChunk < bytes.length then
    .error (.channel "invalid account-history chunk")
  else match a.pending with
    | none => .error (.channel "unexpected history chunk")
    | some record =>
      if record.totalLen < record.plaintext.length + bytes.length then
        .error (.channel "history record overflow")
      else
        if (record.extend bytes).plaintext.length = record.totalLen then
          match (record.extend bytes).finish ownAccountId with
          | none => .error (.channel "invalid account-history record")
          | some r => .ok (⟨none, a.records ++ [r]⟩, none)
        else .ok ({ a with pending := some (record.extend bytes) }, none)

def accept (a : HistoryPageAssembler) (ownAccountId : String) :
    AccountHistoryFrame → Except NodeError (HistoryPageAssembler × Option HistoryPageCompletion)
  | .recordHeader conversation sender wallClock eventId totalLen =>
    a.header ⟨0, conversation, none, sender, wallClock, eventId, totalLen, []⟩
      "too many account-history records"
  | .channelHeader channel sender wallClock eventId totalLen =>
    a.header ⟨1, channel, none, sender, wallClock, eventId, totalLen, []⟩
      "invalid channel-history record"
  | .fileCardHeader host peerAccount sender wallClock eventId totalLen =>
    a.header ⟨2, host, peerAccount, sender, wallClock, eventId, totalLen, []⟩
      "invalid file-card record length"
  | .recordChunk bytes => a.chunk bytes ownAccountId
  | .complete nextCursor digest =>
    if a.pending.isNone then .ok ({ a with records := [] }, some ⟨a.records, nextCursor, digest⟩)
    else .error (.channel "unexpected history frame")
  | .other => .error (.channel "unexpected history frame")

def feed (ownAccountId : String) : HistoryPageAssembler → List AccountHistoryFrame →
    Except NodeError (HistoryPageAssembler × Option HistoryPageCompletion)
  | a, [] => .ok (a, none)
  | a, f :: rest =>
    match a.accept ownAccountId f with
    | .error e => .error e
    | .ok (a', some c) => .ok (a', some c)
    | .ok (a', none) => feed ownAccountId a' rest

end HistoryPageAssembler
end

/-! ### The sender -/

namespace HistoryRecord

def payload : HistoryRecord → List UInt8
  | .direct r => r.plaintext
  | .channel r => r.plaintext
  | .fileCard r => r.payload

def header : HistoryRecord → AccountHistoryFrame
  | .direct r =>
    .recordHeader r.conv r.sender r.wallClock r.eventId (r.plaintext.length % 2 ^ 32)
  | .channel r =>
    .channelHeader r.conversation r.sender r.wallClock r.eventId (r.plaintext.length % 2 ^ 32)
  | .fileCard r =>
    .fileCardHeader r.host r.peerAccount r.sender r.wallClock r.eventId (r.payload.length % 2 ^ 32)

end HistoryRecord

/-- Bytes cut into pieces of `n`, the last one shorter. -/
def chunks (n : ℕ) (bytes : List UInt8) : List (List UInt8) :=
  (List.range ((bytes.length + (n - 1)) / n)).map fun i => (bytes.drop (i * n)).take n

def HistoryRecord.frames (r : HistoryRecord) : List AccountHistoryFrame :=
  r.header :: (chunks maxChunk r.payload).map .recordChunk

def pageFrames (records : List HistoryRecord) (nextCursor : Option HistoryCursor)
    (digest : BitVec 256) : List AccountHistoryFrame :=
  records.flatMap HistoryRecord.frames ++ [.complete nextCursor digest]

def HistoryRecord.pending (r : HistoryRecord) (plaintext : List UInt8) : PendingRecord :=
  match r with
  | .direct r =>
    ⟨0, r.conv, none, r.sender, r.wallClock, r.eventId, r.plaintext.length % 2 ^ 32, plaintext⟩
  | .channel r => ⟨1, r.conversation, none, r.sender, r.wallClock, r.eventId,
      r.plaintext.length % 2 ^ 32, plaintext⟩
  | .fileCard r => ⟨2, r.host, r.peerAccount, r.sender, r.wallClock, r.eventId,
      r.payload.length % 2 ^ 32, plaintext⟩

namespace HistoryRecord

@[simp] theorem pending_plaintext (r : HistoryRecord) (bs) :
    (r.pending bs).plaintext = bs := by cases r <;> rfl

theorem pending_totalLen (r : HistoryRecord) (bs) :
    (r.pending bs).totalLen = r.payload.length % 2 ^ 32 := by cases r <;> rfl

@[simp] theorem pending_extend (r : HistoryRecord) (bs cs) :
    (r.pending bs).extend cs = r.pending (bs ++ cs) := by cases r <;> rfl

end HistoryRecord

theorem take_succ_chunk (bs : List UInt8) (i n) :
    bs.take (i * n) ++ (bs.drop (i * n)).take n = bs.take ((i + 1) * n) := by
  rw [Nat.succ_mul, take_add]

theorem payload_mod {bs : List UInt8} (hle : bs.length ≤ maxRecord) :
    bs.length % 2 ^ 32 = bs.length := by
  rw [Nat.mod_eq_of_lt]
  unfold maxRecord at hle
  omega

/-! ### A page is put together again -/

variable [Envelopes] {own : String}

open HistoryPageAssembler

theorem feed_append {a a' xs ys} (h : feed own a xs = .ok (a', none)) :
    feed own a (xs ++ ys) = feed own a' ys := by
  induction xs generalizing a with
  | nil =>
    cases h
    rfl
  | cons f rest ih =>
    rw [feed] at h
    rw [cons_append, feed]
    cases hf : a.accept own f with
    | error e => simp [hf] at h
    | ok p =>
      obtain ⟨b, c⟩ := p
      cases c with
      | none => simp only [hf] at h ⊢; exact ih h
      | some c => simp [hf] at h

namespace HistoryRecord

/-- A record the receiver takes: of a size it accepts, and one it can read. -/
structure Sendable (own : String) (r : HistoryRecord) : Prop where
  pos : 0 < r.payload.length
  le : r.payload.length ≤ maxRecord
  finish : (r.pending r.payload).finish own = some r

theorem Sendable.totalLen {r : HistoryRecord} (h : r.Sendable own) (bs) :
    (r.pending bs).totalLen = r.payload.length := by
  rw [pending_totalLen, payload_mod h.le]

theorem sendable_fileCard {r : FileCardRecord} (hpos : 0 < r.payload.length)
    (hle : r.payload.length ≤ maxRecord) : (HistoryRecord.fileCard r).Sendable own := by
  refine ⟨hpos, hle, ?_⟩
  simp only [pending, payload, PendingRecord.finish, payload_mod hle]
  simp

theorem sendable_channel {r : ChannelRecord} (hpos : 0 < r.plaintext.length)
    (hle : r.plaintext.length ≤ maxRecord) : (HistoryRecord.channel r).Sendable own := by
  refine ⟨hpos, hle, ?_⟩
  simp only [pending, payload, PendingRecord.finish, payload_mod hle]
  simp

theorem sendable_direct {r env} {other : String} (hpos : 0 < r.plaintext.length)
    (hle : r.plaintext.length ≤ maxRecord) (henv : Envelopes.decode r.plaintext = some env)
    (hid : env.msgId = r.eventId) (hfrom : env.senderAccount = r.sender)
    (hother : otherAccount own env = some other)
    (hconv : Envelopes.accountConversationId own other = r.conv) :
    (HistoryRecord.direct r).Sendable own := by
  refine ⟨hpos, hle, ?_⟩
  simp only [pending, payload, PendingRecord.finish, payload_mod hle]
  simp [henv, hid, hfrom, hother, hconv]

variable {r : HistoryRecord} {rs : List HistoryRecord}

theorem accept_header (h : r.Sendable own) (hlen : rs.length < recordsPerPage) :
    accept ⟨none, rs⟩ own r.header = .ok (⟨some (r.pending []), rs⟩, none) := by
  have hmod : r.payload.length % 2 ^ 32 = r.payload.length := by
    rw [← pending_totalLen r [], h.totalLen]
  have hpos := h.pos
  have hle := h.le
  have hgood : ¬ (recordsPerPage ≤ rs.length ∨ r.payload.length % 2 ^ 32 = 0 ∨
      maxRecord < r.payload.length % 2 ^ 32) := by
    rw [hmod]
    omega
  cases r <;> exact if_neg hgood

variable {cs : List UInt8}

omit [Envelopes] in
theorem chunk_good (hne : cs ≠ []) (hle : cs.length ≤ maxChunk) :
    ¬ (cs.isEmpty ∨ maxChunk < cs.length) := by
  rw [List.isEmpty_iff, not_or]
  exact ⟨hne, by omega⟩

section

variable (h : r.Sendable own)
include h

theorem accept_chunk (rs : List HistoryRecord) (bs) (hne : cs ≠ []) (hle : cs.length ≤ maxChunk)
    (hlt : bs.length + cs.length < r.payload.length) :
    accept ⟨some (r.pending bs), rs⟩ own (.recordChunk cs) =
      .ok (⟨some (r.pending (bs ++ cs)), rs⟩, none) := by
  simp only [accept, chunk, if_neg (chunk_good hne hle), h.totalLen, pending_plaintext,
    pending_extend, length_append]
  rw [if_neg (by omega), if_neg (by omega)]

theorem accept_last {bs : List UInt8} (hne : cs ≠ [])
    (hle : cs.length ≤ maxChunk) (heq : bs ++ cs = r.payload) :
    accept ⟨some (r.pending bs), rs⟩ own (.recordChunk cs) = .ok (⟨none, rs ++ [r]⟩, none) := by
  have hlen : bs.length + cs.length = r.payload.length := by rw [← heq, length_append]
  simp only [accept, chunk, if_neg (chunk_good hne hle), h.totalLen, pending_plaintext,
    pending_extend, length_append]
  rw [if_neg (by omega), if_pos hlen, heq, h.finish]

theorem feed_chunks (rs : List HistoryRecord) (i) (hi : i * maxChunk < r.payload.length) :
    feed own ⟨some (r.pending []), rs⟩ ((range i).map fun i =>
      .recordChunk ((r.payload.drop (i * maxChunk)).take maxChunk)) =
      .ok (⟨some (r.pending (r.payload.take (i * maxChunk))), rs⟩, none) := by
  induction i with
  | zero => simp [feed]
  | succ i ih =>
    have hpos : 0 < maxChunk := by decide
    have hsucc : (i + 1) * maxChunk = i * maxChunk + maxChunk := Nat.succ_mul i maxChunk
    have hlen : ((r.payload.drop (i * maxChunk)).take maxChunk).length = maxChunk := by
      rw [length_take, length_drop]
      omega
    have hstep := accept_chunk h rs (r.payload.take (i * maxChunk))
      (length_pos_iff.mp (by omega)) (Nat.le_of_eq hlen)
      (by rw [length_take, hlen]; omega)
    rw [take_succ_chunk] at hstep
    rw [range_succ, map_append, feed_append (ih (by omega)), map_singleton, feed,
      hstep]
    rfl

/-- **The frames of one record** leave the assembler with that record. -/
theorem feed_record (hlen : rs.length < recordsPerPage) :
    feed own ⟨none, rs⟩ r.frames = .ok (⟨none, rs ++ [r]⟩, none) := by
  have hpos : 0 < maxChunk := by decide
  have hpay := h.pos
  -- the last chunk starts where the whole ones before it end
  obtain ⟨k, hk⟩ : ∃ k, (r.payload.length + (maxChunk - 1)) / maxChunk = k + 1 :=
    Nat.exists_eq_succ_of_ne_zero (Nat.div_pos (by omega) hpos).ne'
  have hdiv := Nat.div_add_mod (r.payload.length + (maxChunk - 1)) maxChunk
  have hmod := Nat.mod_lt (r.payload.length + (maxChunk - 1)) hpos
  rw [hk, Nat.mul_succ, Nat.mul_comm] at hdiv
  have hlt : k * maxChunk < r.payload.length := by omega
  have hge : r.payload.length ≤ k * maxChunk + maxChunk := by omega
  have hcut : r.payload.take (k * maxChunk) ++ (r.payload.drop (k * maxChunk)).take maxChunk =
      r.payload := by
    rw [take_succ_chunk, take_of_length_le (by rw [Nat.succ_mul]; omega)]
  have hlast : ((r.payload.drop (k * maxChunk)).take maxChunk).length ≤ maxChunk :=
    length_take_le _ _
  have hne : (r.payload.drop (k * maxChunk)).take maxChunk ≠ [] := by
    apply length_pos_iff.mp
    rw [length_take, length_drop]
    omega
  rw [frames, feed, accept_header h hlen]
  simp only [chunks, hk, map_map]
  rw [range_succ, map_append]
  refine (feed_append (feed_chunks h rs k hlt)).trans ?_
  rw [map_singleton, feed, Function.comp, accept_last h hne hlast hcut]
  rfl

end

theorem feed_records {own} : ∀ {records rs},
    (∀ r ∈ records, r.Sendable own) → rs.length + records.length ≤ recordsPerPage →
    feed own ⟨none, rs⟩ (records.flatMap frames) = .ok (⟨none, rs ++ records⟩, none)
  | [], rs, _, _ => by simp [feed]
  | r :: records, rs, hr, hlen => by
    rw [length_cons] at hlen
    rw [flatMap_cons, feed_append (feed_record (hr r mem_cons_self) (by omega)),
      feed_records (fun x hx => hr x (mem_cons_of_mem _ hx))
        (by rw [length_append, length_singleton]; omega), append_assoc]
    rfl

end HistoryRecord

/-- **The frames of a page** are put together to exactly its records, its cursor and its digest. -/
theorem feed_page {records} (hr : ∀ r ∈ records, r.Sendable own)
    (hlen : records.length ≤ recordsPerPage) (next digest) :
    feed own new (pageFrames records next digest) = .ok (new, some ⟨records, next, digest⟩) := by
  have h : feed own ⟨none, []⟩ (records.flatMap HistoryRecord.frames) =
    .ok (⟨none, [] ++ records⟩, none) :=
    HistoryRecord.feed_records hr (by simpa using hlen)
  exact feed_append h

end MeshTalk.AccountSync
