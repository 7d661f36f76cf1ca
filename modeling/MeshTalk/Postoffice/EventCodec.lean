import MeshTalk.Event
import MeshTalk.Lib.Codec
import Mathlib.Tactic.IntervalCases

/-! # Events as bytes

The binary format of an event (`eventlog/event.rs`, as serialized by bincode with numbers of fixed
width): ids as 32 bytes, numbers as eight bytes with the least significant first, lists after their
length, the kind as four bytes. -/

namespace MeshTalk.Postoffice

open Lib

def wordBytes (k : BitVec 256) : List UInt8 := beBytes 32 k.toNat

/-- The value of bytes, the most significant first. -/
def word (bs : List UInt8) : BitVec 256 := BitVec.ofNat 256 (ofLe bs.reverse)

def ofWordBytes (bs : List UInt8) : Option (BitVec 256) :=
    if bs.length = 32 then some (word bs) else none

@[simp] theorem length_wordBytes (k) : (wordBytes k).length = 32 := length_beBytes 32 _

theorem ofWordBytes_wordBytes (k) : ofWordBytes (wordBytes k) = some k := by
  have hk : k.toNat < 256 ^ 32 := k.isLt
  rw [ofWordBytes, if_pos (length_wordBytes k), word, wordBytes, ofLe_reverse_beBytes hk,
    BitVec.ofNat_toNat, BitVec.setWidth_eq]

theorem wordBytes_ofWordBytes {bs k} (h : ofWordBytes bs = some k) : wordBytes k = bs := by
  unfold ofWordBytes at h
  split at h
  · next hlen =>
    cases h
    obtain ⟨hlt, hback⟩ := beBytes_ofLe_reverse hlen
    rw [wordBytes, word, BitVec.toNat_ofNat, Nat.mod_eq_of_lt (b := 2 ^ 256) hlt, hback]
  · cases h

theorem wordBytes_injective {k k'} (h : wordBytes k = wordBytes k') : k = k' :=
  Option.mem_unique (ofWordBytes_wordBytes k) (h ▸ ofWordBytes_wordBytes k')

def wordCodec : ByteFormat (BitVec 256) :=
  (ByteFormat.fixed 32).imap wordBytes ofWordBytes ofWordBytes_wordBytes fun _ _ h =>
    wordBytes_ofWordBytes h

def kindOfIndex (n : ℕ) : Option EventKind :=
  [.message, .edit, .delete, .react, .readMarker, .membershipChange, .keyRotation,
    .fileManifest, .profile,
    .channelRename, .channelDissolve, .channelOwnerTransfer, .channelLeave, .channelAccept,
    .channelReplica, .channelHistoryPolicy, .channelJoinHistory, .channelAccountAuthority,
    .channelDeviceInheritance, .channelMetadata][n]?

theorem kindOfIndex_index (k) : kindOfIndex k.index = some k := by cases k <;> rfl

theorem index_kindOfIndex {n k} (h : kindOfIndex n = some k) : k.index = n := by
  have hn : n < 20 := by
    obtain ⟨hlt, -⟩ := List.getElem?_eq_some_iff.mp h
    exact hlt
  interval_cases n <;> cases h <;> rfl

def kindCodec : ByteFormat EventKind :=
  (ByteFormat.number 4).imap EventKind.index kindOfIndex kindOfIndex_index fun _ _ h =>
    index_kindOfIndex h

def eventIdCodec : ByteFormat EventId :=
  wordCodec.imap EventId.bytes (fun k => some ⟨k⟩) (fun _ => rfl) fun _ _ h => by cases h; rfl

def conversationIdCodec : ByteFormat ConversationId :=
  wordCodec.imap ConversationId.bytes (fun k => some ⟨k⟩) (fun _ => rfl) fun _ _ h =>
    by cases h; rfl

def authorCodec : ByteFormat Author :=
  wordCodec.imap Author.ed25519Pub (fun k => some ⟨k⟩) (fun _ => rfl) fun _ _ h => by cases h; rfl

abbrev Fields := EventId × ConversationId × Author × ℕ × List EventId × ℕ × ℕ ×
    EventKind × List UInt8 ×
  List UInt8

def fieldsCodec : ByteFormat Fields :=
  eventIdCodec.pair <| conversationIdCodec.pair <| authorCodec.pair <| (ByteFormat.number 8).pair <|
    eventIdCodec.list.pair <| (ByteFormat.number 8).pair <| (ByteFormat.number 8).pair <|
      kindCodec.pair <|
      ByteFormat.byte.list.pair ByteFormat.byte.list

def toFields (e : Event) : Fields :=
  (e.id, e.conversationId, e.author, e.seq, e.parents, e.lamport, e.wallClock, e.kind,
    e.ciphertext, e.sig)

def ofFields (f : Fields) : Event :=
  ⟨f.1, f.2.1, f.2.2.1, f.2.2.2.1, f.2.2.2.2.1, f.2.2.2.2.2.1, f.2.2.2.2.2.2.1, f.2.2.2.2.2.2.2.1,
    f.2.2.2.2.2.2.2.2.1, f.2.2.2.2.2.2.2.2.2⟩

def eventCodec : ByteFormat Event :=
  fieldsCodec.imap toFields (fun f => some (ofFields f)) (fun _ => rfl) fun _ _ h => by cases h; rfl

def serialize (e : Event) : List UInt8 := eventCodec.encode e

def Fits (e : Event) : Prop := eventCodec.Valid e

theorem fits_iff {e} : Fits e ↔ e.seq < 2 ^ 64 ∧ e.lamport < 2 ^ 64 ∧ e.wallClock < 2 ^ 64 ∧
    e.parents.length < 2 ^ 64 ∧ e.ciphertext.length < 2 ^ 64 ∧ e.sig.length < 2 ^ 64 := by
  have hid (i : EventId) : eventIdCodec.Valid i := length_wordBytes i.bytes
  have hkind : kindCodec.Valid e.kind := by
    have := e.kind.index_le
    change e.kind.index < 256 ^ 4
    omega
  constructor
  · rintro ⟨-, -, -, hseq, ⟨hp, -⟩, hl, hw, -, ⟨hc, -⟩, hs, -⟩
    exact ⟨hseq, hl, hw, hp, hc, hs⟩
  · rintro ⟨hseq, hl, hw, hp, hc, hs⟩
    exact ⟨hid e.id, length_wordBytes e.conversationId.bytes, length_wordBytes e.author.ed25519Pub,
      hseq, ⟨hp, fun i _ => hid i⟩, hl, hw, hkind, ⟨hc, fun _ _ => trivial⟩, hs, fun _ _ => trivial⟩

end MeshTalk.Postoffice
