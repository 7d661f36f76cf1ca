import Mathlib.Data.List.Sort
import Mathlib.Data.List.Destutter
import Mathlib.Data.Prod.Lex

/-! # Events

The content-addressed, signed event of `eventlog/event.rs`, and the errors of the log layers.

Hashing and signatures are a parameter, the class `EventCrypto`: nothing is assumed of it here, and
a result that needs the hash to be collision free says so in its statement. -/

namespace MeshTalk

/-- The content hash that identifies an event, 32 bytes compared as in the source: in order. -/
structure EventId where
  bytes : BitVec 256
deriving DecidableEq

structure ConversationId where
  bytes : BitVec 256
deriving DecidableEq

/-- An author, identified by the Ed25519 public key. -/
structure Author where
  ed25519Pub : BitVec 256
deriving DecidableEq

theorem EventId.toNat_injective : Function.Injective fun i : EventId => i.bytes.toNat := by
  rintro ⟨a⟩ ⟨b⟩ h
  exact congrArg EventId.mk (BitVec.eq_of_toNat_eq h)

instance : LinearOrder EventId := LinearOrder.lift' _ EventId.toNat_injective

theorem Author.toNat_injective : Function.Injective fun a : Author => a.ed25519Pub.toNat := by
  rintro ⟨a⟩ ⟨b⟩ h
  exact congrArg Author.mk (BitVec.eq_of_toNat_eq h)

/-- Authors and conversations are blobs in the repository's tables, compared byte by byte. -/
instance : LinearOrder Author := LinearOrder.lift' _ Author.toNat_injective

theorem ConversationId.toNat_injective : Function.Injective fun c :
    ConversationId => c.bytes.toNat := by
  rintro ⟨a⟩ ⟨b⟩ h
  exact congrArg ConversationId.mk (BitVec.eq_of_toNat_eq h)

instance : LinearOrder ConversationId := LinearOrder.lift' _ ConversationId.toNat_injective

abbrev Key := ℕ ×ₗ EventId

def EventId.asBytes (i : EventId) : List UInt8 :=
  (List.range 32).map fun k => UInt8.ofBitVec (i.bytes.extractLsb' (8 * (31 - k)) 8)

theorem EventId.length_asBytes (i : EventId) : i.asBytes.length = 32 := by simp [asBytes]

theorem EventId.asBytes_injective : Function.Injective EventId.asBytes := by
  rintro ⟨k⟩ ⟨k'⟩ h
  refine congrArg EventId.mk (BitVec.eq_of_getLsbD_eq fun i hi => ?_)
  -- bit `i` is in the byte number `31 - i / 8`
  have hbyte := List.map_inj_left.mp h (31 - i / 8) (List.mem_range.mpr (by omega))
  have hbit := congrArg (fun b : UInt8 => b.toBitVec.getLsbD (i % 8)) hbyte
  simp only [BitVec.getLsbD_extractLsb', Nat.mod_lt i (by decide : 8 > 0), decide_true,
    Bool.true_and] at hbit
  rwa [show 8 * (31 - (31 - i / 8)) + i % 8 = i by omega] at hbit

inductive EventKind where
  | message | edit | delete | react | readMarker | membershipChange | keyRotation | fileManifest
  | profile | channelRename | channelDissolve | channelOwnerTransfer | channelLeave | channelAccept
  | channelReplica | channelHistoryPolicy | channelJoinHistory | channelAccountAuthority
  | channelDeviceInheritance | channelMetadata
deriving DecidableEq

def EventKind.index : EventKind → ℕ
  | .message => 0 | .edit => 1 | .delete => 2 | .react => 3 | .readMarker => 4
  | .membershipChange => 5 | .keyRotation => 6 | .fileManifest => 7 | .profile => 8
  | .channelRename => 9 | .channelDissolve => 10 | .channelOwnerTransfer => 11
  | .channelLeave => 12 | .channelAccept => 13 | .channelReplica => 14
  | .channelHistoryPolicy => 15 | .channelJoinHistory => 16 | .channelAccountAuthority => 17
  | .channelDeviceInheritance => 18 | .channelMetadata => 19

theorem EventKind.index_injective : Function.Injective EventKind.index := by
  intro a b h
  cases a <;> cases b <;> first | rfl | exact absurd h (by decide)

theorem EventKind.index_le (k : EventKind) : k.index ≤ 19 := by cases k <;> decide

/-- The hashed part of an event: everything but the id and the signature. -/
structure EventContent where
  conversationId : ConversationId
  author : Author
  seq : ℕ
  parents : List EventId
  lamport : ℕ
  wallClock : ℕ
  kind : EventKind
  ciphertext : List UInt8
deriving DecidableEq

/-- A single content-addressed, signed event of the log. -/
structure Event where
  id : EventId
  conversationId : ConversationId
  author : Author
  seq : ℕ
  parents : List EventId
  lamport : ℕ
  wallClock : ℕ
  kind : EventKind
  ciphertext : List UInt8
  sig : List UInt8
deriving DecidableEq

/-- The hash and the signature check events rest on: `hashContent` is SHA-256 over the domain
separator and the serialized content, `verify` the Ed25519 check of a signature of a message. -/
class EventCrypto where
  hashContent : EventContent → EventId
  verify : Author → List UInt8 → List UInt8 → Bool

def eventDomain : String := "mesh-talk-event-v1"

def signingInput (id : EventId) : List UInt8 := eventDomain.toUTF8.data.toList ++ id.asBytes

namespace Event

def content (e : Event) : EventContent :=
  ⟨e.conversationId, e.author, e.seq, e.parents, e.lamport, e.wallClock, e.kind, e.ciphertext⟩

def key (e : Event) : Key := toLex (e.lamport, e.id)

section Crypto

variable [EventCrypto]

def recomputeId (e : Event) : EventId := EventCrypto.hashContent e.content

def verifyIntegrity (e : Event) : Bool := e.id = e.recomputeId

/-- The signature has 64 bytes and is the author's over the id. -/
def verifySignature (e : Event) : Bool :=
  e.sig.length = 64 && EventCrypto.verify e.author (signingInput e.id) e.sig

end Crypto

/-- The parents are sorted and without repetition, checked against a sorted and deduplicated
copy. -/
def isCanonical (e : Event) : Bool :=
  e.parents = (e.parents.insertionSort (· ≤ ·)).destutter (· ≠ ·)

/-- The checks of an event that look at nothing else: canonical, untampered and signed. -/
structure SelfValid [EventCrypto] (e : Event) : Prop where
  canonical : e.isCanonical = true
  integrity : e.verifyIntegrity = true
  signature : e.verifySignature = true

end Event

/-! ### Errors -/

inductive LogError where
  | admissionRejected (reason : String)
  | corruptId
  | badSignature
  | nonCanonical
  | clockExhausted
  | sequenceExhausted
  | staleCursor
  | conversationRetiring
  | relayMailboxUnavailable
  | relayCapacityUnavailable
  | relayEventTooLarge
  | invalidPageBudget
  | pageBudgetTooSmall (required : ℕ)
  | repositoryCounterExhausted
  | incompatibleEventSchema
  | missingParents (parents : List EventId)
  | authorEquivocation (author : Author) (seq : ℕ)
  | storage (text : String)
  | database (text : String)
  | serialization (text : String)
  | io (text : String)
  | corruptFile (text : String)
deriving DecidableEq

namespace LogError

/-- The failures a batch reports without aborting: those of the incoming event. -/
def isPeerRejection : LogError → Bool
  | admissionRejected _ | nonCanonical | corruptId | badSignature | missingParents _
  | authorEquivocation _ _ => true
  | _ => false

def display : LogError → String
  | admissionRejected reason => "event admission rejected: " ++ reason
  | corruptId => "event id does not match its content"
  | badSignature => "event signature did not verify"
  | nonCanonical => "event parents are not in canonical form"
  | clockExhausted => "event clock exhausted"
  | sequenceExhausted => "event author sequence exhausted"
  | conversationRetiring => "conversation retirement is in progress"
  | relayCapacityUnavailable => "local relay capacity unavailable; retry after maintenance"
  | relayEventTooLarge => "event exceeds the empty local relay capacity"
  | relayMailboxUnavailable => "relay mailbox is unavailable"
  | staleCursor => "stale event page cursor"
  | invalidPageBudget => "invalid event page budget"
  | pageBudgetTooSmall required => "event page requires " ++ toString required ++ " bytes"
  | repositoryCounterExhausted => "event repository counter exhausted"
  | incompatibleEventSchema => "incompatible event repository schema"
  | missingParents p => "missing " ++ toString p.length ++ " parent event(s)"
  | authorEquivocation _ seq => "author equivocation at seq " ++ toString seq
  | storage e => "storage error: " ++ e
  | database e => "database error: " ++ e
  | serialization m => "serialization error: " ++ m
  | io e => "io error: " ++ e
  | corruptFile m => "corrupt log file: " ++ m

end LogError

end MeshTalk
