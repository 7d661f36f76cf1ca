import MeshTalk.Event
import MeshTalk.Lib.Map
import MeshTalk.Lib.Checked

/-! # The in-memory event log

The validating index of `eventlog/store.rs`. Hash maps are finite maps and tree sets are strictly
increasing lists, so two logs with the same entries are the same value; what the source returns in
an arbitrary order is a `Finset` here. A call that takes the log mutably returns its result beside
the log it leaves. -/

namespace MeshTalk

open Lib

/-- The result of an append: a new event, or one that is already present. -/
inductive AppendOutcome where
  | appended
  | duplicate
deriving DecidableEq

/-- The in-memory event log across all conversations. -/
structure EventLog where
  /-- Every known event, by id. -/
  events : Map EventId Event
  /-- The events of a conversation in the order of `(lamport, id)`. -/
  byConversation : Map ConversationId (OrdSet Key)
  /-- The messages of an author in a conversation. -/
  messagesByAuthor : Map (ConversationId × Author) (OrdSet Key)
  replicaV2 : Finset ConversationId
  historyV3 : Finset ConversationId
  accountV4 : Finset ConversationId
  metadataV5 : Finset ConversationId
  /-- The frontier of a conversation: events not referenced as a parent. -/
  headSets : Map ConversationId (OrdSet EventId)
  /-- The highest sequence number seen per author. -/
  version : Map ConversationId (Map Author ℕ)
  /-- The highest Lamport timestamp seen. -/
  maxLamport : Map ConversationId ℕ
  /-- The id at a conversation, author and sequence number, to detect equivocation. -/
  authorSeq : Map (ConversationId × Author × ℕ) EventId

namespace EventLog

def empty : EventLog := ⟨∅, ∅, ∅, ∅, ∅, ∅, ∅, ∅, ∅, ∅, ∅⟩

instance : EmptyCollection EventLog := ⟨empty⟩

/-! ### Validation and append -/

def has (l : EventLog) (id : EventId) : Bool := (l.events.lookup id).isSome

def missingParents (l : EventLog) (e : Event) : List EventId :=
  e.parents.filter fun p => (l.events.lookup p).map Event.conversationId ≠ some e.conversationId

/-- The author already has a different event at the sequence number of `e`. -/
def equivocates (l : EventLog) (e : Event) : Bool :=
  match l.authorSeq.lookup (e.conversationId, e.author, e.seq) with
  | some existing => existing ≠ e.id
  | none => false

section Crypto

variable [EventCrypto]

/-- `true` for a new valid event, `false` for one already present. -/
def validate (l : EventLog) (e : Event) : Except LogError Bool :=
  if !e.isCanonical then .error .nonCanonical
  else if !e.verifyIntegrity then .error .corruptId
  else if !e.verifySignature then .error .badSignature
  else if l.has e.id then .ok false
  else if l.missingParents e ≠ [] then .error (.missingParents (l.missingParents e))
  else if l.equivocates e then .error (.authorEquivocation e.author e.seq)
  else .ok true

end Crypto

/-- Profile events stay out of the frontier. -/
def indexHeads (heads : Map ConversationId (OrdSet EventId)) (e : Event) :
    Map ConversationId (OrdSet EventId) :=
  if e.kind ≠ .profile then
    heads.modify e.conversationId ∅ fun s => (e.parents.foldl (fun t p => t.erase p) s).insert e.id
  else heads

def flag (kinds : List EventKind) (e : Event) (s : Finset ConversationId) :
    Finset ConversationId :=
  if e.kind ∈ kinds then insert e.conversationId s else s

/-- The kinds each protocol version introduced. -/
def replicaKinds : List EventKind := [.channelReplica]
def historyKinds : List EventKind := [.channelHistoryPolicy, .channelJoinHistory]
def accountKinds : List EventKind := [.channelAccountAuthority, .channelDeviceInheritance]
def metadataKinds : List EventKind := [.channelMetadata]

def indexTrusted (l : EventLog) (e : Event) : EventLog where
  headSets := indexHeads l.headSets e
  version := l.version.modify e.conversationId ∅ fun vv => vv.modify e.author 0 (raise e.seq)
  maxLamport := l.maxLamport.modify e.conversationId 0 (raise e.lamport)
  authorSeq := l.authorSeq.insert (e.conversationId, e.author, e.seq) e.id
  byConversation := l.byConversation.modify e.conversationId ∅ fun s => s.insert e.key
  messagesByAuthor :=
    if e.kind = .message then
      l.messagesByAuthor.modify (e.conversationId, e.author) ∅ fun s => s.insert e.key
    else l.messagesByAuthor
  replicaV2 := flag replicaKinds e l.replicaV2
  historyV3 := flag historyKinds e l.historyV3
  accountV4 := flag accountKinds e l.accountV4
  metadataV5 := flag metadataKinds e l.metadataV5
  events := l.events.insert e.id e

def append [EventCrypto] (l : EventLog) (e : Event) : Except LogError AppendOutcome × EventLog :=
  match l.validate e with
  | .error err => (.error err, l)
  | .ok false => (.ok .duplicate, l)
  | .ok true => (.ok .appended, l.indexTrusted e)

/-! ### Queries -/

/-- The conversation holds a kind that peers before the second channel protocol cannot decode. -/
def requiresChannelV2 (l : EventLog) (c : ConversationId) : Bool := c ∈ l.replicaV2
def requiresChannelV3 (l : EventLog) (c : ConversationId) : Bool := c ∈ l.historyV3
def requiresChannelV4 (l : EventLog) (c : ConversationId) : Bool := c ∈ l.accountV4
def requiresChannelV5 (l : EventLog) (c : ConversationId) : Bool := c ∈ l.metadataV5

def allEventIds (l : EventLog) : Finset EventId := l.events.keys

def conversations (l : EventLog) : Finset ConversationId := l.byConversation.keys

def get (l : EventLog) (id : EventId) : Option Event := l.events.lookup id

def authoredEvent (l : EventLog) (c : ConversationId) (a : Author) (seq : ℕ) : Option Event :=
  (l.authorSeq.lookup (c, a, seq)).bind fun id => l.events.lookup id

def eventsOf (l : EventLog) (c : ConversationId) : List Event :=
  match l.byConversation.lookup c with
  | some ids => ids.toList.filterMap fun k => l.events.lookup (ofLex k).2
  | none => []

def messageKeysAfter (l : EventLog) (c : ConversationId) (a : Author) (cursor : Option Key)
    (limit : ℕ) : List Key :=
  match l.messagesByAuthor.lookup (c, a) with
  | none => []
  | some keys =>
    let target := min limit keys.toList.length
    match cursor with
    | some after =>
      let result := (keys.toList.filter fun k => after < k).take target
      if result.length < target then result ++ keys.toList.take (target - result.length)
      else result
    | none => keys.toList.take target

def heads (l : EventLog) (c : ConversationId) : List EventId :=
  ((l.headSets.lookup c).map OrdSet.toList).getD []

/-- The highest sequence number seen per author. -/
def versionVector (l : EventLog) (c : ConversationId) : Map Author ℕ :=
  (l.version.lookup c).getD ∅

def nextSequence (l : EventLog) (c : ConversationId) (a : Author) : Except LogError ℕ :=
  let last := ((l.version.lookup c).bind fun v => v.lookup a).getD 0
  match checkedAdd u64Max last 1 with
  | some next => .ok next
  | none => .error .sequenceExhausted

/-- The parents and the Lamport time a new local event should use. -/
def prepare (l : EventLog) (c : ConversationId) : Except LogError (List EventId × ℕ) :=
  match checkedAdd u64Max ((l.maxLamport.lookup c).getD 0) 1 with
  | some lamport => .ok (l.heads c, lamport)
  | none => .error .clockExhausted

theorem heads_sorted (l : EventLog) (c) : (l.heads c).Pairwise (· < ·) := by
  unfold heads
  cases l.headSets.lookup c with
  | none => simp
  | some s => exact s.sorted

/-- The listing, each key read back as the event with its id. -/
theorem eventsOf_eq (l : EventLog) (c) :
    l.eventsOf c = (l.byConversation.setAt c).toList.filterMap fun k =>
      l.events.lookup (ofLex k).2 := by
  unfold eventsOf Map.setAt
  cases l.byConversation.lookup c <;> simp

/-! ### What an append does -/

variable {l : EventLog} {e : Event}

theorem missingParents_eq_nil : l.missingParents e = [] ↔
    ∀ p ∈ e.parents, ∃ e', l.events.lookup p = some e' ∧ e'.conversationId = e.conversationId := by
  simp only [missingParents, List.filter_eq_nil_iff, ne_eq, decide_not, Bool.not_eq_eq_eq_not,
    Bool.not_true, decide_eq_false_iff_not, not_not, Option.map_eq_some_iff]

theorem has_eq_false {id} : l.has id = false ↔ l.events.lookup id = none := by
  simp [has]

theorem equivocates_eq_false : l.equivocates e = false ↔
    ∀ id, l.authorSeq.lookup (e.conversationId, e.author, e.seq) = some id → id = e.id := by
  unfold equivocates
  cases l.authorSeq.lookup (e.conversationId, e.author, e.seq) <;> simp

variable [EventCrypto]

structure Admits (l : EventLog) (e : Event) : Prop where
  selfValid : e.SelfValid
  fresh : l.events.lookup e.id = none
  parents : ∀ p ∈ e.parents, ∃ e', l.events.lookup p = some e' ∧
    e'.conversationId = e.conversationId
  unique : ∀ id, l.authorSeq.lookup (e.conversationId, e.author, e.seq) = some id → id = e.id

theorem validate_ok_true : l.validate e = .ok true ↔ l.Admits e := by
  unfold validate
  constructor
  · intro h
    split_ifs at h with h1 h2 h3 h4 h5 h6
    · cases h
    · exact ⟨⟨by simpa using h1, by simpa using h2, by simpa using h3⟩,
        has_eq_false.mp (by simpa using h4), missingParents_eq_nil.mp (not_not.mp h5),
        equivocates_eq_false.mp (by simpa using h6)⟩
  · rintro ⟨⟨h1, h2, h3⟩, h4, h5, h6⟩
    simp [h1, h2, h3, has_eq_false.mpr h4, missingParents_eq_nil.mpr h5,
      equivocates_eq_false.mpr h6]

theorem append_of_admits (h : l.Admits e) : l.append e = (.ok .appended, l.indexTrusted e) := by
  simp only [append, validate_ok_true.mpr h]

/-- **An append either indexes an event the log admits or leaves the log as it is.** -/
theorem append_cases (l : EventLog) (e) :
    (l.Admits e ∧ l.append e = (.ok .appended, l.indexTrusted e)) ∨
      (l.append e).1 ≠ .ok .appended ∧ (l.append e).2 = l := by
  cases h : l.validate e with
  | error err => simp [append, h]
  | ok b =>
    cases b with
    | true => exact Or.inl ⟨validate_ok_true.mp h, by simp only [append, h]⟩
    | false => simp [append, h]

end EventLog

/-! ### A concrete instance

Ids made of author and sequence number and signatures that always verify, to run the model. -/

@[reducible] def sampleCrypto : EventCrypto where
  hashContent x := ⟨BitVec.ofNat 256 (x.author.ed25519Pub.toNat * 1000 + x.seq)⟩
  verify _ _ _ := true

def sampleAuthor (n : ℕ) : Author := ⟨BitVec.ofNat 256 n⟩

def sampleConversation : ConversationId := ⟨1⟩

def sampleId (author seq : ℕ) : EventId := ⟨BitVec.ofNat 256 (author * 1000 + seq)⟩

def sampleEvent (author seq : ℕ) (parents : List EventId) (lamport : ℕ) (kind : EventKind) :
    Event where
  id := sampleId author seq
  conversationId := sampleConversation
  author := sampleAuthor author
  seq := seq
  parents := parents
  lamport := lamport
  wallClock := 0
  kind := kind
  ciphertext := [7]
  sig := List.replicate 64 0

end MeshTalk
