import MeshTalk.Channel.Identity

/-! # The state of a channel

Membership snapshots and a member's view of a channel (`channel/model.rs`), without the sender-key
chains it also holds, and the record a view is stored as (`channel/model/checkpoint.rs`).

Serialization is the parameter `Bincode`: a value is written in full,
  and what was written is read back. -/

namespace MeshTalk.Channel

open Lib

/-- The reading of values of a type. It refuses bytes past the value. -/
class BincodeRead (R : Type) where
  deserialize : List UInt8 → Except String R

/-- The serialization of values of a type, which reading undoes. -/
class Bincode (R : Type) extends BincodeRead R where
  serialize : R → List UInt8
  deserialize_serialize : ∀ r, deserialize (serialize r) = .ok r

def fromUtf8 (bs : List UInt8) : Option String := String.fromUTF8? ⟨bs.toArray⟩

structure ChannelMeta where
  name : String
  members : List PublicIdentity
  epoch : ℕ
  owner : String
deriving DecidableEq

/-- The mark of a snapshot whose new members have to accept. -/
def invitationGenesis : List UInt8 := textBytes "MTCH2"

namespace ChannelMeta

def isInvitation (bs : List UInt8) : Bool := invitationGenesis.isPrefixOf bs

def decode [BincodeRead ChannelMeta] (bs : List UInt8) : Option ChannelMeta :=
  (BincodeRead.deserialize
    (if isInvitation bs then bs.drop invitationGenesis.length else bs)).toOption

def isMember [Sha256] (m : ChannelMeta) (userId : String) : Bool :=
  m.members.any fun p => p.userId = userId

end ChannelMeta

/-- A member set as it is compared at equal epochs. -/
def encodeMembers (ms : List PublicIdentity) : List UInt8 :=
  leBytes 8 ms.length ++ ms.flatMap fun m => keyBytes m.ed25519Pub ++ keyBytes m.x25519Pub

/-- A member's view of a channel. -/
structure ChannelState where
  id : ConversationId
  name : String
  nameVersion : ℕ × EventId
  members : List PublicIdentity
  epoch : ℕ
  owner : String
  accountOwner : Option String
  accountMembers : Map String String
  dissolved : Bool
  genesisOwner : String
  pendingInvite : Bool
  acceptedEventId : Option EventId
  acceptedMembers : Finset String
  myUserId : Option String

namespace ChannelState

section Methods

variable [Sha256] (s : ChannelState)

def fromMeta (id : ConversationId) (m : ChannelMeta) : ChannelState where
  id := id
  name := m.name
  nameVersion := (0, ⟨0⟩)
  members := m.members
  epoch := m.epoch
  owner := m.owner
  accountOwner := none
  accountMembers := ∅
  dissolved := false
  genesisOwner := m.owner
  pendingInvite := false
  acceptedEventId := none
  acceptedMembers := (m.members.map PublicIdentity.userId).toFinset
  myUserId := none

def isMember (userId : String) : Bool := s.members.any fun p => p.userId = userId

/-- Whether a device is listed and has joined. -/
def isAcceptedMember (userId : String) : Bool := s.isMember userId && userId ∈ s.acceptedMembers

omit [Sha256] in
/-- Adopt a snapshot of the current owner that is later, or as late and greater as bytes. -/
def applyMetaWithDeparture (m : ChannelMeta) (concurrentLeave : Bool) : ChannelState :=
  if s.dissolved then s
  else if m.owner ≠ s.owner then s
  else if s.epoch < m.epoch ∨
      m.epoch = s.epoch ∧
        (concurrentLeave = true ∨ encodeMembers s.members < encodeMembers m.members)
    then { s with members := m.members, epoch := m.epoch }
  else s

def applyMeta (m : ChannelMeta) : ChannelState := s.applyMetaWithDeparture m false

/-- Adopt a snapshot from which a member that left meanwhile has been taken out. -/
def applyMetaAfterConcurrentLeave (m : ChannelMeta) : ChannelState :=
    s.applyMetaWithDeparture m true

/-- Adopt a name, unless the one there is was set by a later event. -/
def applyRename (name : String) (lamport : ℕ) (id : EventId) : ChannelState :=
  if s.dissolved then s
  else if toLex s.nameVersion < toLex (lamport, id) then
    { s with name := name, nameVersion := (lamport, id) }
  else s

def canAdmin (userId : String) : Bool :=
  if s.dissolved then false
  else match s.accountOwner with
    | some owner => s.isAcceptedMember userId && s.accountMembers.lookup userId = some owner
    | none => s.owner = userId

/-- The account a device takes part under. -/
def memberAccountId (userId : String) : Option String := s.accountMembers.lookup userId

/-- Whether the local device is invited and has not joined. -/
def refreshPending : ChannelState :=
  match s.myUserId with
  | some me => { s with pendingInvite := s.isMember me && !s.isAcceptedMember me }
  | none => s

def sortMembers (ms : List PublicIdentity) : List PublicIdentity :=
  ms.insertionSort fun a b => a.userId ≤ b.userId

def installAccountProjection (owner : String) (participants : List (PublicIdentity × String))
    (epoch : ℕ) : ChannelState :=
  let accountMembers := participants.foldl (fun m p => m.insert p.1.userId p.2) ∅
  refreshPending { s with
    accountOwner := some owner
    accountMembers := accountMembers
    acceptedMembers := accountMembers.keys
    members := (sortMembers (participants.map Prod.fst)).destutter (· ≠ ·)
    epoch := epoch }

/-- List one invited device, unless there is one of its id. -/
def addInvite (p : PublicIdentity × String) : ChannelState :=
  let members := if s.isMember p.1.userId then s.members else s.members ++ [p.1]
  let accountMembers :=
    if p.1.userId ∈ s.accountMembers then s.accountMembers
    else s.accountMembers.insert p.1.userId p.2
  { s with members := members, accountMembers := accountMembers }

def installAccountInvites (participants : List (PublicIdentity × String)) : ChannelState :=
  let s := participants.foldl addInvite s
  refreshPending { s with members := sortMembers s.members }

def dissolve : ChannelState := { s with dissolved := true }

def markInvited (userId : String) : ChannelState :=
  let s := { s with acceptedMembers := s.acceptedMembers.erase userId }
  if s.myUserId = some userId then { s with pendingInvite := true, acceptedEventId := none } else s

def acceptInvite (userId : String) (eventId : EventId) : ChannelState :=
  if s.isMember userId then
    let s := { s with acceptedMembers := insert userId s.acceptedMembers }
    if s.myUserId = some userId ∧ s.pendingInvite = true then
      { s with pendingInvite := false, acceptedEventId := some eventId }
    else s
  else s

/-- A device that an unmarked snapshot lists has joined. -/
def autoAcceptLegacyMember (userId : String) : ChannelState :=
  if s.isMember userId then
    let s := { s with acceptedMembers := insert userId s.acceptedMembers }
    if s.myUserId = some userId then { s with pendingInvite := false, acceptedEventId := none }
    else s
  else s

def transferOwner (next : String) : Bool × ChannelState :=
  if s.isMember next = false ∨ next ∉ s.acceptedMembers then (false, s)
  else (true, { s with owner := next })

/-- Take a member out that leaves, and count the epoch up. -/
def leaveMember (userId : String) : Bool × ChannelState :=
  if userId = s.owner ∨ s.isMember userId = false then (false, s)
  else (true, { s with
    members := s.members.filter fun p => p.userId ≠ userId
    acceptedMembers := s.acceptedMembers.erase userId
    epoch := saturatingAdd u64Max s.epoch 1 })

end Methods

/-! ### What the methods leave alone -/

section Frames

variable [Sha256] (s : ChannelState) (uid : String)

omit [Sha256] in
theorem foldl_keeps {β γ : Type} (g : ChannelState → β) (f)
    (h : ∀ s c, g (f s c) = g s) (l : List γ)
    (s) : g (l.foldl f s) = g s := by
  induction l generalizing s with
  | nil => rfl
  | cons c l ih => rw [List.foldl_cons, ih, h]

/-- The fields that say who is listed, who owns the channel, and whether it is live. -/
def roster : List PublicIdentity × String × Option String × Bool :=
  (s.members, s.owner, s.accountOwner, s.dissolved)

def naming : String × (ℕ × EventId) := (s.name, s.nameVersion)

omit [Sha256] in
@[simp] theorem roster_markInvited : (s.markInvited uid).roster = s.roster := by
  unfold markInvited
  dsimp only
  split_ifs <;> rfl

@[simp] theorem roster_autoAccept : (s.autoAcceptLegacyMember uid).roster = s.roster := by
  unfold autoAcceptLegacyMember
  dsimp only
  split_ifs <;> rfl

@[simp] theorem roster_acceptInvite (e) : (s.acceptInvite uid e).roster = s.roster := by
  unfold acceptInvite
  dsimp only
  split_ifs <;> rfl

@[simp] theorem naming_acceptInvite (e) : (s.acceptInvite uid e).naming = s.naming := by
  unfold acceptInvite
  dsimp only
  split_ifs <;> rfl

theorem acceptedMembers_acceptInvite (e) : (s.acceptInvite uid e).acceptedMembers =
    if s.isMember uid then insert uid s.acceptedMembers else s.acceptedMembers := by
  unfold acceptInvite
  dsimp only
  split_ifs <;> rfl

omit [Sha256] in
theorem roster_applyMeta (m b) :
    (s.applyMetaWithDeparture m b).roster = s.roster ∨
      (s.applyMetaWithDeparture m b).roster =
        (m.members, s.owner, s.accountOwner, s.dissolved) := by
  unfold applyMetaWithDeparture
  split_ifs
  · exact .inl rfl
  · exact .inl rfl
  · exact .inr rfl
  · exact .inl rfl

omit [Sha256] in
@[simp] theorem roster_applyRename (name lamport id) :
    (s.applyRename name lamport id).roster = s.roster := by
  unfold applyRename
  split_ifs <;> rfl

variable {s uid}

theorem transferOwner_cases {next} (h : (s.transferOwner next).1 = true) :
    s.isAcceptedMember next = true ∧ (s.transferOwner next).2 = { s with owner := next } := by
  unfold transferOwner at h ⊢
  split_ifs at h ⊢ with hc
  push Not at hc
  exact ⟨by simp [isAcceptedMember, hc], rfl⟩

theorem leaveMember_cases (h : (s.leaveMember uid).1 = true) :
    uid ≠ s.owner ∧ s.isMember uid = true ∧ (s.leaveMember uid).2 = { s with
      members := s.members.filter fun p => p.userId ≠ uid
      acceptedMembers := s.acceptedMembers.erase uid
      epoch := saturatingAdd u64Max s.epoch 1 } := by
  unfold leaveMember at h ⊢
  split_ifs at h ⊢ with hc
  push Not at hc
  exact ⟨hc.1, by simpa using hc.2, rfl⟩

omit [Sha256] in
theorem roster_eq_iff {s' : ChannelState} : s'.roster = s.roster ↔ s'.members = s.members ∧
    s'.owner = s.owner ∧ s'.accountOwner = s.accountOwner ∧ s'.dissolved = s.dissolved := by
  simp [roster]

theorem isMember_iff : s.isMember uid = true ↔ ∃ p ∈ s.members, p.userId = uid := by
  simp [isMember]

theorem canAdmin_of_legacy (h : s.accountOwner = none) :
    s.canAdmin uid = true ↔ s.dissolved = false ∧ s.owner = uid := by
  unfold canAdmin
  rw [h]
  cases s.dissolved <;> simp

end Frames

/-! ### The stored record -/

end ChannelState

/-- A stored view. -/
structure CurrentState extends ChannelState where
  version : UInt8

inductive ChannelError where
  | malformed (text : String)
deriving DecidableEq

namespace ChannelState

variable [Bincode CurrentState] (s : ChannelState)

def encodeCurrent : Except ChannelError (List UInt8) :=
  .ok (Bincode.serialize ({ s with version := 1 } : CurrentState))

def decodeCurrent [Sha256] (bs : List UInt8) : Except ChannelError ChannelState :=
  match (BincodeRead.deserialize bs : Except String CurrentState) with
  | .error text => .error (.malformed text)
  | .ok current =>
    if current.version ≠ 1 ∨ ¬ (current.members.map PublicIdentity.userId).Nodup then
      .error (.malformed "invalid current channel checkpoint")
    else .ok current.toChannelState

/-- **A view whose members are distinct is read back.** -/
theorem decodeCurrent_encodeCurrent [Sha256] (h : (s.members.map PublicIdentity.userId).Nodup) :
    s.encodeCurrent >>= decodeCurrent = .ok s := by
  show decodeCurrent (Bincode.serialize _) = .ok s
  unfold decodeCurrent
  rw [Bincode.deserialize_serialize]
  simp [h]

/-- A view whose members are not distinct is stored, and refused when it is read. -/
theorem decodeCurrent_encodeCurrent_of_repeated [Sha256]
    (h : ¬ (s.members.map PublicIdentity.userId).Nodup) :
    s.encodeCurrent >>= decodeCurrent = .error
      (.malformed "invalid current channel checkpoint") := by
  show decodeCurrent (Bincode.serialize _) = _
  unfold decodeCurrent
  rw [Bincode.deserialize_serialize]
  simp [h]

end ChannelState

end MeshTalk.Channel
