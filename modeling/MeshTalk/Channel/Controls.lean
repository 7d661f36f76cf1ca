import MeshTalk.Channel.Graph

/-! # The controls of account-governed channels

The payloads of the events by which accounts take part in a channel, as they are signed and framed:
the full snapshot of account grants (`AccountAuthorityControl`), the refusal of an invitation, the
authorization of a sibling device and the keys released to it (`node/channel_account_authority.rs`,
`node/channel_account_bootstrap.rs`, `node/join_history.rs`). -/

namespace MeshTalk.Channel

open Lib

/-! ### Framing -/

def maxWireFrame : ℕ := 65535

def frame (magic : String) (bs : List UInt8) : List UInt8 := textBytes magic ++ bs

/-- The value behind a mark, if the mark is there and the frame is not too long. -/
def unframe {R : Type} [BincodeRead R] (magic : String) (bs : List UInt8) : Option R :=
  if maxWireFrame < bs.length then none
  else if (textBytes magic).isPrefixOf bs then
    (BincodeRead.deserialize (bs.drop (textBytes magic).length)).toOption
  else none

/-! ### Grants -/

structure AccountGrantId where
  accountPub : PubKey
  incarnation : BitVec 128
deriving DecidableEq

structure AccountDeclinePayload where
  version : UInt8
  grant : AccountGrantId
deriving DecidableEq

/-- An account's grant: the device it was given for, and the events that made the device a
member. -/
structure AccountGrant where
  incarnation : BitVec 128
  pending : Bool
  original : Announce
  membershipEvent : EventId
  acceptanceEvent : Option EventId
deriving DecidableEq

def AccountGrant.id (g : AccountGrant) : Option AccountGrantId :=
  g.original.account.map fun account => ⟨account, g.incarnation⟩

/-- The full snapshot of the grants of a channel, signed by the owner account. -/
structure AccountAuthorityControl where
  version : UInt8
  previous : Option EventId
  issuer : Announce
  ownerAccount : PubKey
  grants : List AccountGrant
  revoked : List AccountGrantId
  legacyBindings : List Announce
  accountSignature : List UInt8
deriving DecidableEq

/-- The longest snapshot of grants that is read. -/
def maxAuthorityBytes : ℕ := 48 * 1024

def maxGrants : ℕ := 256

def maxControl : ℕ := 24 * 1024

/-- The most key chains a device control carries. -/
def maxChains : ℕ := 64

/-- A control of a sibling device: its authorization, or receive keys sealed to it. -/
inductive DeviceControl where
  | inherit (authority : EventId) (grant : AccountGrantId) (device : Announce)
      (accountSignature : List UInt8)
  | receiveKeys (authority inheritance : EventId) (grant : AccountGrantId)
      (recipient : PublicIdentity) (epoch : ℕ) (authors : List PublicIdentity)
      (positions : List UInt32) (sealedKeys : List UInt8)
deriving DecidableEq

structure Release where
  offer : EventId
  acceptance : EventId
  sealedKey : List UInt8
deriving DecidableEq

structure AccountRelease where
  version : UInt8
  grant : AccountGrantId
  deviceAuthorization : EventId
  recipient : PublicIdentity
  release : Release
deriving DecidableEq

/-- What an offer of history says of its recipient and of the devices that hold its key. -/
structure Offer where
  recipient : String
  invitation : EventId
  sources : List String
deriving DecidableEq

inductive HistoryControl where
  | offer (offer : Offer)
  | release (release : Release)
deriving DecidableEq

/-- The longest history control that is read. -/
def wireBytes : ℕ := 60 * 1024

def snapshotBytes : ℕ := 24 * 1024

/-- The readings of the payloads of channel events, and the bytes of the snapshot an account
signs. -/
class Wire where
  channelMeta : BincodeRead ChannelMeta
  authorityControl : BincodeRead AccountAuthorityControl
  serializeControl : AccountAuthorityControl → List UInt8
  decline : BincodeRead AccountDeclinePayload
  deviceControl : BincodeRead DeviceControl
  accountRelease : BincodeRead AccountRelease
  historyControl : BincodeRead HistoryControl

attribute [reducible, instance] Wire.channelMeta Wire.authorityControl Wire.decline
  Wire.deviceControl Wire.accountRelease Wire.historyControl

variable [Wire] [Sha256] [EventCrypto]

/-- The checks of an event that look at nothing else. -/
def validEvent (e : Event) : Bool := e.isCanonical && e.verifyIntegrity && e.verifySignature

def AccountDeclinePayload.decode (bs : List UInt8) : Option AccountDeclinePayload :=
  (unframe "MTCD1" bs).filter fun p : AccountDeclinePayload => p.version = 1

namespace AccountAuthorityControl

def encode (c : AccountAuthorityControl) : List UInt8 := frame "MTCA1" (Wire.serializeControl c)

def decode (bs : List UInt8) : Option AccountAuthorityControl :=
  if maxAuthorityBytes < bs.length then none
  else (unframe "MTCA1" bs).filter fun c : AccountAuthorityControl =>
    c.version = 1 && c.grants.length ≤ maxGrants && c.legacyBindings.length ≤ maxGrants &&
      c.revoked.length ≤ maxGrants

def accountMessage (c : AccountAuthorityControl) (channel : ConversationId) : List UInt8 :=
  textBytes "mesh-talk-channel-authority-account-v1" ++ keyBytes channel.bytes ++
    { c with accountSignature := [] }.encode

def verifyAccountSignature (c : AccountAuthorityControl) (channel : ConversationId)
    (accountPub : PubKey) : Bool :=
  verifyKey accountPub (c.accountMessage channel) c.accountSignature

end AccountAuthorityControl

def inheritanceAccountMessage (channel : ConversationId) (authority : EventId)
    (grant : AccountGrantId) (device : PublicIdentity) : List UInt8 :=
  textBytes "mesh-talk-channel-inheritance-account-v1" ++ keyBytes channel.bytes ++
    authority.asBytes ++ keyBytes grant.accountPub ++
    ((List.range 16).map fun k => UInt8.ofBitVec
      (grant.incarnation.extractLsb' (8 * (15 - k)) 8)) ++
    keyBytes device.ed25519Pub ++ keyBytes device.x25519Pub

namespace DeviceControl

def wellFormed : DeviceControl → Bool
  | inherit _ _ device accountSignature =>
    accountSignature.length = 64 && device.validPresence && !device.postOffice &&
      device.accountId.isSome
  | receiveKeys _ _ _ _ _ authors positions sealedKeys =>
    !sealedKeys.isEmpty && sealedKeys.length ≤ maxControl / 2 && !authors.isEmpty &&
      positions.length = authors.length && authors.length ≤ maxChains &&
      (authors.map PublicIdentity.userId).Nodup

def decode (bs : List UInt8) : Option DeviceControl :=
  if maxControl < bs.length then none else (unframe "MTGI1" bs).filter wellFormed

def signedInheritance (e : Event) : Option (EventId × AccountGrantId × Announce) :=
  match decode e.ciphertext with
  | some (.inherit authority grant device accountSignature) =>
    if e.kind = .channelDeviceInheritance ∧ validEvent e = true ∧
        e.author.ed25519Pub = device.ed25519Pub ∧ device.account = some grant.accountPub ∧
        verifyKey grant.accountPub
          (inheritanceAccountMessage e.conversationId authority grant device.publicIdentity)
          accountSignature = true
    then some (authority, grant, device)
    else none
  | _ => none

end DeviceControl

def AccountRelease.decode (bs : List UInt8) : Option AccountRelease :=
  if wireBytes < bs.length then none
  else (unframe "MTJHA1" bs).filter fun r : AccountRelease =>
    r.version = 1 && !r.release.sealedKey.isEmpty && r.release.sealedKey.length ≤ snapshotBytes * 2

def HistoryControl.decode (bs : List UInt8) : Option HistoryControl :=
  if wireBytes < bs.length then none else (BincodeRead.deserialize bs).toOption

end MeshTalk.Channel
