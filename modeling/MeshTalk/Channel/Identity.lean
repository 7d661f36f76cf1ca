import MeshTalk.EventLog.Sync
import MeshTalk.Lib.Frame

/-! # Identities of devices and accounts

The public identity of a device (`identity/device.rs`), the certificate by which an account vouches
for a device (`identity/account.rs`), and the signed announcement that carries both
(`discovery/announce.rs`). A device is named by a fingerprint of its signing key, an account by one
of its own key; the digest is the parameter `Sha256`, the signature check the parameter
`EventCrypto`. -/

namespace MeshTalk.Channel

open Lib

abbrev PubKey := BitVec 256

def keyBytes (k : PubKey) : List UInt8 := EventId.asBytes ⟨k⟩

def textBytes (s : String) : List UInt8 := s.toUTF8.data.toList

def hexDigit (n : ℕ) : Char :=
    ['0', '1', '2', '3', '4', '5', '6', '7', '8', '9', 'a', 'b', 'c', 'd',
  'e', 'f'].getD n '0'

def hexEncode (bs : List UInt8) : String :=
  String.ofList (bs.flatMap fun b => [hexDigit (b.toNat / 16), hexDigit (b.toNat % 16)])

/-- The first 16 bytes of a digest under a domain, in hexadecimal. -/
def keyFingerprint [Sha256] (domain : String) (k : PubKey) : String :=
  hexEncode ((keyBytes (Sha256.digest (textBytes domain ++ keyBytes k))).take 16)

/-- The public half of a device identity: the key it signs with and the key it exchanges with. -/
structure PublicIdentity where
  ed25519Pub : PubKey
  x25519Pub : PubKey
deriving DecidableEq

def userIdFrom [Sha256] (ed25519Pub : PubKey) : String :=
    keyFingerprint "mesh-talk-id-v1" ed25519Pub

def accountIdFrom [Sha256] (ed25519Pub : PubKey) : String :=
  keyFingerprint "mesh-talk-account-v1" ed25519Pub

def PublicIdentity.userId [Sha256] (p : PublicIdentity) : String := userIdFrom p.ed25519Pub

/-- Proof that a device belongs to an account: the account's signature over the device's key. -/
structure DeviceCertificate where
  accountEd25519Pub : PubKey
  deviceEd25519Pub : PubKey
  signature : List UInt8
deriving DecidableEq

/-- A device's announcement of itself, signed with its own key. -/
structure Announce where
  userId : String
  ed25519Pub : PubKey
  x25519Pub : PubKey
  name : String
  tcpPort : UInt16
  postOffice : Bool
  accountCert : Option DeviceCertificate
  sig : List UInt8
deriving DecidableEq

def maxNameBytes : ℕ := 1024

/-- Two bytes, most significant first. -/
def be16 (n : UInt16) : List UInt8 := [UInt8.ofNat (n.toNat / 256), UInt8.ofNat (n.toNat % 256)]

section Crypto

variable [Sha256] [EventCrypto]

def verifyKey (k : PubKey) (message signature : List UInt8) : Bool :=
  signature.length = 64 && EventCrypto.verify ⟨k⟩ message signature

namespace DeviceCertificate

def message (c : DeviceCertificate) : List UInt8 :=
  textBytes "mesh-talk-device-cert-v1" ++ keyBytes c.accountEd25519Pub ++
    keyBytes c.deviceEd25519Pub

def verify (c : DeviceCertificate) : Bool := verifyKey c.accountEd25519Pub c.message c.signature

def accountId (c : DeviceCertificate) : String := accountIdFrom c.accountEd25519Pub

end DeviceCertificate

namespace Announce

def publicIdentity (p : Announce) : PublicIdentity := ⟨p.ed25519Pub, p.x25519Pub⟩

def account (p : Announce) : Option PubKey := p.accountCert.map (·.accountEd25519Pub)

def accountId (p : Announce) : Option String := p.accountCert.map (·.accountId)

/-- The message a device signs to announce itself: all fields but the signature. -/
def signingInput (p : Announce) : List UInt8 :=
  textBytes "mesh-talk-announce-v1" ++ be32 p.userId.utf8ByteSize ++ textBytes p.userId ++
    keyBytes p.ed25519Pub ++ keyBytes p.x25519Pub ++ be32 p.name.utf8ByteSize ++ textBytes p.name ++
    be16 p.tcpPort ++ [if p.postOffice then 1 else 0] ++
    match p.account with
    | some k => be32 32 ++ keyBytes k
    | none => be32 0

/-- The announcement is consistent and signed by the device, and its certificate is for the
device. -/
def verify (p : Announce) : Bool :=
  p.userId = userIdFrom p.ed25519Pub &&
    (match p.accountCert with
      | some cert => cert.deviceEd25519Pub = p.ed25519Pub && cert.verify
      | none => true) &&
    verifyKey p.ed25519Pub p.signingInput p.sig

/-- A signed announcement with an endpoint and a name of acceptable length. -/
def validPresence (p : Announce) : Bool :=
  p.tcpPort ≠ 0 && p.name.utf8ByteSize ≤ maxNameBytes && p.verify

theorem userId_of_validPresence {p : Announce} (h : p.validPresence = true) :
    p.userId = p.publicIdentity.userId := by
  simp only [validPresence, verify, Bool.and_eq_true, decide_eq_true_eq] at h
  exact h.2.1.1

end Announce

end Crypto

end MeshTalk.Channel

def MeshTalk.Event.userId [MeshTalk.Sha256] (e : MeshTalk.Event) : String :=
  MeshTalk.Channel.userIdFrom e.author.ed25519Pub
