import MeshTalk.Channel.Identity
import MeshTalk.Lib.Outcome

/-! # The directory of peers

The signed changes of a device from one account to another (`identity/account_transition.rs`), and
the directory that pins the keys and the account of every device a node has met
(`node/peer_directory.rs`). A pin is set by the first announcement, and may be moved by the user, by
the node for its own device, by pairing, and by a chain of transitions.

The encryption of the file is left out: a directory is saved as its snapshot, and whether a save
goes through is an argument of the operation. -/

namespace MeshTalk.Peers

open Lib Channel List

/-- A number as eight bytes, the most significant first. -/
def encodeCertificate (c : DeviceCertificate) : List UInt8 :=
  keyBytes c.accountEd25519Pub ++ keyBytes c.deviceEd25519Pub ++ c.signature

/-! ### Transitions -/

/-- A change of the account of exactly one device, signed by both account roots and the device. -/
structure AccountBindingTransition where
  publicIdentity : PublicIdentity
  previousCertificate : DeviceCertificate
  currentCertificate : DeviceCertificate
  previousTransition : Option (BitVec 256)
  nonce : BitVec 256
  oldSignature : List UInt8
  newSignature : List UInt8
  deviceSignature : List UInt8
deriving DecidableEq

namespace AccountBindingTransition

def message (t : AccountBindingTransition) (role : String) : List UInt8 :=
  textBytes "mesh-talk-account-binding-transition-v1" ++ [1] ++
    [UInt8.ofNat (textBytes role).length] ++ textBytes role ++
    keyBytes t.publicIdentity.ed25519Pub ++ keyBytes t.publicIdentity.x25519Pub ++
    encodeCertificate t.previousCertificate ++ encodeCertificate t.currentCertificate ++
    [if t.previousTransition.isSome then 1 else 0] ++ keyBytes (t.previousTransition.getD 0) ++
    keyBytes t.nonce

def signatures (t : AccountBindingTransition) : List (PubKey × String × List UInt8) :=
  [(t.previousCertificate.accountEd25519Pub, "old-root", t.oldSignature),
    (t.currentCertificate.accountEd25519Pub, "new-root", t.newSignature),
    (t.publicIdentity.ed25519Pub, "device", t.deviceSignature)]

/-- Both certificates are for the device, of two accounts, and all three signed the change. -/
def verify [EventCrypto] (t : AccountBindingTransition) : Bool :=
  if t.previousCertificate.accountEd25519Pub = t.currentCertificate.accountEd25519Pub ∨
      t.previousCertificate.deviceEd25519Pub ≠ t.publicIdentity.ed25519Pub ∨
      t.currentCertificate.deviceEd25519Pub ≠ t.publicIdentity.ed25519Pub ∨
      t.previousCertificate.verify = false ∨ t.currentCertificate.verify = false then
    false
  else
    t.signatures.all fun ⟨key, role, signature⟩ => verifyKey key (t.message role) signature

def id [Sha256] (t : AccountBindingTransition) : BitVec 256 :=
  Sha256.digest (textBytes "mesh-talk-account-binding-transition-id-v1" ++ t.message "id" ++
    [t.oldSignature, t.newSignature, t.deviceSignature].flatMap fun s => beBytes 8 s.length ++ s)

end AccountBindingTransition

/-! ### The directory -/

/-- The most devices a directory holds. -/
def maxPeers : ℕ := 1024

def maxChain : ℕ := 8

/-- The kinds of errors of the directory: a refused binding or snapshot, or a failure of storage. -/
inductive ErrorKind where
  | invalidData
  | other
deriving DecidableEq

/-- The transitions of a device that are recorded, and the id of the last of them. -/
structure TransitionHead where
  publicIdentity : PublicIdentity
  id : BitVec 256
  transitions : List AccountBindingTransition
deriving DecidableEq

/-- A device linked to the node's own account, with the certificate it was given. -/
structure AccountDevice where
  publicIdentity : PublicIdentity
  certificate : DeviceCertificate
deriving DecidableEq

inductive SnapshotVersion where
  | v1
  | v2
  | v3
deriving DecidableEq

/-- What the file of a directory holds. -/
structure Snapshot where
  version : SnapshotVersion
  records : List Announce
  heads : List TransitionHead
  ambiguousAccounts : List PublicIdentity
deriving DecidableEq

structure PeerDirectory where
  records : List Announce
  heads : List TransitionHead
  revision : UInt64
  ambiguousAccounts : List PublicIdentity
  linkedBindings : List AccountDevice
deriving DecidableEq

/-- The place of a device in the sorted records, or the place to insert it at. -/
def search (records : List Announce) (userId : String) : Except ℕ ℕ :=
  match records.findIdx? (·.userId = userId) with
  | some i => .ok i
  | none => .error (records.takeWhile (·.userId < userId)).length

def insertAt (records : List Announce) (i : ℕ) (a : Announce) : List Announce :=
  records.take i ++ a :: records.drop i

section Records

variable {records : List Announce} {a old : Announce} {userId : String} {i : ℕ}

/-- A found device is at its place, and nothing before it has its id. -/
theorem search_ok (h : search records userId = .ok i) :
    ∃ pre old post, records = pre ++ old :: post ∧ pre.length = i ∧ old.userId = userId ∧
      pre.find? (·.userId = userId) = none := by
  unfold search at h
  split at h
  · rename_i j hj
    cases h
    obtain ⟨hlt, hat, hbefore⟩ := findIdx?_eq_some_iff_getElem.mp hj
    refine ⟨records.take i, records[i], records.drop (i + 1), ?_, ?_, by simpa using hat, ?_⟩
    · rw [getElem_cons_drop, take_append_drop]
    · exact length_take_of_le hlt.le
    · rw [find?_eq_none]
      intro x hx
      obtain ⟨k, hk, rfl⟩ := getElem_of_mem hx
      rw [length_take] at hk
      simpa using hbefore k (by omega)
  · cases h

theorem find_of_search (h : search records userId = .ok i) :
    ∃ old, records[i]? = some old ∧ records.find? (·.userId = userId) = some old := by
  obtain ⟨pre, old, post, rfl, rfl, hid, hpre⟩ := search_ok h
  refine ⟨old, by simp, ?_⟩
  rw [find?_append, hpre, find?_cons_of_pos (by simpa using hid), Option.none_or]

theorem find_set (h : search records a.userId = .ok i) (userId) :
    (records.set i a).find? (·.userId = userId) =
      if userId = a.userId then some a else records.find? (·.userId = userId) := by
  obtain ⟨pre, old, post, rfl, rfl, hid, hpre⟩ := search_ok h
  rw [set_append_right _ _ le_rfl, Nat.sub_self, set_cons_zero, find?_append,
    find?_append]
  split_ifs with heq
  · rw [heq, hpre, find?_cons_of_pos (by simp), Option.none_or]
  · rw [find?_cons_of_neg (by simpa using fun h => heq h.symm),
      find?_cons_of_neg (by simpa [hid] using fun h => heq h.symm)]

theorem search_error (h : search records userId = .error i) :
    records.find? (·.userId = userId) = none := by
  unfold search at h
  split at h
  · cases h
  · rename_i hnone
    rw [findIdx?_eq_none_iff] at hnone
    exact find?_eq_none.mpr fun x hx => by simpa using hnone x hx

theorem find_insertAt (h : search records a.userId = .error i) (userId) :
    (insertAt records i a).find? (·.userId = userId) =
      if userId = a.userId then some a else records.find? (·.userId = userId) := by
  have hnone := search_error h
  rw [insertAt, find?_append]
  split_ifs with heq
  · have hpre : (records.take i).find? (·.userId = userId) = none := by
      rw [← take_append_drop i records, find?_append, ← heq] at hnone
      exact (Option.or_eq_none_iff.mp hnone).1
    rw [hpre, find?_cons_of_pos (by simpa using heq.symm), Option.none_or]
  · rw [find?_cons_of_neg (by simpa using fun h => heq h.symm), ← find?_append,
      take_append_drop]

end Records

/-- Write a snapshot, given what becomes of the write. -/
def saveSnapshot (save : Except ErrorKind Unit) (ambiguousAccounts : List PublicIdentity) :
    Except ErrorKind Unit :=
  if maxPeers < ambiguousAccounts.length then .error .invalidData else save

section Crypto

variable [Sha256] [EventCrypto]

def valid (a : Announce) : Bool := a.validPresence && a.accountCert.isSome

/-- A device is noted once, in the order of the ids. -/
def noteAmbiguous (ambiguous : List PublicIdentity) (p : PublicIdentity) : List PublicIdentity :=
  (if p ∈ ambiguous then ambiguous else ambiguous ++ [p]).insertionSort fun a b =>
    a.userId ≤ b.userId

/-- A recorded chain starts at no transition, each link refers to the one before, and its head is
the last. -/
def TransitionHead.wellFormed (h : TransitionHead) (records : List Announce) : Bool :=
  !h.transitions.isEmpty && h.transitions.length ≤ maxChain &&
    h.transitions.head?.all (·.previousTransition.isNone) &&
    h.transitions.getLast?.any (fun t => t.id = h.id) &&
    h.transitions.all (fun t => t.publicIdentity = h.publicIdentity && t.verify) &&
    (h.transitions.zip h.transitions.tail).all (fun ⟨s, t⟩ =>
      t.previousTransition = some s.id && t.previousCertificate = s.currentCertificate) &&
    records.any (fun r => r.publicIdentity = h.publicIdentity)

def ascending (ids : List String) : Bool := (ids.zip ids.tail).all fun ⟨a, b⟩ => a < b

namespace PeerDirectory

def fresh : PeerDirectory := ⟨[], [], 0, [], []⟩

def snapshot (d : PeerDirectory) : Snapshot := ⟨.v3, d.records, d.heads, d.ambiguousAccounts⟩

/-- Read a directory back. Formats before the third may have lost earlier accounts, so all their
devices are ambiguous, as are the devices with recorded transitions. -/
def «open» (s : Snapshot) : Except ErrorKind PeerDirectory := do
  ensure (s.heads.length ≤ maxPeers ∧ ascending (s.heads.map (·.publicIdentity.userId)) = true ∧
    s.heads.all (·.wellFormed s.records) = true) .invalidData
  ensure (s.ambiguousAccounts.length ≤ maxPeers ∧
    ascending (s.ambiguousAccounts.map (·.userId)) = true ∧
    (s.ambiguousAccounts.all fun p => s.records.any (·.publicIdentity = p)) = true) .invalidData
  let known := if s.version = .v3 then s.ambiguousAccounts else s.records.map (·.publicIdentity)
  ensure (s.records.length ≤ maxPeers ∧ s.records.all valid = true ∧
    ascending (s.records.map (·.userId)) = true) .invalidData
  pure { fresh with
    records := s.records
    heads := s.heads
    ambiguousAccounts := s.heads.foldl (fun known h => noteAmbiguous known h.publicIdentity) known }

def byAuthor (d : PeerDirectory) (author : PubKey) : Option Announce :=
  (d.records.find? (·.userId = userIdFrom author)).filter (·.ed25519Pub = author)

def linkedBinding (d : PeerDirectory) (userId : String) : Option AccountDevice :=
  d.linkedBindings.find? (·.publicIdentity.userId = userId)

def head (d : PeerDirectory) (p : PublicIdentity) : Option TransitionHead :=
  d.heads.find? (·.publicIdentity = p)

def acceptsBinding (d : PeerDirectory) (a : Announce) : Bool :=
  match d.linkedBinding a.userId with
  | some linked =>
    a.publicIdentity = linked.publicIdentity && a.accountCert = some linked.certificate
  | none =>
    (d.byAuthor a.ed25519Pub).all fun old =>
      old.publicIdentity = a.publicIdentity && old.accountId = a.accountId

/-! ### Transitions of the directory -/

/-- Every link is signed, for the device, continues the one before, and returns to no earlier
root. -/
def chainChecked (device : PublicIdentity) :
    Option AccountBindingTransition → List PubKey → List AccountBindingTransition → Bool
  | _, _, [] => true
  | before, roots, t :: rest =>
    if t.verify = false ∨ t.publicIdentity ≠ device then false
    else
      match before with
      | none =>
        let roots := roots ++ [t.previousCertificate.accountEd25519Pub]
        if t.currentCertificate.accountEd25519Pub ∈ roots then false
        else chainChecked device (some t) (roots ++ [t.currentCertificate.accountEd25519Pub]) rest
      | some s =>
        if t.previousTransition ≠ some s.id ∨
          t.previousCertificate ≠ s.currentCertificate then false
        else if t.currentCertificate.accountEd25519Pub ∈ roots then false
        else chainChecked device (some t) (roots ++ [t.currentCertificate.accountEd25519Pub]) rest

/-- Whether what is recorded of a device fits the link a chain is entered at. -/
def headAdmits (recorded : Option TransitionHead) (chain : List AccountBindingTransition)
    (start : ℕ) : Bool :=
  match recorded with
  | some h => chain[start]?.bind (·.previousTransition) = some h.id
  | none => !(start = 0 && (chain[0]?.bind (·.previousTransition)).isSome)

def transitionCandidate (d : PeerDirectory) (a : Announce) (chain : List AccountBindingTransition) :
    Option String :=
  if valid a = false ∨ a.postOffice = true ∨ chain = [] ∨ maxChain < chain.length then none
  else
    (d.byAuthor a.ed25519Pub).bind fun old =>
      if old.postOffice = true ∨ old.publicIdentity ≠ a.publicIdentity ∨
          old.accountId = a.accountId then none
      else if (d.linkedBinding a.userId).any (fun b =>
          b.publicIdentity ≠ a.publicIdentity || some b.certificate ≠ a.accountCert) then none
      else if chainChecked a.publicIdentity none [] chain = false then none
      else if chain.getLast?.map (·.currentCertificate) ≠ a.accountCert then none
      else
        (chain.findIdx? fun t => some t.previousCertificate = old.accountCert).bind fun start =>
          if headAdmits (d.head a.publicIdentity) chain start = false then none else old.accountId

/-- The transitions to record: the chain, after those recorded before if it does not start anew. -/
def recordedChain (d : PeerDirectory) (a : Announce) (chain : List AccountBindingTransition) :
    Except ErrorKind (List AccountBindingTransition) :=
  if (chain[0]?.bind (·.previousTransition)).isNone then .ok chain
  else
    match d.head a.publicIdentity with
    | none => .error .invalidData
    | some h =>
      if maxChain < (h.transitions ++ chain).length then .error .invalidData
      else .ok (h.transitions ++ chain)

def replaceHead (heads : List TransitionHead) (h : TransitionHead) : List TransitionHead :=
  (heads.filter (·.publicIdentity ≠ h.publicIdentity) ++ [h]).insertionSort
    fun g h => g.publicIdentity.userId ≤ h.publicIdentity.userId

def transitionKnown (d : PeerDirectory) (a : Announce) (chain : List AccountBindingTransition) :
    Bool :=
  (d.byAuthor a.ed25519Pub).any (fun old =>
    old.publicIdentity = a.publicIdentity && old.accountCert = a.accountCert) &&
  chain.getLast?.any fun t => d.heads.any fun h =>
    h.publicIdentity = a.publicIdentity && h.id = t.id

/-- Record the end of a chain of transitions. The result is the directory that was saved, if there
was anything to record. -/
def recordTransition (d : PeerDirectory) (a : Announce) (chain : List AccountBindingTransition)
    (save : Except ErrorKind Unit) : Except ErrorKind (Option PeerDirectory) :=
  if (d.transitionCandidate a chain).isNone then
    if d.transitionKnown a chain then .ok none else .error .invalidData
  else do
    let index ← (search d.records a.userId).mapError fun _ => .invalidData
    let transitions ← d.recordedChain a chain
    let last ← need chain.getLast? .invalidData
    let ambiguous := noteAmbiguous d.ambiguousAccounts a.publicIdentity
    saveSnapshot save ambiguous
    pure (some { d with
      records := d.records.set index a
      heads := replaceHead d.heads ⟨a.publicIdentity, last.id, transitions⟩
      revision := d.revision + 1
      ambiguousAccounts := ambiguous })

/-! ### Announcements -/

def conflicts (d : PeerDirectory) (existing a : Announce) (acceptAccountChange : Bool) : Bool :=
  existing.ed25519Pub ≠ a.ed25519Pub || existing.x25519Pub ≠ a.x25519Pub ||
    (!acceptAccountChange && (d.linkedBinding a.userId).isNone && existing.account ≠ a.account)

/-- The records with an announcement in its place, or nothing if it is there already. -/
def place (d : PeerDirectory) (a : Announce) (acceptAccountChange : Bool) :
    Except ErrorKind (Option (List Announce)) :=
  match search d.records a.userId with
  | .ok i =>
    match d.records[i]? with
    | none => .error .other
    | some existing =>
      if d.conflicts existing a acceptAccountChange then .error .invalidData
      else if existing = a then .ok none
      else .ok (some (d.records.set i a))
  | .error i =>
    if d.records.length = maxPeers then .error .invalidData else .ok (some (insertAt d.records i a))

def keptHeads (d : PeerDirectory) (a : Announce) (acceptAccountChange : Bool) :
    List TransitionHead :=
  if acceptAccountChange && (d.byAuthor a.ed25519Pub).any (·.accountCert ≠ a.accountCert) then
    d.heads.filter (·.publicIdentity ≠ a.publicIdentity)
  else d.heads

def ambiguousAfter (d : PeerDirectory) (a : Announce) : List PublicIdentity :=
  if (d.byAuthor a.ed25519Pub).any (·.accountId ≠ a.accountId) && a.publicIdentity ∉
    d.ambiguousAccounts
  then noteAmbiguous d.ambiguousAccounts a.publicIdentity
  else d.ambiguousAccounts

def recordBound (d : PeerDirectory) (a : Announce) (acceptAccountChange : Bool)
    (save : Except ErrorKind Unit) : Except ErrorKind (Option PeerDirectory) := do
  ensure (valid a = true ∧ ¬ ((d.linkedBinding a.userId).isSome ∧ d.acceptsBinding a = false))
    .invalidData
  match ← d.place a acceptAccountChange with
  | none => pure none
  | some next =>
    (saveSnapshot save (d.ambiguousAfter a)).mapError fun _ => ErrorKind.other
    pure (some { d with
      records := next
      heads := d.keptHeads a acceptAccountChange
      revision := d.revision + 1
      ambiguousAccounts := d.ambiguousAfter a })

def record (d : PeerDirectory) (a : Announce) (save : Except ErrorKind Unit) :
    Except ErrorKind (Option PeerDirectory) := d.recordBound a false save

/-- Record the node's own announcement, of whatever account the node has taken on. -/
def recordOwn (d : PeerDirectory) (a : Announce) (own : PublicIdentity)
    (save : Except ErrorKind Unit) : Except ErrorKind (Option PeerDirectory) :=
  if a.publicIdentity ≠ own then .error .invalidData else d.recordBound a true save

def recordExplicitAccount (d : PeerDirectory) (a : Announce) (save : Except ErrorKind Unit) :
    Except ErrorKind (Option PeerDirectory) := d.recordBound a true save

/-- Bind a device to the node's own account, after a pairing that a code has authorized. -/
def authorizeLinkedDevice (d : PeerDirectory) (device : AccountDevice) (ownAccount : String) :
    Except ErrorKind PeerDirectory :=
  if device.certificate.verify = false ∨
      device.certificate.deviceEd25519Pub ≠ device.publicIdentity.ed25519Pub ∨
      device.certificate.accountId ≠ ownAccount ∨
      (d.byAuthor device.publicIdentity.ed25519Pub).any
        (·.publicIdentity ≠ device.publicIdentity) then
    .error .invalidData
  else
    match d.linkedBindings.find? (·.publicIdentity.userId = device.publicIdentity.userId) with
    | some existing => if existing = device then .ok d else .error .invalidData
    | none => .ok { d with
        revision := d.revision + 1, linkedBindings := d.linkedBindings ++ [device] }

end PeerDirectory

end Crypto

end MeshTalk.Peers
