import MeshTalk.File.Manifest

/-! # Account group operations

The values of `node/account_group/operations.rs`: what an account asks of a group, the signed
reference that fixes the request, the source that is to carry it out and the status it has, and the
projections by which sibling devices tell each other of them (`operations/wire.rs`).

The serialized bytes that are hashed, signed or carried in a body are the parameter `Serde`, the
checks of message texts and names the parameter `Payloads`. -/

namespace MeshTalk.AccountGroup

open Lib Channel File

/-- The id a caller gives a logical operation, distinct from every event id. -/
structure OperationId where
  bytes : BitVec 256
deriving DecidableEq

theorem OperationId.toNat_injective : Function.Injective fun i : OperationId => i.bytes.toNat := by
  rintro ⟨a⟩ ⟨b⟩ h
  exact congrArg OperationId.mk (BitVec.eq_of_toNat_eq h)

instance : LinearOrder OperationId := LinearOrder.lift' _ OperationId.toNat_injective

/-! ### Sources -/

/-- The standing of an account or a device in a group. -/
inductive Role where
  | invited | member | owner | left | dissolved | unknown
deriving DecidableEq

/-- How a source may execute. -/
inductive Execution where
  | localDevice
  | viaDevice (device : PublicIdentity)
  | waitingForDevice
  | requiresUpgrade
  | reconciling
deriving DecidableEq

/-- The validated membership of a device, and its acceptance where one was needed. -/
structure MembershipLifetime where
  member : PublicIdentity
  membership : EventId
  acceptance : Option EventId
deriving DecidableEq

structure AuthorityExpectation where
  authority : Option EventId
  epoch : ℕ
deriving DecidableEq

/-- One device's validated authority. -/
structure Source where
  device : PublicIdentity
  role : Role
  lifetime : MembershipLifetime
  authority : AuthorityExpectation
  execution : Execution
deriving DecidableEq

/-- What an account may do in a group, and through which devices. -/
structure Access where
  role : Role
  sources : List Source
deriving DecidableEq

/-! ### Operations -/

inductive Kind where
  | text | sticker | file | reaction | recall | invite | acceptInvitation | declineInvitation
      | rename
  | removeAccount | transferOwnership | dissolve | historyPolicy | leaveAccount
deriving DecidableEq

/-- The roles that may ask for a kind of operation. -/
def Kind.admitsRole (k : Kind) (role : Role) : Bool :=
  match k with
  | text | sticker | file | reaction | .recall => role = .member || role = .owner
  | acceptInvitation | declineInvitation => role = .invited
  | leaveAccount => role = .member
  | invite | rename | removeAccount | transferOwnership | dissolve | historyPolicy => role = .owner

structure PreparedMessage where
  kind : Kind
  encodedBody : List UInt8
  stagedAssets : List (BitVec 256)
deriving DecidableEq

/-- How much history a new member may read. -/
inductive HistoryPolicy where
  | off | lastTen | lastThreeDays | lastTenWithinThreeDays
deriving DecidableEq

inductive Operation where
  | send (message : PreparedMessage)
  | react (target : EventId) (emoji : String) (remove : Bool)
  | recall (target : EventId)
  | invite (targetAccountId : String)
  | acceptInvitation
  | declineInvitation
  | rename (name : String)
  | removeAccount (targetAccountId : String)
  | transferOwnership (targetAccountId : String)
  | dissolve
  | setHistoryPolicy (policy : HistoryPolicy)
  | leaveAccount
deriving DecidableEq

namespace Operation

def kind : Operation → Kind
  | send message => message.kind
  | react _ _ _ => .reaction
  | .recall _ => .recall
  | invite _ => .invite
  | acceptInvitation => .acceptInvitation
  | declineInvitation => .declineInvitation
  | rename _ => .rename
  | removeAccount _ => .removeAccount
  | transferOwnership _ => .transferOwnership
  | dissolve => .dissolve
  | setHistoryPolicy _ => .historyPolicy
  | leaveAccount => .leaveAccount

def messageAction : Operation → Bool
  | react _ _ _ | .recall _ => true
  | _ => false

/-- It changes the account's own membership. -/
def selfControl : Operation → Bool
  | acceptInvitation | declineInvitation | leaveAccount => true
  | _ => false

def ownerControl : Operation → Bool
  | removeAccount _ | transferOwnership _ => true
  | _ => false

end Operation

/-! ### Status -/

/-- Why an operation is refused. -/
inductive Rejection where
  | notAuthorized | ownerMustTransfer | membershipChanged | originalSignerNoLongerAuthorized
  | invalidTarget | expired | invalidPayload | operationIdConflict | resourceLimit
deriving DecidableEq

/-- How far an operation is. -/
inductive Phase where
  | waitingForExecutor
  | awaitingAcceptance
  | accepted
  | executing
  | reconciling
  | actionRequired (reason : Rejection)
  | cancellationRequested
  | cancelled
  | committed
  | rejected (reason : Rejection)
deriving DecidableEq

def Phase.terminal : Phase → Bool
  | cancelled | committed | rejected _ => true
  | _ => false

def Phase.stopped : Phase → Bool
  | cancelled | rejected _ => true
  | _ => false

theorem Phase.terminal_of_stopped {p : Phase} (h : p.stopped = true) : p.terminal = true := by
  cases p <;> first | rfl | cases h

structure OperationExecution where
  deviceId : String
  phase : Phase
  committedEvents : List EventId
deriving DecidableEq

structure Status where
  id : OperationId
  accountId : String
  group : ConversationId
  kind : Kind
  phase : Phase
  executions : List OperationExecution
  committedEvents : List EventId
  primaryEvent : Option EventId
deriving DecidableEq

/-! ### Files -/

inductive MessageProtection where
  | click | authenticate
deriving DecidableEq

structure FileLogical where
  name : String
  mime : String
  size : ℕ
  checksum : BitVec 256
  kind : FileKind
  expiresAtMs : Option ℕ
  protection : Option MessageProtection
deriving DecidableEq

/-- The preparation of a file by the device that first staged it, signed. -/
structure FileDescriptor where
  id : OperationId
  group : ConversationId
  logicalDigest : BitVec 256
  creator : Announce
  manifest : List UInt8
  assetCiphertextDigest : BitVec 256
  signature : List UInt8
deriving DecidableEq

structure FilePayload where
  logical : FileLogical
  descriptor : Option FileDescriptor
deriving DecidableEq

structure FileAssetsReceipt where
  fileConv : ConversationId
  fingerprint : BitVec 256
  eventCount : ℕ
  assetDigest : BitVec 256
deriving DecidableEq

/-! ### References -/

/-- The request of an operation, fixed and signed by the device it comes from. -/
structure OperationReference where
  id : OperationId
  group : ConversationId
  kind : Kind
  digest : BitVec 256
  origin : Announce
  executor : Source
  signature : List UInt8
deriving DecidableEq

/-- Serialized forms. `manifestLogical` and `manifestFile` read what a valid manifest says of its
file, the latter its conversation and the number of its chunks. -/
class Serde where
  operation : Operation → List UInt8
  reference : OperationId → ConversationId → Kind → BitVec 256 → Announce → Source → List UInt8
  descriptor : OperationId → ConversationId → BitVec 256 → Announce → List UInt8 →
    BitVec 256 → List UInt8
  encodePayload : FilePayload → Option (List UInt8)
  decodePayload : List UInt8 → Option FilePayload
  manifestLogical : List UInt8 → Option FileLogical
  manifestFile : List UInt8 → Option (ConversationId × ℕ)

/-- Checks of what a body says: that it can be executed, the name as it is stored, when a message
expires and whether a new message may still be admitted. -/
class Payloads where
  validExecutionPayload : Operation → Bool
  normalizeSimpleName : String → Option String
  expiresAtMs : PreparedMessage → Option ℕ
  validateNewAdmission : PreparedMessage → Bool

section Bytes

variable [Sha256] [EventCrypto] [Serde]

/-- The first half of the id of every operation of a device. -/
def originTag (origin : PublicIdentity) : BitVec 128 :=
  (Sha256.digest (textBytes "mesh-talk-account-group-operation-origin-v1" ++
    keyBytes origin.ed25519Pub ++ keyBytes origin.x25519Pub)).extractLsb' 128 128

def OperationId.matchesOrigin (i : OperationId) (origin : PublicIdentity) : Bool :=
  i.bytes.extractLsb' 128 128 = originTag origin

def Operation.filePayload : Operation → Option FilePayload
  | .send message => if message.kind = .file then Serde.decodePayload message.encodedBody else none
  | _ => none

def FilePayload.prepared (p : FilePayload) : Option PreparedMessage :=
  (Serde.encodePayload p).map fun bytes => ⟨.file, bytes, [p.logical.checksum]⟩

def FilePayload.logicalOperation (p : FilePayload) : Option Operation :=
  (FilePayload.prepared ⟨p.logical, none⟩).map .send

/-- The operation that a retry repeats: a file message without its preparation. -/
def Operation.logical (op : Operation) : Operation :=
  match op with
  | .send message =>
    ((op.filePayload.filter fun payload => message.stagedAssets = [payload.logical.checksum]).bind
      (·.logicalOperation)).getD op
  | _ => op

def operationDigest (group : ConversationId) (op : Operation) : BitVec 256 :=
  Sha256.digest (textBytes "mesh-talk-account-group-operation-body-v1" ++ keyBytes group.bytes ++
    Serde.operation op.logical)

namespace OperationReference

/-- The message the origin signs: all fields but the signature. -/
def message (r : OperationReference) : List UInt8 :=
  textBytes "mesh-talk-account-group-operation-request-v1" ++
    Serde.reference r.id r.group r.kind r.digest r.origin r.executor

def valid (r : OperationReference) (account : PubKey) : Bool :=
  r.signature.length = 64 && r.id ≠ ⟨0⟩ && r.id.matchesOrigin r.origin.publicIdentity &&
    r.origin.verify && r.origin.account = some account &&
    verifyKey r.origin.ed25519Pub r.message r.signature

/-- The same signed reference. The message that is compared in the source holds every other
field. -/
def same (r other : OperationReference) : Bool := r = other

omit [Sha256] [EventCrypto] [Serde] in
@[simp] theorem same_eq_true {r other : OperationReference} : r.same other = true ↔ r = other :=
  decide_eq_true_iff

end OperationReference

def FileDescriptor.message (d : FileDescriptor) : List UInt8 :=
  textBytes "mesh-talk-account-group-file-preparation-v1" ++
    Serde.descriptor d.id d.group d.logicalDigest d.creator d.manifest d.assetCiphertextDigest

def FileDescriptor.validFor (d : FileDescriptor) (r : OperationReference) (logical : FileLogical) :
    Bool :=
  r.kind = .file && d.id = r.id && d.group = r.group && d.logicalDigest = r.digest &&
    d.creator.publicIdentity = r.origin.publicIdentity && d.creator.accountCert =
      r.origin.accountCert &&
    d.creator.verify && !d.creator.postOffice && verifyKey d.creator.ed25519Pub
      d.message d.signature &&
    Serde.manifestLogical d.manifest = some logical

omit [Sha256] [EventCrypto] in
def FileAssetsReceipt.validFor (r : FileAssetsReceipt) (payload : FilePayload) : Bool :=
  match payload.descriptor.bind fun d => (Serde.manifestFile d.manifest).map
    fun file => (d, file) with
  | some (d, file) => r.fileConv = file.1 && r.eventCount = file.2 &&
      r.assetDigest = d.assetCiphertextDigest && r.fingerprint ≠ 0
  | none => false

end Bytes

/-! ### Projections -/

structure RequestProjection where
  reference : OperationReference
  body : Option Operation
  cancel : Bool
  nonce : BitVec 128
deriving DecidableEq

structure ResultProjection where
  reference : OperationReference
  status : Status
  messageEvent : Option Event
  fileDescriptor : Option FileDescriptor
deriving DecidableEq

/-- A question for the result of an operation of another device. -/
structure LookupProjection where
  id : OperationId
  group : ConversationId
  kind : Kind
  digest : BitVec 256
  cancel : Bool
  nonce : BitVec 128
deriving DecidableEq

section WellFormed

variable [Sha256] [EventCrypto] [Serde]

/-- A request that siblings take: with a valid reference, and a body that is the one signed. -/
def RequestProjection.wellFormed (account : PubKey) (r : RequestProjection) : Bool :=
  r.reference.valid account && r.body.all fun body =>
    body.kind = r.reference.kind && operationDigest r.reference.group body = r.reference.digest

/-- A result that siblings take: of the executor itself, for its valid reference, in a phase that
only an executor gives. -/
def ResultProjection.wellFormed (account : PubKey) (sender : PublicIdentity)
    (r : ResultProjection) :
    Bool :=
  r.reference.valid account && r.reference.executor.device = sender && r.status.id =
    r.reference.id && r.status.group = r.reference.group && r.status.kind = r.reference.kind &&
    r.status.accountId = accountIdFrom account && r.status.committedEvents.length ≤ 65 &&
    r.status.executions.length ≤ 65 &&
    r.status.primaryEvent.all (fun id => r.status.committedEvents.contains id) &&
    r.status.executions.all (fun x => x.deviceId.utf8ByteSize =
      32 && x.committedEvents.length ≤ 65) &&
    r.status.phase ≠ .waitingForExecutor && r.status.phase ≠ .awaitingAcceptance &&
    (!r.status.phase.stopped || (r.status.committedEvents.isEmpty &&
      r.status.executions.all fun x => x.committedEvents.isEmpty))

end WellFormed

/-- What a device publishes about a group. -/
structure OperationProjection where
  requests : List RequestProjection
  results : List ResultProjection
  lookups : List LookupProjection
deriving DecidableEq

structure LegacyLegRequest where
  parent : OperationReference
  request : RequestProjection
deriving DecidableEq

structure LegacyLegResult where
  parent : OperationReference
  result : ResultProjection
deriving DecidableEq

end MeshTalk.AccountGroup
