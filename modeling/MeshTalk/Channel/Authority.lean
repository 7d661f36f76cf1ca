import MeshTalk.Channel.Controls
import MeshTalk.Lib.Outcome
import MeshTalk.Lib.Table

/-! # The account authority of a channel

Which accounts hold a grant in a channel, which devices take part under it, and which account owns
the channel (`node/channel_account_authority.rs`, `node/channel_account_authority/facts.rs`). An
authority is kept in memory for a whole reduction, or has its historical sets in fact tables and
reads them back where it needs them. The tables are a value of `AuthorityFacts`, the one the
authority was loaded from.

A hash map is a `Table`. Where the source goes over one and the order shows, the order is that of
insertion. -/

namespace MeshTalk.Channel

open Lib

/-- A member of the time before accounts: the device, and the events that made it a member. -/
structure LegacyAccountMember where
  identity : PublicIdentity
  membershipEvent : EventId
  acceptanceEvent : Option EventId
deriving DecidableEq

/-- What the reducer knows of the members when a snapshot of grants is applied. -/
structure LegacyAuthorityContext where
  channel : ConversationId
  owner : PublicIdentity
  epoch : ℕ
  accepted : List LegacyAccountMember
  invited : List LegacyAccountMember
  live : List PublicIdentity

structure LegacyDeparture where
  member : LegacyAccountMember
  event : EventId
deriving DecidableEq

abbrev LegacyLifetimeKey := EventId × Option EventId × PubKey × PubKey

def lifetimeKey (m : LegacyAccountMember) : LegacyLifetimeKey :=
  (m.membershipEvent, m.acceptanceEvent, m.identity.ed25519Pub, m.identity.x25519Pub)

/-- The devices by which an account was a member when accounts took over. -/
structure InitialLegacyCohort where
  grant : AccountGrant
  originals : List LegacyAccountMember
deriving DecidableEq

/-- The event and the device a grant was given for. -/
abbrev LegacyBindingKey := EventId × PubKey × PubKey

def legacyKey (g : AccountGrant) : LegacyBindingKey :=
  (g.membershipEvent, g.original.ed25519Pub, g.original.x25519Pub)

abbrev DeviceKey := PubKey × PubKey

def Announce.deviceKey (p : Announce) : DeviceKey := (p.ed25519Pub, p.x25519Pub)

/-- Why an event of the account authority is refused. -/
inductive AuthorityError where
  | invalid
  | unsupported
  | missingAncestry
  | stale
deriving DecidableEq

structure AuthorityCurrent where
  channel : Option ConversationId := none
  current : Option EventId := none
  owner : Option PubKey := none
  grants : Table PubKey AccountGrant := ∅
  genesis : Option EventId := none
  baseEpoch : Option ℕ := none
  originals : List Announce := []
  deviceGrants : Table DeviceKey AccountGrantId := ∅
  activated : Finset AccountGrantId := ∅
  origins : Table AccountGrantId EventId := ∅
  inherited : Table DeviceKey (AccountGrantId × EventId) := ∅
  initialLegacy : Table AccountGrantId InitialLegacyCohort := ∅
  legacyBase : Finset LegacyLifetimeKey := ∅
  legacyOmitted : List LegacyAccountMember := []
  historicalAdded : ℕ := 0
  historicalRevoked : ℕ := 0

structure AuthorityFacts where
  stored : Option AuthorityCurrent := none
  control : Finset EventId := ∅
  revoked : Table AccountGrantId EventId := ∅
  added : Finset AccountGrantId := ∅
  pin : Table LegacyBindingKey PubKey := ∅
  original : Table (PubKey × PubKey × PubKey) Announce := ∅
  origin : Table AccountGrantId EventId := ∅
  knownPublic : Finset DeviceKey := ∅
  legacySeen : Table LegacyLifetimeKey EventId := ∅
  acceptance : Finset (AccountGrantId × EventId) := ∅
  candidates : Table EventId LegacyAccountMember := ∅

structure AccountAuthority extends AuthorityCurrent where
  validControls : Finset EventId := ∅
  revoked : Table AccountGrantId EventId := ∅
  addedGrants : Finset AccountGrantId := ∅
  pinned : Table LegacyBindingKey PubKey := ∅
  acceptanceEvents : Finset (AccountGrantId × EventId) := ∅
  declinedEpochReservations : Finset AccountGrantId := ∅
  legacyCandidates : List LegacyDeparture := []
  legacyCandidateLifetimes : Finset LegacyLifetimeKey := ∅
  legacySeen : Table LegacyLifetimeKey EventId := ∅
  legacyRevoked : Finset AccountGrantId := ∅
  history : Option AuthorityFacts := none

/-- Subtraction that fails below zero. -/
def checkedSub (a b : ℕ) : Option ℕ := if b ≤ a then some (a - b) else none

namespace AccountAuthority

variable (a : AccountAuthority)

/-! ### Historical facts -/

/-- The snapshot of grants was applied. -/
def knownControl (e : EventId) : Bool := e ∈ a.validControls ∨ a.history.any fun h => e ∈ h.control

def revokedEvent (id : AccountGrantId) : Option EventId :=
  a.revoked.get id <|> a.history.bind fun h => h.revoked.get id

/-- The account a device was bound to for a membership. -/
def previousPin (k : LegacyBindingKey) : Option PubKey :=
  a.pinned.get k <|> a.history.bind fun h => h.pin.get k

/-- The incarnation has counted up the epoch. -/
def hadAdded (id : AccountGrantId) : Bool := id ∈ a.addedGrants ∨
    a.history.any fun h => id ∈ h.added

/-- A device with the same signing key and another exchange key is on record. -/
def conflictingOriginal (p : PublicIdentity) : Bool :=
  a.history.any fun h => ∃ k ∈ h.knownPublic, k.1 = p.ed25519Pub ∧ k.2 ≠ p.x25519Pub

def observedRevocations (account : PubKey) (e : EventId) (graph : AuthorityGraph) : Bool :=
  let all (t : Table AccountGrantId EventId) : Bool :=
    t.rows.all fun r => r.1.accountPub ≠ account || graph.descends e r.2
  all a.revoked && a.history.all fun h => all h.revoked

def observedAcceptance (id : AccountGrantId) (e : EventId) (graph : AuthorityGraph) : Bool :=
  let any (s : Finset (AccountGrantId × EventId)) : Bool :=
    ∃ r ∈ s, r.1 = id ∧ graph.descends e r.2 = true
  any a.acceptanceEvents || a.history.any fun h => any h.acceptance

def legacyCandidate (e : EventId) : Option LegacyDeparture :=
  a.legacyCandidates.find? (fun d => d.event = e) <|>
    a.history.bind fun h => (h.candidates.get e).map fun m => ⟨m, e⟩

def legacyCandidateObserved (m : LegacyAccountMember) (e : EventId) (graph : AuthorityGraph) :
    Bool :=
  (a.legacyCandidates.any fun d => lifetimeKey d.member = lifetimeKey m && graph.descends e
    d.event) || a.history.any fun h =>
      h.candidates.rows.any fun r => lifetimeKey r.2 = lifetimeKey m && graph.descends e r.1

def cohortKeys : Finset LegacyLifetimeKey :=
  ((a.initialLegacy.values.flatMap InitialLegacyCohort.originals).map lifetimeKey).toFinset

/-- Load what the tables say of the stays that matter: those of the members, and of the cohorts. -/
def prepareLegacyMembers (members : List LegacyAccountMember) (enabled : Bool) : AccountAuthority :=
  match a.history with
  | none => a
  | some h =>
    let keys := (members.map lifetimeKey).toFinset ∪ a.cohortKeys ∪
      (a.legacyOmitted.map lifetimeKey).toFinset
    let kept := a.legacySeen.filter fun r => r.1 ∈ keys
    { a with
      legacySeen := (h.legacySeen.rows.filter fun r => r.1 ∈ keys).foldl
        (fun t r => t.set r.1 r.2) kept
      legacyCandidateLifetimes :=
        if enabled then
          keys.filter fun k => h.candidates.rows.any fun r => lifetimeKey r.2 = k
        else ∅
      legacyRevoked := a.initialLegacy.keySet.filter fun id => (h.revoked.get id).isSome }

/-! ### Departures of the devices of a cohort -/

/-- All devices of a cohort have left: in this reduction, or by any event of the channel. -/
def cohortDeparted (id : AccountGrantId) (all : Bool) : Bool :=
  (a.initialLegacy.get id).any fun cohort =>
    !cohort.originals.isEmpty && cohort.originals.all fun m =>
      if all then
        lifetimeKey m ∈ a.legacyCandidateLifetimes ||
          a.legacyCandidates.any fun d => lifetimeKey d.member = lifetimeKey m
      else a.legacySeen.has (lifetimeKey m)

def cohortClosed (id : AccountGrantId) (all : Bool) : Bool :=
  !(some id.accountPub = a.owner &&
      (a.grants.get id.accountPub).bind AccountGrant.id = some id) &&
    a.cohortDeparted id all

def setLegacyCandidates (candidates : List LegacyDeparture) : AccountAuthority :=
  { a with legacyCandidates := candidates }

/-- Record a departure, the least event of those of one stay. -/
def noteLegacyDeparture (d : LegacyDeparture) : AccountAuthority :=
  { a with legacySeen := a.legacySeen.upsert (lifetimeKey d.member) d.event (min · d.event) }

def noteDeparture : Option LegacyDeparture → AccountAuthority
  | some d => a.noteLegacyDeparture d
  | none => a

def legacyDepartureAccount (e : EventId) : Option PubKey :=
  (a.legacyCandidate e).bind fun d =>
    (a.initialLegacy.rows.find? fun r =>
      r.2.originals.any fun m => lifetimeKey m = lifetimeKey d.member).map (·.1.accountPub)

/-- The account whose cohort a departure is of still has the grant of the cohort. -/
def legacyDepartureCurrent (e : EventId) : Bool :=
  (a.legacyDepartureAccount e).any fun account =>
    ((a.grants.get account).bind AccountGrant.id).any fun id => a.initialLegacy.has id

/-! ### Epochs -/

/-- The key epoch: what it was when accounts took over, and one for each incarnation added or
refused, each revocation, and each departure from a cohort that the first epoch does not count. -/
def keyEpoch : Option ℕ := do
  let legacy := (a.legacySeen.keySet.filter fun k => k ∈ a.cohortKeys ∧ k ∉ a.legacyBase).card
  let ordinary := (a.revoked.keySet.filter fun id => a.cohortDeparted id false = false).card
  let base ← a.baseEpoch
  let n ← checkedAdd u64Max base a.historicalAdded
  let revoked ← checkedSub a.historicalRevoked
    (a.legacyRevoked.filter fun id => a.cohortDeparted id false = true).card
  let n ← checkedAdd u64Max n revoked
  let n ← checkedAdd u64Max n (a.addedGrants ∪ a.declinedEpochReservations).card
  let n ← checkedAdd u64Max n legacy
  checkedAdd u64Max n ordinary

def ownerAccountId [Sha256] : Option String := a.owner.map accountIdFrom

/-! ### Grants of devices -/

def accountGrant (account : PubKey) : Option AccountGrant :=
  (a.grants.get account).filter fun g =>
    g.id.any fun id => !a.revoked.has id && !a.cohortClosed id false

def grantOrigin (id : AccountGrantId) : Option EventId := a.origins.get id

section Devices

variable [Sha256] [EventCrypto]

/-- The grant a device takes part under, whether or not it has accepted. -/
def proofGrant (device : PublicIdentity) (proof : Announce) : Option AccountGrant :=
  if proof.publicIdentity = device ∧ proof.validPresence = true ∧
      a.originals.any (fun o => o.publicIdentity = device && o.accountId = proof.accountId) =
        true then
    proof.account.bind fun account => (a.grants.get account).filter fun g =>
      a.deviceGrants.get (device.ed25519Pub, device.x25519Pub) = g.id &&
        g.id.any fun id => !a.revoked.has id && !a.cohortClosed id false
  else none

def isActive (g : AccountGrant) : Bool := !g.pending || g.id.any fun id => id ∈ a.activated

def grantForDevice (device : PublicIdentity) (proof : Announce) : Option AccountGrant :=
  (a.proofGrant device proof).filter a.isActive

def invitationForDevice (device : PublicIdentity) (proof : Announce) : Option AccountGrant :=
  (a.proofGrant device proof).filter fun g => g.pending && g.id.any fun id => id ∉ a.activated

def isMember (device : PublicIdentity) (proof : Announce) : Bool :=
  (a.grantForDevice device proof).isSome

def canAdmin (device : PublicIdentity) (proof : Announce) : Bool :=
  ((a.grantForDevice device proof).bind AccountGrant.id).any fun id => some id.accountPub = a.owner

def originalDeviceProofs : List Announce := a.originals.filter fun p =>
    a.isMember p.publicIdentity p

def invitedDeviceProofs : List Announce :=
  a.originals.filter fun p => (a.invitationForDevice p.publicIdentity p).isSome

/-- The devices under a grant whose cohort has left. -/
def legacyClosedDeviceProofs : List Announce :=
  a.originals.filter fun p => (a.deviceGrants.get p.deviceKey).any fun id =>
    a.cohortClosed id false && (a.grants.get id.accountPub).bind AccountGrant.id = some id

def controlGrants : List AccountGrant :=
  a.grants.values.insertionSort fun g h =>
    g.original.account.elim 0 (·.toNat + 1) ≤ h.original.account.elim 0 (·.toNat + 1)

def currentGrants : List AccountGrant :=
  a.controlGrants.filter fun g => g.id.any fun id => !a.cohortClosed id false

/-- The event by which a device takes part: its own authorization, or the origin of the grant. -/
def deviceAuthorization (device : PublicIdentity) (proof : Announce) : Option EventId :=
  ((a.proofGrant device proof).bind AccountGrant.id).bind fun id =>
    ((a.inherited.get (device.ed25519Pub, device.x25519Pub)).filter fun r => r.1 = id).map
      Prod.snd <|> a.grantOrigin id

end Devices

end AccountAuthority

end MeshTalk.Channel
