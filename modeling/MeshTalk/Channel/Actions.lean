import MeshTalk.Channel.Authority

/-! # What changes the account authority

The authorization of a sibling device, the four actions of an account on its own grant, and the
snapshot of grants signed by the owner account (`node/channel_account_authority.rs`). Each returns
whether it changed the authority, or why it is refused; a refused one leaves the authority as it is.

The checks of `apply` come in the order of the source: the control itself (`checkControl`), the
bindings of legacy devices at the takeover (`bindLegacy`), the grants one after the other
(`admitGrant`), the owner (`checkOwner`), the takeover as a whole (`checkInitial`) and the removals
(`checkRemoved`). Then the new authority is put together (`revise`, `install`, `takeOver`). -/

namespace MeshTalk.Channel

open Lib

/-- The event was admitted: it was not refused, whether or not it changed something. -/
def admitted {α : Type} (r : Except AuthorityError α) : Bool :=
  match r with
  | .ok _ => true
  | .error _ => false

variable [Wire] [Sha256] [EventCrypto]

def validateLegacyGrant (g : AccountGrant) (e : Event) (legacy : LegacyAuthorityContext)
    (graph : AuthorityGraph) : Except AuthorityError Unit := do
  ensure ((if g.pending then legacy.invited else legacy.accepted).any (fun m =>
      m.identity = g.original.publicIdentity && m.membershipEvent = g.membershipEvent &&
        m.acceptanceEvent = g.acceptanceEvent) = true ∧
    graph.descends e.id g.membershipEvent = true) .missingAncestry
  let membership ← need (graph.event g.membershipEvent) .missingAncestry
  ensure (validEvent membership = true ∧ membership.kind = .membershipChange ∧
    membership.conversationId = e.conversationId) .invalid
  let snapshot ← need (ChannelMeta.decode membership.ciphertext) .invalid
  ensure (g.original.publicIdentity ∈ snapshot.members) .invalid
  let needsAcceptance := ChannelMeta.isInvitation membership.ciphertext &&
    g.original.publicIdentity.userId ≠ snapshot.owner
  if g.pending then
    ensure (g.acceptanceEvent = none ∧ needsAcceptance = true) .invalid
  else
    match g.acceptanceEvent with
    | some acceptance =>
      let acceptanceEvent ← need (graph.event acceptance) .missingAncestry
      ensure (acceptanceEvent.kind = .channelAccept ∧ acceptanceEvent.ciphertext = [] ∧
        validEvent acceptanceEvent = true ∧
        acceptanceEvent.author.ed25519Pub = g.original.ed25519Pub ∧
        acceptanceEvent.conversationId = e.conversationId ∧
        graph.descends acceptance g.membershipEvent = true ∧
        graph.descends e.id acceptance = true) .invalid
    | none => ensure (needsAcceptance = false) .invalid

namespace AccountAuthority

variable (a : AccountAuthority)

/-! ### Sibling devices -/

/-- Let a sibling device take part under the grant of its account. -/
def inheritDevice (e : Event) (graph : AuthorityGraph) :
    Except AuthorityError (Bool × AccountAuthority) := do
  let (authority, id, proof) ← need (DeviceControl.signedInheritance e) .invalid
  ensure (a.channel = some e.conversationId ∧ a.knownControl authority = true ∧
    graph.descends e.id authority = true ∧
    (a.accountGrant id.accountPub).bind AccountGrant.id = some id) .stale
  let origin ← need (a.grantOrigin id) .missingAncestry
  ensure (graph.descends e.id origin = true) .stale
  ensure (a.originals.any (fun old => old.ed25519Pub = proof.ed25519Pub &&
    old.publicIdentity ≠ proof.publicIdentity) = false ∧
    a.conflictingOriginal proof.publicIdentity = false) .invalid
  if (a.proofGrant proof.publicIdentity proof).isSome then .ok (false, a)
  else .ok (true, { a with
    deviceGrants := a.deviceGrants.set proof.deviceKey id
    inherited := a.inherited.set proof.deviceKey (id, e.id)
    originals := a.originals ++ [proof] })

/-! ### Actions on one's own grant -/

def validateSelfAction (e : Event) (proof : Announce) (kind : EventKind) :
    Except AuthorityError Unit :=
  ensure (a.channel = some e.conversationId ∧ e.kind = kind ∧ e.ciphertext = [] ∧
    validEvent e = true ∧ e.author.ed25519Pub = proof.ed25519Pub ∧
      proof.validPresence = true) .invalid

def observesBinding (e : Event) (proof : Announce) (graph : AuthorityGraph) : Bool :=
  (a.inherited.get proof.deviceKey).all fun r => graph.descends e.id r.2

def acceptAccount (e : Event) (proof : Announce) (graph : AuthorityGraph) :
    Except AuthorityError (Bool × AccountAuthority) := do
  a.validateSelfAction e proof .channelAccept
  ensure (a.observesBinding e proof graph = true) .missingAncestry
  match a.proofGrant proof.publicIdentity proof with
  | none => .ok (false, a)
  | some g =>
    let id ← need g.id .invalid
    let origin ← need (a.grantOrigin id) .missingAncestry
    ensure (graph.descends e.id origin = true) .stale
    if g.pending = false then .ok (false, a)
    else if id ∈ a.activated then
      .ok (false, { a with acceptanceEvents := insert (id, e.id) a.acceptanceEvents })
    else do
      ensure ((a.keyEpoch.bind fun n => checkedAdd u64Max n 1).isSome = true) .unsupported
      .ok (true, { a with
        acceptanceEvents := insert (id, e.id) a.acceptanceEvents
        activated := insert id a.activated
        addedGrants := if a.hadAdded id then a.addedGrants else insert id a.addedGrants })

def leaveAccount (e : Event) (proof : Announce) (graph : AuthorityGraph) :
    Except AuthorityError (Bool × AccountAuthority) := do
  a.validateSelfAction e proof .channelLeave
  ensure (a.observesBinding e proof graph = true) .missingAncestry
  match a.grantForDevice proof.publicIdentity proof with
  | none => .ok (false, a)
  | some g =>
    let id ← need g.id .invalid
    ensure (some id.accountPub ≠ a.owner) .invalid
    let origin ← need (a.grantOrigin id) .missingAncestry
    ensure (graph.descends e.id origin = true) .stale
    ensure ((a.keyEpoch.bind fun n => checkedAdd u64Max n 1).isSome = true) .unsupported
    .ok (true, { a with
      revoked := if (a.revokedEvent id).isNone then a.revoked.set id e.id else a.revoked
      grants := a.grants.erase id.accountPub })

/-- Leave with an account whose cohort has left. -/
def replayLeaveAfterLegacyClosure (e : Event) (proof : Announce) (graph : AuthorityGraph) :
    Except AuthorityError (Bool × AccountAuthority) := do
  a.validateSelfAction e proof .channelLeave
  let account ← need proof.account .invalid
  let g ← need (a.grants.get account) .invalid
  let id ← need g.id .invalid
  ensure (a.cohortClosed id false = true ∧ a.observesBinding e proof graph = true ∧
    some account ≠ a.owner ∧ a.deviceGrants.get proof.deviceKey = some id ∧
    a.originals.any (fun o => o.publicIdentity = proof.publicIdentity &&
      o.accountId = proof.accountId) = true) .stale
  let origin ← need (a.grantOrigin id) .missingAncestry
  ensure (graph.descends e.id origin = true) .stale
  .ok (true, { a with
    revoked := a.revoked.insertOrIgnore id e.id
    grants := a.grants.erase account })

/-- Refuse an invitation that the event does not see accepted. -/
def declineAccount (e : Event) (proof : Announce) (graph : AuthorityGraph) :
    Except AuthorityError (Bool × AccountAuthority) := do
  let payload ← need (AccountDeclinePayload.decode e.ciphertext) .invalid
  ensure (a.channel = some e.conversationId ∧ e.kind = .channelLeave ∧ validEvent e = true ∧
    proof.validPresence = true ∧ proof.postOffice = false ∧
    e.author.ed25519Pub = proof.ed25519Pub ∧ some payload.grant.accountPub ≠ a.owner) .invalid
  let g ← need (a.proofGrant proof.publicIdentity proof) .invalid
  ensure (g.pending = true ∧ g.id = some payload.grant) .invalid
  let origin ← need (a.grantOrigin payload.grant) .missingAncestry
  ensure (graph.descends e.id origin = true ∧ a.observesBinding e proof graph = true)
    .missingAncestry
  ensure (a.observedAcceptance payload.grant e.id graph = false) .invalid
  let increment :=
    if a.hadAdded payload.grant = true ∨ payload.grant ∈ a.declinedEpochReservations then 1 else 2
  ensure ((a.keyEpoch.bind fun n => checkedAdd u64Max n increment).isSome = true) .unsupported
  .ok (true, { a with
    declinedEpochReservations := insert payload.grant a.declinedEpochReservations
    revoked := a.revoked.insertOrIgnore payload.grant e.id
    grants := a.grants.erase payload.grant.accountPub })

/-! ### The snapshot of grants -/

/-- The first control is issued by the legacy owner, a later one by a device of the owner
account. -/
def checkIssuer (e : Event) (legacy : LegacyAuthorityContext) (graph : AuthorityGraph)
    (control : AccountAuthorityControl) (issuerAccount : PubKey) : Except AuthorityError Unit :=
  if a.current = none then
    ensure (control.previous = none ∧ control.issuer.publicIdentity = legacy.owner ∧
      issuerAccount = control.ownerAccount ∧ control.revoked = []) .invalid
  else do
    ensure (some issuerAccount = a.owner ∧
      a.canAdmin control.issuer.publicIdentity control.issuer = true ∧ control.legacyBindings = [])
      .invalid
    ensure (a.observesBinding e control.issuer graph = true) .missingAncestry
    let previous ← need control.previous .missingAncestry
    ensure (a.knownControl previous = true ∧ graph.descends e.id previous = true) .missingAncestry

def namedControl (graph : AuthorityGraph) (control : AccountAuthorityControl) :
    Except AuthorityError (Option AccountAuthorityControl) :=
  match control.previous with
  | none => .ok none
  | some previous => do
    let event ← need (graph.event previous) .missingAncestry
    let decoded ← need (AccountAuthorityControl.decode event.ciphertext) .invalid
    .ok (some decoded)

/-- The control is signed as it has to be, and names a snapshot it descends from. Returned with the
snapshot it names. -/
def checkControl (e : Event) (legacy : LegacyAuthorityContext) (graph : AuthorityGraph) :
    Except AuthorityError (AccountAuthorityControl × Option AccountAuthorityControl) := do
  let control ← need (AccountAuthorityControl.decode e.ciphertext) .unsupported
  ensure (control.issuer.ed25519Pub = e.author.ed25519Pub ∧ control.issuer.validPresence = true)
    .invalid
  let issuerAccount ← need control.issuer.account .invalid
  ensure (control.verifyAccountSignature legacy.channel (a.owner.getD issuerAccount) = true)
    .invalid
  a.checkIssuer e legacy graph control issuerAccount
  let previousControl ← namedControl graph control
  ensure (a.current = none ∨ control.previous = a.current ∨
    previousControl.any (fun p => p.ownerAccount = issuerAccount) = true ∧
      control.ownerAccount = issuerAccount) .stale
  .ok (control, previousControl)

/-- What the loops over a control build up: the bindings, the devices, the grants by account. -/
structure Draft where
  pins : Table LegacyBindingKey PubKey
  originals : List Announce
  next : Table PubKey AccountGrant := ∅
  ids : Finset AccountGrantId := ∅

/-- The control was issued before another one was applied. -/
def isStale (control : AccountAuthorityControl) : Bool :=
  a.current ≠ none && control.previous ≠ a.current

def bindOne (e : Event) (legacy : LegacyAuthorityContext) (graph : AuthorityGraph)
    (s : Draft × Finset String) (proof : Announce) :
    Except AuthorityError (Draft × Finset String) := do
  let m ← need ((legacy.accepted ++ legacy.invited).find? fun m =>
    m.identity = proof.publicIdentity) .missingAncestry
  ensure (proof.validPresence = true ∧ proof.postOffice = false ∧ m.identity.userId ∉ s.2) .invalid
  let account ← need proof.account .invalid
  let binding : AccountGrant :=
    { incarnation := 0
      pending := legacy.invited.any fun i =>
        i.identity = m.identity && i.membershipEvent = m.membershipEvent
      original := proof
      membershipEvent := m.membershipEvent
      acceptanceEvent := m.acceptanceEvent }
  validateLegacyGrant binding e legacy graph
  .ok ({ s.1 with
    pins := s.1.pins.set (legacyKey binding) account
    originals := s.1.originals ++ [proof] }, insert m.identity.userId s.2)

/-- At the takeover every legacy device that is a member is bound to an account. -/
def bindLegacy (e : Event) (control : AccountAuthorityControl) (legacy : LegacyAuthorityContext)
    (graph : AuthorityGraph) : Except AuthorityError Draft := do
  let draft : Draft := { pins := a.pinned, originals := a.originals }
  if a.current ≠ none then .ok draft
  else do
    ensure (control.legacyBindings.length ≤ legacy.accepted.length + legacy.invited.length ∧
      ((legacy.accepted ++ legacy.invited).filter fun m =>
          m.identity ∈ legacy.live ||
          legacy.invited.any (fun i => lifetimeKey i = lifetimeKey m) ||
          !a.legacySeen.has (lifetimeKey m)).all (fun m =>
        control.legacyBindings.any fun proof => proof.publicIdentity = m.identity) = true) .invalid
    let (draft, _) ← control.legacyBindings.foldlM (bindOne e legacy graph) (draft, ∅)
    .ok draft

def pinGrant (graph : AuthorityGraph) (d : Draft) (g : AccountGrant) (id : AccountGrantId) :
    Except AuthorityError Draft :=
  match d.pins.get (legacyKey g) <|> a.previousPin (legacyKey g) with
  | some account => do
    ensure (account = id.accountPub) .invalid
    .ok d
  | none => do
    ensure (a.genesis.all (fun genesis => graph.descends g.membershipEvent genesis) = true)
      .missingAncestry
    .ok { d with
      pins := d.pins.set (legacyKey g) id.accountPub
      originals := d.originals ++ [g.original] }

/-- Check a grant that is new or changed, and bind its device. -/
def admitChanged (e : Event) (legacy : LegacyAuthorityContext) (graph : AuthorityGraph) (d : Draft)
    (g : AccountGrant) (id : AccountGrantId) : Except AuthorityError Draft := do
  ensure ((a.grants.get id.accountPub).any (fun old => old.id = some id) = false) .invalid
  validateLegacyGrant g e legacy graph
  let d ← a.pinGrant graph d g id
  ensure (a.observedRevocations id.accountPub g.membershipEvent graph = true) .stale
  .ok d

/-- Check a grant against those there are. One that is not granted anew must stand in the snapshot
before. -/
def checkGrant (e : Event) (control : AccountAuthorityControl)
    (previousControl : Option AccountAuthorityControl) (legacy : LegacyAuthorityContext)
    (graph : AuthorityGraph) (d : Draft) (g : AccountGrant) (id : AccountGrantId) :
    Except AuthorityError Draft :=
  if a.isStale control = true ∨ (a.revokedEvent id).isSome = true then do
    ensure (previousControl.any (fun p => g ∈ p.grants) = true) .stale
    .ok d
  else if a.grants.get id.accountPub = some g then .ok d
  else a.admitChanged e legacy graph d g id

def admitGrant (e : Event) (control : AccountAuthorityControl)
    (previousControl : Option AccountAuthorityControl) (legacy : LegacyAuthorityContext)
    (graph : AuthorityGraph) (d : Draft) (g : AccountGrant) : Except AuthorityError Draft := do
  let id ← need g.id .invalid
  ensure (g.original.validPresence = true ∧ g.original.postOffice = false ∧ id ∉ d.ids ∧
    d.next.has id.accountPub = false) .invalid
  let d ← a.checkGrant e control previousControl legacy graph { d with ids := insert id d.ids } g id
  .ok { d with next := d.next.set id.accountPub g }

/-- The account that is to own the channel holds a grant that it has accepted. -/
def checkOwner (control : AccountAuthorityControl) (d : Draft) : Except AuthorityError Unit := do
  ensure ((d.next.get control.ownerAccount).any (fun g =>
    g.id.any fun id => a.cohortClosed id true) = false) .invalid
  let g ← need (d.next.get control.ownerAccount) .invalid
  let id ← need g.id .invalid
  ensure ((a.revokedEvent id).isNone = true ∧ (g.pending = false ∨ id ∈ a.activated)) .invalid

def checkInitial (control : AccountAuthorityControl) (legacy : LegacyAuthorityContext) (d : Draft) :
    Except AuthorityError Unit := do
  let bindingOf (p : PublicIdentity) : Option Announce :=
    control.legacyBindings.find? fun proof => proof.publicIdentity = p
  ensure (a.current ≠ none ∨
    ((legacy.accepted.filter fun m => (bindingOf m.identity).isSome).all fun m =>
      (((bindingOf m.identity).bind Announce.account).bind d.next.get).any fun g => !g.pending)
      = true) .invalid
  ensure (a.current ≠ none ∨ d.pins.values.toFinset = d.next.keySet ∧
    (bindingOf legacy.owner).bind Announce.account = some control.ownerAccount) .invalid

def previousGrants (control : AccountAuthorityControl)
    (previousControl : Option AccountAuthorityControl) : Finset AccountGrantId :=
  (if a.isStale control then (previousControl.map (·.grants)).getD []
    else a.grants.values).filterMap AccountGrant.id |>.toFinset

def Draft.nextIds (d : Draft) : Finset AccountGrantId :=
  (d.next.values.filterMap AccountGrant.id).toFinset

/-- The control says which incarnations it removes, and does not remove the owner's. -/
def checkRemoved (control : AccountAuthorityControl)
    (previousControl : Option AccountAuthorityControl) (d : Draft) :
      Except AuthorityError Unit := do
  ensure (control.revoked.Nodup) .invalid
  ensure (a.previousGrants control previousControl \ d.nextIds = control.revoked.toFinset ∧
    control.revoked.any (fun id => id.accountPub = control.ownerAccount) = false) .invalid

def addedAfter (control : AccountAuthorityControl)
    (previousControl : Option AccountAuthorityControl) (d : Draft) : Finset AccountGrantId :=
  if a.current ≠ none ∧ a.isStale control = false then
    a.addedGrants ∪ (d.nextIds \ a.previousGrants control previousControl).filter fun id =>
      (a.revokedEvent id).isNone = true ∧ a.hadAdded id = false ∧
        (d.next.get id.accountPub).any (fun g => !g.pending) = true
  else a.addedGrants

def tombstonesAfter (e : Event) (control : AccountAuthorityControl) :
    Table AccountGrantId EventId :=
  control.revoked.foldl (fun t id =>
    if (a.revokedEvent id).isNone then t.insertOrIgnore id e.id else t) a.revoked

def revise (e : Event) (control : AccountAuthorityControl)
    (previousControl : Option AccountAuthorityControl) (d : Draft) : AccountAuthority :=
  { a with
    origins :=
      if a.isStale control then a.origins
      else (d.next.values.filterMap AccountGrant.id).foldl (fun t id => t.insertOrIgnore id e.id)
        a.origins
    revoked := a.tombstonesAfter e control
    addedGrants := a.addedAfter control previousControl d }

def withoutRevoked (t : Table PubKey AccountGrant) : Table PubKey AccountGrant :=
  t.filter fun r => !r.2.id.any fun id => (a.revokedEvent id).isSome

def bindDevices (t : Table DeviceKey AccountGrantId) (originals : List Announce)
    (next : Table PubKey AccountGrant) : Table DeviceKey AccountGrantId :=
  originals.foldl (fun t p =>
    match ((p.account.bind next.get).bind AccountGrant.id) with
    | some id => t.set p.deviceKey id
    | none => t) t

def bindGrants (t : Table DeviceKey AccountGrantId) (grants : List AccountGrant) :
    Table DeviceKey AccountGrantId :=
  grants.foldl (fun t g =>
    match g.id with
    | some id => t.set g.original.deviceKey id
    | none => t) t

def install (e : Event) (control : AccountAuthorityControl) (legacy : LegacyAuthorityContext)
    (d : Draft) : AccountAuthority :=
  let next := a.withoutRevoked d.next
  let deviceGrants :=
    if a.current = none then bindDevices a.deviceGrants d.originals next else a.deviceGrants
  { a with
    deviceGrants := bindGrants deviceGrants next.values
    inherited := next.values.foldl (fun t g => t.erase g.original.deviceKey) a.inherited
    grants := next
    owner := some control.ownerAccount
    current := some e.id
    channel := some legacy.channel
    pinned := d.pins
    originals := d.originals }

def cohortsOf (control : AccountAuthorityControl) (legacy : LegacyAuthorityContext)
    (t : Table AccountGrantId InitialLegacyCohort) : Table AccountGrantId InitialLegacyCohort :=
  control.grants.foldl (fun t g =>
    match g.id with
    | some id =>
      if g.pending then t
      else t.set id ⟨g, legacy.accepted.filter fun m => control.legacyBindings.any fun proof =>
        proof.publicIdentity = m.identity && proof.account = some id.accountPub⟩
    | none => t) t

def takeOver (e : Event) (control : AccountAuthorityControl) (legacy : LegacyAuthorityContext)
    (graph : AuthorityGraph) : AccountAuthority :=
  { a with
    genesis := some e.id
    baseEpoch := some legacy.epoch
    legacyBase := a.legacySeen.keySet ∪
      ((legacy.accepted.filter fun m => a.legacyCandidateObserved m e.id graph).map
        lifetimeKey).toFinset
    legacyOmitted := legacy.accepted.filter fun m =>
      !control.legacyBindings.any (fun proof => proof.publicIdentity = m.identity) &&
        a.legacySeen.has (lifetimeKey m)
    initialLegacy := cohortsOf control legacy a.initialLegacy }

def applied (e : Event) (control : AccountAuthorityControl)
    (previousControl : Option AccountAuthorityControl) (legacy : LegacyAuthorityContext)
    (graph : AuthorityGraph) (d : Draft) : AccountAuthority :=
  let revised := a.revise e control previousControl d
  let result :=
    if a.isStale control then { revised with grants := revised.withoutRevoked a.grants }
    else if a.current = none then
      (revised.install e control legacy d).takeOver e control legacy graph
    else revised.install e control legacy d
  { result with validControls := insert e.id result.validControls }

/-- Apply a snapshot of grants. A stale one adds nothing, and still removes. -/
def apply (e : Event) (legacy : LegacyAuthorityContext) (graph : AuthorityGraph) :
    Except AuthorityError (Bool × AccountAuthority) := do
  ensure (e.kind = .channelAccountAuthority ∧ e.conversationId = legacy.channel ∧
    a.channel.all (fun c => c = legacy.channel) = true ∧ validEvent e = true) .invalid
  if a.knownControl e.id then .ok (false, a)
  else do
    let (control, previousControl) ← a.checkControl e legacy graph
    let draft ← a.bindLegacy e control legacy graph
    let draft ← control.grants.foldlM (a.admitGrant e control previousControl legacy graph) draft
    a.checkOwner control draft
    a.checkInitial control legacy draft
    a.checkRemoved control previousControl draft
    ensure ((do
      let n ← checkedAdd u64Max (a.baseEpoch.getD legacy.epoch) a.historicalAdded
      let n ← checkedAdd u64Max n a.historicalRevoked
      let n ← checkedAdd u64Max n
        (a.addedAfter control previousControl draft ∪ a.declinedEpochReservations).card
      checkedAdd u64Max n (a.tombstonesAfter e control).rows.length).isSome = true) .unsupported
    .ok (true, a.applied e control previousControl legacy graph draft)

end AccountAuthority

end MeshTalk.Channel
