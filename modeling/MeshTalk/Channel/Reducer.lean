import Mathlib
import MeshTalk.Channel.Actions

/-! # The membership reducer of a channel

The reduction of the signed events of a channel to its membership (`node/channel/projection.rs`,
`node/channel.rs`): one step for each event in canonical order. A step decides whether the event is
valid and changes the state accordingly (`decideKind`), authorizes it if its parents are authorized
(`close`), keeps the events that made each device a member (`updateRoots`), and installs the roles
of the accounts where accounts govern the channel (`installProjection`).

An indexed reducer has its historical facts in tables, a value of `ProjectionFacts`; a pure one
keeps all of them. -/

namespace MeshTalk.Channel

open Lib

/-- How a device became a member: the snapshot, and the acceptance if there is one. -/
structure Root where
  identity : PublicIdentity
  membershipEvent : EventId
  acceptanceEvent : Option EventId
  accepted : Bool
deriving DecidableEq

def Root.member (r : Root) : LegacyAccountMember :=
    ⟨r.identity, r.membershipEvent, r.acceptanceEvent⟩

structure EventAuthority where
  rank : ℕ
  allowed : Bool
  receive : Bool
  acceptRoot : Option EventId
  afterAccept : Bool
  kind : EventKind
  author : PubKey
deriving DecidableEq

/-- The part of a reducer that is stored with a checkpoint beside the state. -/
structure Context where
  knownLocal : Bool := false
  ownership : Option EventId := none
  departureAccounts : Table String PubKey := ∅
  bindings : Table String Announce := ∅
  roots : Table String Root := ∅

/-- The fact tables of a reducer, with the retained parents of the events they are read together
with. -/
structure ProjectionFacts where
  parents : EventId → List EventId
  work : Option (ℕ × Option (List UInt8) × Context) := none
  eventAuthority : Table EventId EventAuthority := ∅
  departureFacts : Table (String × EventId) (Option PubKey) := ∅
  snapshots : Table ℕ (List UInt8) := ∅
  authority : AuthorityFacts := {}

namespace ProjectionFacts

variable (f : ProjectionFacts)

def isAuthorized (e : EventId) : Bool := (f.eventAuthority.get e).any (·.allowed)

def parentsAuthorized (e : EventId) : Bool := (f.parents e).all f.isAuthorized

def departureBlocks (member : String) (e : EventId) (graph : AuthorityGraph) : Bool :=
  f.departureFacts.rows.any fun r => r.1.1 = member && !graph.descends e r.1.2

end ProjectionFacts

structure MembershipReducer where
  channelId : ConversationId
  authority : AccountAuthority := {}
  authorized : Finset EventId := ∅
  bindings : Table String Announce := ∅
  roots : Table String Root := ∅
  prior : Option ChannelState := none
  ownership : Option EventId := none
  legacyChecks : Bool := true
  departureAccounts : Table String PubKey := ∅
  knownLocal : Bool := false
  departures : List (String × EventId) := []
  history : Option ProjectionFacts := none

def isMembershipControl : EventKind → Bool
  | .membershipChange | .channelRename | .channelDissolve | .channelAccept | .channelLeave
  | .channelOwnerTransfer | .channelAccountAuthority | .channelDeviceInheritance => true
  | _ => false

variable [Wire] [Sha256] [EventCrypto]

/-! ### Keys and history released to sibling devices -/

/-- Receive keys for a sibling device are sealed by a member of the same account, in this epoch. -/
def receiveKeysAdmitted (state : ChannelState) (e : Event) (authority : AccountAuthority)
    (graph : AuthorityGraph) : Bool :=
  match DeviceControl.decode e.ciphertext with
  | some (.receiveKeys reference inheritance grant recipient epoch _ _ _) =>
    e.kind = .channelDeviceInheritance && validEvent e && state.epoch = epoch &&
      authority.knownControl reference && graph.descends e.id reference &&
      graph.descends e.id inheritance &&
      (match (graph.event inheritance).bind DeviceControl.signedInheritance with
        | some (_, inheritedGrant, proof) =>
          proof.publicIdentity = recipient && inheritedGrant = grant &&
            (authority.grantForDevice recipient proof).bind AccountGrant.id = some grant
        | none => false) &&
      state.memberAccountId e.userId = some (accountIdFrom grant.accountPub) &&
      state.isAcceptedMember e.userId &&
      state.members.any fun m => m.ed25519Pub = e.author.ed25519Pub
  | _ => false

def validAccountAcceptance (e : Event) (g : AccountGrant) (authority : AccountAuthority)
    (graph : AuthorityGraph) : Bool :=
  if e.kind = .channelAccept ∧ e.ciphertext = [] ∧ validEvent e = true then
    if g.acceptanceEvent = some e.id ∧ e.author.ed25519Pub = g.original.ed25519Pub then
      graph.descends e.id g.membershipEvent
    else authority.originalDeviceProofs.any fun proof =>
      proof.ed25519Pub = e.author.ed25519Pub &&
        (authority.grantForDevice proof.publicIdentity proof).bind AccountGrant.id = g.id &&
        admitted (authority.acceptAccount e proof graph)
  else false

/-- An offer of history is released to a device under the grant it was made for. -/
def accountReleaseAdmitted (state : ChannelState) (e : Event) (authority : AccountAuthority)
    (graph : AuthorityGraph) : Bool := Option.isSome do
  let value ← AccountRelease.decode e.ciphertext
  guard (e.kind = .channelDeviceInheritance ∧ e.conversationId = state.id ∧
    state.dissolved = false ∧ validEvent e = true)
  let g ← (authority.accountGrant value.grant.accountPub).filter fun g => g.id = some value.grant
  let proofs := authority.originalDeviceProofs
  let recipient ← proofs.find? fun proof => proof.publicIdentity = value.recipient &&
    (authority.grantForDevice proof.publicIdentity proof).bind AccountGrant.id = some value.grant
  guard (authority.deviceAuthorization recipient.publicIdentity recipient =
    some value.deviceAuthorization ∧ graph.descends e.id value.deviceAuthorization = true)
  let sender ← proofs.find? fun proof => proof.ed25519Pub = e.author.ed25519Pub &&
    state.isAcceptedMember proof.userId
  let binding ← authority.deviceAuthorization sender.publicIdentity sender
  guard (graph.descends e.id binding = true)
  let offerEvent ← graph.event value.release.offer
  match HistoryControl.decode offerEvent.ciphertext with
  | some (.offer offer) => do
    guard (offerEvent.kind = .channelJoinHistory ∧ validEvent offerEvent = true ∧
      offerEvent.conversationId = e.conversationId ∧ offer.invitation = g.membershipEvent ∧
      offer.recipient = g.original.userId ∧ sender.userId ∈ offer.sources ∧
      graph.descends e.id offerEvent.id = true)
    let acceptance ← graph.event value.release.acceptance
    guard (acceptance.conversationId = e.conversationId ∧ graph.descends e.id acceptance.id = true ∧
      validAccountAcceptance acceptance g authority graph = true)
  | _ => none

namespace MembershipReducer

variable (r : MembershipReducer)

/-! ### Steps -/

/-- What a step has decided: whether the event is valid, what it changed, and the departure of an
account if it is one. -/
structure Verdict where
  valid : Bool
  reducer : MembershipReducer
  departure : Option (String × EventId × PubKey) := none

def rootMembers (p : Root → Bool) : List LegacyAccountMember :=
  (r.roots.values.filter p).map Root.member

/-- Members that left and that a snapshot does not know to have left are taken out of it. -/
def blocked (e : Event) (graph : AuthorityGraph) (member : PublicIdentity) : Bool :=
  r.authority.current = none &&
    (r.departures.any (fun d => d.1 = member.userId && !graph.descends e.id d.2) ||
      r.history.any fun h => h.departureBlocks member.userId e.id graph)

/-- A snapshot on a channel that exists: adopted, and its new members invited or joined. -/
def applySnapshot (s : ChannelState) (e : Event) (snapshot : ChannelMeta)
    (retained : List PublicIdentity) : ChannelState :=
  let old := (s.members.map PublicIdentity.userId).toFinset
  let meta' := { snapshot with members := retained }
  let s :=
    if retained.length < snapshot.members.length then s.applyMetaAfterConcurrentLeave meta'
    else s.applyMeta meta'
  let added := (s.members.map PublicIdentity.userId).filter fun uid => uid ∉ old
  added.foldl (fun s uid =>
    if ChannelMeta.isInvitation e.ciphertext then s.markInvited uid
    else s.autoAcceptLegacyMember uid) s

/-- The first snapshot of a channel: all but the author have to accept, if it is marked. -/
def foundChannel (e : Event) (snapshot : ChannelMeta) : ChannelState :=
  let s := ChannelState.fromMeta r.channelId snapshot
  if ChannelMeta.isInvitation e.ciphertext then
    ((s.members.map PublicIdentity.userId).filter fun uid => uid ≠ e.userId).foldl
      ChannelState.markInvited s
  else s

def decideMembershipChange (e : Event) (graph : AuthorityGraph) : Option Verdict :=
  match ChannelMeta.decode e.ciphertext with
  | none => none
  | some snapshot =>
    let retained := snapshot.members.filter fun m => !r.blocked e graph m
    match r.prior with
    | some s =>
      if s.canAdmin e.userId then
        some ⟨true, { r with prior := some (applySnapshot s e snapshot retained) }, none⟩
      else none
    | none =>
      let first := { snapshot with members := retained }
      if e.parents = [] ∧ e.userId = first.owner ∧ first.isMember e.userId = true then
        some ⟨true, { r with prior := some (r.foundChannel e first), ownership := some e.id }, none⟩
      else some ⟨false, r, none⟩

def decideRename (e : Event) : Verdict :=
  match r.prior, fromUtf8 e.ciphertext with
  | some s, some name =>
    if s.canAdmin e.userId then
      ⟨true, { r with prior := some (s.applyRename name e.lamport e.id) }, none⟩
    else ⟨false, r, none⟩
  | _, _ => ⟨false, r, none⟩

def decideDissolve (e : Event) : Verdict :=
  match r.prior with
  | some s =>
    if e.ciphertext = [] ∧ s.canAdmin e.userId = true then
      ⟨true, { r with prior := some s.dissolve }, none⟩
    else ⟨false, r, none⟩
  | none => ⟨false, r, none⟩

/-- The announcement a device is known by: of its authorization, or among the devices of the
grants. -/
def proofOf (uid : String) : Option Announce :=
  r.bindings.get uid <|>
    (r.authority.originalDeviceProofs ++ r.authority.invitedDeviceProofs ++
      r.authority.legacyClosedDeviceProofs).find? fun p => p.userId = uid

def decideAccept (e : Event) (graph : AuthorityGraph) : Verdict :=
  if r.authority.current.isSome then
    match r.proofOf e.userId with
    | some proof =>
      if r.authority.isMember proof.publicIdentity proof = true ∨
          (r.authority.invitationForDevice proof.publicIdentity proof).isSome = true then
        match r.authority.acceptAccount e proof graph with
        | .ok (_, authority) => ⟨true, { r with authority := authority }, none⟩
        | .error _ => ⟨false, r, none⟩
      else ⟨false, r, none⟩
    | none => ⟨false, r, none⟩
  else
    match r.prior with
    | some s =>
      if e.ciphertext = [] then
        ⟨s.isMember e.userId, { r with prior := some (s.acceptInvite e.userId e.id) },
          none⟩
      else ⟨false, r, none⟩
    | none => ⟨false, r, none⟩

/-- The channel handed on, before accounts govern it. -/
def decideOwnerTransfer (e : Event) : Option Verdict :=
  if r.authority.current.isSome then none
  else
    match r.prior, fromUtf8 e.ciphertext with
    | some s, some next =>
      if s.canAdmin e.userId then
        if (s.transferOwner next).1 then
          some ⟨true, { r with
            prior := some (s.transferOwner next).2, ownership := some e.id }, none⟩
        else some ⟨false, r, none⟩
      else some ⟨false, r, none⟩
    | _, _ => some ⟨false, r, none⟩

/-- What an account does by a leave: refuse an invitation, leave, or leave after its cohort has. -/
def leaveAction (e : Event) (proof : Announce) (graph : AuthorityGraph) :
    Except AuthorityError (Bool × AccountAuthority) :=
  if e.ciphertext ≠ [] then r.authority.declineAccount e proof graph
  else if r.authority.isMember proof.publicIdentity proof then
    r.authority.leaveAccount e proof graph
  else r.authority.replayLeaveAfterLegacyClosure e proof graph

/-- A departure: one of the time before accounts, of an account, or of a legacy member. -/
def decideLeave (e : Event) (graph : AuthorityGraph) (legacyDeparture : Option LegacyDeparture) :
    Verdict :=
  if r.authority.current.isSome then
    if legacyDeparture.isSome then
      ⟨true, { r with departures := r.departures ++ [(e.userId, e.id)] }, none⟩
    else
      match r.proofOf e.userId with
      | some proof =>
        match r.leaveAction e proof graph with
        | .ok (changed, authority) =>
          ⟨true, { r with authority := authority },
            if changed then proof.account.map fun account => (e.userId, e.id, account)
            else none⟩
        | .error _ => ⟨false, r, none⟩
      | none => ⟨false, r, none⟩
  else
    match r.prior with
    | some s =>
      if e.ciphertext = [] ∧ (s.leaveMember e.userId).1 = true then
        ⟨true, { r with
          prior := some (s.leaveMember e.userId).2
          departures := r.departures ++ [(e.userId, e.id)] }, none⟩
      else ⟨false, r, none⟩
    | none => ⟨false, r, none⟩

/-- The members as an account control finds them. -/
def legacyContext (s : ChannelState) (owner : PublicIdentity) : LegacyAuthorityContext where
  channel := r.channelId
  owner := owner
  epoch := s.epoch
  accepted := r.rootMembers (·.accepted)
  invited := r.rootMembers fun root => !root.accepted
  live := s.members

def decideAccountAuthority (e : Event) (graph : AuthorityGraph) : Verdict :=
  match r.prior with
  | some s =>
    let issuer := (AccountAuthorityControl.decode e.ciphertext).map (·.issuer.publicIdentity)
    match (s.members.find? fun m => m.userId = s.owner) <|> issuer with
    | some owner =>
      match r.authority.apply e (r.legacyContext s owner) graph with
      | .ok (_, authority) => ⟨true, { r with authority := authority }, none⟩
      | .error _ => ⟨false, r, none⟩
    | none => ⟨false, r, none⟩
  | none => ⟨false, r, none⟩

def decideDeviceInheritance (e : Event) (graph : AuthorityGraph) : Verdict :=
  match DeviceControl.signedInheritance e, r.authority.inheritDevice e graph with
  | some (_, _, proof), .ok (_, authority) =>
    ⟨true, { r with authority := authority, bindings := r.bindings.set proof.userId proof }, none⟩
  | _, _ =>
    match r.prior with
    | some s => ⟨receiveKeysAdmitted s e r.authority graph ||
        accountReleaseAdmitted s e r.authority graph, r, none⟩
    | none => ⟨false, r, none⟩

def isAccepted (uid : String) : Bool := r.prior.any fun s => s.isAcceptedMember uid

/-- The decision on an event by its kind. No verdict means that the step ends here. -/
def decideKind (e : Event) (graph : AuthorityGraph) (legacyDeparture : Option LegacyDeparture) :
    Option Verdict :=
  match e.kind with
  | .membershipChange => r.decideMembershipChange e graph
  | .channelRename => some (r.decideRename e)
  | .channelDissolve => some (r.decideDissolve e)
  | .channelAccept => some (r.decideAccept e graph)
  | .channelOwnerTransfer => r.decideOwnerTransfer e
  | .channelLeave => some (r.decideLeave e graph legacyDeparture)
  | .channelAccountAuthority => some (r.decideAccountAuthority e graph)
  | .channelDeviceInheritance => some (r.decideDeviceInheritance e graph)
  | _ => some ⟨r.isAccepted e.userId, r, none⟩

def parentsAuthorized (e : Event) : Bool :=
  match r.history with
  | some h => h.parentsAuthorized e.id
  | none => e.parents.all fun p => p ∈ r.authorized

def hasRejoined (device : String) (account : PubKey) : Bool :=
  (r.authority.accountGrant account).isSome &&
    !(r.departures.filter fun d => d.1 = device).any fun d => r.authority.legacyDepartureCurrent d.2

def departedAccounts : Table String PubKey :=
  r.departures.foldl (fun t d =>
    match r.authority.legacyDepartureAccount d.2 with
    | some account => t.set d.1 account
    | none => t) r.departureAccounts

def settleDepartures : MembershipReducer :=
  let accounts := r.departedAccounts
  let rejoined := (accounts.rows.filter fun row => r.hasRejoined row.1 row.2).map Prod.fst
  { r with
    departureAccounts := accounts.filter fun row => row.1 ∉ rejoined
    departures := r.departures.filter fun d => d.1 ∉ rejoined }

def close (e : Event) (legacyDeparture : Option LegacyDeparture)
    (departure : Option (String × EventId × PubKey)) : MembershipReducer :=
  let r := { r with
    authorized := insert e.id r.authorized
    authority := r.authority.noteDeparture legacyDeparture }
  let r := match departure with
    | some (device, event, account) =>
      { r with
        departures := r.departures ++ [(device, event)]
        departureAccounts := r.departureAccounts.set device account }
    | none => r
  r.settleDepartures

/-- Keep the events that made each device a member. -/
def updateRoots (e : Event) (oldMembers : Finset String) (wasAccepted : Bool) : MembershipReducer :=
  match r.prior with
  | none => r
  | some s =>
    let roots :=
      if e.kind = .membershipChange then
        s.members.foldl (fun t m =>
          if m.userId ∈ oldMembers then t
          else t.set m.userId ⟨m, e.id, none, s.isAcceptedMember m.userId⟩)
          (r.roots.filter fun row => s.isMember row.1)
      else r.roots
    let roots :=
      if e.kind = .channelAccept ∧ wasAccepted = false ∧ s.isAcceptedMember e.userId = true then
        roots.modify e.userId fun root =>
          { root with acceptanceEvent := some e.id, accepted := true }
      else roots
    { r with roots := roots }

def participantsOf (proofs : List Announce) : List (PublicIdentity × String) :=
  proofs.filterMap fun p => p.accountId.map fun account => (p.publicIdentity, account)

/-- The devices that are members under an account, as they are installed. -/
def memberProofs : List Announce :=
  (r.authority.originalDeviceProofs ++ r.authority.currentGrants.map (·.original) ++
    r.bindings.values).filter fun p => r.authority.isMember p.publicIdentity p

/-- The devices that are invited under an account, as they are installed. -/
def inviteProofs : List Announce :=
  r.authority.invitedDeviceProofs ++
    r.bindings.values.filter fun p => (r.authority.invitationForDevice p.publicIdentity p).isSome

def installProjection : MembershipReducer :=
  match r.prior, r.authority.ownerAccountId, r.authority.keyEpoch with
  | some s, some owner, some epoch =>
    { r with prior := some ((s.installAccountProjection owner (participantsOf r.memberProofs) epoch
        ).installAccountInvites (participantsOf r.inviteProofs)) }
  | _, _, _ => r

def memberIds : Finset String :=
  (r.prior.map fun s => (s.members.map PublicIdentity.userId).toFinset).getD ∅

def prepared : MembershipReducer :=
  { r with
    authority := r.authority.prepareLegacyMembers (r.rootMembers fun _ => true) r.legacyChecks }

def departureOf (e : Event) : Option LegacyDeparture :=
  if r.legacyChecks then r.authority.legacyCandidate e.id else none

def finishStep (before : MembershipReducer) (e : Event) (v : Verdict) : Bool × MembershipReducer :=
  let closed := v.valid && v.reducer.parentsAuthorized e
  let r := if closed then v.reducer.close e (before.departureOf e) v.departure else v.reducer
  let r := r.updateRoots e before.memberIds (before.isAccepted e.userId)
  (closed, if isMembershipControl e.kind then r.installProjection else r)

def step (e : Event) (graph : AuthorityGraph) : Bool × MembershipReducer :=
  let r := r.prepared
  if r.prior.any (·.dissolved) then (false, r)
  else
    match r.decideKind e graph (r.departureOf e) with
    | none => (false, r)
    | some v => finishStep r e v

/-! ### Reductions -/

def run (graph : AuthorityGraph) (events : List Event) : MembershipReducer :=
  events.foldl (fun r e => (r.step e graph).2) r

end MembershipReducer

open MembershipReducer

/-- The reduction of the strict ancestors of an event, without departures of cohorts. -/
def reduceCut (channel : ConversationId) (ordered : List Event) (m : Map EventId Event)
    (ancestors : Finset EventId) : MembershipReducer :=
  MembershipReducer.run { channelId := channel, legacyChecks := false } (hashGraph m)
    (((orderedIds ordered [] true).filter fun id => id ∈ ancestors).filterMap m.lookup)

/-- The departure an event is of a member of the time before accounts, by the event's own
ancestors. -/
def legacyParentCutDeparture (channel : ConversationId) (ordered : List Event)
    (m : Map EventId Event) (e : Event) : Option LegacyDeparture :=
  if e.kind = .channelLeave ∧ e.ciphertext = [] ∧ validEvent e = true then
    (ancestorsIn m channel e).bind fun ancestors =>
      let cut := reduceCut channel ordered m ancestors
      if cut.authority.current = none ∧ (∀ p ∈ e.parents, p ∈ cut.authorized) then
        cut.prior.bind fun s =>
          if s.owner ≠ e.userId ∧ s.isAcceptedMember e.userId = true then
            ((cut.rootMembers (·.accepted)).find? fun member =>
              member.identity.userId = e.userId && member.identity ∈ s.members).map
              fun member => ⟨member, e.id⟩
          else none
      else none
  else none

/-- The events that may be departures of members of the time before accounts. -/
def legacyParentCutDepartures (channel : ConversationId) (ordered : List Event)
    (m : Map EventId Event) : List LegacyDeparture :=
  ordered.filterMap (legacyParentCutDeparture channel ordered m)

def startReducer (channel : ConversationId) (ordered : List Event) (m : Map EventId Event) :
    MembershipReducer :=
  if ordered.any fun e => e.kind = .channelAccountAuthority then
    { channelId := channel
      authority := ({} : AccountAuthority).setLegacyCandidates
        (legacyParentCutDepartures channel ordered m) }
  else { channelId := channel }

def reduceFirst (channel : ConversationId) (events : List Event) (n : ℕ) : MembershipReducer :=
  (startReducer channel (orderedEvents events) (byId events)).run (hashGraph (byId events))
    ((orderedEvents events).take n)

theorem reduceFirst_succ {channel events n e} (he : (orderedEvents events)[n]? = some e) :
    reduceFirst channel events (n + 1) =
      ((reduceFirst channel events n).step e (hashGraph (byId events))).2 := by
  unfold reduceFirst MembershipReducer.run
  rw [List.take_add_one, he, List.foldl_append]
  rfl

theorem reduceFirst_of_none {channel events n} (he : (orderedEvents events)[n]? = none) :
    reduceFirst channel events (n + 1) = reduceFirst channel events n := by
  have hlen := List.getElem?_eq_none_iff.mp he
  unfold reduceFirst
  rw [List.take_of_length_le (by omega), List.take_of_length_le hlen]

/-- What holds at the start and is kept by every step holds throughout a reduction. -/
theorem reduceFirst_inv (channel : ConversationId) (events : List Event)
    {I : MembershipReducer → Prop}
    (hstart : I (startReducer channel (orderedEvents events) (byId events)))
    (hstep : ∀ r, I r → ∀ e ∈ orderedEvents events, I (r.step e (hashGraph (byId events))).2)
    (n : ℕ) : I (reduceFirst channel events n) := by
  induction n with
  | zero => exact hstart
  | succ n ih =>
    cases he : (orderedEvents events)[n]? with
    | none => rwa [reduceFirst_of_none he]
    | some e =>
      rw [reduceFirst_succ he]
      exact hstep _ ih e (List.mem_of_getElem? he)

def projectMembership (channel : ConversationId) (events : List Event) : MembershipReducer :=
  (startReducer channel (orderedEvents events) (byId events)).run (hashGraph (byId events))
    (orderedEvents events)

end MeshTalk.Channel
