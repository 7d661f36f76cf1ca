import MeshTalk.Channel.Governance

/-! # What an event can do to a channel

The inversions of the functions that change an account authority and of the steps of the reducer:
what must have held for an event to be admitted, and what it leaves behind. All invariants of
account-governed channels are derived from these. -/

namespace MeshTalk.Channel

open Lib MembershipReducer Option

section Effects

variable [Wire] [Sha256] [EventCrypto]

namespace AccountAuthority

variable {a a' : AccountAuthority} {e : Event} {graph : AuthorityGraph} {b : Bool}

def fixed (a : AccountAuthority) : Option AuthorityFacts × List LegacyDeparture ×
    Finset LegacyLifetimeKey × Table LegacyLifetimeKey EventId × Finset AccountGrantId × ℕ × ℕ :=
  (a.history, a.legacyCandidates, a.legacyCandidateLifetimes, a.legacySeen, a.legacyRevoked,
    a.historicalAdded, a.historicalRevoked)

/-! ### Grants of devices -/

structure TakesPart (a : AccountAuthority) (device : PublicIdentity) (proof : Announce)
    (g : AccountGrant) (id : AccountGrantId) : Prop where
  identity : proof.publicIdentity = device
  presence : proof.validPresence = true
  original : a.originals.any (fun o => o.publicIdentity = device && o.accountId = proof.accountId) =
    true
  account : ∃ account, proof.account = some account ∧ a.grants.get account = some g
  incarnation : g.id = some id
  bound : a.deviceGrants.get proof.deviceKey = some id
  live : a.revoked.has id = false
  notClosed : a.cohortClosed id false = false

section
omit [Wire]

variable {device : PublicIdentity} {proof : Announce} {g : AccountGrant}

theorem takesPart_of_proofGrant (h : a.proofGrant device proof = some g) :
    ∃ id, TakesPart a device proof g id := by
  unfold proofGrant at h
  split_ifs at h with hc
  obtain ⟨rfl, hpresence, horiginal⟩ := hc
  obtain ⟨account, haccount, h⟩ := bind_eq_some_iff.mp h
  obtain ⟨hg, hcond⟩ := filter_eq_some_iff.mp h
  obtain ⟨hbound, hlive⟩ := Bool.and_eq_true_iff.mp hcond
  cases hid : g.id with
  | none =>
    rw [hid] at hlive
    cases hlive
  | some id =>
    rw [hid, any_some, Bool.and_eq_true_iff] at hlive
    rw [hid] at hbound
    exact ⟨id, rfl, hpresence, horiginal, ⟨account, haccount, hg⟩, hid, of_decide_eq_true hbound,
      by simpa using hlive.1, by simpa using hlive.2⟩

theorem takesPart_of_grantForDevice (h : a.grantForDevice device proof = some g) :
    ∃ id, TakesPart a device proof g id :=
  takesPart_of_proofGrant (filter_eq_some_iff.mp h).1

end

/-! ### Sibling devices -/

/-- A sibling device is authorized: what was checked. -/
structure Inherits (a : AccountAuthority) (e : Event) (graph : AuthorityGraph) (authority : EventId)
    (id : AccountGrantId) (proof : Announce) : Prop where
  signed : DeviceControl.signedInheritance e = some (authority, id, proof)
  channel : a.channel = some e.conversationId
  known : a.knownControl authority = true
  descends : graph.descends e.id authority = true
  granted : (a.accountGrant id.accountPub).bind AccountGrant.id = some id
  origin : ∃ origin, a.grantOrigin id = some origin ∧ graph.descends e.id origin = true
  fresh : a.originals.any (fun old => old.ed25519Pub = proof.ed25519Pub &&
    old.publicIdentity ≠ proof.publicIdentity) = false ∧
    a.conflictingOriginal proof.publicIdentity = false

theorem inheritDevice_cases (h : a.inheritDevice e graph = .ok (b, a')) :
    ∃ authority id proof, Inherits a e graph authority id proof ∧
      ((a.proofGrant proof.publicIdentity proof).isSome = true ∧ b = false ∧ a' = a ∨
        a.proofGrant proof.publicIdentity proof = none ∧ b = true ∧ a' = { a with
          deviceGrants := a.deviceGrants.set proof.deviceKey id
          inherited := a.inherited.set proof.deviceKey (id, e.id)
          originals := a.originals ++ [proof] }) := by
  obtain ⟨⟨authority, id, proof⟩, hs, h⟩ := bind_eq_ok.mp h
  rw [need_eq_ok] at hs
  obtain ⟨⟨⟩, hstale, h⟩ := bind_eq_ok.mp h
  obtain ⟨hchannel, hknown, hdesc, hgrant⟩ := ensure_eq_ok.mp hstale
  obtain ⟨origin, ho, h⟩ := bind_eq_ok.mp h
  rw [need_eq_ok] at ho
  obtain ⟨⟨⟩, hod, h⟩ := bind_eq_ok.mp h
  obtain ⟨⟨⟩, hfresh, h⟩ := bind_eq_ok.mp h
  refine ⟨authority, id, proof, ⟨hs, hchannel, hknown, hdesc, hgrant,
    ⟨origin, ho, ensure_eq_ok.mp hod⟩, ensure_eq_ok.mp hfresh⟩, ?_⟩
  split_ifs at h with hp
  · cases h
    exact .inl ⟨hp, rfl, rfl⟩
  · cases h
    exact .inr ⟨by simpa using hp, rfl, rfl⟩

/-! ### Actions on one's own grant -/

/-- An action on one's own grant is signed by the device it names. -/
structure SelfAction (a : AccountAuthority) (e : Event) (proof : Announce) (kind : EventKind) :
    Prop where
  channel : a.channel = some e.conversationId
  kind : e.kind = kind
  payload : e.ciphertext = []
  valid : validEvent e = true
  author : e.author.ed25519Pub = proof.ed25519Pub
  presence : proof.validPresence = true

section
omit [Wire]

variable {proof : Announce}

theorem validateSelfAction_ok {kind u} (h : a.validateSelfAction e proof kind = .ok u) :
    SelfAction a e proof kind := by
  obtain ⟨h1, h2, h3, h4, h5, h6⟩ := ensure_eq_ok.mp h
  exact ⟨h1, h2, h3, h4, h5, h6⟩

theorem acceptAccount_cases (h : a.acceptAccount e proof graph = .ok (b, a')) :
    SelfAction a e proof .channelAccept ∧
    (a' = a ∨ ∃ g id, a.proofGrant proof.publicIdentity proof = some g ∧ g.id = some id ∧
      g.pending = true ∧
      (id ∈ a.activated ∧ a' = { a with
          acceptanceEvents := insert (id, e.id) a.acceptanceEvents } ∨
        id ∉ a.activated ∧ (a.keyEpoch.bind fun n => checkedAdd u64Max n 1).isSome =
          true ∧ a' = { a with
            acceptanceEvents := insert (id, e.id) a.acceptanceEvents
            activated := insert id a.activated
            addedGrants := if a.hadAdded id then a.addedGrants else insert id
              a.addedGrants })) := by
  obtain ⟨⟨⟩, hself, h⟩ := bind_eq_ok.mp h
  obtain ⟨⟨⟩, -, h⟩ := bind_eq_ok.mp h
  refine ⟨validateSelfAction_ok hself, ?_⟩
  split at h
  · cases h
    exact .inl rfl
  · rename_i g hg
    obtain ⟨id, hid, h⟩ := bind_eq_ok.mp h
    obtain ⟨origin, -, h⟩ := bind_eq_ok.mp h
    obtain ⟨⟨⟩, -, h⟩ := bind_eq_ok.mp h
    rw [need_eq_ok] at hid
    by_cases hpend : g.pending = false
    · rw [if_pos hpend] at h
      cases h
      exact .inl rfl
    rw [if_neg hpend] at h
    refine .inr ⟨g, id, hg, hid, by simpa using hpend, ?_⟩
    by_cases hact : id ∈ a.activated
    · rw [if_pos hact] at h
      cases h
      exact .inl ⟨hact, rfl⟩
    · rw [if_neg hact] at h
      obtain ⟨⟨⟩, hepoch, h⟩ := bind_eq_ok.mp h
      cases h
      exact .inr ⟨hact, ensure_eq_ok.mp hepoch, rfl⟩

theorem leaveAccount_cases (h : a.leaveAccount e proof graph = .ok (b, a')) :
    SelfAction a e proof .channelLeave ∧
    (a' = a ∨ ∃ g id, a.grantForDevice proof.publicIdentity proof = some g ∧ g.id = some id ∧
      some id.accountPub ≠ a.owner ∧
      (a.keyEpoch.bind fun n => checkedAdd u64Max n 1).isSome = true ∧ a' = { a with
        revoked := if (a.revokedEvent id).isNone then a.revoked.set id e.id else a.revoked
        grants := a.grants.erase id.accountPub }) := by
  obtain ⟨⟨⟩, hself, h⟩ := bind_eq_ok.mp h
  obtain ⟨⟨⟩, -, h⟩ := bind_eq_ok.mp h
  refine ⟨validateSelfAction_ok hself, ?_⟩
  split at h
  · cases h
    exact .inl rfl
  · rename_i g hg
    obtain ⟨id, hid, h⟩ := bind_eq_ok.mp h
    obtain ⟨⟨⟩, howner, h⟩ := bind_eq_ok.mp h
    obtain ⟨origin, -, h⟩ := bind_eq_ok.mp h
    obtain ⟨⟨⟩, -, h⟩ := bind_eq_ok.mp h
    obtain ⟨⟨⟩, hepoch, h⟩ := bind_eq_ok.mp h
    rw [need_eq_ok] at hid
    cases h
    exact .inr ⟨g, id, hg, hid, ensure_eq_ok.mp howner, ensure_eq_ok.mp hepoch, rfl⟩

theorem replayLeave_cases (h : a.replayLeaveAfterLegacyClosure e proof graph = .ok (b, a')) :
    SelfAction a e proof .channelLeave ∧
    ∃ account g id, a.grants.get account = some g ∧ g.id = some id ∧ a.cohortClosed id false =
      true ∧ some account ≠ a.owner ∧ a' = { a with
        revoked := a.revoked.insertOrIgnore id e.id
        grants := a.grants.erase account } := by
  obtain ⟨⟨⟩, hself, h⟩ := bind_eq_ok.mp h
  obtain ⟨account, -, h⟩ := bind_eq_ok.mp h
  obtain ⟨g, hg, h⟩ := bind_eq_ok.mp h
  obtain ⟨id, hid, h⟩ := bind_eq_ok.mp h
  obtain ⟨⟨⟩, hstale, h⟩ := bind_eq_ok.mp h
  obtain ⟨origin, -, h⟩ := bind_eq_ok.mp h
  obtain ⟨⟨⟩, -, h⟩ := bind_eq_ok.mp h
  rw [need_eq_ok] at hg hid
  obtain ⟨hclosed, -, howner, -⟩ := ensure_eq_ok.mp hstale
  cases h
  exact ⟨validateSelfAction_ok hself, account, g, id, hg, hid, hclosed, howner, rfl⟩

end

theorem declineAccount_cases {proof} (h : a.declineAccount e proof graph = .ok (b, a')) :
    ∃ g id, a.proofGrant proof.publicIdentity proof = some g ∧ g.pending = true ∧ g.id = some id ∧
      some id.accountPub ≠ a.owner ∧
      (a.keyEpoch.bind fun n => checkedAdd u64Max n
        (if a.hadAdded id = true ∨ id ∈ a.declinedEpochReservations then 1 else 2)).isSome = true ∧
      a' = { a with
        declinedEpochReservations := insert id a.declinedEpochReservations
        revoked := a.revoked.insertOrIgnore id e.id
        grants := a.grants.erase id.accountPub } := by
  obtain ⟨payload, -, h⟩ := bind_eq_ok.mp h
  obtain ⟨⟨⟩, hinvalid, h⟩ := bind_eq_ok.mp h
  obtain ⟨g, hg, h⟩ := bind_eq_ok.mp h
  obtain ⟨⟨⟩, hgrant, h⟩ := bind_eq_ok.mp h
  obtain ⟨origin, -, h⟩ := bind_eq_ok.mp h
  obtain ⟨⟨⟩, -, h⟩ := bind_eq_ok.mp h
  obtain ⟨⟨⟩, -, h⟩ := bind_eq_ok.mp h
  obtain ⟨⟨⟩, hepoch, h⟩ := bind_eq_ok.mp h
  rw [need_eq_ok] at hg
  obtain ⟨-, -, -, -, -, -, howner⟩ := ensure_eq_ok.mp hinvalid
  obtain ⟨hpending, hid⟩ := ensure_eq_ok.mp hgrant
  cases h
  exact ⟨g, payload.grant, hg, hpending, hid, howner, ensure_eq_ok.mp hepoch, rfl⟩

/-! ### The snapshot of grants -/

structure ControlOk (a : AccountAuthority) (e : Event) (legacy : LegacyAuthorityContext)
    (graph : AuthorityGraph) (control : AccountAuthorityControl)
    (previousControl : Option AccountAuthorityControl) (issuer : PubKey) : Prop where
  read : AccountAuthorityControl.decode e.ciphertext = some control
  author : control.issuer.ed25519Pub = e.author.ed25519Pub
  presence : control.issuer.validPresence = true
  account : control.issuer.account = some issuer
  signature : control.verifyAccountSignature legacy.channel (a.owner.getD issuer) = true
  first : a.current = none → control.previous = none ∧
    control.issuer.publicIdentity = legacy.owner ∧ issuer = control.ownerAccount ∧
      control.revoked = []
  later : a.current ≠ none → a.owner = some issuer ∧
    a.canAdmin control.issuer.publicIdentity control.issuer = true ∧ control.legacyBindings = [] ∧
    a.observesBinding e control.issuer graph = true ∧
    ∃ previous, control.previous = some previous ∧ a.knownControl previous = true ∧
      graph.descends e.id previous = true
  named : ∀ previous, control.previous = some previous → ∃ event decoded,
    graph.event previous = some event ∧
      AccountAuthorityControl.decode event.ciphertext = some decoded ∧
        previousControl = some decoded
  unnamed : control.previous = none → previousControl = none
  stale : a.isStale control = true → previousControl.any (fun p => p.ownerAccount = issuer) = true ∧
    control.ownerAccount = issuer

variable {legacy : LegacyAuthorityContext} {control : AccountAuthorityControl}
  {previousControl : Option AccountAuthorityControl} {d d' : Draft} {g : AccountGrant}

theorem checkControl_cases (h : a.checkControl e legacy graph = .ok (control, previousControl)) :
    ∃ issuer, ControlOk a e legacy graph control previousControl issuer := by
  obtain ⟨control', hread, h⟩ := bind_eq_ok.mp h
  obtain ⟨⟨⟩, hauthor, h⟩ := bind_eq_ok.mp h
  obtain ⟨issuer, hissuer, h⟩ := bind_eq_ok.mp h
  obtain ⟨⟨⟩, hsign, h⟩ := bind_eq_ok.mp h
  obtain ⟨u, hgate, h⟩ := bind_eq_ok.mp h
  obtain ⟨previous', hprev, h⟩ := bind_eq_ok.mp h
  obtain ⟨⟨⟩, hstale, h⟩ := bind_eq_ok.mp h
  cases h
  rw [need_eq_ok] at hread hissuer
  obtain ⟨hauthor, hpresence⟩ := ensure_eq_ok.mp hauthor
  refine ⟨issuer, hread, hauthor, hpresence, hissuer, ensure_eq_ok.mp hsign, fun hc => ?_,
    fun hc => ?_, fun previous hp => ?_, fun hp => ?_, fun hst => ?_⟩
  · rw [checkIssuer, if_pos hc] at hgate
    exact ensure_eq_ok.mp hgate
  · rw [checkIssuer, if_neg hc] at hgate
    obtain ⟨⟨⟩, hown, hgate⟩ := bind_eq_ok.mp hgate
    obtain ⟨⟨⟩, hobs, hgate⟩ := bind_eq_ok.mp hgate
    obtain ⟨previous, hp, hgate⟩ := bind_eq_ok.mp hgate
    obtain ⟨hown, hadmin, hbind⟩ := ensure_eq_ok.mp hown
    rw [need_eq_ok] at hp
    exact ⟨hown.symm, hadmin, hbind, ensure_eq_ok.mp hobs, previous, hp, ensure_eq_ok.mp hgate⟩
  · rw [namedControl, hp] at hprev
    obtain ⟨event, hevent, hprev⟩ := bind_eq_ok.mp hprev
    obtain ⟨decoded, hdecoded, hprev⟩ := bind_eq_ok.mp hprev
    rw [need_eq_ok] at hevent hdecoded
    exact ⟨event, decoded, hevent, hdecoded, (Except.ok.inj hprev).symm⟩
  · rw [namedControl, hp] at hprev
    exact (Except.ok.inj hprev).symm
  · rcases ensure_eq_ok.mp hstale with hc | hc | hc
    · simp [isStale, hc] at hst
    · simp [isStale, hc] at hst
    · exact hc

def bindingGrant (legacy : LegacyAuthorityContext) (m : LegacyAccountMember) (proof : Announce) :
    AccountGrant where
  incarnation := 0
  pending := legacy.invited.any fun i =>
    i.identity = m.identity && i.membershipEvent = m.membershipEvent
  original := proof
  membershipEvent := m.membershipEvent
  acceptanceEvent := m.acceptanceEvent

theorem bindOne_cases {s s' proof} (h : bindOne e legacy graph s proof = .ok s') :
    ∃ m account, s' = ({ s.1 with
        pins := s.1.pins.set (legacyKey (bindingGrant legacy m proof)) account
        originals := s.1.originals ++ [proof] }, insert m.identity.userId s.2) := by
  obtain ⟨m, -, h⟩ := bind_eq_ok.mp h
  obtain ⟨⟨⟩, -, h⟩ := bind_eq_ok.mp h
  obtain ⟨account, -, h⟩ := bind_eq_ok.mp h
  obtain ⟨u, -, h⟩ := bind_eq_ok.mp h
  exact ⟨m, account, (Except.ok.inj h).symm⟩

theorem bindLegacy_cases {d} (h : a.bindLegacy e control legacy graph = .ok d) :
    d = { pins := a.pinned, originals := a.originals } ∨
      ∃ seen, control.legacyBindings.foldlM (bindOne e legacy graph)
        ({ pins := a.pinned, originals := a.originals }, ∅) = .ok (d, seen) := by
  unfold bindLegacy at h
  split_ifs at h with hc
  · exact .inl (Except.ok.inj h).symm
  · obtain ⟨⟨⟩, -, h⟩ := bind_eq_ok.mp h
    obtain ⟨⟨d', seen⟩, hfold, h⟩ := bind_eq_ok.mp h
    cases h
    exact .inr ⟨seen, hfold⟩

structure GrantChanged (a : AccountAuthority) (e : Event) (legacy : LegacyAuthorityContext)
    (graph : AuthorityGraph) (d : Draft) (g : AccountGrant) (id : AccountGrantId) : Prop where
  live : (a.revokedEvent id).isSome = false
  other : a.grants.get id.accountPub ≠ some g
  reused : (a.grants.get id.accountPub).any (fun old => old.id = some id) = false
  validated : ∃ u, validateLegacyGrant g e legacy graph = .ok u
  pin : ∀ account, (d.pins.get (legacyKey g) <|> a.previousPin (legacyKey g)) = some account →
    account = id.accountPub
  genesis : (d.pins.get (legacyKey g) <|> a.previousPin (legacyKey g)) = none →
    a.genesis.all (fun genesis => graph.descends g.membershipEvent genesis) = true
  observed : a.observedRevocations id.accountPub g.membershipEvent graph = true

def pinnedDraft (a : AccountAuthority) (d : Draft) (g : AccountGrant) (id : AccountGrantId) :
    Draft :=
  if (d.pins.get (legacyKey g) <|> a.previousPin (legacyKey g)).isSome then d
  else { d with
    pins := d.pins.set (legacyKey g) id.accountPub
    originals := d.originals ++ [g.original] }

omit [Wire] [Sha256] [EventCrypto] in
theorem pinGrant_cases {id} (h : a.pinGrant graph d g id = .ok d') : d' = a.pinnedDraft d g id ∧
      (∀ account, (d.pins.get (legacyKey g) <|> a.previousPin (legacyKey g)) = some account →
        account = id.accountPub) ∧
      ((d.pins.get (legacyKey g) <|> a.previousPin (legacyKey g)) = none →
        a.genesis.all (fun genesis => graph.descends g.membershipEvent genesis) = true) := by
  unfold pinGrant at h
  unfold pinnedDraft
  split at h
  · rename_i account hpin
    obtain ⟨⟨⟩, haccount, h⟩ := bind_eq_ok.mp h
    cases h
    rw [hpin]
    refine ⟨rfl, ?_, fun h => by cases h⟩
    rintro _ ⟨⟩
    exact ensure_eq_ok.mp haccount
  · rename_i hpin
    obtain ⟨⟨⟩, hgenesis, h⟩ := bind_eq_ok.mp h
    cases h
    rw [hpin]
    exact ⟨rfl, (fun _ h => by cases h), fun _ => ensure_eq_ok.mp hgenesis⟩

theorem checkGrant_cases {id}
    (h : a.checkGrant e control previousControl legacy graph d g id = .ok d') :
    (a.isStale control = true ∨ (a.revokedEvent id).isSome = true) ∧
        previousControl.any (fun p => g ∈ p.grants) = true ∧ d' = d ∨
      a.isStale control = false ∧ ((a.revokedEvent id).isSome = false ∧
          a.grants.get id.accountPub = some g ∧ d' = d ∨
        GrantChanged a e legacy graph d g id ∧ d' = a.pinnedDraft d g id) := by
  unfold checkGrant at h
  by_cases hold : a.isStale control = true ∨ (a.revokedEvent id).isSome = true
  · rw [if_pos hold] at h
    obtain ⟨⟨⟩, hprev, h⟩ := bind_eq_ok.mp h
    cases h
    exact .inl ⟨hold, ensure_eq_ok.mp hprev, rfl⟩
  · rw [if_neg hold] at h
    push Not at hold
    obtain ⟨hstale, hlive⟩ := hold
    refine .inr ⟨by simpa using hstale, ?_⟩
    by_cases hsame : a.grants.get id.accountPub = some g
    · rw [if_pos hsame] at h
      cases h
      exact .inl ⟨by simpa using hlive, hsame, rfl⟩
    · rw [if_neg hsame] at h
      obtain ⟨⟨⟩, hreused, h⟩ := bind_eq_ok.mp h
      obtain ⟨u, hvalid, h⟩ := bind_eq_ok.mp h
      obtain ⟨d₁, hpin, h⟩ := bind_eq_ok.mp h
      obtain ⟨⟨⟩, hobs, h⟩ := bind_eq_ok.mp h
      cases h
      obtain ⟨hd, haccount, hgenesis⟩ := pinGrant_cases hpin
      exact .inr ⟨⟨by simpa using hlive, hsame, ensure_eq_ok.mp hreused, ⟨u, hvalid⟩, haccount,
        hgenesis, ensure_eq_ok.mp hobs⟩, hd⟩

theorem admitGrant_cases (h : a.admitGrant e control previousControl legacy graph d g = .ok d') :
    ∃ id d₁, g.id = some id ∧ g.original.validPresence = true ∧ id ∉ d.ids ∧
      d.next.get id.accountPub = none ∧
      a.checkGrant e control previousControl legacy graph { d with ids := insert id d.ids }
        g id = .ok d₁ ∧
      d' = { d₁ with next := d₁.next.set id.accountPub g } := by
  obtain ⟨id, hid, h⟩ := bind_eq_ok.mp h
  obtain ⟨⟨⟩, hvalid, h⟩ := bind_eq_ok.mp h
  obtain ⟨d₁, hcheck, h⟩ := bind_eq_ok.mp h
  cases h
  rw [need_eq_ok] at hid
  obtain ⟨hpresence, -, hids, hnext⟩ := ensure_eq_ok.mp hvalid
  exact ⟨id, d₁, hid, hpresence, hids, Table.has_eq_false.mp hnext, hcheck, rfl⟩

/-- The control passed all checks. -/
structure Applies (a : AccountAuthority) (e : Event) (legacy : LegacyAuthorityContext)
    (graph : AuthorityGraph) (control : AccountAuthorityControl)
    (previousControl : Option AccountAuthorityControl) (d₀ d : Draft) : Prop where
  kind : e.kind = .channelAccountAuthority
  conversation : e.conversationId = legacy.channel
  channel : a.channel.all (fun c => c = legacy.channel) = true
  valid : validEvent e = true
  fresh : a.knownControl e.id = false
  checked : ∃ issuer, ControlOk a e legacy graph control previousControl issuer
  bound : a.bindLegacy e control legacy graph = .ok d₀
  admitted : control.grants.foldlM (a.admitGrant e control previousControl legacy graph) d₀ = .ok d
  owner : ∃ u, a.checkOwner control d = .ok u
  initial : ∃ u, a.checkInitial control legacy d = .ok u
  removed : ∃ u, a.checkRemoved control previousControl d = .ok u
  epoch : a.baseEpoch.getD legacy.epoch + a.historicalAdded + a.historicalRevoked +
    (a.addedAfter control previousControl d ∪ a.declinedEpochReservations).card +
    (a.tombstonesAfter e control).rows.length ≤ u64Max

theorem apply_cases (h : a.apply e legacy graph = .ok (b, a')) :
    a.knownControl e.id = true ∧ b = false ∧ a' = a ∨
      ∃ control previousControl d₀ d, Applies a e legacy graph control previousControl d₀ d ∧
        b = true ∧ a' = a.applied e control previousControl legacy graph d := by
  obtain ⟨⟨⟩, hvalid, h⟩ := bind_eq_ok.mp h
  obtain ⟨hkind, hconv, hchannel, hvalid⟩ := ensure_eq_ok.mp hvalid
  by_cases hknown : a.knownControl e.id = true
  · rw [if_pos hknown] at h
    cases h
    exact .inl ⟨hknown, rfl, rfl⟩
  · rw [if_neg hknown] at h
    obtain ⟨⟨control, previousControl⟩, hcontrol, h⟩ := bind_eq_ok.mp h
    obtain ⟨d₀, hbound, h⟩ := bind_eq_ok.mp h
    obtain ⟨d, hadmitted, h⟩ := bind_eq_ok.mp h
    obtain ⟨u, howner, h⟩ := bind_eq_ok.mp h
    obtain ⟨u', hinitial, h⟩ := bind_eq_ok.mp h
    obtain ⟨u'', hremoved, h⟩ := bind_eq_ok.mp h
    obtain ⟨⟨⟩, hepoch, h⟩ := bind_eq_ok.mp h
    obtain ⟨n, hn⟩ := isSome_iff_exists.mp (ensure_eq_ok.mp hepoch)
    obtain ⟨_, h₁, hn⟩ := bind_eq_some_iff.mp hn
    obtain ⟨_, h₂, hn⟩ := bind_eq_some_iff.mp hn
    obtain ⟨_, h₃, hn⟩ := bind_eq_some_iff.mp hn
    simp only [checkedAdd_eq_some] at h₁ h₂ h₃ hn
    cases h
    exact .inr ⟨control, previousControl, d₀, d,
      ⟨hkind, hconv, hchannel, hvalid, by simpa using hknown,
      checkControl_cases hcontrol, hbound, hadmitted, ⟨u, howner⟩, ⟨u', hinitial⟩, ⟨u'', hremoved⟩,
      by omega⟩, rfl, rfl⟩

/-- A grant of a control that passed: it stands as it did, or is changed as it may be. -/
structure NextOk (a : AccountAuthority) (e : Event) (legacy : LegacyAuthorityContext)
    (graph : AuthorityGraph) (control : AccountAuthorityControl) (account : PubKey)
      (g : AccountGrant) :
    Prop where
  mem : g ∈ control.grants
  id : ∃ id, g.id = some id ∧ id.accountPub = account ∧ (a.isStale control = true ∨
    (a.revokedEvent id).isSome = true ∨ a.grants.get account = some g ∨
    ∃ d, GrantChanged a e legacy graph d g id)
  presence : g.original.validPresence = true

section Checks

variable {legacy : LegacyAuthorityContext} {control : AccountAuthorityControl}
  {previousControl : Option AccountAuthorityControl} {d₀ d : Draft}

theorem bindLegacy_next (h : a.bindLegacy e control legacy graph = .ok d) : d.next = ∅ := by
  rcases bindLegacy_cases h with rfl | ⟨seen, hfold⟩
  · rfl
  · refine foldlM_ok (P := fun s => s.1.next = ∅) hfold rfl ?_
    intro proof _ s s' hs hone
    obtain ⟨m, account, rfl⟩ := bindOne_cases hone
    exact hs

theorem Applies.next (h : Applies a e legacy graph control previousControl d₀ d) {account g}
    (hg : d.next.get account = some g) : NextOk a e legacy graph control account g := by
  refine foldlM_ok (P := fun d => ∀ account g, d.next.get account = some g →
    NextOk a e legacy graph control account g) h.admitted ?_ ?_ account g hg
  · rw [bindLegacy_next h.bound]
    intro account g hg
    cases hg
  · intro g hmem d₁ d₂ hd₁ hone account g' hg'
    obtain ⟨id, d', hid, hpresence, -, -, hcheck, rfl⟩ := admitGrant_cases hone
    rw [show Table.get _ _ = _ from Table.get_set _ _ _ _] at hg'
    have hnext : d'.next = d₁.next := by
      rcases checkGrant_cases hcheck with ⟨-, -, rfl⟩ | ⟨-, ⟨-, -, rfl⟩ | ⟨-, rfl⟩⟩
      · rfl
      · rfl
      · unfold pinnedDraft
        split_ifs <;> rfl
    split_ifs at hg' with hk
    · cases hg'
      refine ⟨hmem, ⟨id, hid, hk.symm, ?_⟩, hpresence⟩
      rcases checkGrant_cases hcheck with ⟨hold, -, -⟩ | ⟨-, ⟨-, hsame, -⟩ | ⟨hch, -⟩⟩
      · rcases hold with hold | hold
        · exact .inl hold
        · exact .inr (.inl hold)
      · exact .inr (.inr (.inl (hk ▸ hsame)))
      · exact .inr (.inr (.inr ⟨_, hch⟩))
    · exact hd₁ account g' (hnext ▸ hg')

omit [Wire] [Sha256] [EventCrypto] in
theorem checkOwner_cases {u} (h : a.checkOwner control d = .ok u) :
    ∃ g id, d.next.get control.ownerAccount = some g ∧ g.id = some id ∧
      a.cohortClosed id true = false ∧ (a.revokedEvent id).isNone = true ∧
      (g.pending = false ∨ id ∈ a.activated) := by
  obtain ⟨⟨⟩, hclosed, h⟩ := bind_eq_ok.mp h
  obtain ⟨g, hg, h⟩ := bind_eq_ok.mp h
  obtain ⟨id, hid, h⟩ := bind_eq_ok.mp h
  rw [need_eq_ok] at hg hid
  have hclosed := ensure_eq_ok.mp hclosed
  rw [hg, any_some, hid, any_some] at hclosed
  obtain ⟨hlive, hactive⟩ := ensure_eq_ok.mp h
  exact ⟨g, id, hg, hid, hclosed, hlive, hactive⟩

omit [Wire] [Sha256] [EventCrypto] in
theorem checkRemoved_cases {u} (h : a.checkRemoved control previousControl d = .ok u) :
    a.previousGrants control previousControl \ d.nextIds = control.revoked.toFinset ∧
      ∀ id ∈ control.revoked, id.accountPub ≠ control.ownerAccount := by
  obtain ⟨⟨⟩, -, h⟩ := bind_eq_ok.mp h
  obtain ⟨hset, howner⟩ := ensure_eq_ok.mp h
  refine ⟨hset, fun id hid heq => ?_⟩
  have := List.any_eq_false.mp howner id hid
  simp [heq] at this

theorem Applies.mem_nextIds (h : Applies a e legacy graph control previousControl d₀ d) {id}
    (hid : id ∈ d.nextIds) : ∃ g, d.next.get id.accountPub = some g ∧ g.id = some id := by
  obtain ⟨g, hg, hid⟩ := List.mem_filterMap.mp (List.mem_toFinset.mp hid)
  obtain ⟨account, hrow⟩ := Table.mem_values.mp hg
  have hget := Table.get_eq_some.mpr hrow
  obtain ⟨id', hid', rfl, -⟩ := (h.next hget).id
  obtain rfl := mem_unique hid hid'
  exact ⟨g, hget, hid⟩

end Checks

/-! ### What a snapshot of grants leaves behind -/

section Applied

variable {legacy : LegacyAuthorityContext} {control : AccountAuthorityControl}
  {previousControl : Option AccountAuthorityControl} {d : Draft}

omit [Wire] [Sha256] [EventCrypto]

theorem isStale_of_first (h : a.current = none) : a.isStale control = false := by
  simp [isStale, h]

theorem applied_originals : (a.applied e control previousControl legacy graph d).originals =
    if a.isStale control then a.originals else d.originals := by
  unfold applied
  split_ifs <;> rfl

theorem applied_revoked : (a.applied e control previousControl legacy graph d).revoked =
    a.tombstonesAfter e control := by
  unfold applied
  split_ifs <;> rfl

theorem applied_added : (a.applied e control previousControl legacy graph d).addedGrants =
    a.addedAfter control previousControl d := by
  unfold applied
  split_ifs <;> rfl

theorem applied_current : (a.applied e control previousControl legacy graph d).current =
    if a.isStale control then a.current else some e.id := by
  unfold applied
  split_ifs <;> rfl

theorem applied_owner : (a.applied e control previousControl legacy graph d).owner =
    if a.isStale control then a.owner else some control.ownerAccount := by
  unfold applied
  split_ifs <;> rfl

theorem applied_of_used (h : a.current ≠ none) :
    (a.applied e control previousControl legacy graph d).baseEpoch = a.baseEpoch ∧
      (a.applied e control previousControl legacy graph d).initialLegacy = a.initialLegacy ∧
      (a.applied e control previousControl legacy graph d).legacyBase = a.legacyBase ∧
      (a.applied e control previousControl legacy graph d).genesis = a.genesis := by
  unfold applied
  split_ifs <;> exact ⟨rfl, rfl, rfl, rfl⟩

theorem applied_of_first (h : a.current = none) :
    (a.applied e control previousControl legacy graph d).baseEpoch = some legacy.epoch ∧
      (a.applied e control previousControl legacy graph d).initialLegacy =
        cohortsOf control legacy a.initialLegacy ∧
      (a.applied e control previousControl legacy graph d).legacyBase = a.legacySeen.keySet ∪
        ((legacy.accepted.filter fun m => a.legacyCandidateObserved m e.id graph).map
          lifetimeKey).toFinset := by
  unfold applied
  dsimp only
  rw [if_neg (by rw [isStale_of_first h]; simp), if_pos h]
  exact ⟨rfl, rfl, rfl⟩

theorem applied_self : (a.applied e control previousControl legacy graph d).activated =
    a.activated ∧ (a.applied e control previousControl legacy graph d).declinedEpochReservations =
      a.declinedEpochReservations := by
  unfold applied
  split_ifs <;> exact ⟨rfl, rfl⟩

theorem applied_fixed : (a.applied e control previousControl legacy graph d).fixed = a.fixed := by
  unfold applied
  split_ifs <;> rfl

theorem applied_grants : (a.applied e control previousControl legacy graph d).grants =
    (a.revise e control previousControl d).withoutRevoked
      (if a.isStale control then a.grants else d.next) := by
  unfold applied
  split_ifs <;> rfl

end Applied

end AccountAuthority

/-! ### Steps -/

namespace MembershipReducer

/-- What an event can make of the account authority, before a departure is noted. -/
inductive Moved (r : MembershipReducer) (e : Event) (graph : AuthorityGraph) :
    AccountAuthority → Prop
  | kept : Moved r e graph r.authority
  | applied {s owner b a'} (hkind : e.kind = .channelAccountAuthority) (hprior : r.prior = some s)
      (howner : ((s.members.find? fun m => m.userId = s.owner) <|>
        (AccountAuthorityControl.decode e.ciphertext).map (·.issuer.publicIdentity)) = some owner)
      (h : r.authority.apply e (r.legacyContext s owner) graph = .ok (b, a')) : Moved r e graph a'
  | accepted {proof b a'} (hkind : e.kind = .channelAccept)
      (hcurrent : r.authority.current.isSome = true)
      (hproof : r.proofOf e.userId = some proof)
      (hmember : r.authority.isMember proof.publicIdentity proof = true ∨
        (r.authority.invitationForDevice proof.publicIdentity proof).isSome = true)
      (h : r.authority.acceptAccount e proof graph = .ok (b, a')) : Moved r e graph a'
  | left {proof b a'} (hkind : e.kind = .channelLeave)
      (hcurrent : r.authority.current.isSome = true)
      (hdeparture : r.departureOf e = none) (hproof : r.proofOf e.userId = some proof)
      (h : r.leaveAction e proof graph = .ok (b, a')) : Moved r e graph a'
  | inherited {b a'} (hkind : e.kind = .channelDeviceInheritance)
      (h : r.authority.inheritDevice e graph = .ok (b, a')) : Moved r e graph a'

structure Decision (r : MembershipReducer) (e : Event) (graph : AuthorityGraph) (v : Verdict) :
    Prop where
  moved : Moved r e graph v.reducer.authority
  prior : ∃ departures, Change r e graph v.reducer.prior departures
  bindings : v.reducer.bindings = r.bindings ∨ ∃ authority id proof,
    DeviceControl.signedInheritance e = some (authority, id, proof) ∧
      v.reducer.bindings = r.bindings.set proof.userId proof
  channelId : v.reducer.channelId = r.channelId
  history : v.reducer.history = r.history
  authorized : v.reducer.authorized = r.authorized
  legacyChecks : v.reducer.legacyChecks = r.legacyChecks
  roots : v.reducer.roots = r.roots
  departures : v.reducer.departures = r.departures ∨
    v.reducer.departures = r.departures ++ [(e.userId, e.id)]

variable {r : MembershipReducer} {e : Event} {graph : AuthorityGraph} {v : Verdict}

theorem Decision.unchanged (b) : Decision r e graph ⟨b, r, none⟩ :=
  ⟨.kept, ⟨_, .unchanged⟩, .inl rfl, rfl, rfl, rfl, rfl, rfl, .inl rfl⟩

omit [EventCrypto] in
theorem Change.departures_cases {prior departures} (hc : Change r e graph prior departures) :
    departures = r.departures ∨ departures = r.departures ++ [(e.userId, e.id)] := by
  cases hc with
  | left => exact .inr rfl
  | _ => exact .inl rfl

theorem Decided.decision (hv : Decided r e graph v) : Decision r e graph v where
  moved := by
    rw [hv.authority]
    exact .kept
  prior := ⟨_, hv.change⟩
  bindings := .inl (by rw [hv.frame])
  channelId := by rw [hv.frame]
  history := hv.history
  authorized := hv.authorized
  legacyChecks := by rw [hv.frame]
  roots := by rw [hv.frame]
  departures := hv.change.departures_cases

theorem Decision.of_moved {a'} (h : Moved r e graph a') (b d) :
    Decision r e graph ⟨b, { r with authority := a' }, d⟩ :=
  ⟨h, ⟨_, .unchanged⟩, .inl rfl, rfl, rfl, rfl, rfl, rfl, .inl rfl⟩

theorem decision_accept (hk : e.kind = .channelAccept) :
    Decision r e graph (r.decideAccept e graph) := by
  cases hc : r.authority.current with
  | none => exact (decided_accept hc hk).decision
  | some c =>
    unfold decideAccept
    rw [if_pos (by rw [hc]; rfl)]
    split
    · rename_i proof hproof
      split_ifs with hmember
      · split
        · rename_i b a' h
          exact .of_moved (.accepted hk (by rw [hc]; rfl) hproof hmember h) true none
        · exact .unchanged false
      · exact .unchanged false
    · exact .unchanged false

theorem decision_leave (hk : e.kind = .channelLeave) :
    Decision r e graph (r.decideLeave e graph (r.departureOf e)) := by
  cases hc : r.authority.current with
  | none => exact (decided_leave hc hk _).decision
  | some c =>
    unfold decideLeave
    rw [if_pos (by rw [hc]; rfl)]
    split_ifs with hd
    · exact ⟨.kept, ⟨_, .unchanged⟩, .inl rfl, rfl, rfl, rfl, rfl, rfl, .inr rfl⟩
    · split
      · rename_i proof hproof
        split
        · rename_i b a' h
          exact .of_moved (.left hk (by rw [hc]; rfl) (by simpa using hd) hproof h) true _
        · exact .unchanged false
      · exact .unchanged false

theorem decision_accountAuthority (hk : e.kind = .channelAccountAuthority) :
    Decision r e graph (r.decideAccountAuthority e graph) := by
  unfold decideAccountAuthority
  split
  · rename_i s hs
    dsimp only
    split
    · rename_i owner howner
      split
      · rename_i b a' h
        exact .of_moved (.applied hk hs howner h) true none
      · exact .unchanged false
    · exact .unchanged false
  · exact .unchanged false

theorem decision_deviceInheritance (hk : e.kind = .channelDeviceInheritance) :
    Decision r e graph (r.decideDeviceInheritance e graph) := by
  unfold decideDeviceInheritance
  split
  · rename_i authority id proof b a' hsigned h
    exact ⟨.inherited hk h, ⟨_, .unchanged⟩, .inr ⟨authority, id, proof, hsigned, rfl⟩, rfl, rfl,
      rfl, rfl, rfl, .inl rfl⟩
  · split
    · exact .unchanged _
    · exact .unchanged false

/-- **The decision on an event.** -/
theorem decision (hv : r.decideKind e graph (r.departureOf e) = some v) : Decision r e graph v := by
  unfold decideKind at hv
  split at hv
  · exact (decided_membershipChange ‹_› hv).decision
  · exact some.inj hv ▸ (decided_rename ‹_›).decision
  · exact some.inj hv ▸ (decided_dissolve ‹_›).decision
  · exact some.inj hv ▸ decision_accept ‹_›
  · exact (decided_transfer ‹_› hv).decision
  · exact some.inj hv ▸ decision_leave ‹_›
  · exact some.inj hv ▸ decision_accountAuthority ‹_›
  · exact some.inj hv ▸ decision_deviceInheritance ‹_›
  · exact some.inj hv ▸ .unchanged _

/-- What a step leaves behind. The state is that of the decision, or the roles of the accounts put
over it. -/
structure Reduced (r : MembershipReducer) (e : Event) (graph : AuthorityGraph) (closed : Bool)
    (r' : MembershipReducer) : Prop where
  authority : ∃ a', Moved r e graph a' ∧
    r'.authority = if closed then a'.noteDeparture (r.departureOf e) else a'
  prior : ∃ prior departures, Change r e graph prior departures ∧
    (r'.prior = prior ∧ (isMembershipControl e.kind = false ∨ r'.prior = none ∨
        r'.authority.ownerAccountId = none ∨ r'.authority.keyEpoch = none) ∨
      ∃ s owner epoch, prior = some s ∧ r'.authority.ownerAccountId = some owner ∧
        r'.authority.keyEpoch = some epoch ∧
        r'.prior = some ((s.installAccountProjection owner (participantsOf r'.memberProofs) epoch
          ).installAccountInvites (participantsOf r'.inviteProofs)))
  bindings : r'.bindings = r.bindings ∨ ∃ authority id proof,
    DeviceControl.signedInheritance e = some (authority, id, proof) ∧
      r'.bindings = r.bindings.set proof.userId proof
  channelId : r'.channelId = r.channelId
  history : r'.history = r.history
  legacyChecks : r'.legacyChecks = r.legacyChecks

omit [Wire] [Sha256] [EventCrypto] in
theorem close_frame (d departure) :
    ∃ departures accounts, r.close e d departure = { r with
      authorized := insert e.id r.authorized
      authority := r.authority.noteDeparture d
      departures := departures
      departureAccounts := accounts } := by
  cases departure <;> exact ⟨_, _, rfl⟩

omit [Wire] in
theorem installProjection_cases :
    r.installProjection = r ∧ (r.prior = none ∨ r.authority.ownerAccountId = none ∨
        r.authority.keyEpoch = none) ∨
      ∃ s owner epoch, r.prior = some s ∧ r.authority.ownerAccountId = some owner ∧
        r.authority.keyEpoch = some epoch ∧
        r.installProjection = { r with
          prior := some ((s.installAccountProjection owner (participantsOf r.memberProofs) epoch
            ).installAccountInvites (participantsOf r.inviteProofs)) } := by
  unfold installProjection
  split
  · rename_i s owner epoch hs howner hepoch
    exact .inr ⟨s, owner, epoch, hs, howner, hepoch, rfl⟩
  · rename_i hnone
    refine .inl ⟨rfl, ?_⟩
    cases hs : r.prior with
    | none => exact .inl rfl
    | some s =>
      cases howner : r.authority.ownerAccountId with
      | none => exact .inr (.inl rfl)
      | some owner =>
        cases hepoch : r.authority.keyEpoch with
        | none => exact .inr (.inr rfl)
        | some epoch => exact absurd hepoch (hnone s owner epoch hs howner)

theorem reduced_finish (hv : Decision r e graph v) :
    Reduced r e graph (finishStep r e v).1 (finishStep r e v).2 := by
  -- the reducer before the roles are installed
  obtain ⟨r₁, hr₁, hauth, hprior, hbind, hchannel, hhist, hchecks⟩ : ∃ r₁ : MembershipReducer,
      r₁ = (if (finishStep r e v).1 then v.reducer.close e (r.departureOf e) v.departure
        else v.reducer).updateRoots e r.memberIds (r.isAccepted e.userId) ∧
      r₁.authority = (if (finishStep r e v).1 then
        v.reducer.authority.noteDeparture (r.departureOf e) else v.reducer.authority) ∧
      r₁.prior = v.reducer.prior ∧ r₁.bindings = v.reducer.bindings ∧
      r₁.channelId = r.channelId ∧ r₁.history = r.history ∧ r₁.legacyChecks = r.legacyChecks := by
    refine ⟨_, rfl, ?_⟩
    split_ifs
    · obtain ⟨departures, accounts, hclose⟩ :=
        close_frame (r := v.reducer) (e := e) (r.departureOf e) v.departure
      obtain ⟨roots, hroots⟩ := updateRoots_frame
        (r := v.reducer.close e (r.departureOf e) v.departure)
        (e := e) r.memberIds (r.isAccepted e.userId)
      rw [hroots, hclose]
      exact ⟨rfl, rfl, rfl, hv.channelId, hv.history, hv.legacyChecks⟩
    · obtain ⟨roots, hroots⟩ := updateRoots_frame (r := v.reducer) (e := e) r.memberIds
        (r.isAccepted e.userId)
      rw [hroots]
      exact ⟨rfl, rfl, rfl, hv.channelId, hv.history, hv.legacyChecks⟩
  have hend : (finishStep r e v).2 =
      if isMembershipControl e.kind then r₁.installProjection else r₁ := by
    unfold MembershipReducer.finishStep at hr₁ ⊢
    rw [hr₁]
  obtain ⟨departures, hchange⟩ := hv.prior
  by_cases hk : isMembershipControl e.kind = true
  · rw [if_pos hk] at hend
    rcases installProjection_cases (r := r₁) with ⟨hsame, hnone⟩
      | ⟨s, owner, epoch, hs, ho, hn, hinst⟩
    · rw [hend, hsame]
      refine ⟨⟨_, hv.moved, hauth⟩, ⟨_, departures, hchange, .inl ⟨hprior, ?_⟩⟩, ?_, hchannel,
        hhist, hchecks⟩
      · exact .inr hnone
      · rw [hbind]
        exact hv.bindings
    · rw [hend, hinst]
      refine ⟨⟨_, hv.moved, hauth⟩, ⟨_, departures, hchange, .inr ⟨s, owner, epoch,
        hprior.symm.trans hs, ho, hn, rfl⟩⟩, ?_, hchannel, hhist, hchecks⟩
      rw [hbind]
      exact hv.bindings
  · rw [if_neg hk] at hend
    rw [hend]
    refine ⟨⟨_, hv.moved, hauth⟩, ⟨_, departures, hchange, .inl ⟨hprior, .inl (by simpa using hk)⟩⟩,
      ?_, hchannel, hhist, hchecks⟩
    rw [hbind]
    exact hv.bindings

/-- **A step.** It ends early and changes nothing, or its verdict is carried out. -/
theorem step_cases (r : MembershipReducer) (e graph) :
    r.step e graph = (false, r.prepared) ∨
      Reduced r.prepared e graph (r.step e graph).1 (r.step e graph).2 := by
  unfold MembershipReducer.step
  dsimp only
  split_ifs
  · exact .inl rfl
  · split
    · exact .inl rfl
    · exact .inr (reduced_finish (decision ‹_›))

/-! ### Effects -/

/-- All that an event can make of the account authority, before a departure is noted. -/
inductive Effect (r : MembershipReducer) (e : Event) (graph : AuthorityGraph) :
    AccountAuthority → Prop
  | kept : Effect r e graph r.authority
  | observed (id : AccountGrantId) (hkind : e.kind = .channelAccept)
      (hactive : id ∈ r.authority.activated) :
      Effect r e graph { r.authority with
        acceptanceEvents := insert (id, e.id) r.authority.acceptanceEvents }
  | activated {proof g id} (hkind : e.kind = .channelAccept)
      (hgrant : r.authority.proofGrant proof.publicIdentity proof = some g) (hid : g.id = some id)
      (hpending : g.pending = true) (hnew : id ∉ r.authority.activated)
      (hepoch : (r.authority.keyEpoch.bind fun n => checkedAdd u64Max n 1).isSome = true) :
      Effect r e graph { r.authority with
        acceptanceEvents := insert (id, e.id) r.authority.acceptanceEvents
        activated := insert id r.authority.activated
        addedGrants := if r.authority.hadAdded id then r.authority.addedGrants
          else insert id r.authority.addedGrants }
  | left {proof g id} (hkind : e.kind = .channelLeave)
      (hgrant : r.authority.grantForDevice proof.publicIdentity proof = some g)
        (hid : g.id = some id)
      (howner : some id.accountPub ≠ r.authority.owner)
      (hepoch : (r.authority.keyEpoch.bind fun n => checkedAdd u64Max n 1).isSome = true) :
      Effect r e graph { r.authority with
        revoked := if (r.authority.revokedEvent id).isNone then r.authority.revoked.set id e.id
          else r.authority.revoked
        grants := r.authority.grants.erase id.accountPub }
  | replayed {account g id} (hkind : e.kind = .channelLeave)
      (hgrant : r.authority.grants.get account = some g) (hid : g.id = some id)
      (hclosed : r.authority.cohortClosed id false = true)
        (howner : some account ≠ r.authority.owner) :
      Effect r e graph { r.authority with
        revoked := r.authority.revoked.insertOrIgnore id e.id
        grants := r.authority.grants.erase account }
  | declined {proof g id} (hkind : e.kind = .channelLeave)
      (hgrant : r.authority.proofGrant proof.publicIdentity proof = some g) (hid : g.id = some id)
      (hpending : g.pending = true) (howner : some id.accountPub ≠ r.authority.owner)
      (hepoch : (r.authority.keyEpoch.bind fun n => checkedAdd u64Max n
        (if r.authority.hadAdded id = true ∨ id ∈ r.authority.declinedEpochReservations then 1
          else 2)).isSome = true) : Effect r e graph { r.authority with
        declinedEpochReservations := insert id r.authority.declinedEpochReservations
        revoked := r.authority.revoked.insertOrIgnore id e.id
        grants := r.authority.grants.erase id.accountPub }
  | inherited {authority id proof} (hkind : e.kind = .channelDeviceInheritance)
      (h : r.authority.Inherits e graph authority id proof)
      (hnew : r.authority.proofGrant proof.publicIdentity proof = none) :
        Effect r e graph { r.authority with
        deviceGrants := r.authority.deviceGrants.set proof.deviceKey id
        inherited := r.authority.inherited.set proof.deviceKey (id, e.id)
        originals := r.authority.originals ++ [proof] }
  | applied {s owner control previousControl d₀ d} (hprior : r.prior = some s)
      (h : r.authority.Applies e (r.legacyContext s owner) graph control previousControl d₀ d) :
      Effect r e graph (r.authority.applied e control previousControl
        (r.legacyContext s owner) graph d)

/-- **What an event can make of the account authority.** -/
theorem Moved.effect {a'} (h : Moved r e graph a') : Effect r e graph a' := by
  cases h with
  | kept => exact .kept
  | applied _ hprior _ h =>
    obtain ⟨-, -, rfl⟩ | ⟨_, _, _, _, ha, -, rfl⟩ := AccountAuthority.apply_cases h
    · exact .kept
    · exact .applied hprior ha
  | accepted hkind _ _ _ h =>
    obtain ⟨-, rfl | ⟨g, id, hg, hid, hpending, ⟨hact, rfl⟩ | ⟨hact, hepoch, rfl⟩⟩⟩ :=
      AccountAuthority.acceptAccount_cases h
    · exact .kept
    · exact .observed id hkind hact
    · exact .activated hkind hg hid hpending hact hepoch
  | left hkind _ _ _ h =>
    unfold leaveAction at h
    split_ifs at h
    · obtain ⟨g, id, hg, hpending, hid, howner, hepoch, rfl⟩ :=
        AccountAuthority.declineAccount_cases h
      exact .declined hkind hg hid hpending howner hepoch
    · obtain ⟨-, rfl | ⟨g, id, hg, hid, howner, hepoch, rfl⟩⟩ :=
        AccountAuthority.leaveAccount_cases h
      · exact .kept
      · exact .left hkind hg hid howner hepoch
    · obtain ⟨-, account, g, id, hg, hid, hclosed, howner, rfl⟩ :=
        AccountAuthority.replayLeave_cases h
      exact .replayed hkind hg hid hclosed howner
  | inherited hkind h =>
    obtain ⟨authority, id, proof, hin, ⟨-, -, rfl⟩ | ⟨hnew, -, rfl⟩⟩ :=
      AccountAuthority.inheritDevice_cases h
    · exact .kept
    · exact .inherited hkind hin hnew

theorem Effect.fixed {a'} (h : Effect r e graph a') : a'.fixed = r.authority.fixed := by
  cases h with
  | applied => exact AccountAuthority.applied_fixed
  | _ => rfl

end MembershipReducer

end Effects

end MeshTalk.Channel
