import MeshTalk.Channel.Reducer

/-! # Channels before accounts

The reduction of a channel in which no snapshot of account grants is ever readable: the account
authority stays empty, and membership is what the owner's snapshots, the transfers and the members'
own leaves and acceptances make it. -/

namespace MeshTalk.Channel

open Lib MembershipReducer AccountAuthority ChannelState List Option

section Governance

variable [Wire] [Sha256] [EventCrypto]

/-- The event carries no snapshot of account grants that can be read. -/
def NoProof (e : Event) : Prop :=
  e.kind = .channelAccountAuthority → AccountAuthorityControl.decode e.ciphertext = none

/-! ### The empty authority -/

omit [Wire] [Sha256] [EventCrypto] in
@[simp] theorem AccountAuthority.history_noteDeparture (a : AccountAuthority) (d) :
    (a.noteDeparture d).history = a.history := by
  cases d <;> rfl

/-- No snapshot of account grants has been applied. -/
structure AccountAuthority.Unused (a : AccountAuthority) : Prop where
  current : a.current = none
  owner : a.owner = none
  grants : a.grants = ∅
  cohorts : a.initialLegacy = ∅
  controls : ∀ e, a.knownControl e = false

namespace AccountAuthority.Unused

variable {a : AccountAuthority} (h : a.Unused)
include h

omit [Wire] [Sha256] [EventCrypto] in
theorem accountGrant (account) : a.accountGrant account = none := by
  unfold AccountAuthority.accountGrant
  rw [h.grants]
  rfl

omit [Wire] [Sha256] [EventCrypto] in
theorem legacyDepartureAccount (e) : a.legacyDepartureAccount e = none := by
  unfold AccountAuthority.legacyDepartureAccount
  rw [h.cohorts]
  cases a.legacyCandidate e <;> rfl

theorem inheritDevice (e graph) : ∃ err, a.inheritDevice e graph = .error err := by
  unfold AccountAuthority.inheritDevice
  cases hs : DeviceControl.signedInheritance e with
  | none => exact ⟨_, rfl⟩
  | some p =>
    obtain ⟨authority, id, proof⟩ := p
    refine ⟨.stale, ?_⟩
    show (ensure _ _ >>= _) = _
    rw [ensure_of_not _ (by simp [h.accountGrant]), error_bind]

theorem apply {e} (he : NoProof e) (legacy graph) : ∃ err, a.apply e legacy graph = .error err := by
  unfold AccountAuthority.apply
  by_cases hc : e.kind = .channelAccountAuthority ∧ e.conversationId = legacy.channel ∧
      a.channel.all (fun c => c = legacy.channel) = true ∧ validEvent e = true
  · refine ⟨.unsupported, ?_⟩
    rw [ensure_of _ hc, ok_bind, h.controls]
    simp only [Bool.false_eq_true, if_false]
    have hdecode : a.checkControl e legacy graph = .error .unsupported := by
      unfold AccountAuthority.checkControl
      rw [he hc.1]
      rfl
    rw [hdecode, error_bind]
  · exact ⟨.invalid, by rw [ensure_of_not _ hc, error_bind]⟩

omit [Wire] [Sha256] [EventCrypto] in
theorem noteDeparture (d) : (a.noteDeparture d).Unused := by
  cases d with
  | none => exact h
  | some d => exact ⟨h.current, h.owner, h.grants, h.cohorts, h.controls⟩

omit [Wire] [Sha256] [EventCrypto] in
theorem prepareLegacyMembers (members enabled) :
    (a.prepareLegacyMembers members enabled).Unused := by
  unfold AccountAuthority.prepareLegacyMembers
  split
  · exact h
  · exact ⟨h.current, h.owner, h.grants, h.cohorts, h.controls⟩

end AccountAuthority.Unused

/-! ### Steps before accounts -/

namespace MembershipReducer

/-- The members a snapshot keeps, without those it does not know to have left. -/
def retained (r : MembershipReducer) (e : Event) (graph : AuthorityGraph) (snapshot : ChannelMeta) :
    List PublicIdentity :=
  snapshot.members.filter fun m => !r.blocked e graph m

structure Legacy (r : MembershipReducer) : Prop where
  authority : r.authority.Unused
  accounts : r.departureAccounts = ∅
  state : ∀ s, r.prior = some s → s.accountOwner = none

/-- All that an event can do to the state and the departures of such a channel. -/
inductive Change (r : MembershipReducer) (e : Event) (graph : AuthorityGraph) :
    Option ChannelState → List (String × EventId) → Prop
  | unchanged : Change r e graph r.prior r.departures
  | founded {snapshot} (hprior : r.prior = none) (hkind : e.kind = .membershipChange)
      (hroot : e.parents = [])
      (hread : ChannelMeta.decode e.ciphertext = some snapshot) (howner : e.userId = snapshot.owner)
      (hmember : ∃ m ∈ r.retained e graph snapshot, m.userId = e.userId) : Change r e graph
        (some (r.foundChannel e { snapshot with members := r.retained e graph snapshot }))
        r.departures
  | snapshot {s snapshot} (hprior : r.prior = some s) (hkind : e.kind = .membershipChange)
      (hread : ChannelMeta.decode e.ciphertext = some snapshot)
        (hadmin : s.canAdmin e.userId = true) :
      Change r e graph (some (applySnapshot s e snapshot (r.retained e graph snapshot)))
        r.departures
  | renamed {s name} (hprior : r.prior = some s) (hkind : e.kind = .channelRename)
      (hadmin : s.canAdmin e.userId = true) :
      Change r e graph (some (s.applyRename name e.lamport e.id)) r.departures
  | dissolved {s} (hprior : r.prior = some s) (hkind : e.kind = .channelDissolve)
      (hadmin : s.canAdmin e.userId = true) : Change r e graph (some s.dissolve) r.departures
  | accepted {s} (hprior : r.prior = some s) (hkind : e.kind = .channelAccept) :
      Change r e graph (some (s.acceptInvite e.userId e.id)) r.departures
  | transferred {s next} (hprior : r.prior = some s) (hkind : e.kind = .channelOwnerTransfer)
      (hadmin : s.canAdmin e.userId = true) (hnext : (s.transferOwner next).1 = true) :
      Change r e graph (some (s.transferOwner next).2) r.departures
  | left {s} (hprior : r.prior = some s) (hkind : e.kind = .channelLeave)
      (hleave : (s.leaveMember e.userId).1 = true) :
      Change r e graph (some (s.leaveMember e.userId).2) (r.departures ++ [(e.userId, e.id)])

structure Decided (r : MembershipReducer) (e : Event) (graph : AuthorityGraph) (v : Verdict) :
    Prop where
  departure : v.departure = none
  frame : v.reducer = { r with
    prior := v.reducer.prior
    ownership := v.reducer.ownership
    departures := v.reducer.departures }
  change : Change r e graph v.reducer.prior v.reducer.departures

variable {r : MembershipReducer} {e : Event} {graph : AuthorityGraph}

section
omit [EventCrypto]

theorem Decided.unchanged (b) : Decided r e graph ⟨b, r, none⟩ :=
  ⟨rfl, rfl, .unchanged⟩

section

variable {v} (hv : Decided r e graph v)
include hv

theorem Decided.authority : v.reducer.authority = r.authority := by
  rw [hv.frame]

theorem Decided.accounts :
    v.reducer.departureAccounts = r.departureAccounts := by
  rw [hv.frame]

theorem Decided.authorized : v.reducer.authorized = r.authorized := by
  rw [hv.frame]

theorem Decided.history : v.reducer.history = r.history := by
  rw [hv.frame]

end

theorem decided_membershipChange (hk : e.kind = .membershipChange) {v}
    (hv : r.decideMembershipChange e graph = some v) : Decided r e graph v := by
  unfold decideMembershipChange at hv
  split at hv
  · cases hv
  · rename_i snapshot hread
    dsimp only at hv
    split at hv
    · rename_i s hs
      split_ifs at hv with hadmin
      cases hv
      exact ⟨rfl, rfl, .snapshot hs hk hread hadmin⟩
    · rename_i hs
      split_ifs at hv with hroot
      · cases hv
        obtain ⟨hparents, howner, hmember⟩ := hroot
        exact ⟨rfl, rfl, .founded hs hk hparents hread howner (by
            simpa [ChannelMeta.isMember, retained, and_assoc] using hmember)⟩
      · cases hv
        exact .unchanged false

theorem decided_rename (hk : e.kind = .channelRename) : Decided r e graph (r.decideRename e) := by
  unfold decideRename
  split
  · rename_i s name hs _
    split_ifs with hadmin
    · exact ⟨rfl, rfl, .renamed hs hk hadmin⟩
    · exact .unchanged false
  · exact .unchanged false

theorem decided_dissolve (hk : e.kind = .channelDissolve) :
    Decided r e graph (r.decideDissolve e) := by
  unfold decideDissolve
  split
  · rename_i s hs
    split_ifs with hadmin
    · exact ⟨rfl, rfl, .dissolved hs hk hadmin.2⟩
    · exact .unchanged false
  · exact .unchanged false

end

theorem decided_accept (hc : r.authority.current = none) (hk : e.kind = .channelAccept) :
    Decided r e graph (r.decideAccept e graph) := by
  unfold decideAccept
  rw [hc]
  simp only [isSome_none, Bool.false_eq_true, if_false]
  split
  · rename_i s hs
    split_ifs
    · exact ⟨rfl, rfl, .accepted hs hk⟩
    · exact .unchanged false
  · exact .unchanged false

omit [EventCrypto] in
theorem decided_transfer (hk : e.kind = .channelOwnerTransfer) {v}
    (hv : r.decideOwnerTransfer e = some v) : Decided r e graph v := by
  unfold decideOwnerTransfer at hv
  split_ifs at hv
  split at hv
  · rename_i s next hs _
    split_ifs at hv with hadmin hnext
    · cases hv
      exact ⟨rfl, rfl, .transferred hs hk hadmin hnext⟩
    · cases hv
      exact .unchanged false
    · cases hv
      exact .unchanged false
  · cases hv
    exact .unchanged false

theorem decided_leave (hc : r.authority.current = none) (hk : e.kind = .channelLeave) (d) :
    Decided r e graph (r.decideLeave e graph d) := by
  unfold decideLeave
  rw [hc]
  simp only [isSome_none, Bool.false_eq_true, if_false]
  split
  · rename_i s hs
    split_ifs with hleave
    · exact ⟨rfl, rfl, .left hs hk hleave.2⟩
    · exact .unchanged false
  · exact .unchanged false

theorem Legacy.decided_accountAuthority (h : r.Legacy) (hp : r.prior ≠ none → NoProof e) :
    Decided r e graph (r.decideAccountAuthority e graph) := by
  unfold decideAccountAuthority
  split
  · rename_i s hs
    dsimp only
    split
    · obtain ⟨err, herr⟩ := h.authority.apply (hp (by simp [hs])) (r.legacyContext s _) graph
      rw [herr]
      exact .unchanged false
    · exact .unchanged false
  · exact .unchanged false

theorem Legacy.decided_deviceInheritance (h : r.Legacy) :
    Decided r e graph (r.decideDeviceInheritance e graph) := by
  unfold decideDeviceInheritance
  obtain ⟨err, herr⟩ := h.authority.inheritDevice e graph
  rw [herr]
  split
  · rename_i heq
    cases heq
  · split
    · exact .unchanged _
    · exact .unchanged false

/-- **The decision on an event**, if accounts do not govern the channel. -/
theorem Legacy.decided (h : r.Legacy) (hp : r.prior ≠ none → NoProof e) (d) {v}
    (hv : r.decideKind e graph d = some v) : Decided r e graph v := by
  unfold decideKind at hv
  split at hv
  · exact decided_membershipChange ‹_› hv
  · exact some.inj hv ▸ decided_rename ‹_›
  · exact some.inj hv ▸ decided_dissolve ‹_›
  · exact some.inj hv ▸ decided_accept h.authority.current ‹_›
  · exact decided_transfer ‹_› hv
  · exact some.inj hv ▸ decided_leave h.authority.current ‹_› d
  · exact some.inj hv ▸ h.decided_accountAuthority hp
  · exact some.inj hv ▸ h.decided_deviceInheritance
  · exact some.inj hv ▸ .unchanged _

/-! ### The end of a step -/

omit [Wire] in
theorem installProjection_of_unused (h : r.authority.Unused) : r.installProjection = r := by
  unfold installProjection ownerAccountId
  rw [h.owner]
  split
  · rename_i heq _
    cases heq
  · rfl

omit [Wire] [Sha256] [EventCrypto] in
theorem departedAccounts_of_unused (h : r.authority.Unused) :
    r.departedAccounts = r.departureAccounts := by
  unfold departedAccounts
  induction r.departures with
  | nil => rfl
  | cons d ds ih =>
    rw [foldl_cons, h.legacyDepartureAccount]
    exact ih

omit [Wire] [Sha256] [EventCrypto] in
theorem settleDepartures_of_unused (h : r.authority.Unused) (ha : r.departureAccounts = ∅) :
    r.settleDepartures = r := by
  unfold settleDepartures
  rw [departedAccounts_of_unused h, ha]
  simp only [Table.rows_empty, filter_nil, map_nil, not_mem_nil, not_false_eq_true,
    decide_true, filter_true]
  rw [show ((∅ : Table String PubKey).filter fun _ => true) = r.departureAccounts from ha.symm]

section
omit [Wire] [EventCrypto]

theorem updateRoots_frame (old was) :
    ∃ roots, r.updateRoots e old was = { r with roots := roots } := by
  unfold updateRoots
  split
  · exact ⟨r.roots, rfl⟩
  · exact ⟨_, rfl⟩

/-! ### The state after a change -/

theorem roster_foundChannel (snapshot) : (r.foundChannel e snapshot).roster =
    (snapshot.members, snapshot.owner, none, false) := by
  unfold foundChannel
  split_ifs
  · rw [foldl_keeps roster _ fun s c => s.roster_markInvited c]
    rfl
  · rfl

theorem roster_applySnapshot (s snapshot members) :
    (applySnapshot s e snapshot members).roster = s.roster ∨
      (applySnapshot s e snapshot members).roster =
        (members, s.owner, s.accountOwner, s.dissolved) := by
  unfold applySnapshot
  rw [foldl_keeps roster _ fun s c => by split_ifs <;> simp]
  split_ifs
  · exact s.roster_applyMeta _ true
  · exact s.roster_applyMeta _ false

end

section
omit [EventCrypto]

variable {prior : Option ChannelState} {departures : List (String × EventId)} {s s' : ChannelState}

section

variable (hc : Change r e graph prior departures)
include hc

theorem Change.of_none (hr : r.prior = none)
    (hs' : prior = some s') : ∃ snapshot, e.kind = .membershipChange ∧ e.parents = [] ∧
      ChannelMeta.decode e.ciphertext = some snapshot ∧ e.userId = snapshot.owner ∧
      (∃ m ∈ r.retained e graph snapshot, m.userId = e.userId) ∧
      s'.roster = (r.retained e graph snapshot, snapshot.owner, none, false) := by
  cases hc with
  | unchanged => simp [hr] at hs'
  | founded _ hkind hroot hread howner hmember =>
    cases hs'
    exact ⟨_, hkind, hroot, hread, howner, hmember, roster_foundChannel _⟩
  | _ => simp_all

theorem Change.kept (hs : r.prior = some s) : ∃ s', prior = some s' := by
  cases hc with
  | unchanged => exact ⟨s, hs⟩
  | _ => exact ⟨_, rfl⟩

/-- The account of the owner stays, and so does the owner, but for a transfer. -/
theorem Change.owner_kept (hs : r.prior = some s)
    (hs' : prior = some s') : s'.accountOwner = s.accountOwner ∧ (s'.owner = s.owner ∨
      e.kind = .channelOwnerTransfer ∧ s.canAdmin e.userId = true ∧
        s.isAcceptedMember s'.owner = true) := by
  have hsame (hr : s'.roster = s.roster) : s'.accountOwner = s.accountOwner ∧ (s'.owner = s.owner ∨
      e.kind = .channelOwnerTransfer ∧ s.canAdmin e.userId = true ∧
        s.isAcceptedMember s'.owner = true) := by
    obtain ⟨-, howner, haccount, -⟩ := roster_eq_iff.mp hr
    exact ⟨haccount, .inl howner⟩
  cases hc with
  | unchanged =>
    obtain rfl := mem_unique hs hs'
    exact hsame rfl
  | founded hprior => simp [hs] at hprior
  | snapshot hprior =>
    obtain rfl := mem_unique hs hprior
    cases hs'
    rcases roster_applySnapshot _ _ _ with hr | hr
    · exact hsame hr
    · exact ⟨congrArg (·.2.2.1) hr, .inl (congrArg (·.2.1) hr)⟩
  | renamed hprior =>
    obtain rfl := mem_unique hs hprior
    cases hs'
    exact hsame (roster_applyRename _ _ _ _)
  | dissolved hprior =>
    obtain rfl := mem_unique hs hprior
    cases hs'
    exact ⟨rfl, .inl rfl⟩
  | accepted hprior =>
    obtain rfl := mem_unique hs hprior
    cases hs'
    exact hsame (roster_acceptInvite _ _ _)
  | transferred hprior hkind hadmin hnext =>
    obtain rfl := mem_unique hs hprior
    cases hs'
    obtain ⟨hacc, heq⟩ := transferOwner_cases hnext
    rw [heq]
    exact ⟨rfl, .inr ⟨hkind, hadmin, hacc⟩⟩
  | left hprior _ hleave =>
    obtain rfl := mem_unique hs hprior
    cases hs'
    rw [(leaveMember_cases hleave).2.2]
    exact ⟨rfl, .inl rfl⟩

end

theorem Change.accountOwner (h : ∀ s, r.prior = some s → s.accountOwner = none)
    (hc : Change r e graph prior departures) (s') (hs' : prior = some s') :
    s'.accountOwner = none := by
  cases hr : r.prior with
  | none =>
    obtain ⟨snapshot, -, -, -, -, -, hroster⟩ := hc.of_none hr hs'
    exact congrArg (·.2.2.1) hroster
  | some s => exact (hc.owner_kept hr hs').1.trans (h s hr)

end

/-- What a step leaves behind in such a channel. -/
structure Stepped (r : MembershipReducer) (e : Event) (graph : AuthorityGraph) (closed : Bool)
    (r' : MembershipReducer) : Prop where
  legacy : r'.Legacy
  history : r'.history = r.history
  facts : r'.authority.history = r.authority.history
  change : Change r e graph r'.prior r'.departures
  parents : closed = true → r.parentsAuthorized e = true
  authorized : r'.authorized = if closed then insert e.id r.authorized else r.authorized

section

variable (h : r.Legacy)
include h

omit [Wire] [Sha256] [EventCrypto] in
theorem Legacy.close (d) : r.close e d none = { r with
    authorized := insert e.id r.authorized
    authority := r.authority.noteDeparture d } :=
  settleDepartures_of_unused (h.authority.noteDeparture d) h.accounts

theorem Legacy.stepped_finish {v} (hv : Decided r e graph v) :
    Stepped r e graph (finishStep r e v).1 (finishStep r e v).2 := by
  have hv' : v.reducer.Legacy :=
    ⟨hv.authority ▸ h.authority, hv.accounts.trans h.accounts, hv.change.accountOwner h.state⟩
  have hparents : v.reducer.parentsAuthorized e = r.parentsAuthorized e := by
    rw [hv.frame]
    rfl
  -- the reducer after closing, with an authority that is still empty
  obtain ⟨r₁, hr₁, hlegacy, hprior, hdep, hhist, hfacts, hauth⟩ : ∃ r₁ : MembershipReducer,
      r₁ = (if (finishStep r e v).1 then v.reducer.close e (r.departureOf e) v.departure
        else v.reducer) ∧
      r₁.Legacy ∧ r₁.prior = v.reducer.prior ∧ r₁.departures = v.reducer.departures ∧
      r₁.history = r.history ∧ r₁.authority.history = r.authority.history ∧
      r₁.authorized = if (finishStep r e v).1 then insert e.id r.authorized else r.authorized := by
    refine ⟨_, rfl, ?_⟩
    split_ifs
    · rw [hv.departure, hv'.close]
      exact ⟨⟨hv'.authority.noteDeparture _, hv'.accounts, hv'.state⟩, rfl, rfl, hv.history,
        by rw [history_noteDeparture, hv.authority], by rw [← hv.authorized]⟩
    · exact ⟨hv', rfl, rfl, hv.history, by rw [hv.authority], hv.authorized⟩
  obtain ⟨roots, hroots⟩ := updateRoots_frame (r := r₁) (e := e) r.memberIds (r.isAccepted e.userId)
  have hend : (finishStep r e v).2 = { r₁ with roots := roots } := by
    unfold MembershipReducer.finishStep at hr₁ ⊢
    dsimp only at hr₁ ⊢
    rw [← hr₁, hroots]
    split_ifs
    · exact installProjection_of_unused hlegacy.authority
    · rfl
  rw [hend]
  exact
    { legacy := ⟨hlegacy.authority, hlegacy.accounts, hlegacy.state⟩
      history := hhist
      facts := hfacts
      change := by
        have := hv.change
        rw [← hprior, ← hdep] at this
        exact this
      parents := fun hc => by
        rw [← hparents]
        exact (Bool.and_eq_true_iff.mp hc).2
      authorized := hauth }

omit [Wire] [Sha256] [EventCrypto] in
theorem Legacy.prepared : r.prepared.Legacy :=
  ⟨h.authority.prepareLegacyMembers _ _, h.accounts, h.state⟩

omit [EventCrypto] in
theorem Legacy.stepped_unchanged : Stepped r e graph false r :=
  ⟨h, rfl, rfl, .unchanged, fun hc => absurd hc (by simp), rfl⟩

/-- **A step** of a channel that accounts do not govern. -/
theorem Legacy.stepped (hp : r.prior ≠ none → NoProof e) (graph) :
    Stepped r.prepared e graph (r.step e graph).1 (r.step e graph).2 := by
  unfold step
  dsimp only
  split_ifs
  · exact h.prepared.stepped_unchanged
  · split
    · exact h.prepared.stepped_unchanged
    · rename_i v hv
      exact h.prepared.stepped_finish (h.prepared.decided hp _ hv)

end

/-! ### Pure reductions -/

omit [Wire] [Sha256] [EventCrypto] in
theorem prepared_of_pure (h : r.authority.history = none) : r.prepared = r := by
  unfold MembershipReducer.prepared prepareLegacyMembers
  rw [h]

/-- The reducer keeps everything in memory, and accounts do not govern the channel. -/
structure PureLegacy (r : MembershipReducer) : Prop where
  legacy : r.Legacy
  history : r.history = none
  facts : r.authority.history = none

theorem PureLegacy.stepped (h : r.PureLegacy) (hp : r.prior ≠ none → NoProof e) (graph) :
    Stepped r e graph (r.step e graph).1 (r.step e graph).2 := by
  have := h.legacy.stepped hp graph
  rwa [prepared_of_pure h.facts] at this

theorem PureLegacy.step (h : r.PureLegacy) (hp : NoProof e) (graph) :
    (r.step e graph).2.PureLegacy := by
  have hs := h.stepped (fun _ => hp) graph
  exact ⟨hs.legacy, hs.history.trans h.history, hs.facts.trans h.facts⟩

theorem PureLegacy.run (graph) : ∀ {es : List Event} {r : MembershipReducer},
    r.PureLegacy → (∀ e ∈ es, NoProof e) → (r.run graph es).PureLegacy
  | [], _, h, _ => h
  | e :: _, _, h, hp =>
    (h.step (hp e mem_cons_self) graph).run graph fun x hx => hp x (mem_cons_of_mem _ hx)

theorem step_of_dissolved (h : r.authority.history = none) {s} (hs : r.prior = some s)
    (hd : s.dissolved = true) : r.step e graph = (false, r) := by
  unfold MembershipReducer.step
  rw [prepared_of_pure h]
  simp [hs, hd]

/-- Who may change what in a channel, by one event. -/
structure Governed (r : MembershipReducer) (e : Event) (r' : MembershipReducer) : Prop where
  /-- A channel comes to be by a root snapshot of the owner it names, who is in it. -/
  founded : r.prior = none → ∀ s', r'.prior = some s' →
    e.kind = .membershipChange ∧ e.parents = [] ∧ s'.owner = e.userId ∧
      s'.isMember e.userId = true ∧
      ∃ snapshot, ChannelMeta.decode e.ciphertext = some snapshot ∧ snapshot.owner = e.userId ∧
        snapshot.isMember e.userId = true
  /-- It does not cease to be. -/
  kept : ∀ s, r.prior = some s → ∃ s', r'.prior = some s'
  /-- The owner changes by a transfer of the owner to a member that has joined. -/
  owner : ∀ s s', r.prior = some s → r'.prior = some s' → s'.owner ≠ s.owner →
    e.kind = .channelOwnerTransfer ∧ e.userId = s.owner ∧ s.isAcceptedMember s'.owner = true
  /-- Members, name and end change by events of the owner, and by a member's own leave or
  acceptance. -/
  roles : ∀ s s', r.prior = some s → r'.prior = some s' →
    (s'.members = s.members ∧ s'.acceptedMembers = s.acceptedMembers ∧ s'.name = s.name ∧
      s'.dissolved = s.dissolved) ∨
    e.userId = s.owner ∨
    (e.kind = .channelLeave ∧ s'.members = s.members.filter (fun p => p.userId ≠ e.userId) ∧
      s'.acceptedMembers = s.acceptedMembers.erase e.userId ∧ s'.name = s.name ∧
      s'.dissolved = s.dissolved) ∨
    (e.kind = .channelAccept ∧ s.isMember e.userId = true ∧ s'.members = s.members ∧
      s'.acceptedMembers = insert e.userId s.acceptedMembers ∧ s'.name = s.name ∧
      s'.dissolved = s.dissolved)
  /-- Nothing changes once the channel has ended. -/
  ended : ∀ s, r.prior = some s → s.dissolved = true → r' = r

omit [Wire] [EventCrypto] in
theorem Legacy.admin (h : r.Legacy) {s} (hs : r.prior = some s)
    (hadmin : s.canAdmin e.userId = true) :
    e.userId = s.owner :=
  ((canAdmin_of_legacy (h.state s hs)).mp hadmin).2.symm

/-- **A step is governed.** -/
theorem PureLegacy.governed (h : r.PureLegacy) (hp : NoProof e) (graph) :
    Governed r e (r.step e graph).2 := by
  have hc := (h.stepped (fun _ => hp) graph).change
  refine ⟨fun hr s' hs' => ?_, fun s hs => hc.kept hs, fun s s' hs hs' hne => ?_,
    fun s s' hs hs' => ?_, fun s hs hd => by rw [step_of_dissolved h.facts hs hd]⟩
  · obtain ⟨snapshot, hkind, hroot, hread, howner, ⟨m, hm, hid⟩, hroster⟩ := hc.of_none hr hs'
    have hmembers : s'.members = r.retained e graph snapshot := congrArg (·.1) hroster
    refine ⟨hkind, hroot, (congrArg (·.2.1) hroster).trans howner.symm, ?_, snapshot, hread,
      howner.symm, ?_⟩
    · exact isMember_iff.mpr ⟨m, by rw [hmembers]; exact hm, hid⟩
    · exact any_eq_true.mpr ⟨m, (mem_filter.mp hm).1, by simp [hid]⟩
  · obtain ⟨-, howner | ⟨hkind, hadmin, hacc⟩⟩ := hc.owner_kept hs hs'
    · exact absurd howner hne
    · exact ⟨hkind, h.legacy.admin hs hadmin, hacc⟩
  · generalize (r.step e graph).2.prior = prior, (r.step e graph).2.departures =
      departures at hc hs'
    cases hc with
    | unchanged =>
      obtain rfl := mem_unique hs hs'
      exact .inl ⟨rfl, rfl, rfl, rfl⟩
    | founded hprior => simp [hs] at hprior
    | snapshot hprior _ _ hadmin =>
      obtain rfl := mem_unique hs hprior
      exact .inr (.inl (h.legacy.admin hs hadmin))
    | renamed hprior _ hadmin =>
      obtain rfl := mem_unique hs hprior
      exact .inr (.inl (h.legacy.admin hs hadmin))
    | dissolved hprior _ hadmin =>
      obtain rfl := mem_unique hs hprior
      exact .inr (.inl (h.legacy.admin hs hadmin))
    | transferred hprior _ hadmin =>
      obtain rfl := mem_unique hs hprior
      exact .inr (.inl (h.legacy.admin hs hadmin))
    | accepted hprior hkind =>
      obtain rfl := mem_unique hs hprior
      cases hs'
      obtain ⟨hm, -, -, hd⟩ := roster_eq_iff.mp (s.roster_acceptInvite e.userId e.id)
      have hname := congrArg Prod.fst (s.naming_acceptInvite e.userId e.id)
      have hacc := s.acceptedMembers_acceptInvite e.userId e.id
      by_cases hmem : s.isMember e.userId = true
      · rw [if_pos hmem] at hacc
        exact .inr (.inr (.inr ⟨hkind, hmem, hm, hacc, hname, hd⟩))
      · rw [if_neg hmem] at hacc
        exact .inl ⟨hm, hacc, hname, hd⟩
    | left hprior hkind hleave =>
      obtain rfl := mem_unique hs hprior
      cases hs'
      rw [(leaveMember_cases hleave).2.2]
      exact .inr (.inr (.inl ⟨hkind, rfl, rfl, rfl, rfl⟩))

def AuthorizedBy (done : List Event) (r : MembershipReducer) : Prop :=
  ∀ id ∈ r.authorized, ∃ x ∈ done, x.id = id ∧ ∀ p ∈ x.parents, p ∈ r.authorized

theorem PureLegacy.authorizedBy_step (h : r.PureLegacy) (hp : NoProof e) (graph) {done}
    (ha : AuthorizedBy done r) : AuthorizedBy (done ++ [e]) (r.step e graph).2 := by
  have hs := h.stepped (fun _ => hp) graph
  intro id hid
  have hold (hmem : id ∈ r.authorized) : ∃ x ∈ done ++ [e], x.id = id ∧
      ∀ p ∈ x.parents, p ∈ (r.step e graph).2.authorized := by
    obtain ⟨x, hx, hxid, hparents⟩ := ha id hmem
    refine ⟨x, mem_append_left _ hx, hxid, fun p hpx => ?_⟩
    rw [hs.authorized]
    split_ifs
    · exact Finset.mem_insert_of_mem (hparents p hpx)
    · exact hparents p hpx
  cases hc : (r.step e graph).1 with
  | false =>
    rw [hs.authorized, hc] at hid
    exact hold hid
  | true =>
    rw [hs.authorized, hc] at hid
    rcases Finset.mem_insert.mp hid with rfl | hid
    · refine ⟨e, by simp, rfl, fun p hpx => ?_⟩
      have hparents := hs.parents hc
      unfold parentsAuthorized at hparents
      rw [h.history] at hparents
      rw [hs.authorized, hc]
      exact Finset.mem_insert_of_mem (by simpa using all_eq_true.mp hparents p hpx)
    · exact hold hid

end MembershipReducer

/-! ### Reductions in canonical order -/

section Canonical

variable {channel : ConversationId} {events : List Event}

theorem startReducer_pureLegacy (ordered m) : (startReducer channel ordered m).PureLegacy := by
  have hunused (a : AccountAuthority) (h : a = { ({} : AccountAuthority) with
      legacyCandidates := a.legacyCandidates }) : a.Unused := by
    rw [h]
    exact ⟨rfl, rfl, rfl, rfl, fun e => by simp [knownControl]⟩
  unfold startReducer
  split_ifs
  · exact ⟨⟨hunused _ rfl, rfl, nofun⟩, rfl, rfl⟩
  · exact ⟨⟨hunused _ rfl, rfl, nofun⟩, rfl, rfl⟩

theorem startReducer_frame (ordered m) :
    (startReducer channel ordered m).prior = none ∧ (startReducer channel ordered m).authorized =
      ∅ ∧ (startReducer channel ordered m).departures = [] := by
  unfold startReducer
  split_ifs <;> exact ⟨rfl, rfl, rfl⟩

theorem reduceFirst_pureLegacy (hp : ∀ e ∈ events, NoProof e) (n) :
    (reduceFirst channel events n).PureLegacy :=
  (startReducer_pureLegacy _ _).run _ fun e he =>
    hp e (mem_orderedEvents (mem_of_mem_take he)).2

theorem reduceFirst_authorizedBy (channel) (hp : ∀ e ∈ events, NoProof e) (n) :
    AuthorizedBy ((orderedEvents events).take n) (reduceFirst channel events n) := by
  induction n with
  | zero =>
    intro id hid
    have h0 : id ∈ (startReducer channel (orderedEvents events) (byId events)).authorized := hid
    rw [(startReducer_frame _ _).2.1] at h0
    exact absurd h0 (Finset.notMem_empty _)
  | succ n ih =>
    cases he : (orderedEvents events)[n]? with
    | none =>
      have hlen := getElem?_eq_none_iff.mp he
      have hsame : (orderedEvents events).take (n + 1) = (orderedEvents events).take n := by
        rw [take_of_length_le (by omega), take_of_length_le hlen]
      unfold reduceFirst at ih ⊢
      rwa [hsame]
    | some e =>
      rw [reduceFirst_succ he, take_add_one, he]
      exact (reduceFirst_pureLegacy hp n).authorizedBy_step
        (hp e (mem_orderedEvents (mem_of_getElem? he)).2) _ ih

/-- **Authorization before accounts.** For any events of a channel none of which carries a snapshot
of account grants that can be read, and every step of their reduction in canonical order: the step
is governed, and the authorized events are closed under parents. At the start there is no
channel. -/
theorem reduceFirst_governed (channel : ConversationId) (events : List Event)
    (hp : ∀ e ∈ events, NoProof e) :
    (reduceFirst channel events 0).prior = none ∧
    ∀ n e, (orderedEvents events)[n]? = some e →
      Governed (reduceFirst channel events n) e (reduceFirst channel events (n + 1)) ∧
      ∀ x ∈ orderedEvents events, x.id ∈ (reduceFirst channel events (n + 1)).authorized →
        ∀ p ∈ x.parents, p ∈ (reduceFirst channel events (n + 1)).authorized := by
  refine ⟨(startReducer_frame _ _).1, fun n e he => ⟨?_, fun x hx hid => ?_⟩⟩
  · rw [reduceFirst_succ he]
    exact (reduceFirst_pureLegacy hp n).governed
      (hp e (mem_orderedEvents (List.mem_of_getElem? he)).2) _
  · obtain ⟨y, hy, hyid, hparents⟩ := reduceFirst_authorizedBy channel hp (n + 1) x.id hid
    -- one event of each id is reduced
    have hxy : some x = some y := by
      rw [← (mem_orderedEvents hx).1, ← (mem_orderedEvents (List.mem_of_mem_take hy)).1, hyid]
    exact Option.some.inj hxy ▸ hparents

end Canonical

end Governance

/-! ### A sample channel -/

@[reducible] def sampleDigest : Sha256 where
  digest bs := BitVec.ofNat 256 ((bs.getLastD 0).toNat * 2 ^ 248)

@[reducible] def sampleSigner : EventCrypto where
  hashContent c := ⟨BitVec.ofNat 256 c.seq⟩
  verify _ _ _ := true

def sampleDevice (k : ℕ) : PublicIdentity := ⟨BitVec.ofNat 256 k, BitVec.ofNat 256 (100 + k)⟩

def sampleMeta [Sha256] (members : List ℕ) (epoch : ℕ) : ChannelMeta :=
  ⟨"lounge", members.map sampleDevice, epoch, (sampleDevice 1).userId⟩

/-- A snapshot is read as its epoch and the numbers of its devices; nothing else can be read. -/
@[reducible] def sampleWire [Sha256] : Wire where
  channelMeta := ⟨fun bs => match bs with
    | epoch :: members => .ok (sampleMeta (members.map UInt8.toNat) epoch.toNat)
    | [] => .error "io error: unexpected end of file"⟩
  authorityControl := ⟨fun _ => .error "io error: unexpected end of file"⟩
  serializeControl _ := []
  decline := ⟨fun _ => .error "io error: unexpected end of file"⟩
  deviceControl := ⟨fun _ => .error "io error: unexpected end of file"⟩
  accountRelease := ⟨fun _ => .error "io error: unexpected end of file"⟩
  historyControl := ⟨fun _ => .error "io error: unexpected end of file"⟩

def sampleEvent (id author : ℕ) (parents : List ℕ) (kind : EventKind) (payload : List UInt8) :
    Event where
  id := ⟨BitVec.ofNat 256 id⟩
  conversationId := ⟨7⟩
  author := ⟨BitVec.ofNat 256 author⟩
  seq := id
  parents := parents.map fun p => ⟨BitVec.ofNat 256 p⟩
  lamport := id
  wallClock := id
  kind := kind
  ciphertext := payload
  sig := List.replicate 64 0

/-- Device 1 founds a channel with device 2, which leaves, and is taken in again. -/
def sampleRejoin : List Event :=
  [sampleEvent 1 1 [] .membershipChange [1, 1, 2], sampleEvent 2 2 [1] .channelLeave [],
    sampleEvent 3 1 [2] .membershipChange [3, 1, 2]]

theorem sampleRejoin_noProof : letI := sampleDigest; letI := sampleWire
    ∀ e ∈ sampleRejoin, NoProof e := by
  intro e he hk
  simp only [sampleRejoin, mem_cons, not_mem_nil, or_false] at he
  rcases he with rfl | rfl | rfl <;> cases hk

theorem reduceFirst_governed_rejoin :
    letI := sampleDigest; letI := sampleWire; letI := sampleSigner
    (reduceFirst ⟨7⟩ sampleRejoin 0).prior = none ∧
    ∀ n e, (orderedEvents sampleRejoin)[n]? = some e →
      Governed (reduceFirst ⟨7⟩ sampleRejoin n) e (reduceFirst ⟨7⟩ sampleRejoin (n + 1)) ∧
      ∀ x ∈ orderedEvents sampleRejoin, x.id ∈ (reduceFirst ⟨7⟩ sampleRejoin (n + 1)).authorized →
        ∀ p ∈ x.parents, p ∈ (reduceFirst ⟨7⟩ sampleRejoin (n + 1)).authorized :=
  let := sampleDigest
  let := sampleWire
  let := sampleSigner
  reduceFirst_governed ⟨7⟩ sampleRejoin sampleRejoin_noProof

end MeshTalk.Channel
