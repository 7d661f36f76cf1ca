import MeshTalk.Channel.InMemory

/-! # Revocation is final, and ownership is guarded

In the reduction of any events of a channel, an incarnation of a grant that has been revoked, or
whose cohort has left, never counts again: no device becomes a member or is invited under it. The
owner account changes by a control of the owner only. -/

namespace MeshTalk.Channel

open Lib MembershipReducer Option List ChannelState

namespace AccountAuthority

variable {a a' : AccountAuthority} {id : AccountGrantId}

/-- The incarnation does not count any more: it is revoked, or its cohort has left. -/
def Removed (a : AccountAuthority) (id : AccountGrantId) : Prop :=
  a.revoked.has id = true ∨ a.cohortClosed id false = true

def Owns (a : AccountAuthority) (id : AccountGrantId) : Prop :=
  a.owner = some id.accountPub ∧ a.Granted id

theorem cohortClosed_eq_true {all} :
    a.cohortClosed id all = true ↔ ¬ a.Owns id ∧ a.cohortDeparted id all = true := by
  unfold cohortClosed Owns Granted
  simp only [Bool.and_eq_true, Bool.not_eq_eq_eq_not, Bool.not_true, Bool.and_eq_false_imp,
    decide_eq_true_eq, decide_eq_false_iff_not, bind_eq_some_iff, not_and]
  constructor
  · rintro ⟨h1, h2⟩
    exact ⟨fun ho => h1 ho.symm, h2⟩
  · rintro ⟨h1, h2⟩
    exact ⟨fun ho => h1 ho.symm, h2⟩

theorem cohortDeparted_mono (hinit : a'.initialLegacy = a.initialLegacy)
    (hseen : ∀ k, a.legacySeen.has k = true → a'.legacySeen.has k = true)
    (h : a.cohortDeparted id false = true) : a'.cohortDeparted id false = true := by
  unfold cohortDeparted at h ⊢
  rw [hinit]
  cases hc : a.initialLegacy.get id with
  | none =>
    rw [hc] at h
    cases h
  | some cohort =>
    rw [hc] at h
    simp only [Option.any_some, Bool.and_eq_true, List.all_eq_true, Bool.false_eq_true,
      if_false] at h ⊢
    exact ⟨h.1, fun m hm => hseen _ (h.2 m hm)⟩

theorem InMemory.departed_all (h : a.InMemory) (hd : a.cohortDeparted id false = true) :
    a.cohortDeparted id true = true := by
  unfold cohortDeparted at hd ⊢
  cases hc : a.initialLegacy.get id with
  | none =>
    rw [hc] at hd
    cases hd
  | some cohort =>
    rw [hc] at hd
    simp only [Option.any_some, Bool.and_eq_true, List.all_eq_true, Bool.false_eq_true, if_false,
      if_true, Bool.or_eq_true, List.any_eq_true, decide_eq_true_eq] at hd ⊢
    exact ⟨hd.1, fun m hm => .inr (h.seen _ (hd.2 m hm))⟩

theorem InMemory.current_of_departed (h : a.InMemory) (hd : a.cohortDeparted id false = true) :
    a.current ≠ none := by
  intro hc
  unfold cohortDeparted at hd
  rw [(h.unused hc).2.2.1] at hd
  cases hd

theorem removed_noteDeparture (d) (h : a.Removed id) : (a.noteDeparture d).Removed id := by
  cases d with
  | none => exact h
  | some d =>
    rcases h with h | h
    · exact .inl h
    · obtain ⟨howns, hd⟩ := cohortClosed_eq_true.mp h
      refine .inr (cohortClosed_eq_true.mpr
        ⟨howns, cohortDeparted_mono (a := a) rfl (fun k hk => ?_) hd⟩)
      show (a.legacySeen.upsert _ _ _).has k = true
      rw [Table.has_upsert, hk, Bool.or_true]

end AccountAuthority

namespace MembershipReducer

variable [Wire] [Sha256] [EventCrypto] {r r' : MembershipReducer} {e : Event}
  {graph : AuthorityGraph}
  {a' : AccountAuthority} {id : AccountGrantId}

open AccountAuthority

/-- The cohorts are fixed when the first control is applied. -/
theorem Effect.initialLegacy (he : Effect r e graph a') (hc : r.authority.current ≠ none) :
    a'.initialLegacy = r.authority.initialLegacy := by
  cases he with
  | applied => exact (applied_of_used hc).2.1
  | _ => rfl

theorem Effect.owns (h : r.authority.InMemory) (he : Effect r e graph a') (ho : a'.Owns id)
    (hd : r.authority.cohortDeparted id false = true) : r.authority.Owns id := by
  obtain ⟨howner, g, hg, hid⟩ := ho
  cases he with
  | kept => exact ⟨howner, g, hg, hid⟩
  | observed => exact ⟨howner, g, hg, hid⟩
  | activated => exact ⟨howner, g, hg, hid⟩
  | left => exact ⟨howner, g, Table.get_of_get_erase hg, hid⟩
  | replayed => exact ⟨howner, g, Table.get_of_get_erase hg, hid⟩
  | declined => exact ⟨howner, g, Table.get_of_get_erase hg, hid⟩
  | inherited => exact ⟨howner, g, hg, hid⟩
  | applied _ ha =>
    obtain ⟨hg, -⟩ := (get_applied_grants h).mp hg
    rw [applied_owner] at howner
    split_ifs at hg howner with hstale
    · exact ⟨howner, g, hg, hid⟩
    · obtain ⟨u, hcheck⟩ := ha.owner
      obtain ⟨g', id', hg', hid', hclosed, -, -⟩ := checkOwner_cases hcheck
      rw [some.inj howner] at hg'
      obtain rfl := mem_unique hg hg'
      obtain rfl := mem_unique hid hid'
      by_contra hn
      have := cohortClosed_eq_true.mpr ⟨hn, h.departed_all hd⟩
      rw [hclosed] at this
      cases this

/-- **What does not count any more never counts again.** -/
theorem Effect.removed (h : r.authority.InMemory) (he : Effect r e graph a')
    (hr : r.authority.Removed id) : a'.Removed id := by
  rcases hr with hr | hr
  · exact .inl (he.revoked_mono h hr)
  · obtain ⟨howns, hd⟩ := cohortClosed_eq_true.mp hr
    have hseen : a'.legacySeen = r.authority.legacySeen := congrArg (·.2.2.2.1) he.fixed
    refine .inr (cohortClosed_eq_true.mpr ⟨fun ho => howns (he.owns h ho hd), ?_⟩)
    exact cohortDeparted_mono (he.initialLegacy (h.current_of_departed hd)) (by simp [hseen]) hd

/-! ### Ownership -/

/-- How the owner account changes: by a control on top of the current one, signed by the owner
account and issued by one of its devices, to an account that holds an active grant. -/
structure OwnerChange (r : MembershipReducer) (e : Event) (owner : PubKey) (r' : MembershipReducer)
    (control : AccountAuthorityControl) : Prop where
  kind : e.kind = .channelAccountAuthority
  read : AccountAuthorityControl.decode e.ciphertext = some control
  current : r.authority.current ≠ none ∧ control.previous = r.authority.current
  signed : control.verifyAccountSignature r.channelId owner = true
  issuer : control.issuer.account = some owner ∧ control.issuer.ed25519Pub = e.author.ed25519Pub ∧
    r.authority.canAdmin control.issuer.publicIdentity control.issuer = true
  owner : r'.authority.owner = some control.ownerAccount
  granted : ∃ g, r'.authority.accountGrant control.ownerAccount = some g ∧
    r'.authority.isActive g = true

theorem Applies.granted_owner {legacy control previousControl d₀ d} {a : AccountAuthority}
    (h : a.InMemory) (ha : a.Applies e legacy graph control previousControl d₀ d)
    (hstale : a.isStale control = false) (x) :
    ∃ g, ((a.applied e control previousControl legacy graph d).noteDeparture x).accountGrant
        control.ownerAccount = some g ∧
      ((a.applied e control previousControl legacy graph d).noteDeparture x).isActive g = true := by
  obtain ⟨u, hcheck⟩ := ha.owner
  obtain ⟨g, id, hg, hid, -, hlive, hactive⟩ := checkOwner_cases hcheck
  obtain ⟨u', hremoved⟩ := ha.removed
  obtain ⟨id', hid', hacc, -⟩ := (ha.next hg).id
  obtain rfl := mem_unique hid hid'
  have hrev : a.revoked.has id = false := by
    rw [h.revokedEvent, isNone_iff_eq_none] at hlive
    exact Table.has_eq_false.mpr hlive
  have hkept : id ∉ control.revoked := fun hr => (checkRemoved_cases hremoved).2 id hr hacc
  set a' := (a.applied e control previousControl legacy graph d).noteDeparture x with ha'
  have hget : a'.grants.get control.ownerAccount = some g := by
    have : (a.applied e control previousControl legacy graph d).grants.get control.ownerAccount =
        some g := by
      rw [get_applied_grants h, hstale]
      refine ⟨hg, fun id₁ hid₁ => ?_⟩
      obtain rfl := mem_unique hid hid₁
      exact ⟨hrev, hkept⟩
    rw [ha']
    cases x <;> exact this
  have hrev' : a'.revoked.has id = false := by
    have : (a.applied e control previousControl legacy graph d).revoked.has id = false := by
      rw [Bool.eq_false_iff, Ne, has_applied_revoked h]
      simp [hrev, hkept]
    rw [ha']
    cases x <;> exact this
  have howns : a'.Owns id := by
    refine ⟨?_, g, by rw [hacc]; exact hget, hid⟩
    have : (a.applied e control previousControl legacy graph d).owner = some id.accountPub := by
      rw [applied_owner, hstale, hacc]
      rfl
    rw [ha']
    cases x <;> exact this
  have hopen : a'.cohortClosed id false = false := by
    rw [Bool.eq_false_iff, Ne, cohortClosed_eq_true]
    exact fun hc => hc.1 howns
  have hactivated : a'.activated = a.activated := by
    rw [ha']
    cases x <;> exact applied_self.1
  refine ⟨g, ?_, ?_⟩
  · unfold accountGrant
    rw [hget, filter_eq_some_iff, hid, any_some, hrev', hopen]
    exact ⟨rfl, rfl⟩
  · unfold isActive
    rw [hid, any_some, hactivated]
    rcases hactive with hp | hact
    · simp [hp]
    · simp [hact]

/-- **The owner account changes by a control of the owner only.** -/
theorem Reduced.ownerChange {closed} (h : r.authority.InMemory) (hr : Reduced r e graph closed r')
    {owner : PubKey} (ho : r.authority.owner = some owner) (ho' : r'.authority.owner ≠ some owner) :
    ∃ control, OwnerChange r e owner r' control := by
  obtain ⟨a', heff, x, -, ha'⟩ := hr.effect
  have hx : (a'.noteDeparture x).owner = a'.owner := by cases x <;> rfl
  rw [ha', hx] at ho'
  cases heff with
  | applied hprior ha =>
    rename_i s ow control previousControl d₀ d
    rw [applied_owner] at ho'
    split_ifs at ho' with hstale
    · exact absurd ho ho'
    have hstale : r.authority.isStale control = false := by simpa using hstale
    have hc : r.authority.current ≠ none := by
      intro hc
      rw [(h.unused hc).1] at ho
      cases ho
    obtain ⟨issuer, hok⟩ := ha.checked
    obtain ⟨hissuer, hadmin, -⟩ := hok.later hc
    obtain rfl := mem_unique ho hissuer
    have hsign := hok.signature
    rw [ho] at hsign
    refine ⟨control, ha.kind, hok.read, ⟨hc, ?_⟩, hsign, ⟨hok.account, hok.author, hadmin⟩, ?_, ?_⟩
    · simpa [isStale, hc] using hstale
    · rw [ha', hx, applied_owner, hstale]
      rfl
    · rw [ha']
      exact Applies.granted_owner h ha hstale x
  | _ => exact absurd ho ho'

/-! ### The view of the channel -/

section
omit [Wire] [EventCrypto]

theorem refreshPending_frame (s : ChannelState) : s.refreshPending.members = s.members ∧
    s.refreshPending.acceptedMembers = s.acceptedMembers ∧ s.refreshPending.epoch = s.epoch := by
  unfold refreshPending
  split <;> exact ⟨rfl, rfl, rfl⟩

theorem foldl_addInvite (l : List (PublicIdentity × String)) : ∀ s : ChannelState,
    (∀ m ∈ (l.foldl addInvite s).members, m ∈ s.members ∨ ∃ p ∈ l, p.1 = m) ∧
      (l.foldl addInvite s).acceptedMembers = s.acceptedMembers ∧
      (l.foldl addInvite s).epoch = s.epoch := by
  induction l with
  | nil => exact fun s => ⟨fun m hm => .inl hm, rfl, rfl⟩
  | cons p l ih =>
    intro s
    obtain ⟨hm, ha, he⟩ := ih (s.addInvite p)
    refine ⟨fun m hmem => ?_, ha, he⟩
    rcases hm m hmem with h | ⟨q, hq, rfl⟩
    · unfold addInvite at h
      dsimp only at h
      split_ifs at h
      · exact .inl h
      · rcases mem_append.mp h with h | h
        · exact .inl h
        · exact .inr ⟨p, mem_cons_self, (mem_singleton.mp h).symm⟩
    · exact .inr ⟨q, mem_cons_of_mem _ hq, rfl⟩

theorem keys_participants (l : List (PublicIdentity × String)) :
    ∀ (m : Map String String) (uid : String),
    uid ∈ (l.foldl (fun m p => m.insert p.1.userId p.2) m).keys →
      uid ∈ m.keys ∨ ∃ p ∈ l, p.1.userId = uid := by
  induction l with
  | nil => exact fun m uid h => .inl h
  | cons p l ih =>
    intro m uid h
    rcases ih _ uid h with h | ⟨q, hq, hid⟩
    · rw [Finmap.mem_keys, Finmap.mem_insert] at h
      rcases h with h | h
      · exact .inr ⟨p, mem_cons_self, h.symm⟩
      · exact .inl (Finmap.mem_keys.mpr h)
    · exact .inr ⟨q, mem_cons_of_mem _ hq, hid⟩

theorem install_frame (s : ChannelState) (owner epoch)
    (members invites : List (PublicIdentity × String)) :
    let s' := (s.installAccountProjection owner members epoch).installAccountInvites invites
    s'.epoch = epoch ∧ (∀ m ∈ s'.members, (∃ p ∈ members, p.1 = m) ∨ ∃ p ∈ invites, p.1 = m) ∧
      ∀ uid ∈ s'.acceptedMembers, ∃ p ∈ members, p.1.userId = uid := by
  intro s'
  set s₁ := s.installAccountProjection owner members epoch with hs₁
  obtain ⟨hm, ha, he⟩ := foldl_addInvite invites s₁
  have h1 : s₁.epoch = epoch ∧ (∀ m ∈ s₁.members, ∃ p ∈ members, p.1 = m) ∧
      ∀ uid ∈ s₁.acceptedMembers, ∃ p ∈ members, p.1.userId = uid := by
    rw [hs₁]
    unfold installAccountProjection
    obtain ⟨hm', ha', he'⟩ := refreshPending_frame { s with
      accountOwner := some owner
      accountMembers := members.foldl (fun m p => m.insert p.1.userId p.2) ∅
      acceptedMembers := (members.foldl (fun m p => m.insert p.1.userId p.2) (∅ : Map _ _)).keys
      members := (sortMembers (members.map Prod.fst)).destutter (· ≠ ·)
      epoch := epoch }
    rw [hm', ha', he']
    refine ⟨rfl, fun m hmem => ?_, fun uid hu => ?_⟩
    · have := (mem_insertionSort _).mp ((destutter_sublist _ _).subset hmem)
      exact mem_map.mp this
    · rcases keys_participants members ∅ uid hu with h | h
      · simp at h
      · exact h
  obtain ⟨hm', ha', he'⟩ := refreshPending_frame { invites.foldl addInvite s₁ with
    members := sortMembers (invites.foldl addInvite s₁).members }
  have hs' : s' = refreshPending { invites.foldl addInvite s₁ with
    members := sortMembers (invites.foldl addInvite s₁).members } := rfl
  rw [hs', hm', ha', he']
  refine ⟨he.trans h1.1, fun m hmem => ?_, fun uid hu => h1.2.2 uid (ha ▸ hu)⟩
  rcases hm m ((mem_insertionSort _).mp hmem) with h | h
  · exact .inl (h1.2.1 m h)
  · exact .inr h

end

/-- The view lists devices that the authority admits or invites, those that have joined it admits,
and its epoch is the key epoch; all this where accounts govern the channel and the key epoch does
not overflow. -/
structure SyncedWith (a : AccountAuthority) (s : ChannelState) : Prop where
  epoch : a.keyEpoch = some s.epoch
  members : ∀ m ∈ s.members, ∃ proof, a.isMember m proof = true ∨
    (a.invitationForDevice m proof).isSome = true
  accepted : ∀ uid ∈ s.acceptedMembers, ∃ device proof,
    device.userId = uid ∧ a.isMember device proof = true

def Synced (r : MembershipReducer) : Prop :=
  ∀ s, r.prior = some s → r.authority.owner ≠ none → r.authority.keyEpoch ≠ none →
    SyncedWith r.authority s

omit [Wire] in
theorem syncedWith_install (r : MembershipReducer) (s : ChannelState) (owner) {epoch}
    (hepoch : r.authority.keyEpoch = some epoch) :
    SyncedWith r.authority ((s.installAccountProjection owner (participantsOf r.memberProofs) epoch
      ).installAccountInvites (participantsOf r.inviteProofs)) := by
  obtain ⟨he, hm, ha⟩ := install_frame s owner epoch (participantsOf r.memberProofs)
    (participantsOf r.inviteProofs)
  have hparticipant {proofs : List Announce} {q : PublicIdentity × String}
      (hq : q ∈ participantsOf proofs) : ∃ p ∈ proofs, p.publicIdentity = q.1 := by
    obtain ⟨p, hp, hq⟩ := mem_filterMap.mp hq
    obtain ⟨account, -, rfl⟩ := map_eq_some_iff.mp hq
    exact ⟨p, hp, rfl⟩
  refine ⟨by rw [he, hepoch], fun m hmem => ?_, fun uid hu => ?_⟩
  · rcases hm m hmem with ⟨q, hq, rfl⟩ | ⟨q, hq, rfl⟩
    · obtain ⟨p, hp, hid⟩ := hparticipant hq
      exact ⟨p, .inl (hid ▸ (mem_filter.mp hp).2)⟩
    · obtain ⟨p, hp, hid⟩ := hparticipant hq
      refine ⟨p, .inr ?_⟩
      rw [← hid]
      rcases mem_append.mp hp with hp | hp
      · exact (mem_filter.mp hp).2
      · exact (mem_filter.mp hp).2
  · obtain ⟨q, hq, rfl⟩ := ha uid hu
    obtain ⟨p, hp, hid⟩ := hparticipant hq
    exact ⟨q.1, p, rfl, hid ▸ (mem_filter.mp hp).2⟩

omit [EventCrypto] in
theorem Change.of_not_control {prior departures} (hc : Change r e graph prior departures)
    (hk : isMembershipControl e.kind = false) : prior = r.prior := by
  cases hc with
  | unchanged => rfl
  | founded _ hkind => simp [hkind, isMembershipControl] at hk
  | snapshot _ hkind => simp [hkind, isMembershipControl] at hk
  | renamed _ hkind => simp [hkind, isMembershipControl] at hk
  | dissolved _ hkind => simp [hkind, isMembershipControl] at hk
  | accepted _ hkind => simp [hkind, isMembershipControl] at hk
  | transferred _ hkind => simp [hkind, isMembershipControl] at hk
  | left _ hkind => simp [hkind, isMembershipControl] at hk

theorem Effect.of_not_control (he : Effect r e graph a') (hk : isMembershipControl e.kind = false) :
    a' = r.authority := by
  cases he with
  | kept => rfl
  | observed _ hkind => simp [hkind, isMembershipControl] at hk
  | activated hkind => simp [hkind, isMembershipControl] at hk
  | left hkind => simp [hkind, isMembershipControl] at hk
  | replayed hkind => simp [hkind, isMembershipControl] at hk
  | declined hkind => simp [hkind, isMembershipControl] at hk
  | inherited hkind => simp [hkind, isMembershipControl] at hk
  | applied _ ha => simp [ha.kind, isMembershipControl] at hk

/-- A step leaves the view as the authority has it, if only leaves are candidates for departures. -/
theorem Synced.reduced {closed} (hs : r.Synced) (h : Reduced r e graph closed r')
    (hleave : isMembershipControl e.kind = false → r.departureOf e = none) : r'.Synced := by
  intro s' hs' howner hepoch
  obtain ⟨prior, departures, hchange, ⟨hprior, hnone⟩ | ⟨s, owner, epoch, -, -, hn, hprior⟩⟩ :=
    h.prior
  · rcases hnone with hk | hnone | hnone | hnone
    · obtain ⟨a', heff, x, hx, ha⟩ := h.effect
      have hx : x = none := by
        rcases hx with rfl | rfl
        · rfl
        · exact hleave hk
      rw [hx, heff.of_not_control hk] at ha
      have ha : r'.authority = r.authority := ha
      rw [ha] at howner hepoch ⊢
      rw [hprior, hchange.of_not_control hk] at hs'
      exact hs s' hs' howner hepoch
    · rw [hnone] at hs'
      cases hs'
    · exact absurd (map_eq_none_iff.mp hnone) howner
    · exact absurd hnone hepoch
  · rw [hprior] at hs'
    cases hs'
    exact syncedWith_install r' s owner hn

end MembershipReducer

section Reductions

variable [Wire] [Sha256] [EventCrypto] (channel : ConversationId) (events : List Event)

open AccountAuthority

theorem kind_of_candidate {d} (hd : d ∈ candidatesOf channel events) {e}
    (he : e ∈ orderedEvents events) (hid : d.event = e.id) : e.kind = .channelLeave := by
  unfold candidatesOf at hd
  split_ifs at hd
  · obtain ⟨x, hx, hcut⟩ := mem_filterMap.mp hd
    unfold legacyParentCutDeparture at hcut
    split_ifs at hcut with hkind
    obtain ⟨ancestors, -, hcut⟩ := bind_eq_some_iff.mp hcut
    dsimp only at hcut
    split_ifs at hcut
    obtain ⟨s, -, hcut⟩ := bind_eq_some_iff.mp hcut
    split_ifs at hcut
    obtain ⟨m, -, rfl⟩ := map_eq_some_iff.mp hcut
    have hx' := (mem_orderedEvents hx).1
    rw [show x.id = e.id from hid, (mem_orderedEvents he).1] at hx'
    cases hx'
    exact hkind.1
  · cases hd

theorem reduceFirst_synced (n) : (reduceFirst channel events n).Synced := by
  have h := reduceFirst_inv channel events
    (I := fun r => r.InMemory (candidatesOf channel events) ∧ r.Synced) ?_ ?_ n
  · exact h.2
  · refine ⟨reduceFirst_inMemory channel events 0, fun s hs => ?_⟩
    rw [(startReducer_frame _ _).1] at hs
    cases hs
  · rintro r ⟨hr, hsync⟩ e he
    refine ⟨hr.step e _, ?_⟩
    rcases hr.step_cases e (hashGraph (byId events)) with hs | hs
    · rw [hs]
      exact hsync
    · refine hsync.reduced hs fun hk => ?_
      cases hd : r.departureOf e with
      | none => rfl
      | some d =>
        obtain ⟨hmem, hid⟩ := hr.departureOf_mem hd
        rw [kind_of_candidate channel events hmem he hid] at hk
        cases hk

theorem reduceFirst_step {n e} (he : (orderedEvents events)[n]? = some e) :
    reduceFirst channel events (n + 1) = reduceFirst channel events n ∨
      ∃ closed, Reduced (reduceFirst channel events n) e (hashGraph (byId events)) closed
        (reduceFirst channel events (n + 1)) := by
  rw [reduceFirst_succ he]
  rcases (reduceFirst_inMemory channel events n).step_cases e (hashGraph (byId events)) with hs | hs
  · exact .inl hs
  · exact .inr ⟨_, hs⟩

theorem reduceFirst_removed {id n m} (hnm : n ≤ m)
    (h : (reduceFirst channel events n).authority.Removed id) :
    (reduceFirst channel events m).authority.Removed id := by
  induction m, hnm using Nat.le_induction with
  | base => exact h
  | succ m _ ih =>
    cases he : (orderedEvents events)[m]? with
    | none => rwa [reduceFirst_of_none he]
    | some e =>
      rcases reduceFirst_step channel events he with hs | ⟨closed, hs⟩
      · rwa [hs]
      · obtain ⟨a', heff, x, -, ha⟩ := hs.effect
        rw [ha]
        exact removed_noteDeparture x
          (heff.removed (reduceFirst_inMemory channel events m).authority ih)

/-- **Revocation is final and ownership is guarded.** At every point of the reduction of any events:

* under an incarnation that does not count any more no device is a member or invited, now or later;
* an incarnation that is no longer granted after the next event does not count any more; * a member
is certified by an account whose grant counts; * where accounts govern the channel and its epoch
does not overflow, the view lists only devices that the authority admits or invites; * the owner
account changes by a control of the owner only. -/
theorem reduceFirst_final (n : ℕ) :
    (∀ id, (reduceFirst channel events n).authority.Removed id → ∀ m, n ≤ m → ∀ device proof g,
      (reduceFirst channel events m).authority.grantForDevice device proof = some g ∨
        (reduceFirst channel events m).authority.invitationForDevice device proof = some g →
      g.id ≠ some id) ∧
    (∀ id, (reduceFirst channel events n).authority.Granted id →
      ¬ (reduceFirst channel events (n + 1)).authority.Granted id →
      (reduceFirst channel events (n + 1)).authority.Removed id) ∧
    (∀ device proof g, (reduceFirst channel events n).authority.grantForDevice device proof =
      some g → ∃ cert id, proof.accountCert = some cert ∧ cert.verify = true ∧
        cert.deviceEd25519Pub = device.ed25519Pub ∧ cert.accountEd25519Pub = id.accountPub ∧
        (reduceFirst channel events n).authority.grants.get id.accountPub = some g ∧
          g.id = some id ∧
        ¬ (reduceFirst channel events n).authority.Removed id) ∧
    (∀ s, (reduceFirst channel events n).prior = some s →
      (reduceFirst channel events n).authority.owner ≠ none →
      (reduceFirst channel events n).authority.keyEpoch ≠ none →
      SyncedWith (reduceFirst channel events n).authority s) ∧
    ∀ e, (orderedEvents events)[n]? = some e → ∀ owner,
      (reduceFirst channel events n).authority.owner = some owner →
      (reduceFirst channel events (n + 1)).authority.owner ≠ some owner →
      ∃ control, OwnerChange (reduceFirst channel events n) e owner
        (reduceFirst channel events (n + 1)) control := by
  refine ⟨fun id hr m hnm device proof g hg hid => ?_, fun id hg hn => ?_, fun device proof g hg =>
    ?_, reduceFirst_synced channel events n, fun e he owner ho ho' => ?_⟩
  · have hproof : (reduceFirst channel events m).authority.proofGrant device proof = some g := by
      rcases hg with hg | hg
      · exact (Option.filter_eq_some_iff.mp hg).1
      · exact (Option.filter_eq_some_iff.mp hg).1
    obtain ⟨id', ht⟩ := takesPart_of_proofGrant hproof
    obtain rfl := Option.mem_unique hid ht.incarnation
    rcases reduceFirst_removed channel events hnm hr with hr | hr
    · rw [ht.live] at hr
      cases hr
    · rw [ht.notClosed] at hr
      cases hr
  · cases he : (orderedEvents events)[n]? with
    | none =>
      rw [reduceFirst_of_none he] at hn
      exact absurd hg hn
    | some e =>
      rcases reduceFirst_step channel events he with hs | ⟨closed, hs⟩
      · rw [hs] at hn
        exact absurd hg hn
      · obtain ⟨a', heff, x, -, ha⟩ := hs.effect
        rw [ha] at hn ⊢
        refine removed_noteDeparture x ?_
        rcases heff.granted_or_revoked (reduceFirst_inMemory channel events n).authority hg with h
          | h
        · refine absurd ?_ hn
          cases x <;> exact h
        · exact .inl h
  · obtain ⟨id, ht⟩ := takesPart_of_grantForDevice hg
    obtain ⟨account, haccount, hget⟩ := ht.account
    obtain rfl := (reduceFirst_inMemory channel events n).authority.id_eq hget ht.incarnation
    obtain ⟨cert, hcert, hkey⟩ := Option.map_eq_some_iff.mp haccount
    have hverify := ht.presence
    simp only [Announce.validPresence, Announce.verify, hcert, Bool.and_eq_true, decide_eq_true_eq]
      at hverify
    obtain ⟨-, ⟨-, hdevice, hv⟩, -⟩ := hverify
    refine ⟨cert, id, hcert, hv, ?_, hkey, hget, ht.incarnation, ?_⟩
    · rw [hdevice, ← ht.identity]
      rfl
    · rintro (hr | hr)
      · rw [ht.live] at hr
        cases hr
      · rw [ht.notClosed] at hr
        cases hr
  · rcases reduceFirst_step channel events he with hs | ⟨closed, hs⟩
    · rw [hs] at ho'
      exact absurd ho ho'
    · exact hs.ownerChange (reduceFirst_inMemory channel events n).authority ho ho'

end Reductions

end MeshTalk.Channel
