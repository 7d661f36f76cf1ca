import MeshTalk.Channel.Effects

/-! # The genesis of a channel

A channel is founded by the first event of the canonical order that can found one: a snapshot
without parents by the owner it names, who is in it. Snapshots without parents are ordered by their
clocks and ids alone, and both are their authors' to choose. -/

namespace MeshTalk.Channel

open Lib MembershipReducer List

section Genesis

variable [Sha256]

/-! ### The genesis owner does not change -/

namespace ChannelState

variable (s : ChannelState) (uid : String)

omit [Sha256] in
@[simp] theorem genesisOwner_markInvited : (s.markInvited uid).genesisOwner = s.genesisOwner := by
  unfold markInvited
  dsimp only
  split_ifs <;> rfl

@[simp] theorem genesisOwner_autoAccept :
    (s.autoAcceptLegacyMember uid).genesisOwner = s.genesisOwner := by
  unfold autoAcceptLegacyMember
  dsimp only
  split_ifs <;> rfl

@[simp] theorem genesisOwner_acceptInvite (e) :
    (s.acceptInvite uid e).genesisOwner = s.genesisOwner := by
  unfold acceptInvite
  dsimp only
  split_ifs <;> rfl

omit [Sha256] in
@[simp] theorem genesisOwner_applyRename (name lamport id) :
    (s.applyRename name lamport id).genesisOwner = s.genesisOwner := by
  unfold applyRename
  split_ifs <;> rfl

omit [Sha256] in
@[simp] theorem genesisOwner_applyMeta (m b) :
    (s.applyMetaWithDeparture m b).genesisOwner = s.genesisOwner := by
  unfold applyMetaWithDeparture
  split_ifs <;> rfl

@[simp] theorem genesisOwner_refreshPending : s.refreshPending.genesisOwner = s.genesisOwner := by
  unfold refreshPending
  split <;> rfl

theorem genesisOwner_install (owner epoch members invites) :
    ((s.installAccountProjection owner members epoch).installAccountInvites invites).genesisOwner =
      s.genesisOwner := by
  unfold installAccountInvites
  rw [genesisOwner_refreshPending]
  have hfold := foldl_keeps ChannelState.genesisOwner addInvite (fun _ _ => rfl) invites
    (s.installAccountProjection owner members epoch)
  refine hfold.trans ?_
  exact genesisOwner_refreshPending _

end ChannelState

namespace MembershipReducer

variable {r : MembershipReducer} {e : Event} {graph : AuthorityGraph} {prior : Option ChannelState}
  {departures : List (String × EventId)} {s : ChannelState}

theorem genesisOwner_applySnapshot (s e snapshot members) :
    (applySnapshot s e snapshot members).genesisOwner = s.genesisOwner := by
  unfold applySnapshot
  rw [ChannelState.foldl_keeps ChannelState.genesisOwner _ fun s c => by split_ifs <;> simp]
  split_ifs
  · exact s.genesisOwner_applyMeta _ true
  · exact s.genesisOwner_applyMeta _ false

theorem genesisOwner_foundChannel (e snapshot) :
    (r.foundChannel e snapshot).genesisOwner = snapshot.owner := by
  unfold foundChannel
  split_ifs
  · rw [ChannelState.foldl_keeps ChannelState.genesisOwner _ fun s c =>
      s.genesisOwner_markInvited c]
    rfl
  · rfl

variable [Wire]

theorem Change.genesisOwner (hc : Change r e graph prior departures) (hs : r.prior = some s) :
    ∃ s', prior = some s' ∧ s'.genesisOwner = s.genesisOwner := by
  have hsame {s₁ : ChannelState} (h : r.prior = some s₁) : s = s₁ :=
    Option.mem_unique hs h
  cases hc with
  | unchanged => exact ⟨s, hs, rfl⟩
  | founded hprior => simp [hs] at hprior
  | snapshot hprior => exact ⟨_, rfl, hsame hprior ▸ genesisOwner_applySnapshot _ _ _ _⟩
  | renamed hprior => exact ⟨_, rfl, hsame hprior ▸ ChannelState.genesisOwner_applyRename _ _ _ _⟩
  | dissolved hprior =>
    obtain rfl := hsame hprior
    exact ⟨_, rfl, rfl⟩
  | accepted hprior => exact ⟨_, rfl, hsame hprior ▸ ChannelState.genesisOwner_acceptInvite _ _ _⟩
  | transferred hprior _ _ hnext =>
    obtain rfl := hsame hprior
    exact ⟨_, rfl, by rw [(ChannelState.transferOwner_cases hnext).2]⟩
  | left hprior _ hleave =>
    obtain rfl := hsame hprior
    exact ⟨_, rfl, by rw [(ChannelState.leaveMember_cases hleave).2.2]⟩

variable [EventCrypto]

def genesisOwner (r : MembershipReducer) : Option String := r.prior.map ChannelState.genesisOwner

omit [Sha256] [Wire] [EventCrypto] in
theorem genesisOwner_eq_some {uid} :
    r.genesisOwner = some uid ↔ ∃ s, r.prior = some s ∧ s.genesisOwner = uid :=
  Option.map_eq_some_iff

/-- **The genesis owner stays** through a step. -/
theorem genesisOwner_step {uid} (h : r.genesisOwner = some uid) (e graph) :
    (r.step e graph).2.genesisOwner = some uid := by
  obtain ⟨s, hs, rfl⟩ := genesisOwner_eq_some.mp h
  rcases step_cases r e graph with heq | hr
  · rw [heq]
    exact genesisOwner_eq_some.mpr ⟨s, hs, rfl⟩
  · obtain ⟨prior, departures, hc, ⟨heq, -⟩ | ⟨s₁, owner, epoch, hs₁, -, -, heq⟩⟩ := hr.prior
    · obtain ⟨s', hs', hg⟩ := hc.genesisOwner (s := s) hs
      exact genesisOwner_eq_some.mpr ⟨s', heq.trans hs', hg⟩
    · obtain ⟨s', hs', hg⟩ := hc.genesisOwner (s := s) hs
      obtain rfl := Option.mem_unique hs₁ hs'
      exact genesisOwner_eq_some.mpr ⟨_, heq, (s₁.genesisOwner_install _ _ _ _).trans hg⟩

theorem genesisOwner_run_of_some {uid} (graph) :
    ∀ {es : List Event} {r : MembershipReducer}, r.genesisOwner = some uid →
      (r.run graph es).genesisOwner = some uid
  | [], _, h => h
  | e :: _, r, h =>
    genesisOwner_run_of_some graph (r := (r.step e graph).2) (genesisOwner_step h e graph)

/-! ### Founding a channel -/

def canFound (e : Event) : Bool :=
  e.kind = .membershipChange && e.parents = [] &&
    (ChannelMeta.decode e.ciphertext).any fun m => e.userId = m.owner && m.isMember e.userId

/-- The reducer keeps everything in memory, and no channel has been founded. -/
structure Unfounded (r : MembershipReducer) : Prop where
  legacy : r.PureLegacy
  prior : r.prior = none
  departures : r.departures = []

omit [Wire] [EventCrypto] in
theorem Unfounded.retained (h : r.Unfounded) (e graph snapshot) :
    r.retained e graph snapshot = snapshot.members := by
  refine filter_eq_self.mpr fun m _ => ?_
  simp [MembershipReducer.blocked, h.departures, h.legacy.history]

omit [Sha256] [Wire] [EventCrypto] in
theorem prior_close (d departure) : (r.close e d departure).prior = r.prior := by
  obtain ⟨_, _, hclose⟩ := close_frame (r := r) (e := e) d departure
  rw [hclose]

omit [Wire] [EventCrypto] in
theorem prior_updateRoots (old was) : (r.updateRoots e old was).prior = r.prior := by
  obtain ⟨roots, hroots⟩ := updateRoots_frame (r := r) (e := e) old was
  rw [hroots]

omit [Wire] in
theorem installProjection_isSome (h : r.prior.isSome = true) :
    r.installProjection.prior.isSome = true := by
  rcases installProjection_cases (r := r) with ⟨hsame, -⟩ | ⟨_, _, _, _, -, -, hinst⟩
  · rw [hsame, h]
  · rw [hinst]
    rfl

omit [Wire] in
theorem finishStep_isSome {v} (h : v.reducer.prior.isSome = true) :
    (finishStep r e v).2.prior.isSome = true := by
  have hclosed (r₁ : MembershipReducer) (h₁ : r₁.prior = v.reducer.prior) :
      (if isMembershipControl e.kind then
        (r₁.updateRoots e r.memberIds (r.isAccepted e.userId)).installProjection
        else r₁.updateRoots e r.memberIds (r.isAccepted e.userId)).prior.isSome = true := by
    split_ifs
    · exact installProjection_isSome (by rw [prior_updateRoots, h₁, h])
    · rw [prior_updateRoots, h₁, h]
  refine hclosed _ ?_
  split_ifs
  · exact prior_close _ _
  · rfl

theorem Unfounded.founds (h : r.Unfounded) (graph) (he : canFound e = true) :
    (r.step e graph).2.prior.isSome = true := by
  unfold canFound at he
  simp only [Bool.and_eq_true, decide_eq_true_eq, Option.any_eq_true] at he
  obtain ⟨⟨hkind, hroot⟩, snapshot, hread, howner, hmember⟩ := he
  unfold MembershipReducer.step
  rw [prepared_of_pure h.legacy.facts]
  simp only [h.prior, Option.any_none, Bool.false_eq_true, if_false]
  have hdecide : r.decideKind e graph (r.departureOf e) = some ⟨true, { r with
      prior := some (r.foundChannel e snapshot), ownership := some e.id }, none⟩ := by
    unfold decideKind
    rw [hkind]
    unfold decideMembershipChange
    rw [hread]
    have hretained : snapshot.members.filter (fun m => !r.blocked e graph m) = snapshot.members :=
      h.retained e graph snapshot
    simp only [h.prior, hretained]
    rw [if_pos ⟨hroot, howner, hmember⟩]
  rw [hdecide]
  exact finishStep_isSome rfl

/-- **The first step that matters**: the event founds the channel, or there is still none. -/
theorem Unfounded.step (h : r.Unfounded) (e graph) :
    if canFound e then (r.step e graph).2.genesisOwner = some e.userId
    else (r.step e graph).2.Unfounded := by
  have hs := h.legacy.stepped (e := e) (fun hne => absurd h.prior hne) graph
  have hpure : (r.step e graph).2.PureLegacy :=
    ⟨hs.legacy, hs.history.trans h.legacy.history, hs.facts.trans h.legacy.facts⟩
  generalize hprior : (r.step e graph).2.prior = prior at hs
  generalize hdeps : (r.step e graph).2.departures = departures at hs
  have hc := hs.change
  rw [hprior, hdeps] at hc
  cases hc with
  | unchanged =>
    have hnot : canFound e = false := by
      by_contra hcan
      have := h.founds graph (by simpa using hcan)
      rw [hprior, h.prior] at this
      cases this
    rw [if_neg (by simp [hnot])]
    exact ⟨hpure, hprior.trans h.prior, hdeps.trans h.departures⟩
  | @founded snapshot _ hkind hroot hread howner hmember =>
    have hcan : canFound e = true := by
      rw [h.retained] at hmember
      simpa [canFound, hkind, hroot, hread, howner, ChannelMeta.isMember] using hmember
    rw [if_pos hcan]
    exact genesisOwner_eq_some.mpr ⟨_, hprior, (genesisOwner_foundChannel _ _).trans howner.symm⟩
  | snapshot hs => simp [h.prior] at hs
  | renamed hs => simp [h.prior] at hs
  | dissolved hs => simp [h.prior] at hs
  | accepted hs => simp [h.prior] at hs
  | transferred hs => simp [h.prior] at hs
  | left hs => simp [h.prior] at hs

/-- **The genesis owner of a reduction** is the author of the first event that can found a
channel. -/
theorem genesisOwner_run (graph) : ∀ {es : List Event} {r : MembershipReducer},
    r.Unfounded → (r.run graph es).genesisOwner = (es.find? canFound).map Event.userId
  | [], r, h => by
    show r.prior.map _ = none
    rw [h.prior]
    rfl
  | e :: es, r, h => by
    have hstep := h.step e graph
    rw [find?_cons]
    show ((r.step e graph).2.run graph es).genesisOwner = _
    cases hc : canFound e with
    | true =>
      rw [hc, if_pos rfl] at hstep
      exact genesisOwner_run_of_some graph hstep
    | false =>
      rw [hc, if_neg (by simp)] at hstep
      exact genesisOwner_run graph hstep

end MembershipReducer

/-! ### The first root -/

variable [Wire] [EventCrypto] {events : List Event}

section
omit [EventCrypto]

theorem parents_of_canFound {e} (h : canFound e = true) : e.parents = [] := by
  unfold canFound at h
  simp only [Bool.and_eq_true, decide_eq_true_eq] at h
  exact h.1.2

/-- **The first event that can found a channel** is the one of least clock and id. -/
theorem find_root (hn : (events.map Event.id).Nodup) {root} (hmem : root ∈ events)
    (hcan : canFound root = true) (hleast : ∀ e ∈ events, canFound e = true → root.key ≤ e.key) :
    (orderedEvents events).find? canFound = some root := by
  obtain ⟨hem, hfinal⟩ := orderedIds_spec hn [] true
  have hvertex : root.id ∈ vertices (clocksOf events [] true) := mem_vertices.mpr ⟨root, hmem, rfl⟩
  have hroot : ∀ p ∈ vertices (clocksOf events [] true), ¬ p ∈ predsOf events root.id := by
    intro p _
    rw [predsOf_of_mem hn hmem, parents_of_canFound hcan]
    exact not_mem_nil
  -- a root is ready at once, so it is emitted
  have hin : root.id ∈ orderedIds events [] true := by
    by_contra hout
    exact hfinal root.id ⟨hvertex, hout, fun p hp he => absurd he (hroot p hp)⟩
  obtain ⟨l₁, l₂, hsplit⟩ := append_of_mem hin
  refine find?_eq_some_iff_append.mpr ⟨hcan, l₁.filterMap (byId events).lookup,
    l₂.filterMap (byId events).lookup, ?_, fun e he => ?_⟩
  · unfold orderedEvents
    rw [hsplit, filterMap_append,
      filterMap_cons_some (f := (byId events).lookup) (lookup_byId hn hmem)]
  · obtain ⟨id, hid, hl⟩ := mem_filterMap.mp he
    obtain ⟨hmem', rfl⟩ := mem_of_lookup_byId hl
    by_contra hcan'
    have hcan' : canFound e = true := by simpa using hcan'
    have hnodup := hem.nodup
    rw [hsplit] at hnodup
    have hne : root.id ≠ e.id := fun heq => by
      have := (nodup_append.mp hnodup).2.2 e.id hid root.id mem_cons_self
      exact this heq.symm
    have hlt : root.key < e.key := lt_of_le_of_ne (hleast e hmem' hcan') fun heq =>
      hne (congrArg (fun k => (ofLex k).2) heq)
    -- an earlier root would come after one of lesser key
    obtain ⟨m₁, m₂, rfl⟩ := append_of_mem hid
    have hplace : orderedIds events [] true = m₁ ++ e.id :: (m₂ ++ root.id :: l₂) := by
      rw [hsplit]
      simp
    have hbefore := hem.root_mem hplace hvertex hroot (by
      rw [vertexKey_of_mem hn hmem, vertexKey_of_mem hn hmem']
      exact hlt)
    have := (nodup_append.mp hnodup).2.2 root.id (mem_append_left _ hbefore) root.id
      mem_cons_self
    exact this rfl

/-- A channel that can be founded is founded by the event of least clock and id that can. -/
theorem exists_root (hn : (events.map Event.id).Nodup) {e} (he : e ∈ events)
    (hcan : canFound e = true) :
    ∃ root ∈ events, canFound root = true ∧ (∀ e ∈ events, canFound e = true → root.key ≤ e.key) ∧
      (orderedEvents events).find? canFound = some root := by
  obtain ⟨root, hroot, hleast⟩ :=
    Finset.exists_min_image (events.filter canFound).toFinset Event.key
    ⟨e, mem_toFinset.mpr (mem_filter.mpr ⟨he, hcan⟩)⟩
  obtain ⟨hmem, hroot⟩ := mem_filter.mp (mem_toFinset.mp hroot)
  have hleast : ∀ e ∈ events, canFound e = true → root.key ≤ e.key := fun e he hc =>
    hleast e (mem_toFinset.mpr (mem_filter.mpr ⟨he, hc⟩))
  exact ⟨root, hmem, hroot, hleast, find_root hn hmem hroot hleast⟩

end

theorem startReducer_unfounded (channel ordered m) : (startReducer channel ordered m).Unfounded :=
  ⟨startReducer_pureLegacy _ _, (startReducer_frame _ _).1, (startReducer_frame _ _).2.2⟩

theorem genesisOwner_project (channel events) :
    (projectMembership channel events).genesisOwner =
      ((orderedEvents events).find? canFound).map Event.userId :=
  genesisOwner_run _ (startReducer_unfounded _ _ _)

/-- **When the genesis of a channel stays.** For any events whose reduction has a genesis by an
owner, and any further ones by others: the reduction of all of them has a genesis by the same owner
if and only if each of these that can found a channel comes after one of the former that can, by
clock and id. -/
theorem genesis_stays (channel : ConversationId) (events added : List Event) (owner : String)
    (hn : ((events ++ added).map Event.id).Nodup)
    (hgenesis : (projectMembership channel events).genesisOwner = some owner)
    (hothers : ∀ e ∈ added, e.userId ≠ owner) :
    (projectMembership channel (events ++ added)).genesisOwner = some owner ↔
      ∀ root ∈ added, canFound root = true →
        ∃ genesis ∈ events, canFound genesis = true ∧ genesis.key < root.key := by
  rw [genesisOwner_project, Option.map_eq_some_iff] at hgenesis
  obtain ⟨genesis, hfind, howner⟩ := hgenesis
  have hcan := List.find?_some hfind
  have hmem := (mem_orderedEvents (List.mem_of_find?_eq_some hfind)).2
  -- the genesis is the least of the events that can found the channel
  have hn' : (events.map Event.id).Nodup := by
    rw [List.map_append] at hn
    exact hn.of_append_left
  obtain ⟨root, -, -, hleast, hroot⟩ := exists_root hn' hmem hcan
  obtain rfl := Option.mem_unique hfind hroot
  rw [genesisOwner_project]
  constructor
  · intro hstays e he hc
    obtain ⟨first, hfirst, -, hleast', hfind'⟩ := exists_root hn (List.mem_append_right _ he) hc
    rw [hfind', Option.map_some, Option.some.injEq] at hstays
    -- the first root is the owner's, so it is of the former events
    have hold : first ∈ events := (List.mem_append.mp hfirst).resolve_right fun h =>
      hothers _ h hstays
    refine ⟨first, hold, List.find?_some hfind', lt_of_le_of_ne
      (hleast' e (List.mem_append_right _ he) hc) fun heq => ?_⟩
    have hid : first.id = e.id := congrArg (fun k => (ofLex k).2) heq
    rw [List.map_append] at hn
    exact (List.nodup_append.mp hn).2.2 _ (List.mem_map_of_mem hold) _ (List.mem_map_of_mem he) hid
  · intro hlate
    have hall : ∀ e ∈ events ++ added, canFound e = true → genesis.key ≤ e.key := by
      intro e he hc
      rcases List.mem_append.mp he with he | he
      · exact hleast e he hc
      · obtain ⟨first, hfirst, hcf, hlt⟩ := hlate e he hc
        exact (hleast first hfirst hcf).trans hlt.le
    rw [find_root hn (List.mem_append_left _ hmem) hcan hall]
    exact congrArg some howner

end Genesis

/-! ### A sample of competing roots -/

/-- A snapshot is read as its epoch and the numbers of its devices, the first of which owns the
channel. -/
@[reducible] def sampleOwnedWire [Sha256] : Wire :=
  { sampleWire with
    channelMeta := ⟨fun bs => match bs with
      | epoch :: owner :: members =>
          .ok { sampleMeta ((owner :: members).map UInt8.toNat) epoch.toNat with
          owner := (sampleDevice owner.toNat).userId }
      | _ => .error "io error: unexpected end of file"⟩ }

def sampleFounded : List Event :=
  [sampleEvent 2 1 [] .membershipChange [1, 1, 2], sampleEvent 3 2 [2] .channelLeave []]

def sampleRival (k : ℕ) : List Event := [sampleEvent k 2 [] .membershipChange [1, 2, 1]]

theorem genesis_stays_rival : letI := sampleDigest; letI := sampleOwnedWire; letI := sampleSigner
    (projectMembership ⟨7⟩ (sampleFounded ++ sampleRival 4)).genesisOwner =
        some (sampleDevice 1).userId ∧
      (projectMembership ⟨7⟩ (sampleFounded ++ sampleRival 1)).genesisOwner ≠
        some (sampleDevice 1).userId :=
  let := sampleDigest
  let := sampleOwnedWire
  let := sampleSigner
  ⟨(genesis_stays ⟨7⟩ sampleFounded (sampleRival 4) (sampleDevice 1).userId (by decide)
      (by decide +kernel) (by decide +kernel)).mpr (by decide +kernel),
    fun h => absurd ((genesis_stays ⟨7⟩ sampleFounded (sampleRival 1)
      (sampleDevice 1).userId (by decide)
      (by decide +kernel) (by decide +kernel)).mp h) (by decide +kernel)⟩

/-- **The genesis is displaced** by a snapshot of another device with an earlier clock. -/
theorem root_displaced : letI := sampleDigest; letI := sampleOwnedWire; letI := sampleSigner
    ((sampleFounded ++ sampleRival 1).map Event.id).Nodup ∧
    (∀ e ∈ sampleFounded ++ sampleRival 1, validEvent e = true ∧ e.conversationId = ⟨7⟩) ∧
    (projectMembership ⟨7⟩ sampleFounded).genesisOwner = some (sampleDevice 1).userId ∧
    (∀ e ∈ sampleRival 1, e.userId ≠ (sampleDevice 1).userId) ∧
    (projectMembership ⟨7⟩ (sampleFounded ++ sampleRival 1)).genesisOwner =
      some (sampleDevice 2).userId := by
  decide +kernel

end MeshTalk.Channel
