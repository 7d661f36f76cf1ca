import MeshTalk.Channel.Departure

/-! # The epoch of a channel before accounts

In a channel that accounts do not govern, the members change by the owner's snapshots and by leaves.
A leave counts the epoch up; a snapshot brings its own epoch, which is at least that of the
channel. -/

namespace MeshTalk.Channel

open Lib MembershipReducer Option

section Rotation

variable [Sha256]

/-! ### Members and epoch -/

namespace ChannelState

variable (s : ChannelState) (uid : String)

def listing : List PublicIdentity × ℕ := (s.members, s.epoch)

omit [Sha256] in
@[simp] theorem listing_markInvited : (s.markInvited uid).listing = s.listing := by
  unfold markInvited
  dsimp only
  split_ifs <;> rfl

@[simp] theorem listing_autoAccept : (s.autoAcceptLegacyMember uid).listing = s.listing := by
  unfold autoAcceptLegacyMember
  dsimp only
  split_ifs <;> rfl

@[simp] theorem listing_acceptInvite (e) : (s.acceptInvite uid e).listing = s.listing := by
  unfold acceptInvite
  dsimp only
  split_ifs <;> rfl

omit [Sha256] in
@[simp] theorem listing_applyRename (name lamport id) :
    (s.applyRename name lamport id).listing = s.listing := by
  unfold applyRename
  split_ifs <;> rfl

omit [Sha256] in
/-- A snapshot is adopted with its members and its epoch, which is not an earlier one. -/
theorem listing_applyMeta (m b) :
    (s.applyMetaWithDeparture m b).listing = s.listing ∨
      s.epoch ≤ m.epoch ∧ (s.applyMetaWithDeparture m b).listing = (m.members, m.epoch) := by
  unfold applyMetaWithDeparture
  split_ifs with _ _ hlate
  · exact .inl rfl
  · exact .inl rfl
  · refine .inr ⟨?_, rfl⟩
    rcases hlate with h | h
    · exact h.le
    · exact h.1.ge
  · exact .inl rfl

end ChannelState

namespace MembershipReducer

variable {r : MembershipReducer} {e : Event} {graph : AuthorityGraph} {prior : Option ChannelState}
  {departures : List (String × EventId)} {s s' : ChannelState}

theorem listing_applySnapshot (s e snapshot members) :
    (applySnapshot s e snapshot members).listing = s.listing ∨ s.epoch ≤ snapshot.epoch ∧
        (applySnapshot s e snapshot members).listing = (members, snapshot.epoch) := by
  unfold applySnapshot
  rw [ChannelState.foldl_keeps ChannelState.listing _ fun s c => by split_ifs <;> simp]
  split_ifs
  · exact s.listing_applyMeta _ true
  · exact s.listing_applyMeta _ false

variable [Wire]

/-- **How members and epoch change**: not at all, by a snapshot of an administrator, or by a
leave. -/
theorem Change.epoch_cases (hc : Change r e graph prior departures) (hs : r.prior = some s)
    (hs' : prior = some s') :
    s'.listing = s.listing ∨
    (∃ snapshot, e.kind = .membershipChange ∧ ChannelMeta.decode e.ciphertext = some snapshot ∧
      s.canAdmin e.userId = true ∧ s.epoch ≤ snapshot.epoch ∧
      s'.listing = (r.retained e graph snapshot, snapshot.epoch)) ∨
    (e.kind = .channelLeave ∧ s'.listing =
      (s.members.filter (fun p => p.userId ≠ e.userId), saturatingAdd u64Max s.epoch 1)) := by
  cases hc with
  | unchanged =>
    obtain rfl := mem_unique hs hs'
    exact .inl rfl
  | founded hprior => simp [hs] at hprior
  | @snapshot s₁ snapshot hprior hkind hread hadmin =>
    obtain rfl := mem_unique hs hprior
    cases hs'
    rcases listing_applySnapshot s e snapshot (r.retained e graph snapshot) with h | ⟨hle, h⟩
    · exact .inl h
    · exact .inr (.inl ⟨snapshot, hkind, hread, hadmin, hle, h⟩)
  | renamed hprior =>
    obtain rfl := mem_unique hs hprior
    cases hs'
    exact .inl (s.listing_applyRename _ _ _)
  | dissolved hprior =>
    obtain rfl := mem_unique hs hprior
    cases hs'
    exact .inl rfl
  | accepted hprior =>
    obtain rfl := mem_unique hs hprior
    cases hs'
    exact .inl (s.listing_acceptInvite _ _)
  | transferred hprior _ _ hnext =>
    obtain rfl := mem_unique hs hprior
    cases hs'
    exact .inl (by rw [(ChannelState.transferOwner_cases hnext).2]; rfl)
  | left hprior hkind hleave =>
    obtain rfl := mem_unique hs hprior
    cases hs'
    exact .inr (.inr ⟨hkind, by rw [(ChannelState.leaveMember_cases hleave).2.2]; rfl⟩)

/-- The epochs an event brings are new: a snapshot of an administrator does not carry the epoch of
the channel, and no member leaves in the last epoch. -/
def BringsEpoch (s : ChannelState) (e : Event) : Prop :=
  (e.kind = .membershipChange → s.canAdmin e.userId = true →
    ∀ snapshot, ChannelMeta.decode e.ciphertext = some snapshot → snapshot.epoch ≠ s.epoch) ∧
  (e.kind = .channelLeave → s.epoch < u64Max)

/-- The epoch does not go back, and with other members it is a new one. -/
theorem Change.epoch_le (hc : Change r e graph prior departures) (hs : r.prior = some s)
    (hs' : prior = some s') (hnew : BringsEpoch s e) :
    s.epoch ≤ s'.epoch ∧ (s'.members ≠ s.members → s.epoch < s'.epoch) := by
  rcases hc.epoch_cases hs hs' with h | ⟨snapshot, hkind, hread, hadmin, hle, h⟩ | ⟨hkind, h⟩
  · exact ⟨(congrArg Prod.snd h).ge, absurd (congrArg Prod.fst h)⟩
  · have hepoch : s'.epoch = snapshot.epoch := congrArg Prod.snd h
    have := hnew.1 hkind hadmin snapshot hread
    omega
  · have hepoch : s'.epoch = saturatingAdd u64Max s.epoch 1 := congrArg Prod.snd h
    have := hnew.2 hkind
    unfold saturatingAdd at hepoch
    omega

end MembershipReducer

/-! ### Reductions in canonical order -/

variable [Wire] [EventCrypto] {channel : ConversationId} {events : List Event}

def EpochsNew (channel : ConversationId) (events : List Event) : Prop :=
  ∀ n e s, (orderedEvents events)[n]? = some e → (reduceFirst channel events n).prior = some s →
    BringsEpoch s e

/-- A channel that has been founded stays, and its epoch does not go back. -/
theorem epoch_mono (hp : ∀ e ∈ events, NoProof e) (hnew : EpochsNew channel events) {k s}
    (hs : (reduceFirst channel events k).prior = some s) {n} (hn : k ≤ n) :
    ∃ s', (reduceFirst channel events n).prior = some s' ∧ s.epoch ≤ s'.epoch := by
  induction n, hn using Nat.le_induction with
  | base => exact ⟨s, hs, le_rfl⟩
  | succ n _ ih =>
    cases he : (orderedEvents events)[n]? with
    | none => rwa [reduceFirst_of_none he]
    | some e =>
      obtain ⟨s₁, hs₁, hle⟩ := ih
      have hc := reduceFirst_change channel hp he
      obtain ⟨s', hs'⟩ := hc.kept hs₁
      have hstep := (hc.epoch_le hs₁ hs' (hnew n e s₁ he hs₁)).1
      exact ⟨s', hs', hle.trans hstep⟩

/-- **A removal rotates the epoch.** For any events of a channel none of which carries a snapshot of
account grants that can be read, and whose epochs are new when they are reduced: if the event after
the first `n` takes a member out, the epoch increases, and is greater from then on than it ever was
before. -/
theorem removal_rotates (channel : ConversationId) (events : List Event)
    (hp : ∀ e ∈ events, NoProof e) (hnew : EpochsNew channel events) (n : ℕ) (s s' : ChannelState)
    (hs : (reduceFirst channel events n).prior = some s)
    (hs' : (reduceFirst channel events (n + 1)).prior = some s')
    (hremoved : ∃ m ∈ s.members, m ∉ s'.members) :
    s.epoch < s'.epoch ∧ ∀ k j t t', k ≤ n → n < j → (reduceFirst channel events k).prior = some t →
        (reduceFirst channel events j).prior = some t' → t.epoch < t'.epoch := by
  obtain ⟨m, hm, hm'⟩ := hremoved
  have hlt : s.epoch < s'.epoch := by
    cases he : (orderedEvents events)[n]? with
    | none =>
      rw [reduceFirst_of_none he, hs] at hs'
      cases hs'
      exact absurd hm hm'
    | some e =>
      refine ((reduceFirst_change channel hp he).epoch_le hs hs' (hnew n e s he hs)).2 fun heq => ?_
      exact hm' (heq ▸ hm)
  refine ⟨hlt, fun k j t t' hk hj ht ht' => ?_⟩
  obtain ⟨s₁, hs₁, hbefore⟩ := epoch_mono hp hnew ht hk
  obtain ⟨t₁, ht₁, hafter⟩ := epoch_mono hp hnew hs' (show n + 1 ≤ j by omega)
  obtain rfl := Option.mem_unique hs hs₁
  obtain rfl := Option.mem_unique ht' ht₁
  omega

end Rotation

/-- Device 1 takes device 4 out of a channel of three, and then device 2. -/
def sampleRemovals : List Event :=
  [sampleEvent 1 1 [] .membershipChange [1, 1, 2, 4],
    sampleEvent 2 1 [1] .membershipChange [2, 1, 2], sampleEvent 3 1 [2] .membershipChange [3, 1]]

def listingAt [Wire] [Sha256] [EventCrypto] (channel : ConversationId)
    (events : List Event) (n : ℕ) :
    Option (List PublicIdentity × ℕ) :=
  (reduceFirst channel events n).prior.map ChannelState.listing

theorem exists_of_listingAt [Wire] [Sha256] [EventCrypto] {channel events n ms epoch}
    (h : listingAt channel events n = some (ms, epoch)) :
    ∃ s, (reduceFirst channel events n).prior = some s ∧ s.members = ms ∧ s.epoch = epoch := by
  obtain ⟨s, hs, hl⟩ := map_eq_some_iff.mp h
  exact ⟨s, hs, congrArg Prod.fst hl, congrArg Prod.snd hl⟩

theorem sampleRemovals_listing : letI := sampleDigest; letI := sampleWire; letI := sampleSigner
    listingAt ⟨7⟩ sampleRemovals 0 = none ∧
    listingAt ⟨7⟩ sampleRemovals 1 = some ([sampleDevice 1, sampleDevice 2, sampleDevice 4], 1) ∧
    listingAt ⟨7⟩ sampleRemovals 2 = some ([sampleDevice 1, sampleDevice 2], 2) := by
  decide +kernel

theorem sampleRemovals_noProof : letI := sampleDigest; letI := sampleWire
    ∀ e ∈ sampleRemovals, NoProof e := by
  intro e he hk
  simp only [sampleRemovals, List.mem_cons, List.not_mem_nil, or_false] at he
  rcases he with rfl | rfl | rfl <;> cases hk

theorem sampleRemovals_new : letI := sampleDigest; letI := sampleWire; letI := sampleSigner
    EpochsNew ⟨7⟩ sampleRemovals := by
  let := sampleDigest
  let := sampleWire
  let := sampleSigner
  intro n e s he hs
  obtain ⟨h0, h1, h2⟩ := sampleRemovals_listing
  -- a snapshot of an epoch that is not that of the channel
  have hbrings {ms : List PublicIdentity} {epoch : ℕ} (next : ℕ)
      (hl : listingAt ⟨7⟩ sampleRemovals n = some (ms, epoch)) (hk : e.kind = .membershipChange)
      (hread : (ChannelMeta.decode e.ciphertext).map ChannelMeta.epoch = some next)
      (hne : next ≠ epoch) : BringsEpoch s e := by
    obtain ⟨s₁, hs₁, -, hepoch⟩ := exists_of_listingAt hl
    obtain rfl := mem_unique hs hs₁
    constructor
    · intro _ _ snapshot hsnapshot
      rw [hsnapshot] at hread
      rw [some.inj hread, hepoch]
      exact hne
    · intro hleave
      rw [hk] at hleave
      cases hleave
  have horder : orderedEvents sampleRemovals = sampleRemovals := by decide +kernel
  rw [horder] at he
  rcases n with _ | _ | _ | n
  · unfold listingAt at h0
    rw [hs] at h0
    cases h0
  · cases he
    exact hbrings 2 h1 rfl (by decide +kernel) (by decide)
  · cases he
    exact hbrings 3 h2 rfl (by decide +kernel) (by decide)
  · simp [sampleRemovals] at he

theorem removal_rotates_removals : letI := sampleDigest; letI := sampleWire; letI := sampleSigner
    ∃ s s', (reduceFirst ⟨7⟩ sampleRemovals 1).prior = some s ∧
      (reduceFirst ⟨7⟩ sampleRemovals 2).prior = some s' ∧ (∃ m ∈ s.members, m ∉ s'.members) ∧
      s.epoch < s'.epoch ∧
      ∀ k j t t', k ≤ 1 → 1 < j → (reduceFirst ⟨7⟩ sampleRemovals k).prior = some t →
        (reduceFirst ⟨7⟩ sampleRemovals j).prior = some t' → t.epoch < t'.epoch := by
  let := sampleDigest
  let := sampleWire
  let := sampleSigner
  obtain ⟨-, h1, h2⟩ := sampleRemovals_listing
  obtain ⟨s, hs, hm, -⟩ := exists_of_listingAt h1
  obtain ⟨s', hs', hm', -⟩ := exists_of_listingAt h2
  have hin : sampleDevice 4 ∈ s.members := by
    rw [hm]
    decide
  have hout : sampleDevice 4 ∉ s'.members := by
    rw [hm']
    decide
  have hremoved : ∃ m ∈ s.members, m ∉ s'.members := ⟨sampleDevice 4, hin, hout⟩
  exact ⟨s, s', hs, hs', hremoved, removal_rotates ⟨7⟩ sampleRemovals sampleRemovals_noProof
    sampleRemovals_new 1 s s' hs hs' hremoved⟩

/-- Device 2 leaves a channel of three, while device 1 takes device 4 out of it. -/
def sampleCrossing : List Event :=
  [sampleEvent 1 1 [] .membershipChange [1, 1, 2, 4], sampleEvent 2 2 [1] .channelLeave [],
    sampleEvent 3 1 [1] .membershipChange [2, 1, 2]]

/-- **A removal that keeps the epoch.** The leave has counted the epoch up to that of the
snapshot. -/
theorem removal_keeps_epoch : letI := sampleDigest; letI := sampleWire; letI := sampleSigner
    (∀ e ∈ sampleCrossing, NoProof e) ∧
    ∃ s s', (reduceFirst ⟨7⟩ sampleCrossing 2).prior = some s ∧
      (reduceFirst ⟨7⟩ sampleCrossing 3).prior = some s' ∧ sampleDevice 4 ∈ s.members ∧
      sampleDevice 4 ∉ s'.members ∧ s'.epoch = s.epoch := by
  let := sampleDigest
  let := sampleWire
  let := sampleSigner
  have hproof : ∀ e ∈ sampleCrossing, NoProof e := by
    intro e he hk
    simp only [sampleCrossing, List.mem_cons, List.not_mem_nil, or_false] at he
    rcases he with rfl | rfl | rfl <;> cases hk
  have h2 : listingAt ⟨7⟩ sampleCrossing 2 = some ([sampleDevice 1, sampleDevice 4], 2) := by
    decide +kernel
  have h3 : listingAt ⟨7⟩ sampleCrossing 3 = some ([sampleDevice 1], 2) := by decide +kernel
  obtain ⟨s, hs, hm, hepoch⟩ := exists_of_listingAt h2
  obtain ⟨s', hs', hm', hepoch'⟩ := exists_of_listingAt h3
  have hin : sampleDevice 4 ∈ s.members := by
    rw [hm]
    decide
  have hout : sampleDevice 4 ∉ s'.members := by
    rw [hm']
    decide
  exact ⟨hproof, s, s', hs, hs', hin, hout, hepoch'.trans hepoch.symm⟩

end MeshTalk.Channel
