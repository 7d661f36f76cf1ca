import MeshTalk.Channel.Effects
import Mathlib.Data.String.Basic

/-! # Stored views are read back

A view is stored after each event and refused when it is read if two of its members have one id. The
members come from the owner's snapshots, or from the announcements that the controls of the accounts
name. So a view is read back as long as neither of these sources has two devices of one id; a
snapshot that lists a member twice is enough to break it. -/

namespace MeshTalk.Channel

open Lib MembershipReducer ChannelState List ChannelMeta Table Function

section Stored

variable [Wire] [Sha256] [EventCrypto]

def DistinctIds (ms : List PublicIdentity) : Prop := (ms.map PublicIdentity.userId).Nodup

instance (ms : List PublicIdentity) : Decidable (DistinctIds ms) :=
  inferInstanceAs (Decidable (Nodup _))

def Names (e : Event) (p : Announce) : Prop :=
  (∃ control, AccountAuthorityControl.decode e.ciphertext = some control ∧
      (p ∈ control.legacyBindings ∨ ∃ g ∈ control.grants, g.original = p)) ∨
    ∃ authority id, DeviceControl.signedInheritance e = some (authority, id, p)

structure DistinctDevices (events : List Event) : Prop where
  snapshots : ∀ e ∈ events, ∀ snapshot, ChannelMeta.decode e.ciphertext = some snapshot →
    e.kind = .membershipChange → DistinctIds snapshot.members
  devices : ∀ e ∈ events, ∀ p, Names e p → ∀ e' ∈ events, ∀ p', Names e' p' →
    p.publicIdentity.userId = p'.publicIdentity.userId → p.publicIdentity = p'.publicIdentity

/-! ### Members from snapshots -/

omit [Wire] [EventCrypto] in
theorem DistinctIds.filter {ms} (h : DistinctIds ms) (p) : DistinctIds (ms.filter p) :=
  h.sublist (filter_sublist.map _)

omit [EventCrypto] in
theorem MembershipReducer.Change.distinct {r e graph prior departures}
    (hc : Change r e graph prior departures)
    (hsnapshot : ∀ snapshot, decode e.ciphertext = some snapshot →
      e.kind = .membershipChange → DistinctIds snapshot.members)
    (h : ∀ s, r.prior = some s → DistinctIds s.members) :
    ∀ s, prior = some s → DistinctIds s.members := by
  intro s' hs'
  have hsame {s : ChannelState} (hs : r.prior = some s) (hr : s'.members = s.members) :
      DistinctIds s'.members := hr ▸ h s hs
  cases hc with
  | unchanged => exact h s' hs'
  | founded _ hkind _ hread =>
    cases hs'
    rw [show (r.foundChannel e _).members = _ from congrArg (·.1) (roster_foundChannel _)]
    exact (hsnapshot _ hread hkind).filter _
  | snapshot hprior hkind hread =>
    cases hs'
    rcases roster_applySnapshot _ _ _ with hr | hr
    · exact hsame hprior (roster_eq_iff.mp hr).1
    · rw [show (applySnapshot _ e _ _).members = _ from congrArg (·.1) hr]
      exact (hsnapshot _ hread hkind).filter _
  | renamed hprior =>
    cases hs'
    exact hsame hprior (roster_eq_iff.mp (roster_applyRename _ _ _ _)).1
  | dissolved hprior =>
    cases hs'
    exact hsame hprior rfl
  | accepted hprior =>
    cases hs'
    exact hsame hprior (roster_eq_iff.mp (roster_acceptInvite _ _ _)).1
  | transferred hprior _ _ hnext =>
    cases hs'
    exact hsame hprior (by rw [(transferOwner_cases hnext).2])
  | left hprior _ hleave =>
    cases hs'
    rw [(leaveMember_cases hleave).2.2]
    exact (h _ hprior).filter _

/-! ### Members from announcements -/

omit [Wire] [Sha256] [EventCrypto] in
theorem nodup_of_sorted_of_isChain {l : List String} (hs : l.Pairwise (· ≤ ·))
    (hc : l.IsChain (· ≠ ·)) : l.Nodup := by
  have hlt : l.IsChain (· < ·) := by
    rw [isChain_iff_forall_rel_of_append_cons_cons] at hc ⊢
    intro x y l₁ l₂ hl
    have hle := isChain_iff_forall_rel_of_append_cons_cons.mp hs.isChain hl
    exact lt_of_le_of_ne hle (hc hl)
  exact (isChain_iff_pairwise.mp hlt).imp fun h => ne_of_lt h

omit [Wire] [EventCrypto] in
/-- Members in the order of their ids, without repetitions. -/
theorem distinctIds_destutter {ms : List PublicIdentity}
    (h : ∀ m ∈ ms, ∀ m' ∈ ms, m.userId = m'.userId → m = m') :
    DistinctIds ((sortMembers ms).destutter (· ≠ ·)) := by
  have hmem {m : PublicIdentity} (hm : m ∈ sortMembers ms) : m ∈ ms :=
    (mem_insertionSort _).mp hm
  unfold DistinctIds
  have hne : ∀ m ∈ sortMembers ms, ∀ m' ∈ sortMembers ms,
      m ≠ m' ↔ m.userId ≠ m'.userId := by
    intro m hm m' hm'
    exact ⟨fun hne hid => hne (h m (hmem hm) m' (hmem hm') hid), fun hne heq => hne (by rw [heq])⟩
  rw [map_destutter hne]
  refine nodup_of_sorted_of_isChain ?_ (isChain_destutter _ _)
  refine Pairwise.sublist (destutter_sublist _ _) (pairwise_map.mpr ?_)
  exact pairwise_insertionSort _ ms

omit [Wire] [EventCrypto] in
theorem DistinctIds.addInvite {s : ChannelState} (h : DistinctIds s.members) (p) :
    DistinctIds (s.addInvite p).members := by
  unfold ChannelState.addInvite
  dsimp only
  split_ifs with hm
  · exact h
  · unfold DistinctIds
    rw [map_append, nodup_append]
    refine ⟨h, nodup_singleton _, ?_⟩
    rintro _ hx _ hy rfl
    obtain ⟨m, hmem, hid⟩ := mem_map.mp hx
    exact hm (ChannelState.isMember_iff.mpr ⟨m, hmem, hid.trans (mem_singleton.mp hy)⟩)

omit [Wire] [Sha256] [EventCrypto] in
theorem members_refreshPending [Sha256] (s : ChannelState) :
    s.refreshPending.members = s.members := by
  unfold refreshPending
  split <;> rfl

omit [Wire] [EventCrypto] in
theorem distinctIds_install (s : ChannelState) (owner) (epoch : ℕ)
    {members invites : List (PublicIdentity × String)}
    (h : ∀ p ∈ members, ∀ p' ∈ members, p.1.userId = p'.1.userId → p.1 = p'.1) :
    DistinctIds ((s.installAccountProjection owner members epoch).installAccountInvites
      invites).members := by
  have hfirst : DistinctIds (s.installAccountProjection owner members epoch).members := by
    unfold installAccountProjection
    rw [members_refreshPending]
    refine distinctIds_destutter fun m hm m' hm' hid => ?_
    obtain ⟨p, hp, rfl⟩ := mem_map.mp hm
    obtain ⟨p', hp', rfl⟩ := mem_map.mp hm'
    exact h p hp p' hp' hid
  have hfold : ∀ (l : List (PublicIdentity × String)) (s : ChannelState), DistinctIds s.members →
      DistinctIds (l.foldl addInvite s).members := by
    intro l
    induction l with
    | nil => exact fun s hs => hs
    | cons p l ih => exact fun s hs => ih _ (hs.addInvite p)
  unfold installAccountInvites
  rw [members_refreshPending]
  exact ((perm_insertionSort _ _).map _).nodup_iff.mpr (hfold invites _ hfirst)

/-! ### Announcements that the authority holds -/

structure MembershipReducer.Named (P : Announce → Prop) (r : MembershipReducer) : Prop where
  originals : ∀ p ∈ r.authority.originals, P p
  grants : ∀ account g, r.authority.grants.get account = some g → P g.original
  bindings : ∀ uid p, r.bindings.get uid = some p → P p

variable {P : Announce → Prop}

structure AccountAuthority.Draft.Named (P : Announce → Prop) (d : AccountAuthority.Draft) :
    Prop where
  originals : ∀ p ∈ d.originals, P p
  next : ∀ account g, d.next.get account = some g → P g.original

namespace AccountAuthority

variable {a : AccountAuthority} {e : Event} {graph : AuthorityGraph}
  {legacy : LegacyAuthorityContext}
  {control : AccountAuthorityControl} {previousControl :
    Option AccountAuthorityControl} {d d' : Draft}

theorem bindLegacy_named (h : a.bindLegacy e control legacy graph = .ok d)
    (hcontrol : ∀ p ∈ control.legacyBindings, P p) (ho : ∀ p ∈ a.originals, P p) : d.Named P := by
  rcases bindLegacy_cases h with rfl | ⟨seen, hfold⟩
  · exact ⟨ho, nofun⟩
  · refine foldlM_ok (P := fun s => s.1.Named P) hfold ⟨ho, nofun⟩ ?_
    intro proof hproof s s' hs hone
    obtain ⟨m, account, rfl⟩ := bindOne_cases hone
    refine ⟨fun p hp => ?_, hs.next⟩
    rcases mem_append.mp hp with hp | hp
    · exact hs.originals p hp
    · exact mem_singleton.mp hp ▸ hcontrol proof hproof

omit [Wire] [Sha256] [EventCrypto] in
theorem pinnedDraft_named (hd : d.Named P) {g} (hg : P g.original) (id) :
    (a.pinnedDraft d g id).Named P := by
  unfold pinnedDraft
  split_ifs
  · exact hd
  · refine ⟨fun p hp => ?_, hd.next⟩
    rcases mem_append.mp hp with hp | hp
    · exact hd.originals p hp
    · exact mem_singleton.mp hp ▸ hg

theorem admitGrant_named {g} (h : a.admitGrant e control previousControl legacy graph d g = .ok d')
    (hg : P g.original) (hd : d.Named P) : d'.Named P := by
  obtain ⟨id, d₁, -, -, -, -, hcheck, rfl⟩ := admitGrant_cases h
  have hids : ({ d with ids := insert id d.ids } : Draft).Named P := ⟨hd.originals, hd.next⟩
  have hd₁ : d₁.Named P := by
    rcases checkGrant_cases hcheck with ⟨-, -, rfl⟩ | ⟨-, ⟨-, -, rfl⟩ | ⟨-, rfl⟩⟩
    · exact hids
    · exact hids
    · exact pinnedDraft_named hids hg id
  refine ⟨hd₁.originals, fun account g' hg' => ?_⟩
  rw [show Table.get _ _ = _ from Table.get_set _ _ _ _] at hg'
  split_ifs at hg' with hk
  · cases hg'
    exact hg
  · exact hd₁.next _ _ hg'

theorem Applies.named {d₀} (h : Applies a e legacy graph control previousControl d₀ d)
    (he : ∀ p, Names e p → P p) (ho : ∀ p ∈ a.originals, P p) : d.Named P := by
  obtain ⟨issuer, hok⟩ := h.checked
  have hbind : ∀ p ∈ control.legacyBindings, P p :=
    fun p hp => he p (.inl ⟨control, hok.read, .inl hp⟩)
  refine foldlM_ok h.admitted (bindLegacy_named h.bound hbind ho) ?_
  intro g hg d₁ d₂ hd₁ hone
  exact admitGrant_named hone (he _ (.inl ⟨control, hok.read, .inr ⟨g, hg, rfl⟩⟩)) hd₁

end AccountAuthority

namespace MembershipReducer

variable {r r' : MembershipReducer} {e : Event} {graph : AuthorityGraph} {closed : Bool}

section

variable (hr : r.Named P)
include hr

omit [Wire] [Sha256] [EventCrypto] in
theorem Named.of_erased {a'} (ho : a'.originals = r.authority.originals)
    (hg : ∀ account g, a'.grants.get account = some g → r.authority.grants.get account = some g) :
    { r with authority := a' }.Named P :=
  ⟨fun p hp => hr.originals p (ho ▸ hp), fun account g h =>
    hr.grants _ _ (hg account g h), hr.bindings⟩

theorem Named.effect {a'} (he : ∀ p, Names e p → P p) (h : Effect r e graph a') :
    { r with authority := a' }.Named P := by
  cases h with
  | kept => exact hr
  | observed => exact hr.of_erased rfl fun _ _ hg => hg
  | activated => exact hr.of_erased rfl fun _ _ hg => hg
  | left => exact hr.of_erased rfl fun _ _ => get_of_get_erase
  | replayed => exact hr.of_erased rfl fun _ _ => get_of_get_erase
  | declined => exact hr.of_erased rfl fun _ _ => get_of_get_erase
  | inherited _ h =>
    refine ⟨fun p hp => ?_, hr.grants, hr.bindings⟩
    rcases mem_append.mp hp with hp | hp
    · exact hr.originals p hp
    · exact mem_singleton.mp hp ▸ he _ (.inr ⟨_, _, h.signed⟩)
  | applied _ h =>
    have hd := h.named he hr.originals
    refine ⟨fun p hp => ?_, fun account g hg => ?_, hr.bindings⟩
    · rw [show AuthorityCurrent.originals _ = _ from AccountAuthority.applied_originals] at hp
      split_ifs at hp
      · exact hr.originals p hp
      · exact hd.originals p hp
    · rw [show AuthorityCurrent.grants _ = _ from AccountAuthority.applied_grants] at hg
      have hg' := (get_filter_eq_some.mp hg).1
      split_ifs at hg'
      · exact hr.grants _ _ hg'
      · exact hd.next _ _ hg'

omit [Wire] [Sha256] [EventCrypto] in
theorem Named.noteDeparture (d) : { r with authority := r.authority.noteDeparture d }.Named P := by
  cases d <;> exact ⟨hr.originals, hr.grants, hr.bindings⟩

omit [Wire] [Sha256] [EventCrypto] in
theorem Named.prepared : r.prepared.Named P := by
  unfold MembershipReducer.prepared AccountAuthority.prepareLegacyMembers
  split
  · exact hr
  · exact ⟨hr.originals, hr.grants, hr.bindings⟩

omit [Wire] in
theorem Named.memberProofs : ∀ p ∈ r.memberProofs, P p := by
  intro p hp
  have hp := (mem_filter.mp hp).1
  simp only [mem_append, mem_map] at hp
  rcases hp with (hp | ⟨g, hg, rfl⟩) | hp
  · exact hr.originals p (mem_filter.mp hp).1
  · have hg := (mem_insertionSort _).mp (mem_filter.mp hg).1
    obtain ⟨account, hrow⟩ := mem_values.mp hg
    exact hr.grants account g (get_eq_some.mpr hrow)
  · obtain ⟨uid, hrow⟩ := mem_values.mp hp
    exact hr.bindings uid p (get_eq_some.mpr hrow)

end

/-- The view can be read back, and the announcements held are named by events. -/
structure Readable (P : Announce → Prop) (r : MembershipReducer) : Prop where
  named : r.Named P
  members : ∀ s, r.prior = some s → DistinctIds s.members

theorem Readable.reduced (hr : r.Readable P) (h : Reduced r e graph closed r')
    (he : ∀ p, Names e p → P p)
    (hsnapshot : ∀ snapshot, decode e.ciphertext = some snapshot →
      e.kind = .membershipChange → DistinctIds snapshot.members)
    (hP : ∀ p, P p → ∀ p', P p' →
      p.publicIdentity.userId = p'.publicIdentity.userId → p.publicIdentity = p'.publicIdentity) :
    r'.Readable P := by
  have hnamed : r'.Named P := by
    obtain ⟨a', hmoved, ha⟩ := h.authority
    have hm := hr.named.effect he hmoved.effect
    have hm' : { r with authority := r'.authority }.Named P := by
      rw [ha]
      split_ifs
      · exact hm.noteDeparture _
      · exact hm
    refine ⟨hm'.originals, hm'.grants, fun uid p hp => ?_⟩
    rcases h.bindings with hb | ⟨authority, id, proof, hsigned, hb⟩
    · exact hr.named.bindings uid p (hb ▸ hp)
    · rw [hb, get_set] at hp
      split_ifs at hp
      · exact Option.some.inj hp ▸ he proof (.inr ⟨authority, id, hsigned⟩)
      · exact hr.named.bindings uid p hp
  refine ⟨hnamed, fun s' hs' => ?_⟩
  obtain ⟨prior, departures, hchange, ⟨hprior, -⟩ | ⟨s, owner, epoch, -, -, -, hprior⟩⟩ := h.prior
  · exact hchange.distinct hsnapshot hr.members s' (hprior.symm.trans hs')
  · rw [hprior] at hs'
    cases hs'
    have hmem : ∀ q ∈ participantsOf r'.memberProofs, ∃ p, P p ∧ q.1 = p.publicIdentity := by
      intro q hq
      obtain ⟨p, hp, hq⟩ := mem_filterMap.mp hq
      obtain ⟨account, -, rfl⟩ := Option.map_eq_some_iff.mp hq
      exact ⟨p, hnamed.memberProofs p hp, rfl⟩
    refine distinctIds_install s owner epoch fun q hq q' hq' hid => ?_
    obtain ⟨p, hp, heq⟩ := hmem q hq
    obtain ⟨p', hp', heq'⟩ := hmem q' hq'
    rw [heq, heq'] at hid ⊢
    exact hP p hp p' hp' hid

theorem Readable.step (hr : r.Readable P) (he : ∀ p, Names e p → P p)
    (hsnapshot : ∀ snapshot, decode e.ciphertext = some snapshot →
      e.kind = .membershipChange → DistinctIds snapshot.members)
    (hP : ∀ p, P p → ∀ p', P p' →
      p.publicIdentity.userId = p'.publicIdentity.userId → p.publicIdentity = p'.publicIdentity) :
    (r.step e graph).2.Readable P := by
  have hprep : r.prepared.Readable P := ⟨hr.named.prepared, hr.members⟩
  rcases step_cases r e graph with h | h
  · rw [h]
    exact hprep
  · exact hprep.reduced h he hsnapshot hP

end MembershipReducer

/-- **A view is read back**, at every point of the reduction of events that list and name no two
devices of one id. -/
theorem reduceFirst_readback [Bincode CurrentState] (channel : ConversationId) (events : List Event)
    (h : DistinctDevices events) (n : ℕ) (s : ChannelState)
    (hs : (reduceFirst channel events n).prior = some s) :
    s.encodeCurrent >>= ChannelState.decodeCurrent = .ok s := by
  let P (p : Announce) : Prop := ∃ e ∈ events, Names e p
  have hP : ∀ p, P p → ∀ p', P p' →
      p.publicIdentity.userId = p'.publicIdentity.userId →
        p.publicIdentity = p'.publicIdentity := by
    rintro p ⟨e, he, hp⟩ p' ⟨e', he', hp'⟩
    exact h.devices e he p hp e' he' p' hp'
  have hstart : (startReducer channel (orderedEvents events) (byId events)).Readable P := by
    have hempty (r : MembershipReducer) (h1 : r.prior = none) (h2 : r.authority.originals = [])
        (h3 : r.authority.grants = ∅) (h4 : r.bindings = ∅) : r.Readable P :=
      ⟨⟨by simp [h2], by simp [h3], by simp [h4]⟩, by simp [h1]⟩
    unfold startReducer
    split_ifs <;> exact hempty _ rfl rfl rfl rfl
  have hreadable := reduceFirst_inv channel events hstart (fun r hr e he =>
    have hmem := (mem_orderedEvents he).2
    hr.step (fun p hp => ⟨e, hmem, hp⟩) (h.snapshots e hmem) hP) n
  exact s.decodeCurrent_encodeCurrent (hreadable.members s hs)

end Stored

/-! ### A codec, and a snapshot that breaks it -/

theorem countable_string : Countable String := by
  have : Countable Char :=
    Injective.countable (f := Char.toNat) fun c c' h => Char.ext (UInt32.toNat_inj.mp h)
  exact Injective.countable (f := String.toList) fun s t h => String.toList_inj.mp h

theorem countable_currentState : Countable CurrentState := by
  have : Countable String := countable_string
  have : Countable (BitVec 256) :=
    Injective.countable (f := BitVec.toNat) fun _ _ h => BitVec.eq_of_toNat_eq h
  have : Countable UInt8 :=
    Injective.countable (f := UInt8.toNat) fun _ _ h => UInt8.toNat_inj.mp h
  have : Countable EventId := Injective.countable (f := EventId.bytes) fun x y h => by
    cases x
    cases y
    cases h
    rfl
  have : Countable PublicIdentity :=
    Injective.countable (f := fun p => (p.ed25519Pub, p.x25519Pub)) fun x y h => by
      cases x
      cases y
      cases h
      rfl
  refine Injective.countable (f := fun s : CurrentState =>
    (s.id.bytes, s.name, s.nameVersion, s.members, s.epoch, s.owner, s.accountOwner,
      s.accountMembers.entries, s.dissolved, s.genesisOwner, s.pendingInvite, s.acceptedEventId,
      s.acceptedMembers, s.myUserId, s.version)) fun x y h => ?_
  obtain ⟨⟨⟨_⟩, _, _, _, _, _, _, ⟨_, _⟩, _, _, _, _, _, _⟩, _⟩ := x
  obtain ⟨⟨⟨_⟩, _, _, _, _, _, _, ⟨_, _⟩, _, _, _, _, _, _⟩, _⟩ := y
  simp only [Prod.mk.injEq] at h
  obtain ⟨rfl, rfl, rfl, rfl, rfl, rfl, rfl, rfl, rfl, rfl, rfl, rfl, rfl, rfl, rfl⟩ := h
  rfl

open Classical in
/-- Views are stored as their numbers, in unary. -/
@[reducible] noncomputable def sampleStore : Bincode CurrentState :=
  have hex := @exists_injective_nat CurrentState countable_currentState
  { serialize := fun s => List.replicate (hex.choose s) 0
    deserialize := fun bs =>
      if h : ∃ s, List.replicate (hex.choose s) 0 = bs then .ok h.choose
      else .error "io error: unexpected end of file"
    deserialize_serialize := fun s => by
      have h : ∃ t, List.replicate (hex.choose t) 0 = List.replicate (hex.choose s) (0 : UInt8) :=
        ⟨s, rfl⟩
      rw [dif_pos h]
      have hlen := congrArg List.length h.choose_spec
      simp only [List.length_replicate] at hlen
      rw [hex.choose_spec hlen] }

theorem sampleWire_names : letI := sampleDigest; letI := sampleWire; letI := sampleSigner
    ∀ e p, ¬ Names e p := by
  let := sampleDigest
  let := sampleWire
  let := sampleSigner
  have hread {R : Type} (read : BincodeRead R)
      (h : ∀ bs, read.deserialize bs = .error "io error: unexpected end of file") (magic : String)
      (bs : List UInt8) : @unframe R read magic bs = none := by
    unfold unframe
    split_ifs
    · rfl
    · rw [h]
      rfl
    · rfl
  rintro e p (⟨control, hcontrol, -⟩ | ⟨authority, id, hsigned⟩)
  · unfold AccountAuthorityControl.decode at hcontrol
    rw [hread _ fun _ => rfl] at hcontrol
    split_ifs at hcontrol
    cases hcontrol
  · unfold DeviceControl.signedInheritance DeviceControl.decode at hsigned
    rw [hread _ fun _ => rfl] at hsigned
    split_ifs at hsigned
    all_goals cases hsigned

theorem sampleRejoin_distinct : letI := sampleDigest; letI := sampleWire; letI := sampleSigner
    DistinctDevices sampleRejoin := by
  let := sampleDigest
  let := sampleWire
  let := sampleSigner
  have hall : ∀ e ∈ sampleRejoin, e.kind = .membershipChange →
      (decode e.ciphertext).all (fun m => DistinctIds m.members) = true := by
    decide +kernel
  refine ⟨fun e he snapshot hread hkind => ?_, fun e _ p hp => absurd hp (sampleWire_names e p)⟩
  have := hall e he hkind
  rw [hread] at this
  simpa using this

theorem reduceFirst_readback_rejoin :
    letI := sampleDigest; letI := sampleWire; letI := sampleSigner; letI := sampleStore
    ∃ s, (reduceFirst ⟨7⟩ sampleRejoin 3).prior = some s ∧
      s.encodeCurrent >>= ChannelState.decodeCurrent = .ok s := by
  let := sampleDigest
  let := sampleWire
  let := sampleSigner
  let := sampleStore
  obtain ⟨s, hs⟩ := Option.isSome_iff_exists.mp
    (show (reduceFirst ⟨7⟩ sampleRejoin 3).prior.isSome = true by decide +kernel)
  exact ⟨s, hs, reduceFirst_readback ⟨7⟩ sampleRejoin sampleRejoin_distinct 3 s hs⟩

def sampleTwice : List Event := [sampleEvent 1 1 [] .membershipChange [1, 1, 1]]

/-- **A snapshot that lists its owner twice** is authorized and stored, and the stored view is
refused. -/
theorem repeated_member_unreadable :
    letI := sampleDigest; letI := sampleWire; letI := sampleSigner; letI := sampleStore
    (∃ e ∈ sampleTwice, e.id ∈ (reduceFirst ⟨7⟩ sampleTwice 1).authorized) ∧
    ∃ s, (reduceFirst ⟨7⟩ sampleTwice 1).prior = some s ∧
      s.encodeCurrent >>= ChannelState.decodeCurrent =
        .error (.malformed "invalid current channel checkpoint") := by
  let := sampleDigest
  let := sampleWire
  let := sampleSigner
  let := sampleStore
  refine ⟨by decide +kernel, ?_⟩
  obtain ⟨s, hs⟩ := Option.isSome_iff_exists.mp
    (show (reduceFirst ⟨7⟩ sampleTwice 1).prior.isSome = true by decide +kernel)
  have htwice : (reduceFirst ⟨7⟩ sampleTwice 1).prior.all
    (fun s => ¬ DistinctIds s.members) = true := by
    decide +kernel
  rw [hs] at htwice
  have hmembers : ¬ DistinctIds s.members := by simpa using htwice
  exact ⟨s, hs, s.decodeCurrent_encodeCurrent_of_repeated hmembers⟩

end MeshTalk.Channel
