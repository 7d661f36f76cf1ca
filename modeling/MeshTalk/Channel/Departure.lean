import MeshTalk.Channel.Governance

/-! # Departures are not undone by stale snapshots

In a channel that accounts do not govern, a snapshot takes a member in again that has left only if
it descends from all of that member's departures. The reducer lists every departure it applies, and
takes out of a snapshot the members with a departure the snapshot does not descend from. -/

namespace MeshTalk.Channel

open Lib MembershipReducer ChannelState Option

section Departures

variable [Wire] [Sha256]

namespace MembershipReducer

variable {r : MembershipReducer} {e : Event} {graph : AuthorityGraph} {prior : Option ChannelState}
  {departures : List (String × EventId)} {uid : String} {s s' : ChannelState}

theorem Change.departures_mono (hc : Change r e graph prior departures) :
    ∀ d ∈ r.departures, d ∈ departures := by
  intro d hd
  cases hc with
  | left => exact List.mem_append_left _ hd
  | _ => exact hd

theorem Change.left_of_removed (hc : Change r e graph prior departures)
    (hkind : e.kind = .channelLeave)
    (hbefore : r.prior.any (fun s => s.isMember e.userId) = true)
    (hafter : prior.any (fun s => s.isMember e.userId) = false) :
      (e.userId, e.id) ∈ departures := by
  cases hc with
  | unchanged => simp [hbefore] at hafter
  | left => simp
  | founded _ hk => simp [hkind] at hk
  | snapshot _ hk => simp [hkind] at hk
  | renamed _ hk => simp [hkind] at hk
  | dissolved _ hk => simp [hkind] at hk
  | accepted _ hk => simp [hkind] at hk
  | transferred _ hk => simp [hkind] at hk

omit [Wire] in
theorem isMember_congr (h : s'.members = s.members) (uid) : s'.isMember uid = s.isMember uid := by
  unfold isMember
  rw [h]

/-- A member gets in by a snapshot that descends from the member's departures. -/
theorem Change.put_back (hc : Change r e graph prior departures) (hs : r.prior = some s)
    (hs' : prior = some s') (hout : s.isMember uid = false) (hin : s'.isMember uid = true)
    (hcurrent : r.authority.current = none) :
    e.kind = .membershipChange ∧ ∀ l, (uid, l) ∈ r.departures → graph.descends e.id l = true := by
  have hsame (h : s'.members = s.members) :
      e.kind = .membershipChange ∧ ∀ l, (uid, l) ∈ r.departures → graph.descends e.id l = true := by
    rw [isMember_congr h, hout] at hin
    cases hin
  cases hc with
  | unchanged =>
    obtain rfl := mem_unique hs hs'
    exact hsame rfl
  | founded hprior => simp [hs] at hprior
  | @snapshot s₁ snapshot hprior hkind =>
    obtain rfl := mem_unique hs hprior
    cases hs'
    rcases roster_applySnapshot s snapshot (r.retained e graph snapshot) with hr | hr
    · exact hsame (roster_eq_iff.mp hr).1
    · refine ⟨hkind, fun l hl => ?_⟩
      obtain ⟨m, hm, rfl⟩ := isMember_iff.mp hin
      have hmembers := congrArg (·.1) hr
      rw [show (applySnapshot s e snapshot (r.retained e graph snapshot)).members =
        _ from hmembers] at hm
      have hfree := (List.mem_filter.mp hm).2
      by_contra hdesc
      have hblocked : r.blocked e graph m = true := by
        unfold blocked
        rw [hcurrent]
        simp only [decide_true, Bool.true_and, Bool.or_eq_true]
        exact .inl (List.any_eq_true.mpr ⟨_, hl, by simpa using hdesc⟩)
      simp [hblocked] at hfree
  | renamed hprior =>
    obtain rfl := mem_unique hs hprior
    cases hs'
    exact hsame (roster_eq_iff.mp (roster_applyRename _ _ _ _)).1
  | dissolved hprior =>
    obtain rfl := mem_unique hs hprior
    cases hs'
    exact hsame rfl
  | accepted hprior =>
    obtain rfl := mem_unique hs hprior
    cases hs'
    exact hsame (roster_eq_iff.mp (roster_acceptInvite _ _ _)).1
  | transferred hprior _ _ hnext =>
    obtain rfl := mem_unique hs hprior
    cases hs'
    exact hsame (by rw [(transferOwner_cases hnext).2])
  | left hprior _ hleave =>
    obtain rfl := mem_unique hs hprior
    cases hs'
    obtain ⟨m, hm, rfl⟩ := isMember_iff.mp hin
    rw [(leaveMember_cases hleave).2.2] at hm
    have := isMember_iff.mpr ⟨m, (List.mem_filter.mp hm).1, rfl⟩
    rw [hout] at this
    cases this

end MembershipReducer

variable [EventCrypto] {channel : ConversationId} {events : List Event} {uid : String}

def memberAt (channel : ConversationId) (events : List Event) (n : ℕ) (uid : String) : Bool :=
  (reduceFirst channel events n).prior.any fun s => s.isMember uid

def LeftAt (channel : ConversationId) (events : List Event) (k : ℕ) (leave : Event) : Prop :=
  (orderedEvents events)[k]? = some leave ∧ leave.kind = .channelLeave ∧
    memberAt channel events k leave.userId = true ∧
      memberAt channel events (k + 1) leave.userId = false

theorem reduceFirst_change (channel) (hp : ∀ e ∈ events, NoProof e) {n e}
    (he : (orderedEvents events)[n]? = some e) :
    Change (reduceFirst channel events n) e (hashGraph (byId events))
      (reduceFirst channel events (n + 1)).prior
        (reduceFirst channel events (n + 1)).departures := by
  rw [reduceFirst_succ he]
  exact ((reduceFirst_pureLegacy hp n).stepped
    (fun _ => hp e (mem_orderedEvents (List.mem_of_getElem? he)).2) _).change

/-- **Departures that were applied are listed**, from then on. -/
theorem mem_departures (hp : ∀ e ∈ events, NoProof e) {k leave}
    (hleft : LeftAt channel events k leave) {n} (hn : k + 1 ≤ n) :
    (leave.userId, leave.id) ∈ (reduceFirst channel events n).departures := by
  induction n, hn using Nat.le_induction with
  | base =>
    obtain ⟨he, hkind, hbefore, hafter⟩ := hleft
    exact (reduceFirst_change channel hp he).left_of_removed hkind hbefore hafter
  | succ n _ ih =>
    cases he : (orderedEvents events)[n]? with
    | none => rwa [reduceFirst_of_none he]
    | some e => exact (reduceFirst_change channel hp he).departures_mono _ ih

theorem prior_of_leftAt (hp : ∀ e ∈ events, NoProof e) {k leave}
    (hleft : LeftAt channel events k leave) {n} (hn : k ≤ n) :
    ∃ s, (reduceFirst channel events n).prior = some s := by
  induction n, hn using Nat.le_induction with
  | base =>
    have hbefore := hleft.2.2.1
    unfold memberAt at hbefore
    cases hs : (reduceFirst channel events k).prior with
    | none => simp [hs] at hbefore
    | some s => exact ⟨s, rfl⟩
  | succ n _ ih =>
    cases he : (orderedEvents events)[n]? with
    | none => rwa [reduceFirst_of_none he]
    | some e =>
      obtain ⟨s, hs⟩ := ih
      exact (reduceFirst_change channel hp he).kept hs

/-- **Departures are not undone by stale snapshots.** If a device is a member after some events, and
one of them was a departure of the device, then a snapshot among them put the device back for the
time since, and it descends from every departure of the device that was applied before. -/
theorem rejoined_descends (channel : ConversationId) (events : List Event)
    (hp : ∀ e ∈ events, NoProof e) (uid : String) (n : ℕ)
      (hin : memberAt channel events n uid = true)
    (hleft : ∃ k leave, k < n ∧ LeftAt channel events k leave ∧ leave.userId = uid) :
    ∃ j snapshot, j < n ∧ (orderedEvents events)[j]? = some snapshot ∧
      snapshot.kind = .membershipChange ∧ memberAt channel events j uid = false ∧
      (∀ i, j < i → i ≤ n → memberAt channel events i uid = true) ∧
      ∀ k leave, k < n → LeftAt channel events k leave → leave.userId = uid →
        k < j ∧ Descends (byId events) snapshot.id leave.id := by
  induction n with
  | zero =>
    obtain ⟨k, -, hk, -⟩ := hleft
    exact absurd hk (Nat.not_lt_zero k)
  | succ n ih =>
    -- event `n` is not a departure of the device, which is a member after it
    have hlt {k : ℕ} {leave : Event} (hk : k < n + 1) (hl : LeftAt channel events k leave)
        (hu : leave.userId = uid) : k < n := by
      rcases Nat.lt_succ_iff_lt_or_eq.mp hk with hk | rfl
      · exact hk
      · have := hl.2.2.2
        rw [hu, hin] at this
        cases this
    obtain ⟨k, leave, hk, hl, hu⟩ := hleft
    cases hbefore : memberAt channel events n uid with
    | true =>
      obtain ⟨j, snapshot, hj, he, hkind, hout, hsince, hall⟩ :=
        ih hbefore ⟨k, leave, hlt hk hl hu, hl, hu⟩
      refine ⟨j, snapshot, by omega, he, hkind, hout, fun i hi hin' => ?_, fun k leave hk hl hu =>
        hall k leave (hlt hk hl hu) hl hu⟩
      rcases Nat.le_succ_iff.mp hin' with hle | rfl
      · exact hsince i hi hle
      · exact hin
    | false =>
      have hkn := hlt hk hl hu
      obtain ⟨s, hs⟩ := prior_of_leftAt hp hl (Nat.le_of_lt hkn)
      obtain ⟨s', hs'⟩ := prior_of_leftAt hp hl (Nat.le_of_lt hk)
      cases he : (orderedEvents events)[n]? with
      | none =>
        unfold memberAt at hin hbefore
        rw [reduceFirst_of_none he, hbefore] at hin
        cases hin
      | some snapshot =>
        obtain ⟨hkind, hdesc⟩ := (reduceFirst_change channel hp he).put_back hs hs'
          (by simpa [memberAt, hs] using hbefore) (by simpa [memberAt, hs'] using hin)
          (reduceFirst_pureLegacy hp n).legacy.authority.current
        refine ⟨n, snapshot, by omega, he, hkind, hbefore, fun i hi hle => ?_,
          fun k leave hk hl hu => ?_⟩
        · obtain rfl : i = n + 1 := by omega
          exact hin
        · have hk := hlt hk hl hu
          exact ⟨hk, hashGraph_descends.mp (hdesc _ (hu ▸ mem_departures hp hl hk))⟩

end Departures

theorem sampleRejoin_leftAt : letI := sampleDigest; letI := sampleWire; letI := sampleSigner
    LeftAt ⟨7⟩ sampleRejoin 1 (sampleEvent 2 2 [1] .channelLeave []) := by
  unfold LeftAt
  decide +kernel

theorem rejoined_descends_rejoin :
    letI := sampleDigest; letI := sampleWire; letI := sampleSigner
    ∃ j snapshot, j < 3 ∧ (orderedEvents sampleRejoin)[j]? = some snapshot ∧
      snapshot.kind = .membershipChange ∧
      memberAt ⟨7⟩ sampleRejoin j (sampleDevice 2).userId = false ∧
      (∀ i, j < i → i ≤ 3 → memberAt ⟨7⟩ sampleRejoin i (sampleDevice 2).userId = true) ∧
      ∀ k leave, k < 3 → LeftAt ⟨7⟩ sampleRejoin k leave → leave.userId = (sampleDevice 2).userId →
        k < j ∧ Descends (byId sampleRejoin) snapshot.id leave.id :=
  let := sampleDigest
  let := sampleWire
  let := sampleSigner
  rejoined_descends ⟨7⟩ sampleRejoin sampleRejoin_noProof (sampleDevice 2).userId 3
    (by decide +kernel)
    ⟨1, _, by decide, sampleRejoin_leftAt, by decide +kernel⟩

end MeshTalk.Channel
