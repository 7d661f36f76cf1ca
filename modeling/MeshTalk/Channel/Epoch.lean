import MeshTalk.Channel.Finality

/-! # The key epoch of an account-governed channel

The key epoch is a sum that may not pass the bound of its type. The actions of the accounts check
it; a departure from a cohort is noted without a check, and the check of a control does not count
the departures (`departure_overflows`). Where these two leave room (`HasRoom`), the epoch is defined
from the first control on, and an event that would take it past the bound is rejected
(`reduceFirst_keyEpoch`). -/

namespace MeshTalk.Channel

open Lib MembershipReducer Finset Option

namespace AccountAuthority

variable {a a' : AccountAuthority}

def countedDepartures (a : AccountAuthority) : Finset LegacyLifetimeKey :=
  a.legacySeen.keySet.filter fun k => k ∈ a.cohortKeys ∧ k ∉ a.legacyBase

def countedRevocations (a : AccountAuthority) : Finset AccountGrantId :=
  a.revoked.keySet.filter fun id => a.cohortDeparted id false = false

/-- What is added to the first epoch, without the departures. -/
def load (a : AccountAuthority) : ℕ :=
  (a.addedGrants ∪ a.declinedEpochReservations).card + a.countedRevocations.card

/-- The epoch is defined from the first control on. -/
def Defined (a : AccountAuthority) : Prop := a.current ≠ none → a.keyEpoch ≠ none

/-- The epoch is defined, and some more can be added. -/
def Room (a : AccountAuthority) (k : ℕ) : Prop :=
  (a.keyEpoch.bind fun n => checkedAdd u64Max n k).isSome = true

theorem InMemory.keyEpoch_eq_some (h : a.InMemory) {n} : a.keyEpoch = some n ↔
    ∃ base, a.baseEpoch = some base ∧ n = base + a.load + a.countedDepartures.card ∧
      n ≤ u64Max := by
  unfold keyEpoch load countedDepartures countedRevocations
  rw [h.historicalAdded, h.historicalRevoked, h.legacyRevoked]
  simp only [filter_empty, card_empty, checkedSub, bind_eq_bind,
    bind_eq_some_iff, checkedAdd_eq_some]
  constructor
  · rintro ⟨_, hb, _, ⟨-, rfl⟩, _, h0, _, ⟨-, rfl⟩, _, ⟨-, rfl⟩, _, ⟨-, rfl⟩, hle, rfl⟩
    cases h0
    exact ⟨_, hb, by omega, hle⟩
  · rintro ⟨base, hb, rfl, hle⟩
    exact ⟨base, hb, _, ⟨by omega, rfl⟩, 0, rfl, _, ⟨by omega, rfl⟩, _, ⟨by omega, rfl⟩, _,
      ⟨by omega, rfl⟩, by omega, by omega⟩

theorem InMemory.room_zero (h : a.InMemory) (hn : a.keyEpoch ≠ none) : a.Room 0 := by
  obtain ⟨n, hn⟩ := ne_none_iff_exists'.mp hn
  obtain ⟨-, -, -, hle⟩ := h.keyEpoch_eq_some.mp hn
  rw [Room, hn, Option.bind_some, checkedAdd_eq_some.mpr ⟨hle, rfl⟩]
  rfl

/-- What adds no more than there is room for leaves the epoch defined. -/
theorem InMemory.keyEpoch_of_le (h' : a'.InMemory) (h : a.InMemory) {k} (hk : a.Room k)
    (hbase : a'.baseEpoch = a.baseEpoch) (hle : a'.load + a'.countedDepartures.card ≤
      a.load + a.countedDepartures.card + k) : a'.keyEpoch ≠ none := by
  obtain ⟨m, hm⟩ := isSome_iff_exists.mp hk
  obtain ⟨n, hn, hm⟩ := bind_eq_some_iff.mp hm
  obtain ⟨base, hb, rfl, -⟩ := h.keyEpoch_eq_some.mp hn
  have hroom := (checkedAdd_eq_some.mp hm).1
  rw [h'.keyEpoch_eq_some.mpr ⟨base, hbase.trans hb, rfl, by omega⟩]
  exact some_ne_none _

theorem InMemory.keyEpoch_ne_none (h' : a'.InMemory) (h : a.InMemory) {k} (hk : a.Room k)
    (hbase : a'.baseEpoch = a.baseEpoch) (hload : a'.load ≤ a.load + k)
    (hdep : a'.countedDepartures = a.countedDepartures) : a'.keyEpoch ≠ none :=
  h'.keyEpoch_of_le h hk hbase (by rw [hdep]; omega)

/-- Some incarnations more that are added or refused, and some more that are revoked. -/
theorem load_le {s t : Finset AccountGrantId} (hinit : a'.initialLegacy = a.initialLegacy)
    (hseen : ∀ k, a.legacySeen.has k = true → a'.legacySeen.has k = true)
    (hs : a'.addedGrants ∪ a'.declinedEpochReservations ⊆
      s ∪ (a.addedGrants ∪ a.declinedEpochReservations))
    (ht : ∀ x, a'.revoked.has x = true → a'.cohortDeparted x false = false →
      x ∈ t ∨ a.revoked.has x = true) : a'.load ≤ a.load + (s.card + t.card) := by
  have hsub : a'.countedRevocations ⊆ t ∪ a.countedRevocations := fun x hx => by
    obtain ⟨hx, hd⟩ := mem_filter.mp hx
    rcases ht x (Table.mem_keySet_iff_has.mp hx) hd with hx | hx
    · exact mem_union_left _ hx
    · refine mem_union_right _ (mem_filter.mpr ⟨Table.mem_keySet_iff_has.mpr hx, ?_⟩)
      by_contra hne
      rw [cohortDeparted_mono hinit hseen (by simpa using hne)] at hd
      cases hd
  have hs := (card_le_card hs).trans (card_union_le _ _)
  have ht := (card_le_card hsub).trans (card_union_le _ _)
  unfold load
  omega

theorem load_le_length (a : AccountAuthority) :
    a.load ≤ (a.addedGrants ∪ a.declinedEpochReservations).card + a.revoked.rows.length := by
  have := (card_filter_le a.revoked.keySet fun id => a.cohortDeparted id false = false).trans
    (List.toFinset_card_le _)
  rw [List.length_map] at this
  exact Nat.add_le_add_left this _

theorem load_note (a : AccountAuthority) (d) : (a.noteLegacyDeparture d).load ≤ a.load := by
  refine load_le (s := ∅) (t := ∅) rfl (fun k hk => ?_) subset_union_right fun x hx _ => .inr hx
  show (a.legacySeen.upsert _ _ _).has k = true
  rw [Table.has_upsert, hk, Bool.or_true]

/-- A departure from a cohort counts once, and not if the first epoch has it. -/
def Counts (a : AccountAuthority) (d : LegacyDeparture) : Prop :=
  lifetimeKey d.member ∈ a.cohortKeys ∧ lifetimeKey d.member ∉ a.legacyBase ∧
    a.legacySeen.has (lifetimeKey d.member) = false

theorem countedDepartures_note (a : AccountAuthority) (d) :
    (a.noteLegacyDeparture d).countedDepartures ⊆ insert (lifetimeKey d.member)
      a.countedDepartures ∧
      (¬ a.Counts d → (a.noteLegacyDeparture d).countedDepartures = a.countedDepartures) := by
  have hmem (k : LegacyLifetimeKey) : k ∈ (a.noteLegacyDeparture d).countedDepartures ↔
      (k = lifetimeKey d.member ∨ a.legacySeen.has k = true) ∧ k ∈ a.cohortKeys ∧
        k ∉ a.legacyBase := by
    refine mem_filter.trans (and_congr_left' (Table.mem_keySet_iff_has.trans ?_))
    show (a.legacySeen.upsert _ _ _).has k = true ↔ _
    rw [Table.has_upsert, Bool.or_eq_true, decide_eq_true_eq]
  have hmem' (k : LegacyLifetimeKey) : k ∈ a.countedDepartures ↔
      a.legacySeen.has k = true ∧ k ∈ a.cohortKeys ∧ k ∉ a.legacyBase :=
    mem_filter.trans (and_congr_left' Table.mem_keySet_iff_has)
  refine ⟨fun k hk => ?_, fun hno => Finset.ext fun k => ?_⟩
  · obtain ⟨rfl | hseen, hk⟩ := (hmem k).mp hk
    · exact mem_insert_self _ _
    · exact mem_insert_of_mem ((hmem' k).mpr ⟨hseen, hk⟩)
  · rw [hmem, hmem']
    refine and_congr_left fun hk => or_iff_right_of_imp ?_
    rintro rfl
    by_contra hseen
    exact hno ⟨hk.1, hk.2, by simpa using hseen⟩

theorem InMemory.defined_noteDeparture {d} (h' : (a.noteLegacyDeparture d).InMemory)
    (h : a.InMemory)
    (hdef : a.Defined) (hroom : a.current ≠ none → a.Counts d → a.Room 1) :
    (a.noteLegacyDeparture d).Defined := by
  intro hc
  obtain ⟨hsub, hsame⟩ := a.countedDepartures_note d
  have hload := a.load_note d
  by_cases hd : a.Counts d
  · have hcard := (card_le_card hsub).trans (card_insert_le _ _)
    exact h'.keyEpoch_of_le h (hroom hc hd) rfl (by omega)
  · exact h'.keyEpoch_ne_none h (h.room_zero (hdef hc)) rfl hload (hsame hd)

end AccountAuthority

section Reductions

variable [Wire] [Sha256] [EventCrypto]

namespace MembershipReducer

open AccountAuthority

variable {r : MembershipReducer} {e : Event} {graph : AuthorityGraph} {a' : AccountAuthority}

theorem Effect.unused (h : r.authority.current = none → r.authority.baseEpoch = none)
    (he : Effect r e graph a') : a'.current = none → a'.baseEpoch = none := by
  cases he with
  | applied =>
    intro hc
    rw [applied_current] at hc
    split_ifs at hc with hs
    simp [isStale, hc] at hs
  | _ => exact h

/-- **When there is room for what no check counts**: a departure that is noted and counts, and the
departures that count already at a control. -/
structure HasRoom (r : MembershipReducer) (e : Event) (graph : AuthorityGraph) : Prop where
  departure : ∀ d, r.authority.current ≠ none → r.departureOf e = some d →
    r.parentsAuthorized e = true → r.authority.Counts d → r.authority.Room 1
  control : ∀ s owner control previousControl d₀ d, r.authority.current ≠ none → r.prior = some s →
    r.authority.Applies e (r.legacyContext s owner) graph control previousControl d₀ d →
    r.authority.baseEpoch.getD s.epoch +
      (r.authority.addedAfter control previousControl d ∪
        r.authority.declinedEpochReservations).card +
      (r.authority.tombstonesAfter e control).rows.length +
        r.authority.countedDepartures.card ≤ u64Max

/-- **No event takes the epoch past the bound**, before a departure is noted. -/
theorem Effect.defined (h : r.authority.InMemory)
    (hunused : r.authority.current = none → r.authority.baseEpoch = none)
      (hdef : r.authority.Defined)
    (hroom : HasRoom r e graph) (he : Effect r e graph a') : a'.Defined := by
  have h' := he.inMemory h
  intro hc
  have hin {id x : AccountGrantId}
    (hx : (r.authority.revoked.insertOrIgnore id e.id).has x = true) :
      x = id ∨ r.authority.revoked.has x = true := by
    simpa [Table.has_insertOrIgnore] using hx
  cases he with
  | kept => exact hdef hc
  | observed => exact hdef hc
  | inherited => exact hdef hc
  | @activated _ _ id _ _ _ _ _ hepoch =>
    refine h'.keyEpoch_ne_none h hepoch rfl
      (load_le (s := {id}) (t := ∅) rfl (fun _ hk => hk) ?_ fun _ hx _ => .inr hx) rfl
    dsimp only
    split_ifs
    · exact subset_union_right
    · rw [insert_union]
      exact subset_rfl
  | @left _ _ id _ hgrant hid _ hepoch =>
    obtain ⟨_, ht⟩ := takesPart_of_grantForDevice hgrant
    obtain ⟨account, -, hget⟩ := ht.account
    refine h'.keyEpoch_ne_none h hepoch rfl (load_le (s := ∅) (t := {id}) rfl (fun _ hk => hk)
      subset_union_right fun x hx _ => ?_) rfl
    rw [h.left_revoked hget hid] at hx
    exact (hin hx).imp_left mem_singleton.mpr
  | replayed _ hget hid hclosed =>
    refine h'.keyEpoch_ne_none h (h.room_zero (hdef hc)) rfl
      (load_le (s := ∅) (t := ∅) rfl (fun _ hk => hk)
      subset_union_right fun x hx hd => .inr ((hin hx).resolve_left ?_)) rfl
    rintro rfl
    cases (cohortClosed_eq_true.mp hclosed).2.symm.trans hd
  | @declined _ _ id _ _ _ _ _ hepoch =>
    split_ifs at hepoch with hid
    · refine h'.keyEpoch_ne_none h hepoch rfl (load_le (s := ∅) (t := {id}) rfl (fun _ hk => hk) ?_
        fun x hx _ => (hin hx).imp_left mem_singleton.mpr) rfl
      rw [h.hadAdded, ← mem_union] at hid
      dsimp only
      rw [union_insert, insert_eq_of_mem hid, empty_union]
    · refine h'.keyEpoch_ne_none h hepoch rfl
        (load_le (s := {id}) (t := {id}) rfl (fun _ hk => hk) ?_
        fun x hx _ => (hin hx).imp_left mem_singleton.mpr) rfl
      dsimp only
      rw [union_insert]
      exact subset_rfl
  | @applied s owner control previousControl d₀ d hprior ha =>
    set b := r.authority.applied e control previousControl (r.legacyContext s owner) graph d with hb
    have hseen : b.legacySeen = r.authority.legacySeen := congrArg (·.2.2.2.1) applied_fixed
    have hload := load_le_length b
    rw [hb, applied_added, applied_self.2, applied_revoked, ← hb] at hload
    suffices ∃ base, b.baseEpoch = some base ∧
        base + b.load + b.countedDepartures.card ≤ u64Max by
      obtain ⟨base, hbase, hle⟩ := this
      rw [h'.keyEpoch_eq_some.mpr ⟨base, hbase, rfl, hle⟩]
      exact some_ne_none _
    by_cases hfirst : r.authority.current = none
    · -- the first epoch has all the departures that are noted
      have hbase : b.baseEpoch = some s.epoch := (applied_of_first hfirst).1
      have hlegacy : b.legacyBase = _ := (applied_of_first hfirst).2.2
      have hdep : b.countedDepartures = ∅ := by
        unfold countedDepartures
        rw [hseen, hlegacy]
        exact filter_eq_empty_iff.mpr fun k hk hno => hno.2 (mem_union_left _ hk)
      have hle := ha.epoch
      rw [hunused hfirst, getD_none, show (r.legacyContext s owner).epoch = s.epoch from rfl] at hle
      exact ⟨_, hbase, by rw [hdep, card_empty]; omega⟩
    · have hbase : b.baseEpoch = r.authority.baseEpoch := (applied_of_used hfirst).1
      have hinit : b.initialLegacy = r.authority.initialLegacy := (applied_of_used hfirst).2.1
      have hlegacy : b.legacyBase = r.authority.legacyBase := (applied_of_used hfirst).2.2.1
      have hdep : b.countedDepartures = r.authority.countedDepartures := by
        unfold countedDepartures cohortKeys
        rw [hseen, hlegacy, hinit]
      obtain ⟨base, hold⟩ := ne_none_iff_exists'.mp (h.used hfirst).2
      have hle := hroom.control s owner control previousControl d₀ d hfirst hprior ha
      rw [hold, getD_some] at hle
      exact ⟨base, hbase.trans hold, by rw [hdep]; omega⟩

/-! ### Events that are rejected -/

/-- What an event of an account is to make of the authority, if it passes the checks. -/
inductive Would (r : MembershipReducer) (e : Event) (graph : AuthorityGraph) :
    AccountAuthority → Prop
  | accept {proof g id} (hkind : e.kind = .channelAccept)
      (hcurrent : r.authority.current.isSome = true)
      (hproof : r.proofOf e.userId = some proof)
      (hgrant : r.authority.proofGrant proof.publicIdentity proof = some g) (hid : g.id = some id)
      (hpending : g.pending = true) (hnew : id ∉ r.authority.activated) :
        Would r e graph { r.authority with
        acceptanceEvents := insert (id, e.id) r.authority.acceptanceEvents
        activated := insert id r.authority.activated
        addedGrants := if r.authority.hadAdded id then r.authority.addedGrants
          else insert id r.authority.addedGrants }
  | leave {proof g id} (hkind : e.kind = .channelLeave)
      (hcurrent : r.authority.current.isSome = true)
      (hdeparture : r.departureOf e = none) (hproof : r.proofOf e.userId = some proof)
      (hempty : e.ciphertext = [])
      (hgrant : r.authority.grantForDevice proof.publicIdentity proof = some g)
        (hid : g.id = some id) :
      Would r e graph { r.authority with
        revoked := if (r.authority.revokedEvent id).isNone then r.authority.revoked.set id e.id
          else r.authority.revoked
        grants := r.authority.grants.erase id.accountPub }
  | decline {proof payload} (hkind : e.kind = .channelLeave)
      (hcurrent : r.authority.current.isSome = true)
      (hdeparture : r.departureOf e = none) (hproof : r.proofOf e.userId = some proof)
      (hpayload : e.ciphertext ≠ []) (hdecode : AccountDeclinePayload.decode e.ciphertext =
        some payload) :
      Would r e graph { r.authority with
        declinedEpochReservations := insert payload.grant r.authority.declinedEpochReservations
        revoked := r.authority.revoked.insertOrIgnore payload.grant e.id
        grants := r.authority.grants.erase payload.grant.accountPub }
  | control {s owner control previousControl d₀ d} (hkind : e.kind = .channelAccountAuthority)
      (hprior : r.prior = some s) (howner : ((s.members.find? fun m => m.userId = s.owner) <|>
        (AccountAuthorityControl.decode e.ciphertext).map (·.issuer.publicIdentity)) = some owner)
      (hfresh : r.authority.knownControl e.id = false)
      (hcontrol : r.authority.checkControl e (r.legacyContext s owner) graph =
        .ok (control, previousControl))
      (hbound : r.authority.bindLegacy e control (r.legacyContext s owner) graph = .ok d₀)
      (hadmitted : control.grants.foldlM
        (r.authority.admitGrant e control previousControl (r.legacyContext s owner) graph) d₀ =
          .ok d) :
      Would r e graph (r.authority.applied e control previousControl
        (r.legacyContext s owner) graph d)

theorem Would.current_ne_none (h : Would r e graph a') : a'.current ≠ none := by
  cases h with
  | accept _ hcurrent => exact isSome_iff_ne_none.mp hcurrent
  | leave _ hcurrent => exact isSome_iff_ne_none.mp hcurrent
  | decline _ hcurrent => exact isSome_iff_ne_none.mp hcurrent
  | control =>
    rw [applied_current]
    split_ifs with hstale
    · intro hc
      rw [isStale_of_first hc] at hstale
      cases hstale
    · exact some_ne_none _

theorem leave_verdict {proof} (hkind : e.kind = .channelLeave)
    (hcurrent : r.authority.current.isSome = true) (hdeparture : r.departureOf e = none)
    (hproof : r.proofOf e.userId = some proof)
    (hop : ∀ v, r.leaveAction e proof graph = .ok v → v = (true, a')) :
    r.decideKind e graph (r.departureOf e) = some ⟨false, r, none⟩ ∨ Moved r e graph a' := by
  have hdecide : r.decideKind e graph (r.departureOf e) = some (r.decideLeave e graph none) := by
    rw [decideKind, hkind, hdeparture]
  rw [hdecide, decideLeave, if_pos hcurrent, if_neg (by simp), hproof]
  dsimp only
  cases h : r.leaveAction e proof graph with
  | error => exact .inl rfl
  | ok v => exact .inr (.left hkind hcurrent hdeparture hproof (h.trans (congrArg _ (hop v h))))

/-- The event is rejected, or it does what it is to do. -/
theorem Would.verdict (h : Would r e graph a') :
    r.decideKind e graph (r.departureOf e) = some ⟨false, r, none⟩ ∨ Moved r e graph a' := by
  cases h with
  | @accept proof g id hkind hcurrent hproof hgrant hid hpending hnew =>
    have hdecide : r.decideKind e graph (r.departureOf e) = some (r.decideAccept e graph) := by
      rw [decideKind, hkind]
    rw [hdecide, decideAccept, if_pos hcurrent, hproof]
    dsimp only
    by_cases hmember : r.authority.isMember proof.publicIdentity proof = true ∨
        (r.authority.invitationForDevice proof.publicIdentity proof).isSome = true
    · rw [if_pos hmember]
      cases hop : r.authority.acceptAccount e proof graph with
      | error => exact .inl rfl
      | ok v =>
        refine .inr (.accepted hkind hcurrent hproof hmember (b := true) (hop.trans ?_))
        obtain ⟨⟨⟩, -, hv⟩ := bind_eq_ok.mp hop
        obtain ⟨⟨⟩, -, hv⟩ := bind_eq_ok.mp hv
        rw [hgrant] at hv
        obtain ⟨id', hid', hv⟩ := bind_eq_ok.mp hv
        obtain rfl := mem_unique hid (need_eq_ok.mp hid')
        obtain ⟨_, -, hv⟩ := bind_eq_ok.mp hv
        obtain ⟨⟨⟩, -, hv⟩ := bind_eq_ok.mp hv
        rw [if_neg (by simp [hpending]), if_neg hnew] at hv
        obtain ⟨-, hv⟩ := ensure_bind_eq_ok.mp hv
        exact hv.symm
    · rw [if_neg hmember]
      exact .inl rfl
  | @leave proof g id hkind hcurrent hdeparture hproof hempty hgrant hid =>
    refine leave_verdict hkind hcurrent hdeparture hproof fun v hop => ?_
    have hmember : r.authority.isMember proof.publicIdentity proof = true := by
      rw [isMember, hgrant]
      rfl
    rw [leaveAction, if_neg (not_not_intro hempty), if_pos hmember] at hop
    obtain ⟨⟨⟩, -, hv⟩ := bind_eq_ok.mp hop
    obtain ⟨⟨⟩, -, hv⟩ := bind_eq_ok.mp hv
    rw [hgrant] at hv
    obtain ⟨id', hid', hv⟩ := bind_eq_ok.mp hv
    obtain rfl := mem_unique hid (need_eq_ok.mp hid')
    obtain ⟨-, hv⟩ := ensure_bind_eq_ok.mp hv
    obtain ⟨_, -, hv⟩ := bind_eq_ok.mp hv
    obtain ⟨-, hv⟩ := ensure_bind_eq_ok.mp hv
    obtain ⟨-, hv⟩ := ensure_bind_eq_ok.mp hv
    exact (Except.ok.inj hv).symm
  | @decline proof payload hkind hcurrent hdeparture hproof hpayload hdecode =>
    refine leave_verdict hkind hcurrent hdeparture hproof fun v hop => ?_
    rw [leaveAction, if_pos hpayload] at hop
    obtain ⟨payload', hp, hv⟩ := bind_eq_ok.mp hop
    obtain rfl := mem_unique hdecode (need_eq_ok.mp hp)
    obtain ⟨-, hv⟩ := ensure_bind_eq_ok.mp hv
    obtain ⟨_, -, hv⟩ := bind_eq_ok.mp hv
    obtain ⟨-, hv⟩ := ensure_bind_eq_ok.mp hv
    obtain ⟨_, -, hv⟩ := bind_eq_ok.mp hv
    obtain ⟨-, hv⟩ := ensure_bind_eq_ok.mp hv
    obtain ⟨-, hv⟩ := ensure_bind_eq_ok.mp hv
    obtain ⟨-, hv⟩ := ensure_bind_eq_ok.mp hv
    exact (Except.ok.inj hv).symm
  | @control s owner control previousControl d₀ d hkind hprior howner hfresh hcontrol
      hbound hadmitted =>
    have hdecide : r.decideKind e graph (r.departureOf e) =
      some (r.decideAccountAuthority e graph) := by
      rw [decideKind, hkind]
    rw [hdecide, decideAccountAuthority, hprior]
    dsimp only
    rw [howner]
    dsimp only
    cases hop : r.authority.apply e (r.legacyContext s owner) graph with
    | error => exact .inl rfl
    | ok v =>
      refine .inr (.applied hkind hprior howner (b := true) (hop.trans ?_))
      obtain ⟨⟨⟩, -, hv⟩ := bind_eq_ok.mp hop
      rw [if_neg (by simp [hfresh]), hcontrol, ok_bind] at hv
      dsimp only at hv
      rw [hbound, ok_bind, hadmitted, ok_bind] at hv
      obtain ⟨_, -, hv⟩ := bind_eq_ok.mp hv
      obtain ⟨_, -, hv⟩ := bind_eq_ok.mp hv
      obtain ⟨_, -, hv⟩ := bind_eq_ok.mp hv
      obtain ⟨-, hv⟩ := ensure_bind_eq_ok.mp hv
      exact hv.symm

/-- An event that is rejected leaves the authority as it was. -/
theorem step_rejected (hr : r.authority.history = none)
    (hv : r.decideKind e graph (r.departureOf e) = some ⟨false, r, none⟩) :
    (r.step e graph).1 = false ∧ (r.step e graph).2.authority = r.authority ∧
      (r.step e graph).2.authorized = r.authorized := by
  unfold MembershipReducer.step
  rw [prepared_of_pure hr]
  dsimp only
  split_ifs
  · exact ⟨rfl, rfl, rfl⟩
  rw [hv]
  obtain ⟨roots, hroots⟩ := updateRoots_frame (r := r) (e := e) r.memberIds (r.isAccepted e.userId)
  have hfinish : finishStep r e ⟨false, r, none⟩ = (false,
      if isMembershipControl e.kind then ({ r with roots := roots }).installProjection
      else { r with roots := roots }) := by
    simp [finishStep, hroots]
  dsimp only
  rw [hfinish]
  split_ifs
  · rcases installProjection_cases (r := { r with roots := roots }) with ⟨hsame, -⟩
      | ⟨_, _, _, -, -, -, hinst⟩
    · rw [hsame]
      exact ⟨rfl, rfl, rfl⟩
    · rw [hinst]
      exact ⟨rfl, rfl, rfl⟩
  · exact ⟨rfl, rfl, rfl⟩

/-- An event that is authorized has authorized parents. -/
theorem parentsAuthorized_of_step (hr : r.authority.history = none)
    (h : (r.step e graph).1 = true) :
    r.parentsAuthorized e = true := by
  unfold MembershipReducer.step at h
  rw [prepared_of_pure hr] at h
  dsimp only at h
  split_ifs at h
  split at h
  · cases h
  · next v hv =>
    have hd := decision hv
    have hclosed := (Bool.and_eq_true_iff.mp h).2
    unfold parentsAuthorized at hclosed ⊢
    rwa [hd.history, hd.authorized] at hclosed

/-- **One step** keeps the epoch defined. -/
theorem InMemory.step_defined {candidates} (h : r.InMemory candidates)
    (hunused : r.authority.current = none → r.authority.baseEpoch = none)
      (hdef : r.authority.Defined)
    (hroom : HasRoom r e graph) (hleave : ∀ d, r.departureOf e = some d → e.kind = .channelLeave) :
    ((r.step e graph).2.authority.current = none → (r.step e graph).2.authority.baseEpoch = none) ∧
      (r.step e graph).2.authority.Defined := by
  have h' := (h.step e graph).authority
  rcases h.step_cases e graph with hs | hs
  · rw [hs]
    exact ⟨hunused, hdef⟩
  obtain ⟨a', hmoved, ha⟩ := hs.authority
  have hdef' := hmoved.effect.defined h.authority hunused hdef hroom
  have hunused' := hmoved.effect.unused hunused
  rw [ha] at h' ⊢
  split_ifs at h' ⊢ with hclosed
  · cases hd : r.departureOf e with
    | none => exact ⟨hunused', hdef'⟩
    | some d =>
      rw [hd] at h'
      refine ⟨hunused', h'.defined_noteDeparture (hmoved.effect.inMemory h.authority) hdef' ?_⟩
      -- an event that notes a departure does nothing else
      have hkind := hleave d hd
      cases hmoved with
      | kept => exact fun hc => hroom.departure d hc hd (parentsAuthorized_of_step
          h.authority.history hclosed)
      | left _ _ hnone => cases hnone.symm.trans hd
      | applied hk => cases hk.symm.trans hkind
      | accepted hk => cases hk.symm.trans hkind
      | inherited hk => cases hk.symm.trans hkind
  · exact ⟨hunused', hdef'⟩

end MembershipReducer

variable {channel : ConversationId} {events : List Event}

theorem reduceFirst_defined (hroom : ∀ m e, (orderedEvents events)[m]? = some e →
      HasRoom (reduceFirst channel events m) e (hashGraph (byId events))) (n) :
    ((reduceFirst channel events n).authority.current = none →
      (reduceFirst channel events n).authority.baseEpoch = none) ∧
    (reduceFirst channel events n).authority.Defined := by
  induction n with
  | zero =>
    show (_ → (startReducer _ _ _).authority.baseEpoch = none) ∧
      (startReducer _ _ _).authority.Defined
    unfold startReducer
    split_ifs
    · exact ⟨fun _ => rfl, fun hc => absurd rfl hc⟩
    · exact ⟨fun _ => rfl, fun hc => absurd rfl hc⟩
  | succ n ih =>
    cases he : (orderedEvents events)[n]? with
    | none => rwa [reduceFirst_of_none he]
    | some e =>
      have h := reduceFirst_inMemory channel events n
      rw [reduceFirst_succ he]
      refine h.step_defined ih.1 ih.2 (hroom n e he) fun d hd => ?_
      obtain ⟨hmem, hid⟩ := h.departureOf_mem hd
      exact kind_of_candidate channel events hmem (List.mem_of_getElem? he) hid

/-- **The key epoch is defined from the first control on**, and an event of an account that would
leave it undefined is rejected and leaves the authority as it was. -/
theorem reduceFirst_keyEpoch (hroom : ∀ m e, (orderedEvents events)[m]? = some e →
      HasRoom (reduceFirst channel events m) e (hashGraph (byId events))) (n : ℕ) :
    ((reduceFirst channel events n).authority.current ≠ none →
      (reduceFirst channel events n).authority.keyEpoch ≠ none) ∧
    ∀ e a', (orderedEvents events)[n]? = some e →
      Would (reduceFirst channel events n) e (hashGraph (byId events)) a' → a'.keyEpoch = none →
      ((reduceFirst channel events n).step e (hashGraph (byId events))).1 = false ∧
        (reduceFirst channel events (n + 1)).authority = (reduceFirst channel events n).authority ∧
        (reduceFirst channel events (n + 1)).authorized =
          (reduceFirst channel events n).authorized := by
  obtain ⟨hunused, hdef⟩ := reduceFirst_defined hroom n
  have h := (reduceFirst_inMemory channel events n).authority
  refine ⟨hdef, fun e a' he hw hnone => ?_⟩
  rw [reduceFirst_succ he]
  rcases hw.verdict with hv | hmoved
  · exact step_rejected h.history hv
  · exact absurd hnone (hmoved.effect.defined h hunused hdef (hroom n e he) hw.current_ne_none)

end Reductions

/-! ### A sample takeover -/

def sampleAnnounce [Sha256] (k : ℕ) : Announce where
  userId := (sampleDevice k).userId
  ed25519Pub := (sampleDevice k).ed25519Pub
  x25519Pub := (sampleDevice k).x25519Pub
  name := ""
  tcpPort := 1
  postOffice := false
  accountCert := some ⟨BitVec.ofNat 256 (200 + k), (sampleDevice k).ed25519Pub, List.replicate 64 0⟩
  sig := List.replicate 64 0

def sampleControl [Sha256] : AccountAuthorityControl where
  version := 1
  previous := none
  issuer := sampleAnnounce 1
  ownerAccount := 201
  grants := [1, 2].map fun k => ⟨0, false, sampleAnnounce k, ⟨1⟩, none⟩
  revoked := []
  legacyBindings := [1, 2].map sampleAnnounce
  accountSignature := List.replicate 64 0

@[reducible] def sampleEpochWire [Sha256] (epoch : ℕ) : Wire :=
  { sampleWire with
    channelMeta := ⟨fun _ => .ok (sampleMeta [1, 2] epoch)⟩
    authorityControl := ⟨fun _ => .ok sampleControl⟩ }

@[reducible] def sampleLastWire [Sha256] : Wire := sampleEpochWire u64Max

/-- Device 2 leaves, while the accounts take over or as a device of its account. -/
def sampleLeave (parent : ℕ) : List Event :=
  [sampleEvent 1 1 [] .membershipChange [],
    sampleEvent 2 1 [1] .channelAccountAuthority (textBytes "MTCA1"),
    sampleEvent 3 2 [parent] .channelLeave []]

def sampleTakeover : List Event := sampleLeave 1

def sampleAccountLeave : List Event := sampleLeave 2

/-- Two events that found the channel and take it over, and one that is no control. -/
theorem hasRoom_takeover [Wire] [Sha256] [EventCrypto] {events : List Event} {e₁ e₂ e₃ : Event}
    (h : orderedEvents events = [e₁, e₂, e₃])
    (h0 : (reduceFirst ⟨7⟩ events 0).authority.current = none)
    (h1 : (reduceFirst ⟨7⟩ events 1).authority.current = none)
      (hkind : e₃.kind ≠ .channelAccountAuthority)
    (hroom : (reduceFirst ⟨7⟩ events 2).departureOf e₃ = none ∨
      (reduceFirst ⟨7⟩ events 2).authority.Room 1) :
    ∀ m e, (orderedEvents events)[m]? = some e →
      HasRoom (reduceFirst ⟨7⟩ events m) e (hashGraph (byId events)) := by
  rw [h]
  rintro (_ | _ | _ | m) e he <;> cases he
  · exact ⟨fun _ hc => absurd h0 hc, fun _ _ _ _ _ _ hc => absurd h0 hc⟩
  · exact ⟨fun _ hc => absurd h1 hc, fun _ _ _ _ _ _ hc => absurd h1 hc⟩
  · refine ⟨fun d _ hd _ _ => hroom.resolve_left fun hnone => ?_, fun _ _ _ _ _ _ _ _ ha =>
      absurd ha.kind hkind⟩
    cases hnone.symm.trans hd

theorem reduceFirst_keyEpoch_takeover :
    letI := sampleDigest; letI := sampleSigner
    (letI _wire : Wire := sampleEpochWire 5;
      (reduceFirst ⟨7⟩ sampleTakeover 3).authority.countedDepartures.card = 1 ∧
      (reduceFirst ⟨7⟩ sampleTakeover 3).authority.keyEpoch ≠ none) ∧
    (letI _wire : Wire := sampleLastWire;
      (reduceFirst ⟨7⟩ sampleAccountLeave 2).authority.keyEpoch = some u64Max ∧
      (reduceFirst ⟨7⟩ sampleAccountLeave 3).authority =
        (reduceFirst ⟨7⟩ sampleAccountLeave 2).authority) := by
  let := sampleDigest
  let := sampleSigner
  constructor
  · let := sampleEpochWire 5
    have horder : orderedEvents sampleTakeover = sampleTakeover := by decide +kernel
    have hroom := hasRoom_takeover horder (by decide +kernel) (by decide +kernel) (by decide)
      (.inr (show _ = true by decide +kernel))
    exact ⟨by decide +kernel, (reduceFirst_keyEpoch hroom 3).1 (by decide +kernel)⟩
  · let := sampleLastWire
    let g : AccountGrant := ⟨0, false, sampleAnnounce 2, ⟨1⟩, none⟩
    let e := sampleEvent 3 2 [2] .channelLeave []
    have horder : orderedEvents sampleAccountLeave = sampleAccountLeave := by decide +kernel
    have hroom := hasRoom_takeover horder (by decide +kernel) (by decide +kernel) (by decide)
      (.inl (by decide +kernel))
    have hproof : (reduceFirst ⟨7⟩ sampleAccountLeave 2).proofOf e.userId =
        some (sampleAnnounce 2) := by decide +kernel
    have hgrant : (reduceFirst ⟨7⟩ sampleAccountLeave 2).authority.grantForDevice
        (sampleAnnounce 2).publicIdentity (sampleAnnounce 2) = some g := by decide +kernel
    have hid : g.id = some ⟨202, 0⟩ := by decide +kernel
    exact ⟨by decide +kernel, ((reduceFirst_keyEpoch hroom 2).2 e _ (by decide +kernel)
      (.leave rfl (by decide +kernel) (by decide +kernel) hproof rfl hgrant hid)
      (by decide +kernel)).2.1⟩

/-- **A departure can leave the epoch undefined**: it is authorized and noted without a check. -/
theorem departure_overflows : letI := sampleDigest; letI := sampleLastWire; letI := sampleSigner
    (reduceFirst ⟨7⟩ sampleTakeover 2).authority.current ≠ none ∧
    (reduceFirst ⟨7⟩ sampleTakeover 2).authority.keyEpoch = some u64Max ∧
    (∀ e ∈ sampleTakeover, e.id ∈ (reduceFirst ⟨7⟩ sampleTakeover 3).authorized) ∧
    (reduceFirst ⟨7⟩ sampleTakeover 3).authority.keyEpoch = none := by
  decide +kernel

end MeshTalk.Channel
