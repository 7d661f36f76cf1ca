import MeshTalk.Channel.Stored

/-! # Account authorities kept in memory

What holds of the account authority at every point of a pure reduction: each grant stands under its
own account and is not revoked, what is no longer granted is revoked, and the departures that were
noted are among the candidates. -/

namespace MeshTalk.Channel

open Lib MembershipReducer Option List Table Finset

namespace AccountAuthority

def Granted (a : AccountAuthority) (id : AccountGrantId) : Prop :=
  ∃ g, a.grants.get id.accountPub = some g ∧ g.id = some id

structure InMemory (a : AccountAuthority) : Prop where
  history : a.history = none
  historicalAdded : a.historicalAdded = 0
  historicalRevoked : a.historicalRevoked = 0
  legacyRevoked : a.legacyRevoked = ∅
  legacyCandidateLifetimes : a.legacyCandidateLifetimes = ∅
  unused : a.current = none → a.owner = none ∧ a.grants = ∅ ∧ a.initialLegacy = ∅ ∧ a.revoked = ∅ ∧
    a.addedGrants = ∅ ∧ a.declinedEpochReservations = ∅
  used : a.current ≠ none → a.owner ≠ none ∧ a.baseEpoch ≠ none
  keyed : ∀ account g, a.grants.get account = some g →
    ∃ id, g.id = some id ∧ id.accountPub = account ∧ a.revoked.has id = false
  added : ∀ id ∈ a.addedGrants, a.Granted id ∨ a.revoked.has id = true
  declined : ∀ id ∈ a.declinedEpochReservations, a.revoked.has id = true
  counted : ∀ account g id, a.grants.get account = some g → g.id = some id → g.pending = true →
    id ∈ a.addedGrants → id ∈ a.activated
  seen : ∀ k, a.legacySeen.has k = true → ∃ d ∈ a.legacyCandidates, lifetimeKey d.member = k

variable {a a' : AccountAuthority} {id : AccountGrantId}

theorem InMemory.revokedEvent (h : a.InMemory) (id) : a.revokedEvent id = a.revoked.get id := by
  unfold AccountAuthority.revokedEvent
  rw [h.history]
  cases a.revoked.get id <;> rfl

theorem InMemory.hadAdded (h : a.InMemory) (id) : a.hadAdded id = true ↔ id ∈ a.addedGrants := by
  simp [AccountAuthority.hadAdded, h.history]

theorem InMemory.id_eq (h : a.InMemory) {account g} (hg : a.grants.get account = some g)
    (hid : g.id = some id) : id.accountPub = account := by
  obtain ⟨id', hid', hacc, -⟩ := h.keyed account g hg
  obtain rfl := mem_unique hid hid'
  exact hacc

theorem InMemory.live (h : a.InMemory) {account g} (hg : a.grants.get account = some g)
    (hid : g.id = some id) : a.revoked.has id = false := by
  obtain ⟨id', hid', -, hlive⟩ := h.keyed account g hg
  obtain rfl := mem_unique hid hid'
  exact hlive

/-! ### Revocations by a control -/

section Controls

variable {e : Event} {control : AccountAuthorityControl}
  {previousControl : Option AccountAuthorityControl} {d : Draft}

theorem has_tombstonesAfter (h : a.InMemory) (id) :
    (a.tombstonesAfter e control).has id = true ↔ a.revoked.has id = true ∨
      id ∈ control.revoked := by
  have hfold : ∀ (l : List AccountGrantId) (t : Table AccountGrantId EventId),
      (∀ x, a.revoked.has x = true → t.has x = true) →
      ((l.foldl (fun t id => if (a.revokedEvent id).isNone then t.insertOrIgnore id e.id else t)
        t).has id = true ↔ t.has id = true ∨ id ∈ l) := by
    intro l
    induction l with
    | nil => simp
    | cons x l ih =>
      intro t ht
      rw [List.foldl_cons]
      split_ifs with hx
      · rw [ih _ fun y hy => by rw [has_insertOrIgnore, ht y hy, Bool.or_true],
          has_insertOrIgnore]
        simp only [Bool.or_eq_true, decide_eq_true_eq, List.mem_cons]
        tauto
      · have hrev : t.has x = true := by
          refine ht x ?_
          rw [h.revokedEvent, Option.isNone_iff_eq_none] at hx
          exact has_eq_true.mpr (Option.ne_none_iff_exists'.mp hx)
        rw [ih t ht]
        simp only [List.mem_cons]
        constructor
        · rintro (h1 | h1)
          · exact .inl h1
          · exact .inr (.inr h1)
        · rintro (h1 | rfl | h1)
          · exact .inl h1
          · exact .inl hrev
          · exact .inr h1
  exact hfold control.revoked a.revoked fun _ hx => hx

theorem revokedEvent_revise (h : a.InMemory) (e control previousControl d id) :
    ((a.revise e control previousControl d).revokedEvent id).isSome = true ↔
      a.revoked.has id = true ∨ id ∈ control.revoked := by
  rw [← has_tombstonesAfter (e := e) h]
  have hr : (a.revise e control previousControl d).revokedEvent id =
      (a.tombstonesAfter e control).get id := by
    show ((a.tombstonesAfter e control).get id <|> a.history.bind _) = _
    rw [h.history]
    cases (a.tombstonesAfter e control).get id <;> rfl
  rw [hr]
  rfl

theorem get_withoutRevoked (h : a.InMemory) {t account g} :
    ((a.revise e control previousControl d).withoutRevoked t).get account = some g ↔
      t.get account = some g ∧
        ∀ id, g.id = some id → a.revoked.has id = false ∧ id ∉ control.revoked := by
  unfold withoutRevoked
  rw [get_filter_eq_some]
  refine and_congr_right fun _ => ?_
  cases hid : g.id with
  | none => simp
  | some id =>
    rw [any_some]
    constructor
    · rintro hn _ ⟨⟩
      have := (revokedEvent_revise h e control previousControl d id).not.mp (by simpa using hn)
      push Not at this
      exact ⟨by simpa using this.1, this.2⟩
    · intro hn
      obtain ⟨h1, h2⟩ := hn id rfl
      have := (revokedEvent_revise h e control previousControl d id).not.mpr (by simp [h1, h2])
      simpa using this

theorem mem_previousGrants (h : a.InMemory) (hstale : a.isStale control = false) :
    id ∈ a.previousGrants control previousControl ↔ a.Granted id := by
  unfold previousGrants
  rw [hstale]
  simp only [Bool.false_eq_true, if_false, List.mem_toFinset, List.mem_filterMap]
  constructor
  · rintro ⟨g, hg, hid⟩
    obtain ⟨account, hrow⟩ := mem_values.mp hg
    have hget := get_eq_some.mpr hrow
    exact ⟨g, by rw [h.id_eq hget hid]; exact hget, hid⟩
  · rintro ⟨g, hg, hid⟩
    exact ⟨g, mem_values.mpr ⟨_, get_eq_some.mp hg⟩, hid⟩

end Controls

section Applied

variable [Wire] [Sha256] [EventCrypto] {e : Event} {graph : AuthorityGraph}
  {legacy : LegacyAuthorityContext} {control : AccountAuthorityControl}
  {previousControl : Option AccountAuthorityControl} {d₀ d : Draft}

/-- A grant that a control does not remove stands in it as it did. -/
theorem Applies.next_of_kept (h : a.InMemory)
    (ha : Applies a e legacy graph control previousControl d₀ d)
      (hstale : a.isStale control = false)
    {account g} (hg : a.grants.get account = some g) (hid : g.id = some id)
    (hkept : id ∉ control.revoked) : d.next.get account = some g := by
  obtain ⟨u, hremoved⟩ := ha.removed
  obtain rfl := h.id_eq hg hid
  have hprev : id ∈ a.previousGrants control previousControl :=
    (mem_previousGrants h hstale).mpr ⟨g, hg, hid⟩
  have hnext : id ∈ d.nextIds := by
    by_contra hn
    refine hkept (mem_toFinset.mp ?_)
    rw [← (checkRemoved_cases hremoved).1]
    exact mem_sdiff.mpr ⟨hprev, hn⟩
  obtain ⟨g', hg', hid'⟩ := ha.mem_nextIds hnext
  obtain ⟨id₁, hid₁, -, hst | hrev | hsame | ⟨d₁, hch⟩⟩ := (ha.next hg').id
  · rw [hst] at hstale
    cases hstale
  · obtain rfl := mem_unique hid' hid₁
    have hlive := h.live hg hid
    rw [h.revokedEvent] at hrev
    rw [has, hrev] at hlive
    cases hlive
  · rw [hg', ← hg, hsame]
  · obtain rfl := mem_unique hid' hid₁
    have := hch.reused
    rw [hg, any_some] at this
    simp [hid] at this

omit [Wire] [Sha256] [EventCrypto] in
theorem get_applied_grants (h : a.InMemory) {account g} :
    (a.applied e control previousControl legacy graph d).grants.get account = some g ↔
      (if a.isStale control then a.grants else d.next).get account = some g ∧
        ∀ id, g.id = some id → a.revoked.has id = false ∧ id ∉ control.revoked := by
  rw [applied_grants, get_withoutRevoked h]

omit [Wire] [Sha256] [EventCrypto] in
theorem has_applied_revoked (h : a.InMemory) (id) :
    (a.applied e control previousControl legacy graph d).revoked.has id = true ↔
      a.revoked.has id = true ∨ id ∈ control.revoked := by
  rw [applied_revoked, has_tombstonesAfter h]

theorem Applies.granted_or_revoked (h : a.InMemory)
    (ha : Applies a e legacy graph control previousControl d₀ d) (hg : a.Granted id) :
    (a.applied e control previousControl legacy graph d).Granted id ∨
      (a.applied e control previousControl legacy graph d).revoked.has id = true := by
  obtain ⟨g, hg, hid⟩ := hg
  by_cases hr : id ∈ control.revoked
  · exact .inr ((has_applied_revoked h id).mpr (.inr hr))
  · refine .inl ⟨g, (get_applied_grants h).mpr ⟨?_, ?_⟩, hid⟩
    · split_ifs with hstale
      · exact hg
      · exact ha.next_of_kept h (by simpa using hstale) hg hid hr
    · intro id' hid'
      obtain rfl := mem_unique hid hid'
      exact ⟨h.live hg hid, hr⟩

end Applied

/-! ### Events keep the invariant -/

variable {account : PubKey} {g : AccountGrant}

section

variable (h : a.InMemory)
include h

theorem InMemory.current_of_granted (hg : a.grants.get account = some g) : a.current ≠ none := by
  intro hc
  rw [(h.unused hc).2.1] at hg
  cases hg

theorem InMemory.noteDeparture {d} (hd : ∀ x, d = some x → x ∈ a.legacyCandidates) :
    (a.noteDeparture d).InMemory := by
  cases d with
  | none => exact h
  | some d =>
    refine { h with seen := fun k hk => ?_ }
    have hk : (a.legacySeen.upsert (lifetimeKey d.member) d.event (min · d.event)).has k = true :=
      hk
    rw [has_upsert] at hk
    rcases Bool.or_eq_true_iff.mp hk with hk | hk
    · exact ⟨d, hd d rfl, (of_decide_eq_true hk).symm⟩
    · exact h.seen k hk

theorem InMemory.revoke (hg : a.grants.get id.accountPub = some g) (hid : g.id = some id) (e)
    {declined} (hd : ∀ x ∈ declined, x ∈ a.declinedEpochReservations ∨ x = id) :
    { a with
      declinedEpochReservations := declined
      revoked := a.revoked.insertOrIgnore id e
      grants := a.grants.erase id.accountPub }.InMemory := by
  have hhas (x : AccountGrantId) :
      (a.revoked.insertOrIgnore id e).has x = true ↔ x = id ∨ a.revoked.has x = true := by
    rw [has_insertOrIgnore, Bool.or_eq_true_iff, decide_eq_true_eq]
  refine { h with
    unused := fun hc => absurd hc (h.current_of_granted hg)
    keyed := fun account g' hg' => ?_
    added := fun x hx => ?_
    declined := fun x hx => ?_
    counted := fun account g' x hg' => h.counted account g' x (get_of_get_erase hg') }
  · rw [show get _ account = _ from get_erase _ _ account] at hg'
    split_ifs at hg' with hacc
    obtain ⟨id', hid', rfl, hlive⟩ := h.keyed account g' hg'
    refine ⟨id', hid', rfl, Bool.eq_false_iff.mpr fun hr => ?_⟩
    rcases (hhas id').mp hr with rfl | hr
    · exact hacc rfl
    · rw [hlive] at hr
      cases hr
  · by_cases hxid : x = id
    · exact .inr ((hhas x).mpr (.inl hxid))
    rcases h.added x hx with ⟨g', hg', hid'⟩ | hr
    · refine .inl ⟨g', ?_, hid'⟩
      rw [show get _ x.accountPub = _ from get_erase _ _ _, if_neg, hg']
      intro hacc
      rw [hacc, hg] at hg'
      cases hg'
      exact hxid (mem_unique hid' hid)
    · exact .inr ((hhas x).mpr (.inr hr))
  · rcases hd x hx with hx | rfl
    · exact (hhas x).mpr (.inr (h.declined x hx))
    · exact (hhas x).mpr (.inl rfl)

theorem InMemory.left_revoked (hg : a.grants.get account = some g) (hid : g.id = some id) (e) :
    (if (a.revokedEvent id).isNone then a.revoked.set id e else a.revoked) =
      a.revoked.insertOrIgnore id e := by
  have hnone : a.revoked.get id = none := Table.has_eq_false.mp (h.live hg hid)
  rw [h.revokedEvent, hnone]
  obtain ⟨t, ht, -⟩ := Table.insertNew_of_get (v := e) hnone
  simp [Table.set, Table.upsert, Table.insertOrIgnore, ht]

theorem InMemory.activate (hg : a.grants.get account = some g) (hid : g.id = some id) (events) :
    { a with
      acceptanceEvents := events
      activated := insert id a.activated
      addedGrants := if a.hadAdded id then a.addedGrants else insert id a.addedGrants
        }.InMemory := by
  have hadded : (if a.hadAdded id then a.addedGrants else insert id a.addedGrants) =
      insert id a.addedGrants := by
    split_ifs with had
    · rw [insert_eq_of_mem ((h.hadAdded id).mp had)]
    · rfl
  rw [hadded]
  obtain rfl := h.id_eq hg hid
  refine { h with
    unused := fun hc => absurd hc (h.current_of_granted hg)
    added := fun x hx => ?_
    counted := fun account g' x hg' hx hp hmem => ?_ }
  · rcases mem_insert.mp hx with rfl | hx
    · exact .inl ⟨g, hg, hid⟩
    · exact h.added x hx
  · rcases mem_insert.mp hmem with rfl | hmem
    · exact mem_insert_self _ _
    · exact mem_insert_of_mem (h.counted account g' x hg' hx hp hmem)

end

section Effects

variable [Wire] [Sha256] [EventCrypto] {e : Event} {graph : AuthorityGraph}
  {legacy : LegacyAuthorityContext} {control : AccountAuthorityControl}
  {previousControl : Option AccountAuthorityControl} {d₀ d : Draft}

/-- An incarnation that a control counts up is granted by it, and has not been before. -/
theorem Applies.mem_addedAfter (h : a.InMemory)
    (ha : Applies a e legacy graph control previousControl d₀ d)
    (hid : id ∈ a.addedAfter control previousControl d) : id ∈ a.addedGrants ∨
      a.isStale control = false ∧ a.current ≠ none ∧ ¬ a.Granted id ∧ a.revoked.has id = false ∧
        id ∉ control.revoked ∧
        ∃ g, d.next.get id.accountPub = some g ∧ g.id = some id ∧ g.pending = false := by
  unfold addedAfter at hid
  split_ifs at hid with hc
  · rcases Finset.mem_union.mp hid with hid | hid
    · exact .inl hid
    obtain ⟨hmem, hlive, -, hpending⟩ := Finset.mem_filter.mp hid
    obtain ⟨hnext, hprev⟩ := Finset.mem_sdiff.mp hmem
    obtain ⟨g, hg, hgid⟩ := ha.mem_nextIds hnext
    rw [hg, Option.any_some] at hpending
    rw [h.revokedEvent, Option.isNone_iff_eq_none] at hlive
    obtain ⟨u, hremoved⟩ := ha.removed
    refine .inr ⟨hc.2, hc.1, fun hgr => hprev ((mem_previousGrants h hc.2).mpr hgr),
      has_eq_false.mpr hlive, fun hr => ?_, g, hg, hgid, by simpa using hpending⟩
    have : id ∈ a.previousGrants control previousControl \ d.nextIds := by
      rw [(checkRemoved_cases hremoved).1]
      exact List.mem_toFinset.mpr hr
    exact (Finset.mem_sdiff.mp this).2 hnext
  · exact .inl hid

theorem InMemory.applied (h : a.InMemory) (ha :
    Applies a e legacy graph control previousControl d₀ d) :
    (a.applied e control previousControl legacy graph d).InMemory := by
  have hfix : (a.applied e control previousControl legacy graph d).fixed = a.fixed := applied_fixed
  have hseen : (a.applied e control previousControl legacy graph d).legacySeen = a.legacySeen :=
    congrArg (·.2.2.2.1) hfix
  have hcandidates : (a.applied e control previousControl legacy graph d).legacyCandidates =
    a.legacyCandidates := congrArg (·.2.1) hfix
  refine
    { history := (congrArg (·.1) hfix).trans h.history
      historicalAdded := (congrArg (·.2.2.2.2.2.1) hfix).trans h.historicalAdded
      historicalRevoked := (congrArg (·.2.2.2.2.2.2) hfix).trans h.historicalRevoked
      legacyRevoked := (congrArg (·.2.2.2.2.1) hfix).trans h.legacyRevoked
      legacyCandidateLifetimes := (congrArg (·.2.2.1) hfix).trans h.legacyCandidateLifetimes
      unused := fun hc => ?_
      used := fun _ => ?_
      keyed := fun account g hg => ?_
      added := fun x hx => ?_
      declined := fun x hx => ?_
      counted := fun account g x hg hx hp hmem => ?_
      seen := fun k hk => ?_ }
  · -- after a control there is a current one
    rw [applied_current] at hc
    split_ifs at hc with hstale
    rw [isStale_of_first hc] at hstale
    cases hstale
  · rw [applied_owner]
    by_cases hc : a.current = none
    · rw [isStale_of_first hc, (applied_of_first hc).1]
      simp
    · rw [(applied_of_used hc).1]
      refine ⟨?_, (h.used hc).2⟩
      split_ifs
      · exact (h.used hc).1
      · simp
  · obtain ⟨hg, hlive⟩ := (get_applied_grants h).mp hg
    have hkeyed : ∃ id, g.id = some id ∧ id.accountPub = account := by
      split_ifs at hg
      · obtain ⟨id, hid, hacc, -⟩ := h.keyed account g hg
        exact ⟨id, hid, hacc⟩
      · obtain ⟨id, hid, hacc, -⟩ := (ha.next hg).id
        exact ⟨id, hid, hacc⟩
    obtain ⟨id, hid, hacc⟩ := hkeyed
    refine ⟨id, hid, hacc, Bool.eq_false_iff.mpr fun hr => ?_⟩
    obtain ⟨h1, h2⟩ := hlive id hid
    rcases (has_applied_revoked h id).mp hr with hr | hr
    · rw [h1] at hr
      cases hr
    · exact h2 hr
  · rw [applied_added] at hx
    rcases ha.mem_addedAfter h hx with hx | ⟨hstale, -, -, hlive, hkept, g, hg, hid, -⟩
    · rcases h.added x hx with hgr | hr
      · exact ha.granted_or_revoked h hgr
      · exact .inr ((has_applied_revoked h x).mpr (.inl hr))
    · refine .inl ⟨g, (get_applied_grants h).mpr ⟨?_, ?_⟩, hid⟩
      · rw [hstale]
        exact hg
      · intro id' hid'
        obtain rfl := mem_unique hid hid'
        exact ⟨hlive, hkept⟩
  · rw [applied_self.2] at hx
    exact (has_applied_revoked h x).mpr (.inl (h.declined x hx))
  · rw [applied_self.1]
    rw [applied_added] at hmem
    obtain ⟨hg, hlive⟩ := (get_applied_grants h).mp hg
    split_ifs at hg with hstale
    · rcases ha.mem_addedAfter h hmem with hmem | ⟨hst, -⟩
      · exact h.counted account g x hg hx hp hmem
      · rw [hstale] at hst
        cases hst
    · have hstale : a.isStale control = false := by simpa using hstale
      obtain ⟨id, hid, hacc, hst | hrev | hsame | ⟨d₁, hch⟩⟩ := (ha.next hg).id
      · rw [hst] at hstale
        cases hstale
      · -- a revoked incarnation is not granted
        obtain rfl := mem_unique hx hid
        have := (hlive x hx).1
        rw [h.revokedEvent] at hrev
        rw [has, hrev] at this
        cases this
      · rcases ha.mem_addedAfter h hmem with hmem | ⟨-, -, hnew, -⟩
        · exact h.counted account g x hsame hx hp hmem
        · exact absurd ⟨g, by rw [h.id_eq hsame hx]; exact hsame, hx⟩ hnew
      · -- a changed grant has an incarnation of its own
        obtain rfl := mem_unique hx hid
        have hnew : ¬ a.Granted x := by
          rintro ⟨old, hold, holdid⟩
          have := hch.reused
          rw [hold, any_some] at this
          simp [holdid] at this
        rcases ha.mem_addedAfter h hmem with hmem | ⟨-, -, -, -, -, g', hg', -, hp'⟩
        · rcases h.added x hmem with hgr | hr
          · exact absurd hgr hnew
          · rw [(hlive x hx).1] at hr
            cases hr
        · rw [hacc, hg] at hg'
          cases hg'
          rw [hp] at hp'
          cases hp'
  · rw [hseen] at hk
    rw [hcandidates]
    exact h.seen k hk

end Effects

end AccountAuthority

namespace MembershipReducer

variable [Wire] [Sha256] [EventCrypto] {r : MembershipReducer} {e : Event} {graph : AuthorityGraph}
  {a' : AccountAuthority}

/-- **Events keep the invariant.** -/
theorem Effect.inMemory (h : r.authority.InMemory) (he : Effect r e graph a') : a'.InMemory := by
  cases he with
  | kept => exact h
  | observed => exact { h with }
  | activated _ hgrant hid =>
    obtain ⟨_, ht⟩ := AccountAuthority.takesPart_of_proofGrant hgrant
    obtain ⟨account, -, hg⟩ := ht.account
    exact h.activate hg hid _
  | left _ hgrant hid =>
    obtain ⟨_, ht⟩ := AccountAuthority.takesPart_of_grantForDevice hgrant
    obtain ⟨account, -, hg⟩ := ht.account
    obtain rfl := h.id_eq hg hid
    rw [h.left_revoked hg hid]
    exact h.revoke hg hid e.id fun x hx => .inl hx
  | replayed _ hg hid =>
    obtain rfl := h.id_eq hg hid
    exact h.revoke hg hid e.id fun x hx => .inl hx
  | declined _ hgrant hid =>
    obtain ⟨_, ht⟩ := AccountAuthority.takesPart_of_proofGrant hgrant
    obtain ⟨account, -, hg⟩ := ht.account
    obtain rfl := h.id_eq hg hid
    exact h.revoke hg hid e.id fun x hx => (mem_insert.mp hx).symm
  | inherited => exact { h with }
  | applied _ ha => exact h.applied ha

/-- **A grant is lost by revocation only.** -/
theorem Effect.granted_or_revoked (h : r.authority.InMemory) (he : Effect r e graph a') {id}
    (hg : r.authority.Granted id) : a'.Granted id ∨ a'.revoked.has id = true := by
  have herase {id₁ : AccountGrantId} {g₁ : AccountGrant}
      (hg₁ : r.authority.grants.get id₁.accountPub = some g₁) (hid₁ : g₁.id = some id₁) :
      (∃ g, (r.authority.grants.erase id₁.accountPub).get id.accountPub = some g ∧ g.id = some id) ∨
        (r.authority.revoked.insertOrIgnore id₁ e.id).has id = true := by
    obtain ⟨g, hg, hid⟩ := hg
    rw [has_insertOrIgnore, get_erase]
    by_cases heq : id = id₁
    · simp [heq]
    · refine .inl ⟨g, ?_, hid⟩
      rw [if_neg, hg]
      intro hacc
      rw [hacc, hg₁] at hg
      cases hg
      exact heq (mem_unique hid hid₁)
  cases he with
  | kept => exact .inl hg
  | observed => exact .inl hg
  | activated => exact .inl hg
  | left _ hgrant hid =>
    obtain ⟨_, ht⟩ := AccountAuthority.takesPart_of_grantForDevice hgrant
    obtain ⟨account, -, hget⟩ := ht.account
    obtain rfl := h.id_eq hget hid
    rw [h.left_revoked hget hid]
    exact herase hget hid
  | replayed _ hget hid =>
    obtain rfl := h.id_eq hget hid
    exact herase hget hid
  | declined _ hgrant hid =>
    obtain ⟨_, ht⟩ := AccountAuthority.takesPart_of_proofGrant hgrant
    obtain ⟨account, -, hget⟩ := ht.account
    obtain rfl := h.id_eq hget hid
    exact herase hget hid
  | inherited => exact .inl hg
  | applied _ ha => exact ha.granted_or_revoked h hg

theorem Effect.revoked_mono (h : r.authority.InMemory) (he : Effect r e graph a') {id}
    (hr : r.authority.revoked.has id = true) : a'.revoked.has id = true := by
  have hinsert (id₁ : AccountGrantId) : (r.authority.revoked.insertOrIgnore id₁ e.id).has
    id = true := by
    rw [has_insertOrIgnore, hr, Bool.or_true]
  cases he with
  | left _ hgrant hid =>
    obtain ⟨_, ht⟩ := AccountAuthority.takesPart_of_grantForDevice hgrant
    obtain ⟨account, -, hget⟩ := ht.account
    rw [h.left_revoked hget hid]
    exact hinsert _
  | replayed => exact hinsert _
  | declined => exact hinsert _
  | applied => exact (AccountAuthority.has_applied_revoked h id).mpr (.inl hr)
  | kept => exact hr
  | observed => exact hr
  | activated => exact hr
  | inherited => exact hr

/-! ### Pure reductions -/

structure InMemory (candidates : List LegacyDeparture) (r : MembershipReducer) : Prop where
  authority : r.authority.InMemory
  history : r.history = none
  candidates : r.authority.legacyCandidates = candidates

variable {candidates : List LegacyDeparture}

omit [Wire] [Sha256] [EventCrypto] in
theorem InMemory.departureOf_mem (h : r.InMemory candidates) {d} (hd : r.departureOf e = some d) :
    d ∈ candidates ∧ d.event = e.id := by
  unfold departureOf AccountAuthority.legacyCandidate at hd
  rw [h.authority.history] at hd
  split_ifs at hd
  have hd : r.authority.legacyCandidates.find? (fun d => d.event = e.id) = some d := by
    simpa using hd
  exact ⟨h.candidates ▸ mem_of_find?_eq_some hd, by simpa using find?_some hd⟩

theorem InMemory.step_cases (h : r.InMemory candidates) (e graph) :
    (r.step e graph).2 = r ∨ Reduced r e graph (r.step e graph).1 (r.step e graph).2 := by
  have hs := MembershipReducer.step_cases r e graph
  rw [prepared_of_pure h.authority.history] at hs
  rcases hs with hs | hs
  · exact .inl (by rw [hs])
  · exact .inr hs

/-- What a step makes of the authority: the effect of the event, and a departure noted. -/
theorem Reduced.effect {closed r'} (h : Reduced r e graph closed r') :
    ∃ a', Effect r e graph a' ∧ ∃ d, (d = none ∨ d = r.departureOf e) ∧
      r'.authority = a'.noteDeparture d := by
  obtain ⟨a', hmoved, ha⟩ := h.authority
  refine ⟨a', hmoved.effect, ?_⟩
  split_ifs at ha
  · exact ⟨_, .inr rfl, ha⟩
  · exact ⟨none, .inl rfl, ha⟩

theorem InMemory.step (h : r.InMemory candidates) (e graph) :
    (r.step e graph).2.InMemory candidates := by
  rcases h.step_cases e graph with hs | hs
  · rw [hs]
    exact h
  · obtain ⟨a', heff, d, hd, ha⟩ := hs.effect
    have hcand : a'.legacyCandidates = candidates :=
      (congrArg (·.2.1) heff.fixed).trans h.candidates
    refine ⟨?_, hs.history.trans h.history, ?_⟩
    · rw [ha]
      refine (heff.inMemory h.authority).noteDeparture fun x hx => ?_
      rcases hd with rfl | rfl
      · cases hx
      · rw [hcand]
        exact (h.departureOf_mem hx).1
    · rw [ha]
      cases d <;> exact hcand

omit [Wire] [Sha256] [EventCrypto] in
theorem inMemory_start (channel candidates) :
    ({ channelId := channel, authority := ({} : AccountAuthority).setLegacyCandidates candidates } :
      MembershipReducer).InMemory candidates := by
  refine ⟨⟨rfl, rfl, rfl, rfl, rfl, fun _ => ⟨rfl, rfl, rfl, rfl, rfl, rfl⟩, fun hc =>
    absurd rfl hc, ?_, ?_, ?_, ?_, ?_⟩, rfl, rfl⟩
  · intro account g hg
    cases hg
  · intro id hid
    exact absurd hid (notMem_empty _)
  · intro id hid
    exact absurd hid (notMem_empty _)
  · intro account g id hg
    cases hg
  · intro k hk
    cases hk

end MembershipReducer

def candidatesOf [Wire] [Sha256] [EventCrypto] (channel : ConversationId) (events : List Event) :
    List LegacyDeparture :=
  if (orderedEvents events).any fun e => e.kind = .channelAccountAuthority then
    legacyParentCutDepartures channel (orderedEvents events) (byId events)
  else []

theorem reduceFirst_inMemory [Wire] [Sha256] [EventCrypto] (channel events n) :
    (reduceFirst channel events n).InMemory (candidatesOf channel events) := by
  refine reduceFirst_inv channel events ?_ (fun r hr e _ => hr.step e _) n
  unfold startReducer candidatesOf
  split_ifs
  · exact inMemory_start channel _
  · exact inMemory_start channel []

end MeshTalk.Channel
