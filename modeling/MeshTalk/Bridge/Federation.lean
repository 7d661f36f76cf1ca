import MeshTalk.Bridge.Directory

/-! # Federated directories

Relays tell each other about their clients. What a relay has exported may reach every other relay,
in parts, any number of times, in any order and at any time, and is passed on from there. All relays
read one clock. -/

namespace MeshTalk.Bridge

open Lib Channel List BridgeDirectory

/-- The relays, what they have exported, and, for the proofs, which clients have registered where
and when, and which entries relays have received and stored. -/
structure Network (ι : Type) where
  now : ℕ
  relays : ι → BridgeDirectory
  exported : List (FederatedPresence × Option ℕ)
  registrations : List (ι × Announce × ℕ)
  accepted : List (ι × FederatedPresence × ℕ)

namespace Network

/-- What happens: time passes, a client registers, a relay learns its gateway, exports, receives
something that was exported, with or without distances, or is told whatever a hostile neighbour
makes up. -/
inductive Action (ι : Type) where
  | wait (duration : ℕ)
  | register (r : ι) (client : PublicIdentity) (presence : Option Announce) (publiclyVisible : Bool)
  | gateway (r : ι) (proof : Option Announce)
  | publish (r : ι)
  | receive (r : ι) (picks : List ℕ) (routed : Bool)
  | inject (r : ι) (entries : List (FederatedPresence × Option ℕ))

def Action.honest {ι : Type} : Action ι → Bool
  | .inject _ _ => false
  | _ => true

variable {ι : Type} [DecidableEq ι] [Sha256] [EventCrypto]

def update (s : Network ι) (r : ι) (d : BridgeDirectory) : Network ι :=
  { s with relays := Function.update s.relays r d }

def importAt (s : Network ι) (r : ι) (entries : List (FederatedPresence × Option ℕ)) : Network ι :=
  let d := (s.relays r).importPresence entries (unixSeconds s.now)
  let stored := entries.filter fun e => d.remoteMembers.get e.1.announce.userId = some e.1
  { s.update r d with accepted := s.accepted ++ stored.map fun e => (r, e.1, s.now) }

def step (s : Network ι) : Action ι → Network ι
  | .wait duration => { s with now := s.now + duration }
  | .register r client presence publiclyVisible =>
    let result := (s.relays r).register client presence publiclyVisible s.now
    let proof := (BridgeDirectory.registrable client presence publiclyVisible).filter fun _ =>
      result.2.isSome
    { s.update r result.1 with
      registrations := s.registrations ++ proof.toList.map fun p => (r, p, s.now) }
  | .gateway r proof => s.update r { s.relays r with gateway := proof }
  | .publish r =>
    { s with
      exported := s.exported ++ (s.relays r).exportPresenceSources s.now (unixSeconds s.now) }
  | .receive r picks routed =>
    s.importAt r ((picks.filterMap (s.exported[·]?)).map fun e =>
      (e.1, if routed then e.2 else none))
  | .inject r entries => s.importAt r entries

def new : Network ι := ⟨0, fun _ => .empty, [], [], []⟩

def run (s : Network ι) (actions : List (Action ι)) : Network ι := actions.foldl step s

/-! ### Whatever the neighbours tell -/

/-- What holds of all relays. -/
structure Inv (s : Network ι) : Prop where
  registered : ∀ r x t, (r, x, t) ∈ s.registrations → t ≤ s.now
  members : ∀ r id x seen, (s.relays r).members.get id = some (x, seen) →
    (r, x, seen) ∈ s.registrations
  accepted : ∀ r p t, (r, p, t) ∈ s.accepted → t ≤ s.now ∧
    p.expiresAtSecs ≤ unixSeconds t + maxWireTtl
  remote : ∀ r id p, (s.relays r).remoteMembers.get id = some p → ∃ t, (r, p, t) ∈ s.accepted

/-- A client has registered, and an entry for it does not outlast the registration. -/
def Fresh (s : Network ι) (p : FederatedPresence) : Prop :=
  ∃ r t, (r, p.announce, t) ∈ s.registrations ∧ p.expiresAtSecs ≤ unixSeconds t + ttl + 1

/-- What relays know and tell of others stems from registrations. -/
structure Honest (s : Network ι) : Prop where
  remote : ∀ r id p, (s.relays r).remoteMembers.get id = some p → s.Fresh p
  exported : ∀ e ∈ s.exported, s.Fresh e.1

section
omit [DecidableEq ι] [Sha256] [EventCrypto]

theorem inv_new : Inv (new : Network ι) where
  registered := fun _ _ _ h => absurd h not_mem_nil
  members := nofun
  accepted := fun _ _ _ h => absurd h not_mem_nil
  remote := nofun

theorem honest_new : Honest (new : Network ι) where
  remote := nofun
  exported := fun _ h => absurd h not_mem_nil

end

section Steps

variable {s : Network ι}

omit [Sha256] [EventCrypto] in
theorem relays_update {r q d} : (s.update r d).relays q = if q = r then d else s.relays q := by
  unfold update
  dsimp only
  by_cases hq : q = r
  · subst hq
    rw [Function.update_self, if_pos rfl]
  · rw [Function.update_of_ne hq, if_neg hq]

theorem Inv.importAt (h : Inv s) (r entries) : Inv (s.importAt r entries) := by
  have hi := (s.relays r).importPresence_spec entries (unixSeconds s.now)
  have hold : ∀ a ∈ s.accepted, a ∈ (s.importAt r entries).accepted := fun a ha =>
    mem_append_left _ ha
  -- what is stored was stored before or is given now, within the lease
  have hlease (id : String) (p : FederatedPresence)
      (hp : ((s.relays r).importPresence entries (unixSeconds s.now)).remoteMembers.get id =
        some p) :
      p.expiresAtSecs ≤ unixSeconds s.now + maxWireTtl := by
    rcases hi.remote id p hp with hp | ⟨-, -, -, hle⟩
    · obtain ⟨t, ht⟩ := h.remote r id p hp
      obtain ⟨hnow, hle⟩ := h.accepted r p t ht
      have := unixSeconds_mono hnow
      omega
    · exact hle
  refine ⟨h.registered, fun q id x seen hx => ?_, fun q p t ht => ?_, fun q id p hp => ?_⟩
  · have hx' : ((s.update r _).relays q).members.get id = some (x, seen) := hx
    rw [relays_update] at hx'
    split at hx'
    · next hq =>
      rw [hi.members] at hx'
      exact hq ▸ h.members r id x seen hx'
    · exact h.members q id x seen hx'
  · rcases mem_append.mp ht with ht | ht
    · exact h.accepted q p t ht
    · obtain ⟨e, he, heq⟩ := mem_map.mp ht
      cases heq
      exact ⟨le_rfl, hlease _ _ (of_decide_eq_true (mem_filter.mp he).2)⟩
  · have hp' : ((s.update r _).relays q).remoteMembers.get id = some p := hp
    rw [relays_update] at hp'
    split at hp'
    · next hq =>
      subst hq
      rcases hi.remote id p hp' with hp | ⟨⟨hops, hm⟩, hid, -⟩
      · obtain ⟨t, ht⟩ := h.remote q id p hp
        exact ⟨t, hold _ ht⟩
      · refine ⟨s.now, mem_append_right _ (mem_map.mpr ⟨(p, hops), ?_, rfl⟩)⟩
        exact mem_filter.mpr ⟨hm, decide_eq_true (hid ▸ hp')⟩
    · obtain ⟨t, ht⟩ := h.remote q id p hp'
      exact ⟨t, hold _ ht⟩

theorem Inv.register (h : Inv s) (r client presence publiclyVisible) :
    Inv (s.step (.register r client presence publiclyVisible)) := by
  obtain ⟨hmembers, hremote, -⟩ :=
    (s.relays r).register_spec client presence publiclyVisible s.now
  have hold : ∀ g ∈ s.registrations,
      g ∈ (s.step (.register r client presence publiclyVisible)).registrations := fun g hg =>
    mem_append_left _ hg
  have hretained (id : String) (x : Announce) (seen : ℕ)
      (hx : ((s.relays r).retain s.now).members.get id = some (x, seen)) :
      (r, x, seen) ∈ (s.step (.register r client presence publiclyVisible)).registrations :=
    hold _ (h.members r id x seen (get_members_retain hx).1)
  refine ⟨fun q x t hg => ?_, fun q id x seen hx => ?_, h.accepted, fun q id p hp => ?_⟩
  · rcases mem_append.mp hg with hg | hg
    · exact h.registered q x t hg
    · obtain ⟨p, -, heq⟩ := mem_map.mp hg
      cases heq
      exact le_rfl
  · have hx' : ((s.update r _).relays q).members.get id = some (x, seen) := hx
    rw [relays_update] at hx'
    split at hx'
    · next hq =>
      subst hq
      rcases hmembers with ⟨proof, hproof, hsome, hm⟩ | hm
      · rw [hm, Table.get_set] at hx'
        split at hx'
        · cases hx'
          refine mem_append_right _ (mem_map.mpr ⟨x, ?_, rfl⟩)
          exact Option.mem_toList.mpr (Option.filter_eq_some_iff.mpr ⟨hproof, hsome⟩)
        · exact hretained id x seen hx'
      · rw [hm] at hx'
        exact hretained id x seen hx'
    · exact hold _ (h.members q id x seen hx')
  · have hp' : ((s.update r _).relays q).remoteMembers.get id = some p := hp
    rw [relays_update] at hp'
    split at hp'
    · next hq =>
      rw [hremote] at hp'
      exact hq ▸ h.remote r id p (get_remote_retain hp').1
    · exact h.remote q id p hp'

/-- **One step**, whatever the neighbours tell. -/
theorem inv_step (h : Inv s) (a) : Inv (s.step a) := by
  cases a with
  | wait duration =>
    exact ⟨fun r x t hg => (h.registered r x t hg).trans (Nat.le_add_right _ _), h.members,
      fun r p t ht => ⟨(h.accepted r p t ht).1.trans (Nat.le_add_right _ _),
        (h.accepted r p t ht).2⟩,
      h.remote⟩
  | register r client presence publiclyVisible => exact h.register r client presence publiclyVisible
  | gateway r proof =>
    have hrelay (q : ι) : ((s.step (.gateway r proof)).relays q).members = (s.relays q).members ∧
        ((s.step (.gateway r proof)).relays q).remoteMembers = (s.relays q).remoteMembers := by
      unfold step
      rw [relays_update]
      split
      · next hq => exact ⟨hq ▸ rfl, hq ▸ rfl⟩
      · exact ⟨rfl, rfl⟩
    exact ⟨h.registered, fun q id x seen hx => h.members q id x seen ((hrelay q).1 ▸ hx),
      h.accepted, fun q id p hp => h.remote q id p ((hrelay q).2 ▸ hp)⟩
  | publish r => exact ⟨h.registered, h.members, h.accepted, h.remote⟩
  | receive r picks routed => exact h.importAt r _
  | inject r entries => exact h.importAt r entries

/-- **Every run**, whatever the neighbours tell. -/
theorem inv_run (actions : List (Action ι)) : Inv (new.run actions) :=
  foldlRecOn actions step inv_new fun _ h a _ => inv_step h a

/-! ### Honest neighbours -/

section
omit [DecidableEq ι] [Sha256] [EventCrypto]

variable {p : FederatedPresence}

theorem Fresh.mono {s' : Network ι} (h : s.Fresh p)
    (hr : ∀ g ∈ s.registrations, g ∈ s'.registrations) : s'.Fresh p := by
  obtain ⟨r, t, hg, hle⟩ := h
  exact ⟨r, t, hr _ hg, hle⟩

/-- What is left of a registration in whole seconds, after the time of day in whole seconds, is at
most a second more than the registration. -/
theorem Inv.fresh_export (h : Inv s) (hh : Honest s) {r}
    (hp : p ∈ (s.relays r).exportFederated s.now (unixSeconds s.now)) : s.Fresh p := by
  rcases mem_exportFederated hp with ⟨id, seen, hget, hage, hexp⟩ | ⟨id, hget, -⟩
  · have hg := h.members r id p.announce seen hget
    have hseen := h.registered r p.announce seen hg
    refine ⟨r, seen, hg, ?_⟩
    have hle := saturatingAdd_le u64Max (unixSeconds s.now) (ttl - (s.now - seen) / nanos)
    rw [← hexp] at hle
    unfold unixSeconds ttl nanos at *
    omega
  · exact hh.remote r id p hget

end

theorem Honest.importAt (hh : Honest s) (r) {entries} (he : ∀ e ∈ entries, s.Fresh e.1) :
    Honest (s.importAt r entries) := by
  have hi := (s.relays r).importPresence_spec entries (unixSeconds s.now)
  refine ⟨fun q id p hp => ?_, hh.exported⟩
  have hp' : ((s.update r _).relays q).remoteMembers.get id = some p := hp
  rw [relays_update] at hp'
  split at hp'
  · rcases hi.remote id p hp' with hp | ⟨⟨hops, hm⟩, -⟩
    · exact hh.remote r id p hp
    · exact he _ hm
  · exact hh.remote q id p hp'

/-- **One step** of honest relays. -/
theorem honest_step (h : Inv s) (hh : Honest s) {a : Action ι} (ha : a.honest = true) :
    Honest (s.step a) := by
  cases a with
  | wait duration => exact ⟨hh.remote, hh.exported⟩
  | register r client presence publiclyVisible =>
    obtain ⟨-, hremote, -⟩ := (s.relays r).register_spec client presence publiclyVisible s.now
    have hold : ∀ g ∈ s.registrations,
        g ∈ (s.step (.register r client presence publiclyVisible)).registrations := fun g hg =>
      mem_append_left _ hg
    refine ⟨fun q id p hp => ?_, fun e he => (hh.exported e he).mono hold⟩
    have hp' : ((s.update r _).relays q).remoteMembers.get id = some p := hp
    rw [relays_update] at hp'
    split at hp'
    · rw [hremote] at hp'
      exact (hh.remote r id p (get_remote_retain hp').1).mono hold
    · exact (hh.remote q id p hp').mono hold
  | gateway r proof =>
    refine ⟨fun q id p hp => ?_, hh.exported⟩
    have hp' : ((s.update r _).relays q).remoteMembers.get id = some p := hp
    rw [relays_update] at hp'
    split at hp'
    · exact hh.remote r id p hp'
    · exact hh.remote q id p hp'
  | publish r =>
    refine ⟨hh.remote, fun e he => ?_⟩
    rcases mem_append.mp he with he | he
    · exact hh.exported e he
    · obtain ⟨p, hp, rfl⟩ := mem_map.mp he
      exact h.fresh_export hh hp
  | receive r picks routed =>
    refine hh.importAt r fun e he => ?_
    obtain ⟨e', he', rfl⟩ := mem_map.mp he
    obtain ⟨n, -, hn⟩ := mem_filterMap.mp he'
    exact hh.exported e' (mem_of_getElem? hn)
  | inject r entries => cases ha

/-- **Every run** of honest relays. -/
theorem honest_run (actions : List (Action ι)) (ha : ∀ a ∈ actions, a.honest = true) :
    Honest (new.run actions) := by
  have h : Inv (new.run actions) ∧ Honest (new.run actions) :=
    foldlRecOn (motive := fun s => Inv s ∧ Honest s) actions step ⟨inv_new, honest_new⟩
      fun _ h a hm => ⟨inv_step h.1 a, honest_step h.1 h.2 (ha a hm)⟩
  exact h.2

end Steps

/-- A relay introduces a client to one that registers now. -/
def Serves (s : Network ι) (r : ι) (x : Announce) : Prop :=
  x.postOffice = false ∧ ∃ client presence publiclyVisible,
    x ∈ ((s.relays r).register client presence publiclyVisible s.now).2.getD []

def Exports (s : Network ι) (r : ι) (p : FederatedPresence) : Prop :=
  p ∈ (s.relays r).exportFederated s.now (unixSeconds s.now)

/-- A client has registered with a relay for less than a time. -/
def Registered (s : Network ι) (x : Announce) (secs : ℕ) : Prop :=
  ∃ r t, (r, x, t) ∈ s.registrations ∧ t ≤ s.now ∧ s.now < t + secs * nanos

/-- A relay has received an entry, and each time for less than a time. -/
def Received (s : Network ι) (r : ι) (p : FederatedPresence) (secs : ℕ) : Prop :=
  (∃ t, (r, p, t) ∈ s.accepted) ∧ ∀ t, (r, p, t) ∈ s.accepted → s.now < t + secs * nanos

section

variable {s : Network ι}

omit [DecidableEq ι] in
theorem serves_cases {r x} (hx : s.Serves r x) :
    (s.relays r).Local s.now x ∨ ∃ p, (s.relays r).Remote (unixSeconds s.now) p ∧
      p.announce = x := by
  obtain ⟨hoffice, client, presence, publiclyVisible, hx⟩ := hx
  rcases ((s.relays r).register_spec client presence publiclyVisible s.now).2.2 x hx with
    h | h | ⟨-, h⟩
  · exact .inl h
  · exact .inr h
  · rw [hoffice] at h
    cases h

section
omit [DecidableEq ι] [Sha256] [EventCrypto]

variable {p : FederatedPresence}

theorem exports_cases {r} (hp : s.Exports r p) :
    (s.relays r).Local s.now p.announce ∨ (s.relays r).Remote (unixSeconds s.now) p := by
  rcases mem_exportFederated hp with ⟨id, seen, hget, hage, -⟩ | h
  · refine .inl ⟨id, seen, hget, ?_⟩
    unfold ttl nanos at *
    omega
  · exact .inr h

theorem Inv.registered_local (h : Inv s) {r x} (hx : (s.relays r).Local s.now x) :
    ∃ t, (r, x, t) ∈ s.registrations ∧ t ≤ s.now ∧ s.now < t + ttl * nanos := by
  obtain ⟨id, seen, hget, hage⟩ := hx
  have hg := h.members r id x seen hget
  have hle := h.registered r x seen hg
  refine ⟨seen, hg, hle, ?_⟩
  omega

theorem Inv.registered_fresh (h : Inv s) (hf : s.Fresh p)
    (hlive : unixSeconds s.now < p.expiresAtSecs) : s.Registered p.announce (ttl + 1) := by
  obtain ⟨q, t, hg, hle⟩ := hf
  refine ⟨q, t, hg, h.registered q _ t hg, ?_⟩
  unfold unixSeconds ttl nanos at *
  omega

theorem Inv.received_remote (h : Inv s) {r} (hp : (s.relays r).Remote (unixSeconds s.now) p) :
    s.Received r p maxWireTtl := by
  obtain ⟨id, hget, hlive⟩ := hp
  refine ⟨h.remote r id p hget, fun t ht => ?_⟩
  have hle := (h.accepted r p t ht).2
  unfold unixSeconds maxWireTtl nanos at *
  omega

theorem registered_mono {x a b} (h : s.Registered x a) (hab : a ≤ b) : s.Registered x b := by
  obtain ⟨r, t, hg, hle, hlt⟩ := h
  exact ⟨r, t, hg, hle, hlt.trans_le (Nat.add_le_add_left (Nat.mul_le_mul_right _ hab) _)⟩

end

end

end Network

open Network in
/-- **A departed client goes offline.** In every run of relays, honest ones among honest neighbours
introduce and export a client only for less than its lease and a second after it registered
somewhere. Whatever the neighbours tell, a relay introduces and exports a client only for less than
its lease after it registered there, or by an entry that was received less than the longest lease
before. -/
theorem departed_go_offline {ι : Type} [DecidableEq ι] [Sha256] [EventCrypto]
    (actions : List (Action ι)) :
    ((∀ a ∈ actions, a.honest = true) →
      (∀ r x, (new.run actions).Serves r x → (new.run actions).Registered x (ttl + 1)) ∧
      ∀ r p, (new.run actions).Exports r p → (new.run actions).Registered p.announce (ttl + 1)) ∧
    (∀ r x, (new.run actions).Serves r x →
      (∃ t, (r, x, t) ∈ (new.run actions).registrations ∧ t ≤ (new.run actions).now ∧
        (new.run actions).now < t + ttl * nanos) ∨
      ∃ p, p.announce = x ∧ (new.run actions).Received r p maxWireTtl) ∧
    ∀ r p, (new.run actions).Exports r p →
      (∃ t, (r, p.announce, t) ∈ (new.run actions).registrations ∧ t ≤ (new.run actions).now ∧
        (new.run actions).now < t + ttl * nanos) ∨
      (new.run actions).Received r p maxWireTtl := by
  have h := inv_run actions
  refine ⟨fun ha => ?_, fun r x hx => ?_, fun r p hp => ?_⟩
  · have hh := honest_run actions ha
    have hlocal (r : ι) (x : Announce)
      (hx : ((new.run actions).relays r).Local (new.run actions).now x) :
        (new.run actions).Registered x (ttl + 1) := by
      obtain ⟨t, hg⟩ := h.registered_local hx
      exact registered_mono ⟨r, t, hg⟩ (Nat.le_succ _)
    have hremote (r : ι) (p : FederatedPresence)
        (hp : ((new.run actions).relays r).Remote (unixSeconds (new.run actions).now) p) :
        (new.run actions).Registered p.announce (ttl + 1) := by
      obtain ⟨id, hget, hlive⟩ := hp
      exact h.registered_fresh (hh.remote r id p hget) hlive
    refine ⟨fun r x hx => ?_, fun r p hp => ?_⟩
    · rcases serves_cases hx with hx | ⟨p, hp, rfl⟩
      · exact hlocal r x hx
      · exact hremote r p hp
    · rcases exports_cases hp with hx | hp
      · exact hlocal r p.announce hx
      · exact hremote r p hp
  · rcases serves_cases hx with hx | ⟨p, hp, rfl⟩
    · exact .inl (h.registered_local hx)
    · exact .inr ⟨p, rfl, h.received_remote hp⟩
  · rcases exports_cases hp with hx | hp
    · exact .inl (h.registered_local hx)
    · exact .inr (h.received_remote hp)

/-! ### A sample run -/

namespace Sample

@[reducible] def sha : Sha256 := ⟨fun _ => 0⟩

@[reducible] def crypto : EventCrypto := ⟨fun _ => ⟨0⟩, fun _ _ _ => true⟩

def signature : List UInt8 := List.replicate 64 0

def client : Announce :=
  ⟨String.ofList (List.replicate 32 '0'), 0, 0, "", 1, false, some ⟨0, 0, signature⟩, signature⟩

/-- A client registers with a relay at the end of a second. The relay tells another one, which tells
the first again. -/
def told : List (Network.Action Bool) :=
  [.wait (nanos - 1), .register false client.publicIdentity (some client) true,
    .wait (3 * nanos + 1),
    .publish false, .receive true [0] true, .wait (2 * nanos), .publish true,
      .receive false [1] true,
    .wait (10 * nanos - 1)]

end Sample

section

open Network Sample

theorem told_exports :
    letI := sha
    letI := crypto
    ((new.run told).relays true).exportFederated (new.run told).now
      (unixSeconds (new.run told).now) = [⟨client, 16⟩] := by
  decide +kernel

/-- The second relay still exports the client when its lease is over, within a second more. -/
theorem departed_go_offline_told :
    letI := sha
    letI := crypto
    (∀ a ∈ told, a.honest = true) ∧ (new.run told).Exports true ⟨client, 16⟩ ∧
      (new.run told).Registered client 16 := by
  have hhonest : ∀ a ∈ told, a.honest = true := by decide
  have hexports : (@run Bool _ sha crypto new told).Exports true ⟨client, 16⟩ := by
    unfold Exports
    rw [told_exports]
    exact List.mem_cons_self
  obtain ⟨h, -⟩ := @departed_go_offline Bool _ sha crypto told
  exact ⟨hhonest, hexports, (h hhonest).2 true ⟨client, 16⟩ hexports⟩

end

end MeshTalk.Bridge
