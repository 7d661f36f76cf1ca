import MeshTalk.Channel.Identity
import MeshTalk.Lib.Table
import MeshTalk.Lib.Checked
import Mathlib.Data.String.Basic

/-! # The directory of a relay

A relay introduces the clients that have registered with it to each other, for as long as their
registration is recent, and the clients that other relays have told it about, until the time they
gave (`node/bridge_directory.rs`). Ages are measured by a clock that does not jump, in nanoseconds;
expiries are whole seconds of the time of day. -/

namespace MeshTalk.Bridge

open Lib Channel Table List

def nanos : ℕ := 1000000000

/-- How long a registration lasts, in seconds. -/
def ttl : ℕ := 15

/-- The longest expiry that is accepted from others, in seconds. -/
def maxWireTtl : ℕ := 45

def maxMembers : ℕ := 1024

def maxOriginHops : ℕ := 16

def unixSeconds (now : ℕ) : ℕ := now / nanos

theorem unixSeconds_mono {t u} (h : t ≤ u) : unixSeconds t ≤ unixSeconds u := Nat.div_le_div_right h

/-- A client and the time until which its origin vouches for it. -/
structure FederatedPresence where
  announce : Announce
  expiresAtSecs : ℕ
deriving DecidableEq

/-- The clients of a relay with the time they registered, those it was told about with their
distance, and the announcement of its gateway. -/
structure BridgeDirectory where
  members : Table String (Announce × ℕ)
  remoteMembers : Table String FederatedPresence
  remoteHops : Table String ℕ
  gateway : Option Announce
  changes : ℕ

namespace BridgeDirectory

variable [Sha256] [EventCrypto]

def empty : BridgeDirectory := ⟨∅, ∅, ∅, none, 0⟩

def validDirectoryProof (proof : Announce) : Bool := proof.validPresence && proof.accountId.isSome

/-- Tell those who wait that something has changed. -/
def notify (d : BridgeDirectory) : BridgeDirectory := { d with changes := (d.changes + 1) % 2 ^ 64 }

/-- Forget registrations that are not recent and entries that have expired. -/
def retain (d : BridgeDirectory) (now : ℕ) : BridgeDirectory :=
  { d with
    members := d.members.filter fun m => now - m.2.2 < ttl * nanos
    remoteMembers := d.remoteMembers.filter fun r => unixSeconds now < r.2.expiresAtSecs }

/-- The clients a relay introduces to one of them, and its gateway. -/
def served (d : BridgeDirectory) (proof : Announce) : List Announce :=
  let near := (d.members.byKey.filter fun m => m.1 ≠ proof.userId).map (·.2.1)
  let remote := (d.remoteMembers.byKey.filter fun r =>
    r.2.announce.userId ≠ proof.userId && !d.members.has r.2.announce.userId).map (·.2.announce)
  (near ++ remote).take (maxMembers - 1) ++
    (d.gateway.filter fun g => g.postOffice && validDirectoryProof g).toList

def registrable (client : PublicIdentity) (presence : Option Announce) (publiclyVisible : Bool) :
    Option Announce :=
  presence.filter fun proof => publiclyVisible && !proof.postOffice && validDirectoryProof proof &&
    proof.publicIdentity = client

def register (d : BridgeDirectory) (client : PublicIdentity) (presence : Option Announce)
    (publiclyVisible : Bool) (now : ℕ) : BridgeDirectory × Option (List Announce) :=
  let d := d.retain now
  match registrable client presence publiclyVisible with
  | none => (d, none)
  | some proof =>
    if maxMembers ≤ d.members.rows.length && !d.members.has proof.userId then (d, none)
    else
      let d := { d with members := d.members.set proof.userId (proof, now) }.notify
      (d, some (d.served proof))

/-- The clients of a relay with what is left of their registration, and those it was told about. -/
def exportFederated (d : BridgeDirectory) (now unixNow : ℕ) : List FederatedPresence :=
  let near := (d.members.byKey.filter fun m =>
    (now - m.2.2) / nanos < ttl && !m.2.1.postOffice).map fun m =>
      ⟨m.2.1, saturatingAdd u64Max unixNow (ttl - (now - m.2.2) / nanos)⟩
  let remote := (d.remoteMembers.byKey.filter fun r =>
    unixNow < r.2.expiresAtSecs && !d.members.has r.2.announce.userId).map (·.2)
  (near ++ remote).take maxMembers

def exportPresenceSources (d : BridgeDirectory) (now unixNow : ℕ) :
    List (FederatedPresence × Option ℕ) :=
  (d.exportFederated now unixNow).map fun p =>
    (p, if (d.members.get p.announce.userId).any fun m => now - m.2 < ttl * nanos then some 0
      else d.remoteHops.get p.announce.userId)

def distance (hops : Option ℕ) : Option ℕ := (hops.map (· + 1)).filter (· ≤ maxOriginHops)

/-- An entry that is not taken over whatever is there. -/
def refused (d : BridgeDirectory) (proof : FederatedPresence) (unixNow : ℕ) : Bool :=
  proof.announce.postOffice || !validDirectoryProof proof.announce ||
    proof.expiresAtSecs ≤ unixNow || saturatingAdd u64Max unixNow maxWireTtl <
      proof.expiresAtSecs ||
    d.members.has proof.announce.userId

def store (d : BridgeDirectory) (proof : FederatedPresence) (hops : Option ℕ) : BridgeDirectory :=
  { d with
    remoteMembers := d.remoteMembers.set proof.announce.userId proof
    remoteHops := match hops with
      | some h => d.remoteHops.set proof.announce.userId h
      | none => d.remoteHops.erase proof.announce.userId }

/-- The same entry by another way, which may be shorter. -/
def shorten (d : BridgeDirectory) (old proof : FederatedPresence) (hops : Option ℕ)
    (changed : Bool) :
    BridgeDirectory × Bool :=
  match hops with
  | some h =>
    if old.announce.publicIdentity = proof.announce.publicIdentity ∧
        (d.remoteHops.get proof.announce.userId).all (fun old => h < old) = true then
      ({ d with remoteHops := d.remoteHops.set proof.announce.userId h }, true)
    else (d, changed)
  | none => (d, changed)

def importOne (unixNow : ℕ) (acc : BridgeDirectory × Bool) (entry : FederatedPresence × Option ℕ) :
    BridgeDirectory × Bool :=
  let d := acc.1
  let proof := entry.1
  if d.refused proof unixNow then acc
  else
    match d.remoteMembers.get proof.announce.userId with
    | some old =>
      if proof.expiresAtSecs < old.expiresAtSecs then acc
      else if old.expiresAtSecs = proof.expiresAtSecs then
        d.shorten old proof (distance entry.2) acc.2
      else (d.store proof (distance entry.2), true)
    | none =>
      if maxMembers ≤ d.remoteMembers.rows.length then acc
      else (d.store proof (distance entry.2), true)

/-- Forget entries that have expired, with their distances. -/
def retainRemote (d : BridgeDirectory) (unixNow : ℕ) : BridgeDirectory :=
  let remoteMembers := d.remoteMembers.filter fun r => unixNow < r.2.expiresAtSecs
  { d with
    remoteMembers := remoteMembers
    remoteHops := d.remoteHops.filter fun h => remoteMembers.has h.1 }

def importPresence (d : BridgeDirectory) (entries : List (FederatedPresence × Option ℕ))
    (unixNow : ℕ) :
    BridgeDirectory :=
  let result := (entries.take maxMembers).foldl (importOne unixNow) (d.retainRemote unixNow, false)
  if result.2 then result.1.notify else result.1

/-! ### What a registration does -/

def Local (d : BridgeDirectory) (now : ℕ) (x : Announce) : Prop :=
  ∃ id seen, d.members.get id = some (x, seen) ∧ now - seen < ttl * nanos

def Remote (d : BridgeDirectory) (unixNow : ℕ) (x : FederatedPresence) : Prop :=
  ∃ id, d.remoteMembers.get id = some x ∧ unixNow < x.expiresAtSecs

variable {d : BridgeDirectory}

omit [Sha256] [EventCrypto] in
theorem get_members_retain {now id m} (h : (d.retain now).members.get id = some m) :
    d.members.get id = some m ∧ now - m.2 < ttl * nanos := by
  obtain ⟨hget, hp⟩ := get_filter_eq_some.mp h
  exact ⟨hget, of_decide_eq_true hp⟩

omit [Sha256] [EventCrypto] in
theorem get_remote_retain {now id x} (h : (d.retain now).remoteMembers.get id = some x) :
    d.remoteMembers.get id = some x ∧ unixSeconds now < x.expiresAtSecs := by
  obtain ⟨hget, hp⟩ := get_filter_eq_some.mp h
  exact ⟨hget, of_decide_eq_true hp⟩

theorem mem_served {proof x} (h : x ∈ d.served proof) :
    (∃ id seen, d.members.get id = some (x, seen) ∧ id ≠ proof.userId) ∨
      (∃ id p, d.remoteMembers.get id = some p ∧ p.announce = x) ∨
      d.gateway = some x ∧ x.postOffice = true := by
  rcases mem_append.mp h with h | h
  · rcases mem_append.mp (mem_of_mem_take h) with h | h
    · obtain ⟨⟨id, y, seen⟩, hm, rfl⟩ := mem_map.mp h
      obtain ⟨hm, hne⟩ := mem_filter.mp hm
      exact .inl ⟨id, seen, mem_byKey.mp hm, of_decide_eq_true hne⟩
    · obtain ⟨⟨id, p⟩, hm, rfl⟩ := mem_map.mp h
      exact .inr (.inl ⟨id, p, mem_byKey.mp (mem_filter.mp hm).1, rfl⟩)
  · obtain ⟨hg, hp⟩ := Option.filter_eq_some_iff.mp (Option.mem_toList.mp h)
    rw [Bool.and_eq_true] at hp
    exact .inr (.inr ⟨hg, hp.1⟩)

/-- **A registration** leaves recent registrations and entries, puts the client in under its
announcement, and introduces recent clients, entries that have not expired and the gateway. -/
theorem register_spec (d : BridgeDirectory) (client presence publiclyVisible now) :
    ((∃ proof, registrable client presence publiclyVisible = some proof ∧
        (d.register client presence publiclyVisible now).2.isSome = true ∧
        (d.register client presence publiclyVisible now).1.members =
          (d.retain now).members.set proof.userId (proof, now)) ∨
      (d.register client presence publiclyVisible now).1.members = (d.retain now).members) ∧
    (d.register client presence publiclyVisible now).1.remoteMembers =
      (d.retain now).remoteMembers ∧
    ∀ x ∈ (d.register client presence publiclyVisible now).2.getD [],
      d.Local now x ∨ (∃ p, d.Remote (unixSeconds now) p ∧ p.announce = x) ∨
        d.gateway = some x ∧ x.postOffice = true := by
  unfold register
  dsimp only
  split
  · exact ⟨.inr rfl, rfl, fun x hx => absurd hx not_mem_nil⟩
  · next proof hproof =>
    split
    · exact ⟨.inr rfl, rfl, fun x hx => absurd hx not_mem_nil⟩
    · refine ⟨.inl ⟨proof, hproof, rfl, rfl⟩, rfl, fun x hx => ?_⟩
      rcases mem_served hx with ⟨id, seen, hget, hne⟩ | ⟨id, p, hget, rfl⟩ | hg
      · have hset : ((d.retain now).members.set proof.userId (proof, now)).get id =
          some (x, seen) := hget
        rw [get_set, if_neg hne] at hset
        obtain ⟨hget, hrecent⟩ := get_members_retain hset
        exact .inl ⟨id, seen, hget, hrecent⟩
      · obtain ⟨hget, hlive⟩ := get_remote_retain hget
        exact .inr (.inl ⟨p, ⟨id, hget, hlive⟩, rfl⟩)
      · exact .inr (.inr hg)

omit [Sha256] [EventCrypto] in
/-- **What is exported**: a recent client with what is left of its registration, or an entry as it
is. -/
theorem mem_exportFederated {now unixNow x} (h : x ∈ d.exportFederated now unixNow) :
    (∃ id seen, d.members.get id = some (x.announce, seen) ∧ (now - seen) / nanos < ttl ∧
      x.expiresAtSecs = saturatingAdd u64Max unixNow (ttl - (now - seen) / nanos)) ∨
        d.Remote unixNow x := by
  rcases mem_append.mp (mem_of_mem_take h) with h | h
  · obtain ⟨⟨id, y, seen⟩, hm, rfl⟩ := mem_map.mp h
    obtain ⟨hm, hp⟩ := mem_filter.mp hm
    rw [Bool.and_eq_true, decide_eq_true_eq] at hp
    exact .inl ⟨id, seen, mem_byKey.mp hm, hp.1, rfl⟩
  · obtain ⟨⟨id, p⟩, hm, rfl⟩ := mem_map.mp h
    obtain ⟨hm, hp⟩ := mem_filter.mp hm
    rw [Bool.and_eq_true, decide_eq_true_eq] at hp
    exact .inr ⟨id, mem_byKey.mp hm, hp.1⟩

/-! ### What an import does -/

/-- An import leaves the clients, and stores entries that it is given within the longest lease. -/
structure Imports (entries : List (FederatedPresence × Option ℕ)) (unixNow : ℕ)
    (d d' : BridgeDirectory) : Prop where
  members : d'.members = d.members
  gateway : d'.gateway = d.gateway
  remote : ∀ id x, d'.remoteMembers.get id = some x → d.remoteMembers.get id = some x ∨
    (∃ hops, (x, hops) ∈ entries) ∧ id = x.announce.userId ∧ x.announce.postOffice = false ∧
      x.expiresAtSecs ≤ unixNow + maxWireTtl

section
omit [Sha256] [EventCrypto]

variable {unixNow : ℕ}

theorem Imports.refl {entries d d'} (hm : d'.members = d.members) (hg : d'.gateway = d.gateway)
    (hr : d'.remoteMembers = d.remoteMembers) : Imports entries unixNow d d' :=
  ⟨hm, hg, fun _ _ hx => .inl (hr ▸ hx)⟩

theorem Imports.trans {a b d d' d''} (h : Imports a unixNow d d') (h' : Imports b unixNow d' d'') :
    Imports (a ++ b) unixNow d d'' := by
  refine ⟨h'.members.trans h.members, h'.gateway.trans h.gateway, fun id x hx => ?_⟩
  rcases h'.remote id x hx with hx | ⟨⟨hops, hm⟩, hrest⟩
  · rcases h.remote id x hx with hx | ⟨⟨hops, hm⟩, hrest⟩
    · exact .inl hx
    · exact .inr ⟨⟨hops, mem_append_left _ hm⟩, hrest⟩
  · exact .inr ⟨⟨hops, mem_append_right _ hm⟩, hrest⟩

theorem Imports.mono {a b d d'} (h : Imports a unixNow d d') (hab : ∀ e ∈ a, e ∈ b) :
    Imports b unixNow d d' := by
  refine ⟨h.members, h.gateway, fun id x hx => ?_⟩
  rcases h.remote id x hx with hx | ⟨⟨hops, hm⟩, hrest⟩
  · exact .inl hx
  · exact .inr ⟨⟨hops, hab _ hm⟩, hrest⟩

end

variable {d : BridgeDirectory} {unixNow : ℕ}

/-- An entry that is not refused is a client's, within the longest lease. -/
theorem lease_of_refused {proof} (h : ¬ d.refused proof unixNow = true) :
    proof.announce.postOffice = false ∧ proof.expiresAtSecs ≤ unixNow + maxWireTtl := by
  unfold refused at h
  simp only [Bool.or_eq_true, Bool.not_eq_true', decide_eq_true_eq, not_or, Bool.not_eq_true,
    not_lt] at h
  obtain ⟨⟨⟨⟨hoffice, -⟩, -⟩, hle⟩, -⟩ := h
  exact ⟨hoffice, hle.trans (saturatingAdd_le _ _ _)⟩

omit [Sha256] [EventCrypto] in
theorem imports_store {entry hops} (ho : entry.1.announce.postOffice = false)
    (hl : entry.1.expiresAtSecs ≤ unixNow + maxWireTtl) :
    Imports [entry] unixNow d (d.store entry.1 hops) := by
  refine ⟨rfl, rfl, fun id x hx => ?_⟩
  have hset : (d.remoteMembers.set entry.1.announce.userId entry.1).get id = some x := hx
  rw [get_set] at hset
  split at hset
  · next hid =>
    cases hset
    exact .inr ⟨⟨entry.2, mem_cons_self⟩, hid, ho, hl⟩
  · exact .inl hset

omit [Sha256] [EventCrypto] in
theorem imports_shorten {entries old proof hops changed} :
    Imports entries unixNow d (d.shorten old proof hops changed).1 := by
  unfold shorten
  split
  · split
    · exact .refl rfl rfl rfl
    · exact .refl rfl rfl rfl
  · exact .refl rfl rfl rfl

theorem imports_one (unixNow acc entry) :
    Imports [entry] unixNow acc.1 (importOne unixNow acc entry).1 := by
  unfold importOne
  dsimp only
  split
  · exact .refl rfl rfl rfl
  · next href =>
    obtain ⟨ho, hl⟩ := lease_of_refused href
    split
    · split
      · exact .refl rfl rfl rfl
      · split
        · exact imports_shorten
        · exact imports_store ho hl
    · split
      · exact .refl rfl rfl rfl
      · exact imports_store ho hl

theorem imports_fold (unixNow) : ∀ (entries : List (FederatedPresence × Option ℕ))
    (acc : BridgeDirectory × Bool), Imports entries unixNow acc.1
      (entries.foldl (importOne unixNow) acc).1
  | [], _ => .refl rfl rfl rfl
  | entry :: rest, acc =>
    (imports_one unixNow acc entry).trans (imports_fold unixNow rest (importOne unixNow acc entry))

/-- **An import** leaves the clients, and stores entries that it is given within the longest
lease. -/
theorem importPresence_spec (d entries unixNow) :
    Imports entries unixNow d (d.importPresence entries unixNow) := by
  have hretain : Imports [] unixNow d (d.retainRemote unixNow) :=
    ⟨rfl, rfl, fun id x hx => .inl (get_filter_eq_some.mp hx).1⟩
  have h : Imports entries unixNow d
      ((entries.take maxMembers).foldl (importOne unixNow) (d.retainRemote unixNow, false)).1 :=
    (hretain.trans (imports_fold unixNow (entries.take maxMembers)
      (d.retainRemote unixNow, false))).mono
      fun _ => mem_of_mem_take
  unfold importPresence
  dsimp only
  split
  · exact ⟨h.members, h.gateway, h.remote⟩
  · exact h

end BridgeDirectory

end MeshTalk.Bridge
