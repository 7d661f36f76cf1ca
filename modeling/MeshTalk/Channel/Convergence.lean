import MeshTalk.Channel.State
import MeshTalk.Lib.Latest
import Mathlib.Data.List.Lex

/-! # Channel metadata converge

Membership snapshots of the owner and renames reach a member in some order, some of them repeatedly.
What `applyMeta` and `applyRename` leave depends only on which there are. -/

namespace MeshTalk.Channel

open Lib List

/-! ### Member lists as bytes -/

local instance byteOrder : LinearOrder UInt8 where
  le_refl := UInt8.le_refl
  le_trans _ _ _ := UInt8.le_trans
  le_antisymm _ _ := UInt8.le_antisymm
  le_total := UInt8.le_total
  lt_iff_le_not_ge a b := by
    simp only [UInt8.lt_iff_toNat_lt, UInt8.le_iff_toNat_le]
    omega
  toDecidableLE := inferInstance

theorem length_keyBytes (k : PubKey) : (keyBytes k).length = 32 := EventId.length_asBytes _

theorem keyBytes_injective : Function.Injective keyBytes := fun _ _ h =>
  congrArg EventId.bytes (EventId.asBytes_injective h)

def identityBytes (m : PublicIdentity) : List UInt8 := keyBytes m.ed25519Pub ++ keyBytes m.x25519Pub

theorem length_identityBytes (m : PublicIdentity) : (identityBytes m).length = 64 := by
  rw [identityBytes, length_append, length_keyBytes, length_keyBytes]

theorem flatMap_identityBytes_inj : ∀ {ms ms' : List PublicIdentity}, ms.length = ms'.length →
    ms.flatMap identityBytes = ms'.flatMap identityBytes → ms = ms'
  | [], [], _, _ => rfl
  | m :: ms, m' :: ms', hlen, h => by
    obtain ⟨hm, hms⟩ := append_inj h (by rw [length_identityBytes, length_identityBytes])
    obtain ⟨he, hx⟩ := append_inj hm (by rw [length_keyBytes, length_keyBytes])
    have hm : m = m' := congrArg₂ PublicIdentity.mk (keyBytes_injective he) (keyBytes_injective hx)
    rw [flatMap_identityBytes_inj (Nat.succ.inj hlen) hms, hm]

/-- **Member lists that compare as equal are equal.** The length tells how many there are. -/
theorem encodeMembers_injective : Function.Injective encodeMembers := by
  intro ms ms' h
  have h : leBytes 8 ms.length ++ ms.flatMap identityBytes = leBytes 8 ms'.length ++
    ms'.flatMap identityBytes := h
  have hlen := congrArg length h
  simp only [length_append, length_leBytes, length_flatMap, length_identityBytes, map_const',
    sum_replicate_nat] at hlen
  exact flatMap_identityBytes_inj (by omega) (append_inj h (by simp)).2

/-! ### Changes -/

/-- What reaches a member: a snapshot, or a rename with its clock and id. -/
inductive Update where
  | snapshot (m : ChannelMeta)
  | rename (lamport : ℕ) (id : EventId)

namespace Update

def metaRank : Update → Option (ℕ ×ₗ List UInt8)
  | snapshot m => some (toLex (m.epoch, encodeMembers m.members))
  | rename _ _ => none

def renameRank : Update → Option Key
  | snapshot _ => none
  | rename lamport id => some (toLex (lamport, id))

end Update

namespace ChannelState

/-- How the snapshot ranks that a view has adopted. -/
def metaRank (s : ChannelState) : ℕ ×ₗ List UInt8 := toLex (s.epoch, encodeMembers s.members)

def update (names : EventId → String) (s : ChannelState) : Update → ChannelState
  | .snapshot m => s.applyMeta m
  | .rename lamport id => s.applyRename (names id) lamport id

variable {names : EventId → String} {s s₀ : ChannelState}

/-- What updates keep of a view: that it is not dissolved, its owner, and that its name goes with
the version of the name. -/
structure Updated (names : EventId → String) (s₀ s : ChannelState) : Prop where
  live : s.dissolved = false
  owner : s.owner = s₀.owner
  name : s.name = if s.nameVersion = s₀.nameVersion then s₀.name else names s.nameVersion.2
  later : toLex s₀.nameVersion ≤ toLex s.nameVersion

theorem Updated.snapshot (h : Updated names s₀ s) {m : ChannelMeta} (hm : m.owner = s₀.owner) :
    Updated names s₀ (s.applyMeta m) ∧ (s.applyMeta m).nameVersion = s.nameVersion ∧
      (s.applyMeta m).metaRank = max s.metaRank (toLex (m.epoch, encodeMembers m.members)) := by
  have hlt : s.metaRank < toLex (m.epoch, encodeMembers m.members) ↔ s.epoch < m.epoch ∨
      m.epoch = s.epoch ∧ (false = true ∨ encodeMembers s.members < encodeMembers m.members) := by
    rw [metaRank, Prod.Lex.toLex_lt_toLex]
    simp [eq_comm]
  unfold applyMeta applyMetaWithDeparture
  rw [if_neg (by simp [h.live]), if_neg (not_not.mpr (hm.trans h.owner.symm))]
  by_cases hlater : s.metaRank < toLex (m.epoch, encodeMembers m.members)
  · rw [if_pos (hlt.mp hlater)]
    exact ⟨⟨h.live, h.owner, h.name, h.later⟩, rfl, (max_eq_right hlater.le).symm⟩
  · rw [if_neg (mt hlt.mpr hlater)]
    exact ⟨h, rfl, (max_eq_left (not_lt.mp hlater)).symm⟩

theorem Updated.rename (h : Updated names s₀ s) (lamport : ℕ) (id : EventId) :
    let s' := s.applyRename (names id) lamport id
    Updated names s₀ s' ∧ s'.metaRank = s.metaRank ∧
      toLex s'.nameVersion = max (toLex s.nameVersion) (toLex (lamport, id)) := by
  unfold applyRename
  rw [if_neg (by simp [h.live])]
  split_ifs with hlater
  · have hne : (lamport, id) ≠ s₀.nameVersion := fun he => by
      rw [he] at hlater
      exact absurd h.later (not_le.mpr hlater)
    exact ⟨⟨h.live, h.owner, (if_neg hne).symm, h.later.trans hlater.le⟩, rfl,
      (max_eq_right hlater.le).symm⟩
  · exact ⟨h, rfl, (max_eq_left (not_lt.mp hlater)).symm⟩

/-- What a run of updates leaves: the greatest ranks, and the name that goes with them. -/
theorem Updated.run (names : EventId → String) (hlive : s₀.dissolved = false) {us : List Update}
    (howner : ∀ m, .snapshot m ∈ us → m.owner = s₀.owner) :
    Updated names s₀ (us.foldl (update names) s₀) ∧
      IsGreatest {r | r ∈ s₀.metaRank :: us.filterMap Update.metaRank}
        (us.foldl (update names) s₀).metaRank ∧
      IsGreatest {r | r ∈ toLex s₀.nameVersion :: us.filterMap Update.renameRank}
        (toLex (us.foldl (update names) s₀).nameVersion) := by
  have hstart : Updated names s₀ s₀ := ⟨hlive, rfl, (if_pos rfl).symm, le_rfl⟩
  have hstep (s : ChannelState) (hs : Updated names s₀ s) (u : Update) (hu : u ∈ us) :
      Updated names s₀ (s.update names u) ∧
        (s.update names u).metaRank = u.metaRank.elim s.metaRank (max s.metaRank) ∧
        toLex (s.update names u).nameVersion =
          u.renameRank.elim (toLex s.nameVersion) (max (toLex s.nameVersion)) := by
    cases u with
    | snapshot m =>
      obtain ⟨h1, h2, h3⟩ := hs.snapshot (howner m hu)
      exact ⟨h1, h3, congrArg toLex h2⟩
    | rename lamport id => exact hs.rename lamport id
  refine ⟨foldlRecOn _ _ hstart fun s hs u hu => (hstep s hs u hu).1,
    isGreatest_foldl metaRank hstart fun s hs u hu => ⟨(hstep s hs u hu).1, (hstep s hs u hu).2.1⟩,
    isGreatest_foldl (fun s => toLex s.nameVersion) hstart fun s hs u hu =>
      ⟨(hstep s hs u hu).1, (hstep s hs u hu).2.2⟩⟩

end ChannelState

open ChannelState in
/-- **Metadata converge.** Two members with the same view of a channel that is not dissolved are
given the same snapshots of its owner and the same renames, in any order and any number of times.
They end with the same members, epoch and name: those of the greatest snapshot by epoch and encoded
members, and of the greatest rename by clock and id, with what the view had before among them. -/
theorem metadata_converges {names : EventId → String} {s : ChannelState}
    (hlive : s.dissolved = false)
    {us us' : List Update} (howner : ∀ m, .snapshot m ∈ us → m.owner = s.owner)
    (hsame : ∀ u, u ∈ us ↔ u ∈ us') :
    let t := us.foldl (update names) s
    let t' := us'.foldl (update names) s
    (t.members = t'.members ∧ t.epoch = t'.epoch ∧ t.name = t'.name) ∧
    (IsGreatest {r | r ∈ s.metaRank :: us.filterMap Update.metaRank} t.metaRank ∧
      ∀ m, .snapshot m ∈ us → toLex (m.epoch, encodeMembers m.members) = t.metaRank →
        t.members = m.members ∧ t.epoch = m.epoch) ∧
    IsGreatest {r | r ∈ toLex s.nameVersion :: us.filterMap Update.renameRank}
      (toLex t.nameVersion) ∧
      t.name = if t.nameVersion = s.nameVersion then s.name else names t.nameVersion.2 := by
  intro t t'
  obtain ⟨ht, hmeta, hname⟩ := Updated.run names hlive howner
  obtain ⟨ht', hmeta', hname'⟩ := Updated.run names hlive fun m hm => howner m ((hsame _).mpr hm)
  simp only [mem_cons, mem_filterMap, ← hsame] at hmeta' hname'
  simp only [mem_cons, mem_filterMap] at hmeta hname ⊢
  obtain ⟨hepoch, hmembers⟩ := Prod.ext_iff.mp (toLex.injective (hmeta.unique hmeta'))
  have hversion : t.nameVersion = t'.nameVersion := toLex.injective (hname.unique hname')
  refine ⟨⟨encodeMembers_injective hmembers, hepoch, ?_⟩, ⟨hmeta, fun m _ hm => ?_⟩, hname, ht.name⟩
  · rw [ht.name, ht'.name]
    show (if t.nameVersion = _ then _ else names t.nameVersion.2) = _
    rw [hversion]
  · obtain ⟨hepoch, hmembers⟩ := Prod.ext_iff.mp (toLex.injective hm)
    exact ⟨encodeMembers_injective hmembers.symm, hepoch.symm⟩

def emptyView : ChannelState :=
  ⟨⟨0⟩, "", (0, ⟨0⟩), [], 1, "owner", none, ∅, false, "owner", false, none, ∅, none⟩

/-- Two snapshots of one epoch and a rename, in two orders. -/
theorem metadata_converges_pair :
    let a : ChannelMeta := ⟨"", [⟨1, 2⟩], 1, "owner"⟩
    let b : ChannelMeta := ⟨"", [⟨1, 2⟩, ⟨3, 4⟩], 1, "owner"⟩
    let t := [.snapshot a, .snapshot b, .rename 3 ⟨7⟩].foldl (.update fun _ => "name") emptyView
    let t' := [.snapshot b, .rename 3 ⟨7⟩, .snapshot a].foldl (.update fun _ => "name") emptyView
    t.members = t'.members ∧ t.epoch = t'.epoch ∧ t.name = t'.name ∧ t.name = "name" := by
  intro a b t t'
  have howner : ∀ m : ChannelMeta, .snapshot m ∈ [.snapshot a, .snapshot b, Update.rename 3 ⟨7⟩] →
      m.owner = emptyView.owner := by simp [emptyView, a, b]
  have hsame : ∀ u : Update, u ∈ [.snapshot a, .snapshot b, .rename 3 ⟨7⟩] ↔
      u ∈ [.snapshot b, .rename 3 ⟨7⟩, .snapshot a] := by
    intro u
    simp only [mem_cons, not_mem_nil, or_false]
    tauto
  obtain ⟨⟨hmembers, hepoch, hname⟩, -⟩ :=
    @metadata_converges (fun _ => "name") emptyView rfl _ _ howner hsame
  exact ⟨hmembers, hepoch, hname, by decide +kernel⟩

end MeshTalk.Channel
