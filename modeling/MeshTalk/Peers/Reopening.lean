import MeshTalk.Lib.Run
import MeshTalk.Peers.Pins
import Mathlib.Data.List.TakeWhile
import Mathlib.Data.String.Basic

/-! # What the directory of peers reads back

A directory with its file, over announcements, accepted accounts, chains of transitions, linked
devices, saves that fail and restarts. The strict shape of a recorded chain is asked for only when
the file is opened. A chain that repeats recorded transitions, that starts from another certificate
of the same account, or that returns to an earlier account is recorded all the same, after what was
recorded before. -/

namespace MeshTalk.Peers

open Lib Channel PeerDirectory List

/-! ### The directory and its file -/

structure Kept where
  directory : PeerDirectory
  file : Snapshot

/-- What may be recorded, each with what becomes of the save, and a restart. -/
inductive Recording where
  | announced (a : Announce) (save : Except ErrorKind Unit)
  | own (a : Announce) (device : PublicIdentity) (save : Except ErrorKind Unit)
  | accepted (a : Announce) (save : Except ErrorKind Unit)
  | transition (a : Announce) (chain : List AccountBindingTransition) (save : Except ErrorKind Unit)
  | linked (device : AccountDevice) (account : String)
  | reopened

def visited (run : List AccountBindingTransition) : List PubKey :=
  (run.head?.map (·.previousCertificate.accountEd25519Pub)).toList ++
    run.map (·.currentCertificate.accountEd25519Pub)

def continuesRun (run chain : List AccountBindingTransition) [Sha256] : Bool :=
  (chain.head?.any fun t => run.getLast?.any fun last =>
    t.previousTransition = some last.id && t.previousCertificate = last.currentCertificate) &&
    chain.all fun t => !(visited run).contains t.currentCertificate.accountEd25519Pub

namespace Kept

def fresh : Kept := ⟨.fresh, PeerDirectory.fresh.snapshot⟩

variable [Sha256] [EventCrypto]

/-- What recording makes of the directory: nothing new, or a directory that was saved. -/
def outcome (s : Kept) : Recording → Except ErrorKind (Option PeerDirectory)
  | .announced a save => s.directory.record a save
  | .own a device save => s.directory.recordOwn a device save
  | .accepted a save => s.directory.recordExplicitAccount a save
  | .transition a chain save => s.directory.recordTransition a chain save
  | .linked _ _ => .ok none
  | .reopened => .ok none

/-- One step. A linked device is not saved, and a restart reads the file. -/
def step (s : Kept) (r : Recording) : Kept :=
  match s.outcome r with
  | .error _ => s
  | .ok (some d) => ⟨d, d.snapshot⟩
  | .ok none =>
    match r with
    | .linked device account =>
      match s.directory.authorizeLinkedDevice device account with
      | .ok d => { s with directory := d }
      | .error _ => s
    | .reopened =>
      match PeerDirectory.open s.file with
      | .ok d => { s with directory := d }
      | .error _ => s
    | _ => s

def continues (s : Kept) : Recording → Bool
  | .transition a chain _ =>
    (chain[0]?.bind (·.previousTransition)).isNone ||
      (s.directory.head a.publicIdentity).all fun h => continuesRun h.transitions chain
  | _ => true

end Kept

/-! ### Sorted lists -/

section Sorted

variable {α : Type} {f : α → String} {l : List α}

theorem ascending_eq_true {ids} : ascending ids = true ↔ ids.Pairwise (· < ·) := by
  rw [← isChain_iff_pairwise]
  induction ids with
  | nil => simp [ascending]
  | cons a rest ih =>
    cases rest with
    | nil => simp [ascending]
    | cons b rest =>
      rw [isChain_cons_cons, ← ih]
      simp [ascending]

theorem pairwise_lt_insertionSort (h : (l.map f).Nodup) :
    ((l.insertionSort fun a b => f a ≤ f b).map f).Pairwise (· < ·) := by
  have hle : ((l.insertionSort fun a b => f a ≤ f b).map f).Pairwise (· ≤ ·) :=
    pairwise_map.mpr (pairwise_insertionSort _ l)
  have hne : ((l.insertionSort fun a b => f a ≤ f b).map f).Pairwise (· ≠ ·) :=
    ((perm_insertionSort _ l).map f).nodup_iff.mpr h
  exact (hle.and hne).imp fun h => lt_of_le_of_ne h.1 h.2

theorem insertionSort_of_pairwise (h : (l.map f).Pairwise (· < ·)) :
    (l.insertionSort fun a b => f a ≤ f b) = l :=
  ((pairwise_map.mp h).imp fun h => le_of_lt h).insertionSort_eq

/-- What is left of a sorted list after the smaller ones is not smaller. -/
theorem not_lt_of_mem_dropWhile {k} : ∀ {l : List α}, (l.map f).Pairwise (· < ·) →
    ∀ x ∈ l.dropWhile (fun x => f x < k), ¬f x < k
  | [], _, x, hx => by simp at hx
  | y :: l, hs, x, hx => by
    rw [map_cons, pairwise_cons] at hs
    rw [dropWhile_cons] at hx
    split_ifs at hx with hy
    · exact not_lt_of_mem_dropWhile hs.2 x hx
    · have hy : ¬f y < k := by simpa using hy
      rcases mem_cons.mp hx with rfl | hx
      · exact hy
      · have hyx := hs.1 (f x) (mem_map_of_mem hx)
        exact fun hlt => hy (hyx.trans hlt)

end Sorted

/-! ### Records -/

section Records

variable [Sha256] [EventCrypto] {records next : List Announce} {a : Announce} {i : ℕ}

/-- Records as the file keeps them. -/
structure RecordsOk (records : List Announce) : Prop where
  valid : ∀ r ∈ records, valid r = true
  sorted : (records.map (·.userId)).Pairwise (· < ·)
  count : records.length ≤ maxPeers

def Met (records : List Announce) (p : PublicIdentity) : Prop := ∃ r ∈ records, r.publicIdentity = p

structure Placed (records : List Announce) (a : Announce) (next : List Announce) : Prop where
  ok : RecordsOk next
  mem : a ∈ next
  met : ∀ p, Met records p → Met next p

section

variable (h : RecordsOk records)
include h

theorem RecordsOk.userId {r} (hr : r ∈ records) : r.userId = r.publicIdentity.userId := by
  have hv := h.valid r hr
  simp only [Peers.valid, Bool.and_eq_true] at hv
  exact Announce.userId_of_validPresence hv.1

theorem RecordsOk.met_inj {p q} (hp : Met records p) (hq : Met records q)
    (hid : p.userId = q.userId) : p = q := by
  obtain ⟨r, hr, rfl⟩ := hp
  obtain ⟨r', hr', rfl⟩ := hq
  rw [← h.userId hr, ← h.userId hr'] at hid
  have hnodup : (records.map (·.userId)).Nodup := h.sorted.imp fun h => ne_of_lt h
  rw [inj_on_of_nodup_map hnodup hr hr' hid]

/-- Distinct ids of devices among the records are no more than the records. -/
theorem RecordsOk.length_le {ids : List String} (hn : ids.Nodup)
    (hmet : ∀ id ∈ ids, ∃ p, Met records p ∧ p.userId = id) : ids.length ≤ maxPeers := by
  have hsub : ids ⊆ records.map (·.userId) := by
    intro id hid
    obtain ⟨p, ⟨r, hr, rfl⟩, rfl⟩ := hmet id hid
    exact mem_map.mpr ⟨r, hr, h.userId hr⟩
  have hle := (hn.subperm hsub).length_le
  rw [length_map] at hle
  exact hle.trans h.count

theorem RecordsOk.set (hv : Peers.valid a = true) (hi : search records a.userId = .ok i)
    (hsame : ∀ old, records[i]? = some old → old.publicIdentity = a.publicIdentity) :
    Placed records a (records.set i a) := by
  obtain ⟨pre, old, post, rfl, rfl, hid, -⟩ := search_ok hi
  have hset : (pre ++ old :: post).set pre.length a = pre ++ a :: post := by
    rw [set_append_right _ _ le_rfl, Nat.sub_self, set_cons_zero]
  rw [hset]
  refine ⟨⟨fun r hr => ?_, ?_, ?_⟩, by simp, fun p ⟨r, hr, hp⟩ => ?_⟩
  · rcases mem_append.mp hr with hr | hr
    · exact h.valid r (mem_append_left _ hr)
    · rcases mem_cons.mp hr with rfl | hr
      · exact hv
      · exact h.valid r (mem_append_right _ (mem_cons_of_mem _ hr))
  · have hs := h.sorted
    rw [map_append, map_cons, hid] at hs
    rwa [map_append, map_cons]
  · simpa using h.count
  · rcases mem_append.mp hr with hr | hr
    · exact ⟨r, mem_append_left _ hr, hp⟩
    · rcases mem_cons.mp hr with rfl | hr
      · exact ⟨a, by simp, (hsame r (by simp)).symm.trans hp⟩
      · exact ⟨r, mem_append_right _ (mem_cons_of_mem _ hr), hp⟩

/-- A device that is not found has its place between the smaller and the greater ids. -/
theorem RecordsOk.gap {id : String} (hi : search records id = .error i) :
    ∃ pre post, records = pre ++ post ∧ pre.length = i ∧ (∀ r ∈ pre, r.userId < id) ∧
      ∀ r ∈ post, id < r.userId := by
  have hnone := search_error hi
  unfold search at hi
  split at hi
  · cases hi
  · cases hi
    refine ⟨records.takeWhile (·.userId < id), records.dropWhile (·.userId < id),
      takeWhile_append_dropWhile.symm, rfl, fun r hr => ?_, fun r hr => ?_⟩
    · simpa using mem_takeWhile_imp hr
    · have hne : r.userId ≠ id := by
        simpa using find?_eq_none.mp hnone r ((dropWhile_sublist _).subset hr)
      exact lt_of_le_of_ne (not_lt.mp (not_lt_of_mem_dropWhile h.sorted r hr)) hne.symm

theorem RecordsOk.insertAt (hv : Peers.valid a = true) (hi : search records a.userId = .error i)
    (hroom : records.length ≠ maxPeers) : Placed records a (insertAt records i a) := by
  obtain ⟨pre, post, rfl, rfl, hpre, hpost⟩ := h.gap hi
  have hins : Peers.insertAt (pre ++ post) pre.length a = pre ++ a :: post := by
    rw [Peers.insertAt, take_left, drop_left]
  have hmem : ∀ r, r ∈ pre ++ a :: post ↔ r = a ∨ r ∈ pre ++ post := fun r => by
    simp only [mem_append, mem_cons]
    tauto
  rw [hins]
  refine ⟨⟨fun r hr => ?_, ?_, ?_⟩, by simp, fun p hp => hp.imp fun r hr =>
    ⟨(hmem r).mpr (.inr hr.1), hr.2⟩⟩
  · rcases (hmem r).mp hr with rfl | hr
    · exact hv
    · exact h.valid r hr
  · have hs := h.sorted
    rw [map_append, pairwise_append] at hs
    rw [map_append, map_cons, pairwise_append, pairwise_cons]
    refine ⟨hs.1, ⟨fun id hid => ?_, hs.2.1⟩, fun id hid id' hid' => ?_⟩
    · obtain ⟨r, hr, rfl⟩ := mem_map.mp hid
      exact hpost r hr
    · rcases mem_cons.mp hid' with rfl | hid'
      · obtain ⟨r, hr, rfl⟩ := mem_map.mp hid
        exact hpre r hr
      · exact hs.2.2 id hid id' hid'
  · have hc := h.count
    simp only [length_append, length_cons] at hc hroom ⊢
    omega

end

end Records

/-! ### Runs of transitions -/

section Runs

variable [Sha256] [EventCrypto] {device : PublicIdentity}
  {chain run : List AccountBindingTransition}

/-- A recorded chain is one linked run of verified transitions of its device that begins at a first
transition and visits no account root twice. -/
structure TransitionHead.Linked (h : TransitionHead) : Prop where
  nonempty : h.transitions ≠ []
  length : h.transitions.length ≤ maxChain
  first : ∀ t, h.transitions.head? = some t → t.previousTransition = none
  last : h.transitions.getLast?.map (·.id) = some h.id
  verified : ∀ t ∈ h.transitions, t.verify = true ∧ t.publicIdentity = h.publicIdentity
  chain : h.transitions.IsChain Follows
  roots : (visited h.transitions).Nodup

omit [EventCrypto] in
theorem links_eq_true : ((run.zip run.tail).all fun ⟨s, t⟩ =>
    t.previousTransition = some s.id && t.previousCertificate = s.currentCertificate) = true ↔
      run.IsChain Follows := by
  induction run with
  | nil => simp
  | cons s rest ih =>
    cases rest with
    | nil => simp
    | cons t rest =>
      rw [isChain_cons_cons, ← ih]
      simp [Follows]

theorem TransitionHead.Linked.wellFormed {h : TransitionHead} (hl : h.Linked) {records}
    (hmet : Met records h.publicIdentity) : h.wellFormed records = true := by
  obtain ⟨r, hr, hp⟩ := hmet
  simp only [TransitionHead.wellFormed, Bool.and_eq_true]
  refine ⟨⟨⟨⟨⟨⟨?_, ?_⟩, ?_⟩, ?_⟩, ?_⟩, links_eq_true.mpr hl.chain⟩, ?_⟩
  · simpa using hl.nonempty
  · simpa using hl.length
  · cases hh : h.transitions.head? with
    | none => rfl
    | some t => simp [hl.first t hh]
  · obtain ⟨t, ht, hid⟩ := Option.map_eq_some_iff.mp hl.last
    simp [ht, hid]
  · rw [all_eq_true]
    intro t ht
    simp [(hl.verified t ht).1, (hl.verified t ht).2]
  · exact any_eq_true.mpr ⟨r, hr, by simpa using hp⟩

theorem TransitionHead.Linked.nodup {h : TransitionHead} (hl : h.Linked) : h.transitions.Nodup :=
  List.Nodup.of_map _ (nodup_append.mp hl.roots).2.1

omit [Sha256] [EventCrypto] in
theorem visited_append (hne : run ≠ []) : visited (run ++ chain) =
    visited run ++ chain.map (·.currentCertificate.accountEd25519Pub) := by
  cases run with
  | nil => exact absurd rfl hne
  | cons t rest => simp [visited]

theorem nodup_of_chainChecked : ∀ {chain s roots}, chainChecked device (some s) roots chain = true →
    roots.Nodup → (roots ++ chain.map (·.currentCertificate.accountEd25519Pub)).Nodup
  | [], _, _, _, hr => by simpa using hr
  | t :: rest, s, roots, h, hr => by
    simp only [chainChecked] at h
    split_ifs at h with hbad hlink hroot
    have hr' : (roots ++ [t.currentCertificate.accountEd25519Pub]).Nodup :=
      nodup_append.mpr ⟨hr, nodup_singleton _, by
        intro x hx y hy
        rw [mem_singleton.mp hy]
        exact fun heq => hroot (heq ▸ hx)⟩
    have ih := nodup_of_chainChecked h hr'
    rwa [append_assoc] at ih

theorem visited_of_chainChecked (h : chainChecked device none [] chain = true) :
    (visited chain).Nodup := by
  cases chain with
  | nil => exact nodup_nil
  | cons t rest =>
    simp only [chainChecked, nil_append] at h
    split_ifs at h with hbad hroot
    rw [mem_singleton] at hroot
    have hnodup := nodup_of_chainChecked h (by simpa using Ne.symm hroot)
    simpa [visited] using hnodup

end Runs

/-! ### What a directory keeps -/

section Keeps

variable [Sha256] [EventCrypto] {d d' : PeerDirectory} {a : Announce} {accept : Bool}
  {chain : List AccountBindingTransition} {save : Except ErrorKind Unit}

/-- A directory that reads back: its records and marks are sorted, its chains linked, and every
device with a recorded chain is marked and met. -/
structure PeerDirectory.Ok (d : PeerDirectory) : Prop where
  records : RecordsOk d.records
  heads : (d.heads.map (·.publicIdentity.userId)).Pairwise (· < ·)
  linked : ∀ h ∈ d.heads, h.Linked
  marked : ∀ h ∈ d.heads, h.publicIdentity ∈ d.ambiguousAccounts
  ambiguous : (d.ambiguousAccounts.map (·.userId)).Pairwise (· < ·)
  met : ∀ p ∈ d.ambiguousAccounts, Met d.records p

theorem ok_fresh : fresh.Ok :=
  ⟨⟨by simp [fresh], List.Pairwise.nil, Nat.zero_le _⟩, List.Pairwise.nil,
    by simp [fresh], by simp [fresh], List.Pairwise.nil,
    by simp [fresh]⟩

section
omit [EventCrypto]

variable {known : List PublicIdentity} {p : PublicIdentity}

theorem noteAmbiguous_of_mem (hs : (known.map (·.userId)).Pairwise (· < ·)) (hp : p ∈ known) :
    noteAmbiguous known p = known := by
  rw [noteAmbiguous, if_pos hp]
  exact insertionSort_of_pairwise hs

theorem mem_noteAmbiguous {q} : q ∈ noteAmbiguous known p ↔ q ∈ known ∨ q = p := by
  rw [noteAmbiguous, mem_insertionSort]
  split_ifs with hp
  · constructor
    · exact .inl
    · rintro (h | rfl)
      · exact h
      · exact hp
  · rw [mem_append, mem_singleton]

theorem foldl_noteAmbiguous {heads : List TransitionHead}
    (hs : (known.map (·.userId)).Pairwise (· < ·)) (hm : ∀ h ∈ heads, h.publicIdentity ∈ known) :
    heads.foldl (fun known h => noteAmbiguous known h.publicIdentity) known = known := by
  induction heads with
  | nil => rfl
  | cons h rest ih =>
    rw [foldl_cons, noteAmbiguous_of_mem hs (hm h mem_cons_self)]
    exact ih fun x hx => hm x (mem_cons_of_mem _ hx)

end

/-- **What was saved is read back.** -/
theorem PeerDirectory.Ok.open_snapshot (h : d.Ok) : PeerDirectory.open d.snapshot =
    .ok { d with revision := 0, linkedBindings := [] } := by
  have hheads : d.heads.length ≤ maxPeers := by
    have hle := h.records.length_le (h.heads.imp fun h => ne_of_lt h) fun id hid => by
      obtain ⟨x, hx, rfl⟩ := mem_map.mp hid
      exact ⟨_, h.met _ (h.marked x hx), rfl⟩
    rwa [length_map] at hle
  have hambiguous : d.ambiguousAccounts.length ≤ maxPeers := by
    have hle := h.records.length_le (h.ambiguous.imp fun h => ne_of_lt h) fun id hid => by
      obtain ⟨p, hp, rfl⟩ := mem_map.mp hid
      exact ⟨p, h.met p hp, rfl⟩
    rwa [length_map] at hle
  have hwell : d.heads.all (·.wellFormed d.records) = true :=
    all_eq_true.mpr fun x hx => (h.linked x hx).wellFormed (h.met _ (h.marked x hx))
  have hmet : (d.ambiguousAccounts.all fun p => d.records.any (·.publicIdentity = p)) = true := by
    refine all_eq_true.mpr fun p hp => ?_
    obtain ⟨r, hr, hrp⟩ := h.met p hp
    exact any_eq_true.mpr ⟨r, hr, by simpa using hrp⟩
  have hvalid : d.records.all valid = true := all_eq_true.mpr h.records.valid
  have hascending : ascending (d.heads.map (·.publicIdentity.userId)) = true :=
    ascending_eq_true.mpr h.heads
  unfold PeerDirectory.open PeerDirectory.snapshot
  rw [ensure_of _ (And.intro hheads (And.intro hascending hwell)), ok_bind,
    ensure_of _ (And.intro hambiguous (And.intro (ascending_eq_true.mpr h.ambiguous) hmet)),
      ok_bind,
    ensure_of _ (And.intro h.records.count
      (And.intro hvalid (ascending_eq_true.mpr h.records.sorted))), ok_bind, if_pos rfl,
    foldl_noteAmbiguous h.ambiguous h.marked]
  rfl

/-! ### Recording -/

theorem RecordsOk.noteAmbiguous {records known p} (h : RecordsOk records)
    (hs : (known.map (·.userId)).Pairwise (· < ·)) (hmet : ∀ q ∈ known, Met records q)
    (hp : Met records p) : ((noteAmbiguous known p).map (·.userId)).Pairwise (· < ·) := by
  by_cases hmem : p ∈ known
  · rwa [noteAmbiguous_of_mem hs hmem]
  · rw [Peers.noteAmbiguous, if_neg hmem]
    refine pairwise_lt_insertionSort ?_
    rw [map_append, nodup_append]
    refine ⟨hs.imp fun h => ne_of_lt h, nodup_singleton _, fun id hid id' hid' heq => ?_⟩
    obtain ⟨q, hq, rfl⟩ := mem_map.mp hid
    rw [map_singleton, mem_singleton] at hid'
    exact hmem (h.met_inj (hmet q hq) hp (heq.trans hid') ▸ hq)

theorem RecordsOk.replaceHead {records heads x} (h : RecordsOk records)
    (hs : (heads.map (·.publicIdentity.userId)).Pairwise (· < ·))
    (hmet : ∀ y ∈ heads, Met records y.publicIdentity) (hx : Met records x.publicIdentity) :
    ((replaceHead heads x).map (·.publicIdentity.userId)).Pairwise (· < ·) := by
  refine pairwise_lt_insertionSort (f := fun h : TransitionHead => h.publicIdentity.userId) ?_
  rw [map_append, nodup_append]
  refine ⟨?_, nodup_singleton _, fun id hid id' hid' heq => ?_⟩
  · exact (hs.imp fun h => ne_of_lt h).sublist (filter_sublist.map _)
  · obtain ⟨y, hy, rfl⟩ := mem_map.mp hid
    rw [map_singleton, mem_singleton] at hid'
    obtain ⟨hy, hne⟩ := mem_filter.mp hy
    exact (by simpa using hne : y.publicIdentity ≠ x.publicIdentity)
      (h.met_inj (hmet y hy) hx (heq.trans hid'))

theorem place_placed (h : d.Ok) (hv : valid a = true) {next}
    (hplace : d.place a accept = .ok (some next)) : Placed d.records a next := by
  unfold place at hplace
  split at hplace
  · rename_i i hi
    cases hat : d.records[i]? with
    | none => rw [hat] at hplace; cases hplace
    | some existing =>
      rw [hat] at hplace
      dsimp only at hplace
      split_ifs at hplace with hconflict hsame
      · cases hplace
      · cases hplace
        refine h.records.set hv hi fun old hold => ?_
        rw [hat] at hold
        cases hold
        exact publicIdentity_of_conflicts (Bool.not_eq_true _ ▸ hconflict)
  · rename_i i hi
    split_ifs at hplace with hroom
    cases hplace
    exact h.records.insertAt hv hi hroom

theorem recordBound_ok (h : d.Ok) (hr : d.recordBound a accept save = .ok (some d')) : d'.Ok := by
  simp only [recordBound, bind_eq_ok, ensure_eq_ok] at hr
  obtain ⟨_, ⟨hvalid, -⟩, next, hplace, hr⟩ := hr
  cases next with
  | none => cases hr
  | some next =>
    simp only [bind_eq_ok] at hr
    obtain ⟨_, -, hr⟩ := hr
    cases hr
    have hp := place_placed h hvalid hplace
    have hamet : Met next a.publicIdentity := ⟨a, hp.mem, rfl⟩
    have hmet : ∀ p ∈ d.ambiguousAccounts, Met next p := fun p hpa => hp.met p (h.met p hpa)
    have hsub : (d.keptHeads a accept).Sublist d.heads := by
      unfold keptHeads
      split_ifs
      · exact filter_sublist
      · exact List.Sublist.refl _
    have hgrow : ∀ p ∈ d.ambiguousAccounts, p ∈ d.ambiguousAfter a := by
      intro p hpa
      unfold ambiguousAfter
      split_ifs
      · exact mem_noteAmbiguous.mpr (.inl hpa)
      · exact hpa
    refine ⟨hp.ok, h.heads.sublist (hsub.map _), fun x hx => h.linked x (hsub.subset hx),
      fun x hx => hgrow _ (h.marked x (hsub.subset hx)), ?_, fun p hpa => ?_⟩
    · dsimp only [ambiguousAfter]
      split_ifs
      · exact hp.ok.noteAmbiguous h.ambiguous hmet hamet
      · exact h.ambiguous
    · dsimp only [ambiguousAfter] at hpa
      split_ifs at hpa
      · rcases mem_noteAmbiguous.mp hpa with hpa | rfl
        · exact hmet p hpa
        · exact hamet
      · exact hmet p hpa

theorem candidate_chain {previous} (h : d.transitionCandidate a chain = some previous) :
    valid a = true ∧ chain ≠ [] ∧ chain.length ≤ maxChain ∧
      (∃ old, d.byAuthor a.ed25519Pub = some old ∧ old.publicIdentity = a.publicIdentity) ∧
      chainChecked a.publicIdentity none [] chain = true := by
  simp only [transitionCandidate, Option.ite_none_left_eq_some,
    Option.bind_eq_some_iff] at h
  obtain ⟨hbad, old, hold, hother, -, hcheck, -⟩ := h
  push Not at hbad hother
  exact ⟨by simpa using hbad.1, hbad.2.2.1, hbad.2.2.2, ⟨old, hold, hother.2.1⟩,
    by simpa using hcheck⟩

/-- A chain that starts anew, or goes on where the recorded one ends, is recorded as a linked
run. -/
theorem recordedChain_linked (h : d.Ok) {last transitions} (hne : chain ≠ [])
    (hlen : chain.length ≤ maxChain)
    (hcheck : chainChecked a.publicIdentity none [] chain = true)
    (hcont : (chain[0]?.bind (·.previousTransition)).isNone = true ∨
      ∀ x, d.head a.publicIdentity = some x → continuesRun x.transitions chain = true)
    (hrec : d.recordedChain a chain = .ok transitions) (hlast : chain.getLast? = some last) :
    TransitionHead.Linked ⟨a.publicIdentity, last.id, transitions⟩ := by
  obtain ⟨hall, hchain⟩ := of_chainChecked hcheck
  have hend := getLast?_recordedChain hrec hlast
  unfold recordedChain at hrec
  split_ifs at hrec with hfirst
  · cases hrec
    refine ⟨hne, hlen, fun t ht => ?_, by rw [hend]; rfl, hall, hchain,
      visited_of_chainChecked hcheck⟩
    rw [← head?_eq_getElem?, ht] at hfirst
    simpa using hfirst
  · cases hx : d.head a.publicIdentity with
    | none => rw [hx] at hrec; cases hrec
    | some x =>
      rw [hx] at hrec
      dsimp only at hrec
      split_ifs at hrec with hlong
      cases hrec
      have hxp : x.publicIdentity = a.publicIdentity := by simpa using find?_some hx
      have hl := h.linked x (mem_of_find?_eq_some hx)
      have hgo := (hcont.resolve_left hfirst) x hx
      simp only [continuesRun, Bool.and_eq_true, Option.any_eq_true, decide_eq_true_eq, all_eq_true,
        Bool.not_eq_true', contains_eq_mem, decide_eq_false_iff_not] at hgo
      obtain ⟨⟨t, ht, l, hlx, hfollows⟩, hroots⟩ := hgo
      refine ⟨by simp [hne], not_lt.mp hlong, fun t' ht' => ?_, by rw [hend]; rfl,
        fun t' ht' => ?_, ?_, ?_⟩
      · rw [head?_append_of_ne_nil _ hl.nonempty] at ht'
        exact hl.first t' ht'
      · rcases mem_append.mp ht' with ht' | ht'
        · exact ⟨(hl.verified t' ht').1, (hl.verified t' ht').2.trans hxp⟩
        · exact hall t' ht'
      · refine List.IsChain.append hl.chain hchain fun y hy z hz => ?_
        rw [hlx] at hy
        rw [ht] at hz
        cases hy
        cases hz
        exact hfollows
      · rw [visited_append hl.nonempty, nodup_append]
        refine ⟨hl.roots, (nodup_append.mp (visited_of_chainChecked hcheck)).2.1, ?_⟩
        intro r hr r' hr' heq
        obtain ⟨u, hu, rfl⟩ := mem_map.mp hr'
        exact hroots u hu (heq ▸ hr)

theorem recordTransition_ok (h : d.Ok) (hcont : (chain[0]?.bind (·.previousTransition)).isNone =
    true ∨ ∀ x, d.head a.publicIdentity = some x → continuesRun x.transitions chain = true)
    (hr : d.recordTransition a chain save = .ok (some d')) : d'.Ok := by
  unfold recordTransition at hr
  split_ifs at hr with hnone hknown
  · cases hr
  simp only [bind_eq_ok, need_eq_ok] at hr
  obtain ⟨index, hindex, transitions, htransitions, last, hlast, _, -, hr⟩ := hr
  cases hr
  obtain ⟨previous, hcand⟩ := Option.isSome_iff_exists.mp
    (Option.isSome_iff_ne_none.mpr (by simpa using hnone : d.transitionCandidate a chain ≠ none))
  obtain ⟨hvalid, hne, hlen, ⟨old, hold, hkeys⟩, hcheck⟩ := candidate_chain hcand
  have hsearch := mapError_eq_ok hindex
  have hp : Placed d.records a (d.records.set index a) := by
    refine h.records.set hvalid hsearch fun old' hold' => ?_
    obtain ⟨old'', hat, hfind⟩ := find_of_search hsearch
    obtain ⟨hfind', -⟩ := Option.filter_eq_some_iff.mp hold
    rw [← userId_of_valid hvalid, hfind] at hfind'
    rw [hold'] at hat
    cases hat
    cases hfind'
    exact hkeys
  have hamet : Met (d.records.set index a) a.publicIdentity := ⟨a, hp.mem, rfl⟩
  have hmet : ∀ p ∈ d.ambiguousAccounts, Met (d.records.set index a) p := fun p hpa =>
    hp.met p (h.met p hpa)
  refine ⟨hp.ok, hp.ok.replaceHead h.heads (fun y hy => hmet _ (h.marked y hy)) hamet, fun x hx =>
    ?_, fun x hx => ?_, hp.ok.noteAmbiguous h.ambiguous hmet hamet, fun p hpa => ?_⟩
  · rcases mem_replaceHead hx with hx | rfl
    · exact h.linked x hx
    · exact recordedChain_linked h hne hlen hcheck hcont htransitions hlast
  · rcases mem_replaceHead hx with hx | rfl
    · exact mem_noteAmbiguous.mpr (.inl (h.marked x hx))
    · exact mem_noteAmbiguous.mpr (.inr rfl)
  · rcases mem_noteAmbiguous.mp hpa with hpa | rfl
    · exact hmet p hpa
    · exact hamet

theorem authorizeLinkedDevice_kept {b account} (h : d.authorizeLinkedDevice b account = .ok d') :
    d'.records = d.records ∧ d'.heads = d.heads ∧
      d'.ambiguousAccounts = d.ambiguousAccounts := by
  unfold authorizeLinkedDevice at h
  split_ifs at h
  split at h
  · split_ifs at h
    cases h
    exact ⟨rfl, rfl, rfl⟩
  · cases h
    exact ⟨rfl, rfl, rfl⟩

theorem PeerDirectory.Ok.congr (h : d.Ok) (hr : d'.records = d.records) (hh : d'.heads = d.heads)
    (ha : d'.ambiguousAccounts = d.ambiguousAccounts) : d'.Ok :=
  ⟨hr ▸ h.records, hh ▸ h.heads, hh ▸ h.linked, fun x hx => ha ▸ h.marked x (hh ▸ hx),
    ha ▸ h.ambiguous, fun p hp => hr ▸ h.met p (ha ▸ hp)⟩

end Keeps

/-! ### Runs -/

namespace Kept

variable [Sha256] [EventCrypto] {s : Kept} {r : Recording}

/-- A directory that reads back, with the file that was saved last. -/
structure Inv (s : Kept) : Prop where
  ok : s.directory.Ok
  file : s.file = s.directory.snapshot

theorem outcome_ok (h : s.directory.Ok) (hc : s.continues r = true) {d}
    (ho : s.outcome r = .ok (some d)) : d.Ok := by
  cases r with
  | announced a save => exact recordBound_ok h ho
  | own a device save =>
    simp only [outcome, recordOwn] at ho
    split_ifs at ho
    exact recordBound_ok h ho
  | accepted a save => exact recordBound_ok h ho
  | transition a chain save =>
    refine recordTransition_ok h ?_ ho
    simp only [continues, Bool.or_eq_true] at hc
    refine hc.imp_right fun hall x hx => ?_
    rwa [hx, Option.all_some] at hall
  | linked device account => cases ho
  | reopened => cases ho

theorem step_inv (h : s.Inv) (hc : s.continues r = true) : (s.step r).Inv := by
  unfold step
  cases ho : s.outcome r with
  | error e => exact h
  | ok saved =>
    cases saved with
    | some d => exact ⟨outcome_ok h.ok hc ho, rfl⟩
    | none =>
      cases r with
      | linked device account =>
        dsimp only
        cases hd : s.directory.authorizeLinkedDevice device account with
        | error e => exact h
        | ok d =>
          obtain ⟨hr, hh, ha⟩ := authorizeLinkedDevice_kept hd
          refine ⟨h.ok.congr hr hh ha, ?_⟩
          rw [h.file, PeerDirectory.snapshot, PeerDirectory.snapshot, hr, hh, ha]
      | reopened =>
        have hopen : PeerDirectory.open s.file =
          .ok { s.directory with revision := 0, linkedBindings := [] } := by
          rw [h.file, h.ok.open_snapshot]
        rw [hopen]
        exact ⟨h.ok.congr rfl rfl rfl, h.file⟩
      | _ => exact h

theorem step_of_error {e} (h : s.outcome r = .error e) : s.step r = s := by
  unfold step
  rw [h]

end Kept

/-- The file reopens to what is in memory, recorded chains are linked runs of distinct transitions,
and a recording that fails changes neither memory nor file. -/
def Kept.Reopens [Sha256] [EventCrypto] (s : Kept) : Prop :=
  (∃ d, PeerDirectory.open s.file = .ok d ∧ d.records = s.directory.records ∧
    d.heads = s.directory.heads ∧ d.ambiguousAccounts = s.directory.ambiguousAccounts) ∧
  (∀ x ∈ s.directory.heads, x.Linked ∧ x.transitions.Nodup) ∧
  ∀ r e, s.outcome r = .error e → s.step r = s

/-- **Every saved file reopens**, to the same records, chains and marks, in every run whose chains
continue what is recorded at its end. -/
theorem saved_reopens [Sha256] [EventCrypto] (recordings : List Recording)
    (h : Along Kept.step (fun s r => s.continues r = true) Kept.fresh recordings) :
    (recordings.foldl Kept.step Kept.fresh).Reopens := by
  have hinv : (recordings.foldl Kept.step Kept.fresh).Inv :=
    Along.inv (I := Kept.Inv) (fun _ _ hs hc => Kept.step_inv hs hc) ⟨ok_fresh, rfl⟩ h
  refine ⟨⟨_, (congrArg _ hinv.file).trans hinv.ok.open_snapshot, rfl, rfl, rfl⟩,
    fun x hx => ⟨hinv.ok.linked x hx, (hinv.ok.linked x hx).nodup⟩, fun r e he =>
      Kept.step_of_error he⟩

/-! ### A device that changes its account twice -/

/-- The move number `k` of device 2, from account `9 + k` to the next, after another one. -/
def sampleMove (k : ℕ) (previous : Option (BitVec 256)) : AccountBindingTransition :=
  ⟨sampleDevice 2, sampleCertificate (9 + k) 2, sampleCertificate (10 + k) 2, previous, 0,
    List.replicate 64 0, List.replicate 64 0, List.replicate 63 0 ++ [UInt8.ofNat k]⟩

def sampleMoves [Sha256] : ℕ → List AccountBindingTransition
  | 0 => []
  | k + 1 => sampleMoves k ++ [sampleMove (k + 1) ((sampleMoves k).getLast?.map (·.id))]

/-- Device 2 is met, shows its first two moves, and later the third. -/
def sampleHistory [Sha256] (shown : List AccountBindingTransition) : List Recording :=
  [.announced (sampleAnnounce 2 10) (.ok ()), .transition (sampleAnnounce 2 12) (sampleMoves 2)
    (.ok ()), .transition (sampleAnnounce 2 13) shown (.ok ())]

theorem saved_reopens_history : letI := sampleDigest; letI := sampleSigner
    ((sampleHistory ((sampleMoves 3).drop 2)).foldl Kept.step Kept.fresh).Reopens ∧
    ((sampleHistory ((sampleMoves 3).drop 2)).foldl Kept.step Kept.fresh).directory.heads.map
      (·.transitions) = [sampleMoves 3] :=
  let := sampleDigest
  let := sampleSigner
  ⟨saved_reopens (sampleHistory ((sampleMoves 3).drop 2)) (by decide +kernel), by decide +kernel⟩

/-- **A chain that repeats a recorded transition leaves a file that does not open**: the repeated
one is recorded after itself. A chain that goes back to an account of the recorded one is recorded
too. -/
theorem overlap_unreadable : letI := sampleDigest; letI := sampleSigner
    let s := (sampleHistory ((sampleMoves 3).drop 1)).foldl Kept.step Kept.fresh
    let back : AccountBindingTransition :=
      { sampleMove 1 ((sampleMoves 1).getLast?.map (·.id)) with
        previousCertificate := sampleCertificate 11 2, currentCertificate := sampleCertificate 10 2
        nonce := 1, deviceSignature := List.replicate 63 0 ++ [9] }
    let s' := [Recording.announced (sampleAnnounce 2 10) (.ok ()),
      .transition (sampleAnnounce 2 11) (sampleMoves 1) (.ok ()),
      .transition (sampleAnnounce 2 10) [back] (.ok ())].foldl Kept.step Kept.fresh
    s.file = s.directory.snapshot ∧
      s.directory.heads.map (·.transitions) = [sampleMoves 2 ++ (sampleMoves 3).drop 1] ∧
      PeerDirectory.open s.file = .error .invalidData ∧
      s'.directory.heads.map (visited ·.transitions) = [[10, 11, 10]] := by
  decide +kernel

end MeshTalk.Peers
