import MeshTalk.EventLog.Store

/-! # The indexes of a log are functions of the events it accepted

`Indexes l acc` says that every field of the log `l` is the index of the accepted events `acc` it
stands for. One accepted event keeps it (`Indexes.indexTrusted`), so it holds after every sequence
of appends (`indexes_appendAll`), and since the accepted events determine each index the log is a
function of them (`Indexes.unique`).

The accepted events are kept in the order of acceptance, in which parents come first (`Causal`). -/

namespace MeshTalk

open Lib List Event Option

/-! ### Acceptance order -/

/-- Each event comes after its parents, which are events of its conversation. -/
inductive Causal : List Event → Prop
  | nil : Causal []
  | snoc {l : List Event} {e : Event} : Causal l →
      (∀ p ∈ e.parents, ∃ e' ∈ l, e'.id = p ∧ e'.conversationId = e.conversationId) →
      Causal (l ++ [e])

variable {l : List Event}

theorem Causal.parent_mem (h : Causal l) {e} (he : e ∈ l) {p} (hp : p ∈ e.parents) :
    ∃ e' ∈ l, e'.id = p ∧ e'.conversationId = e.conversationId := by
  induction h with
  | nil => simp at he
  | @snoc l x _ hx ih =>
    have lift : (∃ e' ∈ l, e'.id = p ∧ e'.conversationId = e.conversationId) →
        ∃ e' ∈ l ++ [x], e'.id = p ∧ e'.conversationId = e.conversationId := by
      rintro ⟨e', he', h'⟩
      exact ⟨e', mem_append_left _ he', h'⟩
    rcases mem_append.mp he with he | he
    · exact lift (ih he)
    · obtain rfl := mem_singleton.mp he
      exact lift (hx p hp)

theorem Causal.idxOf_lt (h : Causal l) (hn : (l.map Event.id).Nodup) {e} (he : e ∈ l) {p}
    (hp : p ∈ e.parents) : (l.map Event.id).idxOf p < (l.map Event.id).idxOf e.id := by
  induction h with
  | nil => simp at he
  | @snoc l x hl hx ih =>
    rw [List.map_append] at hn ⊢
    have hdis := (List.nodup_append.mp hn).2.2
    have parent_idx : ∀ {q : EventId},
      (∃ e' ∈ l, e'.id = q ∧ e'.conversationId = e.conversationId) → q ∈ l.map Event.id := by
      rintro q ⟨e', he', rfl, -⟩
      exact List.mem_map_of_mem he'
    rcases List.mem_append.mp he with he | he
    · have hpl := parent_idx (hl.parent_mem he hp)
      rw [List.idxOf_append_of_mem hpl, List.idxOf_append_of_mem (List.mem_map_of_mem he)]
      exact ih (List.nodup_append.mp hn).1 he
    · obtain rfl := List.mem_singleton.mp he
      have hpl := parent_idx (hx p hp)
      have hnot : e.id ∉ l.map Event.id := fun hm => hdis _ hm _ (by simp) rfl
      rw [List.idxOf_append_of_mem hpl, List.idxOf_append_of_notMem hnot]
      have := List.idxOf_lt_length_iff.mpr hpl
      omega

theorem eq_of_sorted_keys {l'} (h : (l.map key).Pairwise (· < ·))
    (h' : (l'.map key).Pairwise (· < ·)) (hm : ∀ e, e ∈ l ↔ e ∈ l') : l = l' := by
  have hlt : l.Pairwise fun a b => a.key < b.key := pairwise_map.mp h
  have hlt' : l'.Pairwise fun a b => a.key < b.key := pairwise_map.mp h'
  refine Perm.eq_of_pairwise (fun a b _ _ h1 h2 => absurd h1 (not_lt.mpr h2.le)) hlt hlt' ?_
  have hne : ∀ {a b : Event}, a.key < b.key → a ≠ b := fun hab he => (he ▸ hab).ne rfl
  exact (perm_ext_iff_of_nodup (hlt.imp hne) (hlt'.imp hne)).mpr hm

namespace EventLog

/-! ### The relations the indexes stand for -/

/-- `i` is a non-profile event of `c` that no accepted non-profile event has as a parent. -/
def IsHead (A : List Event) (c : ConversationId) (i : EventId) : Prop :=
  (∃ e ∈ A, e.conversationId = c ∧ e.kind ≠ .profile ∧ e.id = i) ∧
    ∀ e ∈ A, e.kind ≠ .profile → i ∉ e.parents

def HasKind (A : List Event) (kinds : List EventKind) (c : ConversationId) : Prop :=
  ∃ e ∈ A, e.conversationId = c ∧ e.kind ∈ kinds

variable {e : Event} {A : List Event}

theorem mem_flag {kinds s} (h : ∀ c, c ∈ s ↔ HasKind A kinds c) (c) :
    c ∈ flag kinds e s ↔ HasKind (A ++ [e]) kinds c := by
  have split : HasKind (A ++ [e]) kinds c ↔
      HasKind A kinds c ∨ e.conversationId = c ∧ e.kind ∈ kinds := by
    simp [HasKind, or_and_right, exists_or]
  rw [split, ← h]
  unfold flag
  split_ifs with hk
  · rw [Finset.mem_insert, or_comm, eq_comm]
    simp [hk]
  · simp [hk]

theorem isHead_append_profile (hk : e.kind = .profile) (c i) :
    IsHead A c i ↔ IsHead (A ++ [e]) c i := by
  simp [IsHead, or_and_right, exists_or, or_imp, forall_and, hk]

/-- The frontier after a new non-profile event: its parents leave, it enters. -/
theorem isHead_append (hk : e.kind ≠ .profile) (hfresh : ∀ x ∈ A, e.id ∉ x.parents)
    (hself : e.id ∉ e.parents) (c i) : IsHead (A ++ [e]) c i ↔
      i = e.id ∧ c = e.conversationId ∨ IsHead A c i ∧ i ∉ e.parents := by
  have split : IsHead (A ++ [e]) c i ↔
      ((∃ x ∈ A, x.conversationId = c ∧ x.kind ≠ .profile ∧ x.id = i) ∨
        e.conversationId = c ∧ e.id = i) ∧
      (∀ x ∈ A, x.kind ≠ .profile → i ∉ x.parents) ∧ i ∉ e.parents := by
    simp [IsHead, or_and_right, exists_or, or_imp, forall_and, hk]
  rw [split]
  constructor
  · rintro ⟨hx | ⟨rfl, rfl⟩, hA, hp⟩
    · exact Or.inr ⟨⟨hx, hA⟩, hp⟩
    · exact Or.inl ⟨rfl, rfl⟩
  · rintro (⟨rfl, rfl⟩ | ⟨⟨hx, hA⟩, hp⟩)
    · exact ⟨Or.inr ⟨rfl, rfl⟩, fun x hx _ => hfresh x hx, hself⟩
    · exact ⟨Or.inl hx, hA, hp⟩

variable [EventCrypto]

structure Indexes (l : EventLog) (A : List Event) : Prop where
  events : ∀ i e, l.events.lookup i = some e ↔ e ∈ A ∧ e.id = i
  valid : ∀ e ∈ A, e.SelfValid
  nodup : (A.map Event.id).Nodup
  causal : Causal A
  authorSeq : ∀ c a s i, l.authorSeq.lookup (c, a, s) = some i ↔
    ∃ e ∈ A, e.conversationId = c ∧ e.author = a ∧ e.seq = s ∧ e.id = i
  byConversation : l.byConversation.IsIndex fun c k => ∃ e ∈ A, e.conversationId = c ∧ e.key = k
  messagesByAuthor : l.messagesByAuthor.IsIndex fun ca k =>
    ∃ e ∈ A, (e.conversationId, e.author) = ca ∧ e.kind = .message ∧ e.key = k
  headSets : l.headSets.IsIndex (IsHead A)
  version : l.version.IsMax₂ fun c a n =>
    ∃ e ∈ A, e.conversationId = c ∧ e.author = a ∧ e.seq = n
  maxLamport : l.maxLamport.IsMax fun c n => ∃ e ∈ A, e.conversationId = c ∧ e.lamport = n
  replicaV2 : ∀ c, c ∈ l.replicaV2 ↔ HasKind A replicaKinds c
  historyV3 : ∀ c, c ∈ l.historyV3 ↔ HasKind A historyKinds c
  accountV4 : ∀ c, c ∈ l.accountV4 ↔ HasKind A accountKinds c
  metadataV5 : ∀ c, c ∈ l.metadataV5 ↔ HasKind A metadataKinds c

theorem indexes_empty : Indexes ∅ [] where
  events i e := by simp [show (∅ : EventLog).events = ∅ from rfl]
  valid e h := by simp at h
  nodup := by simp
  causal := .nil
  authorSeq c a s i := by simp [show (∅ : EventLog).authorSeq = ∅ from rfl]
  byConversation := Map.IsIndex.empty.congr (by simp)
  messagesByAuthor := Map.IsIndex.empty.congr (by simp)
  headSets := Map.IsIndex.empty.congr (by simp [IsHead])
  version := Map.IsMax₂.empty.congr (by simp)
  maxLamport := Map.IsMax.empty.congr (by simp)
  replicaV2 c := by simp [show (∅ : EventLog).replicaV2 = ∅ from rfl, HasKind]
  historyV3 c := by simp [show (∅ : EventLog).historyV3 = ∅ from rfl, HasKind]
  accountV4 c := by simp [show (∅ : EventLog).accountV4 = ∅ from rfl, HasKind]
  metadataV5 c := by simp [show (∅ : EventLog).metadataV5 = ∅ from rfl, HasKind]

/-! ### Facts read off the indexes -/

section Facts

variable {l : EventLog} {A : List Event}

theorem Indexes.eq_of_id (h : Indexes l A) {e'} (he : e ∈ A) (he' : e' ∈ A) (hid : e.id = e'.id) :
    e = e' := by
  have h1 := (h.events e.id e).mpr ⟨he, rfl⟩
  have h2 := (h.events e.id e').mpr ⟨he', hid.symm⟩
  exact mem_unique h1 h2

theorem Indexes.lookup_eq_none (h : Indexes l A) {i} :
    l.events.lookup i = none ↔ ∀ e ∈ A, e.id ≠ i := by
  rw [eq_none_iff_forall_ne_some]
  constructor
  · intro hn e he hid
    exact hn e ((h.events i e).mpr ⟨he, hid⟩)
  · intro hn e he
    obtain ⟨he, hid⟩ := (h.events i e).mp he
    exact hn e he hid

theorem Indexes.parents_of_admits (h : Indexes l A) (ha : l.Admits e) :
    ∀ p ∈ e.parents, ∃ e' ∈ A, e'.id = p ∧ e'.conversationId = e.conversationId := by
  intro p hp
  obtain ⟨e', he', hc⟩ := ha.parents p hp
  obtain ⟨hA, hid⟩ := (h.events p e').mp he'
  exact ⟨e', hA, hid, hc⟩

/-- No two accepted events share conversation, author and sequence number. -/
theorem Indexes.eq_of_seq (h : Indexes l A) {e'} (he : e ∈ A) (he' : e' ∈ A)
    (hc : e.conversationId = e'.conversationId) (ha : e.author = e'.author) (hs : e.seq = e'.seq) :
    e = e' := by
  refine h.eq_of_id he he' ?_
  have h1 := (h.authorSeq _ _ _ e.id).mpr ⟨e, he, rfl, rfl, rfl, rfl⟩
  have h2 := (h.authorSeq _ _ _ e'.id).mpr ⟨e', he', rfl, rfl, rfl, rfl⟩
  rw [← hc, ← ha, ← hs] at h2
  exact mem_unique h1 h2

end Facts

/-! ### One accepted event -/

variable {e : Event}

theorem Indexes.indexHeads {l A} (h : Indexes l A) (ha : l.Admits e) :
    (indexHeads l.headSets e).IsIndex (IsHead (A ++ [e])) := by
  have hpar := h.parents_of_admits ha
  have hnew : ∀ x ∈ A, x.id ≠ e.id := h.lookup_eq_none.mp ha.fresh
  have hfresh : ∀ x ∈ A, e.id ∉ x.parents := fun x hx hp => by
    obtain ⟨y, hy, hid, -⟩ := h.causal.parent_mem hx hp
    exact hnew y hy hid
  have hself : e.id ∉ e.parents := fun hp => by
    obtain ⟨y, hy, hid, -⟩ := hpar _ hp
    exact hnew y hy hid
  unfold EventLog.indexHeads
  split_ifs with hk
  · refine (h.headSets.modify e.conversationId
      (fun s => (e.parents.foldl (fun t p => t.erase p) s).insert e.id)
      ⟨e.id, OrdSet.mem_insert.mpr (Or.inl rfl)⟩).congr fun c i => ?_
    rw [isHead_append hk hfresh hself]
    split_ifs with hc
    · subst hc
      rw [OrdSet.mem_insert, OrdSet.mem_foldl_erase, h.headSets.mem]
      simp
    · -- the parents of `e` are events of its own conversation, so no other frontier loses one
      have hnp : IsHead A c i → i ∉ e.parents := by
        rintro ⟨⟨x, hx, hxc, -, rfl⟩, -⟩ hp
        obtain ⟨y, hy, hid, hyc⟩ := hpar _ hp
        rw [h.eq_of_id hy hx hid] at hyc
        exact hc (hxc.symm.trans hyc)
      simp only [hc, and_false, false_or]
      exact ⟨fun hh => ⟨hh, hnp hh⟩, fun hh => hh.1⟩
  · exact h.headSets.congr (isHead_append_profile (not_not.mp hk))

/-- **An accepted event keeps the indexes exact.** -/
theorem Indexes.indexTrusted {l A} (h : Indexes l A) (ha : l.Admits e) :
    Indexes (l.indexTrusted e) (A ++ [e]) where
  events i x := by
    have hnew := h.lookup_eq_none.mp ha.fresh
    rw [EventLog.indexTrusted, Map.lookup_insert_ite]
    split_ifs with hi
    · subst hi
      simp only [some.injEq, mem_append, mem_singleton]
      constructor
      · rintro rfl
        exact ⟨Or.inr rfl, rfl⟩
      · rintro ⟨hx | rfl, hid⟩
        · exact absurd hid (hnew x hx)
        · rfl
    · rw [h.events]
      simp only [mem_append, mem_singleton]
      constructor
      · rintro ⟨hx, hid⟩
        exact ⟨Or.inl hx, hid⟩
      · rintro ⟨hx | rfl, hid⟩
        · exact ⟨hx, hid⟩
        · exact absurd hid.symm hi
  valid x hx := by
    rcases mem_append.mp hx with hx | hx
    · exact h.valid x hx
    · rw [mem_singleton.mp hx]
      exact ha.selfValid
  nodup := by
    rw [map_append, nodup_append]
    refine ⟨h.nodup, by simp, fun i hi j hj => ?_⟩
    obtain ⟨x, hx, rfl⟩ := mem_map.mp hi
    rw [map_singleton, mem_singleton] at hj
    rw [hj]
    exact h.lookup_eq_none.mp ha.fresh x hx
  causal := .snoc h.causal (h.parents_of_admits ha)
  authorSeq c a s i := by
    rw [EventLog.indexTrusted, Map.lookup_insert_ite]
    simp only [mem_append, mem_singleton, or_and_right, exists_or, exists_eq_left,
      Prod.mk.injEq]
    split_ifs with hk
    · obtain ⟨rfl, rfl, rfl⟩ := hk
      -- the author had no other event at this sequence number
      have hold : (∃ x ∈ A, x.conversationId = e.conversationId ∧ x.author = e.author ∧
          x.seq = e.seq ∧ x.id = i) → e.id = i := fun hx =>
        (ha.unique i ((h.authorSeq _ _ _ i).mpr hx)).symm
      simp only [some.injEq, true_and]
      exact ⟨Or.inr, fun hx => hx.elim hold id⟩
    · rw [h.authorSeq]
      refine ⟨Or.inl, fun hx => hx.elim id ?_⟩
      rintro ⟨rfl, rfl, rfl, -⟩
      exact absurd ⟨rfl, rfl, rfl⟩ hk
  byConversation := (h.byConversation.insert e.conversationId e.key).congr fun c k => by
    simp [or_and_right, exists_or, eq_comm]
  messagesByAuthor := by
    unfold EventLog.indexTrusted
    split_ifs with hk
    · refine (h.messagesByAuthor.insert (e.conversationId, e.author) e.key).congr fun ca k => ?_
      simp [or_and_right, exists_or, hk, eq_comm]
    · refine h.messagesByAuthor.congr fun ca k => ?_
      simp [or_and_right, exists_or, hk]
  headSets := h.indexHeads ha
  version := (h.version.raise e.conversationId e.author e.seq).congr fun c a n => by
    simp [or_and_right, exists_or, eq_comm]
  maxLamport := (h.maxLamport.raise e.conversationId e.lamport).congr fun c n => by
    simp [or_and_right, exists_or, eq_comm]
  replicaV2 := mem_flag h.replicaV2
  historyV3 := mem_flag h.historyV3
  accountV4 := mem_flag h.accountV4
  metadataV5 := mem_flag h.metadataV5

/-! ### Sequences of appends -/

def appendAll (l : EventLog) (es : List Event) : EventLog := es.foldl (fun l e => (l.append e).2) l

def acceptedBy (l : EventLog) : List Event → List Event
  | [] => []
  | e :: es =>
    match (l.append e).1 with
    | .ok .appended => e :: (l.append e).2.acceptedBy es
    | _ => (l.append e).2.acceptedBy es

theorem acceptedBy_cons_of_admits {l : EventLog} {es}
    (h : l.append e = (.ok .appended, l.indexTrusted e)) :
    l.acceptedBy (e :: es) = e :: (l.indexTrusted e).acceptedBy es := by
  rw [acceptedBy, h]

theorem acceptedBy_cons_of_ne {l : EventLog} {es} (h : (l.append e).1 ≠ .ok .appended) :
    l.acceptedBy (e :: es) = (l.append e).2.acceptedBy es := by
  rw [acceptedBy]
  split
  · rename_i h'
    exact absurd h' h
  · rfl

theorem mem_of_mem_acceptedBy : ∀ {es : List Event} {l : EventLog},
    e ∈ l.acceptedBy es → e ∈ es
  | [], _, h => h
  | x :: es, l, h => by
    rw [acceptedBy] at h
    split at h
    · exact (mem_cons.mp h).elim (fun he => he ▸ mem_cons_self)
        fun h => mem_cons_of_mem x (mem_of_mem_acceptedBy h)
    · exact mem_cons_of_mem x (mem_of_mem_acceptedBy h)

/-- **The indexes are exact after every sequence of appends.** -/
theorem Indexes.appendAll {l : EventLog} {A} (h : Indexes l A) :
    ∀ es : List Event, Indexes (l.appendAll es) (A ++ l.acceptedBy es) := by
  intro es
  induction es generalizing l A with
  | nil => simpa [EventLog.appendAll, acceptedBy] using h
  | cons e es ih =>
    rcases l.append_cases e with ⟨ha, hap⟩ | ⟨hne, hsame⟩
    · have := ih (h.indexTrusted ha)
      rw [acceptedBy_cons_of_admits hap]
      simpa [EventLog.appendAll, hap] using this
    · rw [acceptedBy_cons_of_ne hne, hsame]
      simpa [EventLog.appendAll, hsame] using ih h

theorem indexes_appendAll (es) :
    Indexes ((∅ : EventLog).appendAll es) ((∅ : EventLog).acceptedBy es) := by
  simpa using indexes_empty.appendAll es

/-- **The accepted events determine the log**, whatever the order they came in. -/
theorem Indexes.unique {l l' A A'} (h : Indexes l A) (h' : Indexes l' A')
    (hA : ∀ e, e ∈ A ↔ e ∈ A') :
    l = l' := by
  have flags : ∀ {kinds : List EventKind} {s s' : Finset ConversationId},
      (∀ c, c ∈ s ↔ HasKind A kinds c) → (∀ c, c ∈ s' ↔ HasKind A' kinds c) → s = s' := by
    intro kinds s s' hs hs'
    ext c
    simp [hs, hs', HasKind, hA]
  have h1 : l.events = l'.events := Finmap.ext_lookup fun i => ext fun e => by
    rw [h.events, h'.events, hA]
  have h2 : l.byConversation = l'.byConversation :=
    h.byConversation.unique (h'.byConversation.congr fun c k => by simp [hA])
  have h3 : l.messagesByAuthor = l'.messagesByAuthor :=
    h.messagesByAuthor.unique (h'.messagesByAuthor.congr fun c k => by simp [hA])
  have h4 : l.headSets = l'.headSets :=
    h.headSets.unique (h'.headSets.congr fun c i => by simp [IsHead, hA])
  have h5 : l.version = l'.version :=
    h.version.unique (h'.version.congr fun c a n => by simp [hA])
  have h6 : l.maxLamport = l'.maxLamport :=
    h.maxLamport.unique (h'.maxLamport.congr fun c n => by simp [hA])
  have h7 : l.authorSeq = l'.authorSeq := Finmap.ext_lookup fun ⟨c, a, s⟩ => ext fun i => by
    simp [h.authorSeq, h'.authorSeq, hA]
  have h8 := flags h.replicaV2 h'.replicaV2
  have h9 := flags h.historyV3 h'.historyV3
  have h10 := flags h.accountV4 h'.accountV4
  have h11 := flags h.metadataV5 h'.metadataV5
  cases l
  cases l'
  simp only [mk.injEq]
  exact ⟨h1, h2, h3, h8, h9, h10, h11, h4, h5, h6, h7⟩

/-! ### The queries -/

section Queries

variable {l : EventLog} {A : List Event} {c : ConversationId}

section

variable (h : Indexes l A)
include h

theorem Indexes.mem_heads {i} : i ∈ l.heads c ↔ IsHead A c i := by
  rw [← h.headSets.mem, heads, Map.setAt, OrdSet.mem_def]
  cases l.headSets.lookup c <;> simp

theorem Indexes.key_lookup {k} (hk : k ∈ l.byConversation.setAt c) :
    ∃ e ∈ A, e.conversationId = c ∧ e.key = k ∧ l.events.lookup (ofLex k).2 = some e := by
  obtain ⟨e, he, hc, rfl⟩ := (h.byConversation.mem c k).mp hk
  exact ⟨e, he, hc, rfl, (h.events e.id e).mpr ⟨he, rfl⟩⟩

theorem Indexes.map_key_eventsOf (c) :
    (l.eventsOf c).map key = (l.byConversation.setAt c).toList := by
  rw [eventsOf_eq, map_filterMap]
  have : ∀ k ∈ (l.byConversation.setAt c).toList,
      (l.events.lookup (ofLex k).2).map key = some k := fun k hk => by
    obtain ⟨e, -, -, rfl, hl⟩ := h.key_lookup hk
    rw [hl]; rfl
  rw [filterMap_congr this, filterMap_some]

theorem Indexes.eventsOf_sorted (c) : ((l.eventsOf c).map key).Pairwise (· < ·) := by
  rw [h.map_key_eventsOf]
  exact (l.byConversation.setAt c).sorted

theorem Indexes.mem_eventsOf :
    e ∈ l.eventsOf c ↔ e ∈ A ∧ e.conversationId = c := by
  rw [eventsOf_eq, mem_filterMap]
  constructor
  · rintro ⟨k, hk, hl⟩
    obtain ⟨x, hx, hc, -, hlx⟩ := h.key_lookup hk
    obtain rfl := mem_unique hl hlx
    exact ⟨hx, hc⟩
  · rintro ⟨he, hc⟩
    refine ⟨e.key, (h.byConversation.mem c e.key).mpr ⟨e, he, hc, rfl⟩, ?_⟩
    exact (h.events e.id e).mpr ⟨he, rfl⟩

theorem Indexes.versionVector {a n} :
    (l.versionVector c).lookup a = some n ↔
      IsGreatest {s | ∃ e ∈ A, e.conversationId = c ∧ e.author = a ∧ e.seq = s} n :=
  (h.version.inner c).lookup_eq_some

theorem Indexes.authoredEvent {a s e} : l.authoredEvent c a s = some e ↔
      e ∈ A ∧ e.conversationId = c ∧ e.author = a ∧ e.seq = s := by
  unfold EventLog.authoredEvent
  rw [bind_eq_some_iff]
  constructor
  · rintro ⟨i, hi, he⟩
    obtain ⟨x, hx, hc, ha, hs, rfl⟩ := (h.authorSeq c a s i).mp hi
    obtain ⟨he, hid⟩ := (h.events x.id e).mp he
    rw [h.eq_of_id he hx hid]
    exact ⟨hx, hc, ha, hs⟩
  · rintro ⟨he, hc, ha, hs⟩
    exact ⟨e.id, (h.authorSeq c a s e.id).mpr ⟨e, he, hc, ha, hs, rfl⟩,
      (h.events e.id e).mpr ⟨he, rfl⟩⟩

end

end Queries

/-! ### One conversation -/

/-- The two logs answer every query about the conversation alike. -/
structure SameAnswers (l l' : EventLog) (c : ConversationId) : Prop where
  eventsOf : l'.eventsOf c = l.eventsOf c
  heads : l'.heads c = l.heads c
  versionVector : l'.versionVector c = l.versionVector c
  nextSequence : ∀ a, l'.nextSequence c a = l.nextSequence c a
  prepare : l'.prepare c = l.prepare c
  messageKeysAfter : ∀ a cursor limit,
    l'.messageKeysAfter c a cursor limit = l.messageKeysAfter c a cursor limit
  authoredEvent : ∀ a s, l'.authoredEvent c a s = l.authoredEvent c a s
  requiresV2 : l'.requiresChannelV2 c = l.requiresChannelV2 c
  requiresV3 : l'.requiresChannelV3 c = l.requiresChannelV3 c
  requiresV4 : l'.requiresChannelV4 c = l.requiresChannelV4 c
  requiresV5 : l'.requiresChannelV5 c = l.requiresChannelV5 c

variable {l : EventLog} {A : List Event} {c : ConversationId}

/-- The frontier of a conversation depends on its own events only. -/
theorem Indexes.isHead_iff (h : Indexes l A) {i} : IsHead A c i ↔
      (∃ e ∈ A, e.conversationId = c ∧ e.kind ≠ .profile ∧ e.id = i) ∧
        ∀ e ∈ A, e.conversationId = c → e.kind ≠ .profile → i ∉ e.parents := by
  refine ⟨fun hh => ⟨hh.1, fun e he _ => hh.2 e he⟩, fun ⟨hx, hp⟩ => ⟨hx, fun e he hk hi => ?_⟩⟩
  obtain ⟨x, hxA, hxc, -, hxi⟩ := hx
  obtain ⟨y, hy, hyi, hyc⟩ := h.causal.parent_mem he hi
  rw [h.eq_of_id hy hxA (hyi.trans hxi.symm)] at hyc
  exact hp e he (hyc.symm.trans hxc) hk hi

/-- **Logs with the same events of a conversation answer every query about it alike.** -/
theorem Indexes.sameAnswers {l' A'} (h : Indexes l A) (h' : Indexes l' A')
    (hc : ∀ e, e.conversationId = c → (e ∈ A ↔ e ∈ A')) : SameAnswers l l' c := by
  have ex : ∀ P : Event → Prop, (∃ e ∈ A', e.conversationId = c ∧ P e) ↔
      ∃ e ∈ A, e.conversationId = c ∧ P e := fun P =>
    ⟨fun ⟨e, he, hec, hp⟩ => ⟨e, (hc e hec).mpr he, hec, hp⟩,
      fun ⟨e, he, hec, hp⟩ => ⟨e, (hc e hec).mp he, hec, hp⟩⟩
  have all : ∀ P : Event → Prop, (∀ e ∈ A', e.conversationId = c → P e) ↔
      ∀ e ∈ A, e.conversationId = c → P e := fun P =>
    ⟨fun hP e he hec => hP e ((hc e hec).mp he) hec, fun hP e he hec =>
      hP e ((hc e hec).mpr he) hec⟩
  have hheads : l'.heads c = l.heads c := by
    refine OrdSet.list_ext (l'.heads_sorted c) (l.heads_sorted c) fun i => ?_
    rw [h'.mem_heads, h.mem_heads, h'.isHead_iff, h.isHead_iff, ex, all]
  have hversion : l'.versionVector c = l.versionVector c :=
    (h'.version.inner c).unique ((h.version.inner c).congr fun a n => (ex _).symm)
  have hlast : ∀ m : EventLog, ∀ a, ((m.version.lookup c).bind fun v => v.lookup a).getD 0 =
      ((m.versionVector c).lookup a).getD 0 := fun m a => by
    unfold EventLog.versionVector
    cases m.version.lookup c <;> simp
  have hmax : l'.maxLamport.lookup c = l.maxLamport.lookup c := ext fun n => by
    rw [h'.maxLamport.lookup_eq_some, h.maxLamport.lookup_eq_some]
    have : {t | ∃ e ∈ A', e.conversationId = c ∧ e.lamport = t} =
        {t | ∃ e ∈ A, e.conversationId = c ∧ e.lamport = t} := Set.ext fun t => ex _
    rw [this]
  have hmsg : ∀ a, l'.messagesByAuthor.lookup (c, a) = l.messagesByAuthor.lookup (c, a) := fun a =>
    h'.messagesByAuthor.lookup_congr h.messagesByAuthor fun k => by
      simp only [Prod.mk.injEq, and_assoc]
      exact ex _
  refine ⟨?_, hheads, hversion, fun a => ?_, ?_, fun a cursor limit => ?_, fun a s => ?_, ?_, ?_,
    ?_, ?_⟩
  · refine eq_of_sorted_keys (h'.eventsOf_sorted c) (h.eventsOf_sorted c) fun e => ?_
    rw [h'.mem_eventsOf, h.mem_eventsOf]
    exact ⟨fun ⟨he, hec⟩ => ⟨(hc e hec).mpr he, hec⟩, fun ⟨he, hec⟩ => ⟨(hc e hec).mp he, hec⟩⟩
  · rw [EventLog.nextSequence, EventLog.nextSequence, hlast, hlast, hversion]
  · rw [EventLog.prepare, EventLog.prepare, hmax, hheads]
  · rw [EventLog.messageKeysAfter, EventLog.messageKeysAfter, hmsg]
  · refine ext fun e => ?_
    rw [h'.authoredEvent, h.authoredEvent]
    exact ⟨fun ⟨he, hec, hr⟩ => ⟨(hc e hec).mpr he, hec, hr⟩,
      fun ⟨he, hec, hr⟩ => ⟨(hc e hec).mp he, hec, hr⟩⟩
  · exact decide_eq_decide.mpr (by rw [h'.replicaV2, h.replicaV2]; exact ex _)
  · exact decide_eq_decide.mpr (by rw [h'.historyV3, h.historyV3]; exact ex _)
  · exact decide_eq_decide.mpr (by rw [h'.accountV4, h.accountV4]; exact ex _)
  · exact decide_eq_decide.mpr (by rw [h'.metadataV5, h.metadataV5]; exact ex _)

structure Exact (l : EventLog) (A : List Event) : Prop where
  get : ∀ i e, l.get i = some e ↔ e ∈ A ∧ e.id = i
  mem_heads : ∀ c i, i ∈ l.heads c ↔
    (∃ e ∈ A, e.conversationId = c ∧ e.kind ≠ .profile ∧ e.id = i) ∧
      ∀ e ∈ A, e.kind ≠ .profile → i ∉ e.parents
  heads_sorted : ∀ c, (l.heads c).Pairwise (· < ·)
  versionVector : ∀ c a n, (l.versionVector c).lookup a = some n ↔
    IsGreatest {s | ∃ e ∈ A, e.conversationId = c ∧ e.author = a ∧ e.seq = s} n
  mem_eventsOf : ∀ c e, e ∈ l.eventsOf c ↔ e ∈ A ∧ e.conversationId = c
  eventsOf_sorted : ∀ c, ((l.eventsOf c).map fun e => toLex (e.lamport, e.id)).Pairwise (· < ·)
  maxLamport : ∀ c n, l.maxLamport.lookup c = some n ↔
    IsGreatest {t | ∃ e ∈ A, e.conversationId = c ∧ e.lamport = t} n
  eq_of_seq : ∀ e ∈ A, ∀ e' ∈ A, e.conversationId = e'.conversationId → e.author = e'.author →
    e.seq = e'.seq → e = e'
  authoredEvent : ∀ c a s e, l.authoredEvent c a s = some e ↔
    e ∈ A ∧ e.conversationId = c ∧ e.author = a ∧ e.seq = s
  parent : ∀ e ∈ A, ∀ p ∈ e.parents, ∃ e' ∈ A, e'.id = p ∧ e'.conversationId = e.conversationId
  requiresV2 : ∀ c, l.requiresChannelV2 c = true ↔
    ∃ e ∈ A, e.conversationId = c ∧ e.kind = .channelReplica
  requiresV3 : ∀ c, l.requiresChannelV3 c = true ↔ ∃ e ∈ A, e.conversationId = c ∧
    (e.kind = .channelHistoryPolicy ∨ e.kind = .channelJoinHistory)
  requiresV4 : ∀ c, l.requiresChannelV4 c = true ↔ ∃ e ∈ A, e.conversationId = c ∧
    (e.kind = .channelAccountAuthority ∨ e.kind = .channelDeviceInheritance)
  requiresV5 : ∀ c, l.requiresChannelV5 c = true ↔
    ∃ e ∈ A, e.conversationId = c ∧ e.kind = .channelMetadata

theorem Indexes.exact (h : Indexes l A) : Exact l A where
  get := h.events
  mem_heads _ _ := h.mem_heads
  heads_sorted := l.heads_sorted
  versionVector _ _ _ := h.versionVector
  mem_eventsOf _ _ := h.mem_eventsOf
  eventsOf_sorted := h.eventsOf_sorted
  maxLamport _ _ := h.maxLamport.lookup_eq_some
  eq_of_seq _ he _ he' := h.eq_of_seq he he'
  authoredEvent _ _ _ _ := h.authoredEvent
  parent _ he _ hp := h.causal.parent_mem he hp
  requiresV2 c := by simp [requiresChannelV2, h.replicaV2, HasKind, replicaKinds]
  requiresV3 c := by simp [requiresChannelV3, h.historyV3, HasKind, historyKinds]
  requiresV4 c := by simp [requiresChannelV4, h.accountV4, HasKind, accountKinds]
  requiresV5 c := by simp [requiresChannelV5, h.metadataV5, HasKind, metadataKinds]

/-- **The log is a function of the events it accepted.** After every sequence of appends of
arbitrary events the answers are those of the accepted events, an append that is not accepted
changes nothing, and a log that accepted the same events in another order is the same value, so that
every query answers the same. -/
theorem appendAll_determined (es : List Event) :
    Exact ((∅ : EventLog).appendAll es) ((∅ : EventLog).acceptedBy es) ∧
      (∀ e, (((∅ : EventLog).appendAll es).append e).1 ≠ .ok .appended →
        (((∅ : EventLog).appendAll es).append e).2 = (∅ : EventLog).appendAll es) ∧
      ∀ es', (∀ e, e ∈ (∅ : EventLog).acceptedBy es ↔ e ∈ (∅ : EventLog).acceptedBy es') →
        (∅ : EventLog).appendAll es = (∅ : EventLog).appendAll es' := by
  refine ⟨(indexes_appendAll es).exact, fun e he => ?_, fun es' hA => ?_⟩
  · rcases ((∅ : EventLog).appendAll es).append_cases e with ⟨-, hap⟩ | ⟨-, hsame⟩
    · rw [hap] at he
      exact absurd rfl he
    · exact hsame
  · exact (indexes_appendAll es).unique (indexes_appendAll es') hA

end EventLog

end MeshTalk
