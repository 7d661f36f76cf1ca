import MeshTalk.EventLog.Accepted
import MeshTalk.EventLog.Sync

/-! # One transfer of events between two logs

What a store exports is the initial part, cut anywhere, of its events in causal order without those
the receiver has. So each event comes after its parents or finds them at the receiver (`Sendable`),
and a receiver that does not disagree with the sender accepts all of it (`Indexes.ingest`). -/

namespace MeshTalk

open Lib List

/-! ### Cutting frames -/

section Frames

variable {τ : Type*} {size : τ → ℕ} {budget maxFrames : ℕ}

theorem framePrefixFrom_isPrefix : ∀ {events used frames b},
    framePrefixFrom size budget maxFrames events used frames b <+: events
  | [], _, _, _ => prefix_refl _
  | e :: rest, used, frames, b => by
    unfold framePrefixFrom
    split_ifs
    · exact nil_prefix
    · exact nil_prefix
    · exact cons_prefix_cons.mpr ⟨rfl, framePrefixFrom_isPrefix⟩
    · exact cons_prefix_cons.mpr ⟨rfl, framePrefixFrom_isPrefix⟩

theorem framePrefix_isPrefix (events) :
    framePrefix size budget maxFrames events <+: events := framePrefixFrom_isPrefix

theorem framePrefix_ne_nil (hf : maxFrames ≠ 0) {events} (he : events ≠ []) :
    framePrefix size budget maxFrames events ≠ [] := by
  cases events with
  | nil => exact absurd rfl he
  | cons e rest => simp [framePrefix, framePrefixFrom, hf]

theorem framePrefixFrom_eq_self (hf : maxFrames ≠ 0) :
    ∀ {events used frames b}, used + (events.map size).sum ≤ budget →
      framePrefixFrom size budget maxFrames events used frames b = events
  | [], _, _, _, _ => rfl
  | e :: rest, used, frames, b, h => by
    rw [map_cons, sum_cons] at h
    have hle := saturatingAdd_le usizeMax used (size e)
    have hfit : ¬ saturatingAdd usizeMax used (size e) > budget := by omega
    have ih : framePrefixFrom size budget maxFrames rest (saturatingAdd usizeMax used (size e))
        frames true = rest := framePrefixFrom_eq_self hf (by omega)
    simp only [framePrefixFrom, hf, if_false, hfit, decide_false, Bool.and_false,
      Bool.false_eq_true, ih]

theorem framePrefix_eq_self (hf : maxFrames ≠ 0) {events} (h : (events.map size).sum ≤ budget) :
    framePrefix size budget maxFrames events = events :=
  framePrefixFrom_eq_self hf (by omega)

end Frames

section Followups

variable {c : ConversationId} {budget maxFrames : ℕ}

def frameEvents (frames : List SyncFollowup) : List Event := frames.flatMap SyncFollowup.events

theorem frameEvents_append (frames events) :
    frameEvents (frames ++ [⟨c, events⟩]) = frameEvents frames ++ events := by
  simp [frameEvents]

theorem followupLoop_isPrefix (c budget maxFrames) :
    ∀ (rest : List Event) (frames : List SyncFollowup) (events : List Event) (used : ℕ),
      frameEvents (followupLoop c budget maxFrames rest frames events used).1 ++
          (followupLoop c budget maxFrames rest frames events used).2 <+:
        frameEvents frames ++ events ++ rest
  | [], frames, events, used => by simp [followupLoop]
  | e :: rest, frames, events, used => by
    unfold followupLoop
    split_ifs
    · rw [frameEvents_append, append_nil]
      exact prefix_append _ _
    · have ih := followupLoop_isPrefix c budget maxFrames rest (frames ++ [⟨c, events⟩]) [e]
        (saturatingAdd usizeMax 0 (encodedEventSize e))
      rw [frameEvents_append] at ih
      simpa using ih
    · have ih := followupLoop_isPrefix c budget maxFrames rest frames (events ++ [e])
        (saturatingAdd usizeMax used (encodedEventSize e))
      simpa using ih

theorem followupFrames_isPrefix (allMissing) :
    frameEvents (followupFrames c allMissing budget maxFrames) <+: allMissing := by
  have h := followupLoop_isPrefix c budget maxFrames allMissing [] [] 0
  rw [show frameEvents [] ++ [] ++ allMissing = allMissing by simp [frameEvents]] at h
  unfold followupFrames
  dsimp only
  split_ifs
  · rwa [frameEvents_append]
  · exact (prefix_append _ _).trans h

theorem followupLoop_of_fits : ∀ {rest frames events used}, used + (rest.map encodedEventSize).sum ≤
    budget → followupLoop c budget maxFrames rest frames events used = (frames, events ++ rest)
  | [], frames, events, used, _ => by simp [followupLoop]
  | e :: rest, frames, events, used, h => by
    rw [map_cons, sum_cons] at h
    have hle := saturatingAdd_le usizeMax used (encodedEventSize e)
    have hfit : ¬ saturatingAdd usizeMax used (encodedEventSize e) > budget := by omega
    unfold followupLoop
    rw [if_neg fun hc => hfit hc.2, followupLoop_of_fits (by omega)]
    simp

theorem followupFrames_of_fits {allMissing} (h : (allMissing.map encodedEventSize).sum ≤ budget) :
    followupFrames c allMissing budget 1 = if allMissing = [] then [] else [⟨c, allMissing⟩] := by
  unfold followupFrames
  rw [followupLoop_of_fits (by omega)]
  by_cases hm : allMissing = [] <;> simp [hm]

end Followups

/-! ### Causal order -/

theorem takeOrdered_ids : ∀ {ids m}, ids.Nodup →
    (∀ i ∈ ids, ∃ e, m.lookup i = some e ∧ e.id = i) →
    (takeOrdered ids m).map Event.id = ids ∧ ∀ e ∈ takeOrdered ids m, m.lookup e.id = some e
  | [], m, _, _ => by simp [takeOrdered]
  | i :: ids, m, hn, hm => by
    obtain ⟨hi, hnd⟩ := List.nodup_cons.mp hn
    obtain ⟨e, he, rfl⟩ := hm i List.mem_cons_self
    have herase : ∀ j, j ≠ e.id → (m.erase e.id).lookup j = m.lookup j := fun j hj =>
      Finmap.lookup_erase_ne hj
    have hrest : ∀ j ∈ ids, ∃ x, (m.erase e.id).lookup j = some x ∧ x.id = j := fun j hj => by
      rw [herase j fun h => hi (h ▸ hj)]
      exact hm j (List.mem_cons_of_mem _ hj)
    obtain ⟨hmap, hlook⟩ := takeOrdered_ids hnd hrest
    have hstep : takeOrdered (e.id :: ids) m = e :: takeOrdered ids (m.erase e.id) := by
      rw [takeOrdered, he]
    rw [hstep]
    refine ⟨by rw [List.map_cons, hmap], fun x hx => ?_⟩
    rcases List.mem_cons.mp hx with rfl | hx
    · exact he
    · have hxi : x.id ∈ ids := hmap ▸ List.mem_map_of_mem hx
      rw [← herase x.id fun h => hi (h ▸ hxi)]
      exact hlook x hx

section Causal

variable {events : List Event} (hn : (events.map Event.id).Nodup)
  {rank : EventId → ℕ}
  (hrank : ∀ e ∈ events, ∀ p ∈ e.parents, rank p < rank e.id)

include hn hrank

theorem causalEvents_ids : (causalEvents events).map Event.id = orderedIds events [] true ∧
    ∀ e ∈ causalEvents events, e ∈ events := by
  have hperm := orderedIds_perm hn hrank true
  have hfound : ∀ i ∈ orderedIds events [] true, ∃ e, (byId events).lookup i = some e ∧ e.id = i :=
    fun i hi => by
      obtain ⟨e, he, rfl⟩ := List.mem_map.mp (hperm.mem_iff.mp hi)
      exact ⟨e, lookup_byId hn he, rfl⟩
  obtain ⟨hmap, hlook⟩ := takeOrdered_ids (hperm.nodup_iff.mpr hn) hfound
  refine ⟨hmap, fun e he => ?_⟩
  have hid : e.id ∈ events.map Event.id := by
    rw [← hperm.mem_iff, ← hmap]
    exact List.mem_map_of_mem he
  obtain ⟨x, hx, hxe⟩ := List.mem_map.mp hid
  have h1 := lookup_byId hn hx
  rw [hxe, hlook e he] at h1
  rwa [Option.some.inj h1]

/-- **The causal order lists every event once.** -/
theorem causalEvents_perm : (causalEvents events).Perm events := by
  obtain ⟨hmap, hmem⟩ := causalEvents_ids hn hrank
  have hperm := orderedIds_perm hn hrank true
  have hnd : (causalEvents events).Nodup := by
    refine List.Nodup.of_map Event.id ?_
    rw [hmap]
    exact hperm.nodup_iff.mpr hn
  refine (List.perm_ext_iff_of_nodup hnd (List.Nodup.of_map _ hn)).mpr fun e =>
    ⟨hmem e, fun he => ?_⟩
  have hid : e.id ∈ (causalEvents events).map Event.id := by
    rw [hmap, hperm.mem_iff]
    exact List.mem_map_of_mem he
  obtain ⟨x, hx, hxe⟩ := List.mem_map.mp hid
  rwa [← List.inj_on_of_nodup_map hn (hmem x hx) he hxe]

/-- **In the causal order a parent that is there comes first.** -/
theorem causalEvents_parent {l₁ l₂ e} (hl : causalEvents events = l₁ ++ e :: l₂) {p}
    (hp : p ∈ e.parents) (hpe : ∃ x ∈ events, x.id = p) : ∃ x ∈ l₁, x.id = p := by
  obtain ⟨hmap, hmem⟩ := causalEvents_ids hn hrank
  obtain ⟨hem, -⟩ := orderedIds_spec hn [] true
  have he : e ∈ events := hmem e (by rw [hl]; simp)
  rw [hl, List.map_append, List.map_cons] at hmap
  have := hem.pred_mem hmap.symm (mem_vertices.mpr hpe) (by rwa [predsOf_of_mem hn he])
  exact List.mem_map.mp this

end Causal

/-! ### Lists a receiver can ingest -/

/-- Each event of the list has its parents among the held ids or earlier in the list. -/
def Sendable (held : EventId → Prop) (l : List Event) : Prop :=
  ∀ l₁ e l₂, l = l₁ ++ e :: l₂ → ∀ p ∈ e.parents, held p ∨ ∃ x ∈ l₁, x.id = p

variable {held : EventId → Prop} {l : List Event}

theorem Sendable.of_isPrefix {l'} (h : Sendable held l) (hp : l' <+: l) : Sendable held l' := by
  obtain ⟨t, rfl⟩ := hp
  intro l₁ e l₂ hl
  exact h l₁ e (l₂ ++ t) (by simp [hl])

theorem Sendable.mono {held' : EventId → Prop} (h : Sendable held l) (hh : ∀ i, held i → held' i) :
    Sendable held' l :=
  fun l₁ e l₂ hl p hp => (h l₁ e l₂ hl p hp).imp_left (hh p)

theorem Sendable.append_right {m} (h : Sendable held (l ++ m)) :
    Sendable (fun i => held i ∨ ∃ x ∈ l, x.id = i) m := by
  intro m₁ e m₂ hm p hp
  rcases h (l ++ m₁) e m₂ (by simp [hm]) p hp with hh | ⟨x, hx, rfl⟩
  · exact Or.inl (Or.inl hh)
  · rcases mem_append.mp hx with hx | hx
    · exact Or.inl (Or.inr ⟨x, hx, rfl⟩)
    · exact Or.inr ⟨x, hx, rfl⟩

/-- Leaving out what the receiver holds keeps the list sendable. -/
theorem sendable_filter {held : Finset EventId}
    (h : ∀ l₁ e l₂, l = l₁ ++ e :: l₂ → ∀ p ∈ e.parents, ∃ x ∈ l₁, x.id = p) :
    Sendable (· ∈ held) (l.filter fun e => e.id ∉ held) := by
  intro l₁ e l₂ hl p hp
  by_cases hh : p ∈ held
  · exact Or.inl hh
  · obtain ⟨m₁, m₂, rfl, hm₁, hm₂⟩ := filter_eq_append_iff.mp hl
    obtain ⟨n₁, n₂, rfl, hn₁, he, -⟩ := filter_eq_cons_iff.mp hm₂
    obtain ⟨x, hx, rfl⟩ := h (m₁ ++ n₁) e n₂ (by simp) p hp
    refine Or.inr ⟨x, ?_, rfl⟩
    rcases mem_append.mp hx with hx | hx
    · rw [← hm₁]
      exact mem_filter.mpr ⟨hx, by simpa using hh⟩
    · exact absurd (by simpa using hh) (hn₁ x hx)

namespace EventLog

variable [EventCrypto] {l : EventLog} {A : List Event}

/-! ### What a log exports -/

theorem Indexes.nodup_ids (h : Indexes l A) (c) : ((l.eventsOf c).map Event.id).Nodup := by
  have hk : (l.eventsOf c).Nodup :=
    List.Nodup.of_map Event.key ((h.eventsOf_sorted c).imp fun h => ne_of_lt h)
  refine hk.map_on fun x hx y hy hxy => ?_
  exact h.eq_of_id (h.mem_eventsOf.mp hx).1 (h.mem_eventsOf.mp hy).1 hxy

variable {e : Event} {c : ConversationId}

theorem Indexes.causal_rank (h : Indexes l A) :
    ∀ e ∈ l.eventsOf c, ∀ p ∈ e.parents,
      (A.map Event.id).idxOf p < (A.map Event.id).idxOf e.id :=
  fun _ he _ hp => h.causal.idxOf_lt h.nodup (h.mem_eventsOf.mp he).1 hp

def missing (l : EventLog) (c : ConversationId) (held : Finset EventId) : List Event :=
  (causalEvents (l.eventsOf c)).filter fun e => e.id ∉ held

variable {held : Finset EventId}

theorem Indexes.mem_missing (h : Indexes l A) :
    e ∈ l.missing c held ↔ (e ∈ A ∧ e.conversationId = c) ∧ e.id ∉ held := by
  have hperm := causalEvents_perm (h.nodup_ids c) h.causal_rank
  rw [missing, List.mem_filter, hperm.mem_iff, h.mem_eventsOf, decide_eq_true_eq]

theorem Indexes.nodup_missing (h : Indexes l A) : ((l.missing c held).map Event.id).Nodup := by
  have hperm := causalEvents_perm (h.nodup_ids c) h.causal_rank
  exact ((hperm.map Event.id).nodup_iff.mpr (h.nodup_ids c)).sublist
    (List.filter_sublist.map Event.id)

theorem Indexes.sendable_missing (h : Indexes l A) (c) (held : Finset EventId) :
    Sendable (· ∈ held) (l.missing c held) := by
  refine sendable_filter fun l₁ e l₂ hl p hp => ?_
  have he : e ∈ l.eventsOf c := by
    rw [← (causalEvents_perm (h.nodup_ids c) h.causal_rank).mem_iff, hl]
    simp
  obtain ⟨heA, hec⟩ := h.mem_eventsOf.mp he
  obtain ⟨x, hx, hid, hxc⟩ := h.causal.parent_mem heA hp
  exact causalEvents_parent (h.nodup_ids c) h.causal_rank hl hp
    ⟨x, h.mem_eventsOf.mpr ⟨hx, hxc.trans hec⟩, hid⟩

/-! ### What a log ingests -/

theorem validate_isPeerRejection {err} (h : l.validate e = .error err) :
    err.isPeerRejection = true := by
  unfold validate at h
  split_ifs at h <;> cases h <;> rfl

/-- A log never aborts a batch, and the batch leaves it as the single appends would. -/
theorem applyReceivedEvents_append : ∀ (L : List Event) (r : ApplyReport) (l : EventLog),
    ∃ r', applyReceivedEvents append L r l = (.ok r', l.appendAll L)
  | [], r, l => ⟨r, rfl⟩
  | e :: L, r, l => by
    have hall : l.appendAll (e :: L) = (l.append e).2.appendAll L := rfl
    rw [hall, applyReceivedEvents]
    unfold append
    cases hv : l.validate e with
    | error err =>
      simp only [validate_isPeerRejection hv, if_true]
      exact applyReceivedEvents_append L _ _
    | ok b =>
      cases b with
      | true => exact applyReceivedEvents_append L _ _
      | false => exact applyReceivedEvents_append L _ _

/-- What a log with the accepted events `A` applies as a whole: new valid events of `c` that dispute
nothing, each after its parents. -/
structure Ingestible (c : ConversationId) (A L : List Event) : Prop where
  valid : ∀ e ∈ L, e.SelfValid
  nodup : (L.map Event.id).Nodup
  conversation : ∀ e ∈ L, e.conversationId = c
  fresh : ∀ e ∈ L, ∀ x ∈ A, x.id ≠ e.id
  seq : ∀ e ∈ L, ∀ x ∈ A ++ L, x.conversationId = c → x.author = e.author → x.seq = e.seq →
    x.id = e.id
  sendable : Sendable (fun i => ∃ x ∈ A, x.id = i ∧ x.conversationId = c) L

theorem Ingestible.append_left {L M} (h : Ingestible c A (L ++ M)) :
    Ingestible c A L where
  valid e he := h.valid e (List.mem_append_left _ he)
  nodup := h.nodup.sublist ((List.sublist_append_left L M).map Event.id)
  conversation e he := h.conversation e (List.mem_append_left _ he)
  fresh e he := h.fresh e (List.mem_append_left _ he)
  seq e he x hx := h.seq e (List.mem_append_left _ he) x (by
    rw [← List.append_assoc]
    exact List.mem_append_left _ hx)
  sendable := h.sendable.of_isPrefix (List.prefix_append L M)

theorem Ingestible.append_right {c A L M} (h : Ingestible c A (L ++ M)) :
    Ingestible c (A ++ L) M where
  valid e he := h.valid e (List.mem_append_right _ he)
  nodup := h.nodup.sublist ((List.sublist_append_right L M).map Event.id)
  conversation e he := h.conversation e (List.mem_append_right _ he)
  fresh e he x hx := by
    rcases List.mem_append.mp hx with hx | hx
    · exact h.fresh e (List.mem_append_right _ he) x hx
    · have hnd := h.nodup
      rw [List.map_append, List.nodup_append] at hnd
      exact hnd.2.2 _ (List.mem_map_of_mem hx) _ (List.mem_map_of_mem he)
  seq e he x hx := h.seq e (List.mem_append_right _ he) x (by rwa [← List.append_assoc])
  sendable := h.sendable.append_right.mono fun i hi => by
    rcases hi with ⟨x, hx, hid⟩ | ⟨x, hx, hid⟩
    · exact ⟨x, List.mem_append_left _ hx, hid⟩
    · exact ⟨x, List.mem_append_right _ hx, hid, h.conversation x (List.mem_append_left _ hx)⟩

theorem Ingestible.admits (h : Indexes l A) (hi : Ingestible c A [e]) : l.Admits e := by
  have hec : e.conversationId = c := hi.conversation e (by simp)
  refine ⟨hi.valid e (by simp), h.lookup_eq_none.mpr (hi.fresh e (by simp)), fun p hp => ?_,
    fun i hs => ?_⟩
  · rcases hi.sendable [] e [] rfl p hp with ⟨x, hx, hid, hxc⟩ | ⟨x, hx, -⟩
    · exact ⟨x, (h.events p x).mpr ⟨hx, hid⟩, hxc.trans hec.symm⟩
    · simp at hx
  · obtain ⟨x, hx, hxc, hxa, hxs, rfl⟩ := (h.authorSeq _ _ _ i).mp hs
    exact hi.seq e (by simp) x (mem_append_left _ hx) (hxc.trans hec) hxa hxs

/-- **An ingestible list is applied as a whole.** -/
theorem Indexes.ingest {c} : ∀ {L l A}
    (r : ApplyReport), Indexes l A → Ingestible c A L →
    ∃ l', applyReceivedEvents append L r l =
        (.ok { r with applied := r.applied + L.length }, l') ∧ Indexes l' (A ++ L)
  | [], l, A, r, h, _ => ⟨l, rfl, by simpa using h⟩
  | e :: L, l, A, r, h, hi => by
    have hadm : l.Admits e := Ingestible.admits h (Ingestible.append_left (M := L) hi)
    obtain ⟨l', hl', hi'⟩ := Indexes.ingest { r with applied := r.applied + 1 }
      (h.indexTrusted hadm) (Ingestible.append_right (L := [e]) hi)
    refine ⟨l', ?_, by simpa using hi'⟩
    rw [applyReceivedEvents, append_of_admits hadm]
    simp only [hl', length_cons]
    congr 3
    omega

theorem Indexes.followups {c} : ∀ {fs l A}, Indexes l A → Ingestible c A (frameEvents fs) →
    ∃ l', handleFollowups l fs = (.ok (fs.map fun f => ⟨f.events.length, 0, []⟩), l') ∧
      Indexes l' (A ++ frameEvents fs)
  | [], l, A, h, _ => ⟨l, rfl, by simpa [frameEvents] using h⟩
  | f :: fs, l, A, h, hi => by
    have hcons : frameEvents (f :: fs) = f.events ++ frameEvents fs := rfl
    rw [hcons] at hi ⊢
    obtain ⟨l₁, hl₁, hi₁⟩ := h.ingest ⟨0, 0, []⟩ hi.append_left
    obtain ⟨l₂, hl₂, hi₂⟩ := Indexes.followups hi₁ hi.append_right
    refine ⟨l₂, ?_, by rwa [← append_assoc]⟩
    have hfirst : handleFollowup l f = (.ok ⟨f.events.length, 0, []⟩, l₁) := by
      rw [Nat.zero_add] at hl₁
      exact hl₁
    rw [handleFollowups, hfirst]
    simp only [hl₂, map_cons]

end EventLog

end MeshTalk
