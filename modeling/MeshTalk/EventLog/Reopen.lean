import MeshTalk.EventLog.Legacy
import MeshTalk.EventLog.Transfer
import MeshTalk.Storage.Faults

/-! # What a log opens to

Records come back in the order of the file, which an earlier version may have sorted by time.
Indexing them needs no validation: what was accepted once is accepted again in every causal order,
and the order that opening chooses is one. -/

namespace MeshTalk

open Lib Storage List EventLog

/-! ### Causal lists -/

variable {a : List Event}

theorem Causal.left {b} (h : Causal (a ++ b)) : Causal a := by
  induction b using reverseRecOn with
  | nil => rwa [append_nil] at h
  | append_singleton b e ih =>
    rw [← append_assoc] at h
    generalize hl : a ++ b ++ [e] = l at h
    cases h with
    | nil => simp at hl
    | snoc h' _ =>
      obtain ⟨rfl, -⟩ := append_inj' hl rfl
      exact ih h'

theorem Causal.parents_of_snoc {e} (h : Causal (a ++ [e])) :
    ∀ p ∈ e.parents, ∃ x ∈ a, x.id = p ∧ x.conversationId = e.conversationId := by
  generalize hl : a ++ [e] = l at h
  cases h with
  | nil => simp at hl
  | snoc _ hp =>
    obtain ⟨rfl, he⟩ := append_inj' hl rfl
    obtain rfl := singleton_inj.mp he
    exact hp

/-- A list goes on causally if each of its events finds its parents before it. -/
theorem Causal.append (ha : Causal a) {b} (hb : ∀ b₁ e b₂, b = b₁ ++ e :: b₂ → ∀ p ∈ e.parents,
      ∃ x ∈ a ++ b₁, x.id = p ∧ x.conversationId = e.conversationId) : Causal (a ++ b) := by
  induction b using reverseRecOn with
  | nil => rwa [append_nil]
  | append_singleton b e ih =>
    rw [← append_assoc]
    refine .snoc (ih fun b₁ x b₂ hx => ?_) (hb b e [] rfl)
    exact hb b₁ x (b₂ ++ [e]) (by rw [hx]; simp)

namespace EventLog

variable {e : Event} {L : EventLog}

theorem parentsHeld_iff {l : EventLog} : l.parentsHeld e = true ↔ l.missingParents e = [] := by
  rw [missingParents_eq_nil]
  simp [parentsHeld, get, Option.any_eq_true]

variable [EventCrypto] {l : EventLog} {A es : List Event}

/-- **An event that was accepted once is admitted as soon as its parents are held.** -/
theorem Indexes.admits (hes : Indexes L es) (h : Indexes l A)
    (hA : ∀ x ∈ A, x ∈ es) (he : e ∈ es) (hn : e ∉ A)
    (hp : l.missingParents e = []) : l.Admits e := by
  refine ⟨hes.valid e he, h.lookup_eq_none.mpr fun x hx hid => ?_, missingParents_eq_nil.mp hp,
    fun i hi => ?_⟩
  · rw [hes.eq_of_id (hA x hx) he hid] at hx
    exact hn hx
  · obtain ⟨x, hx, hc, ha, hs, rfl⟩ := (h.authorSeq _ _ _ i).mp hi
    rw [hes.eq_of_seq (hA x hx) he hc ha hs]

theorem Indexes.missingParents_of_causal (h : Indexes l A)
    (hp : ∀ p ∈ e.parents, ∃ x ∈ A, x.id = p ∧ x.conversationId = e.conversationId) :
    l.missingParents e = [] := by
  refine missingParents_eq_nil.mpr fun p hpe => ?_
  obtain ⟨x, hx, hid, hc⟩ := hp p hpe
  exact ⟨x, (h.events p x).mpr ⟨hx, hid⟩, hc⟩

/-! ### Replaying a file -/

section

variable (hes : Indexes L es)
include hes

theorem replay_foldl : ∀ (records : List Event)
    {s : EventLog × List Event} {A : List Event}, Indexes s.1 A → (A ++ s.2 ++ records).Nodup →
    (∀ x ∈ A ++ s.2 ++ records, x ∈ es) → ∃ A', Indexes (records.foldl replayOne s).1 A' ∧
      (A' ++ (records.foldl replayOne s).2).Perm (A ++ s.2 ++ records)
  | [], s, A, h, _, _ => ⟨A, h, by simp⟩
  | e :: records, s, A, h, hn, hsub => by
    rw [foldl_cons]
    by_cases hp : s.1.parentsHeld e = true
    · have hmem : e ∉ A := fun he =>
        (nodup_append.mp hn).2.2 e (mem_append_left _ he) e mem_cons_self rfl
      have hadm := Indexes.admits hes h (fun x hx => hsub x (by simp [hx]))
        (hsub e (by simp)) hmem (parentsHeld_iff.mp hp)
      have hperm : (A ++ [e] ++ s.2 ++ records).Perm (A ++ s.2 ++ e :: records) := by
        rw [append_assoc, append_assoc, append_assoc, singleton_append]
        exact perm_middle.symm.append_left A
      rw [replayOne, if_pos hp]
      obtain ⟨A', hA', hperm'⟩ := replay_foldl records
        (s := (s.1.indexTrusted e, s.2)) (h.indexTrusted hadm) (hperm.nodup_iff.mpr hn)
        fun x hx => hsub x (hperm.mem_iff.mp hx)
      exact ⟨A', hA', hperm'.trans hperm⟩
    · rw [replayOne, if_neg hp]
      have heq : A ++ (s.2 ++ [e]) ++ records = A ++ s.2 ++ e :: records := by simp
      obtain ⟨A', hA', hperm'⟩ := replay_foldl records (s := (s.1, s.2 ++ [e])) h
        (by rw [heq]; exact hn) (by rw [heq]; exact hsub)
      exact ⟨A', hA', by rw [← heq]; exact hperm'⟩

/-- **Replaying accepted events** indexes some of them and defers the others. -/
theorem replay_spec {records} (hperm : records.Perm es) :
    ∃ A, Indexes (replay records).1 A ∧
      (A ++ (replay records).2).Perm es := by
  have hn : records.Nodup := hperm.nodup_iff.mpr (List.Nodup.of_map _ hes.nodup)
  obtain ⟨A, hA, hp⟩ := replay_foldl hes records (s := (∅, [])) indexes_empty
    (by simpa using hn) (fun x hx => hperm.mem_iff.mp (by simpa using hx))
  exact ⟨A, hA, hp.trans (by simpa using hperm)⟩

theorem indexOrdered_ok : ∀ {ks l A} (ordered : List Event) {m}, Indexes l A → Causal (A ++ ks) →
    (A ++ ks).Nodup → (∀ x ∈ A ++ ks, x ∈ es) → (∀ e ∈ ks, m.lookup e.id = some e) →
    ∃ l', indexOrdered (ks.map Event.id) m l ordered = .ok (l', ordered ++ ks) ∧
      Indexes l' (A ++ ks)
  | [], l, A, ordered, m, h, _, _, _, _ => ⟨l, by simp [indexOrdered], by simpa using h⟩
  | e :: ks, l, A, ordered, m, h, hc, hn, hsub, hm => by
    have heq : A ++ e :: ks = A ++ [e] ++ ks := by simp
    have hmem : e ∉ A := fun he =>
      (nodup_append.mp hn).2.2 e he e mem_cons_self rfl
    have hp := h.missingParents_of_causal (Causal.parents_of_snoc (Causal.left (heq ▸ hc)))
    have hadm := Indexes.admits hes h (fun x hx => hsub x (by simp [hx])) (hsub e (by simp)) hmem hp
    have hrest : ∀ x ∈ ks, (m.erase e.id).lookup x.id = some x := fun x hx => by
      have hne : x.id ≠ e.id := fun hid => by
        have := hes.eq_of_id (hsub x (by simp [hx])) (hsub e (by simp)) hid
        subst this
        exact (nodup_cons.mp (nodup_append.mp hn).2.1).1 hx
      rw [Finmap.lookup_erase_ne hne]
      exact hm x (mem_cons_of_mem _ hx)
    obtain ⟨l', hl', hi⟩ := indexOrdered_ok (ordered ++ [e]) (h.indexTrusted hadm)
      (heq ▸ hc) (heq ▸ hn) (heq ▸ hsub) hrest
    refine ⟨l', ?_, heq ▸ hi⟩
    rw [map_cons, indexOrdered, hm e mem_cons_self]
    simp only [hp, ne_eq, not_true_eq_false, if_false]
    rw [hl', append_assoc]
    rfl

/-- **Retained events are indexed in causal order**, if those they miss are already held. -/
theorem indexRetained_ok (h : Indexes l A) {kept} (hn : (A ++ kept).Nodup)
    (hsub : ∀ x ∈ A ++ kept, x ∈ es)
    (hclosed : ∀ e ∈ kept, ∀ p ∈ e.parents, ∃ x ∈ A ++ kept, x.id = p) :
    ∃ l', indexRetained kept l = .ok (l', causalEvents kept) ∧ Indexes l' (A ++ causalEvents kept) ∧
      (causalEvents kept).Perm kept := by
  have hkes : ∀ x ∈ kept, x ∈ es := fun x hx => hsub x (mem_append_right _ hx)
  have hids : (kept.map Event.id).Nodup := (nodup_append.mp hn).2.1.map_on
    fun x hx y hy hxy => hes.eq_of_id (hkes x hx) (hkes y hy) hxy
  have hrank : ∀ e ∈ kept, ∀ p ∈ e.parents,
      (es.map Event.id).idxOf p < (es.map Event.id).idxOf e.id := fun e he p hp =>
    hes.causal.idxOf_lt hes.nodup (hkes e he) hp
  have hperm := causalEvents_perm hids hrank
  obtain ⟨hmap, -⟩ := causalEvents_ids hids hrank
  have hcausal : Causal (A ++ causalEvents kept) := h.causal.append fun b₁ e b₂ hb p hp => by
    have he : e ∈ kept := hperm.mem_iff.mp (by rw [hb]; simp)
    -- the parent an accepted event has is of its conversation
    have hconv : ∀ x ∈ es, x.id = p → x.conversationId = e.conversationId := fun x hx hid => by
      obtain ⟨y, hy, hyid, hyc⟩ := hes.causal.parent_mem (hkes e he) hp
      rwa [← hes.eq_of_id hy hx (hyid.trans hid.symm)]
    obtain ⟨x, hx, hid⟩ := hclosed e he p hp
    rcases mem_append.mp hx with hxA | hxk
    · exact ⟨x, mem_append_left _ hxA, hid, hconv x (hsub x hx) hid⟩
    · obtain ⟨y, hy, hyid⟩ := causalEvents_parent hids hrank hb hp ⟨x, hxk, hid⟩
      refine ⟨y, mem_append_right _ hy, hyid, hconv y (hkes y ?_) hyid⟩
      exact hperm.mem_iff.mp (by rw [hb]; exact mem_append_left _ hy)
  have hall := hperm.append_left A
  obtain ⟨l', hl', hi⟩ := indexOrdered_ok hes [] h hcausal (hall.nodup_iff.mpr hn)
    (fun x hx => hsub x (hall.mem_iff.mp hx))
    fun e he => lookup_byId hids (hperm.mem_iff.mp he)
  refine ⟨l', ?_, hi, hperm⟩
  unfold indexRetained
  dsimp only
  rw [← hmap, length_map, hperm.length_eq, if_neg (by simp), hl', nil_append]

end

/-! ### Gaps -/

def Closed (records : List Event) (e : Event) : Prop :=
  ∀ p ∈ e.parents, ∃ x ∈ records, x.id = p ∧ x.conversationId = e.conversationId

def HoldsOnly (records : List Event) (l : EventLog) : Prop :=
  ∀ i e, l.events.lookup i = some e → e ∈ records ∧ e.id = i

section Gaps

omit [EventCrypto]

variable {records : List Event}

theorem HoldsOnly.indexTrusted (h : HoldsOnly records l) {e} (he : e ∈ records) :
    HoldsOnly records (l.indexTrusted e) := by
  intro i x hx
  rw [EventLog.indexTrusted, Map.lookup_insert_ite] at hx
  split_ifs at hx with hi
  · cases hx
    exact ⟨he, hi.symm⟩
  · exact h i x hx

theorem HoldsOnly.closed (h : HoldsOnly records l) (hp : l.missingParents e = []) :
    Closed records e := by
  intro p hpe
  obtain ⟨x, hx, hc⟩ := missingParents_eq_nil.mp hp p hpe
  obtain ⟨hx, hid⟩ := h p x hx
  exact ⟨x, hx, hid, hc⟩

theorem replay_closed : ∀ (rest : List Event) {s : EventLog × List Event}, HoldsOnly records s.1 →
    (∀ e ∈ rest, e ∈ records) → HoldsOnly records (rest.foldl replayOne s).1 ∧
      (rest.foldl replayOne s).2.Sublist (s.2 ++ rest) ∧
      (∀ e ∈ s.2, e ∈ (rest.foldl replayOne s).2) ∧
      ∀ e ∈ rest, e ∈ (rest.foldl replayOne s).2 ∨ Closed records e
  | [], s, h, _ => ⟨h, by simp, fun _ he => he, by simp⟩
  | e :: rest, s, h, hsub => by
    rw [foldl_cons]
    have hrest : ∀ x ∈ rest, x ∈ records := fun x hx => hsub x (mem_cons_of_mem _ hx)
    by_cases hp : s.1.parentsHeld e = true
    · rw [replayOne, if_pos hp]
      obtain ⟨h1, h2, h3, h4⟩ := replay_closed rest (s := (s.1.indexTrusted e, s.2))
        (h.indexTrusted (hsub e mem_cons_self)) hrest
      refine ⟨h1, h2.trans ((sublist_cons_self e rest).append_left s.2), h3, fun x hx => ?_⟩
      rcases mem_cons.mp hx with rfl | hx
      · exact Or.inr (h.closed (parentsHeld_iff.mp hp))
      · exact h4 x hx
    · rw [replayOne, if_neg hp]
      obtain ⟨h1, h2, h3, h4⟩ := replay_closed rest (s := (s.1, s.2 ++ [e])) h hrest
      refine ⟨h1, by simpa using h2, fun x hx => h3 x (mem_append_left _ hx), fun x hx => ?_⟩
      rcases mem_cons.mp hx with rfl | hx
      · exact Or.inl (h3 x (by simp))
      · exact h4 x hx

theorem indexOrdered_closed : ∀ {order m l ordered r},
    indexOrdered order m l ordered = .ok r → HoldsOnly records l →
    (∀ i e, m.lookup i = some e → e ∈ records ∧ e.id = i) →
    order.Nodup ∧ ∀ i ∈ order, ∃ e, m.lookup i = some e ∧ Closed records e
  | [], _, _, _, _, _, _, _ => ⟨nodup_nil, by simp⟩
  | i :: order, m, l, ordered, r, hok, h, hm => by
    unfold indexOrdered at hok
    cases he : m.lookup i with
    | none =>
      rw [he] at hok
      cases hok
    | some e =>
      rw [he] at hok
      dsimp only at hok
      split_ifs at hok with hp
      obtain ⟨her, rfl⟩ := hm i e he
      have herase : ∀ j x, (m.erase e.id).lookup j = some x → j ≠ e.id ∧ m.lookup j = some x := by
        intro j x hj
        have hne : j ≠ e.id := by
          rintro rfl
          rw [Finmap.lookup_erase] at hj
          cases hj
        exact ⟨hne, by rwa [Finmap.lookup_erase_ne hne] at hj⟩
      obtain ⟨hn, hall⟩ := indexOrdered_closed hok (h.indexTrusted her)
        fun j x hj => hm j x (herase j x hj).2
      refine ⟨nodup_cons.mpr ⟨fun hi => ?_, hn⟩, fun j hj => ?_⟩
      · obtain ⟨x, hx, -⟩ := hall e.id hi
        exact (herase e.id x hx).1 rfl
      · rcases mem_cons.mp hj with rfl | hj
        · exact ⟨e, he, h.closed (not_not.mp hp)⟩
        · obtain ⟨x, hx, hc⟩ := hall j hj
          exact ⟨x, (herase j x hx).2, hc⟩

/-- **Retained events that are indexed are closed**: one for each was taken out of the map. -/
theorem indexRetained_closed {kept r} (hok : indexRetained kept l = .ok r) (h : HoldsOnly records l)
    (hsub : ∀ e ∈ kept, e ∈ records) : ∀ e ∈ kept, Closed records e := by
  unfold indexRetained at hok
  dsimp only at hok
  split_ifs at hok with hlen
  obtain ⟨hn, hall⟩ := indexOrdered_closed hok h fun i e hi =>
    ⟨hsub e (mem_of_lookup_byId hi).1, (mem_of_lookup_byId hi).2⟩
  have hperm : (orderedIds kept [] true).Perm (kept.map Event.id) := by
    refine (hn.subperm fun i hi => ?_).perm_of_length_le (by rw [length_map]; omega)
    obtain ⟨e, he, -⟩ := hall i hi
    obtain ⟨hk, rfl⟩ := mem_of_lookup_byId he
    exact mem_map_of_mem hk
  intro e he
  obtain ⟨x, hx, hc⟩ := hall e.id (hperm.mem_iff.mpr (mem_map_of_mem he))
  rw [lookup_byId (hperm.nodup_iff.mp hn) he] at hx
  rwa [Option.some.inj hx]

theorem indexOrdered_ne_panic (text) : ∀ {order m l ordered}, order.Nodup → (∀ i ∈ order, i ∈ m) →
    indexOrdered order m l ordered ≠ .error (.panic text)
  | [], _, _, _, _, _ => by simp [indexOrdered]
  | i :: order, m, l, ordered, hn, hm => by
    obtain ⟨hi, hn⟩ := nodup_cons.mp hn
    obtain ⟨e, he⟩ := Map.mem_iff_lookup.mp (hm i mem_cons_self)
    unfold indexOrdered
    rw [he]
    dsimp only
    split_ifs with hp
    · simp
    · refine indexOrdered_ne_panic text hn fun j hj => ?_
      obtain ⟨x, hx⟩ := Map.mem_iff_lookup.mp (hm j (mem_cons_of_mem _ hj))
      have hne : j ≠ i := fun h => hi (h ▸ hj)
      exact Map.mem_iff_lookup.mpr ⟨x, by rwa [Finmap.lookup_erase_ne hne]⟩

/-- Distinct events are all found again. -/
theorem indexRetained_ne_panic {kept} (hn : (kept.map Event.id).Nodup) (text) :
    indexRetained kept l ≠ .error (.panic text) := by
  unfold indexRetained
  dsimp only
  split_ifs with hlen
  · simp
  · obtain ⟨hem, -⟩ := orderedIds_spec hn [] true
    refine indexOrdered_ne_panic text hem.nodup fun i hi => ?_
    obtain ⟨e, he, rfl⟩ := mem_vertices.mp (hem.mem hi)
    exact Map.mem_iff_lookup.mpr ⟨e, lookup_byId hn he⟩

end Gaps

end EventLog

inductive Ancestor (records : List Event) : Event → EventId → Prop
  | parent {e : Event} {p : EventId} : p ∈ e.parents → Ancestor records e p
  | through {e x : Event} {a : EventId} : x ∈ records → x.id ∈ e.parents →
      x.conversationId = e.conversationId → Ancestor records x a → Ancestor records e a

theorem Ancestor.mem {records} (hall : ∀ e ∈ records, EventLog.Closed records e) {e a}
    (h : Ancestor records e a) (he : e ∈ records) :
    ∃ x ∈ records, x.id = a ∧ x.conversationId = e.conversationId := by
  induction h with
  | parent hp => exact hall _ he _ hp
  | through hx _ hc _ ih =>
    obtain ⟨y, hy, hid, hyc⟩ := ih hx
    exact ⟨y, hy, hid, hyc.trans hc⟩

namespace LegacyEventLog

variable {Key : Type} [Cipher Key] [Codec Event]

def Holds (Key : Type) [Cipher Key] (password : String) (records : List Event)
    (bytes : List UInt8) : Prop :=
  ∃ (salt : Bytes saltSize) (fs : List (List UInt8)),
    FramesOf (Cipher.fromPassword password salt : Key) records fs ∧
      bytes = legacyMagic.1 ++ salt.1 ++ fs.flatten

variable {password : String} {bytes : List UInt8} {nonces : EventId → Bytes nonceSize}
  {fault : ReplaceFault} {stop : Stop} {records : List Event}

theorem openLog_of_holds (h : Holds Key password records bytes) (salt repair) :
    ∃ file : RecordLog Key, file.file = bytes ∧
      openLog (some bytes) password salt repair = (if (replay records).2 ≠ [] then
          (indexRetained (replay records).2 (replay records).1).map
            fun r => opened r.1 file
        else .ok (opened (replay records).1 file), bytes) := by
  obtain ⟨salt', fs, hfs, rfl⟩ := h
  obtain ⟨ps, rfl, hps⟩ := hfs.payloads
  have hload := RecordLog.load_spec legacyMagic (t := []) torn_nil hps repair
  rw [if_pos rfl, append_nil] at hload
  refine ⟨RecordLog.loaded password legacyMagic salt' (ps.flatMap frame), rfl, ?_⟩
  unfold openLog
  rw [flatten_map_frame]
  simp only [hload]
  split_ifs with hd
  · cases indexRetained (replay records).2 (replay records).1 <;> rfl
  · rfl

/-! ### Failed rewrites -/

/-- What a rewrite can do: nothing, or replace the file and the log. -/
theorem rewriteKept_cases (l : LegacyEventLog Key) (kept nonces fault) :
    (∃ stop, l.rewriteKept kept nonces fault = (.error stop, l)) ∨
      ∃ rebuilt ordered file, indexRetained kept ∅ = .ok (rebuilt, ordered) ∧
        l.file.rewrite (ordered.map fun e => (e, nonces e.id)) fault = (.ok (), file) ∧
        l.rewriteKept kept nonces fault = (.ok (), { l with log := rebuilt, file := file }) := by
  unfold rewriteKept
  cases hi : indexRetained kept ∅ with
  | error stop => exact Or.inl ⟨stop, rfl⟩
  | ok r =>
    obtain ⟨rebuilt, ordered⟩ := r
    dsimp only
    rcases l.file.rewrite_cases (ordered.map fun e => (e, nonces e.id)) fault with
      ⟨e, he⟩ | ⟨-, fs, -, he⟩
    · rw [he]
      exact Or.inl ⟨.error e, rfl⟩
    · rw [he]
      exact Or.inr ⟨rebuilt, ordered, _, rfl, he, rfl⟩

def SameStore (l l' : LegacyEventLog Key) : Prop := l'.log = l.log ∧ l'.file = l.file

variable {l l' : LegacyEventLog Key}

theorem rewriteKept_error {kept} (h : l.rewriteKept kept nonces fault = (.error stop, l')) :
    l' = l := by
  rcases l.rewriteKept_cases kept nonces fault with ⟨stop', he⟩ | ⟨_, _, _, -, -, he⟩
  · rw [he] at h
    exact (Prod.mk.inj h).2.symm
  · rw [he] at h
    cases h

theorem retainConversations_error {keep}
    (h : l.retainConversations keep nonces fault = (.error stop, l')) : l' = l := by
  unfold retainConversations at h
  dsimp only at h
  split_ifs at h
  · cases h
  · split at h
    · rename_i he
      obtain ⟨-, rfl⟩ := Prod.mk.inj h
      exact rewriteKept_error he
    · cases h

theorem dropConversation_error {c} (h : l.dropConversation c nonces fault = (.error stop, l')) :
    l' = l := by
  unfold dropConversation at h
  dsimp only at h
  split_ifs at h
  · cases h
  · split at h
    · rename_i he
      obtain ⟨-, rfl⟩ := Prod.mk.inj h
      exact rewriteKept_error he
    · cases h

theorem compactProfileConversations_error {cs maintenanceAt}
    (h : l.compactProfileConversations cs maintenanceAt nonces fault = (.error stop, l')) :
    SameStore l l' := by
  unfold compactProfileConversations at h
  dsimp only at h
  split_ifs at h
  · cases h
  · cases h
  · split at h
    · rename_i he
      obtain ⟨-, rfl⟩ := Prod.mk.inj h
      rw [rewriteKept_error he]
      cases maintenanceAt <;> exact ⟨rfl, rfl⟩
    · cases h

theorem drainOneProfileCompactionAt_error {now}
    (h : l.drainOneProfileCompactionAt now nonces fault = (.error stop, l')) : SameStore l l' := by
  unfold drainOneProfileCompactionAt at h
  dsimp only at h
  split_ifs at h
  · cases h
  · cases h
  · cases h
  · split at h
    · rename_i he
      obtain ⟨-, rfl⟩ := Prod.mk.inj h
      obtain ⟨hlog, hfile⟩ := compactProfileConversations_error he
      exact ⟨hlog, hfile⟩
    · cases h

/-! ### Opening -/

variable [EventCrypto]

/-- **Records in any order** open to the log of their events. -/
theorem openLog_of_perm {es} (hes : (∅ : EventLog).acceptedBy es = es) (hperm : records.Perm es)
    (h : Holds Key password records bytes) (salt repair) :
    ∃ file : RecordLog Key, file.file = bytes ∧
      openLog (some bytes) password salt repair =
        (.ok (opened ((∅ : EventLog).appendAll es) file), bytes) := by
  have hi : EventLog.Indexes ((∅ : EventLog).appendAll es) es := by
    have := indexes_appendAll es
    rwa [hes] at this
  obtain ⟨file, hfile, hopen⟩ := openLog_of_holds h salt repair
  refine ⟨file, hfile, ?_⟩
  obtain ⟨A, hA, hAp⟩ := replay_spec hi hperm
  rw [hopen]
  split_ifs with hd
  · obtain ⟨l', hl', hl'i, hkept⟩ := indexRetained_ok hi hA
      (hAp.nodup_iff.mpr (List.Nodup.of_map _ hi.nodup)) (fun x hx => hAp.mem_iff.mp hx)
      fun e he p hp => by
        obtain ⟨x, hx, hid, -⟩ := hi.causal.parent_mem (hAp.mem_iff.mp (mem_append_right _ he)) hp
        exact ⟨x, hAp.mem_iff.mpr hx, hid⟩
    have heq := hl'i.unique hi fun e => ((hkept.append_left A).trans hAp).mem_iff
    rw [hl', heq]
    rfl
  · rw [not_not.mp hd, append_nil] at hAp
    rw [hA.unique hi fun e => hAp.mem_iff]

omit [EventCrypto] in
/-- **Records with a gap** open to no log. -/
theorem openLog_of_gap (h : Holds Key password records bytes) {e} (he : e ∈ records) {a}
    (ha : Ancestor records e a)
    (hgap : ∀ x ∈ records, x.id = a → x.conversationId ≠ e.conversationId) (salt repair) :
    ∃ stop, (openLog (some bytes) password salt repair : Except Stop (LegacyEventLog Key) × _) =
        (.error stop, bytes) ∧
      ((records.map Event.id).Nodup → ∃ err, stop = .error err) := by
  obtain ⟨file, -, hopen⟩ := openLog_of_holds h salt repair
  obtain ⟨hholds, hsub, -, hclosed⟩ := replay_closed records
    (s := (∅, [])) (fun i x hx => by simp [show (∅ : EventLog).events = ∅ from rfl] at hx)
    (fun _ hx => hx)
  rw [nil_append] at hsub
  have hopened : ¬ ∀ x ∈ (replay records).2, EventLog.Closed records x := fun hd => by
    obtain ⟨x, hx, hid, hc⟩ := ha.mem (fun y hy => (hclosed y hy).elim (hd y) id) he
    exact hgap x hx hid hc
  have hne : (replay records).2 ≠ [] := fun hd => hopened (by simp [hd])
  rw [hopen, if_pos hne]
  cases hr : indexRetained (replay records).2 (replay records).1 with
  | ok r =>
    exact absurd (indexRetained_closed hr hholds fun x hx => hsub.subset hx) hopened
  | error stop =>
    refine ⟨stop, rfl, fun hn => ?_⟩
    cases stop with
    | error err => exact ⟨err, rfl⟩
    | panic text =>
      exact absurd hr (indexRetained_ne_panic (hn.sublist (hsub.map _)) text)

/-- **What a file opens to.** Events that a log accepts one after the other are rebuilt from their
records in any order, as the log that accepted them. A record whose ancestry is absent opens no log.
And a drop, a retention or a compaction that fails leaves the log and the file as they were. -/
theorem open_rebuilds (password : String) (salt : Bytes saltSize) (repair : Repair) :
    (∀ es records bytes, (∅ : EventLog).acceptedBy es = es → records.Perm es →
      Holds Key password records bytes → ∃ file : RecordLog Key, file.file = bytes ∧
        openLog (some bytes) password salt repair =
          (.ok (opened ((∅ : EventLog).appendAll es) file), bytes)) ∧
    (∀ records bytes, Holds Key password records bytes → (∃ e ∈ records, ∃ a, Ancestor records e a ∧
        ∀ x ∈ records, x.id = a → x.conversationId ≠ e.conversationId) →
      ∃ stop, (openLog (some bytes) password salt repair : Except Stop (LegacyEventLog Key) × _) =
          (.error stop, bytes) ∧
        ((records.map Event.id).Nodup → ∃ err, stop = .error err)) ∧
    ∀ (l l' : LegacyEventLog Key) (nonces : EventId → Bytes nonceSize) (fault : ReplaceFault) stop,
      ((∃ c, l.dropConversation c nonces fault = (.error stop, l')) ∨
        (∃ keep, l.retainConversations keep nonces fault = (.error stop, l')) ∨
        (∃ cs at_, l.compactProfileConversations cs at_ nonces fault = (.error stop, l')) ∨
        ∃ now, l.drainOneProfileCompactionAt now nonces fault = (.error stop, l')) →
      l'.log = l.log ∧ l'.file = l.file := by
  refine ⟨fun es records bytes hes hperm h => openLog_of_perm hes hperm h salt repair,
    fun records bytes h hgap => ?_, fun l l' nonces fault stop h => ?_⟩
  · obtain ⟨e, he, a, ha, hgap⟩ := hgap
    exact openLog_of_gap h he ha hgap salt repair
  · rcases h with ⟨c, h⟩ | ⟨keep, h⟩ | ⟨cs, at_, h⟩ | ⟨now, h⟩
    · rw [dropConversation_error h]
      exact ⟨rfl, rfl⟩
    · rw [retainConversations_error h]
      exact ⟨rfl, rfl⟩
    · exact compactProfileConversations_error h
    · exact drainOneProfileCompactionAt_error h

end LegacyEventLog

@[reducible] def pairCodec (a b : Event) : Codec Event where
  serialize e := if e = a then .ok [0] else if e = b then .ok [1] else .error "unknown event"
  deserialize bs := match bs with
    | [0] => .ok a
    | [1] => .ok b
    | _ => .error "unknown byte"
  deserialize_serialize e bs h := by
    split_ifs at h with ha hb
    · cases h
      rw [ha]
      rfl
    · cases h
      rw [hb]
      rfl

def sampleParent : Event := sampleEvent 1 1 [] 5 .message

/-- An answer with an earlier clock, which a file sorted by time has first. -/
def sampleChild : Event := sampleEvent 2 1 [sampleId 1 1] 1 .message

def sampleFile : List UInt8 :=
  legacyMagic.1 ++ List.replicate 16 0 ++
    ([0, 0, 0, 13] ++ List.replicate 12 0 ++ [1] ++ ([0, 0, 0, 13] ++ List.replicate 12 0 ++ [0]))

theorem open_rebuilds_sample :
    letI := sampleCrypto
    letI := plainCipher
    letI := pairCodec sampleParent sampleChild
    ∃ file : RecordLog Unit, file.file = sampleFile ∧
      LegacyEventLog.openLog (some sampleFile) "pw" ⟨List.replicate 16 0, rfl⟩ .done =
        (.ok (LegacyEventLog.opened ((∅ : EventLog).appendAll [sampleParent, sampleChild]) file),
          sampleFile) := by
  let := sampleCrypto
  let := plainCipher
  let := pairCodec sampleParent sampleChild
  refine (LegacyEventLog.open_rebuilds "pw" ⟨List.replicate 16 0, rfl⟩ .done).1
    [sampleParent, sampleChild] [sampleChild, sampleParent] sampleFile (by decide +kernel)
    (List.Perm.swap _ _ _) ⟨⟨List.replicate 16 0, rfl⟩,
      [[0, 0, 0, 13] ++ List.replicate 12 0 ++ [1],
      [0, 0, 0, 13] ++ List.replicate 12 0 ++ [0]], ?_, rfl⟩
  exact .cons ⟨⟨List.replicate 12 0, rfl⟩, rfl⟩ (.cons ⟨⟨List.replicate 12 0, rfl⟩, rfl⟩ .nil)

end MeshTalk
