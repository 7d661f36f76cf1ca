import MeshTalk.Lib.Map

/-! # Maps bounded by a queue of their keys

A cache kept as a map and, apart from it, the queue of its keys in the order of insertion. Both are
changed separately, so that they stay in step has to be proved. -/

namespace MeshTalk.Lib

open List Finmap

variable {κ ν : Type*}

/-! ### The queue -/

/-- The queue after a key is pushed and the oldest above the capacity are evicted. -/
def push (cap : ℕ) (q : List κ) (k : κ) : List κ := (q ++ [k]).drop (q.length + 1 - cap)

variable {cap : ℕ} {q : List κ}

theorem length_push_le (k) : (push cap q k).length ≤ cap := by
  rw [push, length_drop, length_append, length_singleton]
  omega

/-- No key of `ks` is queued when its turn to be pushed comes: the `j`-th meets the queue without
its oldest entries above the capacity. -/
def Fresh (cap : ℕ) (q ks : List κ) : Prop :=
  ∀ j k, ks[j]? = some k → k ∉ q.drop (q.length + j - cap)

variable {k : κ} {ks : List κ}

theorem Fresh.head (h : Fresh cap q (k :: ks)) (hq : q.length ≤ cap) : k ∉ q := by
  have := h 0 k rfl
  rwa [show q.length + 0 - cap = 0 by omega, drop_zero] at this

theorem drop_push (hq : q.length ≤ cap) (k) {j} (hj : j < cap) :
    (push cap q k).drop ((push cap q k).length + j - cap) =
      q.drop (q.length + (j + 1) - cap) ++ [k] := by
  rw [push, drop_drop, length_drop, length_append, length_singleton,
    drop_append_of_le_length (by omega)]
  congr 2
  omega

theorem Fresh.tail (h : Fresh cap q (k :: ks)) (hk : k ∉ ks) (hq : q.length ≤ cap)
    (hks : ks.length < cap) : Fresh cap (push cap q k) ks := by
  intro j x hj
  have hlt : j < ks.length := (List.getElem?_eq_some_iff.mp hj).1
  rw [drop_push hq k (by omega), List.mem_append, List.mem_singleton]
  rintro (hx | rfl)
  · exact h (j + 1) x (by simpa using hj) hx
  · exact hk (List.mem_of_getElem? hj)

theorem Fresh.append_left {ls} (h : Fresh cap q (ks ++ ls)) : Fresh cap q ks := by
  intro j k hj
  refine h j k ?_
  rw [List.getElem?_append_left (List.getElem?_eq_some_iff.mp hj).1]
  exact hj

theorem foldl_push : ∀ {ks q : List κ}, q.length ≤ cap → ks.length ≤ cap →
    ks.foldl (push cap) q = (q ++ ks).drop (q.length + ks.length - cap)
  | [], q, hq, _ => by
    rw [foldl_nil, append_nil, length_nil, show q.length + 0 - cap = 0 by omega,
      drop_zero]
  | k :: ks, q, hq, hks => by
    rw [length_cons] at hks
    rw [foldl_cons, foldl_push (length_push_le k) (by omega), length_cons]
    have hlen : (push cap q k).length = q.length + 1 - (q.length + 1 - cap) := by
      rw [push, length_drop, length_append, length_singleton]
    have happ : push cap q k ++ ks = (q ++ k :: ks).drop (q.length + 1 - cap) := by
      rw [push, ← drop_append_of_le_length (by simp), append_assoc]
      rfl
    rw [happ, drop_drop, hlen]
    congr 1
    omega

/-- After a run of pushes the keys that follow are still fresh. -/
theorem Fresh.append_right : ∀ {ks ls q : List κ}, Fresh cap q (ks ++ ls) →
    (ks ++ ls).Nodup → q.length ≤ cap → ks.length + ls.length ≤ cap →
    Fresh cap (ks.foldl (push cap) q) ls
  | [], ls, q, h, _, _, _ => h
  | k :: ks, ls, q, h, hn, hq, hlen => by
    rw [cons_append] at h hn
    rw [length_cons] at hlen
    obtain ⟨hk, hn⟩ := nodup_cons.mp hn
    have ht := h.tail hk hq (by rw [length_append]; omega)
    exact ht.append_right hn (length_push_le k) (by omega)

/-- A run of pushes below the capacity keeps what it pushed. -/
theorem mem_foldl_push (hq : q.length ≤ cap) (hks : ks.length ≤ cap) (hk : k ∈ ks) :
    k ∈ ks.foldl (push cap) q := by
  rw [foldl_push hq hks, drop_append_of_le_length (by omega)]
  exact mem_append_right _ hk

theorem mem_of_mem_foldl_push (hq : q.length ≤ cap) (hks : ks.length ≤ cap)
    (hk : k ∈ ks.foldl (push cap) q) : k ∈ q ∨ k ∈ ks := by
  rw [foldl_push hq hks] at hk
  exact mem_append.mp (mem_of_mem_drop hk)

/-! ### Map and queue -/

/-- The queue lists exactly the keys of the map, each once. -/
structure Listed (m : Map κ ν) (q : List κ) : Prop where
  nodup : q.Nodup
  mem : ∀ k, k ∈ q ↔ k ∈ m

theorem Listed.empty : Listed (∅ : Map κ ν) [] :=
  ⟨nodup_nil, fun k => by simp [notMem_empty]⟩

variable [DecidableEq κ]

instance (cap : ℕ) (q ks : List κ) : Decidable (Fresh cap q ks) :=
  decidable_of_iff (∀ j : Fin ks.length, ks[j] ∉ q.drop (q.length + j - cap)) <| by
    refine ⟨fun h j k hj => ?_, fun h j => h j _ ?_⟩
    · obtain ⟨hlt, rfl⟩ := List.getElem?_eq_some_iff.mp hj
      exact h ⟨j, hlt⟩
    · exact List.getElem?_eq_some_iff.mpr ⟨j.2, rfl⟩

theorem Listed.card {m : Map κ ν} {q} (h : Listed m q) : m.keys.card = q.length := by
  have hkeys : m.keys = q.toFinset := by
    ext k
    rw [Finmap.mem_keys, List.mem_toFinset, h.mem]
  rw [hkeys, List.toFinset_card_of_nodup h.nodup]

theorem Map.lookup_erase_ite (m : Map κ ν) (k k') :
    (m.erase k).lookup k' = if k' = k then none else m.lookup k' := by
  split_ifs with h
  · rw [h]
    exact lookup_erase k m
  · exact lookup_erase_ne h

theorem Listed.erase {m : Map κ ν} {q} (h : Listed m q) (k) :
    Listed (m.erase k) (q.filter fun x => x ≠ k) := by
  refine ⟨h.nodup.filter _, fun x => ?_⟩
  rw [mem_filter, h.mem, mem_erase, and_comm, decide_eq_true_eq]

/-- Removing the oldest key removes that key and no other from both. -/
theorem Listed.tail {m : Map κ ν} {old} (h : Listed m (old :: q)) : Listed (m.erase old) q := by
  obtain ⟨hold, hq⟩ := nodup_cons.mp h.nodup
  refine ⟨hq, fun k => ?_⟩
  rw [mem_erase, ← h.mem, mem_cons]
  constructor
  · intro hk
    exact ⟨fun he => hold (he ▸ hk), Or.inr hk⟩
  · rintro ⟨hne, rfl | hk⟩
    · exact absurd rfl hne
    · exact hk

/-! ### Eviction -/

/-- Evict the oldest keys while there are more than `cap`. -/
def evict (cap : ℕ) (m : Map κ ν) : List κ → Map κ ν × List κ
  | [] => (m, [])
  | old :: rest => if m.keys.card > cap then evict cap (m.erase old) rest else (m, old :: rest)

/-- **Eviction drops exactly the keys above the capacity**, from both. -/
theorem evict_spec (cap) : ∀ {q : List κ} {m : Map κ ν}, Listed m q →
    (evict cap m q).2 = q.drop (q.length - cap) ∧
      Listed (evict cap m q).1 (q.drop (q.length - cap)) ∧
      ∀ k ∈ q.drop (q.length - cap), (evict cap m q).1.lookup k = m.lookup k
  | [], m, h => ⟨by simp [evict], by simpa [evict] using h, by simp⟩
  | old :: q, m, h => by
    have hcard : m.keys.card = q.length + 1 := by
      rw [h.card, length_cons]
    unfold evict
    split_ifs with hc
    · obtain ⟨h1, h2, h3⟩ := evict_spec cap h.tail
      have hdrop : (old :: q).drop ((old :: q).length - cap) = q.drop (q.length - cap) := by
        rw [length_cons, show q.length + 1 - cap = (q.length - cap) + 1 by omega,
          drop_succ_cons]
      rw [hdrop]
      refine ⟨h1, h2, fun k hk => ?_⟩
      have hne : k ≠ old := fun he =>
        (nodup_cons.mp h.nodup).1 (he ▸ mem_of_mem_drop hk)
      rw [h3 k hk, Map.lookup_erase_ite, if_neg hne]
    · have hzero : (old :: q).length - cap = 0 := by
        rw [length_cons]
        omega
      rw [hzero, drop_zero]
      exact ⟨rfl, h, fun _ _ => rfl⟩

def evicted (cap : ℕ) (m : Map κ ν) : List κ → List κ
  | [] => []
  | old :: rest => if m.keys.card > cap then old :: evicted cap (m.erase old) rest else []

theorem evicted_append (cap) : ∀ (q : List κ) (m : Map κ ν),
    evicted cap m q ++ (evict cap m q).2 = q
  | [], _ => rfl
  | old :: q, m => by
    unfold evicted evict
    split_ifs with hc
    · rw [cons_append, evicted_append cap q (m.erase old)]
    · rfl

/-! ### Insertion -/

theorem Listed.insert_append {m} (h : Listed m q) (hk : k ∉ q) (v : ν) :
    Listed (m.insert k v) (q ++ [k]) := by
  refine ⟨?_, fun x => ?_⟩
  · refine List.nodup_append.mpr ⟨h.nodup, List.nodup_singleton k, fun a ha b hb => ?_⟩
    rw [List.mem_singleton.mp hb]
    exact fun he => hk (he ▸ ha)
  · rw [List.mem_append, List.mem_singleton, mem_insert, h.mem, or_comm]

/-- **Pushing a key that is not queued keeps map and queue in step.** -/
theorem Listed.push {m} {q : List κ} (h : Listed m q) (cap) (hk : k ∉ q) (v : ν) :
    (evict cap (m.insert k v) (q ++ [k])).2 = Lib.push cap q k ∧
      Listed (evict cap (m.insert k v) (q ++ [k])).1 (Lib.push cap q k) ∧
      ∀ x ∈ Lib.push cap q k, (evict cap (m.insert k v) (q ++ [k])).1.lookup x =
        if x = k then some v else m.lookup x := by
  obtain ⟨h1, h2, h3⟩ := evict_spec cap (h.insert_append hk v)
  rw [length_append, length_singleton] at h1 h2 h3
  refine ⟨h1, h2, fun x hx => ?_⟩
  rw [h3 x hx, Map.lookup_insert_ite]

end MeshTalk.Lib
