import MeshTalk.Channel.SenderKey

/-! # The receiver's chain follows the sender's

Whatever positions are asked for, in whatever order: a receiver's chain answers with the key the
sender has at the position, once, and its buffer stays in step. -/

namespace MeshTalk.Channel

open Lib Ratchet List

variable {Secret Key Ct : Type} {C : RatchetCrypto Secret Key Ct}

/-! ### Positions -/

theorem checkedSucc_eq_some {n m} : checkedSucc n = some m ↔ m.toNat = n.toNat + 1 := by
  have hm := m.toNat_lt
  unfold checkedSucc
  split_ifs with h
  · rw [Option.some_inj]
    constructor
    · rintro rfl
      rw [UInt32.toNat_add]
      exact Nat.mod_eq_of_lt h
    · intro he
      refine UInt32.toNat_inj.mp ?_
      rw [UInt32.toNat_add, he]
      exact Nat.mod_eq_of_lt h
  · simp only [false_iff]
    omega

theorem checkedSucc_of_lt {n} (h : n.toNat + 1 < 2 ^ 32) :
    ∃ m, checkedSucc n = some m ∧ m.toNat = n.toNat + 1 := by
  have hm : checkedSucc n = some (n + 1) := if_pos h
  exact ⟨n + 1, hm, checkedSucc_eq_some.mp hm⟩

/-! ### The sender -/

namespace SenderKey

theorem after_succ (s : SenderKey Key) (k) : s.after C (k + 1) = (tryRatchet C (s.after C k)).2 :=
  Function.iterate_succ_apply' _ _ _

theorem tryRatchet_of_lt {s : SenderKey Key} (h : s.n.toNat + 1 < 2 ^ 32) :
    ∃ s', s.tryRatchet C = (.ok (s.n, (C.kdfCk s.chainKey).2), s') ∧
      s'.chainKey = (C.kdfCk s.chainKey).1 ∧ s'.n.toNat = s.n.toNat + 1 := by
  obtain ⟨m, hm, hn⟩ := checkedSucc_of_lt h
  refine ⟨⟨(C.kdfCk s.chainKey).1, m⟩, ?_, rfl, hn⟩
  unfold tryRatchet
  rw [hm]

theorem after_spec (s : SenderKey Key) : ∀ {k : ℕ}, s.n.toNat + k < 2 ^ 32 →
    (s.after C k).chainKey = Ratchet.chainKey C s.chainKey k ∧ (s.after C k).n.toNat = s.n.toNat + k
  | 0, _ => ⟨rfl, rfl⟩
  | k + 1, h => by
    obtain ⟨hck, hn⟩ := after_spec s (k := k) (by omega)
    obtain ⟨s', hs', hck', hn'⟩ := tryRatchet_of_lt (C := C) (s := s.after C k) (by omega)
    rw [after_succ, hs']
    refine ⟨?_, by dsimp only; omega⟩
    rw [hck', hck, chainKey_succ]

theorem tryRatchet_after {s : SenderKey Key} {t : UInt32} (hle : s.n ≤ t)
    (hlt : t.toNat + 1 < 2 ^ 32) :
    ∃ s', tryRatchet C (s.after C (t.toNat - s.n.toNat)) =
      (.ok (t, Ratchet.messageKey C s.chainKey (t.toNat - s.n.toNat)), s') := by
  rw [UInt32.le_iff_toNat_le] at hle
  obtain ⟨hck, hn⟩ := s.after_spec (C := C) (k := t.toNat - s.n.toNat) (by omega)
  obtain ⟨s', hs', -, -⟩ :=
    tryRatchet_of_lt (C := C) (s := s.after C (t.toNat - s.n.toNat)) (by omega)
  have hpos : (s.after C (t.toNat - s.n.toNat)).n = t := UInt32.toNat_inj.mp (by omega)
  rw [hck, hpos] at hs'
  exact ⟨s', hs'⟩

end SenderKey

/-! ### The receiver -/

theorem SenderChain.skipOne_of_lt {c : SenderChain Key} (hlt : c.n.toNat + 1 < 2 ^ 32) :
    ∃ next : UInt32, next.toNat = c.n.toNat + 1 ∧
      c.skipOne C = some ⟨(C.kdfCk c.chainKey).1, next, (c.buffer C).1, (c.buffer C).2⟩ := by
  obtain ⟨next, hnext, hn⟩ := checkedSucc_of_lt hlt
  refine ⟨next, hn, ?_⟩
  unfold SenderChain.skipOne
  rw [hnext]
  rfl

theorem SenderChain.buffer_spec {c : SenderChain Key} (h : Listed c.skipped c.order)
    (hfresh : c.n ∉ c.order) :
    Listed (c.buffer C).1 (c.buffer C).2 ∧ (c.buffer C).2.length ≤ maxSkippedTotal ∧
      (∀ p ∈ (c.buffer C).2, p ∈ c.order ∨ p = c.n) ∧
      ∀ p ∈ (c.buffer C).2, (c.buffer C).1.lookup p =
        if p = c.n then some (C.kdfCk c.chainKey).2 else c.skipped.lookup p := by
  obtain ⟨hq, hlisted, hlook⟩ := h.push maxSkippedTotal hfresh (C.kdfCk c.chainKey).2
  unfold SenderChain.buffer
  rw [hq]
  refine ⟨hlisted, length_push_le _, fun p hp => ?_, hlook⟩
  have hp' : p ∈ c.order ++ [c.n] := mem_of_mem_drop hp
  simpa using hp'

namespace SenderChain

/-! ### The keys of a chain -/

/-- What a checkpoint can hold: distinct buffered positions below the next one, not too many. -/
structure Valid (c : SenderChain Key) : Prop where
  listed : Listed c.skipped c.order
  bounded : c.order.length ≤ maxSkippedTotal
  below : ∀ p ∈ c.order, p < c.n

def keyAt (C : RatchetCrypto Secret Key Ct) (c : SenderChain Key) (t : UInt32) : Option Key :=
  match c.skipped.lookup t with
  | some k => some k
  | none => if t < c.n then none else some (Ratchet.messageKey C c.chainKey (t.toNat - c.n.toNat))

structure Thins (C : RatchetCrypto Secret Key Ct) (c c' : SenderChain Key) : Prop where
  le : c.n.toNat ≤ c'.n.toNat
  keys : ∀ p, c'.keyAt C p = c.keyAt C p ∨ c'.keyAt C p = none

variable {c c' c'' : SenderChain Key} {t : UInt32}

theorem Thins.refl (c) : Thins C c c := ⟨le_rfl, fun _ => .inl rfl⟩

theorem Thins.trans (h : Thins C c c') (h' : Thins C c' c'') : Thins C c c'' := by
  refine ⟨h.le.trans h'.le, fun p => ?_⟩
  rcases h'.keys p with hp | hp
  · rw [hp]
    exact h.keys p
  · exact .inr hp

theorem keyAt_of_lookup {k} (h : c.skipped.lookup t = some k) : c.keyAt C t = some k := by
  unfold keyAt
  rw [h]

theorem keyAt_of_lt (h : c.skipped.lookup t = none) (ht : t < c.n) : c.keyAt C t = none := by
  unfold keyAt
  rw [h]
  exact if_pos ht

theorem keyAt_of_le (h : c.skipped.lookup t = none) (ht : c.n ≤ t) :
    c.keyAt C t = some (Ratchet.messageKey C c.chainKey (t.toNat - c.n.toNat)) := by
  unfold keyAt
  rw [h]
  exact if_neg (UInt32.not_lt.mpr ht)

namespace Valid

variable (h : c.Valid)
include h

theorem lookup_eq_none (ht : c.n ≤ t) : c.skipped.lookup t = none := by
  by_contra hne
  obtain ⟨k, hk⟩ := Option.ne_none_iff_exists'.mp hne
  have hmem := (h.listed.mem t).mpr (Map.mem_iff_lookup.mpr ⟨k, hk⟩)
  exact absurd (h.below t hmem) (UInt32.not_lt.mpr ht)

theorem skipOne (hlt : c.n.toNat + 1 < 2 ^ 32) :
    ∃ c', c.skipOne C = some c' ∧ c'.n.toNat = c.n.toNat + 1 ∧ c'.Valid ∧ Thins C c c' := by
  obtain ⟨next, hn, hskip⟩ := SenderChain.skipOne_of_lt (C := C) hlt
  have hfresh : c.n ∉ c.order := fun hmem => absurd (h.below _ hmem) (UInt32.lt_irrefl _)
  obtain ⟨hlisted, hlen, hmem, hlook⟩ := SenderChain.buffer_spec (C := C) h.listed hfresh
  refine ⟨_, hskip, hn, ⟨hlisted, hlen, fun p hp => ?_⟩, by simp only; omega, fun p => ?_⟩
  · rw [UInt32.lt_iff_toNat_lt, hn]
    rcases hmem p hp with hp | rfl
    · have := UInt32.lt_iff_toNat_lt.mp (h.below p hp)
      omega
    · omega
  · have hnone : p ∉ (c.buffer C).2 → (c.buffer C).1.lookup p = none := fun hp =>
      Finmap.lookup_eq_none.mpr fun hm => hp ((hlisted.mem p).mpr hm)
    by_cases hp : p ∈ (c.buffer C).2
    · refine .inl ?_
      have hl := hlook p hp
      by_cases hpn : p = c.n
      · subst hpn
        rw [if_pos rfl] at hl
        rw [keyAt_of_lookup (c := ⟨_, next, (c.buffer C).1, (c.buffer C).2⟩) hl,
          keyAt_of_le (h.lookup_eq_none UInt32.le_rfl) UInt32.le_rfl, Nat.sub_self]
        rfl
      · rw [if_neg hpn] at hl
        obtain ⟨k, hk⟩ := Map.mem_iff_lookup.mp
          ((h.listed.mem p).mp ((hmem p hp).resolve_right hpn))
        rw [keyAt_of_lookup (c := ⟨_, next, (c.buffer C).1, (c.buffer C).2⟩) (hl.trans hk),
          keyAt_of_lookup hk]
    · by_cases hlt' : p < next
      · exact .inr (keyAt_of_lt (c := ⟨_, next, (c.buffer C).1, (c.buffer C).2⟩) (hnone hp) hlt')
      · have hle := UInt32.le_iff_toNat_le.mp (UInt32.not_lt.mp hlt')
        have hcn : c.n ≤ p := UInt32.le_iff_toNat_le.mpr (by omega)
        rw [keyAt_of_le (c := ⟨_, next, (c.buffer C).1, (c.buffer C).2⟩) (hnone hp)
          (UInt32.not_lt.mp hlt'), keyAt_of_le (h.lookup_eq_none hcn) hcn,
          show p.toNat - c.n.toNat = p.toNat - next.toNat + 1 by omega]
        exact .inl rfl

end Valid

theorem Valid.skip : ∀ {k c}, c.Valid → c.n.toNat + k < 2 ^ 32 →
    ∃ c', SenderChain.skip C k c = some c' ∧ c'.n.toNat = c.n.toNat + k ∧ c'.Valid ∧ Thins C c c'
  | 0, c, h, _ => ⟨c, rfl, rfl, h, .refl c⟩
  | k + 1, c, h, hlt => by
    obtain ⟨c₁, hc₁, hn₁, hv₁, ht₁⟩ := h.skipOne (C := C) (by omega)
    obtain ⟨c₂, hc₂, hn₂, hv₂, ht₂⟩ := hv₁.skip (k := k) (by omega)
    refine ⟨c₂, ?_, by omega, hv₂, ht₁.trans ht₂⟩
    rw [SenderChain.skip, hc₁]
    exact hc₂

theorem Valid.take (h : c.Valid) (t) (htn : t < c.n) :
    let c' := { c with skipped := c.skipped.erase t, order := c.order.filter fun k => k ≠ t }
    c'.Valid ∧ Thins C c c' := by
  intro c'
  have hlook (p : UInt32) : c'.skipped.lookup p = if p = t then none else c.skipped.lookup p :=
    Map.lookup_erase_ite _ _ _
  have hgone : c'.keyAt C t = none := keyAt_of_lt (by rw [hlook, if_pos rfl]) htn
  refine ⟨⟨h.listed.erase t, (length_filter_le _ _).trans h.bounded, fun p hp =>
    h.below p (mem_of_mem_filter hp)⟩, ⟨le_rfl, fun p => ?_⟩⟩
  by_cases hp : p = t
  · subst hp
    exact .inr hgone
  · refine .inl ?_
    unfold keyAt
    rw [hlook, if_neg hp]

theorem Valid.step (h : c.Valid) (next) (hnext : next.toNat = c.n.toNat + 1) :
    let c' := { c with chainKey := (C.kdfCk c.chainKey).1, n := next }
    c'.Valid ∧ Thins C c c' := by
  intro c'
  refine ⟨⟨h.listed, h.bounded, fun p hp => ?_⟩, ⟨by show _ ≤ next.toNat; omega, fun p => ?_⟩⟩
  · have := UInt32.lt_iff_toNat_lt.mp (h.below p hp)
    exact UInt32.lt_iff_toNat_lt.mpr (by show p.toNat < next.toNat; omega)
  · cases hk : c.skipped.lookup p with
    | some k => exact .inl ((keyAt_of_lookup (c := c') hk).trans (keyAt_of_lookup hk).symm)
    | none =>
      by_cases hlt : p < next
      · exact .inr (keyAt_of_lt (c := c') hk hlt)
      · have hle := UInt32.le_iff_toNat_le.mp (UInt32.not_lt.mp hlt)
        have hcn : c.n ≤ p := UInt32.le_iff_toNat_le.mpr (by omega)
        rw [keyAt_of_le (c := c') hk (UInt32.not_lt.mp hlt), keyAt_of_le hk hcn,
          show p.toNat - c.n.toNat = p.toNat - next.toNat + 1 by omega]
        exact .inl rfl

theorem Valid.fromDistribution (d : SenderKeyDistribution Key) : (fromDistribution d).Valid :=
  ⟨.empty, Nat.zero_le _, fun _ hp => absurd hp not_mem_nil⟩

end SenderChain

/-! ### Following a distribution -/

/-- A chain that follows a distribution, when the keys of `used` were returned and `gone` was
evicted: it has no other keys than the sender, and every position it passed is buffered, used or
gone. -/
structure Tracks (C : RatchetCrypto Secret Key Ct) (d : SenderKeyDistribution Key)
    (used gone : List UInt32) (c : SenderChain Key) : Prop
    extends c.Valid, SenderChain.Thins C (.fromDistribution d) c where
  once : ∀ p ∈ used, d.n.toNat ≤ p.toNat ∧ p.toNat < c.n.toNat ∧ p ∉ c.order
  covered : ∀ p : UInt32, d.n.toNat ≤ p.toNat → p.toNat < c.n.toNat → p ∈ c.order ∨
    p ∈ used ∨ p ∈ gone

namespace Tracks

variable {d : SenderKeyDistribution Key} {used gone : List UInt32} {c : SenderChain Key}

theorem start (d) : Tracks C d [] [] (.fromDistribution d) where
  toValid := .fromDistribution d
  toThins := .refl _
  once := fun _ hp => absurd hp (by simp)
  covered := fun _ hle hlt => absurd hlt (Nat.not_lt.mpr hle)

theorem mem_order {p} (h : Tracks C d used gone c) :
    p ∈ c.order ↔ ∃ k, c.skipped.lookup p = some k := by
  rw [h.listed.mem, Map.mem_iff_lookup]

theorem key {t k} (h : Tracks C d used gone c) (hk : c.keyAt C t = some k) :
    k = messageKey C d.chainKey (t.toNat - d.n.toNat) ∧ d.n.toNat ≤ t.toNat := by
  have hkey := (h.keys t).resolve_right (by rw [hk]; simp)
  rw [hk] at hkey
  by_cases hlt : t < d.n
  · rw [SenderChain.keyAt_of_lt rfl hlt] at hkey
    cases hkey
  · have hle := UInt32.not_lt.mp hlt
    rw [SenderChain.keyAt_of_le rfl hle] at hkey
    exact ⟨Option.some.inj hkey, UInt32.le_iff_toNat_le.mp hle⟩

theorem lt_next {p} (h : Tracks C d used gone c) (hp : p ∈ c.order) : p.toNat < c.n.toNat :=
  UInt32.lt_iff_toNat_lt.mp (h.below p hp)

/-- **Buffering one key.** The next position is above all that are buffered, so it is new. -/
theorem skipOne (h : Tracks C d used gone c) (hlt : c.n.toNat + 1 < 2 ^ 32) :
    ∃ c', c.skipOne C = some c' ∧ c'.n.toNat = c.n.toNat + 1 ∧
      Tracks C d used (gone ++ evicted maxSkippedTotal
        (c.skipped.insert c.n (C.kdfCk c.chainKey).2) (c.order ++ [c.n])) c' := by
  obtain ⟨c', hc', hn, hvalid, hthins⟩ := h.toValid.skipOne (C := C) hlt
  obtain ⟨next, -, hskip⟩ := SenderChain.skipOne_of_lt (C := C) hlt
  cases hskip.symm.trans hc'
  have hfresh : c.n ∉ c.order := fun hmem => absurd (h.lt_next hmem) (lt_irrefl _)
  obtain ⟨-, -, hmem, -⟩ := SenderChain.buffer_spec (C := C) h.listed hfresh
  refine ⟨_, hskip, hn, hvalid, h.toThins.trans hthins, ?_, ?_⟩
  · intro p hp
    obtain ⟨h1, h2, h3⟩ := h.once p hp
    refine ⟨h1, by omega, fun hmem' => ?_⟩
    rcases hmem p hmem' with hp | rfl
    · exact h3 hp
    · exact lt_irrefl _ h2
  · intro p hdp hpn
    have happ := evicted_append maxSkippedTotal (c.order ++ [c.n])
      (c.skipped.insert c.n (C.kdfCk c.chainKey).2)
    have hsplit : p ∈ c.order ++ [c.n] → p ∈ evicted maxSkippedTotal
        (c.skipped.insert c.n (C.kdfCk c.chainKey).2) (c.order ++ [c.n]) ∨ p ∈ (c.buffer C).2 := by
      intro hp
      rw [← happ] at hp
      exact mem_append.mp hp
    by_cases hlast : p = c.n
    · rcases hsplit (by simp [hlast]) with hp | hp
      · exact Or.inr (Or.inr (mem_append_right _ hp))
      · exact Or.inl hp
    · have hne : p.toNat ≠ c.n.toNat := fun he => hlast (UInt32.toNat_inj.mp he)
      rcases h.covered p hdp (by omega) with hp | hp | hp
      · rcases hsplit (mem_append_left _ hp) with hp | hp
        · exact Or.inr (Or.inr (mem_append_right _ hp))
        · exact Or.inl hp
      · exact Or.inr (Or.inl hp)
      · exact Or.inr (Or.inr (mem_append_left _ hp))

/-- **Buffering a run of keys.** -/
theorem skip : ∀ {k c gone}, Tracks C d used gone c →
    c.n.toNat + k < 2 ^ 32 → ∃ c', SenderChain.skip C k c = some c' ∧
      c'.n.toNat = c.n.toNat + k ∧ Tracks C d used (gone ++ c.skipEvictions C k) c'
  | 0, c, gone, h, _ => ⟨c, rfl, rfl, by simpa [SenderChain.skipEvictions] using h⟩
  | k + 1, c, gone, h, hlt => by
    obtain ⟨c₁, hc₁, hn₁, h₁⟩ := h.skipOne (by omega)
    obtain ⟨c₂, hc₂, hn₂, h₂⟩ := h₁.skip (k := k) (by omega)
    refine ⟨c₂, ?_, by omega, ?_⟩
    · rw [SenderChain.skip, hc₁]
      exact hc₂
    · rw [SenderChain.skipEvictions, hc₁, ← append_assoc]
      exact h₂

section

variable (h : Tracks C d used gone c)
include h

theorem take {t k} (hk : c.skipped.lookup t = some k) :
    k = messageKey C d.chainKey (t.toNat - d.n.toNat) ∧ d.n.toNat ≤ t.toNat ∧ t ∉ used ∧
      Tracks C d (used ++ [t]) gone
        { c with skipped := c.skipped.erase t, order := c.order.filter fun k => k ≠ t } := by
  have ht : t ∈ c.order := h.mem_order.mpr ⟨k, hk⟩
  obtain ⟨hkey, hdt⟩ := h.key (SenderChain.keyAt_of_lookup hk)
  obtain ⟨hvalid, hthins⟩ := h.toValid.take (C := C) t (h.below t ht)
  refine ⟨hkey, hdt, fun hu => (h.once t hu).2.2 ht, hvalid, h.toThins.trans hthins,
    fun p hp => ?_, fun p hdp hpn => ?_⟩
  · rcases mem_append.mp hp with hp | hp
    · obtain ⟨h1, h2, h3⟩ := h.once p hp
      exact ⟨h1, h2, fun hm => h3 (mem_of_mem_filter hm)⟩
    · obtain rfl := mem_singleton.mp hp
      exact ⟨hdt, h.lt_next ht, by simp⟩
  · by_cases hpt : p = t
    · exact Or.inr (Or.inl (by simp [hpt]))
    rcases h.covered p hdp hpn with hp | hp | hp
    · exact Or.inl (mem_filter.mpr ⟨hp, by simpa using hpt⟩)
    · exact Or.inr (Or.inl (mem_append_left _ hp))
    · exact Or.inr (Or.inr hp)

theorem step {t next} (ht : c.n.toNat = t.toNat) (hnext : next.toNat = t.toNat + 1) :
    (C.kdfCk c.chainKey).2 = messageKey C d.chainKey (t.toNat - d.n.toNat) ∧
      Tracks C d (used ++ [t]) gone { c with chainKey := (C.kdfCk c.chainKey).1, n := next } := by
  obtain rfl : c.n = t := UInt32.toNat_inj.mp ht
  have hkey := SenderChain.keyAt_of_le (C := C) (h.lookup_eq_none UInt32.le_rfl) UInt32.le_rfl
  rw [Nat.sub_self] at hkey
  obtain ⟨hkey, hdt⟩ := h.key hkey
  obtain ⟨hvalid, hthins⟩ := h.toValid.step (C := C) next hnext
  refine ⟨hkey, hvalid, h.toThins.trans hthins, fun p hp => ?_, fun p hdp hpn => ?_⟩
  · show _ ∧ p.toNat < next.toNat ∧ p ∉ c.order
    rcases mem_append.mp hp with hp | hp
    · obtain ⟨h1, h2, h3⟩ := h.once p hp
      exact ⟨h1, by omega, h3⟩
    · obtain rfl := mem_singleton.mp hp
      exact ⟨hdt, by omega, fun hm => lt_irrefl _ (h.lt_next hm)⟩
  · simp only at hpn
    by_cases hpt : p = c.n
    · exact Or.inr (Or.inl (by simp [hpt]))
    have hne : p.toNat ≠ c.n.toNat := fun he => hpt (UInt32.toNat_inj.mp he)
    rcases h.covered p hdp (by omega) with hp | hp | hp
    · exact Or.inl hp
    · exact Or.inr (Or.inl (mem_append_left _ hp))
    · exact Or.inr (Or.inr hp)

/-- **One request.** It has a result. A key that is returned is the sender's at the position and was
not returned before; an error leaves the chain as it is; and there is no error at a position the
sender has that lies within the bounds and was neither used nor evicted. -/
theorem messageKey (t) : ∃ r c', c.messageKey C t = some (r, c') ∧
      (∀ k, r = .ok k → k = Ratchet.messageKey C d.chainKey (t.toNat - d.n.toNat) ∧
        d.n.toNat ≤ t.toNat ∧ t.toNat + 1 < 2 ^ 32 ∧ t ∉ used ∧
        Tracks C d (used ++ [t]) (gone ++ c.evictions C t) c') ∧
      (∀ e, r = .error e → c' = c ∧ c.evictions C t = []) ∧
      (d.n.toNat ≤ t.toNat → t.toNat + 1 < 2 ^ 32 → t ∉ used → t.toNat ≤ c.n.toNat + maxSkip →
        t ∉ gone → ∃ k, r = .ok k) := by
  have hcn := c.n.toNat_lt
  unfold SenderChain.messageKey SenderChain.evictions
  cases hk : c.skipped.lookup t with
  | some k =>
    obtain ⟨hkey, hdt, hused, htake⟩ := h.take hk
    have hlt := h.lt_next (h.mem_order.mpr ⟨k, hk⟩)
    refine ⟨_, _, rfl, fun x hx => ?_, nofun, fun _ _ _ _ _ => ⟨k, rfl⟩⟩
    cases hx
    exact ⟨hkey, hdt, by omega, hused, by simpa using htake⟩
  | none =>
    have hnot : t ∉ c.order := fun hm => by
      obtain ⟨k, hk'⟩ := h.mem_order.mp hm
      exact absurd (hk.symm.trans hk') (by simp)
    by_cases hlt : t < c.n
    · rw [if_pos hlt]
      have hlt' := UInt32.lt_iff_toNat_lt.mp hlt
      refine ⟨_, _, rfl, nofun, fun e _ => ⟨rfl, if_neg fun hc => ?_⟩, fun hdt _ hu _ hg => ?_⟩
      · exact absurd (UInt32.le_iff_toNat_le.mp hc.2.1) (by omega)
      · rcases h.covered t hdt hlt' with hm | hm | hm
        · exact absurd hm hnot
        · exact absurd hm hu
        · exact absurd hm hg
    rw [if_neg hlt]
    have hge : c.n ≤ t := UInt32.not_lt.mp hlt
    have hge' := UInt32.le_iff_toNat_le.mp hge
    cases hnext : checkedSucc t with
    | none =>
      refine ⟨_, _, rfl, nofun, fun e _ => ⟨rfl, if_neg fun hc => ?_⟩, fun _ hlast _ _ _ => ?_⟩
      · exact absurd hc.2.2.1 (by simp)
      · obtain ⟨m, hm, -⟩ := checkedSucc_of_lt hlast
        exact absurd (hnext.symm.trans hm) (by simp)
    | some next =>
      have hnext' := checkedSucc_eq_some.mp hnext
      have hmax := next.toNat_lt
      dsimp only
      by_cases hskip : t.toNat - c.n.toNat > maxSkip
      · rw [if_pos hskip]
        refine ⟨_, _, rfl, nofun, fun e _ => ⟨rfl, if_neg fun hc => ?_⟩, fun _ _ _ hle _ => ?_⟩
        · exact absurd hc.2.2.2 (by omega)
        · omega
      rw [if_neg hskip, if_pos ⟨rfl, hge, rfl, by omega⟩]
      obtain ⟨c₁, hc₁, hn₁, h₁⟩ := h.skip (k := t.toNat - c.n.toNat) (by omega)
      obtain ⟨hkey, hstep⟩ := h₁.step (t := t) (by omega) hnext'
      rw [hc₁]
      refine ⟨_, _, rfl, fun x hx => ?_, nofun, fun _ _ _ _ _ => ⟨_, rfl⟩⟩
      cases hx
      have hdle : d.n.toNat ≤ c.n.toNat := h.le
      refine ⟨hkey, by omega, by omega, fun hu => ?_, hstep⟩
      have := (h.once t hu).2.1
      omega

end

end Tracks

/-! ### Sequences of requests -/

namespace Served

/-- The positions whose key was returned. -/
def used (s : Served Key) : List UInt32 :=
  s.results.filterMap fun r => match r.2 with
    | .ok _ => some r.1
    | .error _ => none

theorem mem_used {s : Served Key} {t} : t ∈ s.used ↔ ∃ k, (t, .ok k) ∈ s.results := by
  unfold used
  rw [mem_filterMap]
  constructor
  · rintro ⟨⟨p, r⟩, hr, heq⟩
    cases r with
    | error e => cases heq
    | ok k =>
      obtain rfl : p = t := Option.some.inj heq
      exact ⟨k, hr⟩
  · rintro ⟨k, hk⟩
    exact ⟨_, hk, rfl⟩

theorem request_tracks {d} {s : Served Key} (h : Tracks C d s.used s.evicted s.chain) (t) :
    ∃ s', s.request C t = some s' ∧ Tracks C d s'.used s'.evicted s'.chain := by
  obtain ⟨r, c, hr, hok, herr, -⟩ := h.messageKey t
  refine ⟨⟨c, s.results ++ [(t, r)], s.evicted ++ s.chain.evictions C t⟩, ?_, ?_⟩
  · unfold request
    rw [hr]
    rfl
  · cases r with
    | ok k =>
      have hused : used ⟨c, s.results ++ [(t, .ok k)], s.evicted ++ s.chain.evictions C t⟩ =
          s.used ++ [t] := by
        simp [used, filterMap_append]
      rw [hused]
      exact (hok k rfl).2.2.2.2
    | error e =>
      obtain ⟨rfl, hev⟩ := herr e rfl
      have hused : used ⟨s.chain, s.results ++ [(t, .error e)],
        s.evicted ++ s.chain.evictions C t⟩ = s.used := by
        simp [used, filterMap_append]
      rw [hused, hev, append_nil]
      exact h

theorem requests_tracks {d} : ∀ (ts : List UInt32) {s : Served Key},
    Tracks C d s.used s.evicted s.chain →
    ∃ s', s.requests C ts = some s' ∧ Tracks C d s'.used s'.evicted s'.chain
  | [], s, h => ⟨s, rfl, h⟩
  | t :: ts, s, h => by
    obtain ⟨s₁, hs₁, h₁⟩ := request_tracks h t
    obtain ⟨s₂, hs₂, h₂⟩ := requests_tracks ts h₁
    refine ⟨s₂, ?_, h₂⟩
    rw [requests, hs₁]
    exact hs₂

end Served

/-- **A receiver's chain follows the sender's.** After any requests, all of which have a result: the
buffer and its order agree, hold only positions below the next one and stay within the bound. And
the next request, of any position, returns the key the sender has there, which was not returned
before, or fails and leaves the chain as it is; it does not fail at a position of the sender from
the distribution on that is not used, not evicted and not too far ahead. -/
theorem requests_follow_sender (C : RatchetCrypto Secret Key Ct) (sender : SenderKey Key)
    (ts : List UInt32) :
    ∃ s, (Served.start sender.distribution).requests C ts = some s ∧
      (s.chain.order.Nodup ∧ (∀ p, p ∈ s.chain.order ↔ p ∈ s.chain.skipped) ∧
        (∀ p ∈ s.chain.order, p < s.chain.n) ∧ s.chain.skipped.keys.card ≤ maxSkippedTotal) ∧
      ∀ t, ∃ r c, s.chain.messageKey C t = some (r, c) ∧
        (∀ k, r = .ok k → sender.n ≤ t ∧ (∀ k', (t, .ok k') ∉ s.results) ∧
          ∃ sender', (sender.after C (t.toNat - sender.n.toNat)).tryRatchet C =
            (.ok (t, k), sender')) ∧
        (∀ e, r = .error e → c = s.chain) ∧
        (sender.n ≤ t → t.toNat < 2 ^ 32 - 1 → (∀ k, (t, .ok k) ∉ s.results) →
          t.toNat ≤ s.chain.n.toNat + maxSkip → t ∉ s.evicted → ∃ k, r = .ok k) := by
  obtain ⟨s, hs, h⟩ :=
    Served.requests_tracks (C := C) ts (s := .start sender.distribution) (.start _)
  refine ⟨s, hs, ⟨h.listed.nodup, h.listed.mem, h.below, ?_⟩, fun t => ?_⟩
  · rw [h.listed.card]
    exact h.bounded
  obtain ⟨r, c, hr, hok, herr, hsucc⟩ := h.messageKey t
  refine ⟨r, c, hr, fun k hk => ?_, fun e he => (herr e he).1, fun hle hlt hused hfar hev => ?_⟩
  · obtain ⟨rfl, hle, hlt, hused, -⟩ := hok k hk
    have hle' : sender.n ≤ t := UInt32.le_iff_toNat_le.mpr hle
    exact ⟨hle', fun k' hk' => hused (Served.mem_used.mpr ⟨k', hk'⟩),
      SenderKey.tryRatchet_after hle' hlt⟩
  · refine hsucc (UInt32.le_iff_toNat_le.mp hle) (by omega) (fun hu => ?_) hfar hev
    obtain ⟨k, hk⟩ := Served.mem_used.mp hu
    exact hused k hk

/-- The last position has no key: the sender does not reach it, and a receiver refuses it. -/
theorem last_position_refused :
    let C : RatchetCrypto Unit ℕ Unit :=
      ⟨fun _ => 0, fun _ _ => 0, fun _ _ => (0, 0), fun k => (k + 1, k), fun _ _ _ => none,
        fun _ _ _ => none⟩
    let sender : SenderKey ℕ := ⟨17, 0xFFFFFFFD⟩
    let s := Served.start sender.distribution
    let t : UInt32 := 0xFFFFFFFF
    sender.n ≤ t ∧ (∀ k, (t, .ok k) ∉ s.results) ∧ t.toNat ≤ s.chain.n.toNat + maxSkip ∧
      t ∉ s.evicted ∧ s.chain.messageKey C t = some (.error exhausted, s.chain) := by
  refine ⟨by decide, fun k => List.not_mem_nil, by decide, List.not_mem_nil, rfl⟩

end MeshTalk.Channel
