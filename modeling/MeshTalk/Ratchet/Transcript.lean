import MeshTalk.Ratchet.Session

/-! # What both parties know of a session

The ratchet keys of the two parties alternate: number the effective ones `0, 1, 2, …` in the order
they are drawn, the even ones of the party that answers. Key `i + 1` meets key `i` in one
Diffie-Hellman output, from which both sides derive root key `i + 1` and chain `i + 1`, the chain of
the messages sent under key `i + 1`. A `Transcript` records these sequences. -/

namespace MeshTalk.Ratchet

open Lib RatchetState Function

variable {Secret Key Ct : Type} {C : RatchetCrypto Secret Key Ct}

/-! ### Positions of a chain -/

theorem messageKey_chainKey (ck a b) :
    messageKey C (chainKey C ck a) b = messageKey C ck (a + b) := by
  unfold messageKey
  rw [chainKey_add]

namespace Ideal

variable {sharedSecret : Key} (hC : Ideal C sharedSecret)
include hC

variable {n : ℕ}

theorem chainKey_injective {ck ck'} (h : chainKey C ck n = chainKey C ck' n) : ck = ck' := by
  induction n with
  | zero => exact h
  | succ n ih =>
    rw [chainKey_succ, chainKey_succ] at h
    exact ih (hC.next_inj _ _ h)

theorem chainKey_ne {rk d m} (hlt : n < m) :
    chainKey C (C.kdfRk rk d).2 n ≠ chainKey C (C.kdfRk rk d).2 m := by
  intro h
  obtain ⟨j, rfl⟩ : ∃ j, m = j + 1 + n := ⟨m - n - 1, by omega⟩
  rw [← chainKey_add] at h
  have hcycle := hC.chainKey_injective h
  rw [chainKey_succ] at hcycle
  exact hC.next_ne_chain _ _ _ hcycle.symm

theorem messageKey_ne {rk d m} (hne : n ≠ m) :
    messageKey C (C.kdfRk rk d).2 n ≠ messageKey C (C.kdfRk rk d).2 m := by
  intro h
  have hchain := hC.message_inj _ _ h
  rcases Nat.lt_or_gt_of_ne hne with hlt | hgt
  · exact hC.chainKey_ne hlt hchain
  · exact hC.chainKey_ne hgt hchain.symm

theorem chain_of_messageKey {ck ck'} (h : messageKey C ck n = messageKey C ck' n) : ck = ck' :=
  hC.chainKey_injective (hC.message_inj _ _ h)

theorem openWith_error {key key' pt header ct}
    (hseal : C.aeadEncrypt key pt header.encode = some ct)
    (hne : key' ≠ key) (pt') : openWith C key' header ct ≠ .ok pt' := by
  intro hopen
  exact hne (hC.authentic _ _ _ _ _ _ _ hseal (openWith_eq_ok.mp hopen)).1

end Ideal

/-! ### Transcripts -/

/-- The ratchet keys so far, the root keys and chains they gave, the number of messages sent in each
chain, the last ratchet key and the current one of each party. -/
structure Transcript (Secret Key : Type) where
  keys : ℕ → Secret
  root : ℕ → Key
  chain : ℕ → Key
  sentIn : ℕ → ℕ
  top : ℕ
  own : Party → ℕ

/-- The ratchet keys of the party that sends first are the odd ones. -/
def Party.parity : Party → ℕ
  | .alice => 1
  | .bob => 0

theorem Party.parity_other (p : Party) : p.other.parity = 1 - p.parity := by cases p <;> rfl

theorem Party.parity_le (p : Party) : p.parity ≤ 1 := by cases p <;> decide

def PeerChain (p : Party) (e : ℕ) : Prop := e ≠ 0 ∧ e % 2 ≠ p.parity

namespace Transcript

def pub (C : RatchetCrypto Secret Key Ct) (g : Transcript Secret Key) (i : ℕ) : Pub :=
  C.publicKey (g.keys i)

/-- The sequences of a transcript belong together, after `clock` key pairs were drawn. -/
structure Valid (C : RatchetCrypto Secret Key Ct) (secrets : ℕ → Secret) (sharedSecret : Key)
    (clock : ℕ) (g : Transcript Secret Key) : Prop where
  own_parity : ∀ p, g.own p % 2 = p.parity
  own_top : ∀ p, g.own p = g.top ∨ g.own p + 1 = g.top
  root_zero : g.root 0 = sharedSecret
  derives : ∀ i < g.top,
    C.kdfRk (g.root i) (C.dh (g.keys (i + 1)) (g.pub C i)) = (g.root (i + 1), g.chain (i + 1))
  drawn : ∀ i ≤ g.top, ∃ j < clock, g.keys i = secrets j
  pub_inj : ∀ i ≤ g.top, ∀ j ≤ g.top, g.pub C i = g.pub C j → i = j
  sentIn_lt : ∀ e, g.sentIn e < 2 ^ 32
  sentIn_zero : g.sentIn 0 = 0
  sentIn_above : ∀ e, g.top < e → g.sentIn e = 0

variable {secrets : ℕ → Secret} {sharedSecret : Key} {clock : ℕ} {g : Transcript Secret Key}

namespace Valid

section

variable (hg : g.Valid C secrets sharedSecret clock)
include hg

theorem own_le_top (p) : g.own p ≤ g.top := by
  rcases hg.own_top p with h | h <;> omega

theorem own_other (p : Party) : g.own p.other = g.own p + 1 ∨ g.own p.other + 1 = g.own p := by
  have hp := hg.own_parity p
  have hq := hg.own_parity p.other
  have hpar := p.parity_other
  have hle := p.parity_le
  rcases hg.own_top p with h | h <;> rcases hg.own_top p.other with h' | h' <;> omega

theorem clock_mono :
    g.Valid C secrets sharedSecret (clock + 1) :=
  { hg with
    drawn := fun i hi => by
      obtain ⟨j, hj, heq⟩ := hg.drawn i hi
      exact ⟨j, by omega, heq⟩ }

theorem chain_eq {e} (h0 : e ≠ 0) (he : e ≤ g.top) :
    g.chain e = (C.kdfRk (g.root (e - 1)) (C.dh (g.keys e) (g.pub C (e - 1)))).2 := by
  have h := hg.derives (e - 1) (by omega)
  rw [show e - 1 + 1 = e by omega] at h
  rw [h]

theorem root_eq {i} (hi : i + 1 ≤ g.top) :
    g.root (i + 1) = (C.kdfRk (g.root i) (C.dh (g.keys (i + 1)) (g.pub C i))).1 := by
  rw [hg.derives i hi]

end

variable (hC : Ideal C sharedSecret) (hg : g.Valid C secrets sharedSecret clock)
include hC hg

theorem root_injective : ∀ {i j}, i ≤ g.top → j ≤ g.top → g.root i = g.root j → i = j
  | 0, 0, _, _, _ => rfl
  | 0, j + 1, _, hj, h => by
    rw [hg.root_zero, hg.root_eq hj] at h
    exact absurd h (hC.shared_ne_root _ _)
  | i + 1, 0, hi, _, h => by
    rw [hg.root_zero, hg.root_eq hi] at h
    exact absurd h.symm (hC.shared_ne_root _ _)
  | i + 1, j + 1, hi, hj, h => by
    rw [hg.root_eq hi, hg.root_eq hj] at h
    have hij := root_injective (by omega) (by omega) (hC.root_inj _ _ _ _ h).1
    omega

theorem messageKey_injective {e n m} (h0 : e ≠ 0) (he : e ≤ g.top) (hne : n ≠ m) :
    messageKey C (g.chain e) n ≠ messageKey C (g.chain e) m := by
  rw [hg.chain_eq h0 he]
  exact hC.messageKey_ne hne

/-- Both sides derive the same chain: the receiver from its own key and the sender's public key. -/
theorem derives_receiver {i} (hi : i < g.top) :
    C.kdfRk (g.root i) (C.dh (g.keys i) (g.pub C (i + 1))) = (g.root (i + 1), g.chain (i + 1)) := by
  rw [← hg.derives i hi, pub, hC.dh_comm]
  rfl

end Valid

end Transcript

/-! ### The buffer of a party -/

/-- The party has passed the first `bound e` messages of each chain `e` of its peer: the messages in
`got` were delivered, the keys of all others are buffered, and nothing else is. -/
structure Buffered (C : RatchetCrypto Secret Key Ct) (g : Transcript Secret Key) (p : Party)
    (bound : ℕ → ℕ) (m : Map (Pub × ℕ) Key) (got : Set (Pub × ℕ)) : Prop where
  lookup : ∀ e n, PeerChain p e → n < bound e → (g.pub C e, n) ∉ got →
    m.lookup (g.pub C e, n) = some (messageKey C (g.chain e) n)
  only : ∀ x, x ∈ m → ∃ e n, PeerChain p e ∧ n < bound e ∧ x = (g.pub C e, n) ∧ x ∉ got
  passed : ∀ x ∈ got, ∃ e n, PeerChain p e ∧ n < bound e ∧ x = (g.pub C e, n)

namespace Buffered

variable {secrets : ℕ → Secret} {sharedSecret : Key} {clock : ℕ} {g : Transcript Secret Key}
  {p : Party} {bound : ℕ → ℕ} {m : Map (Pub × ℕ) Key} {got : Set (Pub × ℕ)} {e n : ℕ}

/-- A position of a chain that is not passed is neither buffered nor delivered. -/
theorem not_passed (hg : g.Valid C secrets sharedSecret clock) (hb : ∀ e, bound e ≠ 0 → e ≤ g.top)
    {e' n'} (he : e ≤ g.top) (hn : bound e ≤ n) (hn' : n' < bound e') :
    (g.pub C e, n) ≠ (g.pub C e', n') := by
  intro h
  obtain ⟨hpub, rfl⟩ := Prod.mk.inj h
  obtain rfl := hg.pub_inj e he e' (hb e' (by omega)) hpub
  omega

variable (h : Buffered C g p bound m got)
include h

section

variable (hg : g.Valid C secrets sharedSecret clock) (hb : ∀ e, bound e ≠ 0 → e ≤ g.top)
include hg hb

theorem notMem_got (he : e ≤ g.top) (hn : bound e ≤ n) : (g.pub C e, n) ∉ got := by
  intro hx
  obtain ⟨e', n', -, hn', heq⟩ := h.passed _ hx
  exact not_passed hg hb he hn hn' heq

theorem notMem (he : e ≤ g.top) (hn : bound e ≤ n) :
    (g.pub C e, n) ∉ m := by
  intro hx
  obtain ⟨e', n', -, hn', heq, -⟩ := h.only _ hx
  exact not_passed hg hb he hn hn' heq

theorem skip (hp : PeerChain p e) (he : e ≤ g.top) (hn : bound e ≤ n) {m'}
    (hm' : ∀ x, m'.lookup x = if x ∈ keysFrom (g.pub C e) (bound e) (n - bound e) then
      some (messageKey C (g.chain e) x.2) else m.lookup x) :
    Buffered C g p (update bound e n) m' got := by
  have hmem : ∀ k, (g.pub C e, k) ∈ keysFrom (g.pub C e) (bound e) (n - bound e) ↔
      bound e ≤ k ∧ k < n := fun k => by
    rw [mem_keysFrom]
    simp only [true_and]
    omega
  have hgrow : ∀ e' k, k < bound e' → k < update bound e n e' := fun e' k hk => by
    by_cases hee : e' = e
    · subst hee
      rw [update_self]
      omega
    · rwa [update_of_ne hee]
  refine ⟨fun e' k hp' hk hgot => ?_, fun x hx => ?_, fun x hx => ?_⟩
  · rw [hm']
    by_cases hin : (g.pub C e', k) ∈ keysFrom (g.pub C e) (bound e) (n - bound e)
    · have hpub := (mem_keysFrom.mp hin).1
      rw [if_pos hin]
      have hle : e' ≤ g.top := by
        by_cases hee : e' = e
        · omega
        · rw [update_of_ne hee] at hk
          exact hb e' (by omega)
      obtain rfl := hg.pub_inj e' hle e he hpub
      rfl
    · rw [if_neg hin]
      refine h.lookup e' k hp' ?_ hgot
      by_cases hee : e' = e
      · subst hee
        rw [update_self] at hk
        by_contra hge
        exact hin ((hmem k).mpr ⟨by omega, hk⟩)
      · rwa [update_of_ne hee] at hk
  · obtain ⟨v, hv⟩ := Map.mem_iff_lookup.mp hx
    rw [hm'] at hv
    split_ifs at hv with hin
    · obtain ⟨q, k⟩ := x
      obtain rfl : q = g.pub C e := (mem_keysFrom.mp hin).1
      obtain ⟨h1, h2⟩ := (hmem k).mp hin
      exact ⟨e, k, hp, by rwa [update_self], rfl, h.notMem_got hg hb he h1⟩
    · obtain ⟨e', k, hp', hk, rfl, hgot⟩ := h.only x (Map.mem_iff_lookup.mpr ⟨v, hv⟩)
      exact ⟨e', k, hp', hgrow e' k hk, rfl, hgot⟩
  · obtain ⟨e', k, hp', hk, rfl⟩ := h.passed x hx
    exact ⟨e', k, hp', hgrow e' k hk, rfl⟩

theorem advance (hp : PeerChain p e) (he : e ≤ g.top) :
    Buffered C g p (update bound e (bound e + 1)) m (insert (g.pub C e, bound e) got) := by
  have hgrow : ∀ e' k, k < bound e' → k < update bound e (bound e + 1) e' :=
    fun e' k hk => by
      by_cases hee : e' = e
      · subst hee
        rw [update_self]
        omega
      · rwa [update_of_ne hee]
  refine ⟨fun e' k hp' hk hgot => ?_, fun x hx => ?_, fun x hx => ?_⟩
  · rw [Set.mem_insert_iff, not_or] at hgot
    refine h.lookup e' k hp' ?_ hgot.2
    by_cases hee : e' = e
    · subst hee
      rw [update_self] at hk
      have hne : k ≠ bound e' := fun hk' => hgot.1 (by rw [hk'])
      omega
    · rwa [update_of_ne hee] at hk
  · obtain ⟨e', k, hp', hk, rfl, hgot⟩ := h.only x hx
    refine ⟨e', k, hp', hgrow e' k hk, rfl, fun hin => ?_⟩
    rcases Set.mem_insert_iff.mp hin with heq | hin
    · exact not_passed hg hb he le_rfl hk heq.symm
    · exact hgot hin
  · rcases Set.mem_insert_iff.mp hx with rfl | hx
    · exact ⟨e, bound e, hp, by rw [update_self]; omega, rfl⟩
    · obtain ⟨e', k, hp', hk, rfl⟩ := h.passed x hx
      exact ⟨e', k, hp', hgrow e' k hk, rfl⟩

end

theorem take {x} (hx : x ∈ m) : Buffered C g p bound (m.erase x) (insert x got) := by
  refine ⟨fun e n hp hn hgot => ?_, fun y hy => ?_, fun y hy => ?_⟩
  · rw [Set.mem_insert_iff, not_or] at hgot
    rw [Map.lookup_erase_ite, if_neg hgot.1]
    exact h.lookup e n hp hn hgot.2
  · obtain ⟨v, hv⟩ := Map.mem_iff_lookup.mp hy
    rw [Map.lookup_erase_ite] at hv
    split_ifs at hv with hyx
    obtain ⟨e, n, hp, hn, rfl, hgot⟩ := h.only y (Map.mem_iff_lookup.mpr ⟨v, hv⟩)
    refine ⟨e, n, hp, hn, rfl, fun hin => ?_⟩
    rcases Set.mem_insert_iff.mp hin with heq | hin
    · exact hyx heq
    · exact hgot hin
  · rcases Set.mem_insert_iff.mp hy with rfl | hy
    · obtain ⟨e, n, hp, hn, heq, -⟩ := h.only y hx
      exact ⟨e, n, hp, hn, heq⟩
    · exact h.passed y hy

end Buffered

/-! ### Skipping with room -/

namespace RatchetState

variable {s : RatchetState Secret Key} {upto : ℕ}

/-- Skipping where there is room: every skipped key enters and none leaves. -/
theorem skipMessageKeys_room {ck dhr} (h : InSync s) (hck : s.ckr = some ck)
    (hdhr : s.dhr = some dhr) (hle : s.nr ≤ upto) (hmax : upto - s.nr ≤ maxSkip)
    (hroom : s.skippedOrder.length + (upto - s.nr) ≤ maxSkippedTotal)
    (hnew : ∀ x ∈ keysFrom dhr s.nr (upto - s.nr), x ∉ s.skipped) :
    ∃ m q, s.skipMessageKeys C upto = .ok { s with
        skipped := m, skippedOrder := q, nr := upto, ckr := some (chainKey C ck (upto - s.nr)) } ∧
      Listed m q ∧ q.length = s.skippedOrder.length + (upto - s.nr) ∧
      ∀ x, m.lookup x = if x ∈ keysFrom dhr s.nr (upto - s.nr) then
        some (messageKey C ck (x.2 - s.nr)) else s.skipped.lookup x := by
  have hlen := length_keysFrom dhr s.nr (upto - s.nr)
  have hfresh : Fresh maxSkippedTotal s.skippedOrder (keysFrom dhr s.nr (upto - s.nr)) := by
    intro j k hj hk
    have hmem := hnew k (List.mem_of_getElem? hj)
    exact hmem ((h.listed.mem k).mp (List.mem_of_mem_drop hk))
  obtain ⟨m, q, hrun, hl, hq, hnewk, hold⟩ := skipLoop_spec (C := C) dhr ck h.listed h.bounded
    (k := upto - s.nr) (by omega) hfresh
  have hq' : q = s.skippedOrder ++ keysFrom dhr s.nr (upto - s.nr) := by
    rw [hq, foldl_push h.bounded (by omega), hlen,
      show s.skippedOrder.length + (upto - s.nr) - maxSkippedTotal = 0 by omega, List.drop_zero]
  refine ⟨m, q, ?_, hl, by rw [hq', List.length_append, hlen], fun x => ?_⟩
  · unfold skipMessageKeys
    simp only [hck, hdhr]
    rw [if_neg (by omega), if_neg (by omega), hrun]
    rw [show s.nr + (upto - s.nr) = upto by omega, hdhr]
  · split_ifs with hin
    · obtain ⟨y, n⟩ := x
      obtain ⟨rfl, h1, h2⟩ := mem_keysFrom.mp hin
      have hval := hnewk (n - s.nr) (by simp only at h1 h2; omega)
      rwa [show s.nr + (n - s.nr) = n by simp only at h1; omega] at hval
    · by_cases hxq : x ∈ q
      · exact hold x hxq hin
      · have hxm : x ∉ m := fun hm => hxq ((hl.mem x).mpr hm)
        have hxs : x ∉ s.skipped := fun hm => hxq (by
          rw [hq']
          exact List.mem_append_left _ ((h.listed.mem x).mpr hm))
        rw [Finmap.lookup_eq_none.mpr hxm, Finmap.lookup_eq_none.mpr hxs]

theorem skipMessageKeys_buffered {secrets sharedSecret clock g p bound got e}
    (hg : g.Valid C secrets sharedSecret clock) (hb : ∀ e, bound e ≠ 0 → e ≤ g.top) (h : InSync s)
    (hbuf : Buffered C g p bound s.skipped got) (hp : PeerChain p e) (he : e ≤ g.top)
    (hnr : bound e = s.nr) (hck : s.ckr = some (chainKey C (g.chain e) s.nr))
    (hdhr : s.dhr = some (g.pub C e)) (hle : s.nr ≤ upto) (hmax : upto - s.nr ≤ maxSkip)
    (hroom : s.skippedOrder.length + (upto - s.nr) ≤ maxSkippedTotal) :
    ∃ m q, s.skipMessageKeys C upto = .ok { s with
        skipped := m, skippedOrder := q, nr := upto, ckr := some (chainKey C (g.chain e) upto) } ∧
      Listed m q ∧ q.length = s.skippedOrder.length + (upto - s.nr) ∧
      Buffered C g p (update bound e upto) m got := by
  have hnew : ∀ x ∈ keysFrom (g.pub C e) s.nr (upto - s.nr), x ∉ s.skipped := by
    rintro ⟨y, n⟩ hx
    obtain ⟨rfl, h1, -⟩ := mem_keysFrom.mp hx
    exact hbuf.notMem hg hb he (by rw [hnr]; exact h1)
  obtain ⟨m, q, hrun, hl, hlen, hlook⟩ :=
    skipMessageKeys_room h hck hdhr hle hmax hroom hnew
  rw [chainKey_add, show s.nr + (upto - s.nr) = upto by omega] at hrun
  refine ⟨m, q, hrun, hl, hlen, hbuf.skip hg hb hp he (by omega) fun x => ?_⟩
  rw [hlook, hnr]
  split_ifs with hin
  · have h1 := (mem_keysFrom.mp hin).2.1
    rw [messageKey_chainKey, show s.nr + (x.2 - s.nr) = x.2 by omega]
  · rfl

/-! ### Skipping whatever the buffer -/

theorem skipLoop_frame (dhr) : ∀ (k : ℕ) (ck : Key) (s : RatchetState Secret Key),
    (skipLoop C dhr k ck s).1 = chainKey C ck k ∧ (skipLoop C dhr k ck s).2.rk = s.rk ∧
      (skipLoop C dhr k ck s).2.dhsSecret = s.dhsSecret
  | 0, _, _ => ⟨rfl, rfl, rfl⟩
  | k + 1, ck, s => by
    obtain ⟨h1, h2, h3⟩ := skipLoop_frame dhr k (C.kdfCk ck).1 (skipOne C dhr ck s)
    exact ⟨h1, h2, h3⟩

theorem skipMessageKeys_frame {s'} (hok : s.skipMessageKeys C upto = .ok s') :
    s'.rk = s.rk ∧ s'.dhsSecret = s.dhsSecret ∧
      s'.ckr = s.ckr.map fun ck => chainKey C ck (upto - s.nr) := by
  unfold skipMessageKeys at hok
  cases hck : s.ckr with
  | none =>
    simp only [hck, Except.ok.injEq] at hok
    subst hok
    exact ⟨rfl, rfl, hck⟩
  | some ck =>
    simp only [hck] at hok
    cases hdhr : s.dhr with
    | none =>
      simp only [hdhr] at hok
      split_ifs at hok with hlt
      cases hok
      exact ⟨rfl, rfl, by rw [hck, show upto - s.nr = 0 by omega]; rfl⟩
    | some dhr =>
      simp only [hdhr] at hok
      obtain ⟨h1, h2, h3⟩ := skipLoop_frame (C := C) dhr (upto - s.nr) ck s
      split_ifs at hok with hlt
      · cases hok
        exact ⟨rfl, rfl, by rw [hck, show upto - s.nr = 0 by omega]; rfl⟩
      · cases hok
        exact ⟨h2, h3, congrArg some h1⟩

end RatchetState

end MeshTalk.Ratchet
