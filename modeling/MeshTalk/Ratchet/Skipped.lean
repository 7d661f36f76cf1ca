import MeshTalk.Ratchet.State

/-! # The buffer of skipped keys

The map of skipped message keys and the queue that orders them for eviction are changed apart from
each other. They stay in step as long as no decryption buffers a key that is still buffered
(`FreshSkips`), which a peer breaks by presenting a ratchet key again that it used before. -/

namespace MeshTalk.Ratchet

open Lib List

variable {Secret Key Ct : Type} (C : RatchetCrypto Secret Key Ct)

/-! ### Chains -/

def chainKey (ck : Key) : ℕ → Key
  | 0 => ck
  | k + 1 => chainKey (C.kdfCk ck).1 k

def messageKey (ck : Key) (k : ℕ) : Key := (C.kdfCk (chainKey C ck k)).2

variable {C} in
theorem chainKey_add (ck) : ∀ a b : ℕ, chainKey C (chainKey C ck a) b = chainKey C ck (a + b)
  | 0, b => by rw [Nat.zero_add, chainKey]
  | a + 1, b => by
    rw [chainKey, chainKey_add _ a b, show a + 1 + b = a + b + 1 by omega, chainKey]

variable {C} in
theorem chainKey_succ (ck k) : chainKey C ck (k + 1) = (C.kdfCk (chainKey C ck k)).1 := by
  rw [← chainKey_add, chainKey, chainKey]

def keysFrom (dhr : Pub) (nr k : ℕ) : List (Pub × ℕ) := (List.range k).map fun i => (dhr, nr + i)

theorem length_keysFrom (dhr nr k) : (keysFrom dhr nr k).length = k := by
  rw [keysFrom, length_map, length_range]

theorem mem_keysFrom {dhr nr k x} : x ∈ keysFrom dhr nr k ↔
    x.1 = dhr ∧ nr ≤ x.2 ∧ x.2 < nr + k := by
  obtain ⟨p, n⟩ := x
  simp only [keysFrom, mem_map, mem_range, Prod.mk.injEq]
  constructor
  · rintro ⟨i, hi, rfl, rfl⟩
    exact ⟨rfl, by omega, by omega⟩
  · rintro ⟨rfl, h1, h2⟩
    exact ⟨n - nr, by omega, rfl, by omega⟩

theorem keysFrom_succ (dhr nr k) :
    keysFrom dhr nr (k + 1) = (dhr, nr) :: keysFrom dhr (nr + 1) k := by
  rw [keysFrom, range_succ_eq_map, map_cons, map_map]
  simp only [keysFrom, Nat.add_zero, cons.injEq, true_and]
  refine map_congr_left fun i _ => ?_
  simp only [Function.comp, Prod.mk.injEq, true_and]
  omega

theorem nodup_keysFrom (dhr nr k) : (keysFrom dhr nr k).Nodup := by
  refine Nodup.map (fun i j h => ?_) nodup_range
  have := congrArg Prod.snd h
  simp only at this
  omega

/-! ### Buffering -/

namespace RatchetState

variable {C}

/-- **Buffering a run of fresh keys**: all of them enter, the oldest above the capacity leave, and
every other key stays what it was. -/
theorem skipLoop_spec (dhr) : ∀ {k} (ck : Key) {s},
    Listed s.skipped s.skippedOrder → s.skippedOrder.length ≤ maxSkippedTotal →
    k ≤ maxSkippedTotal → Fresh maxSkippedTotal s.skippedOrder (keysFrom dhr s.nr k) →
    ∃ m q, skipLoop C dhr k ck s =
        (chainKey C ck k, { s with skipped := m, skippedOrder := q, nr := s.nr + k }) ∧
      Listed m q ∧ q = (keysFrom dhr s.nr k).foldl (push maxSkippedTotal) s.skippedOrder ∧
      (∀ i < k, m.lookup (dhr, s.nr + i) = some (messageKey C ck i)) ∧
      ∀ x ∈ q, x ∉ keysFrom dhr s.nr k → m.lookup x = s.skipped.lookup x
  | 0, ck, s, hl, _, _, _ =>
    ⟨s.skipped, s.skippedOrder, rfl, hl, rfl, fun i hi => absurd hi (by omega), fun _ _ _ => rfl⟩
  | k + 1, ck, s, hl, hlen, hk, hf => by
    rw [keysFrom_succ] at hf ⊢
    have hnot : (dhr, s.nr) ∉ keysFrom dhr (s.nr + 1) k := fun h => by
      have hle : s.nr + 1 ≤ s.nr := (mem_keysFrom.mp h).2.1
      omega
    have hlenk := length_keysFrom dhr (s.nr + 1) k
    obtain ⟨hq, hl1, hlook⟩ := hl.push maxSkippedTotal (hf.head hlen) (C.kdfCk ck).2
    have hnr : (skipOne C dhr ck s).nr = s.nr + 1 := rfl
    have hone : (skipOne C dhr ck s).skippedOrder =
        push maxSkippedTotal s.skippedOrder (dhr, s.nr) := hq
    have hlen1 : (skipOne C dhr ck s).skippedOrder.length ≤ maxSkippedTotal := by
      rw [hone]
      exact length_push_le _
    have hl1' : Listed (skipOne C dhr ck s).skipped (skipOne C dhr ck s).skippedOrder := by
      rw [hone]
      exact hl1
    have hlook1 : ∀ x ∈ push maxSkippedTotal s.skippedOrder (dhr, s.nr),
        (skipOne C dhr ck s).skipped.lookup x =
          if x = (dhr, s.nr) then some (C.kdfCk ck).2 else s.skipped.lookup x := hlook
    have hf1 : Fresh maxSkippedTotal (skipOne C dhr ck s).skippedOrder
        (keysFrom dhr (skipOne C dhr ck s).nr k) := by
      rw [hone, hnr]
      exact hf.tail hnot hlen (by omega)
    obtain ⟨m, q, hrun, hlm, hqm, hnew, hold⟩ :=
      skipLoop_spec dhr (C.kdfCk ck).1 hl1' hlen1 (by omega) hf1
    rw [hnr] at hrun hqm hnew hold
    rw [hone] at hqm
    -- the first key outlives the rest of the run, which is shorter than the capacity
    have hfirst : (dhr, s.nr) ∈ q := by
      rw [hqm, ← foldl_cons]
      exact mem_foldl_push hlen (by rw [length_cons]; omega) mem_cons_self
    have hpushed : ∀ x ∈ q, x ∉ keysFrom dhr (s.nr + 1) k →
        x ∈ push maxSkippedTotal s.skippedOrder (dhr, s.nr) := fun x hx hne => by
      rw [hqm] at hx
      exact (mem_of_mem_foldl_push (length_push_le _) (by omega) hx).resolve_right hne
    refine ⟨m, q, ?_, hlm, ?_, fun i hi => ?_, fun x hx hne => ?_⟩
    · rw [skipLoop, hrun, chainKey, show s.nr + (k + 1) = s.nr + 1 + k by omega]
      rfl
    · rw [hqm, foldl_cons]
    · cases i with
      | zero =>
        rw [Nat.add_zero, hold _ hfirst hnot, hlook1 _ (hpushed _ hfirst hnot), if_pos rfl]
        rfl
      | succ i =>
        rw [show s.nr + (i + 1) = s.nr + 1 + i by omega, hnew i (by omega)]
        rfl
    · obtain ⟨hne0, hnek⟩ := not_or.mp fun h => hne (mem_cons.mpr h)
      rw [hold x hx hnek, hlook1 x (hpushed x hx hnek), if_neg hne0]

/-! ### A session's buffer -/

/-- The queue lists exactly the keys of the map, each once and at most `maxSkippedTotal`; and a
receiving chain has a ratchet key. -/
structure InSync (s : RatchetState Secret Key) : Prop where
  listed : Listed s.skipped s.skippedOrder
  bounded : s.skippedOrder.length ≤ maxSkippedTotal
  peer : s.ckr ≠ none → s.dhr ≠ none

def skipKeys (s : RatchetState Secret Key) (upto : ℕ) : List (Pub × ℕ) :=
  match s.ckr, s.dhr with
  | some _, some dhr => keysFrom dhr s.nr (upto - s.nr)
  | _, _ => []

/-- The positions decrypting a header buffers, when its own key is not buffered. -/
def newKeys (s : RatchetState Secret Key) (header : Header) : List (Pub × ℕ) :=
  if s.dhr ≠ some header.ratchetPub then
    s.skipKeys header.pn ++ keysFrom header.ratchetPub 0 header.n
  else s.skipKeys header.n

/-- Decrypting the header buffers no key that is still buffered when its turn comes. -/
def FreshSkips (s : RatchetState Secret Key) (header : Header) : Prop :=
  (header.ratchetPub, header.n) ∉ s.skipped →
    Fresh maxSkippedTotal s.skippedOrder (s.newKeys header)

variable {s : RatchetState Secret Key} {upto : ℕ}

theorem mem_skipKeys {x} (hx : x ∈ s.skipKeys upto) : s.dhr = some x.1 := by
  unfold skipKeys at hx
  split at hx
  · rename_i hdhr
    rw [hdhr, (mem_keysFrom.mp hx).1]
  · simp at hx

theorem nodup_skipKeys (s : RatchetState Secret Key) (upto) : (s.skipKeys upto).Nodup := by
  unfold skipKeys
  split
  · exact nodup_keysFrom _ _ _
  · exact nodup_nil

theorem nodup_newKeys (s : RatchetState Secret Key) (header : Header) :
    (s.newKeys header).Nodup := by
  unfold newKeys
  split_ifs with hd
  · refine nodup_append.mpr ⟨nodup_skipKeys s _, nodup_keysFrom _ _ _, fun a ha b hb hab => ?_⟩
    -- the two runs belong to different ratchet keys
    rw [mem_skipKeys ha, hab, (mem_keysFrom.mp hb).1] at hd
    exact hd rfl
  · exact nodup_skipKeys s _

variable {s' : RatchetState Secret Key}

theorem skipMessageKeys_length (hok : s.skipMessageKeys C upto = .ok s') :
    (s.skipKeys upto).length ≤ maxSkip := by
  unfold skipMessageKeys at hok
  unfold skipKeys
  split
  · rename_i hck hdhr
    simp only [hck, hdhr] at hok
    rw [length_keysFrom]
    split_ifs at hok with h1 h2 <;> omega
  · simp

/-- Skipping keeps the buffer in step and pushes the positions it skips. -/
theorem skipMessageKeys_spec (h : InSync s) (hok : s.skipMessageKeys C upto = .ok s')
    (hf : Fresh maxSkippedTotal s.skippedOrder (s.skipKeys upto)) :
    InSync s' ∧ (s.skipKeys upto).length ≤ maxSkip ∧
      s'.skippedOrder = (s.skipKeys upto).foldl (push maxSkippedTotal) s.skippedOrder ∧
      (∀ x ∈ s'.skippedOrder, x ∉ s.skipKeys upto → s'.skipped.lookup x = s.skipped.lookup x) ∧
      s'.dhr = s.dhr ∧ (s.ckr ≠ none → s'.ckr ≠ none) := by
  unfold skipMessageKeys at hok
  cases hck : s.ckr with
  | none =>
    have hnone : s.skipKeys upto = [] := by simp [skipKeys, hck]
    simp only [hck, Except.ok.injEq] at hok
    subst hok
    rw [hnone]
    exact ⟨h, by simp, rfl, fun _ _ _ => rfl, rfl, fun hc => absurd rfl hc⟩
  | some ckr =>
    simp only [hck] at hok
    cases hdhr : s.dhr with
    | none => exact absurd hdhr (h.peer (by rw [hck]; simp))
    | some dhr =>
      have hkeys : s.skipKeys upto = keysFrom dhr s.nr (upto - s.nr) :=
        by simp [skipKeys, hck, hdhr]
      have hlen := length_keysFrom dhr s.nr (upto - s.nr)
      simp only [hdhr] at hok
      rw [hkeys] at hf ⊢
      split_ifs at hok with hlt hmany
      · cases hok
        have hzero : upto - s.nr = 0 := by omega
        rw [hzero]
        exact ⟨h, by simp [keysFrom], rfl, fun _ _ _ => rfl, hdhr, fun _ => by rw [hck]; simp⟩
      · have hmax : maxSkip ≤ maxSkippedTotal := by decide
        obtain ⟨m, q, hrun, hl, hq, -, hold⟩ := skipLoop_spec (C := C) dhr ckr h.listed h.bounded
          (by omega) hf
        rw [hrun] at hok
        cases hok
        refine ⟨⟨hl, ?_, fun _ => by simp [hdhr]⟩, by omega, hq, hold, hdhr, fun _ => by simp⟩
        rw [hq, foldl_push h.bounded (by omega), length_drop, length_append]
        omega

theorem enterChain_spec {fresh header} (h : InSync s) (hok : s.enterChain C fresh header = .ok s')
    (hf : Fresh maxSkippedTotal s.skippedOrder (s.newKeys header)) :
    ∃ ks, s.newKeys header = ks ++ s'.skipKeys header.n ∧ InSync s' ∧ ks.length ≤ maxSkip ∧
      s'.skippedOrder = ks.foldl (push maxSkippedTotal) s.skippedOrder ∧
      ∀ x ∈ s'.skippedOrder, x ∉ ks → s'.skipped.lookup x = s.skipped.lookup x := by
  unfold enterChain at hok
  unfold newKeys at hf ⊢
  split_ifs at hok hf ⊢ with hd
  · cases hskip : s.skipMessageKeys C header.pn with
    | error err =>
      rw [hskip] at hok
      cases hok
    | ok s1 =>
      rw [hskip] at hok
      cases hok
      obtain ⟨h1, hlen, horder, hold, -, -⟩ := skipMessageKeys_spec h hskip hf.append_left
      exact ⟨s.skipKeys header.pn, rfl, ⟨h1.listed, h1.bounded, fun _ => by simp [dhRatchet]⟩, hlen,
        horder, hold⟩
  · cases hok
    exact ⟨[], rfl, h, by simp, rfl, fun _ _ _ => rfl⟩

/-- **One decryption.** A buffered key is removed from both; otherwise the keys the header skips
enter both and the oldest above the capacity leave both. -/
theorem ratchetDecrypt_spec {fresh header ct pt} (h : InSync s) (hf : FreshSkips s header)
    (hok : s.ratchetDecrypt C fresh header ct = (.ok pt, s')) :
    InSync s' ∧ ((header.ratchetPub, header.n) ∈ s.skipped →
        s'.skipped = s.skipped.erase (header.ratchetPub, header.n) ∧
        s'.skippedOrder = s.skippedOrder.erase (header.ratchetPub, header.n)) ∧
      ((header.ratchetPub, header.n) ∉ s.skipped →
        s'.skippedOrder = (s.skippedOrder ++ s.newKeys header).drop
          (s.skippedOrder.length + (s.newKeys header).length - maxSkippedTotal) ∧
        ∀ x ∈ s'.skippedOrder, x ∉ s.newKeys header →
          s'.skipped.lookup x = s.skipped.lookup x) := by
  cases hlook : s.skipped.lookup (header.ratchetPub, header.n) with
  | some key =>
    have hmem : (header.ratchetPub, header.n) ∈ s.skipped := Map.mem_iff_lookup.mpr ⟨key, hlook⟩
    rw [ratchetDecrypt_of_some hlook] at hok
    obtain ⟨-, rfl⟩ := Prod.mk.inj hok
    refine ⟨⟨h.listed.erase _, (length_filter_le _ _).trans h.bounded, h.peer⟩, fun _ => ⟨rfl, ?_⟩,
      fun hn => absurd hmem hn⟩
    rw [h.listed.nodup.erase_eq_filter]
    refine filter_congr fun k _ => ?_
    by_cases hk : k = (header.ratchetPub, header.n) <;> simp [hk]
  | none =>
    have hmem : (header.ratchetPub, header.n) ∉ s.skipped := fun hm => by
      obtain ⟨v, hv⟩ := Map.mem_iff_lookup.mp hm
      rw [hlook] at hv
      cases hv
    have hfresh := hf hmem
    have hnodup := nodup_newKeys s header
    obtain ⟨s1, s2, ckr, henter, hskip, hck, -, rfl⟩ := ratchetDecrypt_ok hlook hok
    obtain ⟨ks, hks, h1, hlen1, horder1, hold1⟩ := enterChain_spec h henter hfresh
    have hmax : maxSkip + maxSkip ≤ maxSkippedTotal := by decide
    rw [hks] at hfresh hnodup ⊢
    have hlen2 : (s1.skipKeys header.n).length ≤ maxSkip := skipMessageKeys_length hskip
    have hfresh2 : Fresh maxSkippedTotal s1.skippedOrder (s1.skipKeys header.n) := by
      rw [horder1]
      exact hfresh.append_right hnodup h.bounded (by omega)
    obtain ⟨h2, -, horder2, hold2, -, -⟩ := skipMessageKeys_spec h1 hskip hfresh2
    have horder : s2.skippedOrder =
        (ks ++ s1.skipKeys header.n).foldl (push maxSkippedTotal) s.skippedOrder := by
      rw [horder2, horder1, foldl_append]
    refine ⟨⟨h2.listed, h2.bounded, fun _ => ?_⟩, fun hm => absurd hm hmem, fun _ => ⟨?_, ?_⟩⟩
    · exact h2.peer (by rw [hck]; simp)
    · rw [horder, foldl_push h.bounded (by rw [length_append]; omega)]
    · intro x hx hnew
      obtain ⟨hnew1, hnew2⟩ := not_or.mp fun hm => hnew (mem_append.mpr hm)
      have hx1 : x ∈ s1.skippedOrder := by
        rw [horder2] at hx
        exact (mem_of_mem_foldl_push h1.bounded (by omega) hx).resolve_right hnew2
      exact (hold2 x hx hnew2).trans (hold1 x hx1 hnew1)

theorem ratchetEncrypt_buffer (s : RatchetState Secret Key) (pt) :
    (s.ratchetEncrypt C pt).2.skipped = s.skipped ∧
      (s.ratchetEncrypt C pt).2.skippedOrder = s.skippedOrder ∧
      (s.ratchetEncrypt C pt).2.ckr = s.ckr ∧ (s.ratchetEncrypt C pt).2.dhr = s.dhr := by
  unfold ratchetEncrypt
  cases s.cks with
  | none => exact ⟨rfl, rfl, rfl, rfl⟩
  | some cks =>
    dsimp only
    split <;> exact ⟨rfl, rfl, rfl, rfl⟩

end RatchetState

/-! ### Runs -/

open RatchetState

/-- The sessions reached from an initial one by encryptions and by successful decryptions of headers
the peer chooses, each of which meets the condition `P` on the session before it. -/
inductive Reached (P : RatchetState Secret Key → Header → Prop) : RatchetState Secret Key → Prop
  | alice (fresh : Secret) (sharedSecret : Key) (bobRatchetPub : Pub) :
      Reached P (initAlice C fresh sharedSecret bobRatchetPub)
  | bob (sharedSecret : Key) (bobRatchetSecret : Secret) :
      Reached P (initBob C sharedSecret bobRatchetSecret)
  | encrypt {s : RatchetState Secret Key} (pt : List UInt8) : Reached P s →
      Reached P (s.ratchetEncrypt C pt).2
  | decrypt {s s' : RatchetState Secret Key} {fresh : Secret} {header : Header} {ct : Ct}
      {pt : List UInt8} : Reached P s → P s header →
      s.ratchetDecrypt C fresh header ct = (.ok pt, s') → Reached P s'

variable {C}

theorem Reached.invariant {s} (h : Reached C FreshSkips s) : InSync s := by
  induction h with
  | alice => exact ⟨Listed.empty, Nat.zero_le _, fun hc => absurd rfl hc⟩
  | bob => exact ⟨Listed.empty, Nat.zero_le _, fun hc => absurd rfl hc⟩
  | @encrypt s pt _ ih =>
    obtain ⟨h1, h2, h3, h4⟩ := ratchetEncrypt_buffer (C := C) s pt
    refine ⟨?_, ?_, ?_⟩
    · rw [h1, h2]
      exact ih.listed
    · rw [h2]
      exact ih.bounded
    · rw [h3, h4]
      exact ih.peer
  | decrypt _ hf hok ih => exact (ratchetDecrypt_spec ih hf hok).1

/-- **The buffer stays in step where no buffered key is buffered again.** In every session reached
by steps that meet the condition the queue lists exactly the keys of the map, without repetition,
and both have at most `maxSkippedTotal` entries. A further such step that consumes an entry removes
exactly that entry from both, and one that evicts removes exactly the oldest from both. -/
theorem reached_inSync {s : RatchetState Secret Key} (h : Reached C FreshSkips s) :
    (s.skippedOrder.Nodup ∧ (∀ k, k ∈ s.skippedOrder ↔ k ∈ s.skipped) ∧
      s.skippedOrder.length ≤ maxSkippedTotal ∧ s.skipped.keys.card ≤ maxSkippedTotal) ∧
    ∀ (fresh : Secret) (header : Header) (ct : Ct) (pt : List UInt8) (s' : RatchetState Secret Key),
      FreshSkips s header → s.ratchetDecrypt C fresh header ct = (.ok pt, s') →
      ((header.ratchetPub, header.n) ∈ s.skipped →
        s'.skipped = s.skipped.erase (header.ratchetPub, header.n) ∧
        s'.skippedOrder = s.skippedOrder.erase (header.ratchetPub, header.n)) ∧
      ((header.ratchetPub, header.n) ∉ s.skipped →
        s'.skippedOrder = (s.skippedOrder ++ s.newKeys header).drop
          (s.skippedOrder.length + (s.newKeys header).length - maxSkippedTotal) ∧
        (∀ x, x ∈ s'.skipped ↔ x ∈ s'.skippedOrder) ∧
        ∀ x ∈ s'.skippedOrder, x ∉ s.newKeys header →
          s'.skipped.lookup x = s.skipped.lookup x) := by
  have hs := h.invariant
  refine ⟨⟨hs.listed.nodup, hs.listed.mem, hs.bounded, ?_⟩, fun fresh header ct pt s' hf hok => ?_⟩
  · rw [hs.listed.card]
    exact hs.bounded
  · obtain ⟨hs', hconsume, hskip⟩ := ratchetDecrypt_spec hs hf hok
    refine ⟨hconsume, fun hm => ?_⟩
    obtain ⟨horder, hold⟩ := hskip hm
    exact ⟨horder, fun x => (hs'.listed.mem x).symm, hold⟩

/-! ### A ratchet key presented again

The peer of a receiver with secret `100` sends message `2` under ratchet key `1`, one message under
ratchet key `2`, and then message `2` under ratchet key `1` again, sealing each with the key the
receiver derives for it. The receiver answers in between,
  so that the peer knows its ratchet keys. -/

/-- The receiver before the first message. -/
def replayStart : RatchetState ℕ SymKey := initBob symCrypto .shared 100

def replayHeader : ℕ → Header
  | 0 => ⟨1, 0, 2⟩
  | 1 => ⟨2, 3, 0⟩
  | _ => ⟨1, 1, 2⟩

def replayRoot : SymKey := .root (.root .shared (.dh 1 100)) (.dh 1 101)

def replayKey : ℕ → SymKey
  | 0 => .message (.nextChain (.nextChain (.chain .shared (.dh 1 100))))
  | 1 => .message (.chain replayRoot (.dh 2 101))
  | _ => .message (.nextChain (.nextChain (.chain
      (.root (.root replayRoot (.dh 2 101)) (.dh 2 102)) (.dh 1 102))))

def replayDecrypt (s : RatchetState ℕ SymKey) (i : ℕ) :
    Except RatchetError (List UInt8) × RatchetState ℕ SymKey :=
  s.ratchetDecrypt symCrypto (101 + i) (replayHeader i) (replayKey i, [], (replayHeader i).encode)

def replayFirst : RatchetState ℕ SymKey := (replayDecrypt replayStart 0).2

/-- The receiver after an answer, the second message and another answer. -/
def replaySecond : RatchetState ℕ SymKey :=
  ((replayDecrypt (replayFirst.ratchetEncrypt symCrypto []).2 1).2.ratchetEncrypt symCrypto []).2

def replayThird : RatchetState ℕ SymKey := (replayDecrypt replaySecond 2).2

theorem Reached.replay {P : RatchetState ℕ SymKey → Header → Prop} {s} (h : Reached symCrypto P s)
    (i) (hP : P s (replayHeader i)) (hok : (replayDecrypt s i).1 = .ok []) :
    Reached symCrypto P (replayDecrypt s i).2 :=
  .decrypt h hP (Prod.ext hok rfl)

theorem reached_inSync_sample :
    Reached symCrypto FreshSkips replayFirst ∧ replayFirst.skippedOrder.Nodup ∧
      replayFirst.skippedOrder.length = 2 := by
  have hstart : Reached symCrypto FreshSkips replayStart := .bob SymKey.shared 100
  have hfirst : Reached symCrypto FreshSkips replayFirst :=
    hstart.replay 0 (by unfold FreshSkips; decide) rfl
  exact ⟨hfirst, (reached_inSync hfirst).1.1, by decide⟩

/-- With the ratchet key presented again the queue lists positions twice. -/
theorem replayed_key_listed_twice : ∃ s, Reached symCrypto (fun _ _ => True) s ∧
    s.skippedOrder = [(1, 0), (1, 1), (1, 0), (1, 1)] ∧ s.skipped.keys.card = 2 ∧
    ¬ s.skippedOrder.Nodup := by
  have hstart : Reached symCrypto (fun _ _ => True) replayStart := .bob SymKey.shared 100
  have hfirst : Reached symCrypto (fun _ _ => True) replayFirst := hstart.replay 0 trivial rfl
  have hsecond : Reached symCrypto (fun _ _ => True) replaySecond :=
    .encrypt [] (.replay (.encrypt [] hfirst) 1 trivial rfl)
  have hthird : Reached symCrypto (fun _ _ => True) replayThird := hsecond.replay 2 trivial rfl
  exact ⟨replayThird, hthird, by decide, by decide, by decide⟩

end MeshTalk.Ratchet
