import MeshTalk.Ratchet.Transcript

/-! # Sessions that agree with a transcript

What a transcript determines of each party's session (`PartyAgrees`) and of each message (`SentAt`),
and what the two calls of the ratchet do to it. -/

namespace MeshTalk.Ratchet

open Lib RatchetState Function Transcript

variable {Secret Key Ct : Type}

/-! ### The invariant -/

/-- How far a party with current key `t` and receive counter `nr` has passed each chain: the
finished chains of its peer up to their ends, the current one up to `nr`. -/
def passed (g : Transcript Secret Key) (t nr : ℕ) (e : ℕ) : ℕ :=
  if e + 1 < t then g.sentIn e else if e + 1 = t then nr else 0

theorem passed_ne_zero {g : Transcript Secret Key} {t nr e} (h : passed g t nr e ≠ 0) : e < t := by
  unfold passed at h
  split_ifs at h <;> omega

theorem passed_current (g : Transcript Secret Key) {t nr e} (h : e + 1 = t) :
    passed g t nr e = nr := by
  rw [passed, if_neg (by omega), if_pos h]

/-- Session `s` is the one party `p` has by the transcript, the messages at `got` delivered to
it. -/
structure PartyAgrees (C : RatchetCrypto Secret Key Ct) (g : Transcript Secret Key) (p : Party)
    (s : RatchetState Secret Key) (got : Set (Pub × ℕ)) : Prop where
  secret : s.dhsSecret = g.keys (g.own p)
  ownPub : s.dhsPublic = g.pub C (g.own p)
  root : s.rk = g.root (g.own p)
  ns : s.ns = g.sentIn (g.own p)
  pn : s.pn = g.sentIn (g.own p - 2)
  unpaired : g.own p = 0 → s.cks = none ∧ s.dhr = none
  paired : g.own p ≠ 0 →
    s.cks = some (chainKey C (g.chain (g.own p)) s.ns) ∧ s.dhr = some (g.pub C (g.own p - 1))
  silent : g.own p ≤ 1 → s.ckr = none ∧ s.nr = 0
  receiving : 2 ≤ g.own p →
    s.ckr = some (chainKey C (g.chain (g.own p - 1)) s.nr) ∧ s.nr ≤ g.sentIn (g.own p - 1)
  inSync : InSync s
  buffered : Buffered C g p (passed g (g.own p) s.nr) s.skipped got

/-- Message `m` was sent as number `n` of chain `e`. -/
structure SentAt (C : RatchetCrypto Secret Key Ct) (g : Transcript Secret Key) (m : Message Ct)
    (e n : ℕ) : Prop where
  ne_zero : e ≠ 0
  le_own : e ≤ g.own m.sender
  parity : e % 2 = m.sender.parity
  lt : n < g.sentIn e
  header : m.header = ⟨g.pub C e, g.sentIn (e - 2), n⟩
  sealed : C.aeadEncrypt (messageKey C (g.chain e) n) m.plaintext m.header.encode = some m.ct

variable {C : RatchetCrypto Secret Key Ct} {secrets : ℕ → Secret} {sharedSecret : Key} {clock : ℕ}
  {g : Transcript Secret Key} {p : Party} {s : RatchetState Secret Key} {got : Set (Pub × ℕ)}
  {m : Message Ct} {e n : ℕ}

theorem SentAt.position_eq (h : SentAt C g m e n) : m.position = (g.pub C e, n) := by
  rw [Message.position, h.header]

theorem SentAt.peerChain (h : SentAt C g m e n) : PeerChain m.sender.other e := by
  have hpar := m.sender.parity_other
  have hle := m.sender.parity_le
  have heq := h.parity
  exact ⟨h.ne_zero, by omega⟩

/-! ### Transcripts that grow -/

structure Transcript.Continues (g g' : Transcript Secret Key) (p : Party) : Prop where
  keys : ∀ i ≤ g.top, g'.keys i = g.keys i
  root : ∀ i ≤ g.top, g'.root i = g.root i
  chain : ∀ i ≤ g.top, g'.chain i = g.chain i
  sentIn : g'.sentIn = g.sentIn
  own : g.own p ≤ g'.own p
  other : g'.own p.other = g.own p.other

namespace Transcript.Continues

variable {g' : Transcript Secret Key}

theorem refl (g : Transcript Secret Key) (p) : g.Continues g p :=
  ⟨fun _ _ => rfl, fun _ _ => rfl, fun _ _ => rfl, rfl, le_rfl, rfl⟩

section

variable (h : g.Continues g' p)
include h

theorem pub {i} (hi : i ≤ g.top) : g'.pub C i = g.pub C i := by
  unfold Transcript.pub
  rw [h.keys i hi]

theorem buffered {q bound m} (hb : ∀ e, bound e ≠ 0 → e ≤ g.top)
    (hbuf : Buffered C g q bound m got) : Buffered C g' q bound m got := by
  have hle : ∀ {e n}, n < bound e → e ≤ g.top := fun hn => hb _ (by omega)
  refine ⟨fun e n hp hn hgot => ?_, fun x hx => ?_, fun x hx => ?_⟩
  · rw [h.pub (hle hn)] at hgot ⊢
    rw [h.chain e (hle hn)]
    exact hbuf.lookup e n hp hn hgot
  · obtain ⟨e, n, hp, hn, rfl, hgot⟩ := hbuf.only x hx
    exact ⟨e, n, hp, hn, by rw [h.pub (hle hn)], hgot⟩
  · obtain ⟨e, n, hp, hn, rfl⟩ := hbuf.passed x hx
    exact ⟨e, n, hp, hn, by rw [h.pub (hle hn)]⟩

theorem sentAt (hg : g.Valid C secrets sharedSecret clock)
    (hm : SentAt C g m e n) : SentAt C g' m e n := by
  have htop := hm.le_own.trans (hg.own_le_top m.sender)
  refine ⟨hm.ne_zero, hm.le_own.trans ?_, hm.parity, ?_, ?_, ?_⟩
  · rcases p.eq_or_eq_other m.sender with hs | hs
    · rw [hs]
      exact h.own
    · rw [hs, h.other]
  · rw [h.sentIn]
    exact hm.lt
  · rw [h.pub htop, h.sentIn]
    exact hm.header
  · rw [h.chain e htop]
    exact hm.sealed

theorem partyAgrees_other (hg : g.Valid C secrets sharedSecret clock)
    (hs : PartyAgrees C g p.other s got) : PartyAgrees C g' p.other s got := by
  have htop := hg.own_le_top p.other
  have hpassed : ∀ t nr, passed g' t nr = passed g t nr := fun t nr => by
    funext e
    rw [passed, passed, h.sentIn]
  have hbuf := h.buffered (fun e he => (passed_ne_zero he).le.trans htop) hs.buffered
  constructor
  case secret => rw [h.other, h.keys _ htop, hs.secret]
  case ownPub => rw [h.other, h.pub htop, hs.ownPub]
  case root => rw [h.other, h.root _ htop, hs.root]
  case ns => rw [h.other, h.sentIn, hs.ns]
  case pn => rw [h.other, h.sentIn, hs.pn]
  case unpaired =>
    rw [h.other]
    exact hs.unpaired
  case paired =>
    rw [h.other, h.chain _ htop, h.pub (by omega)]
    exact hs.paired
  case silent =>
    rw [h.other]
    exact hs.silent
  case receiving =>
    rw [h.other, h.chain _ (by omega), h.sentIn]
    exact hs.receiving
  case inSync => exact hs.inSync
  case buffered =>
    rw [h.other, hpassed]
    exact hbuf

end

end Transcript.Continues

def Transcript.answer (C : RatchetCrypto Secret Key Ct) (g : Transcript Secret Key) (p : Party)
    (fresh : Secret) : Transcript Secret Key where
  keys := Function.update g.keys (g.top + 1) fresh
  root := Function.update g.root (g.top + 1) (C.kdfRk (g.root g.top) (C.dh fresh (g.pub C g.top))).1
  chain := Function.update g.chain (g.top + 1)
    (C.kdfRk (g.root g.top) (C.dh fresh (g.pub C g.top))).2
  sentIn := g.sentIn
  top := g.top + 1
  own := Function.update g.own p (g.top + 1)

namespace Transcript

theorem answer_continues (hg : g.Valid C secrets sharedSecret clock) (p fresh) :
    g.Continues (g.answer C p fresh) p where
  keys i hi := update_of_ne (by omega) _ _
  root i hi := update_of_ne (by omega) _ _
  chain i hi := update_of_ne (by omega) _ _
  sentIn := rfl
  own := by
    have hle := hg.own_le_top p
    show g.own p ≤ update g.own p (g.top + 1) p
    rw [update_self]
    omega
  other := update_of_ne p.other_ne _ _

theorem answer_own (p fresh) : (g.answer C p fresh).own p = g.top + 1 :=
  update_self _ _ _

theorem answer_valid (hg : g.Valid C secrets sharedSecret clock) (hp : g.own p + 1 = g.top)
    (hdraw : FreshDraw C secrets clock) :
    (g.answer C p (secrets clock)).Valid C secrets sharedSecret (clock + 1) := by
  have hcont := answer_continues hg p (secrets clock)
  have hother : g.own p.other = g.top := by
    rcases hg.own_other p with h | h <;> rcases hg.own_top p.other with h' | h' <;> omega
  have hnew : (g.answer C p (secrets clock)).pub C (g.top + 1) = C.publicKey (secrets clock) := by
    show C.publicKey (update g.keys (g.top + 1) (secrets clock) (g.top + 1)) = _
    rw [update_self]
  -- the new key is none of those drawn before
  have hfresh : ∀ i ≤ g.top, g.pub C i ≠ C.publicKey (secrets clock) := fun i hi heq => by
    obtain ⟨j, hj, hkey⟩ := hg.drawn i hi
    rw [pub, hkey] at heq
    exact hdraw j hj heq
  constructor
  case own_parity =>
    intro q
    rcases p.eq_or_eq_other q with rfl | rfl
    · rw [answer_own, ← hg.own_parity q]
      omega
    · rw [hcont.other]
      exact hg.own_parity _
  case own_top =>
    intro q
    rcases p.eq_or_eq_other q with rfl | rfl
    · exact Or.inl (answer_own q _)
    · right
      rw [hcont.other, hother]
      rfl
  case root_zero => rw [hcont.root 0 (Nat.zero_le _), hg.root_zero]
  case derives =>
    intro i hi
    have hi' : i ≤ g.top := Nat.lt_succ_iff.mp hi
    rw [hcont.root i hi', hcont.pub hi']
    rcases Nat.lt_or_eq_of_le hi' with hlt | rfl
    · rw [hcont.keys _ hlt, hcont.root _ hlt, hcont.chain _ hlt]
      exact hg.derives i hlt
    · show C.kdfRk _ (C.dh (update g.keys (g.top + 1) (secrets clock) (g.top + 1)) _) =
        (update g.root (g.top + 1) _ (g.top + 1),
          update g.chain (g.top + 1) _ (g.top + 1))
      rw [update_self, update_self, update_self]
  case drawn =>
    intro i hi
    rcases Nat.lt_or_eq_of_le hi with hlt | rfl
    · obtain ⟨j, hj, hkey⟩ := hg.drawn i (Nat.lt_succ_iff.mp hlt)
      exact ⟨j, by omega, by rw [hcont.keys i (Nat.lt_succ_iff.mp hlt), hkey]⟩
    · exact ⟨clock, by omega, update_self _ _ _⟩
  case pub_inj =>
    intro i hi j hj heq
    rcases Nat.lt_or_eq_of_le hi with hi' | rfl <;> rcases Nat.lt_or_eq_of_le hj with hj' | rfl
    · rw [hcont.pub (Nat.lt_succ_iff.mp hi'), hcont.pub (Nat.lt_succ_iff.mp hj')] at heq
      exact hg.pub_inj i (Nat.lt_succ_iff.mp hi') j (Nat.lt_succ_iff.mp hj') heq
    · rw [hcont.pub (Nat.lt_succ_iff.mp hi')] at heq
      exact absurd (heq.trans hnew) (hfresh i (Nat.lt_succ_iff.mp hi'))
    · rw [hcont.pub (Nat.lt_succ_iff.mp hj')] at heq
      exact absurd (heq.symm.trans hnew) (hfresh j (Nat.lt_succ_iff.mp hj'))
    · rfl
  case sentIn_lt => exact hg.sentIn_lt
  case sentIn_zero => exact hg.sentIn_zero
  case sentIn_above => exact fun e he => hg.sentIn_above e ((Nat.lt_succ_self _).trans he)

end Transcript

/-! ### A first delivery -/

theorem Buffered.congr {q bound bound' m} (h : Buffered C g q bound m got)
    (hb : ∀ e, PeerChain q e → bound e = bound' e) : Buffered C g q bound' m got := by
  refine ⟨fun e n hp hn hgot => ?_, fun x hx => ?_, fun x hx => ?_⟩
  · exact h.lookup e n hp (by rwa [hb e hp]) hgot
  · obtain ⟨e, n, hp, hn, heq, hgot⟩ := h.only x hx
    exact ⟨e, n, hp, by rwa [← hb e hp], heq, hgot⟩
  · obtain ⟨e, n, hp, hn, heq⟩ := h.passed x hx
    exact ⟨e, n, hp, by rwa [← hb e hp], heq⟩

namespace PartyAgrees

theorem bound_le_top (hg : g.Valid C secrets sharedSecret clock) (e)
    (h : passed g (g.own p) s.nr e ≠ 0) : e ≤ g.top :=
  (passed_ne_zero h).le.trans (hg.own_le_top p)

/-- The key of a buffered message is the one it was sealed with. -/
theorem lookup_of_mem (hs : PartyAgrees C g p s got) (hg : g.Valid C secrets sharedSecret clock)
    (he : e ≤ g.top) (hx : (g.pub C e, n) ∈ s.skipped) :
    s.skipped.lookup (g.pub C e, n) = some (messageKey C (g.chain e) n) := by
  obtain ⟨e', n', hp, hn, heq, hgot⟩ := hs.buffered.only _ hx
  obtain ⟨hpub, rfl⟩ := Prod.mk.inj heq
  have hn' : passed g (g.own p) s.nr e' ≠ 0 := by omega
  obtain rfl := hg.pub_inj e he e' (bound_le_top hg e' hn') hpub
  exact hs.buffered.lookup e n hp hn hgot

theorem decrypts_buffered (hC : Ideal C sharedSecret) (hg : g.Valid C secrets sharedSecret clock)
    (hs : PartyAgrees C g p s got) (hm : SentAt C g m e n) (hx : m.position ∈ s.skipped) (fresh) :
    ∃ s', s.ratchetDecrypt C fresh m.header m.ct = (.ok m.plaintext, s') ∧
      PartyAgrees C g p s' (insert m.position got) := by
  have htop := hm.le_own.trans (hg.own_le_top m.sender)
  have hlook : s.skipped.lookup (m.header.ratchetPub, m.header.n) =
      some (messageKey C (g.chain e) n) := by
    have hpos := hm.position_eq
    rw [hpos] at hx
    rw [show (m.header.ratchetPub, m.header.n) = m.position from rfl, hpos]
    exact hs.lookup_of_mem hg htop hx
  have hopen : openWith C (messageKey C (g.chain e) n) m.header m.ct = .ok m.plaintext :=
    openWith_eq_ok.mpr (hC.opens _ _ _ _ hm.sealed)
  refine ⟨_, by rw [ratchetDecrypt_of_some hlook, hopen], ?_⟩
  exact { hs with
    inSync := ⟨hs.inSync.listed.erase _, (List.length_filter_le _ _).trans hs.inSync.bounded,
      hs.inSync.peer⟩
    buffered := hs.buffered.take hx }

/-- A message of the chain that is entered for it, at or after the counter, is opened, and the chain
is past it then. -/
theorem decrypts_entered {s₁ bound} (hC : Ideal C sharedSecret)
    (hg : g.Valid C secrets sharedSecret clock)
    (hm : SentAt C g m e n) (hpeer : PeerChain p e) (htop : e ≤ g.top)
      (hnot : (g.pub C e, n) ∉ s.skipped)
    (henter : s.enterChain C fresh m.header = .ok s₁) (hb : ∀ e, bound e ≠ 0 → e ≤ g.top)
      (hsync : InSync s₁)
    (hbuf : Buffered C g p bound s₁.skipped got) (hnr : bound e = s₁.nr)
    (hck : s₁.ckr = some (chainKey C (g.chain e) s₁.nr)) (hdhr : s₁.dhr = some (g.pub C e))
      (hn : s₁.nr ≤ n)
    (hmax : n - s₁.nr ≤ maxSkip) (hroom : s₁.skippedOrder.length + (n - s₁.nr) ≤ maxSkippedTotal) :
    ∃ k q, s.ratchetDecrypt C fresh m.header m.ct = (.ok m.plaintext, { s₁ with
        skipped := k, skippedOrder := q, nr := n + 1, ckr :=
          some (chainKey C (g.chain e) (n + 1)) }) ∧
      Listed k q ∧ q.length = s₁.skippedOrder.length + (n - s₁.nr) ∧
      Buffered C g p (update bound e (n + 1)) k (insert m.position got) := by
  obtain ⟨k, q, hrun, hl, hlen, hbuf⟩ :=
    skipMessageKeys_buffered hg hb hsync hbuf hpeer htop hnr hck hdhr hn hmax hroom
  have hopen : openWith C (messageKey C (g.chain e) n) m.header m.ct = .ok m.plaintext :=
    openWith_eq_ok.mpr (hC.opens _ _ _ _ hm.sealed)
  have hlook : s.skipped.lookup (m.header.ratchetPub, m.header.n) = none := by
    rw [hm.header]
    exact Finmap.lookup_eq_none.mpr hnot
  have hsucc : succ32 n = n + 1 := by
    have h1 := hm.lt
    have h2 := hg.sentIn_lt e
    exact Nat.mod_eq_of_lt (by omega)
  refine ⟨k, q, ?_, hl, hlen, ?_⟩
  · rw [ratchetDecrypt_of_none hlook henter (by rw [hm.header]; exact hrun) rfl, ← messageKey,
      hopen, hsucc, chainKey_succ]
  · have hadv := hbuf.advance hg (fun e' h' => by
      by_cases hee : e' = e
      · exact hee ▸ htop
      · rw [update_of_ne hee] at h'
        exact hb e' h') hpeer htop
    rw [update_self, update_idem] at hadv
    rwa [hm.position_eq]

/-- Delivery of a message of the chain the party is receiving, at or after its counter. -/
theorem decrypts_current (hC : Ideal C sharedSecret)
    (hg : g.Valid C secrets sharedSecret clock) (hs : PartyAgrees C g p s got)
    (hm : SentAt C g m e n) (hsender : m.sender.other = p) (he : e + 1 = g.own p) (hn : s.nr ≤ n)
    (hbounds : WithinBounds s m.header) (fresh : Secret) :
    ∃ s', s.ratchetDecrypt C fresh m.header m.ct = (.ok m.plaintext, s') ∧
      PartyAgrees C g p s' (insert m.position got) := by
  have htop := hm.le_own.trans (hg.own_le_top m.sender)
  have hpeer : PeerChain p e := hsender ▸ hm.peerChain
  have h0 := hm.ne_zero
  have hcur : passed g (g.own p) s.nr e = s.nr := passed_current g he
  obtain ⟨hck, hnr⟩ := hs.receiving (by omega)
  have hdhr := (hs.paired (by omega)).2
  rw [show g.own p - 1 = e by omega] at hck hdhr
  have hnot : (g.pub C e, n) ∉ s.skipped :=
    hs.buffered.notMem hg (bound_le_top hg) htop (by omega)
  have hskip : s.skipKeys n = keysFrom (g.pub C e) s.nr (n - s.nr) := by
    simp only [skipKeys, hck, hdhr]
  -- what the bounds say of this header
  rw [hm.header] at hbounds
  obtain ⟨-, hmax, hroom⟩ := hbounds.resolve_left hnot
  have hmax' : n - s.nr ≤ maxSkip := by
    have h := hmax hdhr
    rwa [hskip, length_keysFrom] at h
  have hroom' : s.skippedOrder.length + (n - s.nr) ≤ maxSkippedTotal := by
    unfold newKeys at hroom
    rwa [if_neg (not_not.mpr hdhr), hskip, length_keysFrom] at hroom
  have henter : s.enterChain C fresh m.header = .ok s := by
    rw [enterChain, hm.header, if_neg (not_not.mpr hdhr)]
  obtain ⟨k, q, hrun, hl, hlen, hbuf⟩ := decrypts_entered hC hg hm hpeer htop hnot henter
    (bound_le_top hg)
    hs.inSync hs.buffered hcur hck hdhr hn hmax' hroom'
  refine ⟨_, hrun, ?_⟩
  refine { hs with
    silent := fun h => absurd h (by omega)
    receiving := fun _ => ?_
    inSync := ⟨hl, by rw [hlen]; exact hroom', fun _ => by rw [hdhr]; simp⟩
    buffered := ?_ }
  · rw [show g.own p - 1 = e by omega]
    exact ⟨rfl, hm.lt⟩
  · refine hbuf.congr fun e' _ => ?_
    by_cases hee : e' = e
    · rw [hee, update_self, passed_current g he]
    · rw [update_of_ne hee, passed, passed, if_neg (show ¬ e' + 1 = g.own p by omega),
        if_neg (show ¬ e' + 1 = g.own p by omega)]

/-- Leaving the current chain of the peer, which ended at the length its next header names. -/
theorem leaveChain (hg : g.Valid C secrets sharedSecret clock) (hs : PartyAgrees C g p s got)
    (hmax : (s.skipKeys (g.sentIn (g.own p - 1))).length ≤ maxSkip)
    (hroom : s.skippedOrder.length + (s.skipKeys (g.sentIn (g.own p - 1))).length ≤
      maxSkippedTotal) :
    ∃ s1, s.skipMessageKeys C (g.sentIn (g.own p - 1)) = .ok s1 ∧ s1.ns = s.ns ∧
      Listed s1.skipped s1.skippedOrder ∧ s1.skippedOrder.length =
        s.skippedOrder.length + (s.skipKeys (g.sentIn (g.own p - 1))).length ∧
      Buffered C g p (passed g (g.own p + 2) 0) s1.skipped got := by
  have hparity := hg.own_parity p
  -- only the chain left behind has moved its bound
  have hpassed : ∀ e, PeerChain p e → e + 1 ≠ g.own p →
      passed g (g.own p) s.nr e = passed g (g.own p + 2) 0 e := fun e hp hne => by
    have hodd : e ≠ g.own p := fun h => hp.2 (h ▸ hparity)
    unfold passed
    split_ifs <;> first | rfl | omega
  rcases Nat.lt_or_ge (g.own p) 2 with hlt | hge
  · obtain ⟨hck, -⟩ := hs.silent (by omega)
    have hnone : s.skipKeys (g.sentIn (g.own p - 1)) = [] := by simp only [skipKeys, hck]
    refine ⟨s, by rw [skipMessageKeys, hck], rfl, hs.inSync.listed, by rw [hnone]; rfl, ?_⟩
    refine hs.buffered.congr fun e hp => hpassed e hp fun h => ?_
    have h0 := hp.1
    omega
  · obtain ⟨hck, hnr⟩ := hs.receiving hge
    have hdhr := (hs.paired (by omega)).2
    have hskip : s.skipKeys (g.sentIn (g.own p - 1)) =
        keysFrom (g.pub C (g.own p - 1)) s.nr (g.sentIn (g.own p - 1) - s.nr) := by
      simp only [skipKeys, hck, hdhr]
    rw [hskip, length_keysFrom] at hmax hroom
    have hle := hg.own_le_top p
    have hpeer : PeerChain p (g.own p - 1) := ⟨by omega, by omega⟩
    obtain ⟨m', q, hrun, hl, hlen, hbuf⟩ := skipMessageKeys_buffered hg (bound_le_top hg) hs.inSync
      hs.buffered hpeer (by omega) (passed_current g (by omega)) hck hdhr hnr hmax hroom
    refine ⟨_, hrun, rfl, hl, by rw [hskip, length_keysFrom]; exact hlen, ?_⟩
    refine hbuf.congr fun e hp => ?_
    by_cases hee : e = g.own p - 1
    · rw [hee, update_self, passed, if_pos (by omega)]
    · rw [update_of_ne hee]
      exact hpassed e hp (by omega)

/-- Delivery of a message under the next ratchet key of the peer. -/
theorem decrypts_ratchet (hC : Ideal C sharedSecret)
    (hg : g.Valid C secrets sharedSecret clock) (hs : PartyAgrees C g p s got)
    (hm : SentAt C g m e n) (hsender : m.sender.other = p) (he : e = g.own p + 1)
    (htop : g.top = g.own p + 1) (hbounds : WithinBounds s m.header) (fresh : Secret) :
    ∃ s', s.ratchetDecrypt C fresh m.header m.ct = (.ok m.plaintext, s') ∧
      PartyAgrees C (g.answer C p fresh) p s' (insert m.position got) := by
  have hpeer : PeerChain p e := hsender ▸ hm.peerChain
  have hetop : e ≤ g.top := by omega
  have hnot : (g.pub C e, n) ∉ s.skipped := by
    refine hs.buffered.notMem hg (bound_le_top hg) hetop ?_
    rw [passed, if_neg (by omega), if_neg (by omega)]
    exact Nat.zero_le _
  have hdhr : s.dhr ≠ some (g.pub C e) := by
    intro h
    by_cases h0 : g.own p = 0
    · rw [(hs.unpaired h0).2] at h
      cases h
    · rw [(hs.paired h0).2, Option.some.injEq] at h
      have := hg.pub_inj _ (by omega) _ hetop h
      omega
  -- what the bounds say of this header
  rw [hm.header, show e - 2 = g.own p - 1 by omega] at hbounds
  obtain ⟨hmax, -, hroom⟩ := hbounds.resolve_left hnot
  obtain ⟨hmax1, hmax2⟩ := hmax hdhr
  unfold newKeys at hroom
  rw [if_pos hdhr, List.length_append, length_keysFrom] at hroom
  dsimp only at hroom
  obtain ⟨s1, hleave, hns, hl1, hlen1, hbuf1⟩ := hs.leaveChain hg hmax1 (by omega)
  obtain ⟨hrk, hsecret, -⟩ := skipMessageKeys_frame hleave
  -- both sides derive the same chain
  have hder : C.kdfRk s1.rk (C.dh s1.dhsSecret (g.pub C e)) = (g.root e, g.chain e) := by
    rw [hrk, hsecret, hs.root, hs.secret, he]
    exact hg.derives_receiver hC (by omega)
  have henter : s.enterChain C fresh m.header = .ok (s1.dhRatchet C fresh (g.pub C e)) := by
    rw [enterChain, hm.header, if_pos hdhr, show e - 2 = g.own p - 1 by omega]
    rw [hleave]
    rfl
  have hsync : InSync (s1.dhRatchet C fresh (g.pub C e)) :=
    ⟨hl1, (show s1.skippedOrder.length ≤ _ by rw [hlen1]; omega), fun _ => by simp [dhRatchet]⟩
  have hbtop : ∀ e', passed g (g.own p + 2) 0 e' ≠ 0 → e' ≤ g.top := fun e' h' => by
    have := passed_ne_zero h'
    omega
  obtain ⟨k, q, hrun, hl, hlen, hbuf⟩ := decrypts_entered hC hg hm hpeer hetop hnot henter
    hbtop hsync hbuf1
    (passed_current g (by omega))
    (by show some (C.kdfRk s1.rk (C.dh s1.dhsSecret (g.pub C e))).2 = _; rw [hder]; rfl) rfl
    (Nat.zero_le n) hmax2 (by show s1.skippedOrder.length + n ≤ _; rw [hlen1]; omega)
  refine ⟨_, hrun, ?_⟩
  have hcont := answer_continues hg p fresh
  have hown : (g.answer C p fresh).own p = e + 1 := by
    rw [answer_own]
    omega
  have hnew : e + 1 = g.top + 1 := by omega
  constructor
  case secret =>
    rw [hown, hnew]
    show fresh = update g.keys (g.top + 1) fresh (g.top + 1)
    rw [update_self]
  case ownPub =>
    rw [hown, hnew]
    show C.publicKey fresh = C.publicKey (update g.keys (g.top + 1) fresh (g.top + 1))
    rw [update_self]
  case root =>
    rw [hown, hnew]
    show (C.kdfRk (C.kdfRk s1.rk (C.dh s1.dhsSecret (g.pub C e))).1 (C.dh fresh (g.pub C e))).1 =
      update g.root (g.top + 1) _ (g.top + 1)
    rw [update_self, hder, show e = g.top by omega]
  case ns =>
    rw [hown]
    exact (hg.sentIn_above (e + 1) (by omega)).symm
  case pn =>
    rw [hown]
    show s1.ns = g.sentIn (e + 1 - 2)
    rw [hns, hs.ns]
    congr 1
    omega
  case unpaired =>
    rw [hown]
    exact fun h => absurd h (by omega)
  case paired =>
    intro _
    rw [hown, Nat.add_sub_cancel, hcont.pub hetop, hnew]
    refine ⟨?_, rfl⟩
    show some (C.kdfRk (C.kdfRk s1.rk (C.dh s1.dhsSecret (g.pub C e))).1
      (C.dh fresh (g.pub C e))).2 = some (update g.chain (g.top + 1) _ (g.top + 1))
    rw [update_self, hder, show e = g.top by omega]
  case silent =>
    rw [hown]
    have h0 := hm.ne_zero
    exact fun h => absurd h (by omega)
  case receiving =>
    intro _
    rw [hown, Nat.add_sub_cancel, hcont.chain e hetop]
    exact ⟨rfl, hm.lt⟩
  case inSync =>
    refine ⟨hl, ?_, fun _ => by simp [dhRatchet]⟩
    rw [hlen]
    show s1.skippedOrder.length + n ≤ _
    rw [hlen1]
    omega
  case buffered =>
    rw [hown]
    refine hcont.buffered (fun e' h' => ?_) (hbuf.congr fun e' _ => ?_)
    · have := passed_ne_zero h'
      omega
    · by_cases hee : e' = e
      · rw [hee, update_self, passed_current _ rfl]
      · rw [update_of_ne hee, passed, passed, he, if_neg (show ¬ e' + 1 = g.own p + 2 by omega),
          if_neg (show ¬ e' + 1 = g.own p + 1 + 1 by omega)]
        rfl

/-- **A first delivery within the bounds decrypts**, and leaves a session that agrees with a
continued transcript. -/
theorem decrypts (hC : Ideal C sharedSecret) (hg : g.Valid C secrets sharedSecret clock)
    (hs : PartyAgrees C g p s got) (hm : SentAt C g m e n) (hsender : m.sender.other = p)
    (hnew : m.position ∉ got) (hbounds : WithinBounds s m.header) :
    ∃ s' g', s.ratchetDecrypt C (secrets clock) m.header m.ct = (.ok m.plaintext, s') ∧
      g.Continues g' p ∧ (FreshDraw C secrets clock → g'.Valid C secrets sharedSecret (clock + 1)) ∧
      PartyAgrees C g' p s' (insert m.position got) := by
  have hpeer : PeerChain p e := hsender ▸ hm.peerChain
  have hparity := hg.own_parity p
  have hodd : e ≠ g.own p := fun h => hpeer.2 (h ▸ hparity)
  have hle := hm.le_own
  have hlt := hm.lt
  have hother := hg.own_other p
  rw [← hsender, Party.other_other, hsender] at hother
  by_cases hpass : n < passed g (g.own p) s.nr e
  · have hin : m.position ∈ s.skipped := by
      rw [hm.position_eq] at hnew ⊢
      exact Map.mem_iff_lookup.mpr ⟨_, hs.buffered.lookup e n hpeer hpass hnew⟩
    obtain ⟨s', hrun, hs'⟩ := hs.decrypts_buffered hC hg hm hin (secrets clock)
    exact ⟨s', g, hrun, .refl g p, fun _ => hg.clock_mono, hs'⟩
  · have hcases : e + 1 = g.own p ∨ e = g.own p + 1 := by
      unfold passed at hpass
      split_ifs at hpass <;> omega
    rcases hcases with he | he
    · rw [passed_current g he] at hpass
      obtain ⟨s', hrun, hs'⟩ :=
        hs.decrypts_current hC hg hm hsender he (by omega) hbounds (secrets clock)
      exact ⟨s', g, hrun, .refl g p, fun _ => hg.clock_mono, hs'⟩
    · have htop : g.top = g.own p + 1 := by
        have h1 := hg.own_le_top m.sender
        have h2 := hg.own_top p
        omega
      obtain ⟨s', hrun, hs'⟩ :=
        hs.decrypts_ratchet hC hg hm hsender he htop hbounds (secrets clock)
      exact ⟨s', _, hrun, answer_continues hg p _, answer_valid hg htop.symm, hs'⟩

/-! ### A later delivery -/

/-- **A message delivered before fails**, whatever key pair the attempt draws. -/
theorem replay (hC : Ideal C sharedSecret) (hg : g.Valid C secrets sharedSecret clock)
    (hs : PartyAgrees C g p s got) (hm : SentAt C g m e n) (hgot : m.position ∈ got) (fresh pt)
    (s' : RatchetState Secret Key) : s.ratchetDecrypt C fresh m.header m.ct ≠ (.ok pt, s') := by
  intro hok
  have htop := hm.le_own.trans (hg.own_le_top m.sender)
  have h0 := hm.ne_zero
  have hmem : (m.header.ratchetPub, m.header.n) ∉ s.skipped := fun hx => by
    obtain ⟨-, -, -, -, -, hnot⟩ := hs.buffered.only _ hx
    exact hnot hgot
  have hpassed : n < passed g (g.own p) s.nr e := by
    obtain ⟨e', n', -, hn, heq⟩ := hs.buffered.passed _ hgot
    rw [hm.position_eq] at heq
    obtain ⟨hpub, rfl⟩ := Prod.mk.inj heq
    have hn' : passed g (g.own p) s.nr e' ≠ 0 := by omega
    obtain rfl := hg.pub_inj e htop e' (bound_le_top hg e' hn') hpub
    exact hn
  have hpos : passed g (g.own p) s.nr e ≠ 0 := by omega
  have hlt : e < g.own p := passed_ne_zero hpos
  have hdhr := (hs.paired (by omega)).2
  obtain ⟨s1, s2, ckr, henter, hskip, hck, hopen, -⟩ :=
    ratchetDecrypt_ok (Finmap.lookup_eq_none.mpr hmem) hok
  obtain ⟨-, -, hckr⟩ := skipMessageKeys_frame hskip
  rw [hm.header] at hckr
  by_cases he : e + 1 = g.own p
  · -- the current chain: its next key is tried, and that is a later one
    rw [enterChain, hm.header, hdhr, show g.own p - 1 = e by omega, if_neg (by simp)] at henter
    cases henter
    rw [passed_current g he] at hpassed
    rw [(hs.receiving (by omega)).1, show g.own p - 1 = e by omega, hck, Option.map_some,
      chainKey_add, show s.nr + (n - s.nr) = s.nr by omega, Option.some.injEq] at hckr
    subst hckr
    exact hC.openWith_error hm.sealed (hg.messageKey_injective hC h0 htop (by omega)) pt hopen
  · -- a chain left behind: its ratchet key is answered again, which gives another chain
    have hne : s.dhr ≠ some (g.pub C e) := by
      rw [hdhr, ne_eq, Option.some.injEq]
      intro h
      have hle := hg.own_le_top p
      have := hg.pub_inj _ (by omega) _ htop h
      omega
    rw [enterChain, hm.header, if_pos hne] at henter
    cases hleave : s.skipMessageKeys C (g.sentIn (e - 2)) with
    | error err =>
      rw [hleave] at henter
      cases henter
    | ok s0 =>
      rw [hleave] at henter
      cases henter
      obtain ⟨hrk, hsecret, -⟩ := skipMessageKeys_frame hleave
      have hckr' : ckr = chainKey C (C.kdfRk s0.rk (C.dh s0.dhsSecret (g.pub C e))).2 n := by
        rw [hck] at hckr
        exact Option.some.inj hckr
      subst hckr'
      refine hC.openWith_error hm.sealed (fun heq => ?_) pt hopen
      have hchain := hC.chain_of_messageKey (n := n) heq
      rw [hg.chain_eq h0 htop, hrk, hs.root] at hchain
      have hle := hg.own_le_top p
      have := hg.root_injective hC hle (by omega) (hC.chain_inj _ _ _ _ hchain).1
      omega

end PartyAgrees

/-! ### A send -/

def Transcript.count (g : Transcript Secret Key) (e : ℕ) : Transcript Secret Key :=
  { g with sentIn := Function.update g.sentIn e (g.sentIn e + 1) }

theorem Transcript.count_sentIn_of_ne {e e'} (h : e' ≠ e) : (g.count e).sentIn e' = g.sentIn e' :=
  update_of_ne h _ _

theorem Transcript.count_sentIn_self : (g.count e).sentIn e = g.sentIn e + 1 :=
  update_self _ _ _

theorem Transcript.le_count_sentIn (e e') : g.sentIn e' ≤ (g.count e).sentIn e' := by
  by_cases h : e' = e
  · rw [h, count_sentIn_self]
    omega
  · rw [count_sentIn_of_ne h]

theorem Transcript.Valid.count (hg : g.Valid C secrets sharedSecret clock) (h0 : g.own p ≠ 0)
    (hwrap : g.sentIn (g.own p) + 1 < 2 ^ 32) :
    (g.count (g.own p)).Valid C secrets sharedSecret clock := by
  have hle := hg.own_le_top p
  refine { hg with sentIn_lt := fun e => ?_, sentIn_zero := ?_, sentIn_above := fun e he => ?_ }
  · by_cases h : e = g.own p
    · rw [h, count_sentIn_self]
      exact hwrap
    · rw [count_sentIn_of_ne h]
      exact hg.sentIn_lt e
  · rw [count_sentIn_of_ne h0.symm]
    exact hg.sentIn_zero
  · have htop : g.top < e := he
    rw [count_sentIn_of_ne (by omega)]
    exact hg.sentIn_above e he

theorem SentAt.count (hg : g.Valid C secrets sharedSecret clock) (h0 : g.own p ≠ 0)
    (hm : SentAt C g m e n) : SentAt C (g.count (g.own p)) m e n := by
  -- the chain before `e` has ended
  have hne : e - 2 ≠ g.own p := fun h => by
    have hparity := hg.own_parity p
    have hm' := hm.parity
    have hle := hm.le_own
    rcases p.eq_or_eq_other m.sender with hs | hs
    · rw [hs] at hle
      omega
    · rw [hs, p.parity_other] at hm'
      omega
  refine { hm with lt := hm.lt.trans_le (le_count_sentIn _ _), header := ?_ }
  rw [count_sentIn_of_ne hne]
  exact hm.header

namespace PartyAgrees

theorem buffered_count {q e0} (hs : PartyAgrees C g q s got)
    (hne : ∀ e, PeerChain q e → e + 1 < g.own q → e ≠ e0) :
    Buffered C (g.count e0) q (passed (g.count e0) ((g.count e0).own q) s.nr) s.skipped got := by
  have hbuf : Buffered C (g.count e0) q (passed g (g.own q) s.nr) s.skipped got :=
    ⟨hs.buffered.lookup, hs.buffered.only, hs.buffered.passed⟩
  refine hbuf.congr fun e hp => ?_
  rw [passed, passed, show (g.count e0).own q = g.own q from rfl]
  by_cases h1 : e + 1 < g.own q
  · rw [if_pos h1, if_pos h1, count_sentIn_of_ne (hne e hp h1)]
  · rw [if_neg h1, if_neg h1]

theorem send (hg : g.Valid C secrets sharedSecret clock) (hs : PartyAgrees C g p s got)
    (h0 : g.own p ≠ 0) (hwrap : s.ns + 1 < 2 ^ 32) {cks} (hcks : s.cks = some cks) :
    PartyAgrees C (g.count (g.own p)) p
      { s with cks := some (C.kdfCk cks).1, ns := succ32 s.ns } got := by
  have hsucc : succ32 s.ns = s.ns + 1 := Nat.mod_eq_of_lt hwrap
  have hparity := hg.own_parity p
  obtain ⟨hchain, hdhr⟩ := hs.paired h0
  rw [hcks, Option.some.injEq] at hchain
  refine { hs with
    ns := ?_, pn := ?_, unpaired := fun h => absurd h h0, paired := fun _ => ⟨?_, hdhr⟩,
    receiving := fun h => ⟨(hs.receiving h).1, (hs.receiving h).2.trans (le_count_sentIn _ _)⟩,
    inSync := ⟨hs.inSync.listed, hs.inSync.bounded, hs.inSync.peer⟩,
    buffered := hs.buffered_count fun e hp _ h => hp.2 (h ▸ hparity) }
  · show succ32 s.ns = (g.count (g.own p)).sentIn (g.own p)
    rw [count_sentIn_self, hsucc, hs.ns]
  · show s.pn = (g.count (g.own p)).sentIn (g.own p - 2)
    rw [count_sentIn_of_ne (by omega), hs.pn]
  · show some _ = some (chainKey C (g.chain (g.own p)) (succ32 s.ns))
    rw [hsucc, chainKey_succ, hchain]

theorem count_other (hg : g.Valid C secrets sharedSecret clock)
    (hs : PartyAgrees C g p.other s got) (h0 : g.own p ≠ 0) :
    PartyAgrees C (g.count (g.own p)) p.other s got := by
  have hother := hg.own_other p
  refine { hs with
    ns := ?_, pn := ?_,
    receiving := fun h => ⟨(hs.receiving h).1, (hs.receiving h).2.trans (le_count_sentIn _ _)⟩,
    buffered := hs.buffered_count fun e _ he h => by omega }
  · show s.ns = (g.count (g.own p)).sentIn (g.own p.other)
    rw [count_sentIn_of_ne (by omega), hs.ns]
  · show s.pn = (g.count (g.own p)).sentIn (g.own p.other - 2)
    rw [count_sentIn_of_ne (by omega), hs.pn]

end PartyAgrees

end MeshTalk.Ratchet
