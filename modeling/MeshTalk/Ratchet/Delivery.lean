import MeshTalk.Ratchet.Agreement

/-! # Delivery in a session of two honest parties

Every network reached has a transcript that both sessions agree with (`Run.agrees`), so the first
delivery of every message decrypts to its plaintext and every later one fails
(`run_delivers_once`).

The message number is a `u32` that wraps, so the runs are those in which no sending chain reaches
`2 ^ 32` messages; `wrapped_delivery_fails` is a delivery past that point. -/

namespace MeshTalk.Ratchet

open Lib RatchetState Transcript List Function

variable {Secret Key Ct : Type}

/-! ### Networks -/

def Net.got (net : Net Secret Key Ct) (p : Party) : Set (Pub × ℕ) :=
  { x | ∃ i ∈ net.delivered, ∃ m, net.sent[i]? = some m ∧ m.sender.other = p ∧ m.position = x }

structure Net.Agrees (C : RatchetCrypto Secret Key Ct) (secrets : ℕ → Secret) (sharedSecret : Key)
    (net : Net Secret Key Ct) (g : Transcript Secret Key) : Prop where
  valid : g.Valid C secrets sharedSecret net.clock
  party : ∀ p, PartyAgrees C g p (net.session p) (net.got p)
  sentAt : ∀ m ∈ net.sent, ∃ e n, SentAt C g m e n
  nodup : (net.sent.map Message.position).Nodup
  delivered : ∀ i ∈ net.delivered, i < net.sent.length

variable {C : RatchetCrypto Secret Key Ct} {secrets : ℕ → Secret} {sharedSecret : Key}
  {net : Net Secret Key Ct} {g : Transcript Secret Key}

/-- The transcript of two fresh sessions. -/
def Transcript.start (C : RatchetCrypto Secret Key Ct) (secrets : ℕ → Secret) (sharedSecret : Key) :
    Transcript Secret Key where
  keys i := secrets i
  root
    | 0 => sharedSecret
    | _ => (C.kdfRk sharedSecret (C.dh (secrets 1) (C.publicKey (secrets 0)))).1
  chain _ := (C.kdfRk sharedSecret (C.dh (secrets 1) (C.publicKey (secrets 0)))).2
  sentIn _ := 0
  top := 1
  own p := p.parity

theorem Net.init_agrees (hdraw : FreshDraw C secrets 1) :
    (Net.init C secrets sharedSecret).Agrees C secrets sharedSecret
      (start C secrets sharedSecret) := by
  have hempty : ∀ p, (Net.init C secrets sharedSecret).got p = ∅ := fun p => by
    refine Set.eq_empty_iff_forall_notMem.mpr ?_
    rintro x ⟨i, hi, -⟩
    exact absurd hi not_mem_nil
  have hbuf : ∀ p, Buffered C (start C secrets sharedSecret) p
      (passed (start C secrets sharedSecret) p.parity 0) ∅ ∅ := fun p => by
    refine ⟨fun e n hp hn => absurd hn ?_, fun x hx => absurd hx Finmap.notMem_empty,
      fun x hx => absurd hx (Set.notMem_empty x)⟩
    unfold passed
    split_ifs <;> exact Nat.not_lt_zero n
  refine ⟨?_, fun p => ?_, fun m hm => absurd hm not_mem_nil, nodup_nil,
    fun i hi => absurd hi not_mem_nil⟩
  · constructor
    case own_parity => intro p; cases p <;> rfl
    case own_top => intro p; cases p <;> simp [start, Party.parity]
    case root_zero => rfl
    case derives =>
      intro i hi
      obtain rfl : i = 0 := Nat.lt_one_iff.mp hi
      rfl
    case drawn => exact fun i hi => ⟨i, Nat.lt_succ_of_le hi, rfl⟩
    case pub_inj =>
      have hne : C.publicKey (secrets 0) ≠ C.publicKey (secrets 1) := hdraw 0 Nat.one_pos
      intro i hi j hj h
      rcases Nat.le_one_iff_eq_zero_or_eq_one.mp hi with rfl | rfl <;>
        rcases Nat.le_one_iff_eq_zero_or_eq_one.mp hj with rfl | rfl
      · rfl
      · exact absurd h hne
      · exact absurd h.symm hne
      · rfl
    case sentIn_lt => exact fun _ => Nat.two_pow_pos 32
    case sentIn_zero => rfl
    case sentIn_above => exact fun _ _ => rfl
  · rw [hempty]
    have hsync : ∀ q, InSync ((Net.init C secrets sharedSecret).session q) := fun q => by
      cases q <;> exact ⟨Listed.empty, Nat.zero_le _, fun hc => absurd rfl hc⟩
    cases p with
    | alice =>
      exact ⟨rfl, rfl, rfl, rfl, rfl, fun h => absurd h Nat.one_ne_zero, fun _ => ⟨rfl, rfl⟩,
        fun _ => ⟨rfl, rfl⟩, fun h => absurd h (Nat.not_succ_le_self 1), hsync _, hbuf _⟩
    | bob =>
      exact ⟨rfl, rfl, rfl, rfl, rfl, fun _ => ⟨rfl, rfl⟩, fun h => absurd rfl h,
        fun _ => ⟨rfl, rfl⟩, fun h => absurd h (Nat.not_succ_le_zero 1), hsync _, hbuf _⟩

/-! ### A send -/

/-- A party with a sending chain moves it on, and hands over at most one message. -/
theorem Net.send_eq {p cks} (hcks : (net.session p).cks = some cks) (pt) : ∃ l,
    net.send C p pt = { net with
      session := update net.session p { net.session p with
        cks := some (C.kdfCk cks).1, ns := succ32 (net.session p).ns }
      sent := net.sent ++ l } ∧
    ∀ m ∈ l, l = [m] ∧ m.sender = p ∧ m.plaintext = pt ∧
      m.header = ⟨(net.session p).dhsPublic, (net.session p).pn, (net.session p).ns⟩ ∧
      C.aeadEncrypt (C.kdfCk cks).2 pt m.header.encode = some m.ct := by
  unfold Net.send ratchetEncrypt
  simp only [hcks]
  cases hct : C.aeadEncrypt (C.kdfCk cks).2 pt
      (Header.mk (net.session p).dhsPublic (net.session p).pn (net.session p).ns).encode with
  | none => exact ⟨[], by simp, fun m hm => absurd hm not_mem_nil⟩
  | some ct =>
    refine ⟨[⟨p, ⟨(net.session p).dhsPublic, (net.session p).pn, (net.session p).ns⟩, ct, pt⟩], rfl,
      fun m hm => ?_⟩
    obtain rfl := mem_singleton.mp hm
    exact ⟨rfl, rfl, rfl, rfl, hct⟩

namespace Net.Agrees

theorem got_append (h : net.Agrees C secrets sharedSecret g) (l)
    (session : Party → RatchetState Secret Key) (p) :
    { net with session := session, sent := net.sent ++ l }.got p = net.got p := by
  ext x
  refine exists_congr fun i => and_congr_right fun hi => ?_
  simp only [getElem?_append_left (h.delivered i hi)]

theorem send (h : net.Agrees C secrets sharedSecret g) (p : Party) (pt)
    (hwrap : NoWrap (net.session p)) :
      ∃ g', (net.send C p pt).Agrees C secrets sharedSecret g' := by
  have hs := h.party p
  by_cases h0 : g.own p = 0
  · -- nothing to send with yet
    have hcks := (hs.unpaired h0).1
    have hnet : net.send C p pt = net := by
      unfold Net.send ratchetEncrypt
      simp only [hcks]
      rw [update_eq_self]
    rw [hnet]
    exact ⟨g, h⟩
  have hcks := (hs.paired h0).1
  obtain ⟨l, heq, hl⟩ := Net.send_eq (C := C) hcks pt
  have hwrap' : g.sentIn (g.own p) + 1 < 2 ^ 32 := by
    rw [← hs.ns]
    exact hwrap
  -- the message handed over, if any, is the next of the sending chain
  have hnew : ∀ m ∈ l, SentAt C (g.count (g.own p)) m (g.own p) (net.session p).ns := by
    intro m hm
    obtain ⟨-, rfl, rfl, hheader, hseal⟩ := hl m hm
    refine ⟨h0, le_rfl, h.valid.own_parity _, ?_, ?_, hseal⟩
    · rw [count_sentIn_self, hs.ns]
      omega
    · rw [hheader, hs.ownPub, hs.pn, count_sentIn_of_ne (by omega)]
      rfl
  rw [heq]
  refine ⟨g.count (g.own p), h.valid.count h0 hwrap', fun q => ?_, fun m hm => ?_, ?_,
    fun i hi => ?_⟩
  · rw [h.got_append]
    dsimp only
    rcases p.eq_or_eq_other q with rfl | rfl
    · rw [update_self]
      exact hs.send h.valid h0 hwrap hcks
    · rw [update_of_ne p.other_ne]
      exact (h.party p.other).count_other h.valid h0
  · rcases mem_append.mp hm with hm | hm
    · obtain ⟨e, n, hat⟩ := h.sentAt m hm
      exact ⟨e, n, hat.count h.valid h0⟩
    · exact ⟨_, _, hnew m hm⟩
  · rw [map_append, nodup_append]
    refine ⟨h.nodup, ?_, fun x hx y hy hxy => ?_⟩
    · rcases l with _ | ⟨m, l⟩
      · exact nodup_nil
      · rw [(hl m mem_cons_self).1]
        exact nodup_singleton _
    · obtain ⟨m, hm, rfl⟩ := mem_map.mp hx
      obtain ⟨m', hm', rfl⟩ := mem_map.mp hy
      obtain ⟨e, n, hat⟩ := h.sentAt m hm
      rw [hat.position_eq, (hnew m' hm').position_eq] at hxy
      obtain ⟨hpub, rfl⟩ := Prod.mk.inj hxy
      obtain rfl := h.valid.pub_inj e (hat.le_own.trans (h.valid.own_le_top _)) _
        (h.valid.own_le_top p) hpub
      have hlt := hat.lt
      rw [hs.ns] at hlt
      omega
  · have hlt := h.delivered i hi
    rw [length_append]
    omega

/-! ### A delivery -/

theorem got_deliver (net : Net Secret Key Ct) {i m} (hi : net.sent[i]? = some m) (q) :
    (net.deliver C secrets i m).got q =
      if m.sender.other = q then insert m.position (net.got q) else net.got q := by
  ext x
  unfold Net.got Net.deliver
  simp only [mem_cons, Set.mem_ofPred_eq]
  split_ifs with hq
  · simp only [Set.mem_insert_iff, Set.mem_ofPred_eq]
    constructor
    · rintro ⟨j, rfl | hj, m', hj', hq', rfl⟩
      · rw [hi, Option.some.injEq] at hj'
        exact Or.inl (hj' ▸ rfl)
      · exact Or.inr ⟨j, hj, m', hj', hq', rfl⟩
    · rintro (rfl | ⟨j, hj, m', hj', hq', rfl⟩)
      · exact ⟨i, Or.inl rfl, m, hi, hq, rfl⟩
      · exact ⟨j, Or.inr hj, m', hj', hq', rfl⟩
  · constructor
    · rintro ⟨j, rfl | hj, m', hj', hq', rfl⟩
      · rw [hi, Option.some.injEq] at hj'
        exact absurd (hj' ▸ hq') hq
      · exact ⟨j, hj, m', hj', hq', rfl⟩
    · rintro ⟨j, hj, m', hj', hq', rfl⟩
      exact ⟨j, Or.inr hj, m', hj', hq', rfl⟩

/-- A message was delivered if and only if its position was. -/
theorem mem_got_iff (h : net.Agrees C secrets sharedSecret g) {i m} (hi : net.sent[i]? = some m) :
    m.position ∈ net.got m.sender.other ↔ i ∈ net.delivered := by
  constructor
  · rintro ⟨j, hj, m', hj', -, hpos⟩
    have hmap : ∀ {k : ℕ} {m'' : Message Ct}, net.sent[k]? = some m'' →
        (net.sent.map Message.position)[k]? = some m''.position := fun hk => by
      rw [List.getElem?_map, hk, Option.map_some]
    have hlt : i < (net.sent.map Message.position).length := by
      rw [List.length_map]
      exact (List.getElem?_eq_some_iff.mp hi).1
    obtain rfl := (List.getElem?_inj hlt h.nodup).mp
      ((hmap hi).trans ((congrArg some hpos.symm).trans (hmap hj').symm))
    exact hj
  · exact fun hd => ⟨i, hd, m, hi, rfl, rfl⟩

/-- **What a delivery returns.** -/
theorem decrypted (hC : Ideal C sharedSecret) (h : net.Agrees C secrets sharedSecret g) {i m}
    (hi : net.sent[i]? = some m) :
    (i ∉ net.delivered → WithinBounds (net.receiver m) m.header →
      ∃ s' g', net.decrypted C secrets m = (.ok m.plaintext, s') ∧ g.Continues g' m.sender.other ∧
        (FreshDraw C secrets net.clock → g'.Valid C secrets sharedSecret (net.clock + 1)) ∧
        PartyAgrees C g' m.sender.other s' (insert m.position (net.got m.sender.other))) ∧
      (i ∈ net.delivered → ∃ err, (net.decrypted C secrets m).1 = .error err) := by
  obtain ⟨e, n, hat⟩ := h.sentAt m (mem_of_getElem? hi)
  have hs := h.party m.sender.other
  refine ⟨fun hnew hbounds => ?_, fun hold => ?_⟩
  · exact hs.decrypts hC h.valid hat rfl (fun hx => hnew ((h.mem_got_iff hi).mp hx)) hbounds
  · cases hres : (net.decrypted C secrets m).1 with
    | error err => exact ⟨err, rfl⟩
    | ok pt =>
      have hpair : net.decrypted C secrets m = (.ok pt, (net.decrypted C secrets m).2) :=
        Prod.ext hres rfl
      exact absurd hpair (hs.replay hC h.valid hat ((h.mem_got_iff hi).mpr hold) _ pt _)

theorem deliver (hC : Ideal C sharedSecret) (h : net.Agrees C secrets sharedSecret g) {i m}
    (hi : net.sent[i]? = some m)
    (hbounds : i ∉ net.delivered → WithinBounds (net.receiver m) m.header)
    (hdraw : FreshDraw C secrets net.clock) :
    ∃ g', (net.deliver C secrets i m).Agrees C secrets sharedSecret g' := by
  have hdelivered : ∀ j ∈ (net.deliver C secrets i m).delivered, j < net.sent.length := by
    intro j hj
    rcases List.mem_cons.mp hj with rfl | hj
    · exact (List.getElem?_eq_some_iff.mp hi).1
    · exact h.delivered j hj
  obtain ⟨hfirst, hlater⟩ := h.decrypted hC hi
  by_cases hd : i ∈ net.delivered
  · -- the attempt fails and the copy is dropped
    obtain ⟨err, herr⟩ := hlater hd
    refine ⟨g, h.valid.clock_mono, fun q => ?_, h.sentAt, h.nodup, hdelivered⟩
    have hsession : (net.deliver C secrets i m).session = net.session := by
      unfold Net.deliver
      rw [herr]
    rw [hsession, got_deliver net hi]
    split_ifs with hq
    · subst hq
      rw [Set.insert_eq_of_mem ((h.mem_got_iff hi).mpr hd)]
      exact h.party _
    · exact h.party q
  · obtain ⟨s', g', hok, hcont, hvalid, hs'⟩ := hfirst hd (hbounds hd)
    have hsession : (net.deliver C secrets i m).session =
        update net.session m.sender.other s' := by
      unfold Net.deliver
      rw [hok]
    refine ⟨g', hvalid hdraw, fun q => ?_, fun m' hm' => ?_, h.nodup, hdelivered⟩
    · rw [hsession, got_deliver net hi]
      rcases m.sender.other.eq_or_eq_other q with rfl | rfl
      · rw [update_self, if_pos rfl]
        exact hs'
      · rw [update_of_ne (Party.other_ne _), if_neg (Party.other_ne _).symm]
        exact hcont.partyAgrees_other h.valid (h.party _)
    · obtain ⟨e, n, hat⟩ := h.sentAt m' hm'
      exact ⟨e, n, hcont.sentAt h.valid hat⟩

end Net.Agrees

/-! ### Runs -/

theorem Run.agrees (hC : Ideal C sharedSecret) (h : Run C secrets sharedSecret NoWrap net) :
    ∃ g, net.Agrees C secrets sharedSecret g := by
  induction h with
  | init hdraw => exact ⟨_, Net.init_agrees hdraw⟩
  | send p pt _ hwrap ih =>
    obtain ⟨g, hg⟩ := ih
    exact hg.send p pt hwrap
  | deliver _ hi hbounds hdraw ih =>
    obtain ⟨g, hg⟩ := ih
    exact hg.deliver hC hi hbounds hdraw

/-- **Every message is delivered once.** In every network that sends, deliveries, losses, delays and
repetitions lead to, as long as no chain reaches `2 ^ 32` messages and first deliveries skip within
the bounds, a message that was not delivered before decrypts to exactly its plaintext and a message
that was fails. -/
theorem run_delivers_once (hC : Ideal C sharedSecret)
    (hrun : Run C secrets sharedSecret NoWrap net) {i : ℕ} {m : Message Ct}
    (hi : net.sent[i]? = some m) :
    (i ∉ net.delivered → WithinBounds (net.receiver m) m.header →
      (net.decrypted C secrets m).1 = .ok m.plaintext) ∧
      (i ∈ net.delivered → ∃ err, (net.decrypted C secrets m).1 = .error err) := by
  obtain ⟨g, hg⟩ := hrun.agrees hC
  obtain ⟨hfirst, hlater⟩ := hg.decrypted hC hi
  refine ⟨fun hnew hbounds => ?_, hlater⟩
  obtain ⟨s', g', hok, -⟩ := hfirst hnew hbounds
  rw [hok]

/-! ### The symbolic primitives -/

theorem symCrypto_ideal : Ideal symCrypto .shared where
  dh_comm s t := by
    show SymKey.dh _ _ = SymKey.dh _ _
    rw [min_comm, max_comm]
    rfl
  root_inj _ _ _ _ h := by
    injection h with h1 h2
    exact ⟨h1, h2⟩
  chain_inj _ _ _ _ h := by
    injection h with h1 h2
    exact ⟨h1, h2⟩
  next_inj _ _ h := by
    injection h
  message_inj _ _ h := by
    injection h
  next_ne_chain _ _ _ h := by cases h
  shared_ne_root _ _ h := by cases h
  opens key pt aad ct h := by
    cases h
    exact if_pos ⟨rfl, rfl⟩
  authentic key pt aad ct key' aad' pt' h h' := by
    cases h
    simp only [symCrypto, Option.ite_none_right_eq_some] at h'
    exact ⟨h'.1.1.symm, h'.1.2.symm⟩

theorem symCrypto_fresh {k} (hk : k < 2 ^ 256) : FreshDraw symCrypto id k := by
  intro j hj h
  have hnat := congrArg BitVec.toNat h
  simp only [symCrypto, id_eq, BitVec.toNat_ofNat] at hnat
  rw [Nat.mod_eq_of_lt (by omega), Nat.mod_eq_of_lt hk] at hnat
  omega

/-- The network with symbolic primitives, after the first party has sent two messages. -/
def sampleNet : Net ℕ SymKey (SymKey × List UInt8 × List UInt8) :=
  ((Net.init symCrypto id .shared).send symCrypto .alice [1]).send symCrypto .alice [2]

def sampleMessage (i : ℕ) : Message (SymKey × List UInt8 × List UInt8) :=
  sampleNet.sent.getD i ⟨.alice, ⟨0, 0, 0⟩, (.shared, [], []), []⟩

def sampleDelivered : Net ℕ SymKey (SymKey × List UInt8 × List UInt8) :=
  sampleNet.deliver symCrypto id 1 (sampleMessage 1)

theorem run_delivers_once_sample :
    (sampleDelivered.decrypted symCrypto id (sampleMessage 0)).1 = .ok [1] ∧
      ∃ err, (sampleDelivered.decrypted symCrypto id (sampleMessage 1)).1 = .error err := by
  have hrun : Run symCrypto id .shared NoWrap sampleNet :=
    .send _ _ (.send _ _ (.init (symCrypto_fresh (by decide))) (by unfold NoWrap; decide))
      (by unfold NoWrap; decide)
  have hrun' : Run symCrypto id .shared NoWrap sampleDelivered :=
    .deliver hrun rfl (fun _ => by unfold WithinBounds; decide) (symCrypto_fresh (by decide))
  refine ⟨(run_delivers_once symCrypto_ideal hrun' (i := 0) rfl).1 (by decide)
    (by unfold WithinBounds; decide), ?_⟩
  exact (run_delivers_once symCrypto_ideal hrun' (i := 1) (m := sampleMessage 1) rfl).2 (by decide)

/-! ### A chain of more than `2 ^ 32` messages

The first party sends, the other receives in order and never answers. When the message number wraps,
the receiver takes the next number for one it has passed. -/

def firstChain : SymKey := .chain .shared (.dh 0 1)

/-- The state of the two parties after `k` messages of the first chain, all received in order. -/
structure InOrder (net : Net ℕ SymKey (SymKey × List UInt8 × List UInt8)) (k : ℕ) : Prop where
  cks : (net.session .alice).cks = some (chainKey symCrypto firstChain k)
  ns : (net.session .alice).ns = k
  pn : (net.session .alice).pn = 0
  dhsPublic : (net.session .alice).dhsPublic = 1
  dhr : (net.session .bob).dhr = some 1
  ckr : (net.session .bob).ckr = some (chainKey symCrypto firstChain k)
  nr : (net.session .bob).nr = k
  skipped : (net.session .bob).skipped = ∅
  skippedOrder : (net.session .bob).skippedOrder = []
  sent : net.sent.length = k
  delivered : ∀ i ∈ net.delivered, i < k
  clock : net.clock = 2 + k

def chainMessage (number key : ℕ) : Message (SymKey × List UInt8 × List UInt8) :=
  ⟨.alice, ⟨1, 0, number⟩, (messageKey symCrypto firstChain key, [], (Header.mk 1 0 number).encode),
    []⟩

/-- One more message sent, under the number the counter holds. -/
theorem send_chainMessage {net : Net ℕ SymKey (SymKey × List UInt8 × List UInt8)} {number key}
    (hcks : (net.session .alice).cks = some (chainKey symCrypto firstChain key))
    (hns : (net.session .alice).ns = number) (hpn : (net.session .alice).pn = 0)
    (hpub : (net.session .alice).dhsPublic = 1) : net.send symCrypto .alice [] = { net with
      session := update net.session .alice { net.session .alice with
        cks := some (chainKey symCrypto firstChain (key + 1)), ns := succ32 number }
      sent := net.sent ++ [chainMessage number key] } := by
  unfold Net.send ratchetEncrypt
  simp only [hcks, hns, hpn, hpub]
  rw [chainKey_succ]
  rfl

namespace InOrder

variable {net : Net ℕ SymKey (SymKey × List UInt8 × List UInt8)} {k : ℕ}

theorem one : InOrder ((((Net.init symCrypto id .shared).send symCrypto .alice []).deliver symCrypto
    id 0 (chainMessage 0 0))) 1 :=
  ⟨rfl, rfl, rfl, rfl, rfl, rfl, rfl, rfl, rfl, rfl, by decide, rfl⟩

/-- The receiver tries the next key of the chain, whatever number below or at its counter. -/
theorem decrypt (h : InOrder net k) {number} (hle : number ≤ k) (key) :
    ∃ s, net.decrypted symCrypto id (chainMessage number key) =
        (openWith symCrypto (messageKey symCrypto firstChain k) (chainMessage number key).header
          (chainMessage number key).ct, s) ∧
      s = { net.session .bob with
        ckr := some (chainKey symCrypto firstChain (k + 1)), nr := succ32 k } := by
  have hlook : (net.session .bob).skipped.lookup ((1 : Pub), number) = none := by
    rw [h.skipped]
    rfl
  have henter : (net.session .bob).enterChain symCrypto (id net.clock) ⟨1, 0, number⟩ =
      .ok (net.session .bob) := by
    rw [enterChain, h.dhr, if_neg (by simp)]
  have hskip : (net.session .bob).skipMessageKeys symCrypto number = .ok (net.session .bob) := by
    rw [skipMessageKeys, h.ckr]
    dsimp only
    rw [h.nr]
    rcases Nat.lt_or_eq_of_le hle with hlt | rfl
    · rw [if_pos hlt]
    · rw [if_neg (by omega), if_neg (by omega), h.dhr]
      dsimp only
      rw [Nat.sub_self, skipLoop, ← h.ckr]
  refine ⟨_, ratchetDecrypt_of_none hlook henter hskip h.ckr, ?_⟩
  rw [h.nr, chainKey_succ]

theorem withinBounds (h : InOrder net k) {number} (hle : number ≤ k) (key) :
    WithinBounds (net.session .bob) (chainMessage number key).header := by
  have hkeys : (net.session .bob).skipKeys number = [] := by
    rw [skipKeys, h.ckr, h.dhr]
    rw [h.nr, show number - k = 0 by omega]
    rfl
  show WithinBounds (net.session .bob) ⟨1, 0, number⟩
  refine Or.inr ⟨fun hne => absurd h.dhr hne, fun _ => ?_, ?_⟩
  · rw [hkeys]
    exact Nat.zero_le _
  · rw [h.skippedOrder, newKeys, if_neg (not_not.mpr h.dhr), hkeys]
    exact Nat.zero_le _

theorem next {P : RatchetState ℕ SymKey → Prop} (hP : ∀ s, P s)
    (h : InOrder net k) (hk : k + 1 < 2 ^ 32) (hrun : Run symCrypto id .shared P net) :
    ∃ net', InOrder net' (k + 1) ∧ Run symCrypto id .shared P net' := by
  have hsucc : succ32 k = k + 1 := Nat.mod_eq_of_lt hk
  have hsent := send_chainMessage h.cks h.ns h.pn h.dhsPublic
  have hrun1 := Run.send .alice [] hrun (hP _)
  have hk2 : k < 2 ^ 256 - 2 := hk.trans' (Nat.lt_succ_self k) |>.trans (by decide)
  generalize net.send symCrypto .alice [] = net1 at hsent hrun1
  -- the receiver has not noticed the send
  have hbob : net1.session .bob = net.session .bob := by
    rw [hsent]
    dsimp only
    rw [update_of_ne (by decide)]
  have hclock : net1.clock = 2 + k := by
    rw [hsent]
    exact h.clock
  have hi : net1.sent[k]? = some (chainMessage k k) := by
    rw [hsent]
    rw [getElem?_append_right h.sent.le, h.sent, Nat.sub_self]
    rfl
  obtain ⟨s, hdec, hs⟩ := h.decrypt le_rfl k
  have hopen : openWith symCrypto (messageKey symCrypto firstChain k) (chainMessage k k).header
      (chainMessage k k).ct = .ok [] :=
    openWith_eq_ok.mpr (symCrypto_ideal.opens _ _ _ _ rfl)
  have hdec1 : net1.decrypted symCrypto id (chainMessage k k) = (.ok [], s) := by
    rw [← hopen, ← hdec]
    show (net1.session .bob).ratchetDecrypt symCrypto (id net1.clock) _ _ = _
    rw [hbob, hclock, ← h.clock]
    rfl
  refine ⟨net1.deliver symCrypto id k (chainMessage k k), ?_, .deliver hrun1 hi (fun _ => ?_) ?_⟩
  · have hsession : (net1.deliver symCrypto id k (chainMessage k k)).session =
        update net1.session .bob s := by
      unfold Net.deliver
      rw [hdec1]
      rfl
    have halice : (net1.deliver symCrypto id k (chainMessage k k)).session .alice =
        { net.session .alice with
          cks := some (chainKey symCrypto firstChain (k + 1)), ns := k + 1 } := by
      rw [hsession, update_of_ne (by decide), hsent]
      dsimp only
      rw [update_self, hsucc]
    have hbob' : (net1.deliver symCrypto id k (chainMessage k k)).session .bob =
        { net.session .bob with
          ckr := some (chainKey symCrypto firstChain (k + 1)), nr := k + 1 } := by
      rw [hsession, update_self, hs, hsucc]
    constructor
    case cks => rw [halice]
    case ns => rw [halice]
    case pn => rw [halice]; exact h.pn
    case dhsPublic => rw [halice]; exact h.dhsPublic
    case dhr => rw [hbob']; exact h.dhr
    case ckr => rw [hbob']
    case nr => rw [hbob']
    case skipped => rw [hbob']; exact h.skipped
    case skippedOrder => rw [hbob']; exact h.skippedOrder
    case sent =>
      rw [hsent]
      show (net.sent ++ [chainMessage k k]).length = k + 1
      rw [length_append, h.sent]
      rfl
    case delivered =>
      intro i hmem
      rw [hsent] at hmem
      rcases mem_cons.mp hmem with rfl | hmem
      · omega
      · have := h.delivered i hmem
        omega
    case clock =>
      show net1.clock + 1 = 2 + (k + 1)
      omega
  · show WithinBounds (net1.session .bob) _
    rw [hbob]
    exact h.withinBounds le_rfl k
  · rw [hclock]
    exact symCrypto_fresh (by omega)

theorem exists_run {P : RatchetState ℕ SymKey → Prop} (hP : ∀ s, P s) :
    ∀ {k}, k + 1 < 2 ^ 32 → ∃ net, InOrder net (k + 1) ∧ Run symCrypto id .shared P net
  | 0, _ => ⟨_, one, .deliver (.send .alice [] (.init (symCrypto_fresh (by decide))) (hP _)) rfl
      (fun _ => by unfold WithinBounds; decide) (symCrypto_fresh (by decide))⟩
  | k + 1, hk => by
    obtain ⟨net, h, hrun⟩ := exists_run hP (k := k) (by omega)
    exact h.next hP hk hrun

end InOrder

theorem InOrder.wrapped {net : Net ℕ SymKey (SymKey × List UInt8 × List UInt8)} {k}
    (hk : k + 1 = 2 ^ 32) (h : InOrder net k) :
    ∃ net', net' = (net.send symCrypto .alice []).send symCrypto .alice [] ∧
      net'.sent[k + 1]? = some (chainMessage 0 (k + 1)) ∧ k + 1 ∉ net'.delivered ∧
      WithinBounds (net'.session .bob) (chainMessage 0 (k + 1)).header ∧
      (net'.decrypted symCrypto id (chainMessage 0 (k + 1))).1 = .error .decrypt := by
  have hzero : succ32 k = 0 := by
    rw [succ32, hk, Nat.mod_self]
  have hsent := send_chainMessage h.cks h.ns h.pn h.dhsPublic
  rw [hzero] at hsent
  -- the sender's counter has wrapped, its chain has not
  obtain ⟨hcks, hns, hpn, hpub⟩ : ((net.send symCrypto .alice []).session .alice).cks =
          some (chainKey symCrypto firstChain (k + 1)) ∧
        ((net.send symCrypto .alice []).session .alice).ns = 0 ∧
        ((net.send symCrypto .alice []).session .alice).pn = 0 ∧
        ((net.send symCrypto .alice []).session .alice).dhsPublic = 1 := by
    rw [hsent]
    dsimp only
    rw [update_self]
    exact ⟨rfl, rfl, h.pn, h.dhsPublic⟩
  have hsent' := send_chainMessage hcks hns hpn hpub
  generalize (net.send symCrypto .alice []).send symCrypto .alice [] = net' at hsent'
  rw [hsent] at hsent'
  have hbob : net'.session .bob = net.session .bob := by
    rw [hsent']
    dsimp only
    rw [update_of_ne (by decide), update_of_ne (by decide)]
  refine ⟨net', rfl, ?_, fun hmem => ?_, ?_, ?_⟩
  · rw [hsent']
    have hlen : (net.sent ++ [chainMessage k k]).length = k + 1 := by
      rw [length_append, h.sent]
      rfl
    rw [getElem?_append_right hlen.le, hlen, Nat.sub_self]
    rfl
  · rw [hsent'] at hmem
    have := h.delivered _ hmem
    omega
  · rw [hbob]
    exact h.withinBounds (Nat.zero_le k) (k + 1)
  · obtain ⟨s, hdec, -⟩ := h.decrypt (Nat.zero_le k) (k + 1)
    have hdec' : net'.decrypted symCrypto id (chainMessage 0 (k + 1)) =
        net.decrypted symCrypto id (chainMessage 0 (k + 1)) := by
      show (net'.session .bob).ratchetDecrypt symCrypto (id net'.clock) _ _ = _
      rw [hbob, hsent']
      rfl
    rw [hdec', hdec]
    -- the receiver tries key `k`, the message is sealed with key `k + 1`
    have hchain : firstChain = (symCrypto.kdfRk .shared (.dh 0 1)).2 := rfl
    have hne : messageKey symCrypto firstChain (k + 1) ≠ messageKey symCrypto firstChain k := by
      rw [hchain]
      exact symCrypto_ideal.messageKey_ne (by omega)
    unfold openWith
    simp only [symCrypto, chainMessage]
    rw [if_neg fun heq => hne heq.1]

/-- **The first delivery of a wrapped message fails.** The message skips one other, which is within
the bounds, and was not delivered before. -/
theorem wrapped_delivery_fails : ∃ net i m, Run symCrypto id .shared (fun _ => True) net ∧
    net.sent[i]? = some m ∧ i ∉ net.delivered ∧ WithinBounds (net.receiver m) m.header ∧
    (net.decrypted symCrypto id m).1 = .error .decrypt := by
  have hP : ∀ s : RatchetState ℕ SymKey, (fun _ => True) s := fun _ => trivial
  obtain ⟨net, h, hrun⟩ := InOrder.exists_run hP (k := 2 ^ 32 - 2) (by omega)
  obtain ⟨net', rfl, hi, hnew, hbounds, hfail⟩ := h.wrapped (by omega)
  exact ⟨_, _, _, .send .alice [] (.send .alice [] hrun trivial) trivial, hi, hnew, hbounds, hfail⟩

end MeshTalk.Ratchet
