import MeshTalk.Channel.Consumption

/-! # No wake-up is lost

An event that could not be opened waits, for a key or until its chain has reached a position. When
the selection of waiting events has nothing more, none of them can be opened. -/

namespace MeshTalk.Channel

open Lib Ratchet ReceiverTables Option Table List

section Blocking

variable {Secret Key : Type} {C : RatchetCrypto Secret Key (List UInt8)} [Sha256]
  [BincodeRead MsgHeader] {c c' : SenderChain Key} {e : Event} {wake : Option ℕ}

/-- A chain that does not open a message: for want of its key, or because the message is too far
ahead until it has reached a position. -/
def Blocked (C : RatchetCrypto Secret Key (List UInt8)) (c : SenderChain Key) (e : Event) :
    Option ℕ → Prop
  | none => ∀ header length, messageParts e.ciphertext = some (header, length) →
      SenderChain.Refused C c header.n (e.ciphertext.drop (2 + length))
        ((e.ciphertext.drop 2).take length)
  | some position => c.n.toNat < position

/-- The position a message waits for is the one from which it is within reach. -/
def WakesAt (e : Event) (wake : Option ℕ) : Prop :=
  ∀ position, wake = some position → ∀ header length,
    messageParts e.ciphertext = some (header, length) → position = header.n.toNat - maxSkip

omit [Sha256] in
/-- What a chain that moves on does not open any more than before, unless it reaches the
position. -/
theorem Blocked.thins (h : Blocked C c e wake) (ht : SenderChain.Thins C c c') :
    Blocked C c' e wake ∨ ∃ position, wake = some position ∧ position ≤ c'.n.toNat := by
  cases wake with
  | none => exact .inl fun header length hparts => (h header length hparts).thins ht
  | some position =>
    by_cases hlt : c'.n.toNat < position
    · exact .inl hlt
    · exact .inr ⟨position, rfl, not_lt.mp hlt⟩

variable {cp : ReceiverCheckpoint Key}

theorem Blocked.not_opened (h : Blocked C c e wake) (hw : WakesAt e wake) (hc : Holds cp c) (p) :
    prepareCheckpointMessage C e.userId cp e.ciphertext ≠ .ok p := by
  intro hp
  have hresult := hc.result (C := C) e.userId e.ciphertext
  rw [hp] at hresult
  cases hresult with
  | @opened header length _ c' hparts hsender hopen =>
    cases wake with
    | none => exact hc.valid.not_opened_of_refused (h header length hparts) _ hopen
    | some position =>
      have hposition := hw position rfl header length hparts
      have hlt : c.n.toNat < position := h
      exact hc.valid.not_opened_of_far (by omega) _ hopen

theorem blocked_of_error {epoch} (hc : Holds cp c)
    (hepoch : senderMessageEpoch e.userId e.ciphertext = some epoch)
    (h : prepareCheckpointMessage C e.userId cp e.ciphertext = .error .rejected) :
    Blocked C c e none := by
  intro header length hparts
  have hresult := hc.result (C := C) e.userId e.ciphertext
  rw [h] at hresult
  cases hresult with
  | foreign hforeign =>
    rw [hforeign] at hepoch
    cases hepoch
  | refused hparts' hsender hrefused =>
    obtain ⟨rfl, rfl⟩ := Prod.mk.inj (mem_unique hparts hparts')
    exact hrefused

theorem blocked_of_gap {position} (hc : Holds cp c)
    (h : prepareCheckpointMessage C e.userId cp e.ciphertext = .error (.gap position)) :
    Blocked C c e (some position) ∧ WakesAt e (some position) := by
  have hresult := hc.result (C := C) e.userId e.ciphertext
  generalize hx : prepareCheckpointMessage C e.userId cp e.ciphertext = x at h hresult
  cases hresult with
  | opened => cases h
  | foreign => cases h
  | refused => cases h
  | gap hparts hsender hfar =>
    injection h with h
    injection h with h
    subst h
    refine ⟨hfar, fun w hw header length hparts' => ?_⟩
    obtain rfl := some.inj hw
    obtain ⟨rfl, rfl⟩ := Prod.mk.inj (mem_unique hparts hparts')
    rfl

theorem thins_of_opened {p} (hc : Holds cp c)
    (h : prepareCheckpointMessage C e.userId cp e.ciphertext = .ok p) :
    ∃ c', SenderChain.Thins C c c' ∧ Holds p.checkpoint c' ∧ p.nextPosition = c'.n := by
  have hresult := hc.result (C := C) e.userId e.ciphertext
  rw [h] at hresult
  cases hresult with
  | opened hparts hsender hopen hthins hholds hposition => exact ⟨_, hthins, hholds, hposition⟩

omit [Sha256] [BincodeRead MsgHeader] in
theorem Holds.unique (h : Holds cp c) (h' : Holds cp c') : c = c' :=
  Except.ok.inj (h.read.symm.trans h'.read)

end Blocking

/-! ### Why an event waits -/

def Woken {Key : Type} (db : ReceiverTables Key) (κ : ChainId) (kind : EventKind) (revision : ℤ)
    (wake : Option ℕ) : Prop :=
  ∃ t, db.retryChains.get (κ, kind) = some t ∧
    match wake with
    | none => revision < t.revision
    | some position => position ≤ t.nextN

def PendingRow.wake (row : PendingRow) : Option ℕ :=
    if row.reason = .gap then some row.wakeAt else none

def chainOf [Sha256] (e : Event) (epoch : ℕ) : ChainId := ⟨e.conversationId, e.userId, epoch⟩

namespace Receiver

variable {Secret Key : Type} {C : RatchetCrypto Secret Key (List UInt8)} [Sha256]
  [BincodeRead MsgHeader] {s s' : Receiver Key} {e : Event} {epoch : ℕ} {revision : ℤ}
  {wake : Option ℕ}

def Owes (s : Receiver Key) (p : PreparedChannelReceive Key) : Prop :=
  p ∈ s.owed ∧ p ∉ s.received.map OpenedMessage.prepared

/-- **Why an event need not be tried again yet**: its chain is about to be looked at, or does not
open it; or the event itself is owed, or a message of the chain is whose commit leaves a chain that
does not open it. -/
def Waits (C : RatchetCrypto Secret Key (List UInt8)) (s : Receiver Key) (e : Event) (epoch : ℕ)
    (revision : ℤ) (wake : Option ℕ) : Prop :=
  ∀ row c, s.db.receivers.get (chainOf e epoch) = some row → Holds row.checkpoint c →
    Woken s.db (chainOf e epoch) e.kind revision wake ∨ Blocked C c e wake ∨
    (∃ p, s.Owes p ∧ p.event = e.id) ∨
    ∃ p, s.Owes p ∧ p.chain = chainOf e epoch ∧ p.revision ≤ row.revision ∧
      (p.revision = row.revision → ∀ c', Holds p.candidate.checkpoint c' → Blocked C c' e wake)

structure Noted (C : RatchetCrypto Secret Key (List UInt8)) (s : Receiver Key)
    (e : Event) (epoch : ℕ)
    (revision : ℤ) (wake : Option ℕ) : Prop where
  header : senderMessageEpoch e.userId e.ciphertext = some epoch
  kind : isReceived e.kind = true
  wakes : WakesAt e wake
  bound : revision < 0 ∨ ∃ row, s.db.receivers.get (chainOf e epoch) = some row ∧
    revision ≤ row.keyRevision
  waits : Waits C s e epoch revision wake

/-- A step that leaves the row of the chain, and takes no reason away unless the event is owed. -/
theorem Noted.excused (h : Noted C s e epoch revision wake)
    (hrow : s'.db.receivers.get (chainOf e epoch) = s.db.receivers.get (chainOf e epoch))
    (hwoken : Woken s.db (chainOf e epoch) e.kind revision wake →
      Woken s'.db (chainOf e epoch) e.kind revision wake ∨ ∃ p, s'.Owes p ∧ p.event = e.id)
    (howes : ∀ p, s.Owes p → p.event = e.id ∨ p.chain = chainOf e epoch → s'.Owes p) :
    Noted C s' e epoch revision wake := by
  refine ⟨h.header, h.kind, h.wakes, hrow ▸ h.bound, fun row c hr hc => ?_⟩
  rw [hrow] at hr
  rcases h.waits row c hr hc with hw | hb | ⟨p, hp, heq⟩ | ⟨p, hp, hchain, hrest⟩
  · rcases hwoken hw with hw | hp
    · exact .inl hw
    · exact .inr (.inr (.inl hp))
  · exact .inr (.inl hb)
  · exact .inr (.inr (.inl ⟨p, howes p hp (.inl heq), heq⟩))
  · exact .inr (.inr (.inr ⟨p, howes p hp (.inr hchain), hchain, hrest⟩))

/-- A step that leaves the row of the chain, and takes no reason away. -/
theorem Noted.keeps (h : Noted C s e epoch revision wake)
    (hrow : s'.db.receivers.get (chainOf e epoch) = s.db.receivers.get (chainOf e epoch))
    (hwoken : Woken s.db (chainOf e epoch) e.kind revision wake →
      Woken s'.db (chainOf e epoch) e.kind revision wake)
    (howes : ∀ p, s.Owes p → p.event = e.id ∨ p.chain = chainOf e epoch → s'.Owes p) :
    Noted C s' e epoch revision wake :=
  h.excused hrow (fun hw => .inl (hwoken hw)) howes

variable {kind : EventKind} {db db' : ReceiverTables Key} {r : ℕ}

omit [Sha256] [BincodeRead MsgHeader] in
theorem woken_wake {κ chain n} (h : Woken db κ kind revision wake)
    (hretry : db'.retryChains = (db.wakeChainOn chain r n).retryChains) :
    Woken db' κ kind revision wake := by
  obtain ⟨t, ht, hw⟩ := h
  unfold Woken
  rw [hretry, get_retryChains_wakeChainOn]
  split_ifs with hκ
  · refine ⟨_, rfl, ?_⟩
    rw [ht]
    cases wake with
    | none =>
      have hw : revision < t.revision := hw
      show revision < ((max t.revision r : ℕ) : ℤ)
      omega
    | some position =>
      have hw : position ≤ t.nextN := hw
      show position ≤ max t.nextN n
      omega
  · exact ⟨t, ht, hw⟩

variable {κ : ChainId}

omit [Sha256] [BincodeRead MsgHeader] in
theorem woken_of_wake {n} (hretry : db'.retryChains = (db.wakeChainOn κ r n).retryChains)
    (hkind : isReceived kind = true)
    (h : match wake with | none => revision < r | some position => position ≤ n) :
    Woken db' κ kind revision wake := by
  unfold Woken
  rw [hretry, get_retryChains_wakeChainOn, if_pos ⟨rfl, hkind⟩]
  refine ⟨_, rfl, ?_⟩
  cases ht : db.retryChains.get (κ, kind) with
  | none =>
    cases wake with
    | none => exact h
    | some position => exact h
  | some t =>
    cases wake with
    | none =>
      have h : revision < r := h
      show revision < ((max t.revision r : ℕ) : ℤ)
      omega
    | some position =>
      have h : position ≤ n := h
      show position ≤ max t.nextN n
      omega

variable {d : SenderKeyDistribution Key} {row : ReceiverRow Key}

theorem Noted.of_wake (h : Noted C s e epoch revision wake) (hr : (r : ℤ) ≤ row.keyRevision)
    (hrow : s'.db.receivers.get (chainOf e epoch) = some row)
    (hd : checkpointDistribution row.checkpoint = .ok d)
    (hretry : s'.db.retryChains = (s.db.wakeChainOn (chainOf e epoch) r d.n.toNat).retryChains)
    (hlt : revision < r) : Noted C s' e epoch revision wake := by
  refine ⟨h.header, h.kind, h.wakes, .inr ⟨row, hrow, by omega⟩, fun row' c hr' hc => ?_⟩
  obtain rfl := mem_unique hrow hr'
  obtain rfl := Except.ok.inj (hd.symm.trans hc.distribution)
  cases wake with
  | none => exact .inl (woken_of_wake hretry h.kind hlt)
  | some position =>
    by_cases hreach : position ≤ c.n.toNat
    · exact .inl (woken_of_wake hretry h.kind hreach)
    · exact .inr (.inl (not_le.mp hreach))

/-- **Taking a distribution in keeps why an event waits.** -/
theorem Noted.distributed (h : Noted C s e epoch revision wake) {chain refresh}
    (hd : s.db.Distributed chain d refresh row s'.db) (ho : ∀ p, s.Owes p → s'.Owes p) :
    Noted C s' e epoch revision wake := by
  have howes : ∀ p, s.Owes p → p.event = e.id ∨ p.chain = chainOf e epoch → s'.Owes p :=
    fun p hp _ => ho p hp
  by_cases hκ : chainOf e epoch = chain
  · subst hκ
    have hrow : s'.db.receivers.get (chainOf e epoch) = some row := by rw [hd.rows, if_pos rfl]
    rcases hd.retry with ⟨hsame, hretry⟩ | ⟨d', hd', hretry⟩
    · refine h.keeps (hrow.trans hsame.symm) (fun hw => ?_) howes
      unfold Woken
      rw [hretry]
      exact hw
    · have htaking := hd.taking
      generalize hold : s.db.receivers.get (chainOf e epoch) = old at htaking
      cases htaking with
      | installed hcp =>
        refine h.of_wake le_rfl hrow hd' hretry ?_
        rcases h.bound with hneg | ⟨row', hrow', -⟩
        · exact hneg
        · rw [hold] at hrow'
          cases hrow'
      | kept hkept => exact h.keeps (hrow.trans hold.symm) (fun hw => woken_wake hw hretry) howes
      | @jumped old cp d'' hr hcp hdist =>
        refine h.of_wake le_rfl hrow hd' hretry ?_
        show revision < ((old.keyRevision + 1 : ℕ) : ℤ)
        rcases h.bound with hneg | ⟨row', hrow', hle⟩
        · omega
        · obtain rfl := mem_unique hold hrow'
          omega
  · refine h.keeps (by rw [hd.rows, if_neg hκ]) (fun hw => ?_) howes
    rcases hd.retry with ⟨-, hretry⟩ | ⟨d', -, hretry⟩
    · unfold Woken
      rw [hretry]
      exact hw
    · exact woken_wake hw hretry

variable {m : OpenedMessage Key}

/-- **Installing a message keeps why another event waits.** -/
theorem Noted.installed (h : Noted C s e epoch revision wake) {row c c'}
    (hi : s.db.Installs m.prepared row s'.db) (hc : Holds row.checkpoint c)
    (hc' : Holds m.prepared.candidate.checkpoint c') (hthins : SenderChain.Thins C c c')
    (hposition : m.prepared.candidate.nextPosition = c'.n) (hevent : m.prepared.event ≠ e.id)
    (howes : ∀ p, s.Owes p → p ≠ m.prepared → s'.Owes p) : Noted C s' e epoch revision wake := by
  by_cases hκ : chainOf e epoch = m.prepared.chain
  · have hrow' := hi.rows (chainOf e epoch)
    rw [if_pos hκ] at hrow'
    refine ⟨h.header, h.kind, h.wakes, ?_, fun row' c'' hr'' hc'' => ?_⟩
    · rcases h.bound with hneg | ⟨old, hold, hle⟩
      · exact .inl hneg
      · rw [hκ, hi.stored] at hold
        cases hold
        exact .inr ⟨_, hrow', hle⟩
    · obtain rfl := mem_unique hrow' hr''
      obtain rfl := hc'.unique hc''
      rcases h.waits row c (by rw [hκ, hi.stored]) hc with hw | hb | ⟨p, hp, heq⟩ |
        ⟨p, hp, hchain, hle, hlast⟩
      · exact .inl (woken_wake hw hi.retry)
      · rcases hb.thins hthins with hb | ⟨position, rfl, hreach⟩
        · exact .inr (.inl hb)
        · refine .inl (woken_of_wake (hκ ▸ hi.retry) h.kind ?_)
          rw [hposition]
          exact hreach
      · refine .inr (.inr (.inl ⟨p, howes p hp fun hpm => ?_, heq⟩))
        exact hevent (hpm ▸ heq)
      · -- the message that is installed is the one that is owed, or makes it late
        by_cases hpm : p = m.prepared
        · subst hpm
          exact .inr (.inl (hlast hi.current.symm c' hc'))
        · refine .inr (.inr
            (.inr ⟨p, howes p hp hpm, hchain, Nat.le_succ_of_le hle, fun heq => ?_⟩))
          have heq : p.revision = row.revision + 1 := heq
          omega
  · refine h.keeps (by rw [hi.rows, if_neg hκ]) (fun hw => woken_wake hw hi.retry)
      fun p hp hor => ?_
    refine howes p hp fun hpm => ?_
    subst hpm
    rcases hor with heq | heq
    · exact hevent heq
    · exact hκ heq.symm

variable {basis : ℕ × ReceiverCheckpoint Key}

/-- An attempt that failed on the checkpoint of its chain, or on what a message in memory leaves. -/
theorem noted_of_basis {c preceding}
    (hheader : senderMessageEpoch e.userId e.ciphertext = some epoch)
    (hkind : isReceived e.kind = true) (hwakes : WakesAt e wake)
    (hrow : s.db.receivers.get (chainOf e epoch) = some row)
    (hbasis : ReceiverTables.Basis row preceding basis) (hc : Holds basis.2 c)
    (hblocked : Blocked C c e wake)
    (howes : ∀ q, preceding = some q → q.revision = row.revision → s.Owes q ∧
      q.chain = chainOf e epoch) :
    Noted C s e epoch row.keyRevision wake := by
  refine ⟨hheader, hkind, hwakes, .inr ⟨row, hrow, le_rfl⟩, fun row' c' hr' hc' => ?_⟩
  obtain rfl := mem_unique hrow hr'
  cases hbasis with
  | stored =>
    obtain rfl := hc.unique hc'
    exact .inr (.inl hblocked)
  | @following q hrev =>
    obtain ⟨hq, hchain⟩ := howes q rfl hrev
    refine .inr (.inr (.inr ⟨q, hq, hchain, hrev.le, fun _ c'' hc'' => ?_⟩))
    obtain rfl := hc.unique hc''
    exact hblocked

/-! ### What careful runs keep -/

/-- What no step takes away. -/
structure Carries (s s' : Receiver Key) : Prop where
  retained : ∀ id x, s.db.retained.get id = some x → s'.db.retained.get id = some x
  authority : ∀ k b, s.db.authority.get k = some b → s'.db.authority.get k = some b
  processed : ∀ k, s.db.processed.has k = true → s'.db.processed.has k = true

variable {k : ConversationId × EventId}

omit [Sha256] [BincodeRead MsgHeader] in
theorem Carries.unprocessed (h : Carries s s')
    (hk : s'.db.processed.has k = false) : s.db.processed.has k = false := by
  cases hs : s.db.processed.has k with
  | false => rfl
  | true =>
    rw [h.processed k hs] at hk
    cases hk

structure Tried (C : RatchetCrypto Secret Key (List UInt8)) (s : Receiver Key) (a : Attempt) :
    Prop where
  stored : ∃ n, s.db.retained.get a.event.id = some (a.event, n)
  decided : ∃ b, s.db.authority.get (a.job, a.event.conversationId, a.event.id) = some b
  noted : ∀ epoch, a.epoch = some epoch →
    s.db.processed.has (a.event.conversationId, a.event.id) = false →
    Noted C s a.event epoch a.revision a.waitUntil

/-- A waiting event and its row. A row that was tried is of an order that has decided on the
event. -/
structure Listed (C : RatchetCrypto Secret Key (List UInt8)) (s : Receiver Key)
    (k : ConversationId × EventId) (row : PendingRow) (e : Event) : Prop where
  stored : ∃ n, s.db.retained.get k.2 = some (e, n)
  channel : e.conversationId = k.1
  author : row.author = e.userId
  kind : row.kind = e.kind
  decided : row.reason ≠ .fresh →
    ∃ job b, row.attemptJob = some job ∧ s.db.authority.get (job, k) = some b
  noted : row.reason ≠ .fresh → row.admitted = true → s.db.processed.has k = false →
    ∃ epoch, row.epoch = some epoch ∧ Noted C s e epoch row.attemptRevision row.wake

/-- **What careful runs keep.** -/
structure Watch (C : RatchetCrypto Secret Key (List UInt8)) (s : Receiver Key) : Prop where
  base : Inv C s
  ids : ∀ id x, s.db.retained.get id = some x → x.1.id = id
  chains : ∀ κ row, s.db.receivers.get κ = some row → ∃ c, Holds row.checkpoint c
  stored : ∀ m ∈ s.opened, ∃ n, s.db.retained.get m.event.id = some (m.event, n)
  opened : ∀ m ∈ s.opened, ∃ c, Holds m.prepared.candidate.checkpoint c
  owed : ∀ p ∈ s.owed, ∃ m ∈ s.opened, m.prepared = p
  attempts : ∀ a ∈ s.attempts, Tried C s a
  pending : ∀ k row, s.db.pending.get k = some row → ∃ e, Listed C s k row e
  admitted : ∀ channel job revision id b, s.db.source.get channel = some (job, revision) →
    s.db.authority.get (job, channel, id) = some b → ∃ x, s.db.retained.get id = some x ∧
      (isReceived x.1.kind = true → s.db.processed.has (channel, id) = false →
        ∃ row, s.db.pending.get (channel, id) = some row ∧ row.admitted = b)

theorem Tried.carry {a} (h : Tried C s a) (hc : Carries s s')
    (hn : ∀ epoch, s'.db.processed.has (a.event.conversationId, a.event.id) = false →
      Noted C s a.event epoch a.revision a.waitUntil →
      Noted C s' a.event epoch a.revision a.waitUntil) : Tried C s' a := by
  obtain ⟨n, hstored⟩ := h.stored
  obtain ⟨b, hdecided⟩ := h.decided
  exact ⟨⟨n, hc.retained _ _ hstored⟩, ⟨b, hc.authority _ _ hdecided⟩,
    fun epoch hepoch hun => hn epoch hun (h.noted epoch hepoch (hc.unprocessed hun))⟩

theorem Listed.carry {row} (h : Listed C s k row e) (hc : Carries s s')
    (hn : ∀ epoch, row.reason ≠ .fresh → row.admitted = true →
      row.epoch = some epoch → s'.db.processed.has k = false →
      Noted C s e epoch row.attemptRevision row.wake →
      Noted C s' e epoch row.attemptRevision row.wake) : Listed C s' k row e := by
  obtain ⟨n, hstored⟩ := h.stored
  refine ⟨⟨n, hc.retained _ _ hstored⟩, h.channel, h.author, h.kind, fun hr => ?_,
    fun hr hadm hun => ?_⟩
  · obtain ⟨job, b, hjob, hauth⟩ := h.decided hr
    exact ⟨job, b, hjob, hc.authority _ _ hauth⟩
  · obtain ⟨epoch, hepoch, hnoted⟩ := h.noted hr hadm (hc.unprocessed hun)
    exact ⟨epoch, hepoch, hn epoch hr hadm hepoch hun hnoted⟩

theorem Watch.carry (h : Watch C s) (hbase : Inv C s')
    (hids : ∀ id x, s'.db.retained.get id = some x → x.1.id = id)
    (hchains : ∀ κ row, s'.db.receivers.get κ = some row → ∃ c, Holds row.checkpoint c)
    (hc : Carries s s') (hauth : s'.db.authority = s.db.authority)
    (hsource : ∀ channel job revision id b, s'.db.source.get channel = some (job, revision) →
      s.db.authority.get (job, channel, id) = some b →
      ∃ revision, s.db.source.get channel = some (job, revision))
    (hpending : ∀ k row, s'.db.pending.get k = some row → s.db.pending.get k = some row)
    (hleft : ∀ k row, s.db.pending.get k = some row → s'.db.processed.has k = false →
      s'.db.pending.get k = some row)
    (hopened : ∀ m ∈ s'.opened, m ∈ s.opened ∨
      ((∃ n, s'.db.retained.get m.event.id = some (m.event, n)) ∧
        ∃ c, Holds m.prepared.candidate.checkpoint c))
    (hmore : ∀ m ∈ s.opened, m ∈ s'.opened)
    (howed : ∀ p ∈ s'.owed, p ∈ s.owed ∨ ∃ m ∈ s'.opened, m.prepared = p)
    (hattempts : ∀ a ∈ s'.attempts, a ∈ s.attempts ∨ Tried C s' a)
    (hn : ∀ e epoch revision wake, (∃ n, s.db.retained.get e.id = some (e, n)) →
      s'.db.processed.has (e.conversationId, e.id) = false →
      Noted C s e epoch revision wake → Noted C s' e epoch revision wake) : Watch C s' := by
  refine ⟨hbase, hids, hchains, fun m hm => ?_, fun m hm => ?_, fun p hp => ?_, fun a ha => ?_,
    fun k row hrow => ?_, fun channel job revision id b hsrc hdec => ?_⟩
  · rcases hopened m hm with hm | hm
    · obtain ⟨n, hn⟩ := h.stored m hm
      exact ⟨n, hc.retained _ _ hn⟩
    · exact hm.1
  · rcases hopened m hm with hm | hm
    · exact h.opened m hm
    · exact hm.2
  · rcases howed p hp with hp | hp
    · obtain ⟨m, hm, rfl⟩ := h.owed p hp
      exact ⟨m, hmore m hm, rfl⟩
    · exact hp
  · rcases hattempts a ha with ha | ha
    · exact (h.attempts a ha).carry hc fun epoch hun =>
        hn _ _ _ _ (h.attempts a ha).stored hun
    · exact ha
  · obtain ⟨e, he⟩ := h.pending k row (hpending k row hrow)
    obtain ⟨n, hstored⟩ := he.stored
    have hid : e.id = k.2 := h.ids _ _ hstored
    have hk : (e.conversationId, e.id) = k := by rw [he.channel, hid]
    refine ⟨e, he.carry hc fun epoch _ _ _ hun => hn e _ _ _ ⟨n, ?_⟩ ?_⟩
    · rw [hid]
      exact hstored
    · rw [hk]
      exact hun
  · rw [hauth] at hdec
    obtain ⟨revision', hsrc'⟩ := hsource _ _ _ _ _ hsrc hdec
    obtain ⟨x, hx, hrow⟩ := h.admitted _ _ _ _ _ hsrc' hdec
    refine ⟨x, hc.retained _ _ hx, fun hkind hun => ?_⟩
    obtain ⟨row, hrow, hadm⟩ := hrow hkind (hc.unprocessed hun)
    exact ⟨row, hleft _ _ hrow hun, hadm⟩

/-- A step that leaves the chains, the decisions and the waiting events. -/
theorem Watch.quiet (h : Watch C s) {db} (hr : db.receivers = s.db.receivers)
    (ht : db.retryChains = s.db.retryChains) (ha : db.authority = s.db.authority)
    (hd : db.processed = s.db.processed) (hp : db.pending = s.db.pending)
    (hret : ∀ id x, s.db.retained.get id = some x → db.retained.get id = some x)
    (hids : ∀ id x, db.retained.get id = some x → x.1.id = id)
    (hsource : ∀ channel job revision id b, db.source.get channel = some (job, revision) →
      s.db.authority.get (job, channel, id) = some b →
      ∃ revision, s.db.source.get channel = some (job, revision)) :
        Watch C { s with db := db } := by
  have hdone : ∀ k, s.db.processed.has k = true → db.processed.has k = true := by
    intro k hk
    rw [hd]
    exact hk
  refine h.carry (h.base.quiet hr hdone rfl rfl) hids (fun κ row hrow => ?_)
    ⟨hret, fun k b hb => ?_, hdone⟩ ha hsource (fun k row hrow => ?_) (fun k row hrow _ => ?_)
    (fun m hm => .inl hm) (fun m hm => hm) (fun p hp => .inl hp) (fun a ha => .inl ha)
    (fun e epoch revision wake _ _ hn => ?_)
  · exact h.chains κ row (hr ▸ hrow)
  · rw [ha]
    exact hb
  · exact hp ▸ hrow
  · rw [hp]
    exact hrow
  · refine hn.keeps (by rw [hr]) (fun hw => ?_) fun p hp _ => hp
    unfold Woken
    rw [ht]
    exact hw

theorem Watch.retained (h : Watch C s) (e n) : Watch C { s with
    db := { s.db with retained := s.db.retained.insertOrIgnore e.id (e, n) } } := by
  refine h.quiet rfl rfl rfl rfl rfl (fun id x hx => ?_) (fun id x hx => ?_)
    fun _ _ revision _ _ hs _ => ⟨revision, hs⟩
  · rw [get_insertOrIgnore]
    split_ifs with hid
    · subst hid
      rw [hx]
      rfl
    · exact hx
  · replace hx : (s.db.retained.insertOrIgnore e.id (e, n)).get id = some x := hx
    rw [get_insertOrIgnore] at hx
    split_ifs at hx with hid
    · subst hid
      cases hold : s.db.retained.get e.id with
      | none =>
        rw [hold] at hx
        cases hx
        rfl
      | some y =>
        rw [hold] at hx
        cases hx
        exact h.ids _ _ hold
    · exact h.ids _ _ hx

variable {channel : ConversationId} {job : JobId}

theorem Watch.published (h : Watch C s) (revision) (hmay : s.mayPublish channel job = true) :
    Watch C { s with
      db := { s.db with source := s.db.source.set channel (job, revision) } } := by
  refine h.quiet rfl rfl rfl rfl rfl (fun _ _ => id) h.ids fun c job' revision' id b hs hb => ?_
  replace hs : (s.db.source.set channel (job, revision)).get c = some (job', revision') := hs
  rw [get_set] at hs
  split_ifs at hs with hc
  · subst hc
    cases hs
    rcases Bool.or_eq_true_iff.mp hmay with hsame | hnew
    · obtain ⟨source, hsource, heq⟩ := (any_eq_true _ _).mp hsame
      obtain ⟨job', revision'⟩ := source
      have heq : job' = job := by simpa using heq
      exact ⟨revision', heq ▸ hsource⟩
    · have := all_eq_true.mp hnew _ (get_eq_some.mp hb)
      simp at this
  · exact ⟨revision', hs⟩

theorem Watch.distributed (h : Watch C s) {chain refresh row db}
    (hd : s.db.Distributed chain d refresh row db) :
    Watch C { s with db := db, history := s.history ++ [(chain, .distributed d refresh)] } := by
  have hret : db.retained = s.db.retained := by rw [hd.rest]
  have hauth : db.authority = s.db.authority := by rw [hd.rest]
  have hdone : db.processed = s.db.processed := by rw [hd.rest]
  have hpend : db.pending = s.db.pending := by rw [hd.rest]
  have hsrc : db.source = s.db.source := by rw [hd.rest]
  refine h.carry (h.base.distributed hd) (fun id x hx => ?_) (fun κ row' hrow => ?_)
    ⟨fun id x hx => ?_, fun k b hb => ?_, fun k hk => ?_⟩ hauth (fun c j r id b hs _ => ?_)
    (fun k row hrow => ?_) (fun k row hrow _ => ?_) (fun m hm => .inl hm) (fun m hm => hm)
    (fun p hp => .inl hp) (fun a ha => .inl ha) (fun e epoch revision wake _ _ hn => ?_)
  · exact h.ids id x (hret ▸ hx)
  · replace hrow : db.receivers.get κ = some row' := hrow
    rw [hd.rows] at hrow
    split_ifs at hrow with hκ
    · cases hrow
      have htaking := hd.taking
      generalize hold : s.db.receivers.get chain = old at htaking
      cases htaking with
      | installed hcp =>
        obtain ⟨cp, hcp', hholds⟩ := holds_initial d
        obtain rfl := Except.ok.inj (hcp'.symm.trans hcp)
        exact ⟨_, hholds⟩
      | kept => exact h.chains _ _ hold
      | jumped hr hcp =>
        obtain ⟨c, hc⟩ := h.chains _ _ hold
        obtain ⟨cp, hcp', hholds⟩ := hc.refresh d
        obtain rfl := Except.ok.inj (hcp'.symm.trans hcp)
        exact ⟨_, hholds⟩
    · exact h.chains _ _ hrow
  · exact hret ▸ hx
  · exact hauth ▸ hb
  · exact hdone ▸ hk
  · exact ⟨r, hsrc ▸ hs⟩
  · exact hpend ▸ hrow
  · exact hpend ▸ hrow
  · refine hn.distributed hd fun p hp => ?_
    unfold Owes at hp ⊢
    simpa [received] using hp

variable {n : ℕ}

/-- The row of an event that is projected waits to be tried. -/
theorem Watch.queued (h : Watch C s) (rank receive) (hstored : s.db.retained.get e.id = some (e, n))
    (hnew : s.db.authority.get (job, e.conversationId, e.id) = none) :
    ∃ row, (∀ k, (s.db.queueOn e job rank receive).pending.get k =
        if k = (e.conversationId, e.id) then some row else s.db.pending.get k) ∧
      row.reason = .fresh ∧ row.admitted = receive ∧ row.author = e.userId ∧ row.kind = e.kind := by
  refine ⟨_, fun k => get_upsert _ _ _ _ k, ?_⟩
  cases hold : s.db.pending.get (e.conversationId, e.id) with
  | none => exact ⟨rfl, rfl, rfl, rfl⟩
  | some row =>
    obtain ⟨e', he'⟩ := h.pending _ _ hold
    obtain ⟨n', hn'⟩ := he'.stored
    obtain ⟨rfl, -⟩ := Prod.mk.inj (mem_unique hstored hn')
    refine ⟨?_, rfl, he'.author, he'.kind⟩
    show (if (row.attemptJob.any fun old => decide (old ≠ job)) = true then WaitReason.fresh
      else row.reason) = .fresh
    split_ifs with hany
    · rfl
    · -- a row that was tried was so in an order that has decided on the event
      by_contra hreason
      obtain ⟨job', b, hjob, hauth⟩ := he'.decided hreason
      rw [hjob] at hany
      have heq : job' = job := by simpa using hany
      rw [heq, hnew] at hauth
      cases hauth

theorem Watch.projected (h : Watch C s) {rank n processed receive}
    (hp : s.db.Projected e job rank processed receive db)
    (hstored : s.db.retained.get e.id = some (e, n))
    (hsource : s.db.source.get e.conversationId = some (job, r))
    (hdone : processed = true → s.db.processed.has (e.conversationId, e.id) = true) :
    Watch C { s with db := db } := by
  have hret : db.retained = s.db.retained := by rw [hp.rest]
  have hrec : db.receivers = s.db.receivers := by rw [hp.rest]
  have hretry : db.retryChains = s.db.retryChains := by rw [hp.rest]
  have hsrc : db.source = s.db.source := by rw [hp.rest]
  obtain ⟨row, hqueue, hfresh, hadm, hauthor, hkind⟩ :=
    h.queued rank receive hstored hp.new
  have hc : Carries s { s with db := db } := by
    refine ⟨fun id x hx => hret ▸ hx, fun k b hb => ?_, hp.done⟩
    rw [hp.authority, if_neg fun hk => ?_]
    · exact hb
    · rw [hk, hp.new] at hb
      cases hb
  have hn : ∀ e epoch revision wake, Noted C s e epoch revision wake →
      Noted C { s with db := db } e epoch revision wake := by
    intro e epoch revision wake hnoted
    refine hnoted.keeps (by rw [hrec]) (fun hw => ?_) fun p hp _ => hp
    unfold Woken
    rw [hretry]
    exact hw
  have hother : ∀ k, k ≠ (e.conversationId, e.id) → db.pending.get k = s.db.pending.get k := by
    intro k hk
    rw [hp.pending]
    split_ifs
    · rw [hqueue, if_neg hk]
    · rfl
  have hmine : processed = false → isReceived e.kind = true →
      db.pending.get (e.conversationId, e.id) = some row := by
    intro hproc hrec
    rw [hp.pending, if_pos (by simp [isPending, hrec, hproc]), hqueue, if_pos rfl]
  refine ⟨h.base.quiet hrec hp.done rfl rfl, fun id x hx => h.ids id x (hret ▸ hx),
    fun κ row hrow => h.chains κ row (hrec ▸ hrow), fun m hm => ?_, h.opened, h.owed,
      fun a ha => ?_,
    fun k row' hrow => ?_, fun channel job' revision' id b hs hb => ?_⟩
  · obtain ⟨n, hn⟩ := h.stored m hm
    exact ⟨n, hret ▸ hn⟩
  · exact (h.attempts a ha).carry hc fun epoch _ => hn _ _ _ _
  · have hold : s.db.pending.get k = some row' → ∃ e, Listed C { s with db := db } k row' e := by
      intro hold
      obtain ⟨e', he'⟩ := h.pending _ _ hold
      exact ⟨e', he'.carry hc fun epoch _ _ _ _ => hn _ _ _ _⟩
    replace hrow : db.pending.get k = some row' := hrow
    rw [hp.pending] at hrow
    split_ifs at hrow
    · rw [hqueue] at hrow
      split_ifs at hrow with hk
      · cases hrow
        subst hk
        exact ⟨e, ⟨n, hret ▸ hstored⟩, rfl, hauthor, hkind, fun hne => absurd hfresh hne,
          fun hne => absurd hfresh hne⟩
      · exact hold hrow
    · exact hold hrow
  · replace hs : s.db.source.get channel = some (job', revision') := hsrc ▸ hs
    replace hb : db.authority.get (job', channel, id) = some b := hb
    rw [hp.authority] at hb
    split_ifs at hb with hk
    · obtain ⟨-, hk⟩ := Prod.mk.inj hk
      obtain ⟨rfl, rfl⟩ := Prod.mk.inj hk
      cases hb
      refine ⟨(e, n), hret ▸ hstored, fun hrec hun => ⟨row, hmine ?_ hrec, hadm⟩⟩
      cases hproc : processed with
      | false => rfl
      | true =>
        have hun : db.processed.has (e.conversationId, e.id) = false := hun
        rw [hp.done _ (hdone hproc)] at hun
        cases hun
    · obtain ⟨x, hx, hrow⟩ := h.admitted _ _ _ _ _ hs hb
      refine ⟨x, hret ▸ hx, fun hrec hun => ?_⟩
      obtain ⟨row', hrow', hadm'⟩ := hrow hrec (hc.unprocessed hun)
      refine ⟨row', (hother _ fun heq => hk ?_).trans hrow', hadm'⟩
      obtain ⟨rfl, rfl⟩ := Prod.mk.inj heq
      obtain ⟨rfl, -⟩ := Prod.mk.inj (mem_unique hsource hs)
      rfl

theorem Watch.opening (h : Watch C s) {cp c} (hm : OpenedFrom C s.db m cp)
    (hstored : s.db.retained.get m.event.id = some (m.event, n))
    (hc : Holds m.prepared.candidate.checkpoint c) :
    Watch C { s with opened := s.opened ++ [m] } := by
  refine h.carry (h.base.opening hm) h.ids h.chains ⟨fun _ _ => id, fun _ _ => id, fun _ => id⟩
    rfl (fun _ _ r _ _ hs _ => ⟨r, hs⟩) (fun _ _ => id) (fun _ _ hrow _ => hrow)
    (fun m' hm' => ?_) (fun m' hm' => mem_append_left _ hm') (fun p hp => .inl hp)
    (fun a ha => .inl ha) (fun e epoch revision wake _ _ hn => ?_)
  · rcases mem_append.mp hm' with hm' | hm'
    · exact .inl hm'
    · obtain rfl := mem_singleton.mp hm'
      exact .inr ⟨⟨n, hstored⟩, c, hc⟩
  · exact hn.keeps rfl id fun p hp _ => hp

variable {t : Table (ConversationId × EventKind) ScheduleRow}

/-- A step on the queues of the receiver alone, and on the order in which it takes the channels. -/
theorem Watch.enqueued (h : Watch C s) {as ps} (hmore : ∀ p ∈ s.owed, p ∈ ps)
    (hps : ∀ p ∈ ps, p ∈ s.owed ∨ ∃ m ∈ s.opened, m.prepared = p) (has : ∀ a ∈ as, a ∈ s.attempts ∨
      Tried C { s with db := { s.db with schedule := t }, attempts := as, owed := ps } a) :
    Watch C { s with db := { s.db with schedule := t }, attempts := as, owed := ps } :=
  h.carry (h.base.quiet rfl (fun _ => id) rfl rfl) h.ids h.chains
    ⟨fun _ _ => id, fun _ _ => id, fun _ => id⟩ rfl (fun _ _ r _ _ hs _ => ⟨r, hs⟩)
    (fun _ _ => id) (fun _ _ hrow _ => hrow) (fun _ hm => .inl hm) (fun _ => id) hps has
    fun _ _ _ _ _ _ hn => hn.keeps rfl id fun p hp _ => ⟨hmore p hp.1, hp.2⟩

theorem Watch.tried (h : Watch C s) {a qs} (hqs : ∀ q ∈ qs, ∃ m ∈ s.opened, m.prepared = q)
    (ha : Tried C { s with attempts := s.attempts ++ [a], owed := s.owed ++ qs } a) :
    Watch C { s with attempts := s.attempts ++ [a], owed := s.owed ++ qs } := by
  refine h.enqueued (fun p hp => mem_append_left _ hp)
    (fun p hp => (mem_append.mp hp).imp_right (hqs p)) fun a' ha' => ?_
  rcases mem_append.mp ha' with ha' | ha'
  · exact .inl ha'
  · obtain rfl := mem_singleton.mp ha'
    exact .inr ha

omit [Sha256] [BincodeRead MsgHeader] in
theorem wake_noted (row : PendingRow) (a epoch) : (row.noted a epoch).wake = a.waitUntil := by
  unfold PendingRow.wake PendingRow.noted
  cases a.waitUntil <;> rfl

theorem Watch.dropped (h : Watch C s) (a) : Watch C { s with attempts := s.attempts.erase a } :=
  h.enqueued (fun _ => id) (fun _ hp => .inl hp) fun _ ha => .inl (mem_of_mem_erase ha)

theorem Watch.retired (h : Watch C s) (k) : Watch C { s with
    db := { s.db with
      processed := s.db.processed.insertOrIgnore k 3
      pending := s.db.pending.erase k } } := by
  have hdone : ∀ k', (s.db.processed.insertOrIgnore k 3).has k' =
      (decide (k' = k) || s.db.processed.has k') := has_insertOrIgnore _ _ _
  have hmore : ∀ k', s.db.processed.has k' = true →
      (s.db.processed.insertOrIgnore k 3).has k' = true := by
    intro k' hk
    rw [hdone, hk, Bool.or_true]
  refine h.carry (h.base.quiet rfl hmore rfl rfl) h.ids h.chains
    ⟨fun _ _ => id, fun _ _ => id, hmore⟩ rfl (fun _ _ r _ _ hs _ => ⟨r, hs⟩)
    (fun _ _ hrow => get_of_get_erase hrow) (fun k' row hrow hun => ?_) (fun _ hm => .inl hm)
    (fun _ => id) (fun _ hp => .inl hp) (fun _ ha => .inl ha)
    fun _ _ _ _ _ _ hn => hn.keeps rfl id fun _ hp _ => hp
  have hun : (s.db.processed.insertOrIgnore k 3).has k' = false := hun
  rw [hdone] at hun
  rw [get_erase, if_neg (by simpa using (Bool.or_eq_false_iff.mp hun).1)]
  exact hrow

theorem Watch.noted (h : Watch C s) {a} (ha : a ∈ s.attempts) (hepoch : a.epoch = some epoch) :
    Watch C { s with
      db := { s.db with
        pending := s.db.pending.modify (a.event.conversationId, a.event.id) fun row =>
          row.noted a epoch } } := by
  have hget : ∀ k, (s.db.pending.modify (a.event.conversationId, a.event.id) fun row =>
      row.noted a epoch).get k = if k = (a.event.conversationId, a.event.id) then
        (s.db.pending.get k).map fun row => row.noted a epoch else s.db.pending.get k :=
    get_modify _ _ _
  have hc : Carries s { s with db := { s.db with
      pending := s.db.pending.modify (a.event.conversationId, a.event.id) fun row =>
        row.noted a epoch } } := ⟨fun _ _ => id, fun _ _ => id, fun _ => id⟩
  have hn : ∀ e epoch' revision wake, Noted C s e epoch' revision wake →
      Noted C { s with db := { s.db with
        pending := s.db.pending.modify (a.event.conversationId, a.event.id) fun row =>
          row.noted a epoch } } e epoch' revision wake :=
    fun e epoch' revision wake hnoted => hnoted.keeps rfl id fun _ hp _ => hp
  have htried := h.attempts a ha
  refine ⟨h.base.quiet rfl (fun _ => id) rfl rfl, h.ids, h.chains, h.stored, h.opened, h.owed,
    fun a' ha' => (h.attempts a' ha').carry hc fun _ _ => hn _ _ _ _, fun k row hrow => ?_,
    fun channel job revision id b hs hb => ?_⟩
  · replace hrow := (hget k).symm.trans hrow
    split_ifs at hrow with hk
    · obtain ⟨old, hold, rfl⟩ := map_eq_some_iff.mp hrow
      obtain ⟨e, he⟩ := h.pending k old hold
      obtain ⟨n, hstored⟩ := he.stored
      obtain ⟨n', hstored'⟩ := htried.stored
      subst hk
      obtain ⟨rfl, -⟩ := Prod.mk.inj (mem_unique hstored' hstored)
      obtain ⟨b, hb⟩ := htried.decided
      refine ⟨a.event, ⟨n, hstored⟩, rfl, he.author, he.kind, fun _ => ⟨a.job, b, rfl, hb⟩,
        fun _ _ hun => ⟨epoch, rfl, ?_⟩⟩
      rw [wake_noted]
      exact hn _ _ _ _ (htried.noted epoch hepoch hun)
    · obtain ⟨e, he⟩ := h.pending k row hrow
      exact ⟨e, he.carry hc fun _ _ _ _ _ => hn _ _ _ _⟩
  · obtain ⟨x, hx, hrow⟩ := h.admitted _ _ _ _ _ hs hb
    refine ⟨x, hx, fun hrec hun => ?_⟩
    obtain ⟨row, hrow, hadm⟩ := hrow hrec hun
    rw [hget, hrow]
    split_ifs
    · exact ⟨_, rfl, hadm⟩
    · exact ⟨row, rfl, hadm⟩

theorem Watch.installed (h : Watch C s) {row db} (hmem : m ∈ s.opened)
    (hi : s.db.Installs m.prepared row db) (hq : ∀ q, m.follows = some q → Consumed s.db q) :
    Watch C { s with db := db, history := s.history ++ [(m.prepared.chain, .received m)] } := by
  have hret : db.retained = s.db.retained := by rw [hi.rest]
  have hauth : db.authority = s.db.authority := by rw [hi.rest]
  have hsrc : db.source = s.db.source := by rw [hi.rest]
  obtain ⟨cp, hfrom⟩ := h.base.opened m hmem
  obtain ⟨c, hc⟩ := h.chains _ _ hi.stored
  have hcp : row.checkpoint = cp := hfrom.current hi hq
  obtain ⟨c', hthins, hc', hposition⟩ := thins_of_opened hc (hcp ▸ hfrom.opens)
  refine h.carry (h.base.installed hmem hi hq) (fun id x hx => ?_) (fun κ row' hrow => ?_)
    ⟨fun id x hx => ?_, fun k b hb => ?_, fun k hk => ?_⟩ hauth (fun _ _ r _ _ hs _ => ?_)
    (fun k row' hrow => ?_) (fun k row' hrow hun => ?_) (fun _ hm => .inl hm) (fun _ => id)
    (fun _ hp => .inl hp) (fun _ ha => .inl ha) (fun e epoch revision wake hstored hun hn => ?_)
  · exact h.ids id x (hret ▸ hx)
  · replace hrow := (hi.rows κ).symm.trans hrow
    split_ifs at hrow with hκ
    · cases hrow
      exact ⟨c', hc'⟩
    · exact h.chains κ row' hrow
  · exact hret ▸ hx
  · exact hauth ▸ hb
  · rw [hi.done, hk, Bool.or_true]
  · exact ⟨r, hsrc ▸ hs⟩
  · replace hrow : db.pending.get k = some row' := hrow
    rw [hi.pending] at hrow
    exact get_of_get_erase hrow
  · have hun : db.processed.has k = false := hun
    rw [hi.done] at hun
    rw [hi.pending, get_erase, if_neg (by simpa using (Bool.or_eq_false_iff.mp hun).1)]
    exact hrow
  · refine hn.installed hi hc hc' hthins hposition (fun hevent => ?_) fun p hp hne => ?_
    · -- the event itself is processed now
      obtain ⟨n, hstored⟩ := hstored
      obtain ⟨n', hstored'⟩ := h.stored m hmem
      rw [← hfrom.event, hevent, hstored] at hstored'
      obtain ⟨rfl, -⟩ := Prod.mk.inj (some.inj hstored')
      have hun : db.processed.has (m.event.conversationId, m.event.id) = false := hun
      rw [hi.done, hfrom.channel, hfrom.event] at hun
      simp at hun
    · refine ⟨hp.1, fun hmem' => ?_⟩
      have hreceived : ({ s with
          db := db, history := s.history ++ [(m.prepared.chain, .received m)] } :
            Receiver Key).received = s.received ++ [m] := by
        simp [received]
      rw [hreceived, map_append] at hmem'
      rcases mem_append.mp hmem' with hmem' | hmem'
      · exact hp.2 hmem'
      · exact hne (by simpa using hmem')

/-- An admitted row that waits has nothing to do with a chain that is taken out, or it was left
out. -/
theorem Listed.not_woken {row excluded t} (h : Listed C s k row e) (hreason : row.reason ≠ .fresh)
    (hadm : row.admitted = true) (hrow : s.db.pending.get k = some row)
    (hepoch : row.epoch = some epoch) (hκ : chainOf e epoch = κ)
    (ht : s.db.retryChains.get (κ, e.kind) = some t)
    (hids : s.db.retryIds κ e.kind excluded t = .ok []) (hleft : excluded ≠ some k.2) :
    ¬ Woken s.db κ e.kind row.attemptRevision row.wake := by
  subst hκ
  obtain ⟨n, hstored⟩ := h.stored
  obtain ⟨ids, hkey, hgap⟩ := bind_eq_ok.mp hids
  have hnil : ids = [] := by
    by_contra hne
    rw [if_neg hne] at hgap
    exact hne (Except.ok.inj hgap)
  subst hnil
  rw [if_pos rfl] at hgap
  have hkey := not_of_readPage hkey hrow hstored
  have hgap := not_of_readPage hgap hrow hstored
  rintro ⟨t', ht', hw⟩
  obtain rfl := mem_unique ht ht'
  unfold PendingRow.wake at hw
  cases hr : row.reason with
  | fresh => exact hreason hr
  | key =>
    rw [hr] at hw
    have hw : row.attemptRevision < t.revision := hw
    simp [waitsFor, chainOf, h.channel, h.kind, hr, hadm, hleft, h.author, hepoch,
      hw] at hkey
  | gap =>
    rw [hr] at hw
    have hw : row.wakeAt ≤ t.nextN := hw
    simp [waitsFor, chainOf, h.channel, h.kind, hr, hadm, hleft, h.author, hepoch,
      hw] at hgap

variable {left : Option (OpenedMessage Key)}

/-- A selection that leaves the chains that may have become able to open more. -/
theorem Watch.scheduled (h : Watch C s) (hleft : ∀ m, left = some m → m ∈ s.opened)
    (hdb : db = { s.db with schedule := t }) : Watch C (s.selected left db) := by
  subst hdb
  refine h.enqueued (fun p hp => mem_append_left _ hp)
    (fun p hp => (mem_append.mp hp).imp_right fun hp => ?_) fun a ha => .inl ha
  obtain ⟨m, hm, rfl⟩ := map_eq_some_iff.mp (mem_toList.mp hp)
  exact ⟨m, hleft m hm, rfl⟩

theorem Watch.exhausted (h : Watch C s) {row} (hleft : ∀ m, left = some m → m ∈ s.opened)
    (hquiet : ∀ a ∈ s.attempts, ¬ (a.event.conversationId = κ.channel ∧ a.event.kind = kind))
    (hrow : s.db.retryChains.get (κ, kind) = some row)
    (hids : s.db.retryIds κ kind (left.map fun m => m.prepared.event) row = .ok []) :
    Watch C (s.selected left { s.db with
      schedule := t, retryChains := s.db.retryChains.erase (κ, kind) }) := by
  have howes : ∀ p, s.Owes p → (s.selected left { s.db with
      schedule := t, retryChains := s.db.retryChains.erase (κ, kind) }).Owes p :=
    fun p hp => ⟨mem_append_left _ hp.1, hp.2⟩
  have hc : Carries s (s.selected left { s.db with
      schedule := t, retryChains := s.db.retryChains.erase (κ, kind) }) :=
    ⟨fun _ _ => id, fun _ _ => id, fun _ => id⟩
  have hother : ∀ e epoch revision wake, ¬ (chainOf e epoch = κ ∧ e.kind = kind) →
      Noted C s e epoch revision wake → Noted C (s.selected left { s.db with
        schedule := t, retryChains :=
          s.db.retryChains.erase (κ, kind) }) e epoch revision wake := by
    intro e epoch revision wake hne hn
    refine hn.keeps rfl (fun hw => ?_) fun p hp _ => howes p hp
    obtain ⟨t', ht', hw⟩ := hw
    refine ⟨t', ?_, hw⟩
    show (s.db.retryChains.erase (κ, kind)).get (chainOf e epoch, e.kind) = some t'
    rw [get_erase, if_neg fun heq => hne (Prod.mk.inj heq)]
    exact ht'
  refine ⟨h.base.quiet rfl (fun _ => id) rfl rfl, h.ids, h.chains, h.stored, h.opened,
    fun p hp => ?_, fun a ha => ?_, fun k row' hrow' => ?_, h.admitted⟩
  · rcases mem_append.mp hp with hp | hp
    · exact h.owed p hp
    · obtain ⟨m, hm, rfl⟩ := map_eq_some_iff.mp (mem_toList.mp hp)
      exact ⟨m, hleft m hm, rfl⟩
  · refine (h.attempts a ha).carry hc fun epoch _ => hother _ _ _ _ fun heq => ?_
    exact hquiet a ha ⟨congrArg ChainId.channel heq.1, heq.2⟩
  · obtain ⟨e, he⟩ := h.pending k row' hrow'
    refine ⟨e, he.carry hc fun epoch hreason hadm hepoch hun hn => ?_⟩
    by_cases heq : chainOf e epoch = κ ∧ e.kind = kind
    · obtain ⟨hκ, rfl⟩ := heq
      refine hn.excused rfl (fun hw => .inr ?_) fun p hp _ => howes p hp
      by_cases hx : (left.map fun m => m.prepared.event) = some k.2
      · -- the event was left out, so the message is owed
        obtain ⟨m, hm, hevent⟩ := map_eq_some_iff.mp hx
        have hopened := hleft m hm
        obtain ⟨cp, hfrom⟩ := h.base.opened m hopened
        obtain ⟨n, hstored⟩ := he.stored
        have hid : e.id = k.2 := h.ids _ _ hstored
        refine ⟨m.prepared, ⟨mem_append_right _ ?_, fun hrec => ?_⟩, hevent.trans hid.symm⟩
        · rw [hm]
          exact mem_singleton_self _
        · obtain ⟨m', hm', heq⟩ := mem_map.mp hrec
          have hdone := (h.base.consumed m' hm').done
          obtain ⟨n', hstored'⟩ := h.stored m hopened
          rw [← hfrom.event, hevent, hstored] at hstored'
          obtain ⟨rfl, -⟩ := Prod.mk.inj (some.inj hstored')
          rw [heq, hfrom.channel, he.channel, hevent] at hdone
          have hun : s.db.processed.has k = false := hun
          rw [show ((k.1, k.2) : ConversationId × EventId) = k from rfl, hun] at hdone
          cases hdone
      · exact absurd (hκ ▸ hw) (he.not_woken hreason hadm hrow' hepoch hκ hrow hids hx)
    · exact hother _ _ _ _ heq hn

/-- **A selection.** -/
theorem Watch.selected (h : Watch C s) {owner left page db}
    (hleft : ∀ m, left = some m → m ∈ s.opened)
    (hquiet : ∀ a ∈ s.attempts, ¬ (a.event.conversationId = channel ∧ a.event.kind = kind))
    (hs : s.db.Selected owner channel kind (left.map fun m => m.prepared.event) page db) :
    Watch C (s.selected left db) := by
  cases hs with
  | unseen => exact h.scheduled hleft rfl
  | nothing => exact h.scheduled hleft rfl
  | found hfound =>
    cases hfound with
    | fresh => exact h.scheduled hleft rfl
    | @retried t ids κ row hκ hrow hids =>
      by_cases hnil : ids = []
      · subst hnil hκ
        rw [if_pos rfl]
        exact h.exhausted hleft hquiet hrow hids
      · rw [if_neg hnil]
        exact h.scheduled hleft rfl

/-! ### Runs -/

omit [BincodeRead MsgHeader] in
theorem chain_of_onChain {q : PreparedChannelReceive Key}
    (h : onChain e epoch q = true) : q.chain = chainOf e epoch := by
  have h : q.channel = e.conversationId ∧ q.candidate.author = e.userId ∧
    q.candidate.epoch = epoch := by
    simpa [onChain, and_assoc] using h
  rw [PreparedChannelReceive.chain, h.1, h.2.1, h.2.2]
  rfl

variable {prior : Option (PreparedChannelReceive Key)}

/-- What a message is opened on is the checkpoint of a valid chain. -/
theorem Watch.holds_basis (h : Watch C s)
    (hprior : ∀ q, prior = some q → ∃ m ∈ s.opened, m.prepared = q)
    (hrow : s.db.receivers.get κ = some row) (hbasis : ReceiverTables.Basis row prior basis) :
    ∃ c, Holds basis.2 c := by
  cases hbasis with
  | stored => exact h.chains κ row hrow
  | following =>
    obtain ⟨m, hm, rfl⟩ := hprior _ rfl
    exact h.opened m hm

/-- **The first transaction of a receive.** -/
theorem Watch.prepares (h : Watch C s) {owner} {r : Preparation Key}
    (hstored : s.db.retained.get e.id = some (e, n))
    (hprior : ∀ q, prior = some q → ∃ m ∈ s.opened, m.prepared = q)
    (hp : ReceiverTables.Prepares C s.db owner e prior r) : Watch C (s.prepared e prior r) := by
  have hfilter : ∀ (f : PreparedChannelReceive Key → Bool) q, prior.filter f = some q →
      ∃ m ∈ s.opened, m.prepared = q :=
    fun f q hq => hprior q (filter_eq_some_iff.mp hq).1
  have howed : ∀ (f : PreparedChannelReceive Key → Bool), ∀ q ∈ (prior.filter f).toList,
      ∃ m ∈ s.opened, m.prepared = q := fun f q hq => hfilter f q (mem_toList.mp hq)
  cases r with
  | ignored => exact h
  | prepared p =>
    obtain ⟨cp, hfrom⟩ := openedFrom_prepares hp
    obtain _ | _ | _ | @⟨job, sourceRevision, epoch, row, basis, _, hmay, hepoch, hrow,
      hbasis, hopen⟩ :=
      hp
    obtain ⟨c, hc⟩ := h.holds_basis (hfilter _) hrow hbasis
    obtain ⟨c', -, hc', -⟩ := thins_of_opened hc (openOn_prepared hopen).1
    exact h.opening hfrom hstored hc'
  | waiting a =>
    refine h.tried (howed _) ?_
    obtain _ | @⟨job, sourceRevision, hmay, hepoch⟩
      | @⟨job, sourceRevision, epoch, hmay, hepoch, hrow⟩ |
      @⟨job, sourceRevision, epoch, row, basis, _, hmay, hepoch, hrow, hbasis, hopen⟩ := hp
    · exact ⟨⟨n, hstored⟩, ⟨true, hmay.authority⟩, nofun⟩
    · refine ⟨⟨n, hstored⟩, ⟨true, hmay.authority⟩, fun epoch' heq _ => ?_⟩
      cases heq
      refine ⟨hepoch, hmay.kind, nofun, .inl (show (-1 : ℤ) < 0 by omega), fun row c hr => ?_⟩
      rw [show s.db.receivers.get (chainOf e epoch) = none from hrow] at hr
      cases hr
    · obtain ⟨c, hc⟩ := h.holds_basis (hfilter _) hrow hbasis
      have howes : ∀ a' : Attempt, a'.epoch = some epoch → ∀ q,
          prior.filter (onChain e epoch) = some q → q.revision = row.revision →
          Receiver.Owes { s with
            attempts := s.attempts ++ [a']
            owed := s.owed ++ (prior.filter fun q =>
              a'.epoch.any fun epoch => onChain e epoch q).toList } q ∧
            q.chain = chainOf e epoch := by
        intro a' ha' q hq hrev
        have hchain := chain_of_onChain (filter_eq_some_iff.mp hq).2
        refine ⟨⟨mem_append_right _ ?_, fun hrec => ?_⟩, hchain⟩
        · rw [ha']
          exact mem_toList.mpr hq
        · -- a message that was installed has moved its chain on
          obtain ⟨m, hm, rfl⟩ := mem_map.mp hrec
          obtain ⟨row', hrow', hlt, -⟩ := (h.base.consumed m hm).stored
          rw [hchain] at hrow'
          obtain rfl := mem_unique hrow hrow'
          omega
      rcases openOn_waiting hopen with ⟨herr, rfl⟩ | ⟨position, herr, rfl⟩
      · refine ⟨⟨n, hstored⟩, ⟨true, hmay.authority⟩, fun epoch' heq _ => ?_⟩
        cases heq
        exact noted_of_basis hepoch hmay.kind nofun hrow hbasis hc
          (blocked_of_error hc hepoch herr) (howes _ rfl)
      · refine ⟨⟨n, hstored⟩, ⟨true, hmay.authority⟩, fun epoch' heq _ => ?_⟩
        cases heq
        obtain ⟨hblocked, hwakes⟩ := blocked_of_gap hc herr
        exact noted_of_basis hepoch hmay.kind hwakes hrow hbasis hc hblocked (howes _ rfl)

section Steps

variable [DecidableEq Key] [EventCrypto]

/-- A message that was opened on top of another one is committed after it, and no selection comes
between a failed attempt of its channel and kind and the note of it. -/
def Careful (s : Receiver Key) : Action Key → Prop
  | .select _ channel kind _ =>
    ∀ a ∈ s.attempts, ¬ (a.event.conversationId = channel ∧ a.event.kind = kind)
  | a => s.InOrder a

instance (s : Receiver Key) : ∀ a : Action Key, Decidable (s.Careful a)
  | .select _ channel kind _ =>
    (inferInstance : Decidable (∀ a ∈ s.attempts,
      ¬ (a.event.conversationId = channel ∧ a.event.kind = kind)))
  | .commit owner i transcript =>
      (inferInstance : Decidable (s.InOrder (.commit owner i transcript)))
  | .adopt .. | .retain .. | .publish .. | .distribute .. | .project .. | .view .. | .prepare ..
      | .note .. =>
    instDecidableTrue

omit [DecidableEq Key] [EventCrypto] in
theorem Watch.start (owner) : Watch C (start owner) := by
  refine ⟨.start owner, ?_, ?_, ?_, ?_, ?_, ?_, ?_, ?_⟩
  · intro id x hx
    cases hx
  · intro κ row hrow
    cases hrow
  · intro m hm
    cases hm
  · intro m hm
    cases hm
  · intro p hp
    cases hp
  · intro a ha
    cases ha
  · intro k row hrow
    cases hrow
  · intro channel job revision id b hs
    cases hs

omit [Sha256] [BincodeRead MsgHeader] [EventCrypto] in
theorem rest_of_distributions {ds : List (ReceiveDistribution Key)} {db mid : ReceiverTables Key}
    (h : ds.foldlM (fun db d => db.distributeOn channel d) db = .ok mid) :
    mid = { db with receivers := mid.receivers, retryChains := mid.retryChains } := by
  refine foldlM_ok (P := fun x => x = { db with
    receivers := x.receivers, retryChains := x.retryChains }) h rfl fun d _ x y hx hy => ?_
  obtain ⟨row, hd⟩ := distributeOn_spec hy
  rw [hd.rest, hx]

/-- **A careful step keeps the invariant.** -/
theorem Watch.step (h : Watch C s) (a) (ha : s.Careful a) : Watch C (s.step C a) := by
  have hsame : ∀ channel job revision id b, s.db.source.get channel = some (job, revision) →
      s.db.authority.get (job, channel, id) = some b →
      ∃ revision, s.db.source.get channel = some (job, revision) :=
    fun _ _ revision _ _ hs _ => ⟨revision, hs⟩
  cases a with
  | adopt owner => exact h.quiet rfl rfl rfl rfl rfl (fun _ _ => id) h.ids hsame
  | retain e storedBytes => exact h.retained e storedBytes
  | publish channel job revision =>
    rw [Receiver.step]
    split
    · rename_i hmay
      exact h.published revision hmay
    · exact h
  | distribute channel d =>
    rw [Receiver.step]
    split
    · rename_i db hdb
      obtain ⟨row, hd⟩ := distributeOn_spec hdb
      exact h.distributed hd
    · exact h
  | project owner id job revision rank distributions processed receive =>
    rw [Receiver.step]
    split
    · exact h
    · rename_i e n he
      split
      · rename_i hdone
        split
        · rename_i db hdb
          obtain ⟨hsource, mid, hmid, hp⟩ := projectOn_spec hdb
          have hrest := rest_of_distributions hmid
          have hid : e.id = id := h.ids _ _ he
          refine (distributeAll (·.distributed) h hmid).projected (n := n) hp ?_ (r := revision) ?_
            fun hproc => ?_
          · rw [hrest, hid]
            exact he
          · rw [hrest]
            exact hsource
          · rw [hrest]
            exact hdone hproc
        · exact h
      · exact h
  | view owner channel job revision =>
    rw [Receiver.step]
    split
    · rename_i db hdb
      obtain ⟨-, -, hdb⟩ := bind_eq_ok.mp hdb
      obtain ⟨-, -, hdb⟩ := bind_eq_ok.mp hdb
      cases hdb
      exact h.quiet rfl rfl rfl rfl rfl (fun _ _ => id) h.ids hsame
    · exact h
  | prepare owner id preceding =>
    rw [Receiver.step]
    split
    · exact h
    · rename_i e n he
      dsimp only
      split
      · rename_i p hp
        have hid : e.id = id := h.ids _ _ he
        refine h.prepares (hid ▸ he) (fun q hq => ?_) (prepareReceive_spec hp)
        obtain ⟨m, hm, rfl⟩ := map_eq_some_iff.mp hq
        obtain ⟨i, -, hi⟩ := bind_eq_some_iff.mp hm
        exact ⟨m, mem_of_getElem? hi, rfl⟩
      · exact h
  | note owner a =>
    rw [Receiver.step]
    split
    · rename_i hmem
      split
      · rename_i db hdb
        rcases noteAttempt_spec hdb with ⟨-, rfl⟩ | ⟨epoch, hepoch, rfl⟩
        · exact (h.retired _).dropped a
        · exact (h.noted hmem hepoch).dropped a
      · exact h.dropped a
    · exact h
  | commit owner i transcript =>
    rw [Receiver.step]
    split
    · exact h
    · rename_i m hm
      split
      · rename_i db hdb
        obtain ⟨row, hi⟩ := commitReception_spec hdb
        have ho : s.InOrder (.commit owner i transcript) := ha
        exact h.installed (mem_of_getElem? hm) hi (h.base.consumed_follows ho hm)
      · rename_i db hdb
        obtain rfl := commitReception_spec hdb
        exact h
      · exact h
  | select owner channel kind excluded =>
    rw [Receiver.step]
    split
    · rename_i page db hdb
      refine h.selected (fun m hm => ?_) ha (pendingPageExcluding_spec hdb)
      obtain ⟨i, -, hi⟩ := bind_eq_some_iff.mp hm
      exact mem_of_getElem? hi
    · exact h

end Steps

theorem Watch.channel_of_owes (h : Watch C s) {p} (hp : s.Owes p)
    (hstored : s.db.retained.get e.id = some (e, n)) (heq : p.event = e.id) :
    p.channel = e.conversationId := by
  obtain ⟨m, hm, rfl⟩ := h.owed p hp.1
  obtain ⟨cp, hfrom⟩ := h.base.opened m hm
  obtain ⟨n', hn'⟩ := h.stored m hm
  rw [← hfrom.event, heq, hstored] at hn'
  obtain ⟨rfl, -⟩ := Prod.mk.inj (some.inj hn')
  exact hfrom.channel

/-- An event that waits on a chain that is not about to be looked at cannot be opened, unless a
message is owed. -/
theorem Watch.not_opened (h : Watch C s) {revision wake row} (hn : Noted C s e epoch revision wake)
    (hstored : s.db.retained.get e.id = some (e, n))
    (hretry : s.db.retryChains.get (chainOf e epoch, e.kind) = none)
    (howed : ∀ p, s.Owes p → p.channel ≠ e.conversationId)
    (hrow : s.db.receivers.get (chainOf e epoch) = some row) (p) :
    prepareCheckpointMessage C e.userId row.checkpoint e.ciphertext ≠ .ok p := by
  obtain ⟨c, hc⟩ := h.chains _ _ hrow
  rcases hn.waits row c hrow hc with ⟨t, ht, -⟩ | hb | ⟨q, hq, heq⟩ | ⟨q, hq, hchain, -⟩
  · rw [hretry] at ht
    cases ht
  · exact hb.not_opened hn.wakes hc p
  · exact absurd (h.channel_of_owes hq hstored heq) (howed q hq)
  · exact absurd (congrArg ChainId.channel hchain) (howed q hq)

theorem Watch.nothing_opened (h : Watch C s) {owner channel kind excluded}
    (hnothing : s.db.NothingFound channel kind excluded)
    (howed : ∀ p, s.Owes p → p.channel ≠ channel) (hstored : s.db.retained.get e.id = some (e, n))
    (hchannel : e.conversationId = channel) (hkind : e.kind = kind) (hleft : excluded ≠ some e.id)
    (p) : ¬ ReceiverTables.Prepares C s.db owner e none (.prepared p) := by
  intro hp
  subst hchannel hkind
  obtain _ | _ | _ | @⟨job, sourceRevision, epoch, row, basis, _, hmay, hepoch, hrow,
    hbasis, hopen⟩ := hp
  obtain ⟨hopen, -⟩ := openOn_prepared hopen
  cases hbasis
  -- the event waits, and its row is admitted
  obtain ⟨x, hx, hpend⟩ := h.admitted _ _ _ _ _ hmay.source hmay.authority
  obtain rfl := mem_unique hstored hx
  obtain ⟨pend, hpend, hadm⟩ := hpend hmay.kind hmay.unprocessed
  obtain ⟨e', he'⟩ := h.pending _ _ hpend
  obtain ⟨n', hn'⟩ := he'.stored
  obtain ⟨rfl, -⟩ := Prod.mk.inj (mem_unique hstored hn')
  by_cases hreason : pend.reason = .fresh
  · have := not_of_readPage hnothing.1 hpend hstored
    simp [waitsFor, he'.kind, hreason, hadm, hleft] at this
  · obtain ⟨epoch', -, hn⟩ := he'.noted hreason hadm hmay.unprocessed
    obtain rfl := mem_unique hepoch hn.header
    exact h.not_opened hn hstored (hnothing.2 _ rfl) howed hrow _ hopen

end Receiver

open Receiver in
/-- **No wake-up is lost**: in every run in which a message opened on top of another one is
committed after it and no selection comes between a failed attempt and the note of it, when a
selection of a channel and kind has no more work, and every message of the channel that an earlier
one left out, or that a failed attempt was made on top of, was committed, no stored event of the
channel and kind, but the one that is left out, can be opened. -/
theorem no_lost_wakeup {Secret Key : Type} [DecidableEq Key] [Sha256] [EventCrypto]
    [BincodeRead MsgHeader] (C : RatchetCrypto Secret Key (List UInt8)) (owner : Option EventOwner)
    (actions : List (Action Key)) (h : Along (step C) Careful (start owner) actions)
    (reader : EventOwner) (channel : ConversationId) (kind : EventKind) (excluded : Option EventId)
    (page : PendingChannelPage) (db : ReceiverTables Key)
    (hpage : (run C (start owner) actions).db.pendingPageExcluding reader channel kind excluded =
      .ok (page, db)) (hmore : page.moreWork = false)
    (howed : ∀ p, (run C (start owner) actions).Owes p → p.channel ≠ channel)
    (e : Event) (storedBytes : ℕ) (hstored : db.retained.get e.id = some (e, storedBytes))
    (hchannel : e.conversationId = channel) (hkind : e.kind = kind) (hleft : excluded ≠ some e.id)
    (p : PreparedChannelReceive Key) :
    db.prepareReceive C reader e none ≠ .ok (.prepared p) := by
  intro hp
  have hwatch : Watch C (run C (start owner) actions) :=
    h.inv (fun s a hs ha => hs.step a ha) (.start owner)
  have hprep := ReceiverTables.prepareReceive_spec hp
  cases ReceiverTables.pendingPageExcluding_spec hpage with
  | unseen hunseen =>
    obtain _ | _ | _ | @⟨_, _, _, _, _, _, hmay, -, -, -, -⟩ := hprep
    obtain ⟨row, hrow, hacc⟩ := hmay.current
    exact hunseen row (hchannel ▸ hrow) hacc
  | nothing hnothing =>
    refine hwatch.nothing_opened hnothing howed hstored hchannel hkind hleft p
      (ReceiverTables.prepareReceive_spec hp)
  | found hfound => cases hfound <;> cases hmore

/-! ### A message that is left out and dropped -/

/-- Whether the message of a receive was opened. -/
def Preparation.isPrepared {Key : Type} : Preparation Key → Bool
  | .prepared _ => true
  | .waiting _ => false
  | .ignored => false

def sampleForged : Event := sampleEvent 13 2 [] .message [0, 2, 1, 1, 9]

/-- A message is received, and another one cannot be opened. -/
def sampleWaiting [Sha256] : List (Action ℕ) :=
  [.retain (sampleMessage 10 0) 100, .retain sampleForged 100, .publish ⟨7⟩ 1 0,
    .distribute ⟨7⟩ ⟨(sampleDevice 2).userId, 1, ⟨0, 0⟩, false⟩,
    .project sampleOwner ⟨10⟩ 1 0 0 [] false true, .project sampleOwner ⟨13⟩ 1 0 1 [] false true,
    .view sampleOwner ⟨7⟩ 1 0, .select sampleOwner ⟨7⟩ .message none,
    .prepare sampleOwner ⟨10⟩ none, .commit sampleOwner 0 (.ok ()), .prepare sampleOwner ⟨13⟩ none,
    .note sampleOwner ⟨sampleForged, some 1, 0, 1, 0, none⟩, .select sampleOwner ⟨7⟩ .message none]

open Receiver in
theorem no_lost_wakeup_waiting :
    letI := sampleDigest; letI := sampleSigner; letI := sampleHeaders
    ∃ page db, (run sampleChains (start (some sampleOwner)) sampleWaiting).db.pendingPageExcluding
        sampleOwner ⟨7⟩ .message none = .ok (page, db) ∧ page.moreWork = false ∧
      db.pending.has (⟨7⟩, ⟨13⟩) = true ∧
      ∀ p, db.prepareReceive sampleChains sampleOwner sampleForged none ≠ .ok (.prepared p) := by
  let := sampleDigest
  let := sampleSigner
  let := sampleHeaders
  have hcareful : Along (step sampleChains) Careful (start (some sampleOwner)) sampleWaiting := by
    decide +kernel
  have hpage : ((run sampleChains (start (some sampleOwner)) sampleWaiting).db.pendingPageExcluding
      sampleOwner ⟨7⟩ .message none).toOption.map (fun r =>
        (r.1.moreWork, r.2.pending.has (⟨7⟩, ⟨13⟩), r.2.retained.get sampleForged.id)) =
      some (false, true, some (sampleForged, 100)) := by
    decide +kernel
  have howed : (run sampleChains (start (some sampleOwner)) sampleWaiting).owed = [] := by
    decide +kernel
  obtain ⟨⟨page, db⟩, hok, heq⟩ := Option.map_eq_some_iff.mp hpage
  obtain ⟨hmore, heq⟩ := Prod.mk.inj heq
  obtain ⟨hpending, hstored⟩ := Prod.mk.inj heq
  replace hok := toOption_eq_some hok
  refine ⟨page, db, hok, hmore, hpending, no_lost_wakeup sampleChains
    (some sampleOwner) sampleWaiting
    hcareful sampleOwner ⟨7⟩ .message none page db hok hmore (fun p hp => ?_) sampleForged
      100 hstored rfl
    rfl (by decide)⟩
  have hmem := hp.1
  rw [howed] at hmem
  cases hmem

/-- A message waits for its key, is found when the key arrives, and is opened; the next selection
leaves it out, and it is dropped. -/
def sampleDropped [Sha256] : List (Action ℕ) :=
  [.retain (sampleMessage 10 0) 100, .publish ⟨7⟩ 1 0,
    .project sampleOwner ⟨10⟩ 1 0 0 [] false true,
    .view sampleOwner ⟨7⟩ 1 0, .prepare sampleOwner ⟨10⟩ none,
    .note sampleOwner ⟨sampleMessage 10 0, some 1, -1, 1, 0, none⟩,
    .distribute ⟨7⟩ ⟨(sampleDevice 2).userId, 1, ⟨0, 0⟩, false⟩,
    .select sampleOwner ⟨7⟩ .message none, .prepare sampleOwner ⟨10⟩ none,
    .select sampleOwner ⟨7⟩ .message (some 0)]

open Receiver in
/-- Then a selection that leaves nothing out has no more work, though the message can be opened. -/
theorem lost_wakeup :
    letI := sampleDigest; letI := sampleSigner; letI := sampleHeaders
    ((run sampleChains (start (some sampleOwner)) sampleDropped).db.pendingPageExcluding
      sampleOwner ⟨7⟩ .message none).toOption.map (fun r =>
        (r.1.moreWork, (r.2.prepareReceive sampleChains sampleOwner (sampleMessage 10 0)
          none).toOption.map Preparation.isPrepared)) = some (false, some true) := by
  let := sampleDigest
  let := sampleSigner
  let := sampleHeaders
  decide +kernel

end MeshTalk.Channel
