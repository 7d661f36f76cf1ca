import MeshTalk.Channel.Identity
import MeshTalk.Lib.Outcome
import MeshTalk.Postoffice.EventCodec

/-! # Relay envelopes

Two devices derive a mailbox from their key agreement and put the events they exchange into
envelopes that any relay can carry (`postoffice/opaque.rs`). An envelope is an event of the mailbox
with constant headers; the event inside is padded to one of six sizes and sealed.

The primitives are the class `MailboxCrypto`; what is assumed of them is the structure `Ideal`. -/

namespace MeshTalk.Postoffice

open Lib Channel List

/-- The primitives: public keys and signatures, key agreement, key derivation by salt, input,
purpose and length, and authenticated encryption by key, nonce and associated data. -/
class MailboxCrypto extends EventCrypto where
  ed25519Public : BitVec 256 → BitVec 256
  x25519Public : BitVec 256 → BitVec 256
  sign : BitVec 256 → List UInt8 → List UInt8
  diffieHellman : BitVec 256 → BitVec 256 → BitVec 256
  hkdf : List UInt8 → List UInt8 → List UInt8 → ℕ → List UInt8
  encrypt : List UInt8 → List UInt8 → List UInt8 → List UInt8 → Option (List UInt8)
  decrypt : List UInt8 → List UInt8 → List UInt8 → List UInt8 → Option (List UInt8)

open MailboxCrypto

def buckets : List ℕ := [512, 2048, 8192, 32768, 57344, 61440]

def maxInnerBytes : ℕ := 61440 - 4

inductive MailboxError where
  | invalidPeer
  | invalidEnvelope
  | tooLarge
deriving DecidableEq

def envelopeShape (e : Event) : Bool :=
  e.kind = .message && e.parents.isEmpty && e.lamport = 0 && e.wallClock = 0 &&
    28 ≤ e.ciphertext.length && buckets.contains (e.ciphertext.length - 28) &&
    e.seq = ofLe (e.ciphertext.take 8)

structure DeviceIdentity where
  ed25519Secret : BitVec 256
  x25519Secret : BitVec 256
deriving DecidableEq

/-- What two devices have in common. -/
structure RelayMailbox where
  id : ConversationId
  key : List UInt8
  nonceKey : List UInt8
  signer : DeviceIdentity
deriving DecidableEq

section Model

variable [MailboxCrypto]

def DeviceIdentity.publicIdentity (d : DeviceIdentity) : PublicIdentity :=
  ⟨ed25519Public d.ed25519Secret, x25519Public d.x25519Secret⟩

def newEvent (signer : DeviceIdentity) (conversationId : ConversationId) (seq : ℕ)
    (parents : List EventId) (lamport wallClock : ℕ) (kind : EventKind) (ciphertext : List UInt8) :
      Event :=
  let parents := (parents.insertionSort (· ≤ ·)).destutter (· ≠ ·)
  let author : Author := ⟨signer.publicIdentity.ed25519Pub⟩
  let id := EventCrypto.hashContent
    ⟨conversationId, author, seq, parents, lamport, wallClock, kind, ciphertext⟩
  ⟨id, conversationId, author, seq, parents, lamport, wallClock, kind, ciphertext,
    sign signer.ed25519Secret (signingInput id)⟩

def before (p q : PublicIdentity) : Bool :=
  p.x25519Pub < q.x25519Pub || p.x25519Pub = q.x25519Pub && p.ed25519Pub < q.ed25519Pub

def identityBytes (p : PublicIdentity) : List UInt8 :=
    wordBytes p.x25519Pub ++ wordBytes p.ed25519Pub

/-- The domain of the mailboxes for one relay, and of those that every relay may carry. -/
def domain (federated : Bool) : String :=
  if federated then "mesh-talk-post-office-opaque-v3" else "mesh-talk-post-office-opaque-v2"

/-- What the keys of a mailbox are bound to: the two devices in their order, and the relay if it is
for one relay only. -/
def context (me other : PublicIdentity) (relay : Option PublicIdentity) : List UInt8 :=
  let first := if before me other then me else other
  let second := if before me other then other else me
  textBytes (domain relay.isNone) ++ identityBytes first ++ identityBytes second ++
    relay.elim [] fun r => wordBytes r.ed25519Pub

def material (salt shared : List UInt8) : List UInt8 :=
    hkdf salt shared (textBytes "mailbox-keys") 160

/-- The first bytes of the id of a mailbox that every relay may carry. -/
def federatedMark : List UInt8 := textBytes "MTF3"

def RelayMailbox.ofMaterial (keys : List UInt8) (federated : Bool) : RelayMailbox where
  id := ⟨word (if federated then federatedMark ++ (keys.take 32).drop 4 else keys.take 32)⟩
  key := (keys.drop 32).take 32
  nonceKey := (keys.drop 64).take 32
  signer := ⟨word ((keys.drop 96).take 32), word ((keys.drop 128).take 32)⟩

def derivation (me : DeviceIdentity) (other : PublicIdentity) (relay : Option PublicIdentity) :
    List UInt8 × List UInt8 :=
  (context me.publicIdentity other relay, wordBytes (diffieHellman me.x25519Secret other.x25519Pub))

def RelayMailbox.derive (me : DeviceIdentity) (other : PublicIdentity)
    (relay : Option PublicIdentity) :
    Except MailboxError RelayMailbox := do
  ensure (me.publicIdentity ≠ other) .invalidPeer
  ensure (diffieHellman me.x25519Secret other.x25519Pub ≠ 0) .invalidPeer
  let input := derivation me other relay
  pure (.ofMaterial (material input.1 input.2) relay.isNone)

namespace RelayMailbox

variable (m : RelayMailbox)

def author : Author := ⟨m.signer.publicIdentity.ed25519Pub⟩

def nonceFor (id : EventId) : List UInt8 := hkdf m.nonceKey id.asBytes (textBytes "event-nonce") 12

/-- Bytes after their length and padded to a size. -/
def padded (bucket : ℕ) (bytes : List UInt8) : List UInt8 :=
  leBytes 4 bytes.length ++ bytes ++ List.replicate (bucket - 4 - bytes.length) 0

def envelope (nonce sealed : List UInt8) : Event :=
  newEvent m.signer m.id (ofLe (nonce.take 8)) [] 0 0 .message (nonce ++ sealed)

def bucketFor (length : ℕ) : Option ℕ := buckets.find? fun size => length + 4 ≤ size

/-- Put an event into an envelope of a size. -/
def wrapAt (bucket : ℕ) (inner : Event) : Except MailboxError Event := do
  let nonce := m.nonceFor inner.id
  let sealed ← need (encrypt m.key nonce (wordBytes m.id.bytes) (padded bucket (serialize inner)))
    .invalidEnvelope
  pure (m.envelope nonce sealed)

def wrap (inner : Event) : Except MailboxError Event := do
  ensure (inner.isCanonical && inner.verifyIntegrity && inner.verifySignature) .invalidEnvelope
  ensure ((serialize inner).length ≤ maxInnerBytes) .tooLarge
  let bucket ← need (bucketFor (serialize inner).length) .tooLarge
  m.wrapAt bucket inner

def headed (outer : Event) : Bool :=
  outer.conversationId = m.id && outer.author = m.author && outer.kind = .message &&
    outer.parents.isEmpty && outer.lamport = 0 && outer.wallClock = 0 && 28 ≤
      outer.ciphertext.length &&
    outer.ciphertext.length ≤ 61440 + 28 && outer.verifyIntegrity && outer.verifySignature

def unpad (plaintext : List UInt8) : Except MailboxError (List UInt8) := do
  ensure (buckets.contains plaintext.length) .invalidEnvelope
  let length := ofLe (plaintext.take 4)
  ensure (length ≤ maxInnerBytes ∧ length + 4 ≤ plaintext.length ∧
    (plaintext.drop (4 + length)).all (· = 0) = true) .invalidEnvelope
  pure ((plaintext.drop 4).take length)

def openEnvelope (outer : Event) : Except MailboxError Event := do
  ensure (m.headed outer) .invalidEnvelope
  let nonce := outer.ciphertext.take 12
  ensure (outer.seq = ofLe (nonce.take 8)) .invalidEnvelope
  let plaintext ← need (decrypt m.key nonce (wordBytes m.id.bytes) (outer.ciphertext.drop 12))
    .invalidEnvelope
  let bytes ← unpad plaintext
  let inner ← need (eventCodec.decodeAll bytes) .invalidEnvelope
  ensure (m.nonceFor inner.id = nonce ∧
    (inner.isCanonical && inner.verifyIntegrity && inner.verifySignature) = true) .invalidEnvelope
  pure inner

end RelayMailbox

end Model

/-! ### Padding -/

namespace RelayMailbox

variable {bucket : ℕ}

theorem bucket_le (h : bucket ∈ buckets) : 512 ≤ bucket ∧ bucket ≤ 61440 := by
  simp only [buckets, mem_cons, not_mem_nil, or_false] at h
  omega

theorem bucketFor_spec {length} (h : bucketFor length = some bucket) :
    bucket ∈ buckets ∧ length + 4 ≤ bucket :=
  ⟨mem_of_find?_eq_some h, by simpa using find?_some h⟩

theorem exists_bucketFor {length} (h : length ≤ maxInnerBytes) :
    ∃ bucket, bucketFor length = some bucket := by
  refine Option.isSome_iff_exists.mp (find?_isSome.mpr ⟨61440, by decide, decide_eq_true ?_⟩)
  unfold maxInnerBytes at h
  omega

variable {bytes : List UInt8}

theorem length_padded (h : bytes.length + 4 ≤ bucket) : (padded bucket bytes).length = bucket := by
  unfold padded
  rw [length_append, length_append, length_leBytes, length_replicate]
  omega

/-- **Padding is inverted exactly**: what is taken for padded is the padding of its bytes to its own
size. -/
theorem unpad_eq_ok {plaintext} :
    unpad plaintext = .ok bytes ↔ plaintext.length ∈ buckets ∧ bytes.length + 4 ≤ plaintext.length ∧
      plaintext = padded plaintext.length bytes := by
  constructor
  · intro h
    obtain ⟨hb, h⟩ := ensure_bind_eq_ok.mp h
    obtain ⟨hc, h⟩ := ensure_bind_eq_ok.mp h
    have hb := contains_iff_mem.mp hb
    obtain ⟨-, hle, hzero⟩ := hc
    cases h
    have hlen : ((plaintext.drop 4).take (ofLe (plaintext.take 4))).length =
      ofLe (plaintext.take 4) := by
      rw [length_take, length_drop]
      omega
    refine ⟨hb, by omega, ?_⟩
    -- the length, the bytes and the zeros, one after the other
    have hhead : leBytes 4 (ofLe (plaintext.take 4)) = plaintext.take 4 := by
      have h4 : (plaintext.take 4).length = 4 := by rw [length_take]; omega
      have hback := leBytes_ofLe (plaintext.take 4)
      rwa [h4] at hback
    have htail : replicate (plaintext.length - 4 - ofLe (plaintext.take 4)) 0 =
        plaintext.drop (4 + ofLe (plaintext.take 4)) := by
      symm
      rw [eq_replicate_iff, length_drop]
      refine ⟨by omega, fun b hmem => ?_⟩
      exact of_decide_eq_true (all_eq_true.mp hzero b hmem)
    rw [padded, hlen, hhead, htail, ← drop_drop, append_assoc, take_append_drop,
      take_append_drop]
  · rintro ⟨hb, hle, heq⟩
    obtain ⟨-, hmax⟩ := bucket_le hb
    have hlt : bytes.length < 256 ^ 4 := by
      omega
    have htake : plaintext.take 4 = leBytes 4 bytes.length := by
      rw [heq, padded, append_assoc]
      exact take_left' (length_leBytes 4 _)
    have hlength : ofLe (plaintext.take 4) = bytes.length := by rw [htake, ofLe_leBytes hlt]
    have hdrop : plaintext.drop 4 = bytes ++ replicate (plaintext.length - 4 - bytes.length) 0 := by
      conv_lhs => rw [heq, padded, append_assoc]
      exact drop_left' (length_leBytes 4 _)
    unfold unpad
    dsimp only
    rw [ensure_of _ (contains_iff_mem.mpr hb), ok_bind, hlength]
    have hzero : (plaintext.drop (4 + bytes.length)).all (· = 0) = true := by
      rw [← drop_drop, hdrop, drop_left]
      exact all_eq_true.mpr fun b hmem => decide_eq_true (eq_of_mem_replicate hmem)
    rw [ensure_of _ ⟨by unfold maxInnerBytes; omega, hle, hzero⟩, ok_bind, hdrop, take_left]
    rfl

end RelayMailbox

/-! ### What is assumed of the primitives -/

/-- Key agreement is symmetric and does not degenerate, derived keys have the length that is asked
for, a signature under a public key is the one the secret key makes, and a sealed text is opened to
what was sealed under the same key, nonce and data. -/
structure Ideal [MailboxCrypto] : Prop where
  dh_comm : ∀ a b, diffieHellman a (x25519Public b) = diffieHellman b (x25519Public a)
  dh_ne_zero : ∀ a b, diffieHellman a (x25519Public b) ≠ 0
  length_hkdf : ∀ salt ikm info n, (hkdf salt ikm info n).length = n
  length_sign : ∀ secret message, (sign secret message).length = 64
  verify_iff : ∀ secret message signature,
    EventCrypto.verify ⟨ed25519Public secret⟩ message signature = true ↔
      signature = sign secret message
  encrypt_isSome : ∀ key nonce aad text, ∃ sealed, encrypt key nonce aad text = some sealed
  length_encrypt : ∀ key nonce aad text sealed, encrypt key nonce aad text = some sealed →
    sealed.length = text.length + 16
  decrypt_iff : ∀ key nonce aad text sealed, decrypt key nonce aad sealed = some text ↔
    encrypt key nonce aad text = some sealed

section Laws

variable [MailboxCrypto]

theorem selfValid_iff {e : Event} :
    (e.isCanonical && e.verifyIntegrity && e.verifySignature) = true ↔ e.SelfValid := by
  rw [Bool.and_eq_true, Bool.and_eq_true]
  exact ⟨fun ⟨⟨hc, hi⟩, hs⟩ => ⟨hc, hi, hs⟩, fun ⟨hc, hi, hs⟩ => ⟨⟨hc, hi⟩, hs⟩⟩

namespace RelayMailbox

variable {m : RelayMailbox}

theorem length_nonceFor (h : Ideal) (id) : (m.nonceFor id).length = 12 :=
  h.length_hkdf _ _ _ _

variable {outer : Event} {nonce sealed : List UInt8}

theorem eq_envelope (h : Ideal) (hh : m.headed outer = true)
    (hseq : outer.seq = ofLe (nonce.take 8))
    (hc : outer.ciphertext = nonce ++ sealed) : outer = m.envelope nonce sealed := by
  unfold headed at hh
  simp only [Bool.and_eq_true, decide_eq_true_eq, List.isEmpty_iff] at hh
  obtain ⟨⟨⟨⟨⟨⟨⟨⟨⟨hconv, hauthor⟩, hkind⟩, hparents⟩, hlamport⟩, hwall⟩, -⟩, -⟩, hint⟩, hsig⟩ := hh
  have hid : outer.id = (m.envelope nonce sealed).id := by
    have := of_decide_eq_true hint
    rw [this, Event.recomputeId, Event.content, hconv, hauthor, hseq, hparents, hlamport,
      hwall, hkind, hc]
    rfl
  have hsign : outer.sig = (m.envelope nonce sealed).sig := by
    rw [Event.verifySignature, Bool.and_eq_true, hauthor, author, DeviceIdentity.publicIdentity,
      h.verify_iff, hid] at hsig
    exact hsig.2
  cases outer
  subst hid hconv hauthor hseq hparents hlamport hwall hkind hc hsign
  rfl

variable {bucket : ℕ}

theorem length_envelope (hn : nonce.length = 12) (hs : sealed.length = bucket + 16) :
    (m.envelope nonce sealed).ciphertext.length = bucket + 28 := by
  change (nonce ++ sealed).length = bucket + 28
  rw [List.length_append]
  omega

theorem headed_envelope (h : Ideal) (hn : nonce.length = 12) (hb : bucket ∈ buckets)
    (hs : sealed.length = bucket + 16) : m.headed (m.envelope nonce sealed) = true := by
  obtain ⟨-, hmax⟩ := bucket_le hb
  have hlen := length_envelope (m := m) hn hs
  have hint : (m.envelope nonce sealed).verifyIntegrity = true := decide_eq_true rfl
  have hsig : (m.envelope nonce sealed).verifySignature = true := by
    rw [Event.verifySignature, Bool.and_eq_true]
    exact ⟨decide_eq_true (h.length_sign _ _), (h.verify_iff _ _ _).mpr rfl⟩
  unfold headed
  simp only [Bool.and_eq_true, decide_eq_true_eq, List.isEmpty_iff]
  exact ⟨⟨⟨⟨⟨⟨⟨⟨⟨rfl, rfl⟩, rfl⟩, rfl⟩, rfl⟩, rfl⟩, by omega⟩, by omega⟩, hint⟩, hsig⟩

theorem envelopeShape_envelope (hn : nonce.length = 12) (hb : bucket ∈ buckets)
    (hs : sealed.length = bucket + 16) : envelopeShape (m.envelope nonce sealed) = true := by
  have hlen := length_envelope (m := m) hn hs
  have hseq : (m.envelope nonce sealed).seq =
    ofLe ((m.envelope nonce sealed).ciphertext.take 8) := by
    change ofLe (nonce.take 8) = ofLe ((nonce ++ sealed).take 8)
    rw [List.take_append_of_le_length (by omega)]
  unfold envelopeShape
  simp only [Bool.and_eq_true, decide_eq_true_eq, List.isEmpty_iff]
  refine ⟨⟨⟨⟨⟨⟨rfl, rfl⟩, rfl⟩, rfl⟩, by omega⟩, ?_⟩, hseq⟩
  rw [hlen, Nat.add_sub_cancel]
  exact List.contains_iff_mem.mpr hb

variable {inner : Event}

theorem wrapAt_eq_ok : m.wrapAt bucket inner = .ok outer ↔ ∃ sealed,
      encrypt m.key (m.nonceFor inner.id) (wordBytes m.id.bytes) (padded bucket (serialize inner)) =
        some sealed ∧ outer = m.envelope (m.nonceFor inner.id) sealed := by
  constructor
  · intro h
    obtain ⟨sealed, hs, h⟩ := bind_eq_ok.mp h
    cases h
    exact ⟨sealed, need_eq_ok.mp hs, rfl⟩
  · rintro ⟨sealed, hs, rfl⟩
    exact bind_eq_ok.mpr ⟨sealed, need_eq_ok.mpr hs, rfl⟩

theorem wrap_eq_ok :
    m.wrap inner = .ok outer ↔ inner.SelfValid ∧ (serialize inner).length ≤ maxInnerBytes ∧
      ∃ bucket, bucketFor (serialize inner).length = some bucket ∧
        m.wrapAt bucket inner = .ok outer := by
  constructor
  · intro h
    obtain ⟨hv, h⟩ := ensure_bind_eq_ok.mp h
    obtain ⟨hle, h⟩ := ensure_bind_eq_ok.mp h
    obtain ⟨bucket, hb, h⟩ := bind_eq_ok.mp h
    exact ⟨selfValid_iff.mp hv, hle, bucket, need_eq_ok.mp hb, h⟩
  · rintro ⟨hv, hle, bucket, hb, h⟩
    exact bind_eq_ok.mpr ⟨(), ensure_eq_ok.mpr (selfValid_iff.mpr hv), bind_eq_ok.mpr
      ⟨(), ensure_eq_ok.mpr hle, bind_eq_ok.mpr ⟨bucket, need_eq_ok.mpr hb, h⟩⟩⟩

/-- **What opening accepts**: the envelopes of valid events, at each size that holds them. -/
theorem openEnvelope_eq_ok (h : Ideal) :
    m.openEnvelope outer = .ok inner ↔ inner.SelfValid ∧ Fits inner ∧
      ∃ bucket ∈ buckets, (serialize inner).length + 4 ≤ bucket ∧
        m.wrapAt bucket inner = .ok outer := by
  constructor
  · intro ho
    obtain ⟨hh, ho⟩ := ensure_bind_eq_ok.mp ho
    obtain ⟨hseq, ho⟩ := ensure_bind_eq_ok.mp ho
    obtain ⟨plaintext, hp, ho⟩ := bind_eq_ok.mp ho
    obtain ⟨bytes, hb, ho⟩ := bind_eq_ok.mp ho
    obtain ⟨inner', hd, ho⟩ := bind_eq_ok.mp ho
    obtain ⟨hv, ho⟩ := ensure_bind_eq_ok.mp ho
    cases ho
    obtain ⟨hnonce, hv⟩ := hv
    obtain ⟨hfits, rfl⟩ := ByteFormat.decodeAll_eq_some.mp (need_eq_ok.mp hd)
    obtain ⟨hmem, hle, hpad⟩ := unpad_eq_ok.mp hb
    have henc := (h.decrypt_iff _ _ _ _ _).mp (need_eq_ok.mp hp)
    rw [hpad, ← hnonce] at henc
    refine ⟨selfValid_iff.mp hv, hfits, plaintext.length, hmem, hle, wrapAt_eq_ok.mpr ⟨_, henc, ?_⟩⟩
    refine eq_envelope h hh ?_ ?_
    · rw [hnonce]
      exact hseq
    · rw [hnonce, take_append_drop]
  · rintro ⟨hv, hfits, bucket, hmem, hle, hw⟩
    obtain ⟨sealed, henc, rfl⟩ := wrapAt_eq_ok.mp hw
    have hn := length_nonceFor (m := m) h inner.id
    have hs : sealed.length = bucket + 16 := by
      rw [h.length_encrypt _ _ _ _ _ henc, length_padded hle]
    have htake : (m.envelope (m.nonceFor inner.id) sealed).ciphertext.take 12 =
      m.nonceFor inner.id :=
      take_left' hn
    have hdrop : (m.envelope (m.nonceFor inner.id) sealed).ciphertext.drop 12 = sealed :=
      drop_left' hn
    have hunpad : unpad (padded bucket (serialize inner)) = .ok (serialize inner) :=
      unpad_eq_ok.mpr ⟨by rwa [length_padded hle], by rwa [length_padded hle],
        by rw [length_padded hle]⟩
    have hdecode : eventCodec.decodeAll (serialize inner) = some inner :=
      ByteFormat.decodeAll_eq_some.mpr ⟨hfits, rfl⟩
    unfold openEnvelope
    dsimp only
    rw [ensure_of _ (headed_envelope h hn hmem hs), ok_bind, htake, hdrop, ensure_of _ (by rfl),
      ok_bind, (h.decrypt_iff _ _ _ _ _).mpr henc]
    rw [need_eq_ok.mpr rfl, ok_bind, hunpad, ok_bind, hdecode, need_eq_ok.mpr rfl, ok_bind,
      ensure_of _ ⟨rfl, selfValid_iff.mpr hv⟩, ok_bind]
    rfl

end RelayMailbox

/-! ### Who has the keys of a mailbox -/

/-- Two devices, in either order. -/
def SamePair (p q p' q' : PublicIdentity) : Prop := p = p' ∧ q = q' ∨ p = q' ∧ q = p'

section
omit [MailboxCrypto]

variable {p q : PublicIdentity}

theorem before_comm (h : p ≠ q) : before q p = !before p q := by
  obtain ⟨e, x⟩ := p
  obtain ⟨e', x'⟩ := q
  have hne : ¬ (e.toNat = e'.toNat ∧ x.toNat = x'.toNat) := by
    rintro ⟨he, hx⟩
    rw [BitVec.eq_of_toNat_eq he, BitVec.eq_of_toNat_eq hx] at h
    exact h rfl
  have hx : x = x' ↔ x.toNat = x'.toNat := BitVec.toNat_inj.symm
  have hx' : x' = x ↔ x'.toNat = x.toNat := BitVec.toNat_inj.symm
  rw [Bool.eq_iff_iff]
  simp only [before, Bool.or_eq_true, Bool.and_eq_true, Bool.not_eq_true', Bool.or_eq_false_iff,
    Bool.and_eq_false_iff, decide_eq_true_eq, decide_eq_false_iff_not, BitVec.lt_def, hx, hx']
  omega

theorem context_comm (h : p ≠ q) (relay) : context q p relay = context p q relay := by
  unfold context
  rw [before_comm h]
  cases before p q <;> rfl

theorem identityBytes_injective {r s} (h : identityBytes p ++ r = identityBytes q ++ s) :
    p = q ∧ r = s := by
  have hlen (p : PublicIdentity) : (identityBytes p).length = 64 := by
    rw [identityBytes, length_append, length_wordBytes, length_wordBytes]
  obtain ⟨hpq, hrs⟩ := append_inj h (by rw [hlen, hlen])
  obtain ⟨hx, he⟩ := append_inj hpq (by rw [length_wordBytes, length_wordBytes])
  obtain ⟨e, x⟩ := p
  obtain ⟨e', x'⟩ := q
  have hx : x = x' := wordBytes_injective hx
  have he : e = e' := wordBytes_injective he
  exact ⟨by rw [hx, he], hrs⟩

theorem context_injective {p' q' relay relay'} (h : context p q relay = context p' q' relay') :
    SamePair p q p' q' ∧ relay.map (·.ed25519Pub) = relay'.map (·.ed25519Pub) := by
  have hlen : ∀ federated, (textBytes (domain federated)).length = 31 := by decide
  have hinj : ∀ a b, textBytes (domain a) = textBytes (domain b) → a = b := by decide
  unfold context at h
  rw [append_assoc, append_assoc, append_assoc, append_assoc] at h
  obtain ⟨hd, h⟩ := append_inj h (by rw [hlen, hlen])
  have hrelay := hinj _ _ hd
  obtain ⟨hfirst, h⟩ := identityBytes_injective h
  obtain ⟨hsecond, h⟩ := identityBytes_injective h
  refine ⟨?_, ?_⟩
  · cases hb : before p q <;> cases hb' : before p' q' <;> rw [hb, hb'] at hfirst hsecond
    · exact .inl ⟨hsecond, hfirst⟩
    · exact .inr ⟨hsecond, hfirst⟩
    · exact .inr ⟨hfirst, hsecond⟩
    · exact .inl ⟨hfirst, hsecond⟩
  · cases relay with
    | none =>
      cases relay' with
      | none => rfl
      | some r => cases hrelay
    | some r =>
      cases relay' with
      | none => cases hrelay
      | some r' => exact congrArg some (wordBytes_injective h)

end

def signerKey (input : List UInt8 × List UInt8) : BitVec 256 :=
  ed25519Public (word (((material input.1 input.2).drop 96).take 32))

/-- Different inputs among some give different signers. -/
def CollisionFree (W : Set (List UInt8 × List UInt8)) : Prop :=
  ∀ x ∈ W, ∀ y ∈ W, signerKey x = signerKey y → x = y

namespace RelayMailbox

variable {m : RelayMailbox}

theorem derive_eq_ok {me other relay} (h : derive me other relay = .ok m) :
    m.author = ⟨signerKey (derivation me other relay)⟩ := by
  obtain ⟨_, -, h⟩ := bind_eq_ok.mp h
  obtain ⟨_, -, h⟩ := bind_eq_ok.mp h
  cases h
  rfl

/-- **The two devices derive one mailbox.** -/
theorem derive_comm (h : Ideal) {a b} (hab : a.publicIdentity ≠ b.publicIdentity) (relay) :
    ∃ m, derive a b.publicIdentity relay = .ok m ∧
      derive b a.publicIdentity relay = .ok m := by
  have hinput : derivation b a.publicIdentity relay = derivation a b.publicIdentity relay := by
    unfold derivation
    rw [context_comm hab]
    exact congrArg (fun k => (_, wordBytes k)) (h.dh_comm b.x25519Secret a.x25519Secret)
  refine ⟨_, bind_eq_ok.mpr ⟨(), ensure_eq_ok.mpr hab, bind_eq_ok.mpr
    ⟨(), ensure_eq_ok.mpr (h.dh_ne_zero _ _), rfl⟩⟩, ?_⟩
  rw [← hinput]
  exact bind_eq_ok.mpr ⟨(), ensure_eq_ok.mpr hab.symm, bind_eq_ok.mpr
    ⟨(), ensure_eq_ok.mpr (h.dh_ne_zero _ _), rfl⟩⟩

theorem author_of_openEnvelope {outer inner} (h : m.openEnvelope outer = .ok inner) :
    outer.author = m.author := by
  obtain ⟨_, hh, -⟩ := bind_eq_ok.mp h
  have hh := ensure_eq_ok.mp hh
  unfold headed at hh
  simp only [Bool.and_eq_true, decide_eq_true_eq] at hh
  obtain ⟨⟨⟨⟨⟨⟨⟨⟨⟨-, hauthor⟩, -⟩, -⟩, -⟩, -⟩, -⟩, -⟩, -⟩, -⟩ := hh
  exact hauthor

theorem author_of_wrapAt {bucket outer inner} (h : m.wrapAt bucket inner = .ok outer) :
    outer.author = m.author := by
  obtain ⟨sealed, -, rfl⟩ := wrapAt_eq_ok.mp h
  rfl

end RelayMailbox

end Laws

/-- What a relay sees of an event, apart from the sealed bytes, their nonce and what is computed of
them. -/
def header (e : Event) : ConversationId × Author × List EventId × ℕ × ℕ × EventKind × ℕ :=
  (e.conversationId, e.author, e.parents, e.lamport, e.wallClock, e.kind, e.ciphertext.length)

theorem header_envelope [MailboxCrypto] (m : RelayMailbox) (nonce sealed) :
    header (m.envelope nonce sealed) =
      (m.id, m.author, [], 0, 0, .message, (nonce ++ sealed).length) := rfl

open RelayMailbox in
/-- **Relay envelopes** are exact and show the size class of what is inside. Two devices derive one
mailbox. A valid event that is not too long is put into an envelope of the right shape, which both
open to this event and no mailbox of other devices or for another relay opens. What opens is an
envelope of a valid event at a size that holds it. The envelopes of events of one size class are
equal but for the nonce and the sealed bytes, of which there are equally many. -/
theorem relay_envelopes [MailboxCrypto] (h : Ideal) (W : Set (List UInt8 × List UInt8))
    (hW : CollisionFree W) (a b : DeviceIdentity) (hab : a.publicIdentity ≠ b.publicIdentity)
    (relay : Option PublicIdentity) (hmem : derivation a b.publicIdentity relay ∈ W) :
    ∃ m, derive a b.publicIdentity relay = .ok m ∧ derive b a.publicIdentity relay = .ok m ∧
      (∀ e : Event, e.SelfValid → Fits e → (serialize e).length ≤ maxInnerBytes →
        ∃ outer, m.wrap e = .ok outer ∧ envelopeShape outer = true ∧ m.openEnvelope outer = .ok e ∧
          ∀ a' other relay' m', derive a' other relay' = .ok m' → derivation a' other relay' ∈ W →
            ¬ (SamePair a.publicIdentity b.publicIdentity a'.publicIdentity other ∧
              relay.map (·.ed25519Pub) = relay'.map (·.ed25519Pub)) →
            ∀ x, m'.openEnvelope outer ≠ .ok x) ∧
      (∀ outer inner, m.openEnvelope outer = .ok inner → inner.SelfValid ∧
        ∃ bucket ∈ buckets, (serialize inner).length + 4 ≤ bucket ∧
          m.wrapAt bucket inner = .ok outer) ∧
      ∀ e e' outer outer', m.wrap e = .ok outer → m.wrap e' = .ok outer' →
        bucketFor (serialize e).length = bucketFor (serialize e').length →
        header outer = header outer' ∧ ∃ sealed sealed',
          outer = m.envelope (m.nonceFor e.id) sealed ∧
            outer' = m.envelope (m.nonceFor e'.id) sealed' ∧
          sealed.length = sealed'.length := by
  obtain ⟨m, hm, hm'⟩ := derive_comm h hab relay
  refine ⟨m, hm, hm', fun e hv hfits hle => ?_, fun outer inner ho => ?_,
    fun e e' outer outer' hw hw' hbucket => ?_⟩
  · obtain ⟨bucket, hb⟩ := exists_bucketFor hle
    obtain ⟨hbm, hfit⟩ := bucketFor_spec hb
    obtain ⟨sealed, hs⟩ := h.encrypt_isSome m.key (m.nonceFor e.id) (wordBytes m.id.bytes)
      (padded bucket (serialize e))
    have hw : m.wrapAt bucket e = .ok (m.envelope (m.nonceFor e.id) sealed) :=
      wrapAt_eq_ok.mpr ⟨sealed, hs, rfl⟩
    have hlen : sealed.length = bucket + 16 := by
      rw [h.length_encrypt _ _ _ _ _ hs, length_padded hfit]
    refine ⟨_, wrap_eq_ok.mpr ⟨hv, hle, bucket, hb, hw⟩,
      envelopeShape_envelope (length_nonceFor h e.id) hbm hlen,
      (openEnvelope_eq_ok h).mpr ⟨hv, hfits, bucket, hbm, hfit, hw⟩, ?_⟩
    intro a' other relay' m' hd hin hother x hx
    have hauthor : m.author = m'.author := (author_of_wrapAt hw).symm.trans
      (author_of_openEnvelope hx)
    rw [derive_eq_ok hm, derive_eq_ok hd] at hauthor
    have hinput := hW _ hmem _ hin (congrArg Author.ed25519Pub hauthor)
    exact hother (context_injective (congrArg Prod.fst hinput))
  · obtain ⟨hv, -, hrest⟩ := (openEnvelope_eq_ok h).mp ho
    exact ⟨hv, hrest⟩
  · obtain ⟨-, -, bucket, hb, hw⟩ := wrap_eq_ok.mp hw
    obtain ⟨-, -, bucket', hb', hw'⟩ := wrap_eq_ok.mp hw'
    obtain ⟨sealed, hs, rfl⟩ := wrapAt_eq_ok.mp hw
    obtain ⟨sealed', hs', rfl⟩ := wrapAt_eq_ok.mp hw'
    have hlen : sealed.length = sealed'.length := by
      rw [h.length_encrypt _ _ _ _ _ hs, h.length_encrypt _ _ _ _ _ hs',
        length_padded (bucketFor_spec hb).2, length_padded (bucketFor_spec hb').2]
      rw [hb, hb'] at hbucket
      cases hbucket
      rfl
    refine ⟨?_, sealed, sealed', rfl, rfl, hlen⟩
    have hcipher : (m.nonceFor e.id ++ sealed).length = (m.nonceFor e'.id ++ sealed').length := by
      rw [List.length_append, List.length_append, length_nonceFor h, length_nonceFor h, hlen]
    rw [header_envelope, header_envelope, hcipher]

/-- An envelope of a larger size than necessary is not what wrapping makes. -/
theorem RelayMailbox.wider_not_wrapped [MailboxCrypto] (h : Ideal) {m : RelayMailbox}
    {e outer bucket} (ho : m.openEnvelope outer = .ok e) (hw : m.wrapAt bucket e = .ok outer)
    (hfit : (serialize e).length + 4 ≤ bucket) (hne : bucketFor (serialize e).length ≠ some bucket)
    {e'} (hfits : Fits e') : m.wrap e' ≠ .ok outer := by
  intro hwrap
  obtain ⟨hv, hle, bucket', hb, hw'⟩ := wrap_eq_ok.mp hwrap
  obtain ⟨hbm, hfit'⟩ := bucketFor_spec hb
  have ho' := (openEnvelope_eq_ok h).mpr ⟨hv, hfits, bucket', hbm, hfit', hw'⟩
  rw [ho] at ho'
  cases ho'
  obtain ⟨sealed, hs, hout⟩ := wrapAt_eq_ok.mp hw
  obtain ⟨sealed', hs', hout'⟩ := wrapAt_eq_ok.mp hw'
  have hcipher : m.nonceFor e.id ++ sealed = m.nonceFor e.id ++ sealed' :=
    congrArg Event.ciphertext (hout.symm.trans hout')
  have hlen := congrArg length (append_cancel_left hcipher)
  rw [h.length_encrypt _ _ _ _ _ hs, h.length_encrypt _ _ _ _ _ hs', length_padded hfit,
    length_padded hfit'] at hlen
  refine hne (hb.trans (congrArg some ?_))
  omega

/-! ### Samples -/

namespace Sample

def tag : List UInt8 := List.replicate 16 0

@[reducible] def crypto : MailboxCrypto where
  hashContent := fun _ => ⟨0⟩
  verify := fun _ _ signature => signature = List.replicate 64 0
  ed25519Public := id
  x25519Public := id
  sign := fun _ _ => List.replicate 64 0
  diffieHellman := fun _ _ => 1
  hkdf := fun salt _ _ n => List.replicate n (salt.foldl (· + ·) 0)
  encrypt := fun _ _ _ text => some (text ++ tag)
  decrypt := fun _ _ _ sealed =>
    if 16 ≤ sealed.length ∧ sealed.drop (sealed.length - 16) = tag then
      some (sealed.take (sealed.length - 16))
    else none

theorem decrypt_iff {text sealed} :
    (if 16 ≤ sealed.length ∧ sealed.drop (sealed.length - 16) = tag then
      some (sealed.take (sealed.length - 16)) else none) = some text ↔
        some (text ++ tag) = some sealed := by
  have htag : tag.length = 16 := rfl
  constructor
  · intro h
    split at h
    · next hc =>
      cases h
      rw [← hc.2, take_append_drop]
    · cases h
  · intro h
    cases h
    have hlen : (text ++ tag).length - 16 = text.length := by
      rw [length_append, htag]
      omega
    rw [hlen, drop_left, take_left, if_pos ⟨by rw [length_append, htag]; omega, rfl⟩]

theorem ideal : @Ideal crypto :=
  letI := crypto
  { dh_comm := fun _ _ => rfl
    dh_ne_zero := fun _ _ => (by decide : (1 : BitVec 256) ≠ 0)
    length_hkdf := fun _ _ _ _ => length_replicate
    length_sign := fun _ _ => rfl
    verify_iff := fun _ _ _ => decide_eq_true_iff
    encrypt_isSome := fun _ _ _ text => ⟨text ++ tag, rfl⟩
    length_encrypt := fun _ _ _ _ _ h => by
      cases h
      exact length_append
    decrypt_iff := fun _ _ _ _ _ => decrypt_iff }

def alice : DeviceIdentity := ⟨1, 1⟩

def bob : DeviceIdentity := ⟨2, 2⟩

def carol : DeviceIdentity := ⟨3, 3⟩

def event : Event := ⟨⟨0⟩, ⟨0⟩, ⟨0⟩, 0, [⟨1⟩], 0, 0, .message, [7], List.replicate 64 0⟩

theorem event_valid : @Event.SelfValid crypto.toEventCrypto event :=
  @Event.SelfValid.mk crypto.toEventCrypto event (by decide) (by decide) (by decide)

theorem event_fits : Fits event := fits_iff.mpr (by decide)

theorem length_event : (serialize event).length = 245 := by decide +kernel

end Sample

open Sample RelayMailbox in
/-- Both devices open the envelope of the short event, and the mailbox with another one does not. -/
theorem relay_envelopes_event :
    letI := crypto
    ∃ m m' outer, derive alice bob.publicIdentity none = .ok m ∧
      derive alice carol.publicIdentity none = .ok m' ∧ m.wrap event = .ok outer ∧
      m.openEnvelope outer = .ok event ∧ ∀ x, m'.openEnvelope outer ≠ .ok x := by
  let := crypto
  have hfree : CollisionFree {derivation alice bob.publicIdentity none,
      derivation alice carol.publicIdentity none} := by
    have hne : signerKey (derivation alice bob.publicIdentity none) ≠
        signerKey (derivation alice carol.publicIdentity none) := by decide +kernel
    rintro x (rfl | rfl) y (rfl | rfl) h
    · rfl
    · exact absurd h hne
    · exact absurd h.symm hne
    · rfl
  have hbob : alice.publicIdentity ≠ bob.publicIdentity := by decide
  have hcarol : alice.publicIdentity ≠ carol.publicIdentity := by decide
  obtain ⟨m, hm, -, hwrap, -⟩ := relay_envelopes ideal _ hfree alice bob hbob none (.inl rfl)
  obtain ⟨m', hm', -⟩ := relay_envelopes ideal _ hfree alice carol hcarol none (.inr rfl)
  have hle : (serialize event).length ≤ maxInnerBytes := by rw [length_event]; decide
  obtain ⟨outer, hw, -, ho, hother⟩ := hwrap event event_valid event_fits hle
  exact ⟨m, m', outer, hm, hm', hw, ho,
    hother alice carol.publicIdentity none m' hm' (.inr rfl) (by unfold SamePair; decide)⟩

open Sample RelayMailbox in
/-- **A wider envelope opens**: opening accepts an envelope that wrapping does not make, of an event
in a size class larger than necessary. -/
theorem wider_envelope_opens :
    letI := crypto
    Ideal ∧ ∃ m outer, derive alice bob.publicIdentity none = .ok m ∧
      m.openEnvelope outer = .ok event ∧ ∀ e, Fits e → m.wrap e ≠ .ok outer := by
  let := crypto
  have hne : alice.publicIdentity ≠ bob.publicIdentity := by decide
  obtain ⟨m, hm, -⟩ := derive_comm ideal hne none
  have hfit : (serialize event).length + 4 ≤ 2048 := by rw [length_event]; decide
  obtain ⟨sealed, hs⟩ := ideal.encrypt_isSome m.key (m.nonceFor event.id) (wordBytes m.id.bytes)
    (padded 2048 (serialize event))
  have hw : m.wrapAt 2048 event = .ok (m.envelope (m.nonceFor event.id) sealed) :=
    wrapAt_eq_ok.mpr ⟨sealed, hs, rfl⟩
  have ho := (openEnvelope_eq_ok ideal).mpr ⟨event_valid, event_fits, 2048, by decide, hfit, hw⟩
  have hbucket : bucketFor (serialize event).length ≠ some 2048 := by rw [length_event]; decide
  exact ⟨ideal, m, _, hm, ho, fun e he => wider_not_wrapped ideal ho hw hfit hbucket he⟩

end MeshTalk.Postoffice
