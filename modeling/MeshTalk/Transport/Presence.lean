import MeshTalk.Peers.Pins
import MeshTalk.Postoffice.EventCodec

/-! # Who is at the other end of a connection

After a Noise handshake each device signs the hash of the session (`transport/auth.rs`). It may add
its announcement and the transitions of its account, signed together with the hash
(`transport/presence_auth.rs`). Announcements and transitions are written in the formats
`PresenceWire`. -/

namespace MeshTalk.Transport

open Lib Channel Peers Postoffice List

inductive TransportError where
  | plaintextTooLarge (len : ℕ)
  | identityMismatch
  | serialization (message : String)
deriving DecidableEq

def maxFrame : ℕ := 65535

/-- What is left of a frame next to the tag of its encryption. -/
def maxPlaintext : ℕ := maxFrame - 16

def maxExtension : ℕ := 16 * 1024

def maxTransitions : ℕ := 8

class PresenceWire where
  announce : ByteFormat Announce
  transition : ByteFormat AccountBindingTransition

open PresenceWire (announce transition)

structure AuthMessage where
  publicIdentity : PublicIdentity
  signature : List UInt8

structure VerifiedPeer where
  publicIdentity : PublicIdentity
  announcement : Option Announce
  publiclyVisible : Bool
  transitions : List AccountBindingTransition

/-- A device, with what its key signs. -/
structure DeviceIdentity [EventCrypto] where
  publicIdentity : PublicIdentity
  sign : List UInt8 → List UInt8
  verifies : ∀ m, verifyKey publicIdentity.ed25519Pub m (sign m) = true

/-! ### Messages -/

def vec : ByteFormat (List UInt8) := ByteFormat.byte.list

def flag : ByteFormat Bool :=
  ByteFormat.byte.imap (fun b => if b then 1 else 0)
    (fun x => if x = 0 then some false else if x = 1 then some true else none) (by decide)
      fun x b h => by
      split_ifs at h with h0 h1 <;> cases h
      · exact h0.symm
      · exact h1.symm

def authFormat : ByteFormat AuthMessage :=
  ((wordCodec.pair wordCodec).pair vec).imap
    (fun m => ((m.publicIdentity.ed25519Pub, m.publicIdentity.x25519Pub), m.signature))
    (fun r => some ⟨⟨r.1.1, r.1.2⟩, r.2⟩) (fun _ => rfl) fun _ _ h => by cases h; rfl

def magic : List UInt8 := [0x4d, 0x54, 0x50, 0x41]

def versionOf (plain visible : Bool) : UInt8 :=
  if plain then if visible then 1 else 2 else if visible then 3 else 4

def readVersion (v : UInt8) : Option (Bool × Bool) :=
  if v = 1 then some (true, true) else if v = 2 then some (true, false)
  else if v = 3 then some (false, true) else if v = 4 then some (false, false) else none

def signingInput (hash : BitVec 256) : List UInt8 :=
    textBytes "mesh-talk-transport-auth-v1" ++ wordBytes hash

variable [PresenceWire]

def extension : ByteFormat (List UInt8 × List UInt8) := vec.pair vec

def transitionExtension : ByteFormat (List UInt8 × List AccountBindingTransition × List UInt8) :=
  vec.pair (transition.list.pair vec)

def transitionBody : ByteFormat (List UInt8 × List AccountBindingTransition × Bool) :=
  vec.pair (transition.list.pair flag)

/-- What is signed for an announcement: a device that is not publicly visible signs one more
byte. -/
def context (hash : BitVec 256) (encoded : List UInt8) (visible : Bool) : List UInt8 :=
  textBytes "mesh-talk-transport-presence-v1" ++
    (wordBytes hash ++ (encoded ++ if visible then [] else [0]))

def transitionContext (hash : BitVec 256) (encoded : List UInt8)
    (transitions : List AccountBindingTransition)
    (visible : Bool) : Except TransportError (List UInt8) := do
  let body := transitionBody.encode (encoded, transitions, visible)
  ensure (body.length ≤ maxExtension) (.serialization "the size limit has been reached")
  return textBytes "mesh-talk-transport-account-transition-v1" ++ (wordBytes hash ++ body)

def signedPresence (hash : BitVec 256) (encoded : List UInt8)
    (transitions : List AccountBindingTransition)
    (visible : Bool) : Except TransportError (List UInt8) :=
  if transitions = [] then return context hash encoded visible
  else transitionContext hash encoded transitions visible

/-- The announcement and its signature, and the transitions between them if there are any. -/
def extensionBody (encoded : List UInt8) (transitions : List AccountBindingTransition)
    (signature : List UInt8) :
    List UInt8 :=
  if transitions = [] then extension.encode (encoded, signature)
  else transitionExtension.encode (encoded, transitions, signature)

def readExtension (plain : Bool) (body : List UInt8) :
    Option (List UInt8 × List AccountBindingTransition × List UInt8) :=
  if plain then (extension.decodeAll body).map fun e =>
    (e.1, [], e.2) else transitionExtension.decodeAll body

variable [Sha256] [EventCrypto]

def validTransitions (a : Announce) (transitions : List AccountBindingTransition) : Bool :=
  transitions ≠ [] && transitions.length ≤ maxTransitions &&
    PeerDirectory.chainChecked a.publicIdentity none [] transitions &&
    transitions.getLast?.any fun last => some last.currentCertificate = a.accountCert

def valid (a : Announce) (p : PublicIdentity) : Bool :=
  a.name.utf8ByteSize ≤ 1024 && a.tcpPort ≠ 0 && a.accountCert.isSome &&
    a.publicIdentity = p && a.verify

def buildAuth (identity : DeviceIdentity) (hash : BitVec 256) : AuthMessage :=
  ⟨identity.publicIdentity, identity.sign (signingInput hash)⟩

def buildWithTransitions (identity : DeviceIdentity) (hash : BitVec 256)
    (presence : Option Announce)
    (visible : Bool) (transitions : List AccountBindingTransition) :
      Except TransportError (List UInt8) := do
  ensure (presence.all (valid · identity.publicIdentity) = true) .identityMismatch
  ensure (visible = true ∨ presence.isSome = true) .identityMismatch
  let bytes := authFormat.encode (buildAuth identity hash)
  match presence with
  | none =>
    ensure (transitions = []) .identityMismatch
    return bytes
  | some a =>
    let encoded := announce.encode a
    ensure (transitions = [] ∨ validTransitions a transitions = true) .identityMismatch
    let signed ← signedPresence hash encoded transitions visible
    let body := extensionBody encoded transitions (identity.sign signed)
    ensure (body.length ≤ maxExtension) (.serialization "the size limit has been reached")
    ensure (magic.length + 1 + body.length ≤ maxExtension) .identityMismatch
    return bytes ++ (magic ++ versionOf transitions.isEmpty visible :: body)

def verifyAuth (msg : AuthMessage) (hash remote : BitVec 256) :
    Except TransportError PublicIdentity := do
  ensure (msg.publicIdentity.x25519Pub = remote) .identityMismatch
  ensure (verifyKey msg.publicIdentity.ed25519Pub (signingInput hash) msg.signature = true)
    .identityMismatch
  return msg.publicIdentity

def verifyExtension (p : PublicIdentity) (hash : BitVec 256) (remaining : List UInt8) :
    Except TransportError VerifiedPeer := do
  ensure (remaining.length ≤ maxExtension ∧ magic.length + 1 ≤ remaining.length ∧
    remaining.take magic.length = magic) .identityMismatch
  let (plain, visible) ← need (readVersion (remaining.getD magic.length 0)) .identityMismatch
  let (encoded, transitions, signature)
    ← need (readExtension plain (remaining.drop (magic.length + 1)))
    .identityMismatch
  let a ← need (announce.decodeAll encoded) .identityMismatch
  ensure (valid a p = true ∧ signature.length = 64) .identityMismatch
  ensure (plain = true ∨ validTransitions a transitions = true) .identityMismatch
  let signed ← signedPresence hash encoded transitions visible
  ensure (verifyKey p.ed25519Pub signed signature = true) .identityMismatch
  return ⟨p, some a, visible, transitions⟩

/-- Read what the other side wrote, in the session with a hash and a key that Noise
authenticated. -/
def verify (bytes : List UInt8) (hash remote : BitVec 256) :
    Except TransportError VerifiedPeer := do
  ensure (bytes.length ≤ maxPlaintext) (.plaintextTooLarge bytes.length)
  let (legacy, remaining) ← need (authFormat.decode bytes) .identityMismatch
  let p ← verifyAuth legacy hash remote
  if remaining = [] then return ⟨p, none, true, []⟩ else verifyExtension p hash remaining

/-! ### What was built -/

section Building

omit [PresenceWire] [Sha256]

theorem length_of_verifyKey {k m s} (h : verifyKey k m s = true) : s.length = 64 := by
  rw [verifyKey, Bool.and_eq_true, decide_eq_true_eq] at h
  exact h.1

omit [EventCrypto]

theorem vec_valid {bs : List UInt8} (h : bs.length ≤ maxExtension) : vec.Valid bs :=
  ⟨lt_of_le_of_lt h (by decide), fun _ _ => trivial⟩

theorem suffix_vec (bs : List UInt8) : bs <:+ vec.encode bs :=
    by simp [vec, ByteFormat.list, ByteFormat.byte]

/-- What stands first in bytes that are short enough can be read back. -/
theorem vec_valid_of_append {bs rest : List UInt8}
    (h : (vec.encode bs ++ rest).length ≤ maxExtension) :
    vec.Valid bs := by
  have hle := (suffix_vec bs).length_le
  rw [length_append] at h
  exact vec_valid (by omega)

end Building

theorem list_valid {a ts} (hts : ∀ t ∈ ts, transition.Valid t)
    (h : ts = [] ∨ validTransitions a ts = true) : transition.list.Valid ts := by
  refine ⟨?_, hts⟩
  rcases h with rfl | h
  · decide
  · simp only [validTransitions, Bool.and_eq_true, decide_eq_true_eq] at h
    exact lt_of_le_of_lt h.1.1.2 (by decide)

/-- What a device that sends its announcement went through. -/
theorem build_some_eq_ok {d : DeviceIdentity} {hash a visible ts bytes} :
    buildWithTransitions d hash (some a) visible ts = .ok bytes ↔
      valid a d.publicIdentity = true ∧ (ts = [] ∨ validTransitions a ts = true) ∧
        ∃ signed, signedPresence hash (announce.encode a) ts visible = .ok signed ∧
          (extensionBody (announce.encode a) ts (d.sign signed)).length + 5 ≤ maxExtension ∧
          authFormat.encode (buildAuth d hash) ++ (magic ++ versionOf ts.isEmpty visible ::
            extensionBody (announce.encode a) ts (d.sign signed)) = bytes := by
  have hlen : ∀ n, n ≤ maxExtension ∧ magic.length + 1 + n ≤ maxExtension ↔
    n + 5 ≤ maxExtension := by
    intro n
    show _ ∧ 4 + 1 + n ≤ _ ↔ _
    omega
  simp only [buildWithTransitions, bind_eq_ok, ensure_eq_ok, exists_const, Option.all_some,
    Option.isSome_some, or_true, true_and, pure, Except.pure, Except.ok.injEq, ← hlen, and_assoc]

theorem build_none_eq_ok {d : DeviceIdentity} {hash visible ts bytes} :
    buildWithTransitions d hash none visible ts = .ok bytes ↔
      visible = true ∧ ts = [] ∧ authFormat.encode (buildAuth d hash) = bytes := by
  simp [buildWithTransitions, ensure_bind_eq_ok, pure, Except.pure]

/-! ### A device is read as what it wrote -/

theorem verify_append {d : DeviceIdentity} {hash rest} (hlen : rest.length ≤ maxExtension) :
    verify (authFormat.encode (buildAuth d hash) ++ rest) hash d.publicIdentity.x25519Pub =
      if rest = [] then .ok ⟨d.publicIdentity, none, true, []⟩
      else verifyExtension d.publicIdentity hash rest := by
  have hs := d.verifies (signingInput hash)
  have h64 := length_of_verifyKey hs
  have ha : (authFormat.encode (buildAuth d hash)).length = 136 := by
    simp [authFormat, vec, buildAuth, ByteFormat.imap, ByteFormat.pair, ByteFormat.list,
      ByteFormat.byte, ByteFormat.number, ByteFormat.fixed, wordCodec, h64]
  have hv : authFormat.Valid (buildAuth d hash) :=
    ⟨⟨length_wordBytes _, length_wordBytes _⟩, vec_valid (h64.trans_le (by decide))⟩
  have hall : (authFormat.encode (buildAuth d hash) ++ rest).length ≤ maxPlaintext := by
    rw [length_append, ha]
    exact (Nat.add_le_add_left hlen 136).trans (by decide)
  have hauth : verifyAuth (buildAuth d hash) hash d.publicIdentity.x25519Pub =
    .ok d.publicIdentity := by
    rw [verifyAuth, buildAuth, ensure_of _ rfl, ensure_of _ hs]
    rfl
  rw [verify, ensure_of _ hall, ok_bind, authFormat.decode_encode _ rest hv]
  simp only [need, ok_bind, hauth]
  rfl

omit [Sha256] [EventCrypto] in
theorem readExtension_extensionBody {encoded ts sig}
    (hlen : (extensionBody encoded ts sig).length ≤ maxExtension)
    (hs : sig.length = 64) (hts : transition.list.Valid ts) :
    readExtension ts.isEmpty (extensionBody encoded ts sig) = some (encoded, ts, sig) := by
  have hsig : vec.Valid sig := vec_valid (hs.trans_le (by decide))
  unfold extensionBody at hlen ⊢
  cases ts with
  | nil =>
    rw [if_pos rfl] at hlen ⊢
    have hd : extension.decodeAll (extension.encode (encoded, sig)) = some (encoded, sig) :=
      ByteFormat.decodeAll_eq_some.mpr ⟨⟨vec_valid_of_append hlen, hsig⟩, rfl⟩
    rw [isEmpty_nil, readExtension, if_pos rfl, hd, Option.map_some]
  | cons t ts =>
    rw [if_neg (cons_ne_nil t ts)] at hlen ⊢
    rw [isEmpty_cons, readExtension, if_neg Bool.false_ne_true]
    exact ByteFormat.decodeAll_eq_some.mpr ⟨⟨vec_valid_of_append hlen, hts, hsig⟩, rfl⟩

/-- Whatever a device sends of itself is accepted in the same session, as what it sent. -/
theorem verify_build {d : DeviceIdentity} {hash presence visible ts bytes}
    (ha : ∀ a, presence = some a → announce.Valid a)
    (hts : ∀ t ∈ ts, transition.Valid t)
    (h : buildWithTransitions d hash presence visible ts = .ok bytes) :
    verify bytes hash d.publicIdentity.x25519Pub =
      .ok ⟨d.publicIdentity, presence, visible, ts⟩ := by
  cases presence with
  | none =>
    obtain ⟨rfl, rfl, rfl⟩ := build_none_eq_ok.mp h
    rw [← append_nil (authFormat.encode _), verify_append (Nat.zero_le _), if_pos rfl]
  | some a =>
    obtain ⟨hvalid, hchain, signed, hin, hlen, rfl⟩ := build_some_eq_ok.mp h
    have hv := d.verifies signed
    have hread := readExtension_extensionBody ((Nat.le_add_right _ 5).trans hlen)
      (length_of_verifyKey hv)
      (list_valid hts hchain)
    have hrest : (magic ++ versionOf ts.isEmpty visible ::
        extensionBody (announce.encode a) ts (d.sign signed)).length ≤ maxExtension := by
      rw [length_append, length_cons]
      exact (Nat.add_comm _ _).trans_le hlen
    have hversion : readVersion (versionOf ts.isEmpty visible) = some (ts.isEmpty, visible) := by
      cases ts.isEmpty <;> cases visible <;> rfl
    rw [verify_append hrest, if_neg (by simp [magic])]
    simp only [verifyExtension, bind_eq_ok, ensure_eq_ok, need_eq_ok, exists_const, Prod.exists]
    exact ⟨⟨hrest, by simp [magic], take_left⟩, _, _, hversion, _, _, _, hread, a,
      ByteFormat.decodeAll_eq_some.mpr ⟨ha a rfl, rfl⟩, ⟨hvalid, length_of_verifyKey hv⟩,
      hchain.imp isEmpty_iff.mpr id, signed, hin, hv, rfl⟩

/-- A format of one value. -/
def only {α : Type} (a : α) : ByteFormat α where
  Valid := (· = a)
  encode := fun _ => []
  decode := fun bs => some (a, bs)
  decode_encode := fun _ _ h => h ▸ rfl
  encode_decode := fun _ _ _ h => by cases h; exact ⟨rfl, rfl⟩

@[reducible] def sampleWire : PresenceWire :=
  letI := sampleDigest
  ⟨only (sampleAnnounce 2 11), only sampleTransition⟩

def sampleIdentity : @DeviceIdentity sampleSigner :=
  letI := sampleSigner
  ⟨sampleDevice 2, fun _ => replicate 64 0, fun _ => rfl⟩

omit [PresenceWire] [Sha256] [EventCrypto] in
theorem verify_build_moved : letI := sampleDigest; letI := sampleSigner; letI := sampleWire
    ∃ bytes, buildWithTransitions sampleIdentity 5 (some (sampleAnnounce 2 11)) false
      [sampleTransition] = .ok bytes ∧ verify bytes 5 (sampleDevice 2).x25519Pub =
        .ok ⟨sampleDevice 2, some (sampleAnnounce 2 11), false, [sampleTransition]⟩ := by
  let := sampleDigest
  let := sampleSigner
  let := sampleWire
  obtain ⟨bytes, h⟩ :
    ∃ bytes, buildWithTransitions sampleIdentity 5 (some (sampleAnnounce 2 11)) false
      [sampleTransition] = .ok bytes :=
    ⟨_, build_some_eq_ok.mpr ⟨by decide +kernel, .inr (by decide +kernel), _, rfl,
      by decide +kernel, rfl⟩⟩
  exact ⟨bytes, h, verify_build (fun _ ha => (Option.some.inj ha).symm)
    (fun _ ht => mem_singleton.mp ht) h⟩

/-! ### Nobody is accepted as another device -/

section Domains

omit [PresenceWire] [Sha256] [EventCrypto]

theorem append_ne {p q x y : List UInt8} (hp : 22 ≤ p.length) (hq : 22 ≤ q.length)
    (h : p.take 22 ≠ q.take 22) :
    p ++ x ≠ q ++ y := by
  intro heq
  have ht := congrArg (take 22) heq
  rw [take_append_of_le_length hp, take_append_of_le_length hq] at ht
  exact h ht

theorem wordBytes_append_inj {k k' x y} (h : wordBytes k ++ x = wordBytes k' ++ y) :
    k = k' ∧ x = y := by
  obtain ⟨hw, hxy⟩ := append_inj h (by rw [length_wordBytes, length_wordBytes])
  exact ⟨wordBytes_injective hw, hxy⟩

variable [PresenceWire] {hash hash' : BitVec 256} {encoded m : List UInt8}
  {ts ts' : List AccountBindingTransition}
  {visible visible' : Bool}

/-- What is signed for an announcement starts with a domain and the hash of the session. -/
theorem signedPresence_eq_ok (h : signedPresence hash encoded ts visible = .ok m) :
    (ts = [] ∧ m = context hash encoded visible) ∨
      (m = textBytes "mesh-talk-transport-account-transition-v1" ++ (wordBytes hash ++
        transitionBody.encode (encoded, ts, visible)) ∧ ts ≠ [] ∧
        (transitionBody.encode (encoded, ts, visible)).length ≤ maxExtension) := by
  unfold signedPresence at h
  split at h <;> rename_i hts
  · exact .inl ⟨hts, (Except.ok.inj h).symm⟩
  · simp only [transitionContext, bind_eq_ok, ensure_eq_ok, exists_const, pure, Except.pure,
      Except.ok.injEq] at h
    exact .inr ⟨h.2.symm, hts, h.1⟩

theorem signingInput_ne (h : signedPresence hash encoded ts visible = .ok m) :
    signingInput hash' ≠ m := by
  rcases signedPresence_eq_ok h with ⟨-, rfl⟩ | ⟨rfl, -⟩ <;>
    exact append_ne (by decide +kernel) (by decide +kernel) (by decide +kernel)

theorem domain_of_signedPresence (h : signedPresence hash encoded ts visible = .ok m) :
    textBytes "mesh-talk-transport-" <+: m := by
  rcases signedPresence_eq_ok h with ⟨-, rfl⟩ | ⟨rfl, -⟩ <;>
    exact IsPrefix.trans (by decide +kernel) (prefix_append _ _)

/-- A signed announcement is for one session, and can be read in one way only. -/
theorem signedPresence_inj {a a'} (ha : announce.Valid a) (ha' : announce.Valid a')
    (hts : transition.list.Valid ts) (hts' : transition.list.Valid ts')
    (h : signedPresence hash (announce.encode a) ts visible = .ok m)
    (h' : signedPresence hash' (announce.encode a') ts' visible' = .ok m) :
    hash = hash' ∧ a = a' ∧ visible = visible' ∧ ts = ts' := by
  rcases signedPresence_eq_ok h with ⟨rfl, rfl⟩ | ⟨rfl, -, hlen⟩ <;>
    rcases signedPresence_eq_ok h' with ⟨rfl, heq⟩ | ⟨heq, -, hlen'⟩
  · obtain ⟨hh, heq⟩ := wordBytes_append_inj (append_cancel_left heq)
    obtain ⟨haa, hv⟩ := ByteFormat.encode_append_inj ha ha' heq
    refine ⟨hh, haa, ?_, rfl⟩
    cases visible <;> cases visible' <;> first | rfl | cases hv
  · exact absurd heq (append_ne (by decide +kernel) (by decide +kernel) (by decide +kernel))
  · exact absurd heq (append_ne (by decide +kernel) (by decide +kernel) (by decide +kernel))
  · obtain ⟨hh, heq⟩ := wordBytes_append_inj (append_cancel_left heq)
    have hv : transitionBody.Valid (announce.encode a, ts, visible) :=
      ⟨vec_valid_of_append hlen, hts, trivial⟩
    have hv' : transitionBody.Valid (announce.encode a', ts', visible') :=
      ⟨vec_valid_of_append hlen', hts', trivial⟩
    have hall := ByteFormat.encode_inj hv hv' heq
    simp only [Prod.mk.injEq] at hall
    exact ⟨hh, ByteFormat.encode_inj ha ha' hall.1, hall.2.2, hall.2.1⟩

/-- The signature of an announcement ends what is read. -/
theorem readExtension_spec {plain body sig} (h :
    readExtension plain body = some (encoded, ts, sig)) :
    sig <:+ body ∧ transition.list.Valid ts := by
  unfold readExtension at h
  split at h
  · obtain ⟨⟨e, s⟩, hd, heq⟩ := Option.map_eq_some_iff.mp h
    cases heq
    obtain ⟨-, rfl⟩ := ByteFormat.decodeAll_eq_some.mp hd
    exact ⟨(suffix_vec s).trans (suffix_append _ _), by decide, fun _ h => absurd h not_mem_nil⟩
  · obtain ⟨hv, rfl⟩ := ByteFormat.decodeAll_eq_some.mp h
    exact ⟨((suffix_vec sig).trans (suffix_append _ _)).trans (suffix_append _ _), hv.2.1⟩

end Domains

/-- A message that a device built about itself. -/
structure Built where
  device : DeviceIdentity
  hash : BitVec 256
  presence : Option Announce
  publiclyVisible : Bool
  transitions : List AccountBindingTransition
  presence_valid : ∀ a, presence = some a → announce.Valid a
  transitions_valid : ∀ t ∈ transitions, transition.Valid t
  built : ∃ bytes, buildWithTransitions device hash presence publiclyVisible transitions = .ok bytes

/-- What was signed for a message. -/
def Built.Signs (b : Built) (m : List UInt8) : Prop :=
  m = signingInput b.hash ∨ ∃ a, b.presence = some a ∧
    signedPresence b.hash (announce.encode a) b.transitions b.publiclyVisible = .ok m

/-- No signature under a key that can be found in some bytes is forged: under the domains of the
transport the key signs only for the messages that were built. -/
def Unforged (log : List Built) (k : PubKey) (bytes : List UInt8) : Prop :=
  ∀ m s, s <:+: bytes → textBytes "mesh-talk-transport-" <+: m → verifyKey k m s = true →
    ∃ b ∈ log, b.device.publicIdentity.ed25519Pub = k ∧ b.Signs m

/-- The session with a hash has two ends: this device, and whoever holds the key of the remote
end. -/
def TwoEnds (log : List Built) (self : PublicIdentity) (hash remote : BitVec 256) : Prop :=
  ∀ b ∈ log, b.hash = hash → b.device.publicIdentity = self ∨
    b.device.publicIdentity.x25519Pub = remote

/-- Whoever is accepted signed the hash of the session and, with it, what is accepted of its
announcement. -/
theorem verify_spec {bytes hash remote peer} (h : verify bytes hash remote = .ok peer) :
    peer.publicIdentity.x25519Pub = remote ∧
      (∃ s, s <:+: bytes ∧ verifyKey peer.publicIdentity.ed25519Pub (signingInput hash) s = true) ∧
      (peer.announcement = none ∨ ∃ a, peer.announcement = some a ∧ announce.Valid a ∧
        transition.list.Valid peer.transitions ∧
        ∃ m, signedPresence hash (announce.encode a) peer.transitions peer.publiclyVisible = .ok m ∧
          ∃ s, s <:+: bytes ∧ verifyKey peer.publicIdentity.ed25519Pub m s = true) := by
  simp only [verify, verifyAuth, bind_eq_ok, ensure_eq_ok, need_eq_ok, exists_const, Prod.exists,
    pure, Except.pure, Except.ok.injEq] at h
  obtain ⟨-, legacy, remaining, hd, _, ⟨hx, hs, rfl⟩, hrest⟩ := h
  obtain ⟨-, rfl⟩ := authFormat.encode_decode _ _ _ hd
  have hin : legacy.signature <:+: authFormat.encode legacy ++ remaining :=
    (((suffix_vec legacy.signature).trans (suffix_append _ _)).isInfix).trans
      (prefix_append _ _).isInfix
  split at hrest
  · cases hrest
    exact ⟨hx, ⟨_, hin, hs⟩, .inl rfl⟩
  · simp only [verifyExtension, bind_eq_ok, ensure_eq_ok, need_eq_ok, exists_const,
      Prod.exists] at hrest
    obtain ⟨-, _, visible, -, _, ts, sig, hread, a, ha, -, -, m, hm, hsig, heq⟩ := hrest
    cases heq
    obtain ⟨hvalid, rfl⟩ := ByteFormat.decodeAll_eq_some.mp ha
    obtain ⟨hsuffix, hts⟩ := readExtension_spec hread
    exact ⟨hx, ⟨_, hin, hs⟩, .inr ⟨a, rfl, hvalid, hts, m, hm, sig,
      ((hsuffix.trans (drop_suffix _ _)).trans (suffix_append _ _)).isInfix, hsig⟩⟩

/-- Whoever is accepted, if its key signs for nobody else, took part in this session under both of
its keys, and what is accepted of its announcement, visibility and transitions is what it sent in
this session. -/
theorem accepted_peer {log self hash remote bytes peer} (hends : TwoEnds log self hash remote)
    (hsig : Unforged log peer.publicIdentity.ed25519Pub bytes)
      (hv : verify bytes hash remote = .ok peer)
    (hself : peer.publicIdentity.ed25519Pub ≠ self.ed25519Pub) :
    ∃ b ∈ log, b.hash = hash ∧ b.device.publicIdentity = peer.publicIdentity ∧
      (peer.announcement = none ∨ b.presence = peer.announcement ∧
        b.publiclyVisible = peer.publiclyVisible ∧ b.transitions = peer.transitions) := by
  obtain ⟨hx, ⟨s, hin, hs⟩, hann⟩ := verify_spec hv
  -- a device that signed for this session is the remote end, under both keys
  have hdevice : ∀ b ∈ log, b.device.publicIdentity.ed25519Pub = peer.publicIdentity.ed25519Pub →
    b.hash = hash → b.device.publicIdentity = peer.publicIdentity := by
    intro b hb hk hh
    rcases hends b hb hh with h | h
    · exact absurd (h ▸ hk).symm hself
    · exact congr (congrArg PublicIdentity.mk hk) (h.trans hx.symm)
  rcases hann with hnone | ⟨a, ha, hvalid, hts, m, hm, s', hin', hs'⟩
  · have hdomain : textBytes "mesh-talk-transport-" <+: textBytes "mesh-talk-transport-auth-v1" :=
      by decide +kernel
    obtain ⟨b, hb, hk, hsigned⟩ := hsig _ s hin (hdomain.trans (prefix_append _ _)) hs
    have hh : b.hash = hash := by
      rcases hsigned with h | ⟨a, -, h⟩
      · exact (wordBytes_injective (append_cancel_left h)).symm
      · exact absurd rfl (signingInput_ne h)
    exact ⟨b, hb, hh, hdevice b hb hk hh, .inl hnone⟩
  · obtain ⟨b, hb, hk, hsigned⟩ := hsig m s' hin' (domain_of_signedPresence hm) hs'
    rcases hsigned with rfl | ⟨a', hp, hm'⟩
    · exact absurd rfl (signingInput_ne hm)
    · obtain ⟨_, hb'⟩ := b.built
      rw [hp] at hb'
      have hts' := list_valid b.transitions_valid (build_some_eq_ok.mp hb').2.1
      obtain ⟨hh, rfl, hvis, htt⟩ := signedPresence_inj hvalid (b.presence_valid a' hp)
        hts hts' hm hm'
      exact ⟨b, hb, hh.symm, hdevice b hb hk hh.symm, .inr ⟨hp.trans ha.symm, hvis.symm, htt.symm⟩⟩

/-- One message is signed apart from all others. -/
def onceSign (m : List UInt8) : List UInt8 := replicate 64 (if m = signingInput 5 then 1 else 0)

@[reducible] def onceSigner : EventCrypto := ⟨fun _ => ⟨0⟩, fun _ m s => s = onceSign m⟩

def onceIdentity : @DeviceIdentity onceSigner :=
  letI := onceSigner
  ⟨sampleDevice 2, onceSign, fun _ =>
    Bool.and_eq_true_iff.mpr ⟨decide_eq_true length_replicate, decide_eq_true rfl⟩⟩

def onceBuilt : @Built sampleWire sampleDigest onceSigner :=
  letI := sampleDigest
  letI := onceSigner
  letI := sampleWire
  ⟨onceIdentity, 5, none, true, [], by simp, by simp, _, build_none_eq_ok.mpr ⟨rfl, rfl, rfl⟩⟩

omit [PresenceWire] [Sha256] [EventCrypto] in
theorem accepted_peer_once : letI := sampleDigest; letI := onceSigner; letI := sampleWire
    ∃ b ∈ [onceBuilt], b.hash = 5 ∧ b.device.publicIdentity = sampleDevice 2 := by
  let := sampleDigest
  let := onceSigner
  let := sampleWire
  have hv : verify (authFormat.encode (buildAuth onceIdentity 5)) 5 (sampleDevice 2).x25519Pub =
      .ok ⟨sampleDevice 2, none, true, []⟩ := by
    rw [← append_nil (authFormat.encode _)]
    exact (verify_append (Nat.zero_le _)).trans (if_pos rfl)
  have hends : TwoEnds [onceBuilt] (sampleDevice 1) 5 (sampleDevice 2).x25519Pub := by
    intro b hb _
    rw [mem_singleton.mp hb]
    exact .inr rfl
  have hsig : Unforged [onceBuilt] (sampleDevice 2).ed25519Pub
    (authFormat.encode (buildAuth onceIdentity 5)) := by
    intro m s hin _ hs
    have hs : s = onceSign m := of_decide_eq_true (Bool.and_eq_true_iff.mp hs).2
    by_cases h : m = signingInput 5
    · exact ⟨onceBuilt, mem_singleton.mpr rfl, rfl, .inl h⟩
    · rw [hs, onceSign, if_neg h] at hin
      exact absurd hin (by decide +kernel)
  obtain ⟨b, hb, hh, hd, -⟩ := accepted_peer hends hsig hv (by decide)
  exact ⟨b, hb, hh, hd⟩

end MeshTalk.Transport
