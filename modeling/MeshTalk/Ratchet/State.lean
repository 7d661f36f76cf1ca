import MeshTalk.Lib.FifoMap
import MeshTalk.Lib.Codec

/-! # The Double Ratchet state machine

One party's session of `ratchet/state.rs`: the two initialisations, encryption and decryption with
the Diffie-Hellman ratchet, the symmetric chains and the bounded buffer of skipped message keys.

The primitives are a parameter, `RatchetCrypto`, and a key pair the source draws at random is an
argument. A call returns its result beside the state it leaves, since decryption changes the session
before it authenticates. Counters are `u32` and wrap as in a release build. -/

namespace MeshTalk.Ratchet

open Lib

/-- The most keys one header may make a party skip in a chain. -/
def maxSkip : ℕ := 1000

/-- The most skipped keys a party buffers. -/
def maxSkippedTotal : ℕ := 2000

def succ32 (n : ℕ) : ℕ := (n + 1) % 2 ^ 32

abbrev Pub := BitVec 256

inductive RatchetError where
  | decrypt
  | tooManySkipped
  | notInitializedForSend
  | malformed
deriving DecidableEq

structure Header where
  ratchetPub : Pub
  pn : ℕ
  n : ℕ
deriving DecidableEq

/-- The low `k` bytes of a number, least first. -/
def Header.encode (h : Header) : List UInt8 :=
  beBytes 32 h.ratchetPub.toNat ++ leBytes 4 h.pn ++ leBytes 4 h.n

/-- The primitives: X25519, the two key derivations, and the message cipher with its derivation of
key and nonce from the message key. -/
structure RatchetCrypto (Secret Key Ct : Type) where
  publicKey : Secret → Pub
  dh : Secret → Pub → Key
  /-- The next root key and a new chain key. -/
  kdfRk : Key → Key → Key × Key
  /-- The next chain key and a message key. -/
  kdfCk : Key → Key × Key
  aeadEncrypt : Key → List UInt8 → List UInt8 → Option Ct
  aeadDecrypt : Key → Ct → List UInt8 → Option (List UInt8)

structure RatchetState (Secret Key : Type) where
  dhsSecret : Secret
  dhsPublic : Pub
  dhr : Option Pub
  rk : Key
  cks : Option Key
  ckr : Option Key
  ns : ℕ
  nr : ℕ
  pn : ℕ
  skipped : Map (Pub × ℕ) Key
  skippedOrder : List (Pub × ℕ)

variable {Secret Key Ct : Type} (C : RatchetCrypto Secret Key Ct)

/-- The sender, who knows the shared secret and the receiver's ratchet key. -/
def initAlice (fresh : Secret) (sharedSecret : Key) (bobRatchetPub : Pub) :
    RatchetState Secret Key :=
  let (rk, cks) := C.kdfRk sharedSecret (C.dh fresh bobRatchetPub)
  { dhsSecret := fresh, dhsPublic := C.publicKey fresh, dhr := some bobRatchetPub, rk := rk,
    cks := some cks, ckr := none, ns := 0, nr := 0, pn := 0, skipped := ∅, skippedOrder := [] }

/-- The receiver, who has no sending chain before the first message. -/
def initBob (sharedSecret : Key) (bobRatchetSecret : Secret) : RatchetState Secret Key :=
  { dhsSecret := bobRatchetSecret, dhsPublic := C.publicKey bobRatchetSecret, dhr := none,
    rk := sharedSecret, cks := none, ckr := none, ns := 0, nr := 0, pn := 0, skipped := ∅,
    skippedOrder := [] }

namespace RatchetState

/-! ### Encryption -/

def ratchetEncrypt (s : RatchetState Secret Key) (plaintext : List UInt8) :
    Except RatchetError (Header × Ct) × RatchetState Secret Key :=
  match s.cks with
  | none => (.error .notInitializedForSend, s)
  | some cks =>
    let header : Header := ⟨s.dhsPublic, s.pn, s.ns⟩
    let s' := { s with cks := some (C.kdfCk cks).1, ns := succ32 s.ns }
    match C.aeadEncrypt (C.kdfCk cks).2 plaintext header.encode with
    | some ct => (.ok (header, ct), s')
    | none => (.error .decrypt, s')

/-! ### The skipped-key buffer -/

/-- Buffer the key of the next message of the receiving chain `dhr` with chain key `ck`. -/
def skipOne (dhr : Pub) (ck : Key) (s : RatchetState Secret Key) : RatchetState Secret Key :=
  let buffer := evict maxSkippedTotal (s.skipped.insert (dhr, s.nr) (C.kdfCk ck).2)
    (s.skippedOrder ++ [(dhr, s.nr)])
  { s with skipped := buffer.1, skippedOrder := buffer.2, nr := s.nr + 1 }

/-- Buffer the keys of the next `k` messages; the chain key moves along. -/
def skipLoop (dhr : Pub) : ℕ → Key → RatchetState Secret Key → Key × RatchetState Secret Key
  | 0, ck, s => (ck, s)
  | k + 1, ck, s => skipLoop dhr k (C.kdfCk ck).1 (skipOne C dhr ck s)

/-- Buffer the keys of the receiving chain up to message `upto`, excluded. -/
def skipMessageKeys (s : RatchetState Secret Key) (upto : ℕ) :
    Except RatchetError (RatchetState Secret Key) :=
  match s.ckr with
  | none => .ok s
  | some ckr =>
    if upto < s.nr then .ok s
    else if upto - s.nr > maxSkip then .error .tooManySkipped
    else
      match s.dhr with
      -- the source expects a ratchet key here; every session has one, `InSync.peer`
      | none => .error .malformed
      | some dhr =>
        let r := skipLoop C dhr (upto - s.nr) ckr s
        .ok { r.2 with ckr := some r.1 }

/-! ### Decryption -/

/-- A Diffie-Hellman ratchet step on a new public key, with a fresh key pair. -/
def dhRatchet (s : RatchetState Secret Key) (fresh : Secret) (headerPub : Pub) :
    RatchetState Secret Key :=
  let receiving := C.kdfRk s.rk (C.dh s.dhsSecret headerPub)
  let sending := C.kdfRk receiving.1 (C.dh fresh headerPub)
  { s with
    pn := s.ns, ns := 0, nr := 0, dhr := some headerPub, ckr := some receiving.2,
    dhsSecret := fresh, dhsPublic := C.publicKey fresh, rk := sending.1, cks := some sending.2 }

/-- Enter the receiving chain of a header: with a new ratchet key, skip the rest of the current
chain and ratchet. -/
def enterChain (s : RatchetState Secret Key) (fresh : Secret) (header : Header) :
    Except RatchetError (RatchetState Secret Key) :=
  if s.dhr ≠ some header.ratchetPub then
    (s.skipMessageKeys C header.pn).map fun s => s.dhRatchet C fresh header.ratchetPub
  else .ok s

def openWith (key : Key) (header : Header) (ct : Ct) : Except RatchetError (List UInt8) :=
  match C.aeadDecrypt key ct header.encode with
  | some pt => .ok pt
  | none => .error .decrypt

def ratchetDecrypt (s : RatchetState Secret Key) (fresh : Secret) (header : Header) (ct : Ct) :
    Except RatchetError (List UInt8) × RatchetState Secret Key :=
  match s.skipped.lookup (header.ratchetPub, header.n) with
  | some key =>
    (openWith C key header ct, { s with
      skipped := s.skipped.erase (header.ratchetPub, header.n),
      skippedOrder := s.skippedOrder.filter fun k => k ≠ (header.ratchetPub, header.n) })
  | none =>
    match s.enterChain C fresh header with
    | .error err => (.error err, s)
    | .ok s1 =>
      match s1.skipMessageKeys C header.n with
      | .error err => (.error err, s1)
      | .ok s2 =>
        match s2.ckr with
        | none => (.error .malformed, s2)
        | some ckr =>
          (openWith C (C.kdfCk ckr).2 header ct,
            { s2 with ckr := some (C.kdfCk ckr).1, nr := succ32 s2.nr })

/-! ### Inversion -/

variable {C} {s s' : RatchetState Secret Key} {fresh : Secret} {header : Header} {ct : Ct}

theorem openWith_eq_ok {key pt} :
    openWith C key header ct = .ok pt ↔ C.aeadDecrypt key ct header.encode = some pt := by
  unfold openWith
  cases C.aeadDecrypt key ct header.encode <;> simp

theorem ratchetDecrypt_of_some {key}
    (hlook : s.skipped.lookup (header.ratchetPub, header.n) = some key) :
    s.ratchetDecrypt C fresh header ct = (openWith C key header ct, { s with
      skipped := s.skipped.erase (header.ratchetPub, header.n),
      skippedOrder := s.skippedOrder.filter fun k => k ≠ (header.ratchetPub, header.n) }) := by
  rw [ratchetDecrypt, hlook]

theorem ratchetDecrypt_of_none {s1 s2 ckr}
    (hlook : s.skipped.lookup (header.ratchetPub, header.n) = none)
    (h1 : s.enterChain C fresh header = .ok s1) (h2 : s1.skipMessageKeys C header.n = .ok s2)
    (h3 : s2.ckr = some ckr) :
    s.ratchetDecrypt C fresh header ct = (openWith C (C.kdfCk ckr).2 header ct,
      { s2 with ckr := some (C.kdfCk ckr).1, nr := succ32 s2.nr }) := by
  rw [ratchetDecrypt, hlook]
  rw [h1]
  dsimp only
  rw [h2]
  dsimp only
  rw [h3]

theorem ratchetDecrypt_ok {pt} (hlook : s.skipped.lookup (header.ratchetPub, header.n) = none)
    (hok : s.ratchetDecrypt C fresh header ct = (.ok pt, s')) :
    ∃ s1 s2 ckr, s.enterChain C fresh header = .ok s1 ∧ s1.skipMessageKeys C header.n = .ok s2 ∧
      s2.ckr = some ckr ∧ openWith C (C.kdfCk ckr).2 header ct = .ok pt ∧
      s' = { s2 with ckr := some (C.kdfCk ckr).1, nr := succ32 s2.nr } := by
  cases h1 : s.enterChain C fresh header with
  | error err => simp [ratchetDecrypt, hlook, h1] at hok
  | ok s1 =>
    cases h2 : s1.skipMessageKeys C header.n with
    | error err => simp [ratchetDecrypt, hlook, h1, h2] at hok
    | ok s2 =>
      cases h3 : s2.ckr with
      | none => simp [ratchetDecrypt, hlook, h1, h2, h3] at hok
      | some ckr =>
        rw [ratchetDecrypt_of_none hlook h1 h2 h3] at hok
        obtain ⟨hopen, hs⟩ := Prod.mk.inj hok
        exact ⟨s1, s2, ckr, rfl, h2, h3, hopen, hs.symm⟩

end RatchetState

/-! ### Symbolic primitives

Keys are terms, a ciphertext records what it was sealed with and a secret is a number, so that
distinct inputs give distinct keys. -/

inductive SymKey where
  | shared
  | dh (a b : ℕ)
  | root (rk dhOut : SymKey)
  | chain (rk dhOut : SymKey)
  | nextChain (ck : SymKey)
  | message (ck : SymKey)
deriving DecidableEq

def symCrypto : RatchetCrypto ℕ SymKey (SymKey × List UInt8 × List UInt8) where
  publicKey s := BitVec.ofNat 256 s
  dh s p := .dh (min (BitVec.ofNat 256 s).toNat p.toNat) (max (BitVec.ofNat 256 s).toNat p.toNat)
  kdfRk rk d := (.root rk d, .chain rk d)
  kdfCk ck := (.nextChain ck, .message ck)
  aeadEncrypt key pt aad := some (key, pt, aad)
  aeadDecrypt key ct aad := if ct.1 = key ∧ ct.2.2 = aad then some ct.2.1 else none

end MeshTalk.Ratchet
