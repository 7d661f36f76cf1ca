import MeshTalk.Ratchet.Skipped

/-! # Two honest parties and a network

Both sides of a session and every message sent so far. A step is a send of one party or the delivery
of any message sent before, to the other party: reordering, delay, loss and repetition are all
schedules of such steps. As the callers of the source do, a party decrypts on a copy and keeps it
only if decryption succeeds.

What is assumed of the primitives is `Ideal`. -/

namespace MeshTalk.Ratchet

open Lib RatchetState

inductive Party where
  | alice
  | bob
deriving DecidableEq

namespace Party

def other : Party → Party
  | alice => bob
  | bob => alice

@[simp] theorem other_other (p : Party) : p.other.other = p := by cases p <;> rfl

theorem other_ne (p : Party) : p.other ≠ p := by cases p <;> decide

theorem eq_or_eq_other (p q : Party) : q = p ∨ q = p.other :=
    by cases p <;> cases q <;> simp [other]

end Party

structure Message (Ct : Type) where
  sender : Party
  header : Header
  ct : Ct
  plaintext : List UInt8

def Message.position {Ct : Type} (m : Message Ct) : Pub × ℕ := (m.header.ratchetPub, m.header.n)

/-- Both sessions, the messages sent, the indices of those delivered, and the number of key pairs
drawn. -/
structure Net (Secret Key Ct : Type) where
  session : Party → RatchetState Secret Key
  sent : List (Message Ct)
  delivered : List ℕ
  clock : ℕ

variable {Secret Key Ct : Type} (C : RatchetCrypto Secret Key Ct)

section Steps

variable (secrets : ℕ → Secret) (sharedSecret : Key)

/-- Two sessions initialised against each other. -/
def Net.init : Net Secret Key Ct where
  session
    | .alice => initAlice C (secrets 1) sharedSecret (C.publicKey (secrets 0))
    | .bob => initBob C sharedSecret (secrets 0)
  sent := []
  delivered := []
  clock := 2

/-- `p` encrypts and hands the message to the network. -/
def Net.send (net : Net Secret Key Ct) (p : Party) (pt : List UInt8) : Net Secret Key Ct :=
  let r := (net.session p).ratchetEncrypt C pt
  { net with
    session := Function.update net.session p r.2
    sent := match r.1 with
      | .ok (header, ct) => net.sent ++ [⟨p, header, ct, pt⟩]
      | .error _ => net.sent }

def Net.receiver (net : Net Secret Key Ct) (m : Message Ct) : RatchetState Secret Key :=
  net.session m.sender.other

def Net.decrypted (net : Net Secret Key Ct) (m : Message Ct) :
    Except RatchetError (List UInt8) × RatchetState Secret Key :=
  (net.receiver m).ratchetDecrypt C (secrets net.clock) m.header m.ct

def Net.deliver (net : Net Secret Key Ct) (i : ℕ) (m : Message Ct) : Net Secret Key Ct :=
  { net with
    session := match (net.decrypted C secrets m).1 with
      | .ok _ => Function.update net.session m.sender.other (net.decrypted C secrets m).2
      | .error _ => net.session
    delivered := i :: net.delivered
    clock := net.clock + 1 }

end Steps

/-- Delivering a message with this header skips at most `maxSkip` messages of a chain, and what it
skips finds room in the buffer. -/
def WithinBounds (s : RatchetState Secret Key) (header : Header) : Prop :=
  (header.ratchetPub, header.n) ∈ s.skipped ∨
    (s.dhr ≠ some header.ratchetPub → (s.skipKeys header.pn).length ≤ maxSkip ∧
      header.n ≤ maxSkip) ∧
    (s.dhr = some header.ratchetPub → (s.skipKeys header.n).length ≤ maxSkip) ∧
    s.skippedOrder.length + (s.newKeys header).length ≤ maxSkippedTotal

/-- The message number of the next send does not wrap. -/
def NoWrap (s : RatchetState Secret Key) : Prop := s.ns + 1 < 2 ^ 32

/-- The key pair number `k` is none of those drawn before. -/
def FreshDraw (secrets : ℕ → Secret) (k : ℕ) : Prop :=
  ∀ j < k, C.publicKey (secrets j) ≠ C.publicKey (secrets k)

/-- The networks reached by sends of sessions that meet `P` and by deliveries of messages that were
sent, the first delivery of each within the bounds. Every key pair drawn is a fresh one. -/
inductive Run (secrets : ℕ → Secret) (sharedSecret : Key) (P : RatchetState Secret Key → Prop) :
    Net Secret Key Ct → Prop
  | init : FreshDraw C secrets 1 → Run secrets sharedSecret P (Net.init C secrets sharedSecret)
  | send {net : Net Secret Key Ct} (p : Party) (pt : List UInt8) : Run secrets sharedSecret P net →
      P (net.session p) → Run secrets sharedSecret P (net.send C p pt)
  | deliver {net : Net Secret Key Ct} {i : ℕ} {m : Message Ct} : Run secrets sharedSecret P net →
      net.sent[i]? = some m → (i ∉ net.delivered → WithinBounds (net.receiver m) m.header) →
      FreshDraw C secrets net.clock → Run secrets sharedSecret P (net.deliver C secrets i m)

/-- What is assumed of the primitives: Diffie-Hellman commutes, the derivations give distinct keys
for distinct inputs, also of different derivations (the shared secret is derived as well), and the
cipher opens exactly what was sealed with its key. -/
structure Ideal (sharedSecret : Key) : Prop where
  dh_comm : ∀ s t, C.dh s (C.publicKey t) = C.dh t (C.publicKey s)
  root_inj : ∀ rk d rk' d', (C.kdfRk rk d).1 = (C.kdfRk rk' d').1 → rk = rk' ∧ d = d'
  chain_inj : ∀ rk d rk' d', (C.kdfRk rk d).2 = (C.kdfRk rk' d').2 → rk = rk' ∧ d = d'
  next_inj : ∀ ck ck', (C.kdfCk ck).1 = (C.kdfCk ck').1 → ck = ck'
  message_inj : ∀ ck ck', (C.kdfCk ck).2 = (C.kdfCk ck').2 → ck = ck'
  next_ne_chain : ∀ ck rk d, (C.kdfCk ck).1 ≠ (C.kdfRk rk d).2
  shared_ne_root : ∀ rk d, sharedSecret ≠ (C.kdfRk rk d).1
  opens : ∀ key pt aad ct, C.aeadEncrypt key pt aad = some ct → C.aeadDecrypt key ct aad = some pt
  authentic : ∀ key pt aad ct key' aad' pt', C.aeadEncrypt key pt aad = some ct →
    C.aeadDecrypt key' ct aad' = some pt' → key' = key ∧ aad' = aad

end MeshTalk.Ratchet
