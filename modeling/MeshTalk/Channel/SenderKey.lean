import MeshTalk.Ratchet.Skipped

/-! # Sender keys of a channel

The symmetric chains of `channel/sender_key.rs`: the sending chain of one member, the snapshot of it
that is sealed to the others, and a receiver's view of it with the bounded buffer of skipped keys.
The chain step and the message cipher are those of the ratchet.

Positions are `u32`. An addition that overflows panics in a debug build, so `messageKey` has no
result then; that it always has one is part of what is proved of it. -/

namespace MeshTalk.Channel

open Lib Ratchet

/-- The most messages a receiver skips forward at once. -/
def maxSkip : ℕ := 1000

/-- The most skipped keys a receiver buffers. -/
def maxSkippedTotal : ℕ := 2000

inductive SenderKeyError where
  | encrypt
  | decrypt
  | tooManySkipped
  | malformed (message : String)
deriving DecidableEq

def exhausted : SenderKeyError := .malformed "sender chain exhausted"

def checkedSucc (n : UInt32) : Option UInt32 := if n.toNat + 1 < 2 ^ 32 then some (n + 1) else none

/-- A member's sending chain. -/
structure SenderKey (Key : Type) where
  chainKey : Key
  n : UInt32
deriving DecidableEq

structure SenderKeyDistribution (Key : Type) where
  chainKey : Key
  n : UInt32
deriving DecidableEq

/-- A receiver's view of one sender's chain. -/
structure SenderChain (Key : Type) where
  chainKey : Key
  n : UInt32
  skipped : Map UInt32 Key
  order : List UInt32

variable {Secret Key Ct : Type} (C : RatchetCrypto Secret Key Ct)

namespace SenderKey

def distribution (s : SenderKey Key) : SenderKeyDistribution Key := ⟨s.chainKey, s.n⟩

/-- Advance by one message, unless the next position cannot be represented. -/
def tryRatchet (s : SenderKey Key) : Except SenderKeyError (UInt32 × Key) × SenderKey Key :=
  match checkedSucc s.n with
  | none => (.error exhausted, s)
  | some next => (.ok (s.n, (C.kdfCk s.chainKey).2), ⟨(C.kdfCk s.chainKey).1, next⟩)

def after (s : SenderKey Key) (k : ℕ) : SenderKey Key := (fun s => (tryRatchet C s).2)^[k] s

end SenderKey

namespace SenderChain

def fromDistribution (d : SenderKeyDistribution Key) : SenderChain Key := ⟨d.chainKey, d.n, ∅, []⟩

/-- The snapshot of a receiver's chain, without what it has buffered. -/
def currentDistribution (c : SenderChain Key) : SenderKeyDistribution Key := ⟨c.chainKey, c.n⟩

/-- Jump to a snapshot that the chain cannot reach by itself. -/
def refreshDistribution (c : SenderChain Key) (d : SenderKeyDistribution Key) : SenderChain Key :=
  if d.n.toNat - c.n.toNat > maxSkip then { c with chainKey := d.chainKey, n := d.n } else c

/-- The map and the queue with the key of the next position, the oldest above the bound evicted. -/
def buffer (c : SenderChain Key) : Map UInt32 Key × List UInt32 :=
  evict maxSkippedTotal (c.skipped.insert c.n (C.kdfCk c.chainKey).2) (c.order ++ [c.n])

def skipOne (c : SenderChain Key) : Option (SenderChain Key) :=
  (checkedSucc c.n).map fun next => ⟨(C.kdfCk c.chainKey).1, next, (c.buffer C).1, (c.buffer C).2⟩

/-- Buffer the keys of the next `k` positions. -/
def skip : ℕ → SenderChain Key → Option (SenderChain Key)
  | 0, c => some c
  | k + 1, c => (c.skipOne C).bind (skip k)

/-- The message key of a position. A buffered key is used up; otherwise the chain moves forward to
the position, buffering what it skips, once the whole advance is known to be possible. -/
def messageKey (c : SenderChain Key) (target : UInt32) :
    Option (Except SenderKeyError Key × SenderChain Key) :=
  match c.skipped.lookup target with
  | some key =>
    some (.ok key,
      { c with skipped := c.skipped.erase target, order := c.order.filter fun k => k ≠ target })
  | none =>
    if target < c.n then some (.error (.malformed "message key already consumed"), c)
    else
      match checkedSucc target with
      | none => some (.error exhausted, c)
      | some next =>
        if target.toNat - c.n.toNat > maxSkip then some (.error .tooManySkipped, c)
        else
          (skip C (target.toNat - c.n.toNat) c).map fun c =>
            (.ok (C.kdfCk c.chainKey).2, { c with chainKey := (C.kdfCk c.chainKey).1, n := next })

/-! ### Runs of requests -/

/-- The positions evicted while `k` keys are buffered. -/
def skipEvictions : ℕ → SenderChain Key → List UInt32
  | 0, _ => []
  | k + 1, c =>
    evicted maxSkippedTotal (c.skipped.insert c.n (C.kdfCk c.chainKey).2) (c.order ++ [c.n]) ++
      ((c.skipOne C).map (skipEvictions k)).getD []

/-- The positions a request evicts: none unless the chain moves forward. -/
def evictions (c : SenderChain Key) (target : UInt32) : List UInt32 :=
  if c.skipped.lookup target = none ∧ c.n ≤ target ∧ (checkedSucc target).isSome ∧
      target.toNat - c.n.toNat ≤ maxSkip then
    skipEvictions C (target.toNat - c.n.toNat) c
  else []

end SenderChain

/-- A chain with what was asked of it, what it answered and what it evicted. -/
structure Served (Key : Type) where
  chain : SenderChain Key
  results : List (UInt32 × Except SenderKeyError Key)
  evicted : List UInt32

namespace Served

/-- A chain that was not asked yet. -/
def start (d : SenderKeyDistribution Key) : Served Key := ⟨.fromDistribution d, [], []⟩

def request (s : Served Key) (target : UInt32) : Option (Served Key) :=
  (s.chain.messageKey C target).map fun r =>
    ⟨r.2, s.results ++ [(target, r.1)], s.evicted ++ s.chain.evictions C target⟩

def requests (s : Served Key) : List UInt32 → Option (Served Key)
  | [] => some s
  | t :: ts => (s.request C t).bind fun s => requests s ts

end Served

end MeshTalk.Channel
