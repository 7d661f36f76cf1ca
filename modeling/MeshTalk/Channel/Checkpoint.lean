import MeshTalk.Channel.SenderChain
import MeshTalk.Channel.State
import MeshTalk.Lib.Outcome

/-! # Receiver checkpoints

What a device stores of a sender's chain that it follows (`channel/sender_key/checkpoint.rs`), and
what it does with it without changing what is stored (`channel/model/checkpoint.rs`): open a
message, and jump to an authenticated snapshot. A stored checkpoint is a record of the fields of its
bytes. -/

namespace MeshTalk.Channel

open Lib Ratchet List

variable {Secret Key : Type} (C : RatchetCrypto Secret Key (List UInt8))

namespace SenderChain

variable {C} {c c' : SenderChain Key} {t : UInt32}

/-! ### Requests -/

/-- How a request for the key of a position ends. -/
inductive Answer (C : RatchetCrypto Secret Key (List UInt8)) (c : SenderChain Key) (t : UInt32) :
    Option (Except SenderKeyError Key × SenderChain Key) → Prop
  /-- The key is used up. -/
  | key {k} {c' : SenderChain Key} (hkey : c.keyAt C t = some k)
      (hreach : t.toNat ≤ c.n.toNat + maxSkip)
      (hlast : t.toNat + 1 < 2 ^ 32) (hvalid : c'.Valid) (hthins : Thins C c c') :
      Answer C c t (some (.ok k, c'))
  /-- The position is too far ahead. -/
  | far (hfar : c.n.toNat + maxSkip < t.toNat) : Answer C c t (some (.error .tooManySkipped, c))
  /-- The key is not there any more. -/
  | spent (hspent : c.keyAt C t = none) :
      Answer C c t (some (.error (.malformed "message key already consumed"), c))
  /-- The position is the last one. -/
  | last (hlast : t.toNat + 1 = 2 ^ 32) : Answer C c t (some (.error exhausted, c))

/-- **A request for a key.** -/
theorem Valid.messageKey (h : c.Valid) (t) : Answer C c t (c.messageKey C t) := by
  unfold SenderChain.messageKey
  cases hk : c.skipped.lookup t with
  | some k =>
    have htn : t < c.n := by
      by_contra hge
      have := h.lookup_eq_none (UInt32.not_lt.mp hge)
      rw [hk] at this
      cases this
    have htn' := UInt32.lt_iff_toNat_lt.mp htn
    have hmax := c.n.toNat_lt
    obtain ⟨hv, ht⟩ := h.take (C := C) t htn
    exact .key (keyAt_of_lookup hk) (by omega) (by omega) hv ht
  | none =>
    by_cases hlt : t < c.n
    · rw [if_pos hlt]
      exact .spent (keyAt_of_lt hk hlt)
    rw [if_neg hlt]
    have hge := UInt32.not_lt.mp hlt
    have hge' := UInt32.le_iff_toNat_le.mp hge
    have htlt := t.toNat_lt
    cases hnext : checkedSucc t with
    | none =>
      refine .last ?_
      by_contra hne
      obtain ⟨m, hm, -⟩ := checkedSucc_of_lt (n := t) (by omega)
      rw [hnext] at hm
      cases hm
    | some next =>
      have hnext' := checkedSucc_eq_some.mp hnext
      have hmax := next.toNat_lt
      dsimp only
      by_cases hskip : t.toNat - c.n.toNat > maxSkip
      · rw [if_pos hskip]
        exact .far (by omega)
      rw [if_neg hskip]
      obtain ⟨c₁, hc₁, hn₁, hv₁, ht₁⟩ := h.skip (C := C) (k := t.toNat - c.n.toNat) (by omega)
      have hn₁ : c₁.n = t := UInt32.toNat_inj.mp (by omega)
      obtain ⟨hv₂, ht₂⟩ := hv₁.step (C := C) next (by rw [hn₁]; exact hnext')
      rw [hc₁]
      refine .key ?_ (by omega) (by omega) hv₂ (ht₁.trans ht₂)
      -- the key at the next position of the chain is the one the chain had for it before
      have hkey : c₁.keyAt C t = some (C.kdfCk c₁.chainKey).2 := by
        rw [← hn₁, keyAt_of_le (hv₁.lookup_eq_none UInt32.le_rfl) UInt32.le_rfl, Nat.sub_self]
        rfl
      rcases ht₁.keys t with heq | heq
      · exact heq.symm.trans hkey
      · rw [heq] at hkey
        cases hkey

theorem skip_isSome : ∀ (k : ℕ) (c : SenderChain Key), c.n.toNat + k < 2 ^ 32 →
    (SenderChain.skip C k c).isSome = true
  | 0, _, _ => rfl
  | k + 1, c, h => by
    obtain ⟨next, hnext, hn⟩ := checkedSucc_of_lt (n := c.n) (by omega)
    rw [SenderChain.skip, SenderChain.skipOne, hnext]
    exact skip_isSome k _ (by simp only; omega)

theorem messageKey_isSome (C : RatchetCrypto Secret Key (List UInt8)) (c : SenderChain Key) (t) :
    (c.messageKey C t).isSome = true := by
  unfold SenderChain.messageKey
  split
  · rfl
  · split_ifs with hlt hfar
    · rfl
    · split <;> rfl
    · split
      · rfl
      · have htlt := t.toNat_lt
        have hge := UInt32.le_iff_toNat_le.mp (UInt32.not_lt.mp hlt)
        rw [Option.isSome_map]
        exact skip_isSome _ c (by omega)

end SenderChain

/-! ### The stored record -/

/-- A stored checkpoint: the chain, and the buffered keys in the order of eviction. -/
structure ReceiverCheckpoint (Key : Type) where
  chainKey : Key
  n : UInt32
  entries : List (UInt32 × Key)
deriving DecidableEq

def invalidCheckpoint : SenderKeyError := .malformed "invalid local receiver checkpoint"

namespace SenderChain

def encodeCheckpoint (c : SenderChain Key) : Except SenderKeyError (ReceiverCheckpoint Key) := do
  ensure (c.skipped.keys.card ≤ maxSkippedTotal ∧ c.order.length = c.skipped.keys.card)
    invalidCheckpoint
  ensure ((c.order.all fun p => p < c.n && p ∈ c.skipped) = true ∧ c.order.Nodup) invalidCheckpoint
  return ⟨c.chainKey, c.n, c.order.filterMap fun p => (c.skipped.lookup p).map (p, ·)⟩

def decodeEntry (n : UInt32) (s : Map UInt32 Key × List UInt32) (entry : UInt32 × Key) :
    Except SenderKeyError (Map UInt32 Key × List UInt32) := do
  ensure (entry.1 < n ∧ entry.1 ∉ s.1) invalidCheckpoint
  return (s.1.insert entry.1 entry.2, s.2 ++ [entry.1])

def decodeCheckpoint (cp : ReceiverCheckpoint Key) : Except SenderKeyError (SenderChain Key) := do
  ensure (cp.entries.length ≤ maxSkippedTotal) invalidCheckpoint
  let (skipped, order) ← cp.entries.foldlM (decodeEntry cp.n) (∅, [])
  return ⟨cp.chainKey, cp.n, skipped, order⟩

def prepareOpen (c : SenderChain Key) (target : UInt32) (ciphertext aad : List UInt8) :
    Except SenderKeyError (SenderChain Key × List UInt8) := do
  let next ← decodeCheckpoint (← c.encodeCheckpoint)
  let (answer, next) := (next.messageKey C target).get (messageKey_isSome C next target)
  let key ← answer
  let plaintext ← need (C.aeadDecrypt key ciphertext aad) .decrypt
  return (next, plaintext)

variable {C} {c c' : SenderChain Key} {t : UInt32} {ct aad : List UInt8}

theorem foldlM_decodeEntry {n} {m : Map UInt32 Key} :
    ∀ {ps : List UInt32} {s : Map UInt32 Key × List UInt32}, (∀ p ∈ ps, p < n ∧ p ∈ m) →
      ps.Nodup → (∀ p ∈ ps, p ∉ s.1) → ∃ skipped,
        (ps.filterMap fun p => (m.lookup p).map (p, ·)).foldlM (decodeEntry n) s =
          .ok (skipped, s.2 ++ ps) ∧
        ∀ q, skipped.lookup q = if q ∈ ps then m.lookup q else s.1.lookup q
  | [], s, _, _, _ => ⟨s.1, by simp [Pure.pure, Except.pure], by simp⟩
  | p :: ps, s, hmem, hnodup, hnew => by
    obtain ⟨hpn, hpm⟩ := hmem p mem_cons_self
    obtain ⟨k, hk⟩ := Map.mem_iff_lookup.mp hpm
    obtain ⟨hp, hnodup⟩ := nodup_cons.mp hnodup
    have hone : decodeEntry n s (p, k) = .ok (s.1.insert p k, s.2 ++ [p]) := by
      unfold decodeEntry
      rw [ensure_of _ ⟨hpn, hnew p mem_cons_self⟩]
      rfl
    obtain ⟨skipped, hfold, hlook⟩ := foldlM_decodeEntry (s := (s.1.insert p k, s.2 ++ [p]))
      (fun q hq => hmem q (mem_cons_of_mem _ hq)) hnodup fun q hq hin => by
        rcases Finmap.mem_insert.mp hin with rfl | hin
        · exact hp hq
        · exact hnew q (mem_cons_of_mem _ hq) hin
    refine ⟨skipped, ?_, fun q => ?_⟩
    · rw [filterMap_cons_some (b := (p, k)) (by rw [hk]; rfl), foldlM_cons, hone, ok_bind,
        hfold]
      simp
    · rw [hlook, Map.lookup_insert_ite]
      by_cases hq : q = p
      · subst hq
        simp [hp, hk]
      · simp [hq]

/-- **A valid chain is read back.** -/
theorem Valid.encode (h : c.Valid) : ∃ cp, c.encodeCheckpoint = .ok cp ∧
    decodeCheckpoint cp = .ok c ∧ cp.n = c.n := by
  have hcard := h.listed.card
  have hmem : ∀ p ∈ c.order, p < c.n ∧ p ∈ c.skipped := fun p hp =>
    ⟨h.below p hp, (h.listed.mem p).mp hp⟩
  refine ⟨⟨c.chainKey, c.n, c.order.filterMap fun p => (c.skipped.lookup p).map (p, ·)⟩, ?_, ?_,
    rfl⟩
  · unfold encodeCheckpoint
    have hb := h.bounded
    have hall : (c.order.all fun p => p < c.n && p ∈ c.skipped) = true := by simpa using hmem
    rw [ensure_of _ ⟨by omega, hcard.symm⟩, ok_bind, ensure_of _ ⟨hall, h.listed.nodup⟩, ok_bind]
    rfl
  · unfold decodeCheckpoint
    have hlen : (c.order.filterMap fun p => (c.skipped.lookup p).map (p, ·)).length ≤
        maxSkippedTotal := (length_filterMap_le _ _).trans h.bounded
    obtain ⟨skipped, hfold, hlook⟩ := foldlM_decodeEntry (s := (∅, [])) hmem h.listed.nodup
      fun p _ => Finmap.notMem_empty
    rw [ensure_of _ hlen, ok_bind, hfold, ok_bind]
    have hsame : skipped = c.skipped := by
      refine Finmap.ext_lookup fun q => ?_
      rw [hlook]
      split_ifs with hq
      · rfl
      · rw [Finmap.lookup_eq_none.mpr fun hin => hq ((h.listed.mem q).mpr hin)]
        exact Finmap.lookup_empty q
    rw [hsame]
    rfl

/-- A message that a chain cannot open, now or later: its key is gone, it has none, or it is the
wrong one. -/
def Refused (C : RatchetCrypto Secret Key (List UInt8)) (c : SenderChain Key) (t : UInt32)
    (ct aad : List UInt8) : Prop :=
  c.keyAt C t = none ∨ t.toNat + 1 = 2 ^ 32 ∨ ∃ k, c.keyAt C t = some k ∧
    C.aeadDecrypt k ct aad = none

/-- How opening a message ends. -/
inductive Opening (C : RatchetCrypto Secret Key (List UInt8)) (c : SenderChain Key) (t : UInt32)
    (ct aad : List UInt8) : Except SenderKeyError (SenderChain Key × List UInt8) → Prop
  | opened {k} {c' : SenderChain Key} {pt} (hkey : c.keyAt C t = some k)
      (hpt : C.aeadDecrypt k ct aad = some pt)
      (hreach : t.toNat ≤ c.n.toNat + maxSkip) (hlast : t.toNat + 1 < 2 ^ 32) (hvalid : c'.Valid)
      (hthins : Thins C c c') : Opening C c t ct aad (.ok (c', pt))
  | far (hfar : c.n.toNat + maxSkip < t.toNat) : Opening C c t ct aad (.error .tooManySkipped)
  | refused {e : SenderKeyError} (he : e ≠ .tooManySkipped) (h : Refused C c t ct aad) :
      Opening C c t ct aad (.error e)

/-- **Opening a message.** -/
theorem Valid.opening (h : c.Valid) (t : UInt32) (ct aad) :
    Opening C c t ct aad (c.prepareOpen C t ct aad) := by
  obtain ⟨cp, henc, hdec, -⟩ := h.encode
  have hopen : c.prepareOpen C t ct aad =
      (((c.messageKey C t).get (messageKey_isSome C c t)).1 >>= fun key =>
        need (C.aeadDecrypt key ct aad) .decrypt >>= fun plaintext =>
          .ok (((c.messageKey C t).get (messageKey_isSome C c t)).2, plaintext)) := by
    unfold prepareOpen
    rw [henc, ok_bind, hdec, ok_bind]
    rfl
  rw [hopen]
  obtain ⟨a, ha⟩ := Option.isSome_iff_exists.mp (messageKey_isSome C c t)
  have hanswer := h.messageKey (C := C) t
  simp only [ha, Option.get_some] at hanswer ⊢
  cases hanswer with
  | @key k c' hkey hreach hlast hvalid hthins =>
    rw [ok_bind]
    cases hpt : C.aeadDecrypt k ct aad with
    | none => exact .refused (by simp) (.inr (.inr ⟨k, hkey, hpt⟩))
    | some pt => exact .opened hkey hpt hreach hlast hvalid hthins
  | far hfar => exact .far hfar
  | spent hspent => exact .refused (by simp) (.inl hspent)
  | last hlast => exact .refused (by simp [exhausted]) (.inr (.inl hlast))

/-- A message that cannot be opened stays so as the chain goes on. -/
theorem Refused.thins (h : Refused C c t ct aad) (ht : Thins C c c') : Refused C c' t ct aad := by
  rcases h with h | h | ⟨k, hk, hd⟩
  · rcases ht.keys t with heq | heq
    · exact .inl (heq.trans h)
    · exact .inl heq
  · exact .inr (.inl h)
  · rcases ht.keys t with heq | heq
    · exact .inr (.inr ⟨k, heq.trans hk, hd⟩)
    · exact .inl heq

theorem Valid.not_opened_of_refused (hv : c.Valid) (h : Refused C c t ct aad) (r) :
    c.prepareOpen C t ct aad ≠ .ok r := by
  intro hok
  have hopening := hv.opening (C := C) t ct aad
  rw [hok] at hopening
  cases hopening with
  | opened hkey hpt _ hlast =>
    rcases h with h | h | ⟨k, hk, hd⟩
    · rw [h] at hkey
      cases hkey
    · omega
    · obtain rfl := Option.mem_unique hkey hk
      rw [hd] at hpt
      cases hpt

theorem Valid.not_opened_of_far (hv : c.Valid) (h : c.n.toNat + maxSkip < t.toNat) (r) :
    c.prepareOpen C t ct aad ≠ .ok r := by
  intro hok
  have hopening := hv.opening (C := C) t ct aad
  rw [hok] at hopening
  cases hopening with
  | opened _ _ hreach => omega

theorem Valid.refresh (h : c.Valid) (d) :
    (c.refreshDistribution d).Valid ∧ c.n.toNat ≤ (c.refreshDistribution d).n.toNat := by
  unfold refreshDistribution
  split_ifs with hjump
  · have hlt : c.n.toNat < d.n.toNat := by omega
    refine ⟨⟨h.listed, h.bounded, fun p hp => ?_⟩, hlt.le⟩
    have := UInt32.lt_iff_toNat_lt.mp (h.below p hp)
    exact UInt32.lt_iff_toNat_lt.mpr (by show p.toNat < d.n.toNat; omega)
  · exact ⟨h, le_rfl⟩

end SenderChain

/-! ### Messages -/

structure MsgHeader where
  epoch : ℕ
  sender : String
  n : UInt32
deriving DecidableEq

/-- Why a message was not opened against a checkpoint. -/
inductive CheckpointMessageError where
  | rejected
  | gap (afterPosition : ℕ)
  | malformed (text : String)
deriving DecidableEq

/-- A message opened against a checkpoint, with the checkpoint after it. -/
structure PreparedChannelMessage (Key : Type) where
  nextPosition : UInt32
  epoch : ℕ
  author : String
  checkpoint : ReceiverCheckpoint Key
  plaintext : List UInt8
deriving DecidableEq

section Messages

variable [BincodeRead MsgHeader]

/-- The header of a message and its length, which comes first in two bytes. -/
def messageParts (wire : List UInt8) : Option (MsgHeader × ℕ) :=
  match wire with
  | high :: low :: rest =>
    let length := high.toNat * 256 + low.toNat
    if length ≤ rest.length then
      (BincodeRead.deserialize (rest.take length)).toOption.map fun header => (header, length)
    else none
  | _ => none

def senderMessageEpoch (expectedSender : String) (wire : List UInt8) : Option ℕ :=
  (messageParts wire).bind fun p => if p.1.sender = expectedSender then some p.1.epoch else none

def invalidText : String := "invalid local receiver checkpoint"

def prepareCheckpointMessage (expectedSender : String) (cp : ReceiverCheckpoint Key)
    (wire : List UInt8) : Except CheckpointMessageError (PreparedChannelMessage Key) := do
  let (header, length) ← need (messageParts wire) .rejected
  ensure (header.sender = expectedSender) .rejected
  let chain ← (SenderChain.decodeCheckpoint cp).mapError fun _ => .malformed invalidText
  let (next, plaintext) ← (chain.prepareOpen C header.n (wire.drop (2 + length))
    ((wire.drop 2).take length)).mapError fun e =>
      if e = .tooManySkipped then .gap (header.n.toNat - maxSkip) else .rejected
  let checkpoint ← next.encodeCheckpoint.mapError fun _ => .malformed invalidText
  return ⟨next.n, header.epoch, header.sender, checkpoint, plaintext⟩

theorem prepareCheckpointMessage_names {sender cp wire p}
    (h : prepareCheckpointMessage C sender cp wire = .ok p) :
    senderMessageEpoch sender wire = some p.epoch ∧ p.author = sender := by
  obtain ⟨⟨header, length⟩, hparts, h⟩ := bind_eq_ok.mp h
  obtain ⟨hsender, h⟩ := ensure_bind_eq_ok.mp h
  obtain ⟨chain, -, h⟩ := bind_eq_ok.mp h
  obtain ⟨⟨next, plaintext⟩, -, h⟩ := bind_eq_ok.mp h
  obtain ⟨checkpoint, -, h⟩ := bind_eq_ok.mp h
  cases h
  have hsender : header.sender = sender := hsender
  refine ⟨?_, hsender⟩
  rw [senderMessageEpoch, need_eq_ok.mp hparts]
  exact if_pos hsender

end Messages

def refreshedReceiverCheckpoint (cp : ReceiverCheckpoint Key) (d : SenderKeyDistribution Key) :
    Except ChannelError (ReceiverCheckpoint Key) := do
  let chain ← (SenderChain.decodeCheckpoint cp).mapError fun _ => .malformed invalidText
  (chain.refreshDistribution d).encodeCheckpoint.mapError fun _ => .malformed invalidText

def checkpointDistribution (cp : ReceiverCheckpoint Key) :
    Except ChannelError (SenderKeyDistribution Key) :=
  ((SenderChain.decodeCheckpoint cp).map SenderChain.currentDistribution).mapError
    fun _ => .malformed invalidText

def initialReceiverCheckpoint (d : SenderKeyDistribution Key) :
    Except ChannelError (ReceiverCheckpoint Key) :=
  (SenderChain.fromDistribution d).encodeCheckpoint.mapError fun _ => .malformed invalidText

/-! ### Checkpoints of valid chains -/

structure Holds (cp : ReceiverCheckpoint Key) (c : SenderChain Key) : Prop where
  valid : c.Valid
  read : SenderChain.decodeCheckpoint cp = .ok c

theorem SenderChain.Valid.holds {c : SenderChain Key} (h : c.Valid) :
    ∃ cp, c.encodeCheckpoint = .ok cp ∧ Holds cp c := by
  obtain ⟨cp, henc, hdec, -⟩ := h.encode
  exact ⟨cp, henc, h, hdec⟩

theorem holds_initial (d : SenderKeyDistribution Key) :
    ∃ cp, initialReceiverCheckpoint d = .ok cp ∧ Holds cp (.fromDistribution d) := by
  obtain ⟨cp, henc, h⟩ := (SenderChain.Valid.fromDistribution d).holds
  refine ⟨cp, ?_, h⟩
  unfold initialReceiverCheckpoint
  rw [henc]
  rfl

namespace Holds

variable {C} {cp : ReceiverCheckpoint Key} {c : SenderChain Key} (h : Holds cp c)
include h

theorem refresh (d) :
    ∃ cp', refreshedReceiverCheckpoint cp d = .ok cp' ∧ Holds cp' (c.refreshDistribution d) := by
  obtain ⟨cp', henc, h'⟩ := (h.valid.refresh d).1.holds
  refine ⟨cp', ?_, h'⟩
  unfold refreshedReceiverCheckpoint
  rw [h.read]
  show (c.refreshDistribution d).encodeCheckpoint.mapError _ = _
  rw [henc]
  rfl

theorem distribution : checkpointDistribution cp = .ok c.currentDistribution := by
  unfold checkpointDistribution
  rw [h.read]
  rfl

variable [BincodeRead MsgHeader]

/-- How opening a message against the checkpoint ends. -/
inductive Result (C : RatchetCrypto Secret Key (List UInt8)) (c : SenderChain Key) (sender : String)
    (wire : List UInt8) : Except CheckpointMessageError (PreparedChannelMessage Key) → Prop
  | opened {header length} {p : PreparedChannelMessage Key} {c'}
      (hparts : messageParts wire = some (header, length)) (hsender : header.sender = sender)
      (hopen : c.prepareOpen C header.n (wire.drop (2 + length)) ((wire.drop 2).take length) =
        .ok (c', p.plaintext)) (hthins : SenderChain.Thins C c c') (hholds : Holds p.checkpoint c')
      (hposition : p.nextPosition = c'.n) (hepoch : p.epoch = header.epoch)
        (hauthor : p.author = sender) :
      Result C c sender wire (.ok p)
  | gap {header length} (hparts : messageParts wire = some (header, length))
      (hsender : header.sender = sender) (hfar : c.n.toNat < header.n.toNat - maxSkip) :
      Result C c sender wire (.error (.gap (header.n.toNat - maxSkip)))
  | foreign (hforeign : senderMessageEpoch sender wire = none) :
      Result C c sender wire (.error .rejected)
  | refused {header length} (hparts : messageParts wire = some (header, length))
      (hsender : header.sender = sender)
      (hrefused : SenderChain.Refused C c header.n (wire.drop (2 + length))
        ((wire.drop 2).take length)) :
      Result C c sender wire (.error .rejected)

/-- **Opening a message against a checkpoint.** -/
theorem result (sender wire) :
    Result C c sender wire (prepareCheckpointMessage C sender cp wire) := by
  unfold prepareCheckpointMessage
  cases hparts : messageParts wire with
  | none => exact .foreign (by rw [senderMessageEpoch, hparts]; rfl)
  | some parts =>
    obtain ⟨header, length⟩ := parts
    show Result C c sender wire (ensure _ _ >>= _)
    by_cases hsender : header.sender = sender
    · rw [ensure_of _ hsender, ok_bind, h.read]
      show Result C c sender wire ((c.prepareOpen C header.n (wire.drop (2 + length))
        ((wire.drop 2).take length)).mapError _ >>= _)
      have hopening := h.valid.opening (C := C) header.n (wire.drop (2 + length))
        ((wire.drop 2).take length)
      generalize hx : c.prepareOpen C header.n (wire.drop (2 + length))
        ((wire.drop 2).take length) = x
        at hopening
      cases hopening with
      | @opened k c' pt hkey hpt hreach hlast hvalid hthins =>
        obtain ⟨cp', henc, hholds⟩ := hvalid.holds
        show Result C c sender wire (c'.encodeCheckpoint.mapError _ >>= _)
        rw [henc]
        exact .opened hparts hsender hx hthins hholds rfl rfl hsender
      | far hfar => exact .gap hparts hsender (by omega)
      | @refused e he hr =>
        show Result C c sender wire (.error (if e = .tooManySkipped then _ else _))
        rw [if_neg he]
        exact .refused hparts hsender hr
    · rw [ensure_of_not _ hsender, error_bind]
      exact .foreign (by rw [senderMessageEpoch, hparts]; exact if_neg hsender)

end Holds

end MeshTalk.Channel
