import MeshTalk.Channel.Checkpoint
import MeshTalk.Postoffice.EventCodec

/-! # Receivers, in memory and stored

A member follows the chains of the others in memory (`channel/model.rs`), or keeps a checkpoint of
each and opens messages against it. -/

namespace MeshTalk.Channel

open Lib Ratchet List Postoffice

/-! ### Messages -/

section Messages

variable {Secret Key : Type} (C : RatchetCrypto Secret Key (List UInt8))

abbrev Receivers (ν : Type) := Map (String × ℕ) ν

def openChain (chains : Receivers (SenderChain Key)) (hdr : MsgHeader) (ct hdrBytes : List UInt8) :
    Option (List UInt8) × Receivers (SenderChain Key) :=
  match chains.lookup (hdr.sender, hdr.epoch) with
  | none => (none, chains)
  | some chain =>
    match chain.prepareOpen C hdr.n ct hdrBytes with
    | .error _ => (none, chains)
    | .ok (next, plaintext) => (some plaintext, chains.insert (hdr.sender, hdr.epoch) next)

theorem openChain_of_error {C : RatchetCrypto Secret Key (List UInt8)} {chains c header ct aad}
    (hc : chains.lookup (header.sender, header.epoch) = some c)
    (h : ∀ r, c.prepareOpen C header.n ct aad ≠ .ok r) :
      openChain C chains header ct aad = (none, chains) := by
  unfold openChain
  rw [hc]
  dsimp only
  split
  · rfl
  · next hok => exact absurd hok (h _)

theorem openChain_of_none {chains header ct aad} (h : (openChain C chains header ct aad).1 = none) :
    (openChain C chains header ct aad).2 = chains := by
  unfold openChain at h ⊢
  repeat' split at h
  all_goals first | rfl | cases h

variable [BincodeRead MsgHeader]

def openSenderMessage (chains : Receivers (SenderChain Key)) (expectedSender : String)
    (wire : List UInt8) : Option (List UInt8) × Receivers (SenderChain Key) :=
  match wire with
  | high :: low :: rest =>
    let hlen := high.toNat * 256 + low.toNat
    if rest.length < hlen then (none, chains)
    else
      match (BincodeRead.deserialize (rest.take hlen)).toOption with
      | none => (none, chains)
      | some hdr =>
        if hdr.sender ≠ expectedSender then (none, chains)
        else openChain C chains hdr (rest.drop hlen) (rest.take hlen)
  | _ => (none, chains)

def openStoredMessage (rows : Receivers (ReceiverCheckpoint Key)) (expectedSender : String)
    (wire : List UInt8) : Option (List UInt8) × Receivers (ReceiverCheckpoint Key) :=
  match senderMessageEpoch expectedSender wire with
  | none => (none, rows)
  | some epoch =>
    match rows.lookup (expectedSender, epoch) with
    | none => (none, rows)
    | some cp =>
      match prepareCheckpointMessage C expectedSender cp wire with
      | .error _ => (none, rows)
      | .ok p => (some p.plaintext, rows.insert (p.author, p.epoch) p.checkpoint)

/-- Open messages of senders one after the other. -/
def openAll {σ : Type} (openOne : σ → String → List UInt8 → Option (List UInt8) × σ) (s : σ) :
    List (String × List UInt8) → List (Option (List UInt8)) × σ
  | [] => ([], s)
  | m :: ms =>
    let r := openOne s m.1 m.2
    let q := openAll openOne r.2 ms
    (r.1 :: q.1, q.2)

def Stores (rows : Receivers (ReceiverCheckpoint Key)) (chains : Receivers (SenderChain Key)) :
    Prop :=
  ∀ k, Option.Rel Holds (rows.lookup k) (chains.lookup k)

variable {C} {rows : Receivers (ReceiverCheckpoint Key)} {chains : Receivers (SenderChain Key)}
  {sender : String} {wire : List UInt8}

theorem openSenderMessage_of_foreign (h : senderMessageEpoch sender wire = none) :
    openSenderMessage C chains sender wire = (none, chains) := by
  unfold senderMessageEpoch messageParts at h
  unfold openSenderMessage
  match wire with
  | [] | [_] => rfl
  | high :: low :: rest =>
    dsimp only at h ⊢
    split_ifs with hlen
    · rfl
    · rw [if_pos (not_lt.mp hlen)] at h
      cases hd : (BincodeRead.deserialize (R := MsgHeader) (rest.take _)).toOption with
      | none => rfl
      | some hdr =>
        rw [hd, Option.map_some, Option.bind_some] at h
        exact if_pos fun hsender => absurd h (by rw [if_pos hsender]; nofun)

theorem openSenderMessage_of_parts {header length}
    (hparts : messageParts wire = some (header, length))
    (hsender : header.sender = sender) : openSenderMessage C chains sender wire =
      openChain C chains header (wire.drop (2 + length)) ((wire.drop 2).take length) := by
  unfold messageParts at hparts
  unfold openSenderMessage
  match wire with
  | [] | [_] => cases hparts
  | high :: low :: rest =>
    dsimp only at hparts ⊢
    split_ifs at hparts with hlen
    obtain ⟨hdr, hd, heq⟩ := Option.map_eq_some_iff.mp hparts
    cases heq
    rw [if_neg (not_lt.mpr hlen), hd]
    dsimp only
    rw [if_neg (not_not.mpr hsender), Nat.add_comm 2, drop_succ_cons, drop_succ_cons]
    rfl

/-- **One message.** -/
theorem Stores.openMessage (h : Stores rows chains) (sender : String) (wire : List UInt8) :
    (openStoredMessage C rows sender wire).1 = (openSenderMessage C chains sender wire).1 ∧
      Stores (openStoredMessage C rows sender wire).2
        (openSenderMessage C chains sender wire).2 := by
  unfold openStoredMessage
  cases hepoch : senderMessageEpoch sender wire with
  | none =>
    rw [openSenderMessage_of_foreign hepoch]
    exact ⟨rfl, h⟩
  | some epoch =>
    obtain ⟨⟨header, length⟩, hparts, hsome⟩ := Option.bind_eq_some_iff.mp hepoch
    split_ifs at hsome with hsender
    cases hsome
    rw [openSenderMessage_of_parts hparts hsender]
    subst hsender
    have hrow := h (header.sender, header.epoch)
    generalize hr : rows.lookup (header.sender, header.epoch) = row at hrow
    generalize hc : chains.lookup (header.sender, header.epoch) = chain at hrow
    dsimp only
    cases hrow with
    | none =>
      rw [openChain, hr, hc]
      exact ⟨rfl, h⟩
    | @some cp c hholds =>
      rw [hr]
      dsimp only
      have hresult := hholds.result (C := C) header.sender wire
      generalize prepareCheckpointMessage C header.sender cp wire = x at hresult
      cases hresult with
      | opened hparts' _ hopen _ hnext _ hep hauthor =>
        cases hparts.symm.trans hparts'
        rw [openChain, hc]
        dsimp only
        rw [hopen, hauthor, hep]
        refine ⟨rfl, fun k => ?_⟩
        rw [Map.lookup_insert_ite, Map.lookup_insert_ite]
        split_ifs
        · exact .some hnext
        · exact h k
      | gap hparts' _ hfar =>
        cases hparts.symm.trans hparts'
        rw [openChain_of_error hc (hholds.valid.not_opened_of_far (by omega))]
        exact ⟨rfl, h⟩
      | foreign hforeign =>
        rw [hepoch] at hforeign
        cases hforeign
      | refused hparts' _ hrefused =>
        cases hparts.symm.trans hparts'
        rw [openChain_of_error hc (hholds.valid.not_opened_of_refused hrefused)]
        exact ⟨rfl, h⟩

theorem Stores.openAll : ∀ {rows chains} (_ : Stores rows chains) ms,
    (openAll (openStoredMessage C) rows ms).1 = (openAll (openSenderMessage C) chains ms).1 ∧
      Stores (openAll (openStoredMessage C) rows ms).2 (openAll (openSenderMessage C) chains ms).2
  | _, _, h, [] => ⟨rfl, h⟩
  | _, _, h, (sender, wire) :: ms => by
    obtain ⟨hout, hnext⟩ := h.openMessage (C := C) sender wire
    obtain ⟨houts, hlast⟩ := hnext.openAll ms
    exact ⟨congrArg₂ cons hout houts, hlast⟩

/-- **Messages are opened alike in memory and against stored checkpoints.** The rows hold the
chains. Any sequence of messages of any senders and epochs gives the same plaintexts and the same
refusals, and the rows hold the chains after it. A message that is refused changes neither. -/
theorem stored_opens_as_memory (h : Stores rows chains) (ms : List (String × List UInt8)) :
    (openAll (openStoredMessage C) rows ms).1 = (openAll (openSenderMessage C) chains ms).1 ∧
    Stores (openAll (openStoredMessage C) rows ms).2 (openAll (openSenderMessage C) chains ms).2 ∧
    (∀ rows sender wire, (openStoredMessage C rows sender wire).1 = none →
      (openStoredMessage C rows sender wire).2 = rows) ∧
    ∀ chains sender wire, (openSenderMessage C chains sender wire).1 = none →
      (openSenderMessage C chains sender wire).2 = chains := by
  refine ⟨(h.openAll ms).1, (h.openAll ms).2, fun rows sender wire hnone => ?_,
    fun chains sender wire hnone => ?_⟩
  · unfold openStoredMessage at hnone ⊢
    repeat' split at hnone
    all_goals first | rfl | cases hnone
  · cases hepoch : senderMessageEpoch sender wire with
    | none => rw [openSenderMessage_of_foreign hepoch]
    | some epoch =>
      obtain ⟨⟨header, length⟩, hparts, hsome⟩ := Option.bind_eq_some_iff.mp hepoch
      split_ifs at hsome with hsender
      rw [openSenderMessage_of_parts hparts hsender] at hnone ⊢
      exact openChain_of_none C hnone

end Messages

/-- Chain keys are numbers, each the message key of its position, and a message is its key. -/
def numberChains : RatchetCrypto Unit ℕ (List UInt8) :=
  ⟨fun _ => 0, fun _ _ => 0, fun k _ => (k, k), fun k => (k + 1, k), fun k _ _ =>
    some [UInt8.ofNat k], fun k ct _ => if ct = [UInt8.ofNat k] then some [] else none⟩

theorem stored_opens_as_memory_one :
    let _ : BincodeRead MsgHeader := ⟨fun _ => .ok ⟨1, "a", 0⟩⟩
    (openAll (openStoredMessage numberChains) ((∅ : Map _ _).insert ("a", 1) ⟨0, 0, []⟩)
        [("a", [0, 0, 0]), ("a", [0, 0, 0])]).1 =
      (openAll (openSenderMessage numberChains) ((∅ : Map _ _).insert ("a", 1) ⟨0, 0, ∅, []⟩)
        [("a", [0, 0, 0]), ("a", [0, 0, 0])]).1 := by
  intro
  refine (stored_opens_as_memory (fun k => ?_) _).1
  rw [Map.lookup_insert_ite, Map.lookup_insert_ite]
  split_ifs
  · exact .some ⟨.fromDistribution ⟨0, 0⟩, rfl⟩
  · exact .none

/-! ### Bytes -/

section Bytes

def positionFormat : ByteFormat UInt32 :=
  (ByteFormat.fixed 4).imap (fun n => beBytes 4 n.toNat)
    (fun bs => if bs.length = 4 then some (UInt32.ofNat (ofLe bs.reverse)) else none)
    (fun n => by rw [if_pos (length_beBytes 4 _), ofLe_reverse_beBytes n.toNat_lt,
      UInt32.ofNat_toNat])
    fun bs n h => by
      split at h
      · next hlen =>
        cases h
        obtain ⟨hlt, hback⟩ := beBytes_ofLe_reverse hlen
        rw [UInt32.toNat_ofNat_of_lt' hlt, hback]
      · cases h

def entryFormat : ByteFormat (UInt32 × BitVec 256) := positionFormat.pair wordCodec

/-- What stands before the buffered keys: a mark, the chain key, the next position and their
number. -/
def headFormat : ByteFormat (List UInt8 × BitVec 256 × UInt32 × UInt32) :=
  (ByteFormat.fixed 5).pair (wordCodec.pair (positionFormat.pair positionFormat))

def checkpointMagic : List UInt8 := [0x4d, 0x54, 0x52, 0x58, 1]

namespace ReceiverCheckpoint

def bytes (cp : ReceiverCheckpoint (BitVec 256)) : List UInt8 :=
  headFormat.encode (checkpointMagic, cp.chainKey, cp.n, UInt32.ofNat cp.entries.length) ++
    cp.entries.flatMap entryFormat.encode

def ofBytes (bs : List UInt8) : Option (ReceiverCheckpoint (BitVec 256)) :=
  (headFormat.decode bs).bind fun ((mark, chainKey, n, count), rest) =>
    if mark = checkpointMagic then
      (entryFormat.decodeMany count.toNat rest).bind fun (entries, rest) =>
        if rest = [] then some ⟨chainKey, n, entries⟩ else none
    else none

theorem bytes_of_ofBytes {bs cp} (h : ofBytes bs = some cp) : bs = cp.bytes := by
  obtain ⟨⟨⟨mark, chainKey, n, count⟩, rest⟩, hd, h⟩ := Option.bind_eq_some_iff.mp h
  dsimp only at h
  split_ifs at h with hmark
  obtain ⟨⟨entries, rest'⟩, hm, h⟩ := Option.bind_eq_some_iff.mp h
  dsimp only at h
  split_ifs at h with hrest
  cases h
  obtain ⟨-, rfl⟩ := headFormat.encode_decode bs _ _ hd
  obtain ⟨hlen, -, rfl⟩ := entryFormat.encode_decodeMany _ _ _ _ hm
  rw [bytes, hlen, UInt32.ofNat_toNat, hmark, hrest, append_nil]

theorem ofBytes_bytes {cp : ReceiverCheckpoint (BitVec 256)}
    (h : cp.entries.length ≤ maxSkippedTotal) :
    ofBytes cp.bytes = some cp := by
  have hcount : (UInt32.ofNat cp.entries.length).toNat = cp.entries.length :=
    UInt32.toNat_ofNat_of_lt' (h.trans_lt (by decide))
  have hpos (n : UInt32) : positionFormat.Valid n := length_beBytes 4 n.toNat
  have hhead := headFormat.decode_encode
    (checkpointMagic, cp.chainKey, cp.n, UInt32.ofNat cp.entries.length)
    (cp.entries.flatMap entryFormat.encode) ⟨rfl, length_wordBytes _, hpos _, hpos _⟩
  have hentries := entryFormat.decodeMany_encode cp.entries [] fun _ _ =>
    ⟨hpos _, length_wordBytes _⟩
  rw [append_nil] at hentries
  rw [ofBytes, bytes, hhead, Option.bind_some]
  show (if checkpointMagic = checkpointMagic then _ else none) = _
  rw [if_pos rfl, hcount, hentries]
  rfl

end ReceiverCheckpoint

namespace SenderChain

variable {Key : Type}

def encodeCheckpointBytes (c : SenderChain (BitVec 256)) : Except SenderKeyError (List UInt8) :=
  c.encodeCheckpoint.map ReceiverCheckpoint.bytes

/-- The chain of stored bytes. That they are neither too short nor too long is part of reading
them. -/
def decodeCheckpointBytes (bs : List UInt8) : Except SenderKeyError (SenderChain (BitVec 256)) := do
  decodeCheckpoint (← need (ReceiverCheckpoint.ofBytes bs) invalidCheckpoint)

def entriesOf (s : Map UInt32 Key × List UInt32) : List (UInt32 × Key) :=
  s.2.filterMap fun p => (s.1.lookup p).map (p, ·)

theorem decodeEntries_ok {n} : ∀ {es : List (UInt32 × Key)} {s s'}, es.foldlM (decodeEntry n) s =
    .ok s' → Listed s.1 s.2 → (∀ p ∈ s.2, p < n) → Listed s'.1 s'.2 ∧ (∀ p ∈ s'.2, p < n) ∧
      s'.2 = s.2 ++ es.map Prod.fst ∧ entriesOf s' = entriesOf s ++ es
  | [], s, _, h, hl, hb => by
    cases h
    exact ⟨hl, hb, by simp, by simp⟩
  | (p, k) :: es, s, s', h, hl, hb => by
    rw [foldlM_cons] at h
    obtain ⟨s₁, hone, h⟩ := bind_eq_ok.mp h
    obtain ⟨⟨hp, hnew⟩, hs₁⟩ := ensure_bind_eq_ok.mp hone
    cases hs₁
    have hnot : p ∉ s.2 := fun hmem => hnew ((hl.mem p).mp hmem)
    obtain ⟨h1, h2, h3, h4⟩ := decodeEntries_ok h (hl.insert_append hnot k) fun q hq => by
      rcases mem_append.mp hq with hq | hq
      · exact hb q hq
      · rw [mem_singleton.mp hq]
        exact hp
    have hold : entriesOf (s.1.insert p k, s.2 ++ [p]) = entriesOf s ++ [(p, k)] := by
      have hcongr : s.2.filterMap (fun q => ((s.1.insert p k).lookup q).map (q, ·)) = entriesOf s :=
        filterMap_congr fun q hq => by
          have hne : q ≠ p := fun he => hnot (he ▸ hq)
          rw [Map.lookup_insert_ite, if_neg hne]
      rw [entriesOf, filterMap_append, hcongr]
      simp [Map.lookup_insert_ite]
    refine ⟨h1, h2, ?_, ?_⟩
    · rw [h3]
      simp
    · rw [h4, hold]
      simp

/-- **A checkpoint that is read is the one that would be written.** -/
theorem decodeCheckpoint_ok {cp} {c : SenderChain Key} (h : decodeCheckpoint cp = .ok c) :
    c.Valid ∧ c.encodeCheckpoint = .ok cp ∧ cp.entries.length ≤ maxSkippedTotal := by
  have hread {cp} (h : decodeCheckpoint cp = .ok c) :
    c.Valid ∧ cp.entries.length ≤ maxSkippedTotal ∧
      cp = ⟨c.chainKey, c.n, entriesOf (c.skipped, c.order)⟩ := by
    obtain ⟨hlen, h⟩ := ensure_bind_eq_ok.mp h
    obtain ⟨⟨skipped, order⟩, hfold, h⟩ := bind_eq_ok.mp h
    cases h
    obtain ⟨h1, h2, h3, h4⟩ := decodeEntries_ok hfold .empty fun p hp => absurd hp not_mem_nil
    have h3 : order = cp.entries.map Prod.fst := h3
    have h4 : entriesOf (skipped, order) = cp.entries := h4
    refine ⟨⟨h1, ?_, h2⟩, hlen, ?_⟩
    · rw [h3, length_map]
      exact hlen
    · rw [h4]
  obtain ⟨hvalid, hlen, heq⟩ := hread h
  obtain ⟨cp', henc, hdec, -⟩ := hvalid.encode
  rw [(hread hdec).2.2, ← heq] at henc
  exact ⟨hvalid, henc, hlen⟩

inductive Reached {Secret : Type} (C : RatchetCrypto Secret Key (List UInt8)) :
    SenderChain Key → Prop
  | start (d : SenderKeyDistribution Key) : Reached C (.fromDistribution d)
  | request {c r} (t : UInt32) : Reached C c → c.messageKey C t = some r → Reached C r.2
  | refresh {c} (d : SenderKeyDistribution Key) : Reached C c → Reached C (c.refreshDistribution d)

theorem Reached.valid {Secret : Type} {C : RatchetCrypto Secret Key (List UInt8)} {c}
    (h : Reached C c) :
    c.Valid := by
  induction h with
  | start d => exact .fromDistribution d
  | request t _ hr ih =>
    have hanswer := ih.messageKey (C := C) t
    rw [hr] at hanswer
    cases hanswer with
    | key _ _ _ hvalid => exact hvalid
    | far | spent | last => exact ih
  | refresh d _ ih => exact (ih.refresh d).1

end SenderChain

open SenderChain in
/-- **Checkpoints as bytes.** A chain reached from a snapshot by any requests and jumps is written,
and what is read back is that chain, with the buffered keys in the same order. Bytes that are read
are those that the chain is written as, and it buffers distinct positions below the next one, not
too many. -/
theorem checkpoint_bytes {Secret : Type} (C : RatchetCrypto Secret (BitVec 256) (List UInt8)) :
    (∀ c, Reached C c → ∃ bs, c.encodeCheckpointBytes = .ok bs ∧ decodeCheckpointBytes bs = .ok c) ∧
    ∀ bs c, decodeCheckpointBytes bs = .ok c → c.encodeCheckpointBytes = .ok bs ∧ c.order.Nodup ∧
      (∀ p, p ∈ c.order ↔ p ∈ c.skipped) ∧ (∀ p ∈ c.order, p < c.n) ∧
        c.order.length ≤ maxSkippedTotal := by
  refine ⟨fun c hc => ?_, fun bs c h => ?_⟩
  · obtain ⟨cp, henc, hdec, -⟩ := hc.valid.encode
    refine ⟨cp.bytes, ?_, ?_⟩
    · rw [encodeCheckpointBytes, henc]
      rfl
    · rw [decodeCheckpointBytes, ReceiverCheckpoint.ofBytes_bytes (decodeCheckpoint_ok hdec).2.2]
      exact hdec
  · obtain ⟨cp, hcp, h⟩ := bind_eq_ok.mp h
    obtain ⟨hvalid, henc, -⟩ := decodeCheckpoint_ok h
    refine ⟨?_, hvalid.listed.nodup, hvalid.listed.mem, hvalid.below, hvalid.bounded⟩
    rw [ReceiverCheckpoint.bytes_of_ofBytes (need_eq_ok.mp hcp), encodeCheckpointBytes, henc]
    rfl

end Bytes

end MeshTalk.Channel
