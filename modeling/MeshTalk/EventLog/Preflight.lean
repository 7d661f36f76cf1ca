import MeshTalk.EventLog.Sync
import MeshTalk.Postoffice.EventCodec
import MeshTalk.Lib.Outcome

/-! # Stored events before they are decoded

A stored event is checked against the header of its row before anything is allocated for it
(`eventlog/repository/decode.rs`): the fields of known size are read and the others skipped. -/

namespace MeshTalk.EventLog

open Lib List Postoffice

structure EventHeader where
  id : EventId
  conversation : ConversationId
  author : Author
  seq : ℕ
  lamport : ℕ
  wallClock : ℕ
  kind : EventKind
  parentCount : ℕ
  encodedBytes : ℕ
  ciphertextBytes : ℕ
  signatureBytes : ℕ
  storedBytes : ℕ
deriving DecidableEq

def EventHeader.of (e : Event) (storedBytes : ℕ) : EventHeader :=
  ⟨e.id, e.conversationId, e.author, e.seq, e.lamport, e.wallClock, e.kind, e.parents.length,
    encodedEventSize e, e.ciphertext.length, e.sig.length, storedBytes⟩

def EventHeader.Describes (header : EventHeader) (bytes : List UInt8) (e : Event) : Prop :=
  eventCodec.Valid e ∧ bytes = eventCodec.encode e ∧
    EventHeader.of e header.storedBytes = { header with encodedBytes := encodedEventSize e }

abbrev u64 : ByteFormat ℕ := .number 8

section Checks

-- what the decoder says of bytes it cannot read
variable (why : List UInt8 → String)

/-- Read a field of known size. -/
def scalar {α : Type} (f : ByteFormat α) (input : List UInt8) : Except LogError (α × List UInt8) :=
  need (f.decode input) (.serialization (why input))

def skipVector (input : List UInt8) (expected width : ℕ) : Except LogError (List UInt8) := do
  let (count, input) ← scalar why u64 input
  ensure (count = expected) (.corruptFile "encoded vector count disagrees with indexed metadata")
  ensure (count * width ≤ usizeMax) (.corruptFile "encoded vector length overflows")
  ensure (count * width ≤ input.length)
    (.corruptFile "encoded vector exceeds remaining event bytes")
  return input.drop (count * width)

def preflight (header : EventHeader) (bytes : List UInt8) : Except LogError Unit := do
  let (id, input) ← scalar why eventIdCodec bytes
  let (conversation, input) ← scalar why conversationIdCodec input
  let (author, input) ← scalar why authorCodec input
  let (seq, input) ← scalar why u64 input
  let input ← skipVector why input header.parentCount 32
  let (lamport, input) ← scalar why u64 input
  let (wallClock, input) ← scalar why u64 input
  let (kind, input) ← scalar why kindCodec input
  let input ← skipVector why input header.ciphertextBytes 1
  let input ← skipVector why input header.signatureBytes 1
  ensure (input = [] ∧ id = header.id ∧ conversation = header.conversation ∧
    author = header.author ∧
    seq = header.seq ∧ lamport = header.lamport ∧ wallClock = header.wallClock ∧ kind = header.kind)
    (.corruptFile "event encoding and indexed metadata disagree")

/-- What decoding a stored event gives, and the bytes allocated for its vectors. Nothing bounds them
where the bytes are not those of an event. -/
def decodeBody (header : EventHeader) (bytes : List UInt8) : Except LogError Event × ℕ :=
  match preflight why header bytes with
  | .error err => (.error err, 0)
  | .ok _ =>
    match eventCodec.decodeAll bytes with
    | none => (.error (.serialization (why bytes)), usizeMax)
    | some e => (.ok e, e.parents.length * 32 + e.ciphertext.length + e.sig.length)

end Checks

variable {why : List UInt8 → String}

/-! ### Fields -/

theorem scalar_eq_ok {α : Type} {f : ByteFormat α} {input r} :
    scalar why f input = .ok r ↔ f.Valid r.1 ∧ input = f.encode r.1 ++ r.2 := by
  rw [scalar, need_eq_ok]
  constructor
  · exact f.encode_decode input r.1 r.2
  · rintro ⟨hv, rfl⟩
    exact f.decode_encode r.1 r.2 hv

theorem skipVector_eq_ok {input rest n w} : skipVector why input n w = .ok rest ↔
    n < 256 ^ 8 ∧ n * w ≤ usizeMax ∧
    ∃ body, body.length = n * w ∧ input = u64.encode n ++ (body ++ rest) := by
  constructor
  · intro h
    obtain ⟨⟨count, input'⟩, hs, h⟩ := bind_eq_ok.mp h
    obtain ⟨hv, hinput⟩ := scalar_eq_ok.mp hs
    dsimp only at h hv hinput
    obtain ⟨hcount, h⟩ := ensure_bind_eq_ok.mp h
    obtain ⟨hmax, h⟩ := ensure_bind_eq_ok.mp h
    obtain ⟨hle, h⟩ := ensure_bind_eq_ok.mp h
    cases h
    subst hcount
    exact ⟨hv, hmax, _, length_take_of_le hle, by rw [take_append_drop, hinput]⟩
  · rintro ⟨hn, hmax, body, hbody, rfl⟩
    unfold skipVector
    rw [scalar_eq_ok (r := (n, body ++ rest)) |>.mpr ⟨hn, rfl⟩, ok_bind]
    dsimp only
    rw [ensure_of _ rfl, ok_bind, ensure_of _ hmax, ok_bind,
      ensure_of _ (by rw [length_append]; omega), ok_bind, ← hbody, drop_left]
    rfl

theorem exists_ids : ∀ {n} {body : List UInt8}, body.length = n * 32 →
    ∃ ids : List EventId, ids.length = n ∧ ids.flatMap eventIdCodec.encode = body
  | 0, body, h => ⟨[], rfl, (length_eq_zero_iff.mp (by omega)).symm⟩
  | n + 1, body, h => by
    have hrest : (body.drop 32).length = n * 32 := by
      rw [length_drop]
      omega
    obtain ⟨ids, hlen, hids⟩ := exists_ids hrest
    have hword : ofWordBytes (body.take 32) = some (word (body.take 32)) :=
      if_pos (by rw [length_take]; omega)
    refine ⟨⟨word (body.take 32)⟩ :: ids, by rw [length_cons, hlen], ?_⟩
    rw [flatMap_cons, hids]
    show wordBytes (word (body.take 32)) ++ body.drop 32 = body
    rw [wordBytes_ofWordBytes hword, take_append_drop]

theorem length_ids (ids : List EventId) : (ids.flatMap eventIdCodec.encode).length =
    ids.length * 32 := by
  have hid (i : EventId) : (eventIdCodec.encode i).length = 32 := length_wordBytes i.bytes
  rw [length_flatMap, map_congr_left fun i _ => hid i, map_const', sum_replicate_nat]

theorem encode_event (e : Event) : eventCodec.encode e = eventIdCodec.encode e.id ++
    (conversationIdCodec.encode e.conversationId ++ (authorCodec.encode e.author ++
    (u64.encode e.seq ++ (u64.encode e.parents.length ++
    (e.parents.flatMap eventIdCodec.encode ++ (u64.encode e.lamport ++
    (u64.encode e.wallClock ++ (kindCodec.encode e.kind ++
    (u64.encode e.ciphertext.length ++ (e.ciphertext ++
    (u64.encode e.sig.length ++ (e.sig ++ [])))))))))))) := by
  have hbytes (bs : List UInt8) : bs.flatMap ByteFormat.byte.encode = bs := flatMap_singleton' bs
  have hlist {α : Type} (f : ByteFormat α) (as : List α) :
      f.list.encode as = u64.encode as.length ++ as.flatMap f.encode := rfl
  have hpair {α β : Type} (f : ByteFormat α) (g : ByteFormat β) (a : α) (b : β) :
      (f.pair g).encode (a, b) = f.encode a ++ g.encode b := rfl
  show fieldsCodec.encode (toFields e) = _
  simp only [fieldsCodec, toFields, hpair, hlist, hbytes, append_assoc, append_nil]

theorem preflight_ok_iff {header bytes} (hb : bytes.length ≤ usizeMax) :
    preflight why header bytes = .ok () ↔ ∃ e, header.Describes bytes e := by
  unfold preflight EventHeader.Describes
  simp only [bind_eq_ok, scalar_eq_ok, skipVector_eq_ok, ensure_eq_ok, Prod.exists]
  constructor
  · rintro ⟨id, i₁, ⟨v₁, rfl⟩, conversation, i₂, ⟨v₂, rfl⟩, author, i₃, ⟨v₃, rfl⟩,
      seq, i₄, ⟨v₄, rfl⟩,
      i₅, ⟨v₅, -, body, hbody, rfl⟩, lamport, i₆, ⟨v₆, rfl⟩, wallClock, i₇, ⟨v₇, rfl⟩,
        kind, i₈, ⟨v₈, rfl⟩,
      i₉, ⟨v₉, -, ct, hct, rfl⟩, i₁₀, ⟨v₁₀, -, sig, hsig, rfl⟩, rfl, rfl, rfl, rfl,
        rfl, rfl, rfl, rfl⟩
    obtain ⟨ids, hlen, rfl⟩ := exists_ids hbody
    rw [mul_one] at hct hsig
    rw [← hlen] at v₅
    rw [← hct] at v₉
    rw [← hsig] at v₁₀
    refine ⟨⟨header.id, header.conversation, header.author, header.seq, ids, header.lamport,
      header.wallClock, header.kind, ct, sig⟩, fits_iff.mpr ⟨v₄, v₆, v₇, v₅, v₉, v₁₀⟩, ?_, ?_⟩
    · rw [encode_event, ← hlen, ← hct, ← hsig]
    · simp only [EventHeader.of, hlen, hct, hsig]
  · rintro ⟨⟨id, conversation, author, seq, parents, lamport, wallClock, kind, ct, sig⟩, hv, rfl,
      hof⟩
    obtain ⟨v₁, v₂, v₃, v₄, ⟨v₅, -⟩, v₆, v₇, v₈, ⟨v₉, -⟩, v₁₀, -⟩ := hv
    simp only [encode_event, length_append, length_ids] at hb
    obtain ⟨rfl, rfl, rfl, rfl, rfl, rfl, rfl, hp, -, hc, hs, -⟩ := EventHeader.mk.inj hof
    have hp : parents.length = header.parentCount := hp
    have hc : ct.length = header.ciphertextBytes := hc
    have hs : sig.length = header.signatureBytes := hs
    rw [← hp, ← hc, ← hs]
    exact ⟨_, _, ⟨v₁, encode_event _⟩, _, _, ⟨v₂, rfl⟩, _, _, ⟨v₃, rfl⟩, _, _, ⟨v₄, rfl⟩,
      _, ⟨v₅, by omega, _, length_ids parents, rfl⟩, _, _, ⟨v₆, rfl⟩, _, _, ⟨v₇, rfl⟩,
        _, _, ⟨v₈, rfl⟩,
      _, ⟨v₉, by omega, _, (mul_one _).symm, rfl⟩, _, ⟨v₁₀, by omega, _, (mul_one _).symm, rfl⟩,
      rfl, rfl, rfl, rfl, rfl, rfl, rfl, rfl⟩

/-- **Stored events.** The check accepts exactly the bytes of an event with the columns of the row,
with nothing after them. What it accepts is decoded, within the size of the row (which is compared
with that of the body before it is read); for what it refuses nothing is allocated. -/
theorem decodeBody_spec {why : List UInt8 → String} {header : EventHeader} {bytes : List UInt8}
    (hb : bytes.length ≤ usizeMax) :
    (preflight why header bytes = .ok () ↔ ∃ e, header.Describes bytes e) ∧
    (preflight why header bytes = .ok () → ∃ e n, decodeBody why header bytes = (.ok e, n) ∧
      header.Describes bytes e ∧ n ≤ bytes.length ∧
        (bytes.length = header.storedBytes → n ≤ header.storedBytes)) ∧
    ∀ err, preflight why header bytes = .error err →
      decodeBody why header bytes = (.error err, 0) := by
  refine ⟨preflight_ok_iff hb, fun h => ?_, fun err h => by rw [decodeBody, h]⟩
  obtain ⟨e, he⟩ := (preflight_ok_iff hb).mp h
  have hle : e.parents.length * 32 + e.ciphertext.length + e.sig.length ≤ bytes.length := by
    rw [he.2.1]
    simp only [encode_event, length_append, length_ids]
    omega
  exact ⟨e, _, by rw [decodeBody, h, ByteFormat.decodeAll_eq_some.mpr ⟨he.1, he.2.1⟩], he, hle,
    fun hs => hs ▸ hle⟩

def plainEvent : Event := ⟨⟨1⟩, ⟨2⟩, ⟨3⟩, 0, [], 1, 1, .message, [7], [8]⟩

theorem decodeBody_spec_plain :
    preflight (fun _ => "") (.of plainEvent 150) (eventCodec.encode plainEvent) = .ok () :=
  (decodeBody_spec (by decide +kernel)).1.mpr ⟨plainEvent, fits_iff.mpr (by decide), rfl, rfl⟩

end MeshTalk.EventLog
