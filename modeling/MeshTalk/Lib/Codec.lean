import Mathlib.Data.List.Basic
import Mathlib.Tactic.Ring

/-! # Codecs

A binary format of values of a type, one after the other without separators. A codec carries the
proofs that it reads what it writes, and that what it reads is what it would write, so that a byte
string has at most one reading and a value exactly one writing. -/

namespace MeshTalk.Lib

open List

/-- A format of some values of a type. -/
structure ByteFormat (α : Type) where
  Valid : α → Prop
  encode : α → List UInt8
  decode : List UInt8 → Option (α × List UInt8)
  decode_encode : ∀ a rest, Valid a → decode (encode a ++ rest) = some (a, rest)
  encode_decode : ∀ bs a rest, decode bs = some (a, rest) → Valid a ∧ bs = encode a ++ rest

/-! ### Numbers as bytes -/

/-- The bytes of a number, the least significant first. -/
def leBytes : ℕ → ℕ → List UInt8
  | 0, _ => []
  | w + 1, n => UInt8.ofNat n :: leBytes w (n / 256)

/-- The bytes of a number, the most significant first. -/
def beBytes (w n : ℕ) : List UInt8 := (leBytes w n).reverse

/-- The number that bytes stand for, the least significant first. -/
def ofLe : List UInt8 → ℕ
  | [] => 0
  | b :: bs => b.toNat + 256 * ofLe bs

@[simp] theorem length_leBytes : ∀ w n : ℕ, (leBytes w n).length = w
  | 0, _ => rfl
  | w + 1, n => by rw [leBytes, length_cons, length_leBytes w]

theorem ofLe_leBytes : ∀ {w n}, n < 256 ^ w → ofLe (leBytes w n) = n
  | 0, n, h => by
    rw [pow_zero, Nat.lt_one_iff] at h
    rw [h]
    rfl
  | w + 1, n, h => by
    have hdiv : n / 256 < 256 ^ w := by
      rw [Nat.div_lt_iff_lt_mul (by decide)]
      exact h
    rw [leBytes, ofLe, ofLe_leBytes hdiv, UInt8.toNat_ofNat']
    omega

theorem leBytes_ofLe : ∀ bs : List UInt8, leBytes bs.length (ofLe bs) = bs
  | [] => rfl
  | b :: bs => by
    have hb : b.toNat < 256 := b.toNat_lt
    have hdiv : (b.toNat + 256 * ofLe bs) / 256 = ofLe bs := by omega
    have hhead : UInt8.ofNat (b.toNat + 256 * ofLe bs) = b := by
      apply UInt8.toNat_inj.mp
      rw [UInt8.toNat_ofNat']
      omega
    rw [length_cons, ofLe, leBytes, hdiv, hhead, leBytes_ofLe bs]

theorem ofLe_lt : ∀ bs : List UInt8, ofLe bs < 256 ^ bs.length
  | [] => Nat.one_pos
  | b :: bs => by
    have hb : b.toNat < 256 := b.toNat_lt
    have ih := ofLe_lt bs
    rw [ofLe, length_cons, pow_succ]
    omega

@[simp] theorem length_beBytes (w n) : (beBytes w n).length = w := by
  rw [beBytes, length_reverse, length_leBytes]

theorem ofLe_reverse_beBytes {w n} (h : n < 256 ^ w) : ofLe (beBytes w n).reverse = n := by
  rw [beBytes, reverse_reverse, ofLe_leBytes h]

theorem beBytes_ofLe_reverse {bs : List UInt8} {w} (h : bs.length = w) :
    ofLe bs.reverse < 256 ^ w ∧ beBytes w (ofLe bs.reverse) = bs := by
  subst h
  have hlt := ofLe_lt bs.reverse
  have hback := leBytes_ofLe bs.reverse
  rw [length_reverse] at hlt hback
  exact ⟨hlt, by rw [beBytes, hback, reverse_reverse]⟩

namespace ByteFormat

variable {α β : Type}

/-- A byte string as one value, without anything after it. -/
def decodeAll (c : ByteFormat α) (bs : List UInt8) : Option α :=
  match c.decode bs with
  | some (a, []) => some a
  | _ => none

theorem decodeAll_eq_some {c : ByteFormat α} {bs a} :
    c.decodeAll bs = some a ↔ c.Valid a ∧ bs = c.encode a := by
  constructor
  · intro h
    unfold decodeAll at h
    split at h
    · next a' hd =>
      cases h
      obtain ⟨hv, hbs⟩ := c.encode_decode bs a [] hd
      exact ⟨hv, by rw [hbs, append_nil]⟩
    · cases h
  · rintro ⟨hv, rfl⟩
    have hd := c.decode_encode a [] hv
    rw [append_nil] at hd
    rw [decodeAll, hd]

theorem encode_append_inj {c : ByteFormat α} {a b r s} (ha : c.Valid a) (hb : c.Valid b)
    (h : c.encode a ++ r = c.encode b ++ s) : a = b ∧ r = s := by
  have hd := c.decode_encode a r ha
  rw [h, c.decode_encode b s hb] at hd
  cases hd
  exact ⟨rfl, rfl⟩

theorem encode_inj {c : ByteFormat α} {a b} (ha : c.Valid a) (hb : c.Valid b)
    (h : c.encode a = c.encode b) :
    a = b :=
  (encode_append_inj ha hb (congrArg (· ++ []) h)).1

def byte : ByteFormat UInt8 where
  Valid := fun _ => True
  encode := fun b => [b]
  decode := fun
    | b :: rest => some (b, rest)
    | [] => none
  decode_encode := fun _ _ _ => rfl
  encode_decode := by
    intro bs a rest h
    cases bs with
    | nil => cases h
    | cons b bs =>
      cases h
      exact ⟨trivial, rfl⟩

def fixed (w : ℕ) : ByteFormat (List UInt8) where
  Valid := fun bs => bs.length = w
  encode := fun bs => bs
  decode := fun bs => if w ≤ bs.length then some (bs.take w, bs.drop w) else none
  decode_encode := by
    intro a rest h
    subst h
    rw [if_pos (by rw [List.length_append]; omega), List.take_left, List.drop_left]
  encode_decode := by
    intro bs a rest h
    split at h
    · next hle =>
      cases h
      exact ⟨List.length_take_of_le hle, (List.take_append_drop w bs).symm⟩
    · cases h

def imap (c : ByteFormat α) (f : β → α) (g : α → Option β) (hgf : ∀ b, g (f b) = some b)
    (hfg : ∀ a b, g a = some b → f b = a) : ByteFormat β where
  Valid := fun b => c.Valid (f b)
  encode := fun b => c.encode (f b)
  decode := fun bs => (c.decode bs).bind fun r => (g r.1).map fun b => (b, r.2)
  decode_encode := by
    intro b rest hv
    rw [c.decode_encode (f b) rest hv, Option.bind_some, hgf, Option.map_some]
  encode_decode := by
    intro bs b rest h
    obtain ⟨⟨a, rest'⟩, hd, h⟩ := Option.bind_eq_some_iff.mp h
    obtain ⟨b', hg, heq⟩ := Option.map_eq_some_iff.mp h
    cases heq
    dsimp only
    rw [hfg a b hg]
    exact c.encode_decode bs a rest' hd

def number (w : ℕ) : ByteFormat ℕ where
  Valid := fun n => n < 256 ^ w
  encode := leBytes w
  decode := fun bs => ((fixed w).decode bs).map fun r => (ofLe r.1, r.2)
  decode_encode := by
    intro n rest hn
    have hd : (fixed w).decode (leBytes w n ++ rest) = some (leBytes w n, rest) :=
      (fixed w).decode_encode (leBytes w n) rest (length_leBytes w n)
    rw [hd, Option.map_some, ofLe_leBytes hn]
  encode_decode := by
    intro bs n rest h
    obtain ⟨⟨a, rest'⟩, hd, heq⟩ := Option.map_eq_some_iff.mp h
    cases heq
    obtain ⟨hlen, hbs⟩ := (fixed w).encode_decode bs a rest' hd
    have hlen : a.length = w := hlen
    subst hlen
    exact ⟨ofLe_lt a, by rw [leBytes_ofLe]; exact hbs⟩

def pair (c : ByteFormat α) (d : ByteFormat β) : ByteFormat (α × β) where
  Valid := fun p => c.Valid p.1 ∧ d.Valid p.2
  encode := fun p => c.encode p.1 ++ d.encode p.2
  decode := fun bs => (c.decode bs).bind fun r => (d.decode r.2).map fun q => ((r.1, q.1), q.2)
  decode_encode := by
    rintro ⟨a, b⟩ rest ⟨ha, hb⟩
    rw [List.append_assoc, c.decode_encode a _ ha, Option.bind_some, d.decode_encode b rest hb,
      Option.map_some]
  encode_decode := by
    intro bs p rest h
    obtain ⟨⟨a, r⟩, hc, h⟩ := Option.bind_eq_some_iff.mp h
    obtain ⟨⟨b, r'⟩, hd, heq⟩ := Option.map_eq_some_iff.mp h
    cases heq
    obtain ⟨ha, hbs⟩ := c.encode_decode bs a r hc
    obtain ⟨hb, hr⟩ := d.encode_decode r b r' hd
    dsimp only
    exact ⟨⟨ha, hb⟩, by rw [hbs, hr, List.append_assoc]⟩

/-- Read some values after each other. -/
def decodeMany (c : ByteFormat α) : ℕ → List UInt8 → Option (List α × List UInt8)
  | 0, bs => some ([], bs)
  | n + 1, bs => (c.decode bs).bind fun r => (decodeMany c n r.2).map fun q => (r.1 :: q.1, q.2)

theorem decodeMany_encode (c : ByteFormat α) : ∀ (as : List α) (rest : List UInt8),
    (∀ a ∈ as, c.Valid a) → c.decodeMany as.length (as.flatMap c.encode ++ rest) = some (as, rest)
  | [], _, _ => rfl
  | a :: as, rest, h => by
    rw [flatMap_cons, append_assoc, length_cons, decodeMany,
      c.decode_encode a _ (h a mem_cons_self), Option.bind_some,
      decodeMany_encode c as rest fun b hb => h b (mem_cons_of_mem _ hb), Option.map_some]

theorem encode_decodeMany (c : ByteFormat α) :
    ∀ (n : ℕ) (bs : List UInt8) (as : List α) (rest : List UInt8),
    c.decodeMany n bs = some (as, rest) →
    as.length = n ∧ (∀ a ∈ as, c.Valid a) ∧ bs = as.flatMap c.encode ++ rest
  | 0, bs, as, rest, h => by
    cases h
    exact ⟨rfl, fun _ h => absurd h not_mem_nil, rfl⟩
  | n + 1, bs, as, rest, h => by
    obtain ⟨⟨a, r⟩, hc, h⟩ := Option.bind_eq_some_iff.mp h
    obtain ⟨⟨as', r'⟩, hd, heq⟩ := Option.map_eq_some_iff.mp h
    cases heq
    obtain ⟨ha, hbs⟩ := c.encode_decode bs a r hc
    obtain ⟨hlen, hall, hr⟩ := encode_decodeMany c n r as' r' hd
    refine ⟨by rw [length_cons, hlen], fun b hb => ?_, ?_⟩
    · rcases mem_cons.mp hb with rfl | hb
      · exact ha
      · exact hall b hb
    · rw [hbs, hr, flatMap_cons, append_assoc]

def list (c : ByteFormat α) : ByteFormat (List α) where
  Valid := fun as => as.length < 256 ^ 8 ∧ ∀ a ∈ as, c.Valid a
  encode := fun as => (number 8).encode as.length ++ as.flatMap c.encode
  decode := fun bs => ((number 8).decode bs).bind fun r => c.decodeMany r.1 r.2
  decode_encode := by
    rintro as rest ⟨hlen, hall⟩
    rw [List.append_assoc, (number 8).decode_encode as.length _ hlen, Option.bind_some,
      c.decodeMany_encode as rest hall]
  encode_decode := by
    intro bs as rest h
    obtain ⟨⟨n, r⟩, hn, h⟩ := Option.bind_eq_some_iff.mp h
    obtain ⟨hv, hbs⟩ := (number 8).encode_decode bs n r hn
    obtain ⟨rfl, hall, hr⟩ := c.encode_decodeMany n r as rest h
    exact ⟨⟨hv, hall⟩, by rw [hbs, hr, List.append_assoc]⟩

end ByteFormat

end MeshTalk.Lib
