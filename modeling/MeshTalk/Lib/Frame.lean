import Mathlib.Algebra.Group.Nat.Defs
import Mathlib.Data.List.Forall2
import Mathlib.Order.Basic

/-! # Length-prefixed frames

A sequence of payloads in one byte string, each after its length as four bytes. A string that ends
within a frame is torn there. -/

namespace MeshTalk.Lib

open List

/-- A number as four bytes, the most significant first. -/
def be32 (n : ℕ) : List UInt8 :=
  [UInt8.ofNat (n / 2 ^ 24), UInt8.ofNat (n / 2 ^ 16), UInt8.ofNat (n / 2 ^ 8), UInt8.ofNat n]

/-- The number that bytes stand for, the most significant first. -/
def ofBe (bs : List UInt8) : ℕ := bs.foldl (fun n b => 256 * n + b.toNat) 0

theorem length_be32 (n) : (be32 n).length = 4 := rfl

theorem ofBe_be32 {n} (h : n < 2 ^ 32) : ofBe (be32 n) = n := by
  simp only [ofBe, be32, foldl_cons, foldl_nil, UInt8.toNat_ofNat']
  omega

def frame (p : List UInt8) : List UInt8 := be32 p.length ++ p

theorem length_frame (p) : (frame p).length = p.length + 4 := by
  rw [frame, length_append, length_be32, Nat.add_comm]

/-- What is left of a frame that was not written whole: too short for a length, or shorter than the
length says. -/
def Torn (t : List UInt8) : Prop := t.length < 4 ∨ t.length - 4 < ofBe (t.take 4)

theorem torn_nil : Torn [] := Or.inl (by simp)

theorem Torn.take {t} (h : Torn t) (k) : Torn (t.take k) := by
  unfold Torn at *
  rw [length_take, take_take]
  rcases Nat.lt_or_ge k 4 with hk | hk
  · exact Or.inl (by omega)
  · rw [Nat.min_eq_left hk]
    rcases h with h | h
    · exact Or.inl (by omega)
    · exact Or.inr (by omega)

theorem torn_take_frame {p} (hp : p.length < 2 ^ 32) {k} (hk : k < (frame p).length) :
    Torn ((frame p).take k) := by
  have hlen := length_frame p
  unfold Torn
  rw [length_take, take_take]
  rcases Nat.lt_or_ge k 4 with hk4 | hk4
  · exact Or.inl (by omega)
  · have hlead : (frame p).take 4 = be32 p.length := by
      rw [frame, take_append_of_le_length (Nat.le_of_eq (length_be32 _).symm)]
      rfl
    rw [Nat.min_eq_left hk4, hlead, ofBe_be32 hp]
    exact Or.inr (by omega)

/-- **A string of frames that is cut anywhere** is the longest string of whole frames that fits, and
a torn rest. -/
theorem take_frames {t} (ht : Torn t) : ∀ (ps : List (List UInt8)) (k : ℕ),
    (∀ p ∈ ps, p.length < 2 ^ 32) → ∃ m t', m ≤ ps.length ∧ Torn t' ∧
      (ps.flatMap frame ++ t).take k = (ps.take m).flatMap frame ++ t' ∧
      ((ps.take m).flatMap frame).length ≤ k ∧
      (m < ps.length → k < ((ps.take (m + 1)).flatMap frame).length)
  | [], k, _ => ⟨0, t.take k, Nat.le_refl 0, ht.take k, by simp, by simp, by simp⟩
  | p :: ps, k, hps => by
    rcases Nat.lt_or_ge k (frame p).length with hk | hk
    · refine ⟨0, (frame p).take k, Nat.zero_le _,
        torn_take_frame (hps p mem_cons_self) hk, ?_, by simp, fun _ => by simpa using hk⟩
      rw [flatMap_cons, append_assoc, take_append_of_le_length (Nat.le_of_lt hk)]
      rfl
    · obtain ⟨m, t', hm, ht', htake, hle, hlt⟩ := take_frames ht ps (k - (frame p).length)
        fun q hq => hps q (mem_cons_of_mem _ hq)
      refine ⟨m + 1, t', Nat.succ_le_succ hm, ht', ?_, ?_, fun hm' => ?_⟩
      · rw [flatMap_cons, append_assoc, take_append, take_of_length_le hk, htake,
          take_succ_cons, flatMap_cons, append_assoc]
      · rw [take_succ_cons, flatMap_cons, length_append]
        omega
      · have := hlt (Nat.lt_of_succ_lt_succ hm')
        rw [take_succ_cons, flatMap_cons, length_append]
        omega

end MeshTalk.Lib
