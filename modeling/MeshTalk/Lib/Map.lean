import Mathlib.Data.Finmap
import MeshTalk.Lib.OrdSet

/-! # Hash maps as finite maps

`Map κ ν` is Mathlib's `Finmap` at a constant value type. It has no order of its own: maps with the
same lookups are equal, so a result about a map cannot depend on an iteration order. -/

namespace MeshTalk.Lib

open Finmap

abbrev Map (κ ν : Type*) := Finmap fun _ : κ => ν

namespace Map

variable {κ ν : Type*} [DecidableEq κ]

theorem lookup_insert_ite (m : Map κ ν) (k k' v) :
    (m.insert k v).lookup k' = if k' = k then some v else m.lookup k' := by
  split_ifs with h
  · subst h; exact lookup_insert m
  · exact lookup_insert_of_ne m h

variable {k : κ}

theorem mem_iff_lookup {m : Map κ ν} : k ∈ m ↔ ∃ v, m.lookup k = some v :=
  mem_iff

/-- Apply `f` to the entry at `k`, or to `d` where there is none. -/
def modify (m : Map κ ν) (k : κ) (d : ν) (f : ν → ν) : Map κ ν :=
  m.insert k (f ((m.lookup k).getD d))

theorem lookup_modify (m : Map κ ν) (k k' : κ) (d f) :
    (m.modify k d f).lookup k' =
      if k' = k then some (f ((m.lookup k).getD d)) else m.lookup k' :=
  lookup_insert_ite m k k' _

def mapValues {ν' : Type*} (f : ν → ν') (m : Map κ ν) : Map κ ν' where
  entries := m.entries.map (Sigma.map id fun _ => f)
  nodupKeys := by
    obtain ⟨l, hl⟩ := m
    induction l using Quotient.inductionOn with
    | h l => exact List.NodupKeys.map₂ (fun _ => f) l hl

theorem lookup_mapValues {ν' : Type*} (f : ν → ν') (m : Map κ ν) (k) :
    (m.mapValues f).lookup k = (m.lookup k).map f := by
  induction m using induction_on with
  | _ s => exact List.dlookup_map₂ (f := fun _ => f) k

/-! ### Maps of sets -/

variable {β : Type*} [LinearOrder β]

/-- The set at a key, empty where there is none. -/
def setAt (m : Map κ (OrdSet β)) (k : κ) : OrdSet β := (m.lookup k).getD ∅

/-- `m` groups the relation `R` by its first component, without empty groups. -/
structure IsIndex (m : Map κ (OrdSet β)) (R : κ → β → Prop) : Prop where
  mem : ∀ k b, b ∈ m.setAt k ↔ R k b
  nonempty : ∀ k s, m.lookup k = some s → ∃ b, b ∈ s

variable {m : Map κ (OrdSet β)} {R : κ → β → Prop}

theorem IsIndex.lookup_eq_none (h : m.IsIndex R) (hk : ∀ b, ¬ R k b) : m.lookup k = none := by
  cases hs : m.lookup k with
  | none => rfl
  | some s =>
    obtain ⟨b, hb⟩ := h.nonempty k s hs
    exact absurd ((h.mem k b).mp (by rw [setAt, hs]; exact hb)) (hk b)

theorem IsIndex.lookup_eq_some (h : m.IsIndex R) {b} (hb : R k b) :
    m.lookup k = some (m.setAt k) := by
  have hmem := (h.mem k b).mpr hb
  cases hs : m.lookup k with
  | none =>
    rw [setAt, hs] at hmem
    exact absurd hmem (OrdSet.notMem_empty b)
  | some s =>
    rw [setAt, hs]
    rfl

variable {m' : Map κ (OrdSet β)} {R' : κ → β → Prop}

theorem IsIndex.lookup_congr (h : m.IsIndex R) (h' : m'.IsIndex R') (hR : ∀ b, R k b ↔ R' k b) :
    m.lookup k = m'.lookup k := by
  by_cases hk : ∃ b, R k b
  · obtain ⟨b, hb⟩ := hk
    have key : m.setAt k = m'.setAt k := by
      ext x
      rw [h.mem, h'.mem, hR]
    rw [h.lookup_eq_some hb, h'.lookup_eq_some ((hR b).mp hb), key]
  · push Not at hk
    rw [h.lookup_eq_none hk, h'.lookup_eq_none fun b hb => hk b ((hR b).mpr hb)]

theorem IsIndex.unique (h : m.IsIndex R) (h' : m'.IsIndex R) : m = m' :=
  ext_lookup fun _ => h.lookup_congr h' fun _ => Iff.rfl

theorem IsIndex.congr (h : m.IsIndex R) (hR : ∀ k b, R k b ↔ R' k b) : m.IsIndex R' :=
  ⟨fun k b => (h.mem k b).trans (hR k b), h.nonempty⟩

theorem IsIndex.empty : (∅ : Map κ (OrdSet β)).IsIndex fun _ _ => False := by
  refine ⟨fun k b => ?_, fun k s h => ?_⟩
  · simp [setAt]
  · simp at h

theorem IsIndex.modify {m : Map κ (OrdSet β)} {R : κ → β → Prop} (h : m.IsIndex R) (k f)
    (hne : ∃ b, b ∈ f (m.setAt k)) :
    (m.modify k ∅ f).IsIndex fun k' b => if k' = k then b ∈ f (m.setAt k) else R k' b := by
  refine ⟨fun k' b => ?_, fun k' s hs => ?_⟩
  · rw [setAt, lookup_modify]
    split_ifs with hk
    · rfl
    · exact h.mem k' b
  · rw [lookup_modify] at hs
    split_ifs at hs with hk
    · cases hs
      exact hne
    · exact h.nonempty k' s hs

theorem IsIndex.insert {m : Map κ (OrdSet β)} {R : κ → β → Prop} (h : m.IsIndex R) (k b) :
    (m.modify k ∅ fun s => s.insert b).IsIndex
      fun k' b' => R k' b' ∨ k' = k ∧ b' = b := by
  refine (h.modify k _ ⟨b, OrdSet.mem_insert.mpr (Or.inl rfl)⟩).congr fun k' b' => ?_
  split_ifs with hk
  · subst hk
    rw [OrdSet.mem_insert, h.mem]
    tauto
  · tauto

end Map

/-! ### Maps of maxima -/

def raise (n slot : ℕ) : ℕ := if n > slot then n else slot

theorem raise_eq_max (n slot) : raise n slot = max slot n := by
  unfold raise
  split_ifs with h <;> omega

theorem isGreatest_raise {S slot} (h : ∀ m, slot = some m ↔ IsGreatest S m)
    (hS : slot = none → S = ∅) (n) : IsGreatest (S ∪ {n}) (raise n (slot.getD 0)) := by
  rw [raise_eq_max]
  cases slot with
  | none => simp [hS rfl]
  | some m =>
    have hm := (h m).mp rfl
    exact hm.union (isGreatest_singleton (a := n))

namespace Map

variable {κ : Type*} [DecidableEq κ]

/-- `m` holds at each key the maximum of the numbers `R` relates to it. -/
structure IsMax (m : Map κ ℕ) (R : κ → ℕ → Prop) : Prop where
  greatest : ∀ k n, m.lookup k = some n → IsGreatest {x | R k x} n
  none : ∀ k, m.lookup k = Option.none → ∀ x, ¬ R k x

variable {R : κ → ℕ → Prop}

theorem IsMax.lookup_eq_some {m : Map κ ℕ} (h : m.IsMax R) {k n} :
    m.lookup k = some n ↔ IsGreatest {x | R k x} n := by
  refine ⟨h.greatest k n, fun hn => ?_⟩
  cases hk : m.lookup k with
  | none => exact absurd hn.1 (h.none k hk n)
  | some n' => rw [(h.greatest k n' hk).unique hn]

theorem IsMax.unique {m m' : Map κ ℕ} (h : m.IsMax R) (h' : m'.IsMax R) : m = m' := by
  refine ext_lookup fun k => Option.ext fun n => ?_
  rw [h.lookup_eq_some, h'.lookup_eq_some]

theorem IsMax.congr {m : Map κ ℕ} {R' : κ → ℕ → Prop} (h : m.IsMax R) (hR : ∀ k n, R k n ↔ R' k n) :
    m.IsMax R' := by
  have : R = R' := by
    funext k n
    exact propext (hR k n)
  rwa [← this]

theorem IsMax.empty : (∅ : Map κ ℕ).IsMax fun _ _ => False :=
  ⟨fun k n h => by simp at h, fun _ _ _ h => h⟩

theorem IsMax.raise {m : Map κ ℕ} {R : κ → ℕ → Prop} (h : m.IsMax R) (k n) :
    (m.modify k 0 (Lib.raise n)).IsMax fun k' x => R k' x ∨ k' = k ∧ x = n := by
  have hset : {x | R k x ∨ k = k ∧ x = n} = {x | R k x} ∪ {n} := by
    ext x
    simp [or_comm]
  refine ⟨fun k' n' hl => ?_, fun k' hl => ?_⟩ <;> rw [lookup_modify] at hl
  · split_ifs at hl with hk
    · subst hk
      cases hl
      rw [hset]
      refine isGreatest_raise (fun m => h.lookup_eq_some) (fun hn => ?_) n
      exact Set.eq_empty_iff_forall_notMem.mpr (h.none k' hn)
    · have : {x | R k' x ∨ k' = k ∧ x = n} = {x | R k' x} := by
        ext x
        simp [hk]
      rw [this]
      exact h.greatest k' n' hl
  · split_ifs at hl with hk
    rintro x (hx | ⟨hk', -⟩)
    · exact h.none k' hl x hx
    · exact hk hk'

variable {ι : Type*} [DecidableEq ι]

/-- Maxima on two levels, without empty inner maps. -/
structure IsMax₂ (m : Map κ (Map ι ℕ)) (R : κ → ι → ℕ → Prop) : Prop where
  inner : ∀ k, IsMax ((m.lookup k).getD ∅) (R k)
  nonempty : ∀ k v, m.lookup k = some v → ∃ i n, R k i n

variable {m : Map κ (Map ι ℕ)}

theorem IsMax₂.lookup_eq_none {R : κ → ι → ℕ → Prop} (h : m.IsMax₂ R) {k} :
    m.lookup k = Option.none ↔ ∀ i n, ¬ R k i n := by
  refine ⟨fun hk i n hR => ?_, fun hR => ?_⟩
  · have hin := (h.inner k).none i
    rw [hk] at hin
    exact hin (lookup_empty i) n hR
  · cases hk : m.lookup k with
    | none => rfl
    | some v =>
      obtain ⟨i, n, hin⟩ := h.nonempty k v hk
      exact absurd hin (hR i n)

theorem IsMax₂.unique {m m' : Map κ (Map ι ℕ)} {R : κ → ι → ℕ → Prop} (h : m.IsMax₂ R)
    (h' : m'.IsMax₂ R) : m = m' := by
  refine ext_lookup fun k => ?_
  have hu := (h.inner k).unique (h'.inner k)
  cases hk : m.lookup k with
  | none => rw [h'.lookup_eq_none.mpr (h.lookup_eq_none.mp hk)]
  | some v =>
    cases hk' : m'.lookup k with
    | none =>
      rw [h.lookup_eq_none.mpr (h'.lookup_eq_none.mp hk')] at hk
      cases hk
    | some v' =>
      rw [hk, hk'] at hu
      exact congrArg some hu

theorem IsMax₂.congr {R R' : κ → ι → ℕ → Prop} (h : m.IsMax₂ R) (hR : ∀ k i n, R k i n ↔ R' k i n) :
    m.IsMax₂ R' := by
  have : R = R' := by
    funext k i n
    exact propext (hR k i n)
  rwa [← this]

theorem IsMax₂.empty : (∅ : Map κ (Map ι ℕ)).IsMax₂ fun _ _ _ => False :=
  ⟨fun k => by simpa using IsMax.empty, fun k v h => by simp at h⟩

theorem IsMax₂.raise {m : Map κ (Map ι ℕ)} {R : κ → ι → ℕ → Prop} (h : m.IsMax₂ R) (k i n) :
    (m.modify k ∅ fun v => v.modify i 0 (Lib.raise n)).IsMax₂
      fun k' i' x => R k' i' x ∨ k' = k ∧ i' = i ∧ x = n := by
  refine ⟨fun k' => ?_, fun k' v hv => ?_⟩
  · rw [lookup_modify]
    split_ifs with hk
    · subst hk
      exact ((h.inner k').raise i n).congr fun i' x => by simp
    · exact (h.inner k').congr fun i' x => by simp [hk]
  · rw [lookup_modify] at hv
    split_ifs at hv with hk
    · exact ⟨i, n, Or.inr ⟨hk, rfl, rfl⟩⟩
    · obtain ⟨i', n', hR⟩ := h.nonempty k' v hv
      exact ⟨i', n', Or.inl hR⟩

end Map

end MeshTalk.Lib
