import MeshTalk.Lib.Table
import Mathlib.Data.List.MinMax
import Mathlib.Order.Bounds.Basic

/-! # A table of the latest entries

Entries with a key and a rank. A table takes an entry over if it holds none of its key or one of a
lower rank, so it keeps the first it saw among those of the greatest rank. -/

namespace MeshTalk.Lib.Table

variable {κ ν ρ β : Type*} [DecidableEq κ]

instance [DecidableEq ν] : DecidableEq (Table κ ν) := fun t t' =>
  decidable_of_iff (t.rows = t'.rows) ⟨Table.ext, congrArg _⟩

section

variable [LinearOrder ρ] (key : ν → κ) (rank : ν → ρ)

/-- For each key an entry of the greatest rank. -/
structure Latest (t : Table κ ν) (R : ν → Prop) : Prop where
  mem : ∀ k v, t.get k = some v → R v ∧ key v = k
  le : ∀ v, R v → ∃ w, t.get (key v) = some w ∧ rank v ≤ rank w

variable {key rank} {t t' : Table κ ν} {R R' : ν → Prop}

theorem latest_empty : Latest key rank (∅ : Table κ ν) fun _ => False :=
  ⟨nofun, fun _ h => h.elim⟩

section

variable (h : Latest key rank t R)
include h

theorem Latest.congr (hR : ∀ v, R v ↔ R' v) : Latest key rank t R' :=
  ⟨fun k v hv => ⟨(hR v).mp (h.mem k v hv).1, (h.mem k v hv).2⟩, fun v hv => h.le v ((hR v).mpr hv)⟩

/-- An entry that is not taken over is not higher than one that is there. -/
theorem Latest.of_le {v w} (hw : t.get (key v) = some w)
    (hle : rank v ≤ rank w) : Latest key rank t fun x => R x ∨ x = v := by
  refine ⟨fun k x hx => ⟨.inl (h.mem k x hx).1, (h.mem k x hx).2⟩, fun x hx => ?_⟩
  rcases hx with hx | rfl
  · exact h.le x hx
  · exact ⟨w, hw, hle⟩

/-- An entry that is taken over is higher than the one that was there. -/
theorem Latest.set {v} (hlt : ∀ w, t.get (key v) = some w → rank w < rank v) :
    Latest key rank (t.set (key v) v) fun x => R x ∨ x = v := by
  refine ⟨fun k x hx => ?_, fun x hx => ?_⟩
  · rw [get_set] at hx
    split at hx
    · next hk =>
      cases hx
      exact ⟨.inr rfl, hk.symm⟩
    · exact ⟨.inl (h.mem k x hx).1, (h.mem k x hx).2⟩
  · rw [get_set]
    split
    · next hk =>
      refine ⟨v, rfl, ?_⟩
      rcases hx with hx | rfl
      · obtain ⟨w, hw, hle⟩ := h.le x hx
        rw [hk] at hw
        exact hle.trans (hlt w hw).le
      · exact le_rfl
    · next hk =>
      rcases hx with hx | rfl
      · exact h.le x hx
      · exact absurd rfl hk

theorem Latest.rank_eq (h' : Latest key rank t' R) (k : κ) :
    (t.get k).map rank = (t'.get k).map rank := by
  cases hv : t.get k with
  | none =>
    cases hw : t'.get k with
    | none => rfl
    | some w =>
      obtain ⟨hR, rfl⟩ := h'.mem k w hw
      obtain ⟨x, hx, -⟩ := h.le w hR
      rw [hv] at hx
      cases hx
  | some v =>
    obtain ⟨hR, rfl⟩ := h.mem k v hv
    obtain ⟨w, hw, hle⟩ := h'.le v hR
    obtain ⟨hRw, hk⟩ := h'.mem _ w hw
    obtain ⟨x, hx, hle'⟩ := h.le w hRw
    rw [hk, hv] at hx
    cases hx
    rw [hw]
    exact congrArg some (le_antisymm hle hle')

theorem Latest.map_eq (h' : Latest key rank t' R) {f : ν → β}
    (hf : ∀ v w, R v → R w → key v = key w → rank v = rank w → f v = f w) (k : κ) :
    (t.get k).map f = (t'.get k).map f := by
  have hr := h.rank_eq h' k
  cases hv : t.get k with
  | none =>
    rw [hv, Option.map_none, eq_comm, Option.map_eq_none_iff] at hr
    rw [hr]
  | some v =>
    rw [hv, Option.map_some, eq_comm, Option.map_eq_some_iff] at hr
    obtain ⟨w, hw, hrank⟩ := hr
    obtain ⟨hRv, hkv⟩ := h.mem k v hv
    obtain ⟨hRw, hkw⟩ := h'.mem k w hw
    rw [hw]
    exact congrArg some (hf v w hRv hRw (hkv.trans hkw.symm) hrank.symm)

end

end

/-- Tables with the same lookups are listed alike in the order of their keys. -/
theorem byKey_map_eq [LinearOrder κ] {t t' : Table κ ν} {f : ν → β}
    (h : ∀ k, (t.get k).map f = (t'.get k).map f) :
    t.byKey.map (fun r => (r.1, f r.2)) = t'.byKey.map fun r => (r.1, f r.2) := by
  have hmem {t t' : Table κ ν} (h : ∀ k, (t.get k).map f = (t'.get k).map f) (r : κ × β)
      (hr : r ∈ t.byKey.map fun r => (r.1, f r.2)) : r ∈ t'.byKey.map fun r => (r.1, f r.2) := by
    obtain ⟨⟨k, v⟩, hkv, rfl⟩ := List.mem_map.mp hr
    have hk := h k
    rw [mem_byKey.mp hkv, Option.map_some, eq_comm, Option.map_eq_some_iff] at hk
    obtain ⟨w, hw, hf⟩ := hk
    exact List.mem_map.mpr ⟨(k, w), mem_byKey.mpr hw, by rw [← hf]⟩
  have hsorted (t : Table κ ν) : (t.byKey.map fun r => (r.1, f r.2)).Pairwise fun a b =>
    a.1 ≤ b.1 := by
    rw [List.pairwise_map]
    exact List.pairwise_insertionSort (fun a b : κ × ν => a.1 ≤ b.1) t.rows
  have hnodup (t : Table κ ν) : ((t.byKey.map fun r => (r.1, f r.2)).map Prod.fst).Nodup := by
    rw [List.map_map]
    exact t.nodup_byKey
  have hperm : (t.byKey.map fun r => (r.1, f r.2)).Perm (t'.byKey.map fun r => (r.1, f r.2)) :=
    (List.perm_ext_iff_of_nodup (hnodup t).of_map (hnodup t').of_map).mpr
      fun r => ⟨hmem h r, hmem (fun k => (h k).symm) r⟩
  refine hperm.eq_of_pairwise (fun a b ha hb hab hba => ?_) (hsorted t) (hsorted t')
  exact List.inj_on_of_nodup_map (hnodup t') (hperm.mem_iff.mp ha) hb (le_antisymm hab hba)

end MeshTalk.Lib.Table

namespace MeshTalk.Lib

variable {σ γ ρ : Type*} [LinearOrder ρ] {f : σ → γ → σ} {rank : σ → ρ}
  {val : γ → Option ρ} {P : σ → Prop}

theorem rank_foldl : ∀ {cs : List γ} {s}, P s →
    (∀ s, P s → ∀ c ∈ cs, P (f s c) ∧ rank (f s c) = (val c).elim (rank s) (max (rank s))) →
    (rank (cs.foldl f s) : WithBot ρ) = (rank s :: cs.filterMap val).maximum
  | [], _, _, _ => rfl
  | c :: cs, s, hs, h => by
    obtain ⟨hs', hrank⟩ := h s hs c List.mem_cons_self
    rw [List.foldl_cons, rank_foldl hs' fun s hs c hc =>
      h s hs c (List.mem_cons_of_mem _ hc), hrank]
    cases hv : val c with
    | none => rw [List.filterMap_cons_none hv, Option.elim_none]
    | some r =>
      rw [List.filterMap_cons_some hv, Option.elim_some, List.maximum_cons, List.maximum_cons,
        List.maximum_cons, WithBot.coe_max, max_assoc]

/-- **A register ends with the greatest rank.** `val` is the rank of an input that concerns it. -/
theorem isGreatest_foldl (rank : σ → ρ) {cs : List γ} {s} (hs : P s)
    (h : ∀ s, P s → ∀ c ∈ cs, P (f s c) ∧ rank (f s c) = (val c).elim (rank s) (max (rank s))) :
    IsGreatest {r | r ∈ rank s :: cs.filterMap val} (rank (cs.foldl f s)) := by
  obtain ⟨hmem, hle⟩ := List.maximum_eq_coe_iff.mp (rank_foldl hs h).symm
  exact ⟨hmem, hle⟩

end MeshTalk.Lib
