import Mathlib.Data.Set.Card

/-! # Canonical topological order

Kahn's algorithm with a key on the vertices: always emit the ready vertex of least key. `Emitted V E
key l` says that the list `l` was emitted this way from the graph with vertices `V` and edges `E`,
whatever program emitted it. -/

namespace MeshTalk.Lib

open List

variable {α κ : Type*} [LinearOrder κ]

/-- `v` is not emitted and all its predecessors are. -/
def Ready (V : Set α) (E : α → α → Prop) (done : List α) (v : α) : Prop :=
  v ∈ V ∧ v ∉ done ∧ ∀ p ∈ V, E p v → p ∈ done

/-- The lists that always emit the ready vertex of least key. -/
inductive Emitted (V : Set α) (E : α → α → Prop) (key : α → κ) : List α → Prop
  | nil : Emitted V E key []
  | snoc {l : List α} {v : α} : Emitted V E key l → Ready V E l v →
      (∀ w, Ready V E l w → key v ≤ key w) → Emitted V E key (l ++ [v])

/-- No vertex is left that could be emitted. -/
def Final (V : Set α) (E : α → α → Prop) (l : List α) : Prop := ∀ v, ¬ Ready V E l v

namespace Emitted

variable {V : Set α} {E : α → α → Prop} {key : α → κ} {l l' : List α} {v : α}

theorem mem (h : Emitted V E key l) (hv : v ∈ l) : v ∈ V := by
  induction h with
  | nil => simp at hv
  | snoc _ hr _ ih =>
    rcases mem_append.mp hv with hv | hv
    · exact ih hv
    · rw [mem_singleton.mp hv]
      exact hr.1

theorem nodup (h : Emitted V E key l) : l.Nodup := by
  induction h with
  | nil => exact nodup_nil
  | snoc _ hr _ ih =>
    refine nodup_append.mpr ⟨ih, nodup_singleton _, fun a ha b hb => ?_⟩
    rw [mem_singleton.mp hb]
    rintro rfl
    exact hr.2.1 ha

variable {l₁ l₂ : List α}

section

variable (h : Emitted V E key l)
include h

section

variable (hl : l = l₁ ++ v :: l₂)
include hl

/-- A vertex was emitted when it was ready and of least key. -/
theorem ready_at :
    Ready V E l₁ v ∧ ∀ w, Ready V E l₁ w → key v ≤ key w := by
  induction h generalizing l₂ with
  | nil => simp at hl
  | @snoc l x _ hr hm ih =>
    rcases eq_nil_or_concat l₂ with rfl | ⟨l₃, y, rfl⟩
    · obtain ⟨rfl, hx⟩ := append_inj' hl rfl
      obtain rfl := singleton_inj.mp hx
      exact ⟨hr, hm⟩
    · have hl' : l ++ [x] = (l₁ ++ v :: l₃) ++ [y] := by simpa using hl
      exact ih (append_inj' hl' rfl).1

/-- **Predecessors come first.** -/
theorem pred_mem {p} (hp : p ∈ V) (he : E p v) : p ∈ l₁ :=
  (h.ready_at hl).1.2.2 p hp he

/-- A vertex without predecessors comes before those of greater key. -/
theorem root_mem {w} (hw : w ∈ V)
    (hroot : ∀ p ∈ V, ¬ E p w) (hlt : key w < key v) : w ∈ l₁ := by
  by_contra hwl
  have hready : Ready V E l₁ w := ⟨hw, hwl, fun p hp he => absurd he (hroot p hp)⟩
  exact absurd hlt (not_lt.mpr ((h.ready_at hl).2 w hready))

end

theorem pred_mem_of_mem {p} (hv : v ∈ l) (hp : p ∈ V) (he : E p v) : p ∈ l := by
  obtain ⟨l₁, l₂, rfl⟩ := append_of_mem hv
  exact mem_append_left _ (h.pred_mem rfl hp he)

end

/-! ### Completeness -/

/-- **Without cycles every vertex is emitted.** The rank is any function that rises along edges. -/
theorem covers {rank : α → ℕ} (hrank : ∀ p ∈ V, ∀ v ∈ V, E p v → rank p < rank v) (hf : Final V E l)
    (hv : v ∈ V) : v ∈ l := by
  induction hn : rank v using Nat.strong_induction_on generalizing v with
  | _ n ih =>
    by_contra hvl
    refine hf v ⟨hv, hvl, fun p hp he => ?_⟩
    exact ih (rank p) (hn ▸ hrank p hp v hv he) hp rfl

/-- Without cycles there is such a function: the number of vertices a path comes from. -/
theorem exists_rank (hV : V.Finite) (hE : ∀ v, ¬ Relation.TransGen E v v) :
    ∃ rank : α → ℕ, ∀ p ∈ V, ∀ v ∈ V, E p v → rank p < rank v := by
  refine ⟨fun v => {p ∈ V | Relation.TransGen E p v}.ncard, fun p hp v _ hpv => ?_⟩
  refine Set.ncard_lt_ncard ⟨fun q hq => ⟨hq.1, hq.2.tail hpv⟩, fun h => ?_⟩
    (hV.subset (Set.sep_subset _ _))
  exact hE p (h ⟨hp, .single hpv⟩).2

/-! ### Uniqueness -/

/-- Two emissions that agree so far go on alike: both emit the least ready vertex. -/
theorem eq_of_length (hkey : Function.Injective key) (h : Emitted V E key l)
    (h' : Emitted V E key l') : ∀ l₁ {m m' : List α}, l = l₁ ++ m → l' = l₁ ++ m' →
      m.length = m'.length → m = m'
  | _, [], [], _, _, _ => rfl
  | l₁, v :: m, w :: m', hl, hl', hlen => by
    obtain ⟨hv, hmin⟩ := h.ready_at hl
    obtain ⟨hw, hmin'⟩ := h'.ready_at hl'
    obtain rfl := hkey (le_antisymm (hmin w hw) (hmin' v hv))
    have hrest : m = m' := eq_of_length hkey h h' (l₁ ++ [v]) (by simpa using hl)
      (by simpa using hl') (by simpa using hlen)
    rw [hrest]

end Emitted

/-! ### Counting the predecessors that are left -/

section Pending

variable [DecidableEq α] (V : Set α) [DecidablePred (· ∈ V)] (preds : α → List α)

def pending (done : List α) (v : α) : ℕ := (preds v).countP fun p => p ∈ V ∧ p ∉ done

variable {V preds} {done : List α} {v x : α}

theorem pending_eq_zero : pending V preds done v = 0 ↔ ∀ p ∈ V, p ∈ preds v → p ∈ done := by
  simp only [pending, countP_eq_zero, decide_eq_true_eq, not_and, not_not]
  exact ⟨fun h p hp hv => h p hv hp, fun h p hv hp => h p hp hv⟩

theorem ready_iff_pending : Ready V (fun p v => p ∈ preds v) done v ↔
    v ∈ V ∧ v ∉ done ∧ pending V preds done v = 0 := by
  rw [pending_eq_zero]
  rfl

theorem pending_snoc (hx : x ∈ V) (hd : x ∉ done) : pending V preds done v =
    pending V preds (done ++ [x]) v + (preds v).count x := by
  unfold pending
  generalize preds v = ps
  induction ps with
  | nil => rfl
  | cons p ps ih =>
    rw [countP_cons, countP_cons, count_cons, ih]
    by_cases hpx : p = x
    · subst hpx
      simp [hx, hd, add_assoc]
    · simp [hpx, add_right_comm]

end Pending

end MeshTalk.Lib
