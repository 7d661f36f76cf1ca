import Mathlib.Algebra.BigOperators.Group.Finset.Basic

/-! # Depth-first walks of a finite graph

A walk with a stack of vertices to visit and a set of visited ones, as code writes it over a hash
map of successors. It stops at a vertex that meets a condition, and otherwise ends with the vertices
it has visited. The rounds are bounded by the vertices on the stack and the edges of the vertices
that are not visited yet (`rounds`), so a bound on the edges is fuel enough. -/

namespace MeshTalk.Lib

open List Finset Relation

variable {α : Type*} [DecidableEq α] (succs : α → List α)

def Edge (v w : α) : Prop := w ∈ succs v

/-- Visit what can be reached from the stack, the last successor of a vertex first. -/
def walk (stop : α → Bool) : ℕ → List α → Finset α → Option (Finset α)
  | 0, _, _ => none
  | _ + 1, [], seen => some seen
  | n + 1, v :: stack, seen =>
    if stop v then none
    else if v ∈ seen then walk stop n stack seen
    else walk stop n ((succs v).reverse ++ stack) (insert v seen)

/-- The vertices on the stack, and the edges from vertices that are not visited. -/
def rounds (V : Finset α) (stack : List α) (seen : Finset α) : ℕ :=
  stack.length + ∑ v ∈ V \ seen, (succs v).length

variable {succs} {V : Finset α} {v : α} {stack : List α} {seen S : Finset α}

theorem rounds_pop (V v stack seen) :
    rounds succs V stack seen + 1 = rounds succs V (v :: stack) seen := by
  unfold rounds
  rw [length_cons]
  omega

theorem rounds_push (hV : ∀ v ∉ V, succs v = []) (hv : v ∉ seen) (stack) :
    rounds succs V ((succs v).reverse ++ stack) (insert v seen) + 1 =
      rounds succs V (v :: stack) seen := by
  unfold rounds
  rw [length_append, length_reverse, length_cons]
  by_cases hvV : v ∈ V
  · have hmem : v ∈ V \ seen := mem_sdiff.mpr ⟨hvV, hv⟩
    have hsplit : ∑ w ∈ V \ seen, (succs w).length =
        (succs v).length + ∑ w ∈ V \ insert v seen, (succs w).length := by
      rw [← add_sum_erase _ _ hmem, sdiff_insert]
    omega
  · have hsame : V \ insert v seen = V \ seen := by
      rw [sdiff_insert, erase_eq_of_notMem]
      exact fun h => hvV (mem_sdiff.mp h).1
    rw [hsame, hV v hvV, length_nil]
    omega

/-- The visited vertices have all their successors visited or on the stack. -/
def Frontier (succs : α → List α) (stack : List α) (seen : Finset α) : Prop :=
  ∀ v ∈ seen, ∀ w ∈ succs v, w ∈ seen ∨ w ∈ stack

omit [DecidableEq α] in
theorem Frontier.pop (h : Frontier succs (v :: stack) seen) (hv : v ∈ seen) :
    Frontier succs stack seen := by
  intro u hu w hw
  rcases h u hu w hw with hw | hw
  · exact .inl hw
  · rcases mem_cons.mp hw with rfl | hw
    · exact .inl hv
    · exact .inr hw

theorem Frontier.push (h : Frontier succs (v :: stack) seen) :
    Frontier succs ((succs v).reverse ++ stack) (insert v seen) := by
  intro u hu w hw
  rcases mem_insert.mp hu with rfl | hu
  · exact .inr (mem_append_left _ (mem_reverse.mpr hw))
  · rcases h u hu w hw with hw | hw
    · exact .inl (mem_insert_of_mem hw)
    · rcases mem_cons.mp hw with rfl | hw
      · exact .inl (mem_insert_self _ _)
      · exact .inr (mem_append_right _ hw)

omit [DecidableEq α] in
theorem mem_of_reach (hS : ∀ v ∈ S, ∀ w ∈ succs v, w ∈ S) {v w} (hv : v ∈ S)
    (h : ReflTransGen (Edge succs) v w) : w ∈ S := by
  induction h with
  | refl => exact hv
  | tail _ he ih => exact hS _ ih _ he

section Walk

variable {stop : α → Bool}

/-- What a walk that ends has visited is closed, holds the stack, and nothing to stop at. -/
theorem closed_of_walk : ∀ {n stack seen},
    walk succs stop n stack seen = some S → Frontier succs stack seen →
      (∀ v ∈ seen, stop v = false) →
        seen ⊆ S ∧ (∀ v ∈ stack, v ∈ S) ∧ (∀ v ∈ S, stop v = false) ∧ ∀ v ∈ S, ∀ w ∈ succs v, w ∈ S
  | 0, _, _, h, _, _ => by cases h
  | n + 1, [], seen, h, hf, hs => by
    cases h
    exact ⟨subset_rfl, by simp, hs, fun v hv w hw => by simpa using hf v hv w hw⟩
  | n + 1, v :: stack, seen, h, hf, hs => by
    unfold walk at h
    split_ifs at h with hv hseen
    · obtain ⟨hsub, hstack, hrest⟩ := closed_of_walk h (hf.pop hseen) hs
      exact ⟨hsub, List.forall_mem_cons.mpr ⟨hsub hseen, hstack⟩, hrest⟩
    · have hs' : ∀ u ∈ insert v seen, stop u = false :=
        fun u hu => (Finset.mem_insert.mp hu).elim (fun h => by simpa [h] using hv) (hs u)
      obtain ⟨hsub, hstack, hrest⟩ := closed_of_walk h hf.push hs'
      exact ⟨(Finset.subset_insert _ _).trans hsub,
        List.forall_mem_cons.mpr ⟨hsub (Finset.mem_insert_self _ _),
          fun u hu => hstack u (List.mem_append_right _ hu)⟩, hrest⟩

theorem reach_of_walk : ∀ {n stack seen},
    walk succs stop n stack seen = some S → ∀ w ∈ S,
      w ∈ seen ∨ ∃ v ∈ stack, ReflTransGen (Edge succs) v w
  | 0, _, _, h, _, _ => by cases h
  | n + 1, [], seen, h, w, hw => by
    cases h
    exact .inl hw
  | n + 1, v :: stack, seen, h, w, hw => by
    unfold walk at h
    split_ifs at h with hv hseen
    · rcases reach_of_walk h w hw with hw | ⟨u, hu, hr⟩
      · exact .inl hw
      · exact .inr ⟨u, mem_cons_of_mem _ hu, hr⟩
    · rcases reach_of_walk h w hw with hw | ⟨u, hu, hr⟩
      · rcases mem_insert.mp hw with rfl | hw
        · exact .inr ⟨w, mem_cons_self, .refl⟩
        · exact .inl hw
      · rcases mem_append.mp hu with hu | hu
        · exact .inr ⟨v, mem_cons_self, .head (mem_reverse.mp hu) hr⟩
        · exact .inr ⟨u, mem_cons_of_mem _ hu, hr⟩

/-- With fuel for its rounds, a walk that has no result has met a vertex to stop at. -/
theorem stop_of_walk (hV : ∀ v ∉ V, succs v = []) : ∀ {n stack seen},
    rounds succs V stack seen < n → walk succs stop n stack seen = none →
      ∃ v ∈ stack, ∃ w, ReflTransGen (Edge succs) v w ∧ stop w = true
  | 0, _, _, hn, _ => absurd hn (Nat.not_lt_zero _)
  | n + 1, [], seen, _, h => by cases h
  | n + 1, v :: stack, seen, hn, h => by
    unfold walk at h
    split_ifs at h with hv hseen
    · exact ⟨v, mem_cons_self, v, .refl, hv⟩
    · have hn' : rounds succs V stack seen < n := by
        have : rounds succs V stack seen + 1 = _ := rounds_pop V v stack seen
        omega
      obtain ⟨u, hu, hr⟩ := stop_of_walk hV hn' h
      exact ⟨u, mem_cons_of_mem _ hu, hr⟩
    · have hn' : rounds succs V ((succs v).reverse ++ stack) (insert v seen) < n := by
        have := rounds_push hV hseen stack
        omega
      obtain ⟨u, hu, w, hr, hw⟩ := stop_of_walk hV hn' h
      rcases mem_append.mp hu with hu | hu
      · exact ⟨v, mem_cons_self, w, .head (mem_reverse.mp hu) hr, hw⟩
      · exact ⟨u, mem_cons_of_mem _ hu, w, hr, hw⟩

/-- **A walk that ends** has visited exactly what can be reached from the stack. -/
theorem mem_of_walk_eq_some {n} (h : walk succs stop n stack ∅ = some S) {w} :
    w ∈ S ↔ ∃ v ∈ stack, ReflTransGen (Edge succs) v w := by
  obtain ⟨-, hstack, -, hcl⟩ := closed_of_walk h (fun v hv => absurd hv (notMem_empty v))
    fun v hv => absurd hv (notMem_empty v)
  constructor
  · intro hw
    exact (reach_of_walk h w hw).resolve_left (notMem_empty w)
  · rintro ⟨v, hv, hr⟩
    exact mem_of_reach hcl (hstack v hv) hr

/-- **A walk stops** exactly if a vertex to stop at can be reached from the stack. -/
theorem walk_eq_none_iff (hV : ∀ v ∉ V, succs v = []) {n} (hn : rounds succs V stack ∅ < n) :
    walk succs stop n stack ∅ = none ↔
      ∃ v ∈ stack, ∃ w, ReflTransGen (Edge succs) v w ∧ stop w = true := by
  refine ⟨stop_of_walk hV hn, ?_⟩
  rintro ⟨v, hv, w, hr, hw⟩
  cases h : walk succs stop n stack ∅ with
  | none => rfl
  | some S =>
    obtain ⟨-, -, hstop, -⟩ := closed_of_walk h (fun v hv => absurd hv (notMem_empty v))
      fun v hv => absurd hv (notMem_empty v)
    have := hstop w ((mem_of_walk_eq_some h).mpr ⟨v, hv, hr⟩)
    rw [hw] at this
    cases this

end Walk

end MeshTalk.Lib
