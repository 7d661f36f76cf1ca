import MeshTalk.Event
import MeshTalk.Lib.OrdSet
import MeshTalk.Lib.Table

/-! # Selecting the mailboxes that differ

Two inventories of a federation session, this relay's and the other's, are merged by two cursors in
steps of bounded size (`postoffice/storage/federation/local.rs`). The merge starts after a pivot and
wraps around to it. -/

namespace MeshTalk.Postoffice

open Lib Table Finset

/-- Mailboxes with the digests of what they hold. -/
abbrev Inventory := Table ConversationId (BitVec 256)

/-- How far a merge is: not begun, after the pivot, up to the pivot, through. -/
inductive Phase
  | idle
  | after
  | upTo
  | done
  deriving DecidableEq

/-- The columns of a session: whether its lease is valid and both inventories are complete, and the
scan. -/
structure Scan where
  valid : Bool
  phase : Phase
  pivot : Option ConversationId
  localAfter : Option ConversationId
  remoteAfter : Option ConversationId

inductive MismatchError
  | staleCursor
  | invalidPageBudget

structure MismatchProgress where
  ids : List ConversationId
  examined : ℕ
  done : Bool

abbrev Above (after : Option ConversationId) (k : ConversationId) : Prop := ∀ a ∈ after, a < k

abbrev UpTo (upper : Option ConversationId) (k : ConversationId) : Prop := ∀ u ∈ upper, k ≤ u

/-- The first row behind a cursor and within a bound. -/
def peek (t : Inventory) (after upper : Option ConversationId) :
    Option (ConversationId × BitVec 256) :=
  t.first Prod.fst fun row => decide (Above after row.1 ∧ UpTo upper row.1)

def Scan.beginMismatch (s : Scan) (pivot : Option ConversationId) : Except MismatchError Scan :=
  if s.valid ∧ s.phase = .idle then
    .ok { s with phase := .after, pivot := pivot, localAfter := pivot, remoteAfter := pivot }
  else .error .staleCursor

def Scan.upper (s : Scan) : Option ConversationId := if s.phase = .upTo then s.pivot else none

def firstKey : Option (ConversationId × BitVec 256) → Option (ConversationId × BitVec 256) →
    Option ConversationId
  | some x, some y => some (min x.1 y.1)
  | some x, none => some x.1
  | none, some y => some y.1
  | none, none => none

def at_ (key : ConversationId) (row : Option (ConversationId × BitVec 256)) : Option (BitVec 256) :=
  (row.filter fun row => row.1 = key).map Prod.snd

def moved (key : ConversationId) (row : Option (BitVec 256)) (after : Option ConversationId) :
    Option ConversationId := if row.isSome then some key else after

def Scan.round (l r : Inventory) (s : Scan) : Scan × Option ConversationId :=
  match firstKey (peek l s.localAfter s.upper) (peek r s.remoteAfter s.upper) with
  | none =>
    if s.phase = .after ∧ s.pivot.isSome then
      ({ s with phase := .upTo, localAfter := none, remoteAfter := none }, none)
    else ({ s with phase := .done }, none)
  | some key =>
    let x := at_ key (peek l s.localAfter s.upper)
    let y := at_ key (peek r s.remoteAfter s.upper)
    ({ s with localAfter := moved key x s.localAfter, remoteAfter := moved key y s.remoteAfter },
      if x ≠ y then some key else none)

/-- Rounds of two probes each, as many as the budgets allow. -/
def Scan.rounds (l r : Inventory) (emitted : ℕ) : ℕ → Scan → MismatchProgress →
    Scan × MismatchProgress
  | 0, s, p => (s, p)
  | k + 1, s, p =>
    if s.phase ≠ .done ∧ p.ids.length < emitted then
      let t := s.round l r
      rounds l r emitted k t.1 { p with ids := p.ids ++ t.2.toList, examined := p.examined + 2 }
    else (s, p)

def Scan.mismatchStep (l r : Inventory) (s : Scan) (examined emitted : ℕ) :
    Except MismatchError (MismatchProgress × Scan) :=
  if ¬ ((2 ≤ examined ∧ examined ≤ 512) ∧ 1 ≤ emitted ∧ emitted ≤ 16) then .error .invalidPageBudget
  else if ¬ s.valid ∨ s.phase = .idle then .error .staleCursor
  else
    let t := s.rounds l r emitted (examined / 2) ⟨[], 0, false⟩
    .ok ({ t.2 with done := decide (t.1.phase = .done) }, t.1)

/-- Steps one after the other, with the mailboxes that they give. -/
def Scan.steps (l r : Inventory) : Scan → List (ℕ × ℕ) →
    Except MismatchError (List ConversationId × Scan)
  | s, [] => .ok ([], s)
  | s, b :: rest =>
    match s.mismatchStep l r b.1 b.2 with
    | .error e => .error e
    | .ok (p, s') => (steps l r s' rest).map fun t => (p.ids ++ t.1, t.2)

/-! ### What is left to look at -/

variable (l r : Inventory)

def Scan.frontier (s : Scan) : Option ConversationId :=
  match s.localAfter, s.remoteAfter with
  | some a, some b => some (max a b)
  | some a, none => some a
  | none, b => b

/-- The mailboxes behind the cursors and within the bound. -/
def Scan.pending (s : Scan) : Finset ConversationId :=
  (l.keySet ∪ r.keySet).filter fun k => Above s.frontier k ∧ UpTo s.upper k

/-- The mailboxes to look at, in their order. -/
def Scan.todo (s : Scan) : List ConversationId :=
  match s.phase with
  | .after => (s.pending l r).sort (· ≤ ·) ++
      ((l.keySet ∪ r.keySet).filter fun k => ¬ Above s.pivot k).sort (· ≤ ·)
  | .upTo => (s.pending l r).sort (· ≤ ·)
  | _ => []

def Scan.left (s : Scan) : ℕ :=
  (s.todo l r).length + match s.phase with
    | .after => 2
    | .upTo => 1
    | _ => 0

def Scan.differing (s : Scan) : List ConversationId := (s.todo l r).filter fun k =>
    l.get k ≠ r.get k

/-- A cursor may be behind another one by mailboxes that an inventory does not have. -/
def Behind (t : Inventory) (after front : Option ConversationId) : Prop :=
  ∀ k, t.has k → (Above after k ↔ Above front k)

def Scan.Sync (s : Scan) : Prop :=
  s.phase ≠ .idle ∧ Behind l s.localAfter s.frontier ∧ Behind r s.remoteAfter s.frontier

variable {l r} {t : Inventory} {s : Scan} {after front upper : Option ConversationId}
  {k : ConversationId}

theorem peek_eq_some {x} (h : peek t after upper = some x) :
    t.get x.1 = some x.2 ∧ Above after x.1 ∧ UpTo upper x.1 := by
  obtain ⟨hmem, hp, -⟩ := first_eq_some h
  exact ⟨get_eq_some.mpr hmem, of_decide_eq_true hp⟩

theorem exists_peek (hk : t.has k) (ha : Above after k) (hu : UpTo upper k) :
    ∃ x, peek t after upper = some x ∧ x.1 ≤ k := by
  obtain ⟨d, hd⟩ := has_eq_true.mp hk
  have hmem := get_eq_some.mp hd
  have hp := decide_eq_true (And.intro ha hu)
  cases h : peek t after upper with
  | none => exact absurd ((first_eq_none.mp h _ hmem).symm.trans hp) nofun
  | some x => exact ⟨x, rfl, (first_eq_some h).2.2 _ hmem hp⟩

/-- A side gives the digest that it has for the least key behind its cursor, and moves up to it. -/
theorem moved_spec (h : Behind t after front) (ha : Above front k) (hu : UpTo upper k)
    (hmin : ∀ x, peek t after upper = some x → k ≤ x.1) :
    at_ k (peek t after upper) = t.get k ∧
      Behind t (moved k (at_ k (peek t after upper)) after) (some k) := by
  have hrow : at_ k (peek t after upper) = t.get k := by
    cases hk : t.get k with
    | some d =>
      have hhas : t.has k := has_eq_true.mpr ⟨d, hk⟩
      obtain ⟨x, hx, hle⟩ := exists_peek hhas ((h k hhas).mpr ha) hu
      obtain ⟨hget, -, -⟩ := peek_eq_some hx
      have heq : x.1 = k := le_antisymm hle (hmin x hx)
      rw [heq, hk] at hget
      simp [hx, at_, Option.filter, heq, Option.some.inj hget]
    | none =>
      cases hx : peek t after upper with
      | none => rfl
      | some x =>
        obtain ⟨hget, -, -⟩ := peek_eq_some hx
        have hne : x.1 ≠ k := fun heq => by
          rw [heq, hk] at hget
          cases hget
        simp [at_, Option.filter, hne]
  refine ⟨hrow, fun j hj => ?_⟩
  rw [hrow, moved]
  split_ifs with hk
  · exact Iff.rfl
  · rw [h j hj]
    refine ⟨fun hf => ?_, fun hlt a haf => (ha a haf).trans (hlt k rfl)⟩
    rintro _ ⟨⟩
    by_cases huj : UpTo upper j
    · obtain ⟨x, hx, hle⟩ := exists_peek hj ((h j hj).mpr hf) huj
      refine lt_of_le_of_ne ((hmin x hx).trans hle) ?_
      rintro rfl
      exact hk hj
    · obtain ⟨u, huu, hlt⟩ : ∃ u ∈ upper, ¬ j ≤ u := by simpa using huj
      exact (hu u huu).trans_lt (not_le.mp hlt)

theorem mem_pending : k ∈ s.pending l r ↔ (l.has k ∨ r.has k) ∧ Above s.frontier k ∧
    UpTo s.upper k := by
  rw [Scan.pending, mem_filter, mem_union, mem_keySet_iff_has, mem_keySet_iff_has]

theorem firstKey_spec (x y) :
    (firstKey x y = none → x = none ∧ y = none) ∧ ∀ k, firstKey x y = some k →
      ((∃ p, x = some p ∧ p.1 = k) ∨ ∃ p, y = some p ∧ p.1 = k) ∧
        (∀ p, x = some p → k ≤ p.1) ∧ ∀ p, y = some p → k ≤ p.1 := by
  cases x <;> cases y <;> simp [firstKey]
  exact le_total _ _

theorem exists_peek_of_pending (h : s.Sync l r) (hk : k ∈ s.pending l r) :
    (∃ x, peek l s.localAfter s.upper = some x ∧ x.1 ≤ k) ∨
      ∃ x, peek r s.remoteAfter s.upper = some x ∧ x.1 ≤ k := by
  obtain ⟨hh | hh, ha, hu⟩ := mem_pending.mp hk
  · exact .inl (exists_peek hh ((h.2.1 k hh).mpr ha) hu)
  · exact .inr (exists_peek hh ((h.2.2 k hh).mpr ha) hu)

theorem frontier_moved {a b x y}
    (ha : Above (Scan.frontier { s with localAfter := a, remoteAfter := b }) k)
    (h : x.isSome ∨ y.isSome) : Scan.frontier
    { s with localAfter := moved k x a, remoteAfter := moved k y b } = some k := by
  cases a <;> cases b <;> cases x <;> cases y <;> simp_all [Scan.frontier, moved, Above, le_of_lt]

/-- A round that finds a key takes it off the list. -/
theorem round_key (h : s.Sync l r) (hp : s.phase = .after ∨ s.phase = .upTo) {s'}
    (hk : firstKey (peek l s.localAfter s.upper) (peek r s.remoteAfter s.upper) = some k)
    (hs' : s' = { s with
      localAfter := moved k (at_ k (peek l s.localAfter s.upper)) s.localAfter,
      remoteAfter := moved k (at_ k (peek r s.remoteAfter s.upper)) s.remoteAfter }) :
    s'.Sync l r ∧ s.todo l r = k :: s'.todo l r ∧ at_ k (peek l s.localAfter s.upper) = l.get k ∧
      at_ k (peek r s.remoteAfter s.upper) = r.get k := by
  obtain ⟨hfound, hminl, hminr⟩ := (firstKey_spec _ _).2 k hk
  have hmem : k ∈ s.pending l r := by
    rcases hfound with ⟨p, hp, rfl⟩ | ⟨p, hp, rfl⟩ <;> obtain ⟨hg, ha, hu⟩ := peek_eq_some hp <;>
      have hh := has_eq_true.mpr ⟨_, hg⟩
    · exact mem_pending.mpr ⟨.inl hh, (h.2.1 _ hh).mp ha, hu⟩
    · exact mem_pending.mpr ⟨.inr hh, (h.2.2 _ hh).mp ha, hu⟩
  obtain ⟨hhas, ha, hu⟩ := mem_pending.mp hmem
  obtain ⟨hx, hl⟩ := moved_spec h.2.1 ha hu hminl
  obtain ⟨hy, hr⟩ := moved_spec h.2.2 ha hu hminr
  have hmin (j : ConversationId) (hj : j ∈ s.pending l r) : k ≤ j := by
    rcases exists_peek_of_pending h hj with ⟨x, hx, hle⟩ | ⟨x, hx, hle⟩
    · exact (hminl x hx).trans hle
    · exact (hminr x hx).trans hle
  have hfront : s'.frontier = some k := by
    rw [hs', hx, hy]
    exact frontier_moved ha hhas
  have hrest : s'.phase = s.phase ∧ s'.pivot = s.pivot ∧ s'.upper = s.upper := by
    subst hs'
    exact ⟨rfl, rfl, rfl⟩
  have hpend : s'.pending l r = (s.pending l r).erase k := by
    ext j
    rw [mem_erase, mem_pending, mem_pending, hfront, hrest.2.2]
    constructor
    · rintro ⟨hh, hlt, huj⟩
      have hlt : k < j := hlt k rfl
      exact ⟨hlt.ne', hh, fun a haf => (ha a haf).trans hlt, huj⟩
    · rintro ⟨hne, hj⟩
      refine ⟨hj.1, ?_, hj.2.2⟩
      rintro _ ⟨⟩
      exact lt_of_le_of_ne (hmin j (mem_pending.mpr hj)) hne.symm
  have hsort : (s.pending l r).sort (· ≤ ·) = k :: (s'.pending l r).sort (· ≤ ·) := by
    rw [← insert_erase hmem, ← hpend]
    refine sort_insert _ (fun j hj => hmin j ?_) fun hj => ?_
    · rw [hpend] at hj
      exact mem_of_mem_erase hj
    · rw [hpend] at hj
      exact notMem_erase _ _ hj
  refine ⟨⟨hrest.1 ▸ h.1, ?_, ?_⟩, ?_, hx, hy⟩
  · rw [hfront, hs']
    exact hl
  · rw [hfront, hs']
    exact hr
  · unfold Scan.todo
    rw [hrest.1, hrest.2.1, hsort]
    rcases hp with hp | hp <;> rw [hp]
    rfl

/-- **A round** takes the next mailbox off the list, and gives it if it differs, or goes to the next
phase. -/
theorem round_spec (h : s.Sync l r) (hd : s.phase ≠ .done) :
    (s.round l r).1.Sync l r ∧ (s.round l r).1.valid = s.valid ∧
      (s.round l r).1.left l r < s.left l r ∧
      s.differing l r = (s.round l r).2.toList ++ (s.round l r).1.differing l r := by
  have hp : s.phase = .after ∨ s.phase = .upTo := by
    have hbegun := h.1
    cases hph : s.phase <;> simp_all
  unfold Scan.round
  split
  · next hk =>
    obtain ⟨hl, hr⟩ := (firstKey_spec _ _).1 hk
    have hempty : s.pending l r = ∅ := by
      refine eq_empty_of_forall_notMem fun j hj => ?_
      rcases exists_peek_of_pending h hj with ⟨x, hx, -⟩ | ⟨x, hx, -⟩
      · cases hl.symm.trans hx
      · cases hr.symm.trans hx
    split_ifs with hwrap
    · obtain ⟨hph, hpiv⟩ := hwrap
      obtain ⟨p, hpiv⟩ := Option.isSome_iff_exists.mp hpiv
      have htodo : s.todo l r = Scan.todo l r
        { s with phase := .upTo, localAfter := none, remoteAfter := none } := by
        unfold Scan.todo
        rw [hph, hpiv, hempty, sort_empty]
        dsimp only
        rw [List.nil_append]
        congr 1
        ext j
        simp [mem_pending, mem_keySet_iff_has, Scan.frontier, Scan.upper, Above, UpTo]
      refine ⟨⟨by simp, fun _ _ => Iff.rfl, fun _ _ => Iff.rfl⟩, rfl, ?_, ?_⟩
      · unfold Scan.left
        rw [htodo, hph]
        exact Nat.lt_succ_self _
      · unfold Scan.differing
        rw [htodo]
        rfl
    · have htodo : s.todo l r = [] := by
        unfold Scan.todo
        rcases hp with hp | hp
        · have hpiv : s.pivot = none := Option.not_isSome_iff_eq_none.mp fun h => hwrap ⟨hp, h⟩
          rw [hp, hpiv, hempty]
          simp [Above]
        · rw [hp, hempty, sort_empty]
      refine ⟨⟨by simp, h.2⟩, rfl, ?_, ?_⟩
      · unfold Scan.left
        rw [htodo]
        rcases hp with hp | hp <;> rw [hp] <;> exact Nat.succ_pos _
      · unfold Scan.differing
        rw [htodo]
        rfl
  · next k hk =>
    obtain ⟨hsync, htodo, hx, hy⟩ := round_key h hp hk rfl
    refine ⟨hsync, rfl, ?_, ?_⟩
    · unfold Scan.left
      rw [htodo, List.length_cons]
      dsimp only
      omega
    · unfold Scan.differing
      rw [htodo, hx, hy, List.filter_cons]
      by_cases hne : l.get k = r.get k <;> simp [hne]

theorem rounds_spec (emitted) : ∀ (n : ℕ) (s : Scan) (p : MismatchProgress), s.Sync l r →
    (s.rounds l r emitted n p).1.Sync l r ∧ (s.rounds l r emitted n p).1.valid = s.valid ∧
      (s.rounds l r emitted n p).1.left l r ≤ s.left l r ∧
      (s.phase ≠ .done → p.ids.length < emitted → 0 < n →
        (s.rounds l r emitted n p).1.left l r < s.left l r) ∧
      p.ids ++ s.differing l r =
        (s.rounds l r emitted n p).2.ids ++ (s.rounds l r emitted n p).1.differing l r
  | 0, s, p, h => ⟨h, rfl, le_rfl, fun _ _ => nofun, rfl⟩
  | n + 1, s, p, h => by
    unfold Scan.rounds
    split_ifs with hgo
    · obtain ⟨hs, hv, hlt, hdiff⟩ := round_spec h hgo.1
      obtain ⟨hs', hv', hle, -, hdiff'⟩ := rounds_spec emitted n _
        { p with ids := p.ids ++ (s.round l r).2.toList, examined := p.examined + 2 } hs
      refine ⟨hs', hv'.trans hv, hle.trans hlt.le, fun _ _ _ => hle.trans_lt hlt, ?_⟩
      rw [hdiff, ← List.append_assoc]
      exact hdiff'
    · exact ⟨h, rfl, le_rfl, fun hd hl _ => absurd ⟨hd, hl⟩ hgo, rfl⟩

theorem left_eq_zero (h : s.Sync l r) : s.left l r = 0 ↔ s.phase = .done := by
  unfold Scan.left Scan.todo
  cases hp : s.phase with
  | idle => exact absurd hp h.1
  | done => simp
  | after => simp
  | upTo => simp

def Budget (b : ℕ × ℕ) : Prop := (2 ≤ b.1 ∧ b.1 ≤ 512) ∧ 1 ≤ b.2 ∧ b.2 ≤ 16

/-- **A step** goes on, unless the scan is through, and gives mailboxes off the list. -/
theorem step_spec {b} (hb : Budget b) (hv : s.valid = true) (h : s.Sync l r) :
    ∃ p s', s.mismatchStep l r b.1 b.2 = .ok (p, s') ∧ s'.Sync l r ∧ s'.valid = true ∧
      (p.done = true ↔ s'.phase = .done) ∧ s'.left l r ≤ s.left l r - 1 ∧
      s.differing l r = p.ids ++ s'.differing l r := by
  obtain ⟨hs, hv', hle, hlt, hdiff⟩ := rounds_spec b.2 (b.1 / 2) s ⟨[], 0, false⟩ h
  have hb' : ¬ ¬ ((2 ≤ b.1 ∧ b.1 ≤ 512) ∧ 1 ≤ b.2 ∧ b.2 ≤ 16) := not_not.mpr hb
  unfold Scan.mismatchStep
  rw [if_neg hb', if_neg (by simp [hv, h.1])]
  refine ⟨_, _, rfl, hs, hv'.trans hv, decide_eq_true_iff, ?_, hdiff⟩
  by_cases hd : s.phase = .done
  · rw [(left_eq_zero h).mpr hd] at hle ⊢
    exact hle
  · exact Nat.le_sub_one_of_lt (hlt hd hb.2.1 (Nat.div_pos hb.1.1 (by decide)))

/-- Steps one after the other take off a round each, until the scan is through. -/
theorem steps_spec : ∀ (bs : List (ℕ × ℕ)) (s : Scan), (∀ b ∈ bs, Budget b) → s.valid = true →
    s.Sync l r → ∃ ids s', s.steps l r bs = .ok (ids, s') ∧ s'.Sync l r ∧ s'.valid = true ∧
      s'.left l r ≤ s.left l r - bs.length ∧ s.differing l r = ids ++ s'.differing l r
  | [], s, _, hv, h => ⟨[], s, rfl, h, hv, le_rfl, rfl⟩
  | b :: bs, s, hbs, hv, h => by
    obtain ⟨p, s', hstep, hs, hv', -, hleft, hdiff⟩ := step_spec (hbs b List.mem_cons_self) hv h
    obtain ⟨ids, s'', hsteps, hs', hv'', hleft', hdiff'⟩ :=
      steps_spec bs s' (fun b hb => hbs b (List.mem_cons_of_mem _ hb)) hv' hs
    refine ⟨p.ids ++ ids, s'', ?_, hs', hv'', ?_, by rw [hdiff, hdiff', List.append_assoc]⟩
    · rw [Scan.steps, hstep]
      dsimp only
      rw [hsteps]
      rfl
    · rw [List.length_cons]
      omega

/-- The mailboxes of one side only, or with other digests, first those after the pivot. -/
def selection (l r : Inventory) (pivot : Option ConversationId) : List ConversationId :=
  let differ := (l.keySet ∪ r.keySet).filter fun k => l.get k ≠ r.get k
  (differ.filter fun k => Above pivot k).sort (· ≤ ·) ++
    (differ.filter fun k => ¬ Above pivot k).sort (· ≤ ·)

theorem filter_sort (S : Finset ConversationId) (p : ConversationId → Prop) [DecidablePred p] :
    (S.sort (· ≤ ·)).filter (fun k => p k) = (S.filter p).sort (· ≤ ·) := by
  refine OrdSet.list_ext ((sortedLT_sort S).pairwise.filter _)
    (sortedLT_sort _).pairwise fun k => ?_
  simp

/-- **Mismatch selection is exact.** A session that is ready begins its scan, and steps with
whatever budgets go on from there: each takes off a round at least, so that after as many the scan
is through, and when it is, they have given exactly the mailboxes that differ, first those after the
pivot. -/
theorem mismatch_exact (l r : Inventory) (s : Scan) (hv : s.valid = true) (hi : s.phase = .idle)
    (pivot : Option ConversationId) :
    ∃ s₁, s.beginMismatch pivot = .ok s₁ ∧ ∀ bs : List (ℕ × ℕ), (∀ b ∈ bs, Budget b) →
      ∃ ids s', s₁.steps l r bs = .ok (ids, s') ∧
        (s'.phase = .done → ids = selection l r pivot) ∧
          (s₁.left l r ≤ bs.length → s'.phase = .done) ∧
        ∀ b, Budget b → ∃ p s'', s'.mismatchStep l r b.1 b.2 = .ok (p, s'') ∧
          (p.done = true ↔ s''.phase = .done) ∧
          (s'.phase ≠ .done → s''.left l r < s'.left l r) := by
  refine ⟨_, if_pos ⟨hv, hi⟩, fun bs hbs => ?_⟩
  have hfront : Scan.frontier
      { s with phase := .after, pivot := pivot, localAfter := pivot, remoteAfter := pivot } =
        pivot := by
    cases pivot <;> simp [Scan.frontier]
  obtain ⟨ids, s', hsteps, hs', hv', hleft, hdiff⟩ := steps_spec (l := l) (r := r) bs
    { s with phase := .after, pivot := pivot, localAfter := pivot, remoteAfter := pivot } hbs hv
    ⟨nofun, by simp [Behind, hfront], by simp [Behind, hfront]⟩
  refine ⟨ids, s', hsteps, fun hd => ?_, fun hlen => ?_, fun b hb => ?_⟩
  · have hnil : s'.differing l r = [] := by
      unfold Scan.differing Scan.todo
      rw [hd]
      rfl
    rw [hnil, List.append_nil] at hdiff
    rw [← hdiff]
    unfold Scan.differing Scan.todo selection
    rw [List.filter_append, filter_sort, filter_sort, Finset.filter_comm]
    congr 2
    ext k
    simp only [Finset.mem_filter, mem_pending, Finset.mem_union, Table.mem_keySet_iff_has, hfront]
    simp [Scan.upper, UpTo]
    tauto
  · exact (left_eq_zero hs').mp (by omega)
  · obtain ⟨p, s'', hstep, -, -, hdone, hlt, -⟩ := step_spec hb hv' hs'
    refine ⟨p, s'', hstep, hdone, fun hd => ?_⟩
    have := mt (left_eq_zero hs').mp hd
    omega

/-- An inventory of mailboxes by their numbers and digests. -/
def sampleInventory (rows : List (ℕ × ℕ)) : Inventory :=
  rows.foldl (fun t row => t.set ⟨BitVec.ofNat _ row.1⟩ (BitVec.ofNat 256 row.2)) ∅

def sampleLocal : Inventory := sampleInventory [(2, 7), (4, 7), (6, 7), (8, 7)]
def sampleRemote : Inventory := sampleInventory [(1, 7), (4, 9), (5, 7), (6, 7), (8, 9)]

theorem mismatch_exact_wrapped : ∃ s, (Scan.mk true .idle none none none).beginMismatch (some ⟨4⟩) =
    .ok s ∧ ∃ s', s.steps sampleLocal sampleRemote [(4, 1), (2, 16), (6, 2), (512, 16), (512, 16)] =
          .ok ([⟨5⟩, ⟨8⟩, ⟨1⟩, ⟨2⟩, ⟨4⟩], s') ∧ s'.phase = .done ∧
        selection sampleLocal sampleRemote (some ⟨4⟩) = [⟨5⟩, ⟨8⟩, ⟨1⟩, ⟨2⟩, ⟨4⟩] := by
  obtain ⟨s, hs, hsteps⟩ := mismatch_exact sampleLocal sampleRemote
    (Scan.mk true .idle none none none) rfl rfl
    (some ⟨4⟩)
  obtain ⟨ids, s', h, hids, -⟩ := hsteps [(4, 1), (2, 16), (6, 2), (512, 16), (512, 16)]
    (by simp [Budget])
  obtain rfl := Except.ok.inj hs
  have hrun : (Scan.steps sampleLocal sampleRemote ⟨true, .after, some ⟨4⟩, some ⟨4⟩, some ⟨4⟩⟩
      [(4, 1), (2, 16), (6, 2), (512, 16), (512, 16)]).toOption.map (fun t => (t.1, t.2.phase)) =
        some ([⟨5⟩, ⟨8⟩, ⟨1⟩, ⟨2⟩, ⟨4⟩], .done) := by
    decide +kernel
  rw [h] at hrun
  obtain ⟨rfl, hdone⟩ := Prod.mk.inj (Option.some.inj hrun)
  exact ⟨_, rfl, s', h, hdone, (hids hdone).symm⟩

end MeshTalk.Postoffice
