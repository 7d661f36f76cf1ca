import MeshTalk.Event
import MeshTalk.Lib.Table

/-! # Scheduling the fan-out of group effects

The journal of group operations keeps, for each group, the sequence of its newest committed effect.
A bounded queue (`account_sync/fanout.rs`) takes the groups from scans of the journal and hands them
to two workers. What does not fit the queue goes back to the journal: the cursor of the scans is
moved in front of it. -/

namespace MeshTalk.AccountSync.Fanout

open Lib List Table Function

/-- The queue of the fan-out. A worker that has to be followed up is marked. -/
structure FanoutQueue where
  queued : List ConversationId
  active : Table ConversationId Bool
  seen : Table ConversationId ℕ
  retryAt : Table ConversationId ℕ

namespace FanoutQueue

def empty : FanoutQueue := ⟨[], ∅, ∅, ∅⟩

/-- Take note of an effect. `false` if there is no room for its group. -/
def observe (q : FanoutQueue) (group : ConversationId) (sequence : ℕ) : Bool × FanoutQueue :=
  if (q.seen.get group).any (sequence ≤ ·) then (true, q)
  else if q.active.has group then
    (true, { q with active := q.active.set group true, seen := q.seen.set group sequence })
  else if group ∈ q.queued then (true, { q with seen := q.seen.set group sequence })
  else if 128 ≤ q.queued.length then (false, q)
  else (true, { q with queued := q.queued ++ [group], seen := q.seen.set group sequence })

/-- Take the first group that need not wait any longer, if a worker is free. -/
def startNext (q : FanoutQueue) (now : ℕ) : Option (ConversationId × FanoutQueue) :=
  if 2 ≤ q.active.rows.length then none
  else (q.queued.find? fun g => (q.retryAt.get g).all (· ≤ now)).map fun g =>
    (g, { q with
      queued := q.queued.erase g, retryAt := q.retryAt.erase g, active := q.active.set g false })

/-- A worker could not do it now. `false` if there is no room to keep the group. -/
def defer (q : FanoutQueue) (group : ConversationId) (now : ℕ) : Bool × FanoutQueue :=
  if 128 ≤ q.queued.length then
    (false, { q with active := q.active.erase group, seen := q.seen.erase group })
  else
    (true, { q with
      active := q.active.erase group, queued := q.queued ++ [group], retryAt :=
        q.retryAt.set group (now + 1000) })

/-- A worker is done. `true` if there is more for its group. -/
def finished (q : FanoutQueue) (group : ConversationId) : Bool × FanoutQueue :=
  if q.active.get group = some true then
    (true, { q with active := q.active.erase group, seen := q.seen.erase group })
  else (false, { q with active := q.active.erase group })

end FanoutQueue

/-- What the journal says of fan-outs. -/
structure Journal where
  sequence : ℕ
  newest : Table ConversationId ℕ

/-- The newest effects after a sequence, by their sequences. -/
def Journal.page (j : Journal) (after : ℕ) : List (ℕ × ConversationId) :=
  (((j.newest.rows.map Prod.swap).filter fun r => after < r.1).insertionSort fun a b =>
    a.1 ≤ b.1).take 128

/-- Apply the page of a scan. The cursor follows it, unless it was moved since the scan began. -/
def observePage (advance : Bool) : FanoutQueue → ℕ → List (ℕ × ConversationId) → FanoutQueue × ℕ
  | q, cursor, [] => (q, cursor)
  | q, cursor, (sequence, group) :: rest =>
    if (q.observe group sequence).1 then
      observePage advance (q.observe group sequence).2 (if advance then sequence else cursor) rest
    else (q, cursor)

/-- Apply the groups a scan has touched. -/
def observeAffected : FanoutQueue → ℕ → List (ConversationId × ℕ) → FanoutQueue × ℕ
  | q, cursor, [] => (q, cursor)
  | q, cursor, (group, sequence) :: rest =>
    observeAffected (q.observe group sequence).2
      (if (q.observe group sequence).1 then cursor else min cursor (sequence - 1)) rest

def observeFanoutTurn (q : FanoutQueue) (cursor after : ℕ) (page : List (ℕ × ConversationId))
    (affected : List (ConversationId × ℕ)) : FanoutQueue × ℕ :=
  let r := observePage (cursor = after) q cursor page
  observeAffected r.1 r.2 affected

/-! ### The machine -/

inductive Scan
  | idle
  | started (after : ℕ)
  | read (after : ℕ) (page : List (ℕ × ConversationId)) (affected : List (ConversationId × ℕ))

/-- The scheduler and the journal; and of each group, the sequence of the journal when its last
round was started, and the greatest such sequence of a round that was done. -/
structure Scheduler where
  journal : Journal
  queue : FanoutQueue
  cursor : ℕ
  scan : Scan
  starts : ConversationId → ℕ
  covered : ConversationId → ℕ

inductive Step
  | commit (group : ConversationId)
  | put
  | beginScan
  | readPage
  | readAffected (group : ConversationId)
  | applyScan
  | start (now : ℕ)
  | complete (group : ConversationId) (deferred : Bool) (now : ℕ)
  | restart

namespace Scheduler

def new : Scheduler := ⟨⟨0, ∅⟩, .empty, 0, .idle, fun _ => 0, fun _ => 0⟩

/-- Move the cursor in front of the newest effect of a group. -/
def rewind (s : Scheduler) (group : ConversationId) : ℕ :=
  match s.journal.newest.get group with
  | some sequence => min s.cursor (sequence - 1)
  | none => s.cursor

def complete (s : Scheduler) (group : ConversationId) (deferred : Bool) (now : ℕ) : Scheduler :=
  if deferred then
    { s with
      queue := (s.queue.defer group now).2
      cursor := if (s.queue.defer group now).1 then s.cursor else s.rewind group }
  else
    let s := { s with
      covered := Function.update s.covered group (max (s.covered group) (s.starts group)) }
    let q := (s.queue.finished group).2
    if (s.queue.finished group).1 then
      match s.journal.newest.get group with
      | none => { s with queue := q }
      | some sequence =>
        { s with
          queue := (q.observe group sequence).2
          cursor := if (q.observe group sequence).1 then s.cursor else s.rewind group }
    else { s with queue := q }

def step (s : Scheduler) : Step → Scheduler
  | .commit group =>
    { s with
      journal := ⟨s.journal.sequence + 1, s.journal.newest.set group (s.journal.sequence + 1)⟩ }
  | .put => { s with journal := { s.journal with sequence := s.journal.sequence + 1 } }
  | .beginScan =>
    match s.scan with
    | .idle => { s with scan := .started s.cursor }
    | _ => s
  | .readPage =>
    match s.scan with
    | .started after => { s with scan := .read after (s.journal.page after) [] }
    | _ => s
  | .readAffected group =>
    match s.scan, s.journal.newest.get group with
    | .read after page affected, some sequence =>
      { s with scan := .read after page (affected ++ [(group, sequence)]) }
    | _, _ => s
  | .applyScan =>
    match s.scan with
    | .read after page affected =>
      { s with
        queue := (observeFanoutTurn s.queue s.cursor after page affected).1
        cursor := (observeFanoutTurn s.queue s.cursor after page affected).2
        scan := .idle }
    | _ => s
  | .start now =>
    match s.queue.startNext now with
    | none => s
    | some (group, q) =>
        { s with queue := q, starts := Function.update s.starts group s.journal.sequence }
  | .complete group deferred now =>
    if s.queue.active.has group then s.complete group deferred now else s
  | .restart => { s with queue := .empty, cursor := 0, scan := .idle }

end Scheduler

/-! ### Who is responsible -/

/-- Somebody has the effects of a group up to a sequence: a round that is done, the queue, or a
worker whose round began after them or that will be followed up. -/
def Held (starts covered : ConversationId → ℕ) (q : FanoutQueue) (group : ConversationId)
    (sequence : ℕ) :
    Prop :=
  sequence ≤ covered group ∨ group ∈ q.queued ∨
    ∃ more, q.active.get group = some more ∧ (more = true ∨ sequence ≤ starts group)

structure Tracked (top : ℕ) (starts covered : ConversationId → ℕ) (q : FanoutQueue) : Prop where
  nodup : q.queued.Nodup
  apart : ∀ g ∈ q.queued, q.active.get g = none
  room : q.queued.length ≤ 128
  workers : q.active.rows.length ≤ 2
  seen : ∀ g k, q.seen.get g = some k → k ≤ top ∧ Held starts covered q g k

def FanoutQueue.Saw (q : FanoutQueue) (g : ConversationId) (n : ℕ) : Prop :=
    ∃ k, q.seen.get g = some k ∧ n ≤ k

variable {top : ℕ} {starts covered : ConversationId → ℕ} {q : FanoutQueue} {s : Scheduler}

/-! ### Observing -/

variable {g : ConversationId} {q' : FanoutQueue} {n : ℕ} {after : ℕ}

theorem Held.mono {k n} (h : Held starts covered q g k) (hn : n ≤ k) :
    Held starts covered q g n := by
  rcases h with h | h | ⟨more, hm, h | h⟩
  · exact .inl (hn.trans h)
  · exact .inr (.inl h)
  · exact .inr (.inr ⟨more, hm, .inl h⟩)
  · exact .inr (.inr ⟨more, hm, .inr (hn.trans h)⟩)

theorem nodup_concat {l} (h : l.Nodup) (hg : g ∉ l) : (l ++ [g]).Nodup := by
  simpa using List.Nodup.concat hg h

/-- Two queues with their rounds differ in one group only. -/
structure Apart (g : ConversationId) (q q' : FanoutQueue)
    (starts starts' covered covered' : ConversationId → ℕ) :
    Prop where
  queued : ∀ x ≠ g, x ∈ q'.queued ↔ x ∈ q.queued
  active : ∀ x ≠ g, q'.active.get x = q.active.get x
  seen : ∀ x ≠ g, q'.seen.get x = q.seen.get x ∧ starts' x = starts x ∧ covered' x = covered x

theorem Tracked.change (h : Tracked top starts covered q) {starts' covered'}
    (hframe : Apart g q q' starts starts' covered covered') (hnodup : q'.queued.Nodup)
    (hroom : q'.queued.length ≤ 128) (hworkers : q'.active.rows.length ≤ 2)
    (hapart : g ∈ q'.queued → q'.active.get g = none)
    (hmine : ∀ k, q'.seen.get g = some k → k ≤ top ∧ Held starts' covered' q' g k) :
    Tracked top starts' covered' q' := by
  refine ⟨hnodup, fun x hx => ?_, hroom, hworkers, fun x k hk => ?_⟩ <;> by_cases hg : x = g
  · subst hg
    exact hapart hx
  · rw [hframe.active x hg]
    exact h.apart x ((hframe.queued x hg).mp hx)
  · subst hg
    exact hmine k hk
  · obtain ⟨hseen, hstarts, hcovered⟩ := hframe.seen x hg
    rw [hseen] at hk
    unfold Held
    rw [hframe.queued x hg, hframe.active x hg, hstarts, hcovered]
    exact h.seen x k hk

/-- **An observed effect is held.** Without room for its group nothing changes. -/
theorem Tracked.observe (h : Tracked top starts covered q) (hn : n ≤ top) :
    Tracked top starts covered (q.observe g n).2 ∧
      (∀ g' m, q.Saw g' m → (q.observe g n).2.Saw g' m) ∧
      ((q.observe g n).1 = true → (q.observe g n).2.Saw g n) := by
  unfold FanoutQueue.observe
  split_ifs with hknown hactive hqueued hfull
  · obtain ⟨k, hk, hle⟩ := (Option.any_eq_true _ _).mp hknown
    exact ⟨h, fun _ _ hs => hs, fun _ => ⟨k, hk, of_decide_eq_true hle⟩⟩
  all_goals
    have hself : (q.seen.set g n).get g = some n := by rw [get_set, if_pos rfl]
    have hother (x : ConversationId) (hx : x ≠ g) : (q.seen.set g n).get x = q.seen.get x := by
      rw [get_set, if_neg hx]
    have hsaw (q' : FanoutQueue) (hseen : q'.seen = q.seen.set g n) :
        (∀ g' m, q.Saw g' m → q'.Saw g' m) ∧ q'.Saw g n := by
      refine ⟨fun x m hs => ?_, n, hseen ▸ hself, le_rfl⟩
      obtain ⟨k, hk, hle⟩ := hs
      by_cases hx : x = g
      · subst hx
        refine ⟨n, hseen ▸ hself, ?_⟩
        by_contra hlt
        exact hknown ((Option.any_eq_true _ _).mpr ⟨k, hk, decide_eq_true (by omega)⟩)
      · exact ⟨k, by rw [hseen, hother x hx]; exact hk, hle⟩
    have hmine {q' : FanoutQueue} (hseen : q'.seen = q.seen.set g n)
      (hheld : Held starts covered q' g n) (k : ℕ)
        (hk : q'.seen.get g = some k) : k ≤ top ∧ Held starts covered q' g k := by
      rw [hseen, hself] at hk
      cases hk
      exact ⟨hn, hheld⟩
  · obtain ⟨more, hmore⟩ := has_eq_true.mp hactive
    have hset (x : ConversationId) (hx : x ≠ g) : (q.active.set g true).get x = q.active.get x := by
      rw [get_set, if_neg hx]
    refine ⟨h.change ⟨fun _ _ => .rfl, hset, fun x hx => ⟨hother x hx, rfl, rfl⟩⟩ h.nodup h.room
      ?_ (fun hg => ?_)
      (hmine rfl (.inr (.inr ⟨true, by rw [get_set, if_pos rfl], .inl rfl⟩))), (hsaw _ rfl).1,
      fun _ => (hsaw _ rfl).2⟩
    · rw [Table.length_set, if_pos hactive]
      exact h.workers
    · cases (h.apart g hg).symm.trans hmore
  · exact ⟨h.change ⟨fun _ _ => .rfl, fun _ _ => rfl, fun x hx => ⟨hother x hx, rfl, rfl⟩⟩ h.nodup
      h.room h.workers
      (h.apart g) (hmine rfl (.inr (.inl hqueued))), (hsaw _ rfl).1, fun _ => (hsaw _ rfl).2⟩
  · exact ⟨h, fun _ _ hs => hs, fun h => by cases h⟩
  · refine ⟨h.change ⟨fun x hx => by simp [hx], fun _ _ => rfl, fun x hx => ⟨hother x hx, rfl, rfl⟩⟩
      (nodup_concat h.nodup hqueued) ?_ h.workers
        (fun _ => has_eq_false.mp (Bool.eq_false_iff.mpr hactive))
      (hmine rfl (.inr (.inl (by simp)))), (hsaw _ rfl).1, fun _ => (hsaw _ rfl).2⟩
    rw [length_append, length_singleton]
    omega

/-! ### What every step keeps -/

/-- The page has, in order, every newest effect after `after` up to where it ends. -/
structure PageOk (j : Journal) (after : ℕ) (page : List (ℕ × ConversationId)) : Prop where
  sorted : (page.map Prod.fst).Pairwise (· < ·)
  range : ∀ r ∈ page, after < r.1 ∧ r.1 ≤ j.sequence
  complete : ∀ g n, j.newest.get g = some n → after < n → (∃ r ∈ page, n ≤ r.1) → (n, g) ∈ page

def ScanOk (j : Journal) : Scan → Prop
  | .idle => True
  | .started _ => True
  | .read after page affected => PageOk j after page ∧ ∀ r ∈ affected, 0 < r.2 ∧ r.2 ≤ j.sequence

/-- **What every step keeps.** -/
structure Inv (s : Scheduler) : Prop where
  newest : ∀ g n, s.journal.newest.get g = some n → 0 < n ∧ n ≤ s.journal.sequence
  distinct : ∀ g g' n, s.journal.newest.get g = some n → s.journal.newest.get g' = some n → g = g'
  tracked : Tracked s.journal.sequence s.starts s.covered s.queue
  bounded : s.cursor ≤ s.journal.sequence
  reached : ∀ g n, s.journal.newest.get g = some n → s.cursor < n ∨ s.queue.Saw g n
  scanned : ScanOk s.journal s.scan

variable {j : Journal}

/-- **Applying a page**, from some row on. -/
theorem PageOk.apply {page} (h : PageOk j after page) {advance} :
    ∀ (done rest : List (ℕ × ConversationId)) (q : FanoutQueue) (cursor : ℕ), page = done ++ rest →
      Tracked j.sequence starts covered q →
      (∀ g n, j.newest.get g = some n → cursor < n ∨ q.Saw g n) →
      (advance = true → after ≤ cursor ∧ ∀ r ∈ done, r.1 ≤ cursor) →
      Tracked j.sequence starts covered (observePage advance q cursor rest).1 ∧
        ∀ g n, j.newest.get g = some n →
          (observePage advance q cursor rest).2 < n ∨ (observePage advance q cursor rest).1.Saw g n
  | _, [], q, cursor, _, hq, hreached, _ => ⟨hq, hreached⟩
  | done, (n, g) :: rest, q, cursor, hpage, hq, hreached, hcursor => by
    have hrow : (n, g) ∈ page := by rw [hpage]; simp
    have hsorted := h.sorted
    rw [hpage, map_append, map_cons, pairwise_append, pairwise_cons] at hsorted
    obtain ⟨htracked, hmore, hsaw⟩ := hq.observe (g := g) (h.range _ hrow).2
    unfold observePage
    by_cases hok : (q.observe g n).1 = true
    swap
    · rw [if_neg hok]
      exact ⟨hq, hreached⟩
    rw [if_pos hok]
    refine h.apply (done ++ [(n, g)]) rest _ _ (by rw [hpage, append_assoc]; rfl) htracked
      (fun g' n' hn' => ?_) fun hadvance => ?_
    · rcases hreached g' n' hn' with hlt | hs
      swap
      · exact .inr (hmore _ _ hs)
      cases advance with
      | false => exact .inl hlt
      | true =>
        by_cases hpast : n < n'
        · exact .inl hpast
        -- the effect is in the page, after the rows that are done, so it is this row
        obtain ⟨hafter, hdone⟩ := hcursor rfl
        have hmem := h.complete g' n' hn' (by omega) ⟨_, hrow, by omega⟩
        rw [hpage] at hmem
        rcases mem_append.mp hmem with hmem | hmem
        · exact absurd (hdone _ hmem) (by omega)
        rcases mem_cons.mp hmem with heq | hmem
        · obtain ⟨rfl, rfl⟩ := Prod.mk.inj heq
          exact .inr (hsaw hok)
        · exact absurd (hsorted.2.1.1 n' (mem_map.mpr ⟨_, hmem, rfl⟩)) (by omega)
    · rw [if_pos hadvance]
      refine ⟨(h.range _ hrow).1.le, fun r hr => ?_⟩
      rcases mem_append.mp hr with hr | hr
      · exact (hsorted.2.2 r.1 (mem_map.mpr ⟨r, hr, rfl⟩) n mem_cons_self).le
      · rw [mem_singleton.mp hr]

theorem apply_affected : ∀ (affected : List (ConversationId × ℕ)) (q : FanoutQueue) (cursor : ℕ),
    (∀ r ∈ affected, 0 < r.2 ∧ r.2 ≤ j.sequence) → Tracked j.sequence starts covered q →
    (∀ g n, j.newest.get g = some n → cursor < n ∨ q.Saw g n) →
      Tracked j.sequence starts covered (observeAffected q cursor affected).1 ∧
        ∀ g n, j.newest.get g = some n →
          (observeAffected q cursor affected).2 < n ∨ (observeAffected q cursor affected).1.Saw g n
  | [], _, _, _, hq, hreached => ⟨hq, hreached⟩
  | (g, n) :: rest, q, cursor, haff, hq, hreached => by
    obtain ⟨htracked, hmore, -⟩ := hq.observe (g := g) (haff _ mem_cons_self).2
    refine apply_affected rest _ _ (fun r hr => haff r (mem_cons_of_mem _ hr)) htracked
      fun g' n' hn' => ?_
    rcases hreached g' n' hn' with hlt | hs
    · refine .inl (lt_of_le_of_lt ?_ hlt)
      split_ifs
      · exact le_rfl
      · exact min_le_left _ _
    · exact .inr (hmore _ _ hs)

theorem observePage_le (advance) :
    ∀ (page : List (ℕ × ConversationId)) (q : FanoutQueue) (cursor : ℕ),
    cursor ≤ top → (∀ r ∈ page, r.1 ≤ top) → (observePage advance q cursor page).2 ≤ top
  | [], _, _, h, _ => h
  | (n, g) :: rest, q, cursor, h, hpage => by
    unfold observePage
    split_ifs
    · exact observePage_le advance rest _ _ (hpage _ mem_cons_self) fun r hr =>
        hpage r (mem_cons_of_mem _ hr)
    · exact observePage_le advance rest _ _ h fun r hr => hpage r (mem_cons_of_mem _ hr)
    · exact h

theorem observeAffected_le : ∀ (affected : List (ConversationId × ℕ)) (q : FanoutQueue)
    (cursor : ℕ), (observeAffected q cursor affected).2 ≤ cursor
  | [], _, _ => le_rfl
  | (g, n) :: rest, q, cursor => by
    refine (observeAffected_le rest _ _).trans ?_
    split_ifs
    · exact le_rfl
    · exact min_le_left _ _

theorem pageOk_page (hle : ∀ g n, j.newest.get g = some n → n ≤ j.sequence)
    (hinj : ∀ g g' n, j.newest.get g = some n → j.newest.get g' = some n → g = g') (after) :
    PageOk j after (j.page after) := by
  have hmem (r : ℕ × ConversationId) : r ∈ ((j.newest.rows.map Prod.swap).filter fun r =>
      after < r.1).insertionSort (fun a b => a.1 ≤ b.1) ↔ j.newest.get r.2 = some r.1 ∧
        after < r.1 := by
    rw [mem_insertionSort, mem_filter, mem_map, get_eq_some, decide_eq_true_eq]
    exact and_congr_left fun _ =>
      ⟨fun ⟨p, hp, he⟩ => he ▸ hp, fun hp => ⟨r.swap, hp, Prod.swap_swap r⟩⟩
  have hnodup : (((j.newest.rows.map Prod.swap).filter fun r => after < r.1).insertionSort
      fun a b => a.1 ≤ b.1).Nodup :=
    (perm_insertionSort _ _).nodup_iff.mpr
      ((j.newest.nodup.of_map.map Prod.swap_injective).filter _)
  have hsorted : ((((j.newest.rows.map Prod.swap).filter fun r => after < r.1).insertionSort
      fun a b => a.1 ≤ b.1).map Prod.fst).Pairwise (· < ·) := by
    have hkeys := hnodup.map_on fun a ha b hb (he : a.1 = b.1) =>
      Prod.ext he (hinj _ _ a.1 ((hmem a).mp ha).1 (he ▸ ((hmem b).mp hb).1))
    have hle : List.Pairwise (· ≤ ·) _ := pairwise_map.mpr (pairwise_insertionSort
      (fun a b : ℕ × ConversationId => a.1 ≤ b.1)
        ((j.newest.rows.map Prod.swap).filter fun r => after < r.1))
    exact (hle.and hkeys).imp fun h => lt_of_le_of_ne h.1 h.2
  refine ⟨?_, fun r hr => ?_, fun g n hn hafter hend => ?_⟩
  · exact hsorted.sublist ((take_sublist 128 _).map _)
  · have hr := (hmem r).mp ((take_sublist 128 _).subset hr)
    exact ⟨hr.2, hle _ _ hr.1⟩
  · obtain ⟨r, hr, hnr⟩ := hend
    have hg := (hmem (n, g)).mpr ⟨hn, hafter⟩
    rw [← take_append_drop 128 (((j.newest.rows.map Prod.swap).filter fun r =>
      after < r.1).insertionSort fun a b => a.1 ≤ b.1)] at hg hsorted
    rcases mem_append.mp hg with hg | hg
    · exact hg
    · rw [map_append, pairwise_append] at hsorted
      have hlt := hsorted.2.2 _ (mem_map.mpr ⟨r, hr, rfl⟩) _ (mem_map.mpr ⟨_, hg, rfl⟩)
      exact absurd hlt (by omega)

/-! ### Steps -/

theorem Tracked.raise (h : Tracked top starts covered q) {top'} (ht : top ≤ top') :
    Tracked top' starts covered q :=
  ⟨h.nodup, h.apart, h.room, h.workers, fun g k hk =>
    ⟨(h.seen g k hk).1.trans ht, (h.seen g k hk).2⟩⟩

theorem Tracked.empty : Tracked top starts covered .empty :=
  ⟨nodup_nil, nofun, by decide, by decide, nofun⟩

theorem Tracked.startNext (h : Tracked top starts covered q) {now}
    (hq : q.startNext now = some (g, q')) :
    Tracked top (update starts g top) covered q' ∧ q'.seen = q.seen := by
  unfold FanoutQueue.startNext at hq
  split_ifs at hq with hfree
  obtain ⟨g', hfind, heq⟩ := Option.map_eq_some_iff.mp hq
  obtain ⟨rfl, rfl⟩ := Prod.mk.inj heq
  have hidle : q.active.has g' = false := has_eq_false.mpr
    (h.apart _ (List.mem_of_find?_eq_some hfind))
  have hframe (x : ConversationId) (hx : x ≠ g') :
    (q.active.set g' false).get x = q.active.get x := by
    rw [get_set, if_neg hx]
  refine ⟨h.change ⟨fun x hx => List.mem_erase_of_ne hx, hframe,
    fun x hx => ⟨rfl, update_of_ne hx _ _, rfl⟩⟩ (h.nodup.erase _)
      (List.length_erase_le.trans h.room) ?_
    (fun hg => absurd hg h.nodup.not_mem_erase) fun k hk => ?_, rfl⟩
  · rw [Table.length_set, hidle]
    simp only [Bool.false_eq_true, if_false]
    omega
  · refine ⟨(h.seen g' k hk).1, .inr (.inr ⟨false, by rw [get_set, if_pos rfl], .inr ?_⟩)⟩
    rw [update_self]
    exact (h.seen g' k hk).1

/-- A worker gives its group up, and what was seen of it is forgotten. -/
theorem Tracked.forget (h : Tracked top starts covered q) (g : ConversationId) :
    Tracked top starts covered { q with active := q.active.erase g, seen := q.seen.erase g } := by
  refine h.change (g := g) ⟨fun _ _ => .rfl, fun x hx => get_erase_of_ne _ hx,
    fun x hx => ⟨get_erase_of_ne _ hx, rfl, rfl⟩⟩ h.nodup h.room
      ((length_erase_le _ _).trans h.workers)
    (fun _ => get_erase_self _ g) fun k hk => ?_
  cases (get_erase_self q.seen g).symm.trans hk

theorem saw_erase {x} (hx : x ≠ g) (h : q.Saw x n) :
    FanoutQueue.Saw { q with active := q.active.erase g, seen := q.seen.erase g } x n := by
  obtain ⟨k, hk, hle⟩ := h
  exact ⟨k, (get_erase_of_ne _ hx).trans hk, hle⟩

theorem rewind_lt (h : s.journal.newest.get g = some n) (hn : 0 < n) : s.rewind g < n := by
  simp only [Scheduler.rewind, h]
  omega

theorem rewind_le (g) : s.rewind g ≤ s.cursor := by
  unfold Scheduler.rewind
  split
  · exact min_le_left _ _
  · exact le_rfl

theorem Inv.deferred (h : Inv s) (hg : g ∉ s.queue.queued) (now : ℕ) :
    Inv (s.complete g true now) := by
  rw [Scheduler.complete, if_pos rfl]
  by_cases hfull : 128 ≤ s.queue.queued.length
  · have hd : s.queue.defer g now =
        (false, { s.queue with active := s.queue.active.erase g, seen := s.queue.seen.erase g }) :=
          if_pos hfull
    rw [hd, if_neg Bool.false_ne_true]
    refine ⟨h.newest, h.distinct, h.tracked.forget g, (rewind_le g).trans h.bounded,
      fun x n hn => ?_, h.scanned⟩
    by_cases hx : x = g
    · subst hx
      exact .inl (rewind_lt hn (h.newest _ _ hn).1)
    · exact (h.reached x n hn).imp (lt_of_le_of_lt (rewind_le g)) (saw_erase hx)
  · have hd : s.queue.defer g now = (true, { s.queue with
        active := s.queue.active.erase g, queued := s.queue.queued ++ [g]
        retryAt := s.queue.retryAt.set g (now + 1000) }) := if_neg hfull
    rw [hd, if_pos rfl]
    refine ⟨h.newest, h.distinct, h.tracked.change
      ⟨fun x hx => by simp [hx], fun x hx => get_erase_of_ne _ hx,
      fun _ _ => ⟨rfl, rfl, rfl⟩⟩ (nodup_concat h.tracked.nodup hg) ?_
        ((length_erase_le _ _).trans h.tracked.workers)
      (fun _ => get_erase_self _ g) fun k hk =>
        ⟨(h.tracked.seen g k hk).1, .inr (.inl (by simp))⟩, h.bounded,
      h.reached, h.scanned⟩
    rw [length_append, length_singleton]
    omega

/-- A worker is done. One that has to be followed up is forgotten and observed again. -/
theorem Inv.finished (h : Inv s) (hg : g ∉ s.queue.queued) (now : ℕ) :
    Inv (s.complete g false now) := by
  rw [Scheduler.complete, if_neg Bool.false_ne_true]
  have hframe (x : ConversationId) (hx : x ≠ g) :
      update s.covered g (max (s.covered g) (s.starts g)) x = s.covered x := update_of_ne hx _ _
  by_cases hfollow : s.queue.active.get g = some true
  · have hf : s.queue.finished g =
        (true, { s.queue with active := s.queue.active.erase g, seen := s.queue.seen.erase g }) :=
          if_pos hfollow
    have htracked : Tracked s.journal.sequence s.starts
        (update s.covered g (max (s.covered g) (s.starts g)))
        { s.queue with active := s.queue.active.erase g, seen := s.queue.seen.erase g } :=
      (h.tracked.forget g).change ⟨fun _ _ => .rfl, fun _ _ => rfl, fun x hx =>
        ⟨rfl, rfl, hframe x hx⟩⟩
        h.tracked.nodup h.tracked.room ((length_erase_le _ _).trans h.tracked.workers)
        (fun _ => get_erase_self _ g) fun k hk =>
          by cases (get_erase_self s.queue.seen g).symm.trans hk
    simp only [hf, if_true]
    cases hnew : s.journal.newest.get g with
    | none =>
      refine ⟨h.newest, h.distinct, htracked, h.bounded, fun x n hn => ?_, h.scanned⟩
      have hx : x ≠ g := fun hx => by rw [hx, hnew] at hn; cases hn
      exact (h.reached x n hn).imp_right (saw_erase hx)
    | some n =>
      obtain ⟨hobs, hkeep, hsaw⟩ := htracked.observe (g := g) (h.newest g n hnew).2
      have hcursor (b : Bool) : (if b then s.cursor else s.rewind g) ≤ s.cursor := by
        cases b
        · exact rewind_le g
        · exact le_rfl
      refine ⟨h.newest, h.distinct, hobs, (hcursor _).trans h.bounded, fun x m hm => ?_, h.scanned⟩
      by_cases hx : x = g
      · subst hx
        obtain rfl := Option.mem_unique hnew hm
        by_cases hok : (FanoutQueue.observe { s.queue with
            active := s.queue.active.erase x, seen := s.queue.seen.erase x } x n).1 = true
        · exact .inr (hsaw hok)
        · refine .inl ?_
          dsimp only
          rw [if_neg hok]
          exact rewind_lt hnew (h.newest _ _ hnew).1
      · exact (h.reached x m hm).imp (lt_of_le_of_lt (hcursor _)) fun hs =>
          hkeep _ _ (saw_erase hx hs)
  · have hf : s.queue.finished g = (false, { s.queue with active := s.queue.active.erase g }) :=
      if_neg hfollow
    simp only [hf, Bool.false_eq_true, if_false]
    refine ⟨h.newest, h.distinct, h.tracked.change
      ⟨fun _ _ => .rfl, fun x hx => get_erase_of_ne _ hx,
      fun x hx => ⟨rfl, rfl, hframe x hx⟩⟩ h.tracked.nodup h.tracked.room
      ((length_erase_le _ _).trans h.tracked.workers) (fun _ => get_erase_self _ g)
      fun k hk => ⟨(h.tracked.seen g k hk).1, .inl ?_⟩, h.bounded, h.reached, h.scanned⟩
    show k ≤ update s.covered g (max (s.covered g) (s.starts g)) g
    rw [update_self]
    -- a worker that need not be followed up began after all that was seen
    rcases (h.tracked.seen g k hk).2 with hc | hq | ⟨m, hm, rfl | hle⟩
    · exact hc.trans (le_max_left _ _)
    · exact absurd hq hg
    · exact absurd hm hfollow
    · exact hle.trans (le_max_right _ _)

theorem PageOk.of_journal {page} (h : PageOk j after page) {j'} (hseq : j.sequence ≤ j'.sequence)
    (hnew : ∀ g n, j'.newest.get g = some n → j.newest.get g = some n ∨ j.sequence < n) :
    PageOk j' after page := by
  refine ⟨h.sorted, fun r hr => ⟨(h.range r hr).1, (h.range r hr).2.trans hseq⟩,
    fun g n hn hafter hend => ?_⟩
  rcases hnew g n hn with hn | hlt
  · exact h.complete g n hn hafter hend
  · obtain ⟨r, hr, hle⟩ := hend
    have := (h.range r hr).2
    omega

theorem ScanOk.of_journal {scan} (h : ScanOk j scan) {j'} (hseq : j.sequence ≤ j'.sequence)
    (hnew : ∀ g n, j'.newest.get g = some n → j.newest.get g = some n ∨ j.sequence < n) :
    ScanOk j' scan := by
  cases scan with
  | idle => trivial
  | started after => trivial
  | read after page affected =>
    exact ⟨h.1.of_journal hseq hnew, fun r hr => ⟨(h.2 r hr).1, (h.2 r hr).2.trans hseq⟩⟩

theorem Inv.commit (h : Inv s) (g) : Inv (s.step (.commit g)) := by
  have hnew (x : ConversationId) (n : ℕ)
      (hn : (s.journal.newest.set g (s.journal.sequence + 1)).get x = some n) :
      (x = g ∧ n = s.journal.sequence + 1) ∨ s.journal.newest.get x = some n := by
    rw [get_set] at hn
    split_ifs at hn with hx
    · exact .inl ⟨hx, (Option.some.inj hn).symm⟩
    · exact .inr hn
  refine ⟨fun x n hn => ?_, fun x y n hx hy => ?_, h.tracked.raise (Nat.le_succ _),
    h.bounded.trans (Nat.le_succ _), fun x n hn => ?_,
      h.scanned.of_journal (Nat.le_succ _) fun x n hn => ?_⟩
  · show 0 < n ∧ n ≤ s.journal.sequence + 1
    rcases hnew x n hn with ⟨-, rfl⟩ | hn
    · omega
    · have := h.newest x n hn
      omega
  · -- the new sequence is of this group alone
    rcases hnew x n hx with ⟨hxg, hn⟩ | hx <;> rcases hnew y n hy with ⟨hyg, hn'⟩ | hy
    · rw [hxg, hyg]
    · have := h.newest y n hy
      omega
    · have := h.newest x n hx
      omega
    · exact h.distinct x y n hx hy
  · rcases hnew x n hn with ⟨-, rfl⟩ | hn
    · exact .inl (Nat.lt_succ_of_le h.bounded)
    · exact h.reached x n hn
  · rcases hnew x n hn with ⟨-, rfl⟩ | hn
    · exact .inr (Nat.lt_succ_self _)
    · exact .inl hn

theorem Inv.applyScan (h : Inv s) {page affected} (hscan : s.scan = .read after page affected) :
    Inv (s.step .applyScan) := by
  have hok := h.scanned
  rw [hscan] at hok
  have hcursor (ha : decide (s.cursor = after) = true) : after ≤ s.cursor ∧
      ∀ r ∈ ([] : List (ℕ × ConversationId)), r.1 ≤ s.cursor :=
    ⟨(of_decide_eq_true ha).ge, fun _ hr => absurd hr not_mem_nil⟩
  obtain ⟨htracked, hreached⟩ := hok.1.apply [] page s.queue s.cursor rfl h.tracked
    h.reached hcursor
  obtain ⟨htracked, hreached⟩ := apply_affected affected _ _ hok.2 htracked hreached
  have hbounded := observePage_le (s.cursor = after) page s.queue s.cursor h.bounded
    fun r hr => (hok.1.range r hr).2
  simp only [Scheduler.step, hscan]
  exact ⟨h.newest, h.distinct, htracked, (observeAffected_le affected _ _).trans hbounded,
    hreached, trivial⟩

/-- **Every step keeps the invariant.** -/
theorem Inv.step (h : Inv s) (a) : Inv (s.step a) := by
  cases a with
  | commit g => exact h.commit g
  | put =>
    exact ⟨fun g n hn => ⟨(h.newest g n hn).1, (h.newest g n hn).2.trans (Nat.le_succ _)⟩,
      h.distinct, h.tracked.raise (Nat.le_succ _), h.bounded.trans (Nat.le_succ _), h.reached,
      h.scanned.of_journal (Nat.le_succ _) fun _ _ hn => .inl hn⟩
  | beginScan =>
    rw [Scheduler.step]
    split
    · exact ⟨h.newest, h.distinct, h.tracked, h.bounded, h.reached, trivial⟩
    · exact h
  | readPage =>
    rw [Scheduler.step]
    split
    · exact ⟨h.newest, h.distinct, h.tracked, h.bounded, h.reached,
        pageOk_page (fun g n hn => (h.newest g n hn).2) h.distinct _, fun _ hr =>
          absurd hr not_mem_nil⟩
    · exact h
  | readAffected g =>
    rw [Scheduler.step]
    split
    · next after page affected n hscan hn =>
      have hok := h.scanned
      rw [hscan] at hok
      refine ⟨h.newest, h.distinct, h.tracked, h.bounded, h.reached, hok.1, fun r hr => ?_⟩
      rcases mem_append.mp hr with hr | hr
      · exact hok.2 r hr
      · rw [mem_singleton.mp hr]
        exact h.newest g n hn
    · exact h
  | applyScan =>
    cases hscan : s.scan with
    | read after page affected => exact h.applyScan hscan
    | _ =>
      simp only [Scheduler.step, hscan]
      exact h
  | start now =>
    rw [Scheduler.step]
    split
    · exact h
    · next g q hq =>
      obtain ⟨htracked, hseen⟩ := h.tracked.startNext hq
      refine ⟨h.newest, h.distinct, htracked, h.bounded, fun g n hn => ?_, h.scanned⟩
      exact (h.reached g n hn).imp_right fun ⟨k, hk, hle⟩ => ⟨k, hseen ▸ hk, hle⟩
  | complete g deferred now =>
    by_cases hg : s.queue.active.has g = true
    · rw [Scheduler.step, if_pos hg]
      obtain ⟨more, hmore⟩ := has_eq_true.mp hg
      have hnot : g ∉ s.queue.queued := fun hq => by cases (h.tracked.apart g hq).symm.trans hmore
      cases deferred with
      | true => exact h.deferred hnot now
      | false => exact h.finished hnot now
    · rw [Scheduler.step, if_neg hg]
      exact h
  | restart =>
    exact ⟨h.newest, h.distinct, .empty, Nat.zero_le _, fun g n hn =>
      .inl (h.newest g n hn).1, trivial⟩

theorem inv_new : Inv .new :=
  ⟨fun _ _ => nofun, fun _ _ _ => nofun, .empty, le_rfl, fun _ _ => nofun, trivial⟩

/-- **No effect of a group is dropped.** After any steps of commits, scans, starts, completions,
deferrals and restarts, the newest effect of a group is covered by a round that was started after
it, or its group is in the queue, or with a worker whose round began after it or that will be
followed up, or it is in front of the cursor. No group is in the queue twice, or in the queue and
with a worker; and the queue and the workers are bounded. -/
theorem no_effect_dropped (steps : List Step) :
    let s := steps.foldl Scheduler.step .new
    (∀ g n, s.journal.newest.get g = some n → Held s.starts s.covered s.queue g n ∨ s.cursor < n) ∧
      s.queue.queued.Nodup ∧ (∀ g ∈ s.queue.queued, s.queue.active.get g = none) ∧
      s.queue.active.rows.length ≤ 2 ∧ s.queue.queued.length ≤ 128 := by
  intro s
  have h : Inv s := List.foldlRecOn steps Scheduler.step inv_new fun _ hs a _ => hs.step a
  refine ⟨fun g n hn => ?_, h.tracked.nodup, h.tracked.apart, h.tracked.workers, h.tracked.room⟩
  rcases h.reached g n hn with hlt | ⟨k, hk, hle⟩
  · exact .inr hlt
  · exact .inl ((h.tracked.seen g k hk).2.mono hle)

end MeshTalk.AccountSync.Fanout
