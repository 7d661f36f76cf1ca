import Mathlib.Algebra.Group.Nat.Defs
import MeshTalk.Event
import MeshTalk.Lib.Run

/-! # Expiry under moving clocks

Whether a message or a file is past its deadline (`node/expiry_policy.rs`), in one process. The wall
clock moves as anyone likes, so two more clocks are asked: the wall clock of the start, carried on
by the monotonic clock, and a timer from the first query that has found the deadline ahead. -/

namespace MeshTalk.Message

open Lib Function

/-- What the clocks show, reading by reading: the wall clock in milliseconds, and the monotonic
clock, a 64-bit number of nanoseconds. -/
structure Clocks where
  wall : ℕ → ℕ
  mono : ℕ → ℕ
  mono_le : Monotone mono
  mono_lt : ∀ t, mono t < 2 ^ 64

structure Expiring where
  deadline : ℕ
  id : EventId
  sentAt : ℕ
deriving DecidableEq

/-- The readings taken so far, the clocks at the start, when events were first seen, and the rows of
the received files that have a deadline. -/
structure Node where
  reads : ℕ
  expiryClockStart : ℕ × ℕ
  expiryFirstSeen : EventId → Option ℕ
  receivedFiles : ConversationId → List Expiring

def Node.start (c : Clocks) (files : ConversationId → List Expiring) : Node :=
  ⟨1, (c.mono 0, c.wall 0), fun _ => none, files⟩

/-- The wall clock of the start carried on by the monotonic clock, in unsigned 64-bit numbers. -/
def Node.anchored (n : Node) (c : Clocks) (t : ℕ) : ℕ :=
  min (n.expiryClockStart.2 + (c.mono t - n.expiryClockStart.1) / 10 ^ 6 % 2 ^ 64) (2 ^ 64 - 1)

def Node.expiryNow (n : Node) (c : Clocks) : ℕ := max (c.wall n.reads) (n.anchored c n.reads)

/-- The intended duration in nanoseconds, thirty days at most. -/
def Expiring.lifetime (q : Expiring) : ℕ :=
    min (q.deadline - q.sentAt) (30 * 24 * 60 * 60 * 1000) * 10 ^ 6

def Node.recipientMetadataExpired (n : Node) (c : Clocks) (q : Expiring) : Bool × Node :=
  if q.deadline ≤ n.expiryNow c then (true, { n with reads := n.reads + 1 })
  else
    let first := (n.expiryFirstSeen q.id).getD (c.mono (n.reads + 1))
    (decide (q.lifetime ≤ c.mono (n.reads + 2) - first),
      { n with
        reads := n.reads + 3
        expiryFirstSeen := Function.update n.expiryFirstSeen q.id (some first) })

/-- The rows of a file in their order, up to the first that has expired. -/
def Node.scanRows (c : Clocks) : Node → List Expiring → Bool × Node
  | n, [] => (false, n)
  | n, q :: rest =>
    match n.recipientMetadataExpired c q with
    | (true, n) => (true, n)
    | (false, n) => scanRows c n rest

def Node.expiredReceivedFile (n : Node) (c : Clocks) (conv : ConversationId) : Bool × Node :=
  Node.scanRows c n (n.receivedFiles conv)

/-- What happens to a node: an event or a file is asked for, rows of files come and go, and cleanup
drops the timer of an event that it has erased. -/
inductive Op
  | message (q : Expiring)
  | file (conv : ConversationId)
  | rows (conv : ConversationId) (rows : List Expiring)
  | erase (id : EventId)

def Node.step (c : Clocks) (n : Node) : Op → Node
  | .message q => (n.recipientMetadataExpired c q).2
  | .file conv => (n.expiredReceivedFile c conv).2
  | .rows conv rows => { n with receivedFiles := Function.update n.receivedFiles conv rows }
  | .erase id => { n with expiryFirstSeen := Function.update n.expiryFirstSeen id none }

abbrev Node.Run (c : Clocks) : Node → Node → Prop := Chain (Node.step c) fun _ _ => True

abbrev Node.RunSparing (c : Clocks) (id : EventId) : Node → Node → Prop :=
  Chain (Node.step c) fun _ op => op ≠ .erase id

/-- The deadline has passed on the anchored clock, or the timer has run out. -/
def Node.Due (n : Node) (c : Clocks) (q : Expiring) : Prop :=
  q.deadline ≤ n.anchored c n.reads ∨
    ∃ first, n.expiryFirstSeen q.id = some first ∧ q.lifetime ≤ c.mono n.reads - first

/-- An event is reported as expired, and so is every file with a row for it. -/
def Node.Reported (n : Node) (c : Clocks) (q : Expiring) : Prop :=
  (n.recipientMetadataExpired c q).1 = true ∧
    ∀ conv, q ∈ n.receivedFiles conv → (n.expiredReceivedFile c conv).1 = true

/-! ### Later nodes -/

/-- A node later on: the readings go on, the start stays, and so do the timers of some events. -/
structure Node.Later (K : EventId → Prop) (n n' : Node) : Prop where
  reads : n.reads ≤ n'.reads
  start : n'.expiryClockStart = n.expiryClockStart
  seen : ∀ id, K id → ∀ first, n.expiryFirstSeen id = some first →
    n'.expiryFirstSeen id = some first

variable {c : Clocks} {n n' m : Node} {q : Expiring} {K : EventId → Prop}

theorem Node.Later.refl (n : Node) : n.Later K n := ⟨le_rfl, rfl, fun _ _ _ h => h⟩

theorem Node.Later.trans (h : n.Later K n') (h' : n'.Later K m) : n.Later K m :=
  ⟨h.reads.trans h'.reads, h'.start.trans h.start,
    fun id hk first hf => h'.seen id hk first (h.seen id hk first hf)⟩

theorem later_query (n : Node) (q) : n.Later K (n.recipientMetadataExpired c q).2 ∧
    n.reads < (n.recipientMetadataExpired c q).2.reads := by
  unfold Node.recipientMetadataExpired
  split_ifs
  · exact ⟨⟨Nat.le_succ _, rfl, fun _ _ _ hf => hf⟩, Nat.lt_succ_self _⟩
  · refine ⟨⟨Nat.le_add_right _ 3, rfl, fun id _ first hf => ?_⟩,
      Nat.lt_add_of_pos_right (by decide)⟩
    by_cases heq : id = q.id
    · subst heq
      dsimp only
      rw [update_self, hf, Option.getD_some]
    · exact (update_of_ne heq _ _).trans hf

theorem scanRows_spec : ∀ (rows : List Expiring) (n : Node), n.Later K (Node.scanRows c n rows).2 ∧
    (((Node.scanRows c n rows).1 = true ∧ ∃ q ∈ rows, ∃ m, n.Later K m ∧
      m.recipientMetadataExpired c q = (true, (Node.scanRows c n rows).2)) ∨
    ((Node.scanRows c n rows).1 = false ∧ ∀ q ∈ rows, ∃ m m', n.Later K m ∧
      m.recipientMetadataExpired c q = (false, m') ∧ m'.Later K (Node.scanRows c n rows).2))
  | [], n => ⟨.refl n, .inr ⟨rfl, nofun⟩⟩
  | q :: rest, n => by
    have hq := (later_query (c := c) (K := K) n q).1
    rw [Node.scanRows]
    match hv : n.recipientMetadataExpired c q with
    | (true, m) =>
      rw [hv] at hq
      exact ⟨hq, .inl ⟨rfl, q, List.mem_cons_self, n, .refl n, hv⟩⟩
    | (false, m) =>
      rw [hv] at hq
      obtain ⟨hl, ⟨ht, q', hmem, k, hk, hrow⟩ | ⟨hf, hall⟩⟩ := scanRows_spec rest m
      · exact ⟨hq.trans hl, .inl ⟨ht, q', List.mem_cons_of_mem _ hmem, k, hq.trans hk, hrow⟩⟩
      · refine ⟨hq.trans hl, .inr ⟨hf, fun q' hmem => ?_⟩⟩
        rcases List.mem_cons.mp hmem with rfl | hmem
        · exact ⟨n, m, .refl n, hv, hl⟩
        · obtain ⟨k, k', hk, hrow⟩ := hall q' hmem
          exact ⟨k, k', hq.trans hk, hrow⟩

/-- **A step** moves a node on and keeps the timers of what it does not erase. -/
theorem later_step (n : Node) (op : Op) : n.Later (fun id => op ≠ .erase id) (n.step c op) := by
  cases op with
  | message q => exact (later_query n q).1
  | file conv => exact (scanRows_spec _ n).1
  | rows conv rows => exact ⟨le_rfl, rfl, fun _ _ _ h => h⟩
  | erase id' =>
    refine ⟨le_rfl, rfl, fun id hne first hf => ?_⟩
    have hid : id ≠ id' := fun h => hne (by rw [h])
    exact (update_of_ne hid _ _).trans hf

theorem later_of_chain {P : Node → Op → Prop} (hP : ∀ m op id, P m op → K id → op ≠ .erase id)
    (h : Chain (Node.step c) P n n') : n.Later K n' :=
  h.inv (fun m op hm hp => hm.trans
    ⟨(later_step m op).reads, (later_step m op).start, fun id hk =>
      (later_step m op).seen id (hP m op id hp hk)⟩)
    (.refl n)

theorem Node.Run.later (h : Node.Run c n n') : n.Later (fun _ => False) n' :=
  later_of_chain (fun _ _ _ _ => nofun) h

theorem Node.RunSparing.later {id} (h : Node.RunSparing c id n n') : n.Later (· = id) n' :=
  later_of_chain (fun _ _ _ hp hk => hk ▸ hp) h

/-! ### What has run out -/

theorem anchored_le (h : n.Later K n') {t t'} (ht : t ≤ t') :
    n.anchored c t ≤ n'.anchored c t' := by
  have hm := c.mono_le ht
  have hlt := c.mono_lt t
  have hlt' := c.mono_lt t'
  unfold Node.anchored
  rw [h.start, Nat.mod_eq_of_lt (by omega), Nat.mod_eq_of_lt (by omega)]
  omega

theorem Node.Due.later (h : n.Due c q) (hl : n.Later (· = q.id) n') : n'.Due c q := by
  rcases h with h | ⟨first, hf, hle⟩
  · exact .inl (h.trans (anchored_le hl hl.reads))
  · have hm := c.mono_le hl.reads
    exact .inr ⟨first, hl.seen _ rfl first hf, by omega⟩

theorem Node.Due.expired (h : n.Due c q) : (n.recipientMetadataExpired c q).1 = true := by
  unfold Node.recipientMetadataExpired
  split_ifs with hd
  · rfl
  · rcases h with h | ⟨first, hf, hle⟩
    · exact absurd (h.trans (le_max_right _ _)) hd
    · have hm : c.mono n.reads ≤ c.mono (n.reads + 2) := c.mono_le (Nat.le_add_right _ 2)
      simp only [hf, Option.getD_some, decide_eq_true_eq]
      omega

/-- **What has run out is reported**, in every file that has a row for it. -/
theorem Node.Due.reported (h : n.Due c q) : n.Reported c q := by
  refine ⟨h.expired, fun conv hrow => ?_⟩
  obtain ⟨-, ⟨ht, -⟩ | ⟨-, hall⟩⟩ :=
    scanRows_spec (c := c) (K := (· = q.id)) (n.receivedFiles conv) n
  · exact ht
  · obtain ⟨m, m', hm, hv, -⟩ := hall q hrow
    have hexp := (h.later hm).expired
    rw [hv] at hexp
    cases hexp

theorem due_of_expired (h : n.recipientMetadataExpired c q = (true, n'))
    (hw : c.wall n.reads < q.deadline) :
    n'.Due c q := by
  unfold Node.recipientMetadataExpired at h
  split_ifs at h with hd
  · cases h
    have hle : q.deadline ≤ n.anchored c n.reads := by
      unfold Node.expiryNow at hd
      omega
    exact .inl (hle.trans (anchored_le (K := fun _ => True) (.refl n) (Nat.le_succ _)))
  · obtain ⟨hv, rfl⟩ := Prod.mk.inj h
    have hm : c.mono (n.reads + 2) ≤ c.mono (n.reads + 3) := c.mono_le (Nat.le_succ _)
    have hlife := of_decide_eq_true hv
    exact .inr ⟨_, update_self .., hlife.trans (Nat.sub_le_sub_right hm _)⟩

/-- A query that finds the deadline ahead leaves a timer running. -/
theorem seen_of_alive (h : n.recipientMetadataExpired c q = (false, n')) :
    ∃ first, n'.expiryFirstSeen q.id = some first := by
  unfold Node.recipientMetadataExpired at h
  split_ifs at h
  · cases (Prod.mk.inj h).1
  · obtain ⟨-, rfl⟩ := Prod.mk.inj h
    exact ⟨_, update_self ..⟩

/-- A message is reported while the wall clock is past its deadline, and so is a file while it stays
there. -/
theorem reported_by_wall (c : Clocks) (n : Node) (q : Expiring) :
    (q.deadline ≤ c.wall n.reads → (n.recipientMetadataExpired c q).1 = true) ∧
    ∀ conv, q ∈ n.receivedFiles conv →
      (∀ t, n.reads ≤ t → t < (n.expiredReceivedFile c conv).2.reads → q.deadline ≤ c.wall t) →
        (n.expiredReceivedFile c conv).1 = true := by
  have hwall (n : Node) (h : q.deadline ≤ c.wall n.reads) :
    (n.recipientMetadataExpired c q).1 = true := by
    unfold Node.recipientMetadataExpired
    have hnow : q.deadline ≤ n.expiryNow c := h.trans (le_max_left _ _)
    rw [if_pos hnow]
  refine ⟨hwall n, fun conv hrow hpast => ?_⟩
  obtain ⟨-, ⟨ht, -⟩ | ⟨-, hall⟩⟩ := scanRows_spec (c := c) (K := fun _ => True)
    (n.receivedFiles conv) n
  · exact ht
  · obtain ⟨m, m', hm, hv, hl⟩ := hall q hrow
    have hlt := (later_query (c := c) (K := fun _ => True) m q).2
    rw [hv] at hlt
    have hexp := hwall m (hpast m.reads hm.reads (hlt.trans_le hl.reads))
    rw [hv] at hexp
    cases hexp

/-- Ten milliseconds pass from reading to reading, and the wall clock is ahead at some of them. -/
def ticking (ahead : ℕ → Bool) : Clocks where
  wall t := if ahead t then 1000 else 0
  mono t := min (t * 10 ^ 7) (2 ^ 63)
  mono_le t u h := by
    have := Nat.mul_le_mul_right (10 ^ 7) h
    dsimp only
    omega
  mono_lt t := (min_le_right _ _).trans_lt (by decide)

/-- Sent forty milliseconds before its deadline. -/
def brief : Expiring := ⟨600, ⟨0⟩, 560⟩

def later : Expiring := ⟨900, ⟨1⟩, 0⟩

def early : Expiring := ⟨30, ⟨2⟩, 0⟩

/-- Its first query finds the brief message; then a file comes to have a row for it, and another is
asked for. -/
def briefOps : List Op := [.rows ⟨5⟩ [later, brief], .message later]

def briefNode : Node :=
  (Node.start (ticking fun _ => false) fun _ => []).step (ticking fun _ => false) (.message brief)

end MeshTalk.Message
