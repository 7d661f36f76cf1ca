import MeshTalk.Personal.Cleanup
import MeshTalk.Lib.Run

/-! # The queue of clean-ups

A conversation is owed a clean-up while its floor is not applied by this device, or while a leave
that asks for a deletion is committed and the deletion is not written. The queue should hold every
conversation that is owed one. An attempt takes its ticket off the queue whatever came of it, so
this needs that an attempt comes to its end: that it finds the membership it waits for, that it has
one leave to see to, and that nothing is said about its conversation while it runs. -/

namespace MeshTalk.Personal

open Lib Channel AccountGroup Store Device List Document Table Option

/-- The leave a choice was made with, whatever was chosen. -/
def Document.choice (d : Document) : Option OperationReference :=
  match d.control.action with
  | .leaveChoice reference _ => some reference
  | _ => none

theorem Document.choice_of_requests {d : Document} {r} (h : d.requests = some r) :
    d.control.action = .leaveChoice r true := by
  unfold requests at h
  split at h
  · next hd =>
    cases h
    exact hd
  · cases h

def Pc.applies : Pc → Bool
  | .applying _ | .drafting _ | .recording _ | .acknowledging _ => true
  | _ => false

namespace Device

variable (own : PublicIdentity)

/-- A leave that asks for a deletion is committed, and the deletion is not written. -/
def LeaveOwed (d : Device) (c : DocumentConversation) (r : OperationReference) : Prop :=
  r ∈ d.store.requestedLeaves c ∧ d.committedPersonalLeave r = true

def Owed (d : Device) (c : DocumentConversation) : Prop :=
  d.store.sourceApplied c own = false ∨ ∃ r, d.LeaveOwed c r

def running (d : Device) (c : DocumentConversation) : Bool :=
  d.attempts.rows.any fun row => row.2.target = c

/-- What is still owed of a conversation where an attempt on it stands. -/
def ReadyAt (d : Device) (c : DocumentConversation) : Pc → Prop
  | .choosing rest =>
    (∀ r ∈ rest, r ∈ d.store.requestedLeaves c ∧ c = .channel r.group) ∧
      (∀ r, d.LeaveOwed c r → r ∈ rest) ∧ ∀ r r', d.LeaveOwed c r → d.LeaveOwed c r' → r = r'
  | .chosen r | .leaving r | .deleting r => c = .channel r.group ∧ ∀ r', d.LeaveOwed c r' → r' = r
  | .flooring => ∀ r, ¬ d.LeaveOwed c r
  | .applying f | .drafting f | .recording f | .acknowledging f =>
    (∀ r, ¬ d.LeaveOwed c r) ∧ d.store.floors.get c = some f
  | .forgetting => ¬ d.Owed own c

/-- An attempt that may take the ticket off the queue has seen to what is owed; one before a live
message only applies the floor. -/
def Ready (d : Device) (a : Attempt) : Prop :=
  if a.live then a.pc.applies = true else d.ReadyAt own a.target a.pc

structure Agree (c : DocumentConversation) (d d' : Device) : Prop where
  requested : ∀ r, r ∈ d'.store.requestedLeaves c ↔ r ∈ d.store.requestedLeaves c
  leaves : ∀ r, d'.LeaveOwed c r ↔ d.LeaveOwed c r
  floor : d'.store.floors.get c = d.store.floors.get c
  applied : d'.store.sourceApplied c own = d.store.sourceApplied c own

variable {own} {d d' : Device} {c : DocumentConversation} {n : ℕ} {a : Attempt}

theorem Agree.owed (h : Agree own c d d') : d'.Owed own c ↔ d.Owed own c :=
  or_congr (by rw [h.applied]) (exists_congr h.leaves)

variable {pc : Pc} {x : Document}

theorem Agree.readyAt (h : Agree own c d d') (hr : d.ReadyAt own c pc) : d'.ReadyAt own c pc := by
  cases pc with
  | choosing rest =>
    obtain ⟨h1, h2, h3⟩ := hr
    exact ⟨fun r hr => ⟨(h.requested r).mpr (h1 r hr).1, (h1 r hr).2⟩,
      fun r hr => h2 r ((h.leaves r).mp hr),
      fun r r' hr hr' => h3 r r' ((h.leaves r).mp hr) ((h.leaves r').mp hr')⟩
  | chosen r | leaving r | deleting r => exact ⟨hr.1, fun r' hr' => hr.2 r' ((h.leaves r').mp hr')⟩
  | flooring => exact fun r hr' => hr r ((h.leaves r).mp hr')
  | applying f | drafting f | recording f | acknowledging f =>
    exact ⟨fun r hr' => hr.1 r ((h.leaves r).mp hr'), h.floor.trans hr.2⟩
  | forgetting => exact fun ho => hr (h.owed.mp ho)

theorem Agree.ready (h : Agree own a.target d d') (hr : d.Ready own a) : d'.Ready own a := by
  unfold Ready at hr ⊢
  split
  · rwa [if_pos ‹_›] at hr
  · rw [if_neg ‹_›] at hr
    exact h.readyAt hr

theorem ready_mk (hl : a.live = false) (h : d.ReadyAt own a.target pc) :
    d.Ready own { a with pc := pc } := by
  unfold Ready
  rw [if_neg (by rw [hl]; decide)]
  exact h

theorem ready_applies (hp : pc.applies = true)
    (h : a.live = false → d.ReadyAt own a.target pc) : d.Ready own { a with pc := pc } := by
  unfold Ready
  split
  · exact hp
  · next hl => exact h (by simpa using hl)

theorem Ready.at_pc (h : d.Ready own a) (hl : a.live = false) : d.ReadyAt own a.target a.pc := by
  unfold Ready at h
  rwa [if_neg (by rw [hl]; decide)] at h

theorem agree_of_eq (hp : d'.store.personal = d.store.personal)
    (hf : d'.store.floors = d.store.floors) (ha : d'.store.applied = d.store.applied)
    (hj : d'.journal = d.journal) (c) : Agree own c d d' := by
  have hr : d'.store.requestedLeaves c = d.store.requestedLeaves c := by
    unfold requestedLeaves
    rw [hp]
  refine ⟨fun r => by rw [hr], fun r => ?_, by rw [hf], ?_⟩
  · unfold LeaveOwed committedPersonalLeave
    rw [hr, hj]
  · unfold sourceApplied
    rw [hf, ha]

theorem agree_index (hs : d'.store = d.store.indexPersonalControl x)
    (hj : d'.journal = d.journal) (hc : x.conversation ≠ c) : Agree own c d d' := by
  have hr : d'.store.requestedLeaves c = d.store.requestedLeaves c := by
    unfold requestedLeaves
    rw [hs, personal_index, filter_append]
    have : ([x].filter fun d => d.conversation = c) = [] := by simp [hc]
    rw [this, append_nil]
  have hf : d'.store.floors.get c = d.store.floors.get c := by
    rw [hs]
    exact get_raise_of_ne hc
  refine ⟨fun r => by rw [hr], fun r => ?_, hf, ?_⟩
  · unfold LeaveOwed committedPersonalLeave
    rw [hr, hj]
  · unfold sourceApplied
    rw [hf]
    congr 1
    funext f
    rw [Bool.eq_iff_iff, contains_iff_mem, contains_iff_mem, hs, mem_applied_index]
    refine ⟨fun h => h.resolve_left fun hx => hc ?_, Or.inr⟩
    exact (conversation_of_acknowledges hx).symm

/-! ### The invariant -/

/-- The queue holds what is owed, and no two attempts are on one conversation. -/
structure Inv (own : PublicIdentity) (d : Device) : Prop where
  indexed : d.store.Indexed
  valid : ∀ x ∈ d.store.personal, x.control.valid = true
  choices : ∀ x ∈ d.store.personal, ∀ y ∈ d.store.personal, ∀ r r', x.choice = some r →
    y.choice = some r' → r.id = r'.id → x = y
  queued : ∀ c, d.Owed own c → c ∈ d.store.pending
  apart : ∀ n m a b, d.attempts.get n = some a → d.attempts.get m = some b →
    a.target = b.target → n = m
  ready : ∀ n a, d.attempts.get n = some a → d.Ready own a

/-- The attempts of a step are those of before, of whose conversations it says the same, and at most
one that is ready. -/
theorem Inv.of_step (h : Inv own d) (hi : d'.store.Indexed)
    (hv : ∀ x ∈ d'.store.personal, x.control.valid = true)
    (hch : ∀ x ∈ d'.store.personal, ∀ y ∈ d'.store.personal, ∀ r r', x.choice = some r →
      y.choice = some r' → r.id = r'.id → x = y)
    (hq : ∀ c, d'.Owed own c → c ∈ d'.store.pending)
    (hatt : ∀ m b, d'.attempts.get m = some b → d.attempts.get m = some b ∧
      Agree own b.target d d' ∨
      m = n ∧ d'.Ready own b ∧ ∀ k b', k ≠ n → d'.attempts.get k = some b' → b'.target ≠ b.target) :
    Inv own d' where
  indexed := hi
  valid := hv
  choices := hch
  queued := hq
  apart := by
    intro m k b b' hb hb' ht
    rcases hatt m b hb with ⟨hm, -⟩ | ⟨rfl, -, hm⟩
    · rcases hatt k b' hb' with ⟨hk, -⟩ | ⟨rfl, -, hk⟩
      · exact h.apart m k b b' hm hk ht
      · by_contra hne
        exact hk m b hne hb ht
    · by_contra hne
      exact hm k b' (Ne.symm hne) hb' ht.symm
  ready := by
    intro m b hb
    rcases hatt m b hb with ⟨hm, hagree⟩ | ⟨-, hr, -⟩
    · exact hagree.ready (h.ready m b hm)
    · exact hr

/-- What does not touch the store and the journal, and lets every attempt be or ends it. -/
theorem Inv.of_frame (h : Inv own d) (hp : d'.store.personal = d.store.personal)
    (hf : d'.store.floors = d.store.floors) (ha : d'.store.applied = d.store.applied)
    (hj : d'.journal = d.journal) (hq : ∀ c, c ∈ d.store.pending → c ∈ d'.store.pending)
    (hother : ∀ m b, d'.attempts.get m = some b → d.attempts.get m = some b) : Inv own d' where
  indexed := h.indexed.congr hp hf ha
  valid := hp ▸ h.valid
  choices := hp ▸ h.choices
  queued := fun c hc => hq c (h.queued c ((agree_of_eq hp hf ha hj c).owed.mp hc))
  apart := fun n m a b hn hm => h.apart n m a b (hother n a hn) (hother m b hm)
  ready := fun n a hn => (agree_of_eq hp hf ha hj a.target).ready (h.ready n a (hother n a hn))

theorem Inv.drop (h : Inv own d) (n) : Inv own (d.drop n) :=
  h.of_frame rfl rfl rfl rfl (fun _ => id) fun _ _ hb => get_of_get_erase hb

/-- An attempt moves on, over a step that touches neither store nor journal. -/
theorem Inv.goto (h : Inv own d) (ha : d.attempts.get n = some a)
    (hs : d'.store = d.store) (hj : d'.journal = d.journal) (hatt : d'.attempts = d.attempts)
    (hr : d.Ready own { a with pc := pc }) : Inv own (d'.goto n a pc) := by
  have hstore : (d'.goto n a pc).store = d.store := hs
  have hjournal : (d'.goto n a pc).journal = d.journal := hj
  have hagree (c : DocumentConversation) : Agree own c d (d'.goto n a pc) :=
    agree_of_eq (congrArg personal hstore) (congrArg floors hstore)
      (congrArg applied hstore) hjournal c
  have hget (m : ℕ) : (d'.goto n a pc).attempts.get m =
      if m = n then some { a with pc := pc } else d.attempts.get m := by
    rw [← hatt]
    exact get_set _ _ _ _
  refine h.of_step (n := n) (hstore ▸ h.indexed) (hstore ▸ h.valid) (hstore ▸ h.choices) ?_ ?_
  · intro c hc
    rw [hstore]
    exact h.queued c ((hagree c).owed.mp hc)
  · intro m b hb
    rw [hget] at hb
    split at hb
    · next hm =>
      cases hb
      refine .inr ⟨hm, (hagree _).ready hr, fun k b' hk hb' ht => hk ?_⟩
      rw [hget, if_neg hk] at hb'
      exact h.apart k n b' a hb' ha ht
    · exact .inl ⟨hb, hagree _⟩

/-- A document is new to a store, and no other choice is for its operation. -/
def Fresh (d : Device) (x : Document) : Prop :=
  x.control.valid = true ∧ ∀ y ∈ d.store.personal, ∀ r r', x.choice = some r → y.choice = some r' →
    r.id ≠ r'.id

/-- A document is taken on, at most one attempt being on its conversation. -/
theorem Inv.index (h : Inv own d) (hx : d.Fresh x)
    (hs : d'.store = d.store.indexPersonalControl x) (hj : d'.journal = d.journal)
    (hatt : ∀ m b, d'.attempts.get m = some b → d.attempts.get m = some b ∧
      b.target ≠ x.conversation ∨
        m = n ∧ d'.Ready own b ∧ b.target = x.conversation) : Inv own d' := by
  have hmem (y : Document) : y ∈ d'.store.personal ↔ y ∈ d.store.personal ∨ y = x := by
    rw [hs, personal_index, mem_append, mem_singleton]
  refine h.of_step (n := n) (hs ▸ h.indexed.index x) ?_ ?_ ?_ ?_
  · intro y hy
    rcases (hmem y).mp hy with hy | rfl
    · exact h.valid y hy
    · exact hx.1
  · intro y hy z hz r r' hr hr' hid
    rcases (hmem y).mp hy with hy | rfl
    · rcases (hmem z).mp hz with hz | rfl
      · exact h.choices y hy z hz r r' hr hr' hid
      · exact absurd hid.symm (hx.2 y hy r' r hr' hr)
    · rcases (hmem z).mp hz with hz | rfl
      · exact absurd hid (hx.2 z hz r r' hr hr')
      · rfl
  · intro c hc
    rw [hs, mem_pending_index]
    by_cases hcx : x.conversation = c
    · exact .inl hcx.symm
    · exact .inr (h.queued c ((agree_index hs hj hcx).owed.mp hc))
  · intro m b hb
    rcases hatt m b hb with ⟨hm, ht⟩ | ⟨hm, hr, ht⟩
    · exact .inl ⟨hm, agree_index hs hj (Ne.symm ht)⟩
    · refine .inr ⟨hm, hr, fun k b' hk hb' => ?_⟩
      rcases hatt k b' hb' with ⟨-, ht'⟩ | ⟨rfl, -⟩
      · exact ht ▸ ht'
      · exact absurd rfl hk

theorem not_running (h : d.running c = false) {m b} (hb : d.attempts.get m = some b) :
    b.target ≠ c := by
  intro ht
  rw [running, List.any_eq_false] at h
  exact absurd ht (by simpa using h (m, b) (get_eq_some.mp hb))

/-! ### Commands, documents and the journal -/

variable [Sha256] [ContentHash]

/-- A command writes its control while no attempt is on the conversation. -/
theorem Inv.command (h : Inv own d) {id action saved} (hrun : d.running c = false)
    (hnew : ∀ r, (d.store.newDocument own c id action).choice = some r →
      d.store.find (c, id) = none →
      ∀ y ∈ d.store.personal, ∀ r', y.choice = some r' → r.id ≠ r'.id) :
    Inv own (d.command own c id action saved) := by
  unfold Device.command
  split
  · next store hw =>
    rcases writePersonal_ok hw with ⟨rfl, -⟩ | ⟨rfl, hfind, hvalid⟩
    · exact h
    · unfold Document.valid at hvalid
      rw [Bool.and_eq_true] at hvalid
      exact h.index (n := 0) ⟨hvalid.2, fun y hy r r' hr => hnew r hr hfind y hy r'⟩ rfl rfl
        fun m b hb => .inl ⟨hb, not_running hrun hb⟩
  · exact h

omit [ContentHash] in
theorem Inv.merge (h : Inv own d) {saved store} (hrun : d.running x.conversation = false)
    (hx : ∀ y ∈ d.store.personal, ∀ r r', x.choice = some r → y.choice = some r' →
      r.id = r'.id → y = x)
    (hm : d.store.merge x saved = .ok store) : Inv own (d.withStore store) := by
  obtain ⟨hvalid, ⟨rfl, -⟩ | ⟨rfl, hfind⟩⟩ := merge_ok hm
  · exact h
  · unfold Document.valid at hvalid
    rw [Bool.and_eq_true] at hvalid
    refine h.index (n := 0) ⟨hvalid.2, fun y hy r r' hr hr' hid => ?_⟩ rfl rfl
      fun m b hb => .inl ⟨hb, not_running hrun hb⟩
    have hmem := key_of_mem hy
    rw [hx y hy r r' hr hr' hid, hfind] at hmem
    cases hmem

section
omit [Sha256] [ContentHash]

variable {phase : Phase} {r : OperationReference} {x : Document}

theorem committed_journalPut {r reference}
    (h : (d.journalPut reference phase).committedPersonalLeave r = true) :
    d.committedPersonalLeave r = true ∨ r = reference ∧ phase = .committed := by
  unfold journalPut at h
  split at h
  · exact .inl h
  · unfold committedPersonalLeave at h ⊢
    rw [get_set] at h
    split at h
    · rw [any_some, Bool.and_eq_true, decide_eq_true_eq, decide_eq_true_eq] at h
      exact .inr ⟨h.1.symm, h.2⟩
    · exact .inl h

theorem committed_of_journalPut {r reference} (h : d.committedPersonalLeave r = true) :
    (d.journalPut reference phase).committedPersonalLeave r = true := by
  unfold journalPut
  split
  · exact h
  · next hn =>
    unfold committedPersonalLeave at h ⊢
    rw [get_set]
    split
    · next hid =>
      rw [hid] at h
      refine absurd ?_ hn
      cases he : d.journal.get reference.id with
      | none => simp [he] at h
      | some entry =>
        rw [he, any_some, Bool.and_eq_true] at h
        exact h.2
    · exact h

section

variable (h : Inv own d)
include h

/-- The journal moves on; a leave that is to be followed by a deletion commits only while its
conversation is queued and no attempt is on it. -/
theorem Inv.journalPut {reference}
    (hc : phase = .committed → d.committedPersonalLeave reference = false → ∀ x ∈ d.store.personal,
      reference ∈ d.store.requestedLeaves x.conversation →
        x.conversation ∈ d.store.pending ∧ d.running x.conversation = false) :
    Inv own (d.journalPut reference phase) := by
  have hstore : (d.journalPut reference phase).store = d.store := by
    unfold Device.journalPut
    split <;> rfl
  have hattempts : (d.journalPut reference phase).attempts = d.attempts := by
    unfold Device.journalPut
    split <;> rfl
  have hnew {c : DocumentConversation} {r : OperationReference}
      (hr : (d.journalPut reference phase).LeaveOwed c r) :
      d.LeaveOwed c r ∨ c ∈ d.store.pending ∧ d.running c = false := by
    obtain ⟨hreq, hcom⟩ := hr
    rw [hstore] at hreq
    rcases Bool.eq_false_or_eq_true (d.committedPersonalLeave r) with hold | hold
    · exact .inl ⟨hreq, hold⟩
    rcases committed_journalPut hcom with h' | ⟨rfl, hp⟩
    · exact .inl ⟨hreq, h'⟩
    · obtain ⟨⟨x, hx, rfl, -⟩, -⟩ := mem_requestedLeaves.mp hreq
      exact .inr (hc hp hold x hx hreq)
  refine h.of_step (n := 0) (hstore ▸ h.indexed) (hstore ▸ h.valid) (hstore ▸ h.choices) ?_ ?_
  · rintro c (hf | ⟨r, hr⟩)
    · rw [hstore] at hf ⊢
      exact h.queued c (.inl hf)
    · rw [hstore]
      rcases hnew hr with hr | ⟨hp, -⟩
      · exact h.queued c (.inr ⟨r, hr⟩)
      · exact hp
  · intro m b hb
    rw [hattempts] at hb
    refine .inl ⟨hb, fun r => by rw [hstore], fun r => ⟨fun hr => ?_, fun hr => ?_⟩,
      by rw [hstore], by rw [hstore]⟩
    · rcases hnew hr with hr | ⟨-, hrun⟩
      · exact hr
      · exact absurd rfl (not_running hrun hb)
    · exact ⟨hstore ▸ hr.1, committed_of_journalPut hr.2⟩

theorem Inv.channel_of_requested (hr : r ∈ d.store.requestedLeaves c) : c = .channel r.group := by
  obtain ⟨⟨x, hx, rfl, hreq⟩, -⟩ := mem_requestedLeaves.mp hr
  have hv := h.valid x hx
  unfold PersonalControl.valid at hv
  rw [choice_of_requests hreq] at hv
  rw [Bool.and_eq_true, decide_eq_true_eq] at hv
  exact hv.2

theorem Inv.start {live} (hrun : d.running c = false)
    (hone : ∀ r r', d.LeaveOwed c r → d.LeaveOwed c r' → r = r') : Inv own (d.start n c live) := by
  have henter (pc : Pc) (hr : d.Ready own ⟨c, live, pc⟩) :
      Inv own { d with attempts := d.attempts.set n ⟨c, live, pc⟩ } := by
    have hagree (c' : DocumentConversation) :
        Agree own c' d { d with attempts := d.attempts.set n ⟨c, live, pc⟩ } := by
      apply agree_of_eq <;> rfl
    refine h.of_step (n := n) h.indexed h.valid h.choices
      (fun c' hc' => h.queued c' ((hagree c').owed.mp hc')) fun m b hb => ?_
    rw [get_set] at hb
    split at hb
    · next hm =>
      cases hb
      refine .inr ⟨hm, (hagree _).ready hr, fun k b' hk hb' => ?_⟩
      rw [get_set, if_neg hk] at hb'
      exact not_running hrun hb'
    · exact .inl ⟨hb, hagree _⟩
  unfold Device.start
  split
  · exact h
  split
  · next hlive =>
    split
    · exact h
    · next floor _ =>
      subst hlive
      exact henter (.applying floor) rfl
  · next hlive =>
    rw [Bool.not_eq_true] at hlive
    subst hlive
    have hat : d.ReadyAt own c (.choosing (d.store.requestedLeaves c)) :=
      ⟨fun r hr => ⟨hr, h.channel_of_requested hr⟩, fun r hr => hr.1, hone⟩
    exact henter _ (ready_mk (a := ⟨c, false, .flooring⟩) rfl hat)

/-! ### One step of an attempt -/

theorem Inv.choice_unique {x y} (hx : x ∈ d.store.personal)
    (hreq : x.requests = some r) (hy : y ∈ d.store.personal) {r' : OperationReference} {chosen}
    (hc : y.control.action = .leaveChoice r' chosen) (hid : r'.id = r.id) :
    r' = r ∧ chosen = true := by
  have hax := Document.choice_of_requests hreq
  have hxy : y = x := by
    refine h.choices y hy x hx r' r ?_ ?_ hid
    · rw [Document.choice, hc]
    · rw [Document.choice, hax]
  rw [hxy, hax] at hc
  cases hc
  exact ⟨rfl, rfl⟩

theorem Inv.not_complete (hr : r ∈ d.store.requestedLeaves (.channel r.group)) :
    d.store.leaveCleanupComplete own r.id ≠ some true := by
  obtain ⟨⟨x, hx, -, hreq⟩, hno⟩ := mem_requestedLeaves.mp hr
  intro hcomplete
  obtain ⟨requested, hcl, hval⟩ := map_eq_some_iff.mp hcomplete
  -- the choice that is found is the one that asks for the deletion
  obtain ⟨y, hy, hfy⟩ := exists_of_findSome?_eq_some hcl
  have htrue : requested = true := by
    split at hfy
    · next r' chosen hc =>
      split at hfy
      · next hid =>
        cases hfy
        exact (h.choice_unique hx hreq hy hc hid).2
      · cases hfy
    · cases hfy
  rw [htrue, Bool.not_true, Bool.false_or] at hval
  obtain ⟨r', hfound, hany⟩ := (any_eq_true _ _).mp hval
  obtain ⟨z, hz, hfz⟩ := exists_of_findSome?_eq_some hfound
  have hr' : r' = r := by
    split at hfz
    · next hc =>
      split at hfz
      · next hid =>
        cases hfz
        exact (h.choice_unique hx hreq hz hc hid).1
      · cases hfz
    · cases hfz
  subst hr'
  obtain ⟨w, hw, hcond⟩ := any_eq_true.mp hany
  simp only [Bool.and_eq_true, decide_eq_true_eq] at hcond
  exact hno w hw hcond.1.1.1 hcond.1.1.2

end

theorem requestedLeaves_index (hx : x.requests = none)
    (h : r ∈ (d.store.indexPersonalControl x).requestedLeaves c) :
      r ∈ d.store.requestedLeaves c := by
  obtain ⟨⟨y, hy, hc, hreq⟩, hno⟩ := mem_requestedLeaves.mp h
  rw [personal_index, mem_append, mem_singleton] at hy
  rcases hy with hy | rfl
  · refine mem_requestedLeaves.mpr ⟨⟨y, hy, hc, hreq⟩, fun z hz => hno z ?_⟩
    exact mem_append_left _ hz
  · rw [hx] at hreq
    cases hreq

theorem Inv.wrote (h : Inv own d) (ha : d.attempts.get n = some a) (hx : d.Fresh x)
    (hc : x.conversation = a.target) {pc}
    (hr : (d.withStore (d.store.indexPersonalControl x)).Ready own { a with pc := pc }) :
    Inv own ((d.withStore (d.store.indexPersonalControl x)).goto n a pc) := by
  have hready : ((d.withStore (d.store.indexPersonalControl x)).goto n a pc).Ready own
      { a with pc := pc } := by
    refine Agree.ready ?_ hr
    apply agree_of_eq <;> rfl
  refine h.index (n := n) hx rfl rfl fun m b hb => ?_
  have hget : ((d.withStore (d.store.indexPersonalControl x)).goto n a pc).attempts.get m =
      if m = n then some { a with pc := pc } else d.attempts.get m := get_set _ _ _ _
  rw [hget] at hb
  split at hb
  · next hm =>
    cases hb
    exact .inr ⟨hm, hready, hc.symm⟩
  · next hm =>
    exact .inl ⟨hb, fun ht => hm (h.apart m n b a hb ha (ht.trans hc))⟩

theorem Inv.wrote_drop (h : Inv own d) (ha : d.attempts.get n = some a)
    (hx : d.Fresh x) (hc : x.conversation = a.target) :
    Inv own ((d.withStore (d.store.indexPersonalControl x)).drop n) := by
  refine h.index (n := n) hx rfl rfl fun m b hb => ?_
  have hb' : (d.attempts.erase n).get m = some b := hb
  rw [get_erase] at hb'
  split at hb'
  · cases hb'
  · next hm => exact .inl ⟨hb', fun ht => hm (h.apart m n b a hb' ha (ht.trans hc))⟩

end

/-- The membership an attempt waits for is there: a leave it sees to has closed the membership it
was for, and a floor it is to apply can be applied. -/
def Comes [EventGraph] (own : PublicIdentity) (d : Device) (a : Attempt) : Prop :=
  match a.pc with
  | .leaving r =>
    match d.access r.group with
    | .ok access => (access.role = .left && access.sources.any fun s =>
        s.lifetime = r.executor.lifetime) = true
    | .error _ => True
  | .applying f => d.store.sourceApplied a.target own = true ∨ (d.eraseScope f).toOption ≠ some none
  | _ => True

omit [Sha256] [ContentHash] in
theorem Inv.settle (h : Inv own d) (ha : d.attempts.get n = some a) (hs : d'.store = d.store)
    (hj : d'.journal = d.journal) (hatt : d'.attempts = d.attempts)
    (hr : a.live = false → ¬ d.Owed own a.target) : Inv own (d'.settle n a) := by
  unfold Device.settle
  split
  · refine (h.drop n).of_frame (congrArg personal hs) (congrArg floors hs)
      (congrArg applied hs) hj (fun c hc => hs ▸ hc) fun m b hb => ?_
    have hb' : (d'.attempts.erase n).get m = some b := hb
    rw [hatt] at hb'
    exact hb'
  · next hl =>
    rw [Bool.not_eq_true] at hl
    exact h.goto ha hs hj hatt (ready_mk hl (hr hl))

omit [Sha256] [ContentHash] in
theorem not_owed_of_applied (hl : ∀ r, ¬ d.LeaveOwed c r)
    (hf : d.store.sourceApplied c own = true) :
    ¬ d.Owed own c := by
  rintro (h | ⟨r, hr⟩)
  · rw [hf] at h
    cases h
  · exact hl r hr

theorem Inv.deleting (h : Inv own d) (ha : d.attempts.get n = some a) (hl : a.live = false) {r}
    (hc : a.target = .channel r.group) (hone : ∀ r', d.LeaveOwed a.target r' → r' = r)
      {closed saved} :
    Inv own (d.write own (.channel r.group) (.leaveDelete r.id)
      (.delete true closed (some r.id)) saved
      (fun d => d.goto n a .flooring) n) := by
  unfold write
  split
  · next store hw =>
    rcases writePersonal_ok hw with ⟨rfl, old, hold, hconv, haction⟩ | ⟨rfl, -, hvalid⟩
    · refine h.goto ha rfl rfl rfl (ready_mk hl fun r' hr' => ?_)
      have hr := hone r' hr'
      subst hr
      refine (mem_requestedLeaves.mp hr'.1).2 old hold (hconv.trans hc.symm) ?_
      rw [Document.leave, haction]
    · unfold Document.valid at hvalid
      rw [Bool.and_eq_true] at hvalid
      refine h.wrote ha ⟨hvalid.2, fun y _ r₁ r₂ h₁ => by cases h₁⟩ hc.symm (ready_mk hl ?_)
      rintro r' ⟨hreq, hcom⟩
      have hr := hone r' ⟨requestedLeaves_index rfl hreq, hcom⟩
      subst hr
      refine (mem_requestedLeaves.mp hreq).2 _
        (List.mem_append_right _ List.mem_cons_self) hc.symm rfl
  · exact h.drop n

theorem Inv.acknowledging (h : Inv own d) (ha : d.attempts.get n = some a) {f}
    (hf : a.live = false → (∀ r, ¬ d.LeaveOwed a.target r) ∧ d.store.floors.get a.target = some f)
    {saved} :
    Inv own (d.write own a.target (.applied f.version own) (.applied f.version own) saved
      (fun d => d.settle n a) n) := by
  unfold Device.write
  split
  · next store hw =>
    rcases writePersonal_ok hw with ⟨rfl, old, hold, hconv, haction⟩ | ⟨rfl, -, hvalid⟩
    · refine h.settle ha rfl rfl rfl fun hl => ?_
      obtain ⟨hleave, hfloor⟩ := hf hl
      refine not_owed_of_applied hleave ?_
      have hack : old.acknowledges = some ⟨a.target, f.version, own⟩ := by
        rw [Document.acknowledges, haction, ← hconv]
      rw [sourceApplied, hfloor, Option.all_some, List.contains_iff_mem]
      exact (h.indexed.applied_iff _).mpr ⟨old, hold, hack⟩
    · unfold Document.valid at hvalid
      rw [Bool.and_eq_true] at hvalid
      have hfresh : d.Fresh (d.store.newDocument own a.target (.applied f.version own)
          (.applied f.version own)) := ⟨hvalid.2, fun y _ r₁ r₂ h₁ => by cases h₁⟩
      unfold Device.settle
      split
      · exact h.wrote_drop ha hfresh rfl
      · next hl =>
        rw [Bool.not_eq_true] at hl
        obtain ⟨hleave, hfloor⟩ := hf hl
        refine h.wrote ha hfresh rfl (ready_mk hl (not_owed_of_applied ?_ ?_))
        · rintro r ⟨hreq, hcom⟩
          exact hleave r ⟨requestedLeaves_index rfl hreq, hcom⟩
        · have hsame : (d.store.indexPersonalControl (d.store.newDocument own a.target
              (.applied f.version own) (.applied f.version own))).floors = d.store.floors := rfl
          rw [sourceApplied]
          show (Option.all _ ((d.store.indexPersonalControl _).floors.get a.target)) = true
          rw [hsame, hfloor, Option.all_some, List.contains_iff_mem]
          exact mem_applied_index.mpr (.inl rfl)
  · exact h.drop n

variable [EventGraph]

/-- **One step of an attempt** that finds the membership it waits for. -/
theorem Inv.advance (h : Inv own d) (ha : d.attempts.get n = some a) (hm : Comes own d a) (io) :
    Inv own (d.advance own n a io) := by
  have hready := h.ready n a ha
  have hlive (hl : a.live = true) : a.pc.applies = true := by
    unfold Ready at hready
    rwa [if_pos hl] at hready
  have hat (hl : a.live = false) := hready.at_pc hl
  have hlf (hp : a.pc.applies = false) : a.live = false := by
    cases hl : a.live with
    | false => rfl
    | true =>
      rw [hlive hl] at hp
      cases hp
  unfold Device.advance
  cases hpc : a.pc with
  | choosing rest =>
    have hl := hlf (by rw [hpc]; rfl)
    obtain ⟨h1, h2, h3⟩ : d.ReadyAt own a.target (.choosing rest) := hpc ▸ hat hl
    cases rest with
    | nil => exact h.goto ha rfl rfl rfl (ready_mk hl fun r hr => absurd (h2 r hr) not_mem_nil)
    | cons r rest =>
      have hr := h1 r mem_cons_self
      dsimp only
      split
      · next hcom =>
        exact h.goto ha rfl rfl rfl (ready_mk hl ⟨hr.2, fun r' hr' => h3 r' r hr' ⟨hr.1, hcom⟩⟩)
      · next hcom =>
        refine h.goto ha rfl rfl rfl (ready_mk hl ⟨fun r' hr' => h1 r' (mem_cons_of_mem _ hr'),
          fun r' hr' => ?_, h3⟩)
        rcases mem_cons.mp (h2 r' hr') with rfl | hmem
        · exact absurd hr'.2 hcom
        · exact hmem
  | chosen r =>
    have hl := hlf (by rw [hpc]; rfl)
    obtain ⟨hc, hone⟩ : d.ReadyAt own a.target (.chosen r) := hpc ▸ hat hl
    dsimp only
    split
    · next hcomplete =>
      refine h.goto ha rfl rfl rfl (ready_mk hl fun r' hr' => ?_)
      have hr := hone r' hr'
      subst hr
      exact h.not_complete (hc ▸ hr'.1) hcomplete
    · split
      · exact h.goto ha rfl rfl rfl (ready_mk hl ⟨hc, hone⟩)
      · next hcom =>
        refine h.goto ha rfl rfl rfl (ready_mk hl fun r' hr' => ?_)
        rw [hone r' hr'] at hr'
        exact hcom hr'.2
  | leaving r =>
    have hl := hlf (by rw [hpc]; rfl)
    have hone : d.ReadyAt own a.target (.leaving r) := hpc ▸ hat hl
    unfold Comes at hm
    rw [hpc] at hm
    dsimp only at hm ⊢
    split
    · exact h.drop n
    · next access hacc =>
      rw [hacc] at hm
      rw [if_pos hm]
      exact h.goto ha rfl rfl rfl (ready_mk hl hone)
  | deleting r =>
    have hl := hlf (by rw [hpc]; rfl)
    obtain ⟨hc, hone⟩ : d.ReadyAt own a.target (.deleting r) := hpc ▸ hat hl
    dsimp only
    split
    · exact h.drop n
    · split
      · exact h.deleting ha hl hc hone
      · exact h.drop n
  | flooring =>
    have hl := hlf (by rw [hpc]; rfl)
    have hno : d.ReadyAt own a.target .flooring := hpc ▸ hat hl
    dsimp only
    split
    · next hf =>
      refine h.goto ha rfl rfl rfl (ready_mk hl (not_owed_of_applied hno ?_))
      rw [sourceApplied, hf]
      rfl
    · next f hf => exact h.goto ha rfl rfl rfl (ready_mk hl ⟨hno, hf⟩)
  | applying f =>
    have hno (hl : a.live = false) : d.ReadyAt own a.target (.applying f) := hpc ▸ hat hl
    unfold Comes at hm
    rw [hpc] at hm
    dsimp only at hm ⊢
    split
    · exact h.drop n
    split
    · next happ => exact h.settle ha rfl rfl rfl fun hl => not_owed_of_applied (hno hl).1 happ
    · next happ =>
      split
      · exact h.drop n
      · next hscope =>
        rw [hscope] at hm
        exact absurd rfl (hm.resolve_left happ)
      · split
        · exact h.goto ha rfl rfl rfl (ready_applies rfl hno)
        · exact (h.drop n).of_frame rfl rfl rfl rfl (fun _ => id) fun _ _ => id
  | drafting f =>
    have hno (hl : a.live = false) : d.ReadyAt own a.target (.drafting f) := hpc ▸ hat hl
    dsimp only
    split
    · exact h.goto ha rfl rfl rfl (ready_applies rfl hno)
    · exact h.drop n
  | recording f =>
    have hno (hl : a.live = false) : d.ReadyAt own a.target (.recording f) := hpc ▸ hat hl
    dsimp only
    split
    · exact h.goto ha rfl rfl rfl (ready_applies rfl hno)
    · exact h.drop n
  | acknowledging f =>
    have hno (hl : a.live = false) : d.ReadyAt own a.target (.acknowledging f) := hpc ▸ hat hl
    exact h.acknowledging ha hno
  | forgetting =>
    have hl := hlf (by rw [hpc]; rfl)
    have hdone : d.ReadyAt own a.target .forgetting := hpc ▸ hat hl
    refine ⟨h.indexed.congr rfl rfl rfl, h.valid, h.choices, fun c hc => ?_, ?_, ?_⟩
    · have hold : d.Owed own c := (agree_of_eq rfl rfl rfl rfl c).owed.mp hc
      refine mem_filter.mpr ⟨h.queued c hold, ?_⟩
      rw [decide_eq_true_eq]
      rintro rfl
      exact hdone hold
    · exact (h.drop n).apart
    · intro m b hb
      refine Agree.ready ?_ (h.ready m b (get_of_get_erase hb))
      apply agree_of_eq <;> rfl

/-! ### Runs -/

/-- The condition on a step. Controls of a conversation are written and merged while no attempt is
on it, and an operation id is that of one leave. A leave that asks for a deletion commits while its
conversation is queued and no attempt is on it. An attempt begins where none is and no two such
leaves wait, and it finds the membership it waits for. -/
def Meets (own : PublicIdentity) (d : Device) : Action → Prop
  | .merge x _ => d.running x.conversation = false ∧ ∀ y ∈ d.store.personal,
      (x.choice.any fun r => y.choice.any fun r' => r.id = r'.id) = true → y = x
  | .chooseLeave r _ _ => d.running (.channel r.group) = false ∧ ∀ y ∈ d.store.personal,
      (y.choice.any fun r' => r.id = r'.id) = true → y.key = (.channel r.group, .operation r.id)
  | .deleteLeftGroup group _ _ => d.running (.channel group) = false
  | .deleteAccountContact peer _ _ _ => d.running (.account peer) = false
  | .reopen peer _ _ => d.running (.account peer) = false
  | .journal r phase => phase = .committed → d.committedPersonalLeave r = false →
      ∀ x ∈ d.store.personal, r ∈ d.store.requestedLeaves x.conversation →
        x.conversation ∈ d.store.pending ∧ d.running x.conversation = false
  | .start _ target _ => d.running target = false ∧
      ∀ r ∈ d.store.requestedLeaves target, ∀ r' ∈ d.store.requestedLeaves target,
        d.committedPersonalLeave r = true → d.committedPersonalLeave r' = true → r = r'
  | .advance n _ =>
    match d.attempts.get n with
    | some a => Comes own d a
    | none => True
  | _ => True

instance (own : PublicIdentity) (d : Device) (a : Attempt) : Decidable (Comes own d a) := by
  unfold Comes
  split
  · split <;> infer_instance
  · infer_instance
  · infer_instance

instance (own : PublicIdentity) (d : Device) (action : Action) :
    Decidable (Meets own d action) := by
  cases action
  case advance n io =>
    unfold Meets
    dsimp only
    split <;> infer_instance
  all_goals unfold Meets; infer_instance

def new : Device := ⟨.empty, ∅, fun _ => .error .stale, [], [], [], ∅, 0, []⟩

section
omit [Sha256] [ContentHash] [EventGraph]

theorem inv_new : Inv own new where
  indexed := indexed_empty
  valid := fun x hx => absurd hx not_mem_nil
  choices := fun x hx => absurd hx not_mem_nil
  queued := by
    rintro c (hf | ⟨r, hr, -⟩)
    · cases hf
    · cases hr
  apart := fun n m a b hn => by cases hn
  ready := fun n a hn => by cases hn

/-- A device that starts again queues every conversation with a control. -/
theorem Inv.restart (h : Inv own d) : Inv own d.restart where
  indexed := indexed_openFrom _
  valid := fun x hx => h.valid x (by simpa [Device.restart] using hx)
  choices := fun x hx y hy => h.choices x (by simpa [Device.restart] using hx) y
    (by simpa [Device.restart] using hy)
  queued := by
    have hopen : (openFrom d.store.personal).Indexed := indexed_openFrom _
    rintro c (hf | ⟨r, hr, -⟩)
    · refine mem_pending_openFrom.mpr ?_
      change (openFrom d.store.personal).sourceApplied c own = false at hf
      unfold sourceApplied at hf
      cases hfl : (openFrom d.store.personal).floors.get c with
      | none =>
        rw [hfl] at hf
        cases hf
      | some f =>
        obtain ⟨hm, -, hc⟩ := hopen.floor_mem c f hfl
        rw [personal_openFrom] at hm
        exact ⟨f, hm, hc⟩
    · obtain ⟨⟨x, hx, hc, -⟩, -⟩ := mem_requestedLeaves.mp hr
      exact mem_pending_openFrom.mpr ⟨x, by simpa [Device.restart] using hx, hc⟩
  apart := fun n m a b hn => by cases hn
  ready := fun n a hn => by cases hn

end

/-- **One step of a device** that meets the condition. -/
theorem inv_perform (h : Inv own d) {action} (hm : Meets own d action) :
    Inv own (d.perform own action) := by
  have hframe {d' : Device} (hs : d'.store = d.store) (hj : d'.journal = d.journal)
      (hatt : d'.attempts = d.attempts) : Inv own d' :=
    h.of_frame (congrArg personal hs) (congrArg floors hs) (congrArg applied hs) hj
      (fun c hc => hs ▸ hc) fun m b hb => hatt ▸ hb
  cases action with
  | merge x saved =>
    unfold perform
    dsimp only
    split
    · next hok =>
      refine h.merge hm.1 (fun y hy r r' hr hr' hid => hm.2 y hy ?_) hok
      rw [hr, any_some, hr', any_some, decide_eq_true_eq]
      exact hid
    · exact h
  | noteGroup group =>
    obtain ⟨hp, hf, ha⟩ := d.store.noteGroup_frame group
    exact h.of_frame hp hf ha rfl (fun c => mem_pending_noteGroup) fun _ _ => id
  | journal r phase => exact h.journalPut hm
  | membership group access => exact hframe rfl rfl rfl
  | learn event => exact hframe rfl rfl rfl
  | chooseLeave r deleteHistory saved =>
    refine h.command hm.1 fun r₁ hr₁ hfind y hy r' hr' hid => ?_
    cases hr₁
    have hkey : y.key = (.channel r.group, .operation r.id) := by
      refine hm.2 y hy ?_
      rw [hr', any_some, decide_eq_true_eq]
      exact hid
    have hmem := key_of_mem hy
    rw [hkey, hfind] at hmem
    cases hmem
  | deleteLeftGroup group id saved =>
    show Inv own (d.deleteLeftGroup own group id saved)
    unfold deleteLeftGroup
    split
    · exact h
    split
    · exact h
    split
    · exact h.command hm fun r hr => by cases hr
    · exact h
  | deleteAccountContact peer clearHistory id saved =>
    show Inv own (d.deleteAccountContact own peer clearHistory id saved)
    unfold deleteAccountContact
    dsimp only
    split
    · exact h
    · exact h.command hm fun r hr => by cases hr
  | reopen peer id saved =>
    show Inv own (d.reopenPersonal own peer id saved)
    unfold reopenPersonal
    dsimp only
    split
    · exact h
    split
    · exact h
    · exact h.command hm fun r hr => by cases hr
  | start n target live =>
    exact h.start hm.1 fun r r' hr hr' => hm.2 r hr.1 r' hr'.1 hr.2 hr'.2
  | advance n io =>
    unfold Meets at hm
    unfold perform
    dsimp only at hm ⊢
    split
    · exact h
    · next a ha =>
      rw [ha] at hm
      exact h.advance ha hm io
  | receive host id =>
    show Inv own (d.record host id)
    unfold record
    split
    · exact h
    · exact hframe rfl rfl rfl
  | suppress host ids => exact hframe rfl rfl rfl
  | restart => exact h.restart

/-- **Every run** whose steps meet the condition keeps the invariant. -/
theorem inv_run {actions} (h : Along (fun d a => d.perform own a) (Meets own) new actions) :
    Inv own (new.run own actions) :=
  Along.inv (I := Inv own) (fun _ _ hi hm => inv_perform hi hm) inv_new h

end Device

/-- **A clean-up that is owed is queued.** In every state a device reaches by steps that meet the
condition, a conversation whose floor this device has not applied, or whose leave with a requested
deletion is committed without the deletion being written, is in the queue. -/
theorem owed_queued [Sha256] [ContentHash] [EventGraph] (own : PublicIdentity)
    (actions : List Device.Action)
    (h : Along (fun d a => d.perform own a) (Device.Meets own) Device.new actions)
    (c : DocumentConversation) (howed : (Device.new.run own actions).Owed own c) :
    c ∈ (Device.new.run own actions).store.pending :=
  (Device.inv_run h).queued c howed

/-! ### Sample runs -/

namespace Sample

@[reducible] def digest : Sha256 := ⟨fun _ => 0⟩

@[reducible] def contentHash : ContentHash := ⟨fun _ => 0⟩

@[reducible] def eventGraph : EventGraph := ⟨fun _ => [], fun _ => ⟨3⟩, fun _ => true⟩

def device (k : ℕ) : PublicIdentity := ⟨BitVec.ofNat 256 k, BitVec.ofNat 256 k⟩

def announce (k : ℕ) : Announce :=
    ⟨"", BitVec.ofNat 256 k, BitVec.ofNat 256 k, "", 1, false, none, []⟩

def source (role : Role) : Source :=
    ⟨device 1, role, ⟨device 1, ⟨10⟩, none⟩, ⟨none, 0⟩, .localDevice⟩

def leave : OperationReference := ⟨⟨7⟩, ⟨3⟩, .leaveAccount, 0, announce 1, source .member, []⟩

def joined : Access := ⟨.member, [source .member]⟩

def parted : Access := ⟨.left, [source .left]⟩

/-- Every check and file operation succeeds. -/
def io : Io := ⟨true, true, true, []⟩

def deletion (revision : ℕ) : letI := digest; Document :=
  letI := digest
  ⟨⟨revision, (device 2).userId, 0⟩,
    ⟨.account "bob", .operation ⟨BitVec.ofNat 256 revision⟩, device 2, .delete true [] none⟩⟩

def groupDeletion : letI := digest; Document :=
  letI := digest
  ⟨⟨1, (device 2).userId, 0⟩,
    ⟨.channel ⟨3⟩, .operation ⟨5⟩, device 2, .delete true [(source .left).lifetime] none⟩⟩

/-- A leave that is to be followed by a deletion commits, an attempt writes the deletion, and the
process ends before it is applied. -/
def interrupted : List Device.Action :=
  [.chooseLeave leave true true, .journal leave .committed, .membership ⟨3⟩ (.ok parted),
    .start 0 (.channel ⟨3⟩) false] ++ List.replicate 4 (.advance 0 io) ++ [.restart]

/-- A sibling's deletion of a group comes before the events of the leave. -/
def tooEarly : List Device.Action :=
  [.membership ⟨3⟩ (.ok joined), .merge groupDeletion true, .start 0 (.channel ⟨3⟩) false] ++
    List.replicate 4 (.advance 0 io) ++ [.membership ⟨3⟩ (.ok parted)]

/-- Another deletion comes between the last write of an attempt and its last step. -/
def overtaken : List Device.Action :=
  [.merge (deletion 1) true, .start 0 (.account "bob") false] ++ List.replicate 6 (.advance 0 io) ++
    [.merge (deletion 3) true, .advance 0 io]

def committedLate : List Device.Action :=
  [.chooseLeave leave true true, .start 0 (.channel ⟨3⟩) false] ++ List.replicate 4
    (.advance 0 io) ++ [.journal leave .committed]

end Sample

open Sample in
theorem interrupted_meets :
    letI := digest
    letI := contentHash
    letI := eventGraph
    Along (fun d a => d.perform (device 1) a) (Device.Meets (device 1)) new interrupted := by
  decide +kernel

open Sample in
theorem interrupted_owed :
    letI := digest
    letI := contentHash
    letI := eventGraph
    (new.run (device 1) interrupted).Owed (device 1) (.channel ⟨3⟩) := by
  left
  decide +kernel

open Sample in
/-- The run that is interrupted meets the condition, the conversation is owed its clean-up in the
end, and it is queued. -/
theorem owed_queued_interrupted :
    letI := digest
    letI := contentHash
    letI := eventGraph
    (Device.new.run (device 1) interrupted).Owed (device 1) (.channel ⟨3⟩) ∧
      .channel ⟨3⟩ ∈ (Device.new.run (device 1) interrupted).store.pending :=
  letI := digest
  letI := contentHash
  letI := eventGraph
  ⟨interrupted_owed, owed_queued (device 1) interrupted interrupted_meets _ interrupted_owed⟩

open Sample in
/-- **A clean-up that is owed is forgotten**: when the deletion comes before the events of the
leave, when another deletion comes while an attempt ends, and when a leave commits after an
attempt. -/
theorem owed_forgotten :
    letI := digest
    letI := contentHash
    letI := eventGraph
    ((Device.new.run (device 1) tooEarly).Owed (device 1) (.channel ⟨3⟩) ∧
        (Device.new.run (device 1) tooEarly).store.pending = []) ∧
      ((Device.new.run (device 1) overtaken).Owed (device 1) (.account "bob") ∧
        (Device.new.run (device 1) overtaken).store.pending = []) ∧
      ((Device.new.run (device 1) committedLate).Owed (device 1) (.channel ⟨3⟩) ∧
        (Device.new.run (device 1) committedLate).store.pending = []) := by
  let := digest
  let := contentHash
  let := eventGraph
  refine ⟨⟨.inl ?_, ?_⟩, ⟨.inl ?_, ?_⟩, ⟨.inr ⟨leave, ?_, ?_⟩, ?_⟩⟩ <;> decide +kernel

end MeshTalk.Personal
