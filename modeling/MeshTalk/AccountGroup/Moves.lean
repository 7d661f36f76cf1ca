import MeshTalk.AccountGroup.Durability
import MeshTalk.AccountGroup.Execution
import MeshTalk.Lib.Run

/-! # What a device may write

Every step of a device is a chain of moves: a durable change of its journal, events of the first
pending transaction, its removal, a new transaction, a start. `May` says which move a step may make,
and in which state; results about runs are shown move by move. -/

namespace MeshTalk.AccountGroup

open Lib Channel Chain Journal OperationReference Option

/-- A durable change of a device. -/
inductive Move where
  | write (io : Io) (c : Journal.Change)
  | publish (count : ℕ)
  | finish
  | begin (tx : Transaction)
  | reopen

variable [Sha256] [EventCrypto] [Serde] [RecordJson] [Payloads]

def Node.move (n : Node) : Move → Node
  | .write io c => { n with journal := (n.journal.write io c).2 }
  | .publish count =>
    { n with log := n.pending.head?.elim n.log fun tx => writeEvents n.log (tx.events.take count) }
  | .finish => { n with pending := n.pending.tail }
  | .begin tx => { n with pending := n.pending ++ [tx] }
  | .reopen =>
    match Journal.openRows n.journal.account n.journal.device n.journal.rows with
    | .error _ => n
    | .ok j => { n with journal := j }

structure Node.Working (n : Node) (id : OperationId) (e : Entry) : Prop where
  stored : n.journal.entries.get id = some e
  source : e.source = true
  active : e.terminal = false

def Action.request? : Action → Option RequestProjection
  | .request r _ _ _ => some r
  | .legRequest leg _ _ _ => some leg.request
  | _ => none

def Action.result? : Action → Option ResultProjection
  | .result _ r _ => some r
  | .legResult _ leg _ _ => some leg.result
  | _ => none

def Node.Decided (phase : Phase) : Prop := phase = .accepted ∨ ∃ reason, phase = .rejected reason

/-- The moves a step may make in a state. -/
inductive Node.May (a : Action) (n : Node) : Move → Prop
  | submitted {s sio io} {r : OperationReference} {op} {status : Status} (ha : a = .submit s sio)
      (hnew : n.known s.id = none) (hid : r.id = s.id)
      (hown : r.origin.publicIdentity = n.journal.device)
        (hactive : status.phase.terminal = false) :
      May a n (.write io (.entry ⟨r, some op, status, none, false, false, 0⟩))
  | looked {s sio io} {l : Lookup} (ha : a = .submit s sio) (hnew : n.known s.id = none)
      (hid : l.id = s.id) :
      May a n (.write io (.lookup l))
  | cancelled {account id recovery cio io e} (ha : a = .cancel account id recovery cio)
      (hget : n.journal.entries.get id = some e) (hactive : e.terminal = false) :
      May a n (.write io (.entry (cancelRequested e)))
  | cancelledLookup {account id recovery cio io l} (ha : a = .cancel account id recovery cio)
      (hnone : n.journal.entries.get id = none) (hget : n.journal.lookups.get id = some l) :
      May a n (.write io (.lookup
        { l with cancel := true, status := { l.status with phase := .cancellationRequested } }))
  | published (count : ℕ) : May a n (.publish count)
  | completed {io} {e : Entry} {copy tx rest} (hp : n.pending = tx :: rest)
      (hop : tx.operation = some e.reference)
      (hw : n.Working e.reference.id e) :
      May a n (.write io (.entry (Journal.committedWith e copy n.journal.device.userId tx.events)))
  | finished {tx rest} (hp : n.pending = tx :: rest)
      (hdone : ∀ r, tx.operation = some r → ∃ e, n.journal.entries.get r.id = some e ∧
        e.source = true ∧ e.reference = r ∧ e.status.phase = .committed ∧
        e.status.committedEvents = tx.events.map (·.id)) : May a n .finish
  | learned {io r e} (ha : a.request? = some r) (hw : n.Working r.reference.id e)
      (hcancel : r.cancel = true) :
      May a n (.write io (.entry (cancelRequested e)))
  | admitted {io r phase} (ha : a.request? = some r)
      (hself : r.reference.executor.device = n.journal.device)
      (hp : n.pending = []) (hold : ∀ e, n.journal.entries.get r.reference.id = some e →
        e.source = false)
      (hphase : if r.cancel then phase = .cancelled else Decided phase) :
      May a n (.write io
        (.entry ⟨r.reference, r.body, n.operationStatusFor r.reference phase, none, true,
        r.cancel, 0⟩))
  | waiting {io r} (ha : a.request? = some r)
      (hself : r.reference.executor.device = n.journal.device)
      (hcancel : r.cancel = false)
      (hold : ∀ e, n.journal.entries.get r.reference.id = some e → e.source = false) :
      May a n (.write io (.entry ⟨r.reference, r.body,
        n.operationStatusFor r.reference .awaitingAcceptance, none, false, false, 0⟩))
  | retired {io r e} (ha : a.request? = some r)
      (hleg : n.journal.legacyChildren.has r.reference.id = true)
      (hself : r.reference.executor.device = n.journal.device)
      (hget : n.journal.entries.get r.reference.id = some e) (href : e.reference = r.reference)
      (hactive : e.terminal = false) : May a n (.write io (.entry
        { e with source := true, status := n.operationStatusFor e.reference .committed }))
  | repeated {io id e} (hget : n.journal.entries.get id = some e) (hsource : e.source = true) :
      May a n (.write io (.entry e))
  | held {io r} (ha : a.request? = some r) (hother : r.reference.executor.device ≠ n.journal.device)
      (hnone : n.journal.entries.get r.reference.id = none)
      (hfresh : n.journal.lookups.get r.reference.id = none) :
      May a n (.write io (.entry ⟨r.reference, r.body,
        n.operationStatusFor r.reference .awaitingAcceptance, none, false, r.cancel, 0⟩))
  | imported {io r copy} (ha : a.result? = some r) (hnew : n.ignoresResult r = false) :
      May a n (.write io
        (.entry ⟨r.reference, n.knownBody r.reference.id, r.status, copy, false, false, 0⟩))
  | answered {io} {l : LookupProjection} {e} (hcancel : l.cancel = true)
      (hget : n.journal.entries.get l.id = some e) (hsource : e.source = true)
        (hactive : e.terminal = false) :
      May a n (.write io (.entry { e with cancel := true }))
  | linkedRequest {io leg v lio aio} (ha : a = .legRequest leg v lio aio)
      (hnew : n.journal.legacyChildren.get leg.request.reference.id = none) :
      May a n (.write io (.legs ⟨none, [(leg.request.reference.id, leg.parent)],
        [n.legEntry leg.request.reference leg.request.body leg.request.cancel]⟩))
  | linkedResult {io sender leg v lio} (ha : a = .legResult sender leg v lio)
      (hnew : n.journal.legacyChildren.get leg.result.reference.id = none) :
      May a n (.write io (.legs ⟨none, [(leg.result.reference.id, leg.parent)],
        [n.legEntry leg.result.reference (some .leaveAccount) false]⟩))
  | stopped {io} {e : Entry} {phase : Phase} (hp : n.pending = []) (hw : n.Working e.reference.id e)
      (hlegs : n.coordinated e = false) (hphase : phase.stopped = true) :
      May a n (.write io (.entry { e with status := n.operationStatusFor e.reference phase }))
  | nothing {io} {e : Entry} {copy} (hp : n.pending = []) (hw : n.Working e.reference.id e)
      (hlegs : n.coordinated e = false) (hkeep : e.cancel = false) :
      May a n (.write io (.entry (Journal.committedWith e copy n.journal.device.userId [])))
  | began {e : Entry} {events} (hp : n.pending = []) (hw : n.Working e.reference.id e)
      (hlegs : n.coordinated e = false) (hkeep : e.cancel = false) :
        May a n (.begin ⟨some e.reference, events⟩)
  | planned {io plan legs pio} (ha : a = .planLegs plan legs pio) :
      May a n (.write io (.legs ⟨some plan, plan.legs.map fun leg => (leg.id, plan.parent),
        legs.map fun leg => n.legEntry leg (some .leaveAccount) false⟩))
  | legCancelled {io cio child} (ha : a = .cancelLeg child cio) :
      May a n (.write io (.entry { child with cancel := true }))
  | departureStopped {io dio parent} (ha : a = .stopDeparture parent dio)
      (hcancel : parent.cancel = true) :
      May a n (.write io (.entry
        { parent with status := n.operationStatusFor parent.reference .cancelled }))
  | departureSettled {io dio parent plan children zero}
      (ha : a = .settleDeparture parent plan children zero dio) :
      May a n (.write io
        (.entry { parent with status := departureStatus parent plan children zero }))
  | prepared {io payload assets} : May a n (.write io (.file payload assets))
  | copied {io} {e : Entry} {copy : FileCopy} (hget : n.journal.entries.get e.reference.id = some e)
      (hdone : e.status.phase = .committed) :
      May a n (.write io (.entry { e with fileCopy := some { copy with complete := true } }))
  | reopened (ha : ∃ recovery, a = .reopen recovery) : May a n .reopen

namespace Node

variable {a : Action} {n m : Node}

/-- A device comes to another state by moves that a step may make. -/
def Moves (a : Action) (n m : Node) : Prop := Chain Node.move (May a) n m

omit [Payloads] in
theorem Moves.write {io c} (h : May a n (.write io c)) :
    n.Moves a { n with journal := (n.journal.write io c).2 } := one _ h

omit [Payloads] in
/-- What a move makes of the journal: itself, what a write leaves, or what reopening reads. -/
theorem move_journal {P : Journal → Prop} (b) (h : P n.journal)
    (hwrite : ∀ io c, P (n.journal.write io c).2)
    (hopen : ∀ j, openRows n.journal.account n.journal.device n.journal.rows = .ok j → P j) :
    P (n.move b).journal := by
  cases b with
  | write io c => exact hwrite io c
  | publish count => exact h
  | finish => exact h
  | begin tx => exact h
  | reopen =>
    unfold move
    cases hk : openRows n.journal.account n.journal.device n.journal.rows with
    | error e => exact h
    | ok j => exact hopen j hk

theorem move_scope (n : Node) (m) :
    (n.move m).journal.account = n.journal.account ∧ (n.move m).journal.device = n.journal.device :=
  move_journal (P := fun j => j.account = n.journal.account ∧
    j.device = n.journal.device) m ⟨rfl, rfl⟩
    (write_scope n.journal) fun _ hk => openRows_scope hk

theorem Moves.scope (h : n.Moves a m) :
    m.journal.account = n.journal.account ∧ m.journal.device = n.journal.device := by
  refine inv (I := fun k => k.journal.account = n.journal.account ∧
    k.journal.device = n.journal.device) (fun k b hk _ => ?_) h ⟨rfl, rfl⟩
  obtain ⟨h1, h2⟩ := move_scope k b
  exact ⟨h1.trans hk.1, h2.trans hk.2⟩

theorem move_sound (h : n.journal.Sound) (b) : (n.move b).journal.Sound :=
  move_journal b h h.write fun _ hk => (h.openRows hk).1

theorem Moves.sound (h : n.Moves a m) (hs : n.journal.Sound) : m.journal.Sound :=
  inv (I := fun k => k.journal.Sound) (fun _ b hk _ => move_sound hk b) h hs

theorem Moves.device (h : n.Moves a m) : m.journal.device = n.journal.device := h.scope.2

/-! ### Recovery of deliveries -/

variable {tx : Transaction} {rest : List Transaction} {s : Submission} {phase : Phase} {e : Entry}

/-- Operations are as they were or have ended, and legs are linked as they were. -/
structure Settles (j k : Journal) : Prop where
  entries : ∀ id, k.entries.get id = j.entries.get id ∨ ∃ e, k.entries.get id = some e ∧
    e.terminal = true
  links : k.legacyChildren = j.legacyChildren

/-- A move that changes no operation but to end it. -/
def Settling : Move → Prop
  | .write _ (.entry e) => e.terminal = true
  | .publish _ => True
  | .finish => True
  | _ => False

omit [Payloads] in
theorem settles_move {b} (h : Settling b) : Settles n.journal (n.move b).journal := by
  cases b with
  | write io c =>
    cases c with
    | entry e =>
      rcases put_cases (j := n.journal) io e with ⟨-, rows, -, heq⟩ | ⟨-, -, rows, -, heq⟩
      · rw [move, write, heq]
        exact ⟨fun _ => .inl rfl, rfl⟩
      · rw [move, write, heq]
        refine ⟨fun id => ?_, rfl⟩
        rw [get_install]
        split_ifs
        · exact .inr ⟨_, rfl, h⟩
        · exact .inl rfl
    | lookup => cases h
    | legs => cases h
    | file => cases h
  | publish count => exact ⟨fun _ => .inl rfl, rfl⟩
  | finish => exact ⟨fun _ => .inl rfl, rfl⟩
  | begin tx => cases h
  | reopen => cases h

/-- The moves of a recovery of deliveries, which every step may make. -/
def Recovers (n m : Node) : Prop := Chain Node.move (fun k b => (∀ a, May a k b) ∧ Settling b) n m

omit [Payloads] in
theorem Recovers.moves (h : n.Recovers m) : n.Moves a m :=
  inv (I := n.Moves a) (fun _ b hk hb => hk.snoc b (hb.1 a)) h (refl n)

theorem Recovers.settles (h : n.Recovers m) : Settles n.journal m.journal := by
  refine inv (I := fun k => Settles n.journal k.journal) (fun k b hk hb => ?_) h
    ⟨fun _ => .inl rfl, rfl⟩
  have hmove := settles_move (n := k) hb.2
  refine ⟨fun id => ?_, hmove.links.trans hk.links⟩
  rcases hmove.entries id with he | he
  · rw [he]
    exact hk.entries id
  · exact .inr he

omit [Payloads] in
theorem complete_recovers (hp : n.pending = tx :: rest) {r} (hop : tx.operation = some r) (io) :
    n.Recovers { n with journal := (n.journal.complete io r tx.events).2 } := by
  unfold complete
  cases he : (n.journal.entries.get r.id).filter fun e => e.source && e.reference.same r with
  | none => exact refl n
  | some e =>
    obtain ⟨hget, hs⟩ := filter_eq_some_iff.mp he
    simp only [Bool.and_eq_true, same_eq_true] at hs
    obtain ⟨hsource, rfl⟩ := hs
    by_cases ht : e.terminal = true
    · simp only [ht, if_true]
      split_ifs
      · exact refl n
      · exact refl n
    · simp only [ht, Bool.false_eq_true, if_false]
      cases committedCopy e with
      | error err => exact refl n
      | ok copy =>
        have hw : n.Working e.reference.id e := ⟨hget, hsource, Bool.not_eq_true _ ▸ ht⟩
        exact one (Move.write io (.entry _)) ⟨fun _ => .completed hp hop hw, rfl⟩

omit [Payloads] in
/-- A transaction is removed only once its operation is stored as committed, with its events. -/
theorem complete_ok {j : Journal} (io r events) (h : (j.complete io r events).1 = .ok ()) :
    ∃ e, (j.complete io r events).2.entries.get r.id = some e ∧ e.source = true ∧ e.reference = r ∧
      e.status.phase = .committed ∧ e.status.committedEvents = events.map (·.id) := by
  revert h
  unfold complete
  cases he : (j.entries.get r.id).filter fun e => e.source && e.reference.same r with
  | none => exact nofun
  | some e =>
    obtain ⟨hget, hs⟩ := filter_eq_some_iff.mp he
    simp only [Bool.and_eq_true, same_eq_true] at hs
    by_cases ht : e.terminal = true
    · simp only [ht, if_true]
      split_ifs with hdone
      · simp only [Bool.and_eq_true, decide_eq_true_eq] at hdone
        exact fun _ => ⟨e, hget, hs.1, hs.2, hdone.1, hdone.2⟩
      · exact nofun
    · simp only [ht, Bool.false_eq_true, if_false]
      cases committedCopy e with
      | error err => exact nofun
      | ok copy =>
        intro h
        rcases put_cases (j := j) io (committedWith e copy j.device.userId events) with
          ⟨⟨err, herr⟩, -⟩ | ⟨-, -, rows, -, heq⟩
        · rw [herr] at h
          cases h
        · refine ⟨stored (committedWith e copy j.device.userId events) (j.sequence + 1),
            ?_, hs.1, hs.2, rfl, rfl⟩
          rw [heq, get_install, if_pos]
          exact congrArg _ hs.2.symm

omit [Payloads] in
theorem finish_recovers (hp : n.pending = tx :: rest)
    (hdone : ∀ r, tx.operation = some r → ∃ e, n.journal.entries.get r.id = some e ∧
      e.source = true ∧
      e.reference = r ∧ e.status.phase = .committed ∧ e.status.committedEvents =
        tx.events.map (·.id)) :
    n.Recovers { n with pending := rest } := by
  have h : n.Recovers (n.move .finish) := one _ ⟨fun _ => .finished hp hdone, trivial⟩
  rwa [move, hp] at h

theorem recoverNext_recovers (hp : n.pending = tx :: rest) (io) :
    n.Recovers (n.recoverNext io tx rest).2 := by
  have hlog : n.Recovers { n with log := writeEvents n.log (tx.events.take io.events) } := by
    have h : n.Recovers (n.move (.publish io.events)) :=
      one _ ⟨fun _ => .published io.events, trivial⟩
    rw [move, hp] at h
    rw [hp]
    exact h
  unfold recoverNext
  generalize writeEvents n.log (tx.events.take io.events) = log at hlog
  split_ifs
  · exact hlog
  cases io.sidecars with
  | error e => exact hlog
  | ok u =>
    cases hop : tx.operation with
    | none =>
      cases io.removed with
      | error e => exact hlog
      | ok u => exact hlog.trans (finish_recovers (n := { n with log := log }) hp fun r hr => by
          rw [hop] at hr; cases hr)
    | some r =>
      have hdone := complete_recovers (n := { n with log := log }) hp hop io.journal
      have hok := complete_ok (j := n.journal) io.journal r tx.events
      dsimp only [elim_some] at hdone ⊢
      generalize n.journal.complete io.journal r tx.events = c at hok hdone ⊢
      obtain ⟨c, j⟩ := c
      cases c with
      | error e => exact hlog.trans hdone
      | ok u =>
        cases io.removed with
        | error e => exact hlog.trans hdone
        | ok u =>
          refine hlog.trans (hdone.trans
            (finish_recovers (n := ⟨j, n.pending, log⟩) hp fun r' hr => ?_))
          rw [hop] at hr
          cases hr
          exact hok rfl

theorem recoverDelivery_recovers : ∀ (ios : List RecoverIo) (n : Node),
    n.Recovers (n.recoverDelivery ios).2
  | [], n => refl n
  | io :: ios, n => by
    unfold recoverDelivery
    cases hp : n.pending with
    | nil => exact refl n
    | cons tx rest =>
      have h := recoverNext_recovers hp io
      dsimp only
      generalize n.recoverNext io tx rest = r at h ⊢
      obtain ⟨r, k⟩ := r
      cases r with
      | error e => exact h
      | ok u => exact h.trans (recoverDelivery_recovers ios k)

theorem recoverDelivery_moves (ios) (n : Node) : n.Moves a (n.recoverDelivery ios).2 :=
  (recoverDelivery_recovers ios n).moves

omit [Payloads] in
theorem recoverDelivery_ok : ∀ {ios : List RecoverIo} {n m : Node},
    n.recoverDelivery ios = (.ok (), m) → m.pending = []
  | [], n, m, h => by
    injection h with h hm
    split_ifs at h with hp
    rw [← hm]
    exact List.isEmpty_iff.mp hp
  | io :: ios, n, m, h => by
    unfold recoverDelivery at h
    cases hp : n.pending with
    | nil =>
      rw [hp] at h
      cases h
      exact hp
    | cons tx rest =>
      rw [hp] at h
      dsimp only at h
      generalize n.recoverNext io tx rest = r at h
      obtain ⟨r, k⟩ := r
      cases r with
      | error e => cases h
      | ok u => exact recoverDelivery_ok h

/-! ### Submission and cancellation -/

omit [RecordJson] [Payloads] in
theorem newReference_ok {op r} (h : n.newReference s op = .ok r) :
    r.id = s.id ∧ r.origin.publicIdentity = n.journal.device := by
  obtain ⟨-, -, h⟩ := bind_eq_ok.mp h
  obtain ⟨access, -, h⟩ := bind_eq_ok.mp h
  obtain ⟨-, -, h⟩ := bind_eq_ok.mp h
  obtain ⟨sources, -, h⟩ := bind_eq_ok.mp h
  obtain ⟨executor, -, h⟩ := bind_eq_ok.mp h
  obtain ⟨reference, -, h⟩ := bind_eq_ok.mp h
  obtain ⟨hid, h⟩ := ensure_bind_eq_ok.mp h
  obtain ⟨-, -, h⟩ := bind_eq_ok.mp h
  obtain ⟨-, -, h⟩ := bind_eq_ok.mp h
  cases h
  exact ⟨hid.2.1, hid.2.2.2.2.2⟩

variable {io : Io}

theorem submitNew_moves {sio} (ha : a = .submit s sio) (hnew : n.known s.id = none) (op) :
    n.Moves a (n.submitNew s op io).2 := by
  unfold submitNew
  split_ifs
  · exact Moves.write (.looked ha hnew rfl)
  · exact refl n
  · cases hr : n.newReference s op with
    | error e => exact refl n
    | ok r =>
      obtain ⟨hid, hown⟩ := newReference_ok hr
      refine Moves.write (.submitted ha hnew hid hown ?_)
      unfold submittedStatus
      split_ifs <;> rfl

theorem submit_moves (ha : a = .submit s io) : n.Moves a (n.submit s io).2 := by
  unfold submit
  split_ifs
  · exact refl n
  · cases normalized s.operation <;> exact refl n
  cases normalized s.operation with
  | error e => exact refl n
  | ok op =>
    cases hk : n.known s.id with
    | some known =>
      dsimp only
      split_ifs <;> exact refl n
    | none =>
      dsimp only
      split_ifs
      · exact refl n
      · exact submitNew_moves ha hk op

variable {recovery : List RecoverIo}

theorem cancel_moves {account id} (ha : a = .cancel account id recovery io) :
    n.Moves a (n.cancel account id recovery io).2 := by
  unfold cancel
  split_ifs
  · exact refl n
  have h := recoverDelivery_moves (a := a) recovery n
  generalize (n.recoverDelivery recovery).2 = m at h ⊢
  dsimp only
  cases he : m.journal.entries.get id with
  | some e =>
    dsimp only
    split_ifs with ht
    · exact h
    · exact h.trans (Moves.write (.cancelled ha he (Bool.not_eq_true _ ▸ ht)))
  | none =>
    cases hl : m.journal.lookups.get id with
    | some l => exact h.trans (Moves.write (.cancelledLookup ha he hl))
    | none => exact h

/-! ### Admission at the source -/

omit [Sha256] [EventCrypto] [Serde] [RecordJson] [Payloads] in
theorem standing_decided (r access source) : Decided (standing r access source) := by
  unfold standing
  split_ifs
  · exact .inr ⟨_, rfl⟩
  · exact .inr ⟨_, rfl⟩
  · exact .inl rfl

omit [EventCrypto] [RecordJson] in
theorem bodyPhase_decided (r body now) (h : Decided phase) :
    Decided (bodyPhase r body now phase) := by
  unfold bodyPhase
  cases body with
  | none => exact .inr ⟨_, rfl⟩
  | some op =>
    dsimp only
    by_cases hbad : (!Payloads.validExecutionPayload op || op.kind ≠ r.kind ||
      operationDigest r.group op ≠ r.digest) = true
    · rw [if_pos hbad]
      exact .inr ⟨_, rfl⟩
    rw [if_neg hbad]
    cases op with
    | send message =>
      dsimp only
      split_ifs
      · exact .inr ⟨_, rfl⟩
      · exact .inr ⟨_, rfl⟩
      · exact h
    | _ => exact h

omit [Sha256] [EventCrypto] [Serde] [RecordJson] [Payloads] in
theorem preparation_decided {p : Preparation} {reason} (h : p.phase reason = .ok phase) :
    Decided phase := by
  unfold Preparation.phase at h
  split at h
  · cases h; exact .inl rfl
  · cases h; exact .inl rfl
  · cases h; exact .inr ⟨_, rfl⟩
  · cases h; exact .inr ⟨_, rfl⟩
  · cases h

variable {r : RequestProjection} {v : AdmissionView} {legacyChild : Bool}

theorem controlPhase_decided (h : controlPhase v r legacyChild = .ok phase) : Decided phase := by
  unfold controlPhase at h
  cases hb : r.body with
  | none => rw [hb] at h; cases h; exact .inl rfl
  | some op =>
    rw [hb] at h
    dsimp only at h
    split_ifs at h
    · exact preparation_decided h
    · cases h; exact .inl rfl
    · exact preparation_decided h
    · cases ht : v.target with
      | unavailable => rw [ht] at h; cases h; exact .inr ⟨_, rfl⟩
      | failed e => rw [ht] at h; cases h
      | found expired =>
        rw [ht] at h
        cases expired with
        | true => cases h; exact .inr ⟨_, rfl⟩
        | false => exact preparation_decided h
    · cases h; exact .inl rfl

theorem admissionPhase_ok (h : n.admissionPhase v r legacyChild = .ok phase) :
    if r.cancel then phase = .cancelled else Decided phase := by
  unfold admissionPhase at h
  split_ifs at h ⊢
  · cases h
    rfl
  · obtain ⟨access, -, h⟩ := bind_eq_ok.mp h
    obtain ⟨_, -, h⟩ := bind_eq_ok.mp h
    obtain ⟨_, -, h⟩ := bind_eq_ok.mp h
    unfold andThen at h
    split_ifs at h
    · exact controlPhase_decided h
    · cases h
      exact bodyPhase_decided _ _ _ (standing_decided ..)

theorem admitNew_moves {ready} (ha : a.request? = some r)
    (hself : r.reference.executor.device = n.journal.device) (hp : n.pending = [])
    (hold : ∀ e, n.journal.entries.get r.reference.id = some e → e.source = false)
    (hphase : if r.cancel then phase = .cancelled else Decided phase) :
    n.Moves a (n.admitNew r v ready phase).2 := by
  have taken : n.Moves a { n with journal := (n.journal.write v.io (.entry ⟨r.reference, r.body,
      n.operationStatusFor r.reference phase, none, true, r.cancel, 0⟩)).2 } :=
    Moves.write (.admitted ha hself hp hold hphase)
  unfold admitNew
  cases r.body.bind Operation.filePayload with
  | none => exact taken
  | some payload =>
    dsimp only
    split_ifs with hacc _ hready
    · exact taken
    -- only what is not cancelled comes this far
    all_goals
      have hcancel : r.cancel = false := by
        rw [not_not] at hacc
        by_contra hc
        rw [if_pos (Bool.not_eq_false _ ▸ hc), hacc] at hphase
        cases hphase
    · refine Moves.write (.admitted ha hself hp hold ?_)
      rw [hcancel]
      exact .inr ⟨_, rfl⟩
    · exact taken
    · exact Moves.write (.waiting ha hself hcancel hold)

theorem admitRecovered_moves {ready} (ha : a.request? = some r)
    (hself : r.reference.executor.device = n.journal.device) (hp : n.pending = []) :
    n.Moves a (n.admitRecovered r v ready legacyChild).2 := by
  unfold admitRecovered
  by_cases hother : ((n.journal.entries.get r.reference.id).any fun e =>
    e.reference.group ≠ r.reference.group || e.reference.digest ≠ r.reference.digest) = true
  · rw [if_pos hother]
    exact refl n
  rw [if_neg hother]
  cases hf : (n.journal.entries.get r.reference.id).filter fun e => e.source with
  | some e =>
    obtain ⟨hget, hsource⟩ := filter_eq_some_iff.mp hf
    dsimp only
    split_ifs with hdone
    · exact refl n
    · simp only [Bool.or_eq_true, Bool.not_eq_true', not_or, Bool.not_eq_false,
        Bool.not_eq_true] at hdone
      exact Moves.write (.learned ha ⟨hget, hsource, hdone.1.2⟩ hdone.1.1)
  | none =>
    have hold : ∀ e, n.journal.entries.get r.reference.id = some e → e.source = false := by
      intro e he
      rw [he, filter_some] at hf
      simpa using hf
    split_ifs
    · exact refl n
    cases hphase : n.admissionPhase v r legacyChild with
    | error e => exact refl n
    | ok phase => exact admitNew_moves ha hself hp hold (admissionPhase_ok hphase)

theorem completeRetiredLeg_moves {done} (ha : a.request? = some r)
    (hleg : n.journal.legacyChildren.has r.reference.id = true)
    (hself : r.reference.executor.device = n.journal.device)
    (hsame : (n.journal.entries.get r.reference.id).any
      (fun e => e.reference.same r.reference) = true)
    (h : n.completeRetiredLeg r v = some done) : n.Moves a done.2 := by
  unfold completeRetiredLeg at h
  cases hr : v.retired with
  | error e => rw [hr] at h; cases h; exact refl n
  | ok retired =>
    cases he : n.journal.entries.get r.reference.id with
    | none => rw [hr, he] at h; cases retired <;> cases h
    | some e =>
      rw [hr, he] at h
      rw [he, any_some, same_eq_true] at hsame
      cases retired with
      | false => cases h
      | true =>
        dsimp only at h
        split_ifs at h with ht
        cases h
        exact Moves.write (.retired ha hleg hself he hsame (Bool.not_eq_true _ ▸ ht))

theorem admitUnretired_moves (v) (legacyChild : Bool) (ha : a.request? = some r)
    (hself : r.reference.executor.device = n.journal.device) :
    n.Moves a (n.admitUnretired r v legacyChild).2 := by
  unfold admitUnretired
  cases fileReady r v with
  | error e => exact refl n
  | ok ready =>
    cases n.targetRead r v with
    | error e => exact refl n
    | ok u =>
      have h := recoverDelivery_moves (a := a) v.recovery n
      cases hr : n.recoverDelivery v.recovery with
      | mk result m =>
        rw [hr] at h
        cases result with
        | error e => exact h
        | ok u =>
          have hdev : r.reference.executor.device = m.journal.device := by
            rw [hself, h.device]
          exact h.trans (admitRecovered_moves ha hdev (recoverDelivery_ok hr))

theorem admitSourceGroupRequest_moves (v) (ha : a.request? = some r) :
    n.Moves a (n.admitSourceGroupRequest r v).2 := by
  unfold admitSourceGroupRequest
  by_cases hself : (r.reference.executor.device ≠ n.journal.device ||
    !r.reference.valid n.journal.account) = true
  · rw [if_pos hself]
    exact refl n
  rw [if_neg hself]
  simp only [Bool.or_eq_true, decide_eq_true_eq, not_or, not_not] at hself
  by_cases hbound : (n.journal.legacyChildren.has r.reference.id &&
    !(n.journal.entries.get r.reference.id).any fun e => e.reference.same r.reference) = true
  · rw [if_pos hbound]
    exact refl n
  rw [if_neg hbound]
  cases hleg : n.journal.legacyChildren.has r.reference.id with
  | false => exact admitUnretired_moves v false ha hself.1
  | true =>
    rw [hleg, Bool.true_and, Bool.not_eq_true', Bool.not_eq_false] at hbound
    cases hdone : n.completeRetiredLeg r v with
    | some done => exact completeRetiredLeg_moves ha hleg hself.1 hbound hdone
    | none => exact admitUnretired_moves v true ha hself.1

/-! ### What siblings publish -/

theorem takeRequest_moves (v asked io) (ha : a.request? = some r) :
    n.Moves a (n.takeRequest r v asked io).2 := by
  unfold takeRequest
  split_ifs with hself hknown
  · have h := admitSourceGroupRequest_moves (n := n) v ha
    generalize n.admitSourceGroupRequest r v = d at h ⊢
    obtain ⟨d, m⟩ := d
    cases d with
    | error e => exact h
    | ok u =>
      cases hf : (m.journal.entries.get r.reference.id).filter fun e =>
        e.source && e.reference.same r.reference with
      | none =>
        dsimp only
        rw [hf]
        exact h
      | some parent =>
        obtain ⟨hget, hs⟩ := filter_eq_some_iff.mp hf
        dsimp only
        rw [hf]
        dsimp only
        split_ifs
        · exact h.trans (Moves.write (.repeated hget (Bool.and_eq_true_iff.mp hs).1))
        · exact h
  · exact refl n
  · simp only [Bool.or_eq_true, not_or, Bool.not_eq_true] at hknown
    exact Moves.write (.held ha hself (Table.has_eq_false.mp hknown.1)
      (Table.has_eq_false.mp hknown.2))

theorem importGroupOperationResult_moves {r} (v) (ha : a.result? = some r) :
    n.Moves a (n.importGroupOperationResult r v).2 := by
  unfold importGroupOperationResult
  by_cases hnew : n.ignoresResult r = true
  · rw [if_pos hnew]
    exact refl n
  rw [if_neg hnew]
  cases importedCopy r v with
  | error e => exact refl n
  | ok copy =>
    cases v.privateCopies with
    | error e => exact refl n
    | ok u =>
      dsimp only [wrote, adopt]
      split_ifs
      · exact Moves.write (.imported ha (Bool.not_eq_true _ ▸ hnew))
      · exact refl n

theorem answerLookup_moves (l io) : n.Moves a (n.answerLookup l io).2 := by
  unfold answerLookup
  cases hf : (n.journal.entries.get l.id).filter fun e => e.source with
  | none => exact refl n
  | some e =>
    obtain ⟨hget, hsource⟩ := filter_eq_some_iff.mp hf
    dsimp only
    split_ifs with hc
    · simp only [Bool.and_eq_true, Bool.not_eq_true'] at hc
      exact Moves.write (.answered hc.1 hget hsource hc.2)
    · exact Moves.write (.repeated hget hsource)

theorem putLegacyChild_moves (io parent) (h : n.journal.legacyChildren.get e.reference.id = none →
      May a n (.write io (.legs ⟨none, [(e.reference.id, parent)], [e]⟩))) :
    n.Moves a { n with journal := (n.journal.putLegacyChild io parent e).2 } := by
  unfold putLegacyChild
  cases hl : n.journal.legacyChildren.get e.reference.id with
  | some old =>
    dsimp only
    split_ifs <;> exact refl n
  | none => exact Moves.write (h hl)

theorem takeLegRequest_moves {leg lio aio} (ha : a = .legRequest leg v lio aio) :
    n.Moves a (n.takeLegRequest leg v lio aio).2 := by
  have hreq : a.request? = some leg.request := by rw [ha]; rfl
  have hlink := putLegacyChild_moves (a := a) (n := n) lio leg.parent
    (e := n.legEntry leg.request.reference leg.request.body leg.request.cancel) (.linkedRequest ha)
  unfold takeLegRequest
  dsimp only [wrote]
  by_cases hother : (leg.parent.executor.device ≠ n.journal.device &&
    !decide (leg.request.reference.executor.device = n.journal.device)) = true
  · rw [if_pos hother]
    exact refl n
  rw [if_neg hother]
  generalize n.journal.putLegacyChild lio leg.parent
    (n.legEntry leg.request.reference leg.request.body leg.request.cancel) = p at hlink ⊢
  obtain ⟨p, j⟩ := p
  cases p with
  | error e => exact hlink
  | ok u =>
    dsimp only [Except.mapError]
    by_cases hown : leg.request.reference.executor.device = n.journal.device
    swap
    · rw [if_pos (by simpa using hown)]
      exact hlink
    rw [if_neg (by simpa using hown)]
    have h := hlink.trans (admitSourceGroupRequest_moves (n := { n with journal := j }) v hreq)
    generalize Node.admitSourceGroupRequest { n with journal := j } leg.request v = d at h ⊢
    obtain ⟨d, m⟩ := d
    cases d with
    | error e => exact h
    | ok u =>
      cases hf : (m.journal.entries.get leg.request.reference.id).filter fun e =>
        e.source && e.terminal with
      | none =>
        dsimp only
        rw [hf]
        exact h
      | some e =>
        obtain ⟨hget, hs⟩ := filter_eq_some_iff.mp hf
        dsimp only
        rw [hf]
        exact h.trans (Moves.write (.repeated hget (Bool.and_eq_true_iff.mp hs).1))

theorem takeLegResult_moves {sender leg v lio} (ha : a = .legResult sender leg v lio) :
    n.Moves a (n.takeLegResult leg v lio).2 := by
  have hres : a.result? = some leg.result := by rw [ha]; rfl
  have hlink := putLegacyChild_moves (a := a) (n := n) lio leg.parent
    (e := n.legEntry leg.result.reference (some .leaveAccount) false) (.linkedResult ha)
  unfold takeLegResult
  dsimp only [wrote]
  split_ifs
  · exact refl n
  generalize n.journal.putLegacyChild lio leg.parent
    (n.legEntry leg.result.reference (some .leaveAccount) false) = p at hlink ⊢
  obtain ⟨p, j⟩ := p
  cases p with
  | error e => exact hlink
  | ok u => exact hlink.trans (importGroupOperationResult_moves
      (n := { n with journal := j }) v hres)

/-! ### Execution -/

/-- What an execution may do: its operation is pending here, and not a departure. -/
structure Ready (n : Node) (e : Entry) : Prop extends n.Working e.reference.id e where
  idle : n.pending = []
  single : n.coordinated e = false

theorem stop_moves (h : n.Ready e) (hphase : phase.stopped = true) (io) :
    n.Moves a (n.stop e phase io).2 :=
  Moves.write (.stopped h.idle h.toWorking h.single hphase)

theorem deliver_moves (h : n.Ready e) (hkeep : e.cancel = false) (events v) :
    n.Moves a (n.deliver e events v).2 := by
  unfold deliver
  cases v.preflight with
  | error err => exact refl n
  | ok u =>
    cases v.began with
    | error err => exact refl n
    | ok u =>
      have hbegin : n.Moves a (n.move (.begin ⟨some e.reference, events⟩)) :=
        one _ (.began h.idle h.toWorking h.single hkeep)
      have hrec := recoverDelivery_moves (a := a) v.afterwards
        { n with pending := n.pending ++ [⟨some e.reference, events⟩] }
      dsimp only
      generalize Node.recoverDelivery { n with
        pending := n.pending ++ [⟨some e.reference, events⟩] }
        v.afterwards = r at hrec ⊢
      obtain ⟨r, m⟩ := r
      cases r <;> exact hbegin.trans hrec

theorem carryOut_moves (h : n.Ready e) (hkeep : e.cancel = false) (v) :
    n.Moves a (n.carryOut e v).2 := by
  unfold carryOut
  cases v.prepared with
  | error err => exact refl n
  | ok prepared =>
    cases prepared with
    | some events => exact deliver_moves h hkeep events v
    | none =>
      have hget : ((n.journal.entries.get e.reference.id).filter fun e' =>
          e'.source && e'.reference.same e.reference) = some e := by
        rw [h.stored, filter_some, h.source, Bool.true_and,
          if_pos (same_eq_true.mpr rfl)]
      dsimp only [wrote, complete]
      rw [hget]
      dsimp only
      rw [if_neg (by rw [h.active]; exact Bool.false_ne_true)]
      cases committedCopy e with
      | error err => exact refl n
      | ok copy => exact Moves.write (.nothing h.idle h.toWorking h.single hkeep)

theorem executePending_moves (h : n.Ready e) (v) : n.Moves a (n.executePending e v).2 := by
  unfold executePending
  by_cases hi : (e.reference.kind = .invite && !v.invitation && !e.cancel) = true
  · rw [if_pos hi]
    exact refl n
  rw [if_neg hi]
  by_cases hc : e.cancel = true
  · rw [if_pos hc]
    exact stop_moves h rfl _
  rw [if_neg hc]
  cases (if e.body.any Operation.messageAction then v.target else .found false) with
  | failed err => exact refl n
  | unavailable => exact stop_moves h rfl _
  | found expired =>
    cases expired with
    | true => exact stop_moves h rfl _
    | false =>
      cases e.body with
      | none => exact refl n
      | some body =>
        dsimp only
        cases n.verdict e body v with
        | error err => exact refl n
        | ok verdict =>
          rcases verdict with _ | (_ | reason)
          · exact refl n
          · exact carryOut_moves h (Bool.not_eq_true _ ▸ hc) v
          · exact stop_moves h rfl _

theorem executeSourceControl_moves (hs : n.journal.Sound) (id v) :
    n.Moves a (n.executeSourceControl id v).2 := by
  unfold executeSourceControl
  by_cases hco : (n.journal.entries.get id).any n.coordinated = true
  · rw [if_pos hco]
    exact refl n
  rw [if_neg hco]
  by_cases hr : v.retired = true
  · rw [if_pos hr]
    exact refl n
  rw [if_neg hr]
  have h := recoverDelivery_moves (a := a) v.recovery n
  have hset := (recoverDelivery_recovers v.recovery n).settles
  cases hrec : n.recoverDelivery v.recovery with
  | mk result m =>
    rw [hrec] at h hset
    cases result with
    | error e => exact h
    | ok u =>
      dsimp only
      cases hf : (m.journal.entries.get id).filter fun e => e.source && !e.terminal with
      | none => exact h
      | some e =>
        obtain ⟨hget, hsrc⟩ := filter_eq_some_iff.mp hf
        simp only [Bool.and_eq_true, Bool.not_eq_true'] at hsrc
        obtain rfl : e.reference.id = id := ((h.sound hs).entries id e hget).1
        -- what has not ended was not touched by the recovery
        have hsingle : m.coordinated e = false := by
          rcases hset.entries e.reference.id with hsame | ⟨e', he', ht⟩
          · rw [hget] at hsame
            rw [← hsame, any_some, Bool.not_eq_true] at hco
            unfold coordinated at hco ⊢
            rwa [hset.links]
          · rw [hget] at he'
            cases he'
            rw [hsrc.2] at ht
            cases ht
        exact h.trans (executePending_moves ⟨⟨hget, hsrc.1, hsrc.2⟩,
          recoverDelivery_ok hrec, hsingle⟩ v)

/-! ### Departures and starts -/

theorem settleDeparture_moves {parent plan children zero}
    (ha : a = .settleDeparture parent plan children zero io) :
    n.Moves a (n.settleDeparture parent plan children zero io).2 := by
  unfold settleDeparture
  dsimp only
  split_ifs
  · exact refl n
  · exact Moves.write (.departureSettled ha)

theorem stopDeparture_moves {parent} (ha : a = .stopDeparture parent io) :
    n.Moves a (n.stopDeparture parent io).2 := by
  unfold stopDeparture
  split_ifs with hc
  · exact Moves.write (.departureStopped ha hc)
  · exact refl n

theorem completeFileCopy_moves (hs : n.journal.Sound) (io r d) :
    n.Moves a { n with journal := (n.journal.completeFileCopy io r d).2 } := by
  unfold completeFileCopy
  cases he : n.journal.entries.get r.id with
  | none => exact refl n
  | some e =>
    dsimp only
    split_ifs with hbad
    · exact refl n
    simp only [Bool.or_eq_true, Bool.not_eq_true', decide_eq_true_eq, not_or, not_not] at hbad
    cases e.fileCopy.filter fun copy => copy.descriptor = d with
    | none => exact refl n
    | some copy =>
      dsimp only
      split_ifs
      · exact refl n
      · rw [← (hs.entries _ _ he).1] at he
        exact Moves.write (.copied he hbad.2)

theorem reopen_moves (ha : a = .reopen recovery) : n.Moves a (n.reopen recovery) := by
  have h : n.Moves a (n.move .reopen) := one _ (.reopened ⟨recovery, ha⟩)
  unfold move at h
  unfold reopen
  cases hk : openRows n.journal.account n.journal.device n.journal.rows with
  | error e => exact refl n
  | ok j =>
    rw [hk] at h
    exact h.trans (recoverDelivery_moves recovery _)

/-- **A step is a chain of the moves it may make.** -/
theorem step_moves (hs : n.journal.Sound) (a) : n.Moves a (n.step a) := by
  cases ha : a with
  | submit s io => exact submit_moves rfl
  | cancel account id recovery io => exact cancel_moves rfl
  | request r v asked io =>
    rw [step]
    split_ifs
    · exact takeRequest_moves v asked io rfl
    · exact refl n
  | result sender r v =>
    rw [step]
    split_ifs
    · exact importGroupOperationResult_moves v rfl
    · exact refl n
  | lookup l io => exact answerLookup_moves l io
  | legRequest leg v linkIo io =>
    rw [step]
    split_ifs
    · exact takeLegRequest_moves rfl
    · exact refl n
  | legResult sender leg v linkIo =>
    rw [step]
    split_ifs
    · exact takeLegResult_moves rfl
    · exact refl n
  | execute id v => exact executeSourceControl_moves hs id v
  | planLegs plan legs io => exact Moves.write (.planned rfl)
  | cancelLeg child io => exact Moves.write (.legCancelled rfl)
  | stopDeparture parent io => exact stopDeparture_moves rfl
  | settleDeparture parent plan children zero io => exact settleDeparture_moves rfl
  | prepareFile payload assets io => exact Moves.write .prepared
  | fileCopied reference descriptor io => exact completeFileCopy_moves hs io reference descriptor
  | recover recovery => exact recoverDelivery_moves recovery n
  | reopen recovery => exact reopen_moves rfl

end Node

end MeshTalk.AccountGroup
