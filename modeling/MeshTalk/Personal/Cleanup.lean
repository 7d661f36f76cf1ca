import MeshTalk.Personal.Control
import MeshTalk.Lib.Reach

/-! # Cleaning up after a deletion

A device and its attempts to clean up (`retry_personal_cleanup_for`, `apply_personal_floor` and the
erasures of `node/lifecycle.rs`). An attempt takes its locks one after the other, so it is a thread
with a program counter, and between any two of its steps documents may be merged, the operation
journal may move on, the membership of a group may change, and other attempts may run. Whatever else
a step depends on (file operations, whether the account is still the signed in one) is an input
`Io`.

The journal, the answer of `account_group_access_with_closed` and the log are states that other
components change. The rows are the private transcripts, of all three kinds. -/

namespace MeshTalk.Personal

open Lib Channel AccountGroup Relation List

/-! ### Signed ancestry -/

/-- What the events of a group say: their parents, their group, and whether they carry a message or
a file. -/
class EventGraph where
  parents : EventId → List EventId
  group : EventId → ConversationId
  content : EventId → Bool

section Ancestry

variable [EventGraph]

def Follows (anchor id : EventId) : Prop :=
  Relation.ReflTransGen (fun v w => v ∈ EventGraph.parents w) anchor id

def logged (log : List EventId) (group : ConversationId) (id : EventId) : Bool :=
  log.contains id && EventGraph.group id = group

def childrenIn (log : List EventId) (group : ConversationId) (v : EventId) : List EventId :=
  if logged log group v then
    log.filter fun e => logged log group e && (EventGraph.parents e).contains v
  else []

def parentsIn (log : List EventId) (group : ConversationId) (v : EventId) : List EventId :=
  if logged log group v then EventGraph.parents v else []

def descendants (log : List EventId) (group : ConversationId) (anchors : List EventId) :
    Finset EventId :=
  let start := anchors.filter (logged log group)
  (walk (childrenIn log group) (fun _ => false)
    (rounds (childrenIn log group) log.toFinset start ∅ + 1)
    start ∅).getD ∅

def descends (log : List EventId) (group : ConversationId) (anchors : List EventId)
    (event : EventId) : Bool :=
  (walk (parentsIn log group) (fun v => logged log group v && anchors.contains v)
    (rounds (parentsIn log group) log.toFinset [event] ∅ + 1) [event] ∅).isNone

variable {log : List EventId} {group : ConversationId} {anchors : List EventId} {id : EventId}

theorem follows_of_reach_children {v w} (h : ReflTransGen (Edge (childrenIn log group)) v w) :
    Follows v w := by
  refine ReflTransGen.mono ?_ v w h
  intro a b hab
  unfold Edge childrenIn at hab
  split at hab
  · rw [mem_filter, Bool.and_eq_true] at hab
    exact contains_iff_mem.mp hab.2.2
  · cases hab

theorem follows_of_reach_parents {v w} (h : ReflTransGen (Edge (parentsIn log group)) v w) :
    Follows w v := by
  refine reflTransGen_swap.mp (ReflTransGen.mono ?_ v w h)
  intro a b hab
  unfold Edge parentsIn at hab
  split at hab
  · exact hab
  · cases hab

theorem follows_of_mem_descendants (h : id ∈ descendants log group anchors) :
    ∃ anchor ∈ anchors, Follows anchor id := by
  unfold descendants at h
  dsimp only at h
  cases hw : walk (childrenIn log group) (fun _ => false)
      (rounds (childrenIn log group) log.toFinset (anchors.filter (logged log group)) ∅ + 1)
      (anchors.filter (logged log group)) ∅ with
  | none =>
    rw [hw] at h
    exact absurd h (Finset.notMem_empty id)
  | some S =>
    rw [hw, Option.getD_some] at h
    obtain ⟨v, hv, hr⟩ := (mem_of_walk_eq_some hw).mp h
    exact ⟨v, (mem_filter.mp hv).1, follows_of_reach_children hr⟩

theorem parentsIn_of_notMem {v} (h : v ∉ log.toFinset) : parentsIn log group v = [] := by
  unfold parentsIn
  rw [if_neg]
  intro hl
  rw [logged, Bool.and_eq_true] at hl
  exact h (mem_toFinset.mpr (contains_iff_mem.mp hl.1))

theorem follows_of_descends (h : descends log group anchors id = true) :
    ∃ anchor ∈ anchors, Follows anchor id := by
  unfold descends at h
  rw [Option.isNone_iff_eq_none] at h
  obtain ⟨v, hv, w, hr, hw⟩ := stop_of_walk (fun v => parentsIn_of_notMem) (Nat.lt_succ_self _) h
  rw [mem_singleton] at hv
  subst hv
  rw [Bool.and_eq_true] at hw
  exact ⟨w, contains_iff_mem.mp hw.2, follows_of_reach_parents hr⟩

end Ancestry

/-! ### A device -/

inductive AccessError where
  | stale | other
deriving DecidableEq

/-- A message or file card, and since when this copy is held. -/
structure Row where
  host : DocumentConversation
  id : EventId
  since : ℕ
deriving DecidableEq

/-- A completed erasure: the deletion it applied, the memberships it spared, when it was, and the
ids it suppressed. -/
structure Erasure where
  conversation : DocumentConversation
  floor : DocumentVersion
  closed : List MembershipLifetime
  spared : List MembershipLifetime
  time : ℕ
  suppressed : List EventId

inductive Pc where
  | choosing (rest : List OperationReference)
  | chosen (reference : OperationReference)
  | leaving (reference : OperationReference)
  | deleting (reference : OperationReference)
  | flooring
  | applying (floor : Document)
  | drafting (floor : Document)
  | recording (floor : Document)
  | acknowledging (floor : Document)
  | forgetting
deriving DecidableEq

/-- An attempt to clean a conversation up, or, before a live message, to apply its floor only. -/
structure Attempt where
  target : DocumentConversation
  live : Bool
  pc : Pc
deriving DecidableEq

/-- A device of the account. The clock `now` and the list `erasures` are kept for the proofs. -/
structure Device where
  store : Store
  journal : Table OperationId (OperationReference × Phase)
  access : ConversationId → Except AccessError Access
  log : List EventId
  rows : List Row
  suppressed : List (DocumentConversation × EventId)
  attempts : Table ℕ Attempt
  now : ℕ
  erasures : List Erasure

/-- What else a step of an attempt depends on: whether its check or file operation succeeds, whether
its document is saved, whether the group is listed, and what an erasure that fails has removed. -/
structure Io where
  ok : Bool
  saved : Bool
  listed : Bool
  removed : List EventId

def anchor (l : MembershipLifetime) : EventId := l.acceptance.getD l.membership

def current (role : Role) : Bool := role = .owner || role = .member || role = .invited

def freshLifetimes (access : Access) (closed : List MembershipLifetime) : List MembershipLifetime :=
  (access.sources.filter fun source => current source.role && !closed.contains source.lifetime).map
    (·.lifetime)

/-- The account is out of the group, and every membership it had is one the deletion is for. -/
def allClosed (access : Access) (closed : List MembershipLifetime) : Bool :=
  (access.role = .left || access.role = .dissolved) && !access.sources.isEmpty &&
    access.sources.all fun source => closed.contains source.lifetime

theorem not_mem_closed_of_fresh {access closed l} (h : l ∈ freshLifetimes access closed) :
    l ∉ closed := by
  obtain ⟨source, hs, rfl⟩ := mem_map.mp h
  have := (mem_filter.mp hs).2
  rw [Bool.and_eq_true, Bool.not_eq_true'] at this
  exact fun hm => by
    rw [contains_iff_mem.mpr hm] at this
    cases this.2

namespace Store

def leaveCleanup (s : Store) (id : OperationId) : Option Bool :=
  s.personal.findSome? fun d =>
    match d.control.action with
    | .leaveChoice reference deleteHistory => if reference.id = id then some deleteHistory else none
    | _ => none

def leaveChosen (s : Store) (id : OperationId) : Option OperationReference :=
  s.personal.findSome? fun d =>
    match d.control.action with
    | .leaveChoice reference _ => if reference.id = id then some reference else none
    | _ => none

/-- The deletion that was asked for with a leave has been applied here, if one was. -/
def leaveCleanupComplete (own : PublicIdentity) (s : Store) (id : OperationId) : Option Bool :=
  (s.leaveCleanup id).map fun requested =>
    !requested || (s.leaveChosen id).any fun reference =>
      s.personal.any fun d =>
        d.conversation = .channel reference.group && d.leave = some id &&
          d.closed.contains reference.executor.lifetime &&
            s.personal.any fun ack => ack.control.action = .applied d.version own

def requestedLeaves (s : Store) (c : DocumentConversation) : List OperationReference :=
  let controls := s.personal.filter fun d => d.conversation = c
  (controls.filterMap Document.requests).filter fun reference =>
    !controls.any fun d => d.leave = some reference.id

theorem mem_requestedLeaves {s : Store} {c r} :
    r ∈ s.requestedLeaves c ↔ (∃ d ∈ s.personal, d.conversation = c ∧ d.requests = some r) ∧
      ∀ d ∈ s.personal, d.conversation = c → d.leave ≠ some r.id := by
  simp [requestedLeaves, and_assoc]

end Store

structure PersonalState where
  known : Bool
  hidden : Bool
  clearHistory : Bool
  localCleanupComplete : Bool

namespace Device

variable [Sha256] [ContentHash] [EventGraph] (own : PublicIdentity) (d : Device)

def committedPersonalLeave (d : Device) (reference : OperationReference) : Bool :=
  (d.journal.get reference.id).any fun entry => entry.1 = reference && entry.2 = .committed

def withStore (d : Device) (store : Store) : Device := { d with store := store }

def goto (d : Device) (n : ℕ) (a : Attempt) (pc : Pc) : Device :=
  { d with attempts := d.attempts.set n { a with pc := pc } }

def drop (d : Device) (n : ℕ) : Device := { d with attempts := d.attempts.erase n }

/-- The device after the floor has been seen to. -/
def settle (d : Device) (n : ℕ) (a : Attempt) : Device :=
  if a.live then d.drop n else d.goto n a .forgetting

/-- The memberships to spare when a floor is applied, or nothing if it cannot be applied yet. -/
def eraseScope (d : Device) (floor : Document) :
    Except AccessError (Option (List MembershipLifetime)) :=
  match floor.conversation with
  | .account _ => .ok (some [])
  | .channel group =>
    match d.access group with
    | .error e => .error e
    | .ok access =>
      if (freshLifetimes access floor.closed).isEmpty then
        if allClosed access floor.closed then .ok (some []) else .ok none
      else .ok (some (freshLifetimes access floor.closed))

def sparedEvents (d : Device) (c : DocumentConversation) (fresh : List MembershipLifetime) :
    Finset EventId :=
  match c with
  | .account _ => ∅
  | .channel group => if fresh.isEmpty then ∅ else descendants d.log group (fresh.map anchor)

/-- The ids an erasure suppresses: those of the rows it removes, and of the signed content of a
listed group. -/
def toSuppress (d : Device) (c : DocumentConversation) (fresh : List MembershipLifetime)
    (listed : Bool) : List EventId :=
  match c with
  | .account _ => (d.rows.filter fun r => r.host = c).map (·.id)
  | .channel group =>
    if listed then
      ((d.rows.filter fun r => r.host = c).map (·.id) ++
        d.log.filter fun e => logged d.log group e && EventGraph.content e).filter
          fun id => id ∉ d.sparedEvents c fresh
    else []

/-- Remove the rows of a conversation but for what follows the memberships to spare. -/
def erase (d : Device) (floor : Document) (fresh : List MembershipLifetime) (listed : Bool) :
    Device :=
  let c := floor.conversation
  let spared := d.sparedEvents c fresh
  { d with
    rows := d.rows.filter fun r => r.host ≠ c || r.id ∈ spared
    suppressed := d.suppressed ++ (d.toSuppress c fresh listed).map fun id => (c, id)
    now := d.now + 1
    erasures := d.erasures ++
      [⟨c, floor.version, floor.closed, fresh, d.now, d.toSuppress c fresh listed⟩] }

def erasePart (d : Device) (c : DocumentConversation) (fresh : List MembershipLifetime)
    (removed : List EventId) : Device :=
  let gone := removed.filter fun id => id ∉ d.sparedEvents c fresh
  { d with
    rows := d.rows.filter fun r => r.host ≠ c || r.id ∉ gone
    suppressed := d.suppressed ++ gone.map fun id => (c, id) }

/-- Write a control and go on, or end the attempt. -/
def write (d : Device) (c : DocumentConversation) (id : ActionId) (action : PersonalAction)
    (saved : Bool) (next : Device → Device) (n : ℕ) : Device :=
  match d.store.writePersonal own c id action saved with
  | .ok store => next (d.withStore store)
  | .error _ => d.drop n

def advance (n : ℕ) (a : Attempt) (io : Io) : Device :=
  match a.pc with
  | .choosing [] => d.goto n a .flooring
  | .choosing (reference :: rest) =>
    if d.committedPersonalLeave reference then d.goto n a (.chosen reference)
    else d.goto n a (.choosing rest)
  | .chosen reference =>
    if d.store.leaveCleanupComplete own reference.id = some true then d.goto n a .flooring
    else if d.committedPersonalLeave reference then d.goto n a (.leaving reference)
    else d.goto n a .flooring
  | .leaving reference =>
    match d.access reference.group with
    | .error _ => d.drop n
    | .ok access =>
      if access.role = .left && access.sources.any fun s =>
        s.lifetime = reference.executor.lifetime then
        d.goto n a (.deleting reference)
      else d.goto n a .flooring
  | .deleting reference =>
    match d.access reference.group with
    | .error _ => d.drop n
    | .ok access =>
      if (access.role = .left || access.role = .dissolved) && !access.sources.isEmpty then
        d.write own (.channel reference.group) (.leaveDelete reference.id)
          (.delete true (access.sources.map (·.lifetime)) (some reference.id)) io.saved
          (fun d => d.goto n a .flooring) n
      else d.drop n
  | .flooring =>
    match d.store.floors.get a.target with
    | none => d.goto n a .forgetting
    | some floor => d.goto n a (.applying floor)
  | .applying floor =>
    if !io.ok then d.drop n
    else if d.store.sourceApplied a.target own then d.settle n a
    else
      match d.eraseScope floor with
      | .error _ => d.drop n
      | .ok none => d.settle n a
      | .ok (some fresh) =>
        if io.saved then (d.erase floor fresh io.listed).goto n a (.drafting floor)
        else (d.erasePart a.target fresh io.removed).drop n
  | .drafting floor => if io.ok then d.goto n a (.recording floor) else d.drop n
  | .recording floor =>
    if (d.store.floors.get a.target).map (·.version) = some floor.version then
      d.goto n a (.acknowledging floor)
    else d.drop n
  | .acknowledging floor =>
    d.write own a.target (.applied floor.version own) (.applied floor.version own) io.saved
      (fun d => d.settle n a) n
  | .forgetting =>
    (d.withStore { d.store with pending := d.store.pending.filter (· ≠ a.target) }).drop n

/-! ### Commands -/

def lastDeletion (s : Store) (c : DocumentConversation) : Option Document :=
  (s.personal.filter fun x => x.conversation = c &&
    match x.control.action with
    | .delete _ _ _ => true
    | _ => false).argmax (·.version)

def conversationPersonalState (c : DocumentConversation) : PersonalState :=
  let complete := d.store.sourceApplied c own
  match lastDeletion d.store c with
  | none => ⟨false, false, false, complete⟩
  | some deletion =>
    let restored := d.store.personal.any fun x => x.conversation =
      c && deletion.version < x.version && x.control.action = .reopen deletion.version
    let groupCurrent :=
      match c with
      | .account _ => true
      | .channel group =>
        match d.access group with
        | .error _ => false
        | .ok access => allClosed access deletion.closed
    ⟨true, !restored && groupCurrent, deletion.clears, complete⟩

def command (c : DocumentConversation) (id : ActionId) (action : PersonalAction) (saved : Bool) :
    Device :=
  match d.store.writePersonal own c id action saved with
  | .ok store => d.withStore store
  | .error _ => d

def deleteLeftGroup (group : ConversationId) (id : OperationId) (saved : Bool) : Device :=
  if (d.conversationPersonalState own (.channel group)).hidden then d
  else
    match d.access group with
    | .error _ => d
    | .ok access =>
      if (access.role = .left || access.role = .dissolved) && !access.sources.isEmpty then
        d.command own (.channel group) (.operation id)
          (.delete true (access.sources.map (·.lifetime)) none) saved
      else d

def deleteAccountContact (peer : String) (clearHistory : Bool) (id : OperationId) (saved : Bool) :
    Device :=
  let state := d.conversationPersonalState own (.account peer)
  if state.known && state.hidden && state.clearHistory = clearHistory then d
  else d.command own (.account peer) (.operation id) (.delete clearHistory [] none) saved

/-- The reopening of a deleted contact, by hand or by a live message. -/
def reopenPersonal (peer : String) (id : OperationId) (saved : Bool) : Device :=
  let state := d.conversationPersonalState own (.account peer)
  if !state.known || !state.hidden || !state.localCleanupComplete then d
  else
    match lastDeletion d.store (.account peer) with
    | none => d
    | some deletion =>
      d.command own (.account peer) (.operation id) (.reopen deletion.version) saved

def chooseLeave (reference : OperationReference) (deleteHistory : Bool) (saved : Bool) : Device :=
  d.command own (.channel reference.group) (.operation reference.id)
    (.leaveChoice reference deleteHistory) saved

/-- Begin an attempt, with the controls as they are. Before a live message it begins with the
floor. -/
def start (d : Device) (n : ℕ) (target : DocumentConversation) (live : Bool) : Device :=
  if d.attempts.has n then d
  else if live then
    match d.store.floors.get target with
    | none => d
    | some floor => { d with attempts := d.attempts.set n ⟨target, true, .applying floor⟩ }
  else { d with
    attempts := d.attempts.set n ⟨target, false, .choosing (d.store.requestedLeaves target)⟩ }

def journalPut (d : Device) (reference : OperationReference) (phase : Phase) : Device :=
  if (d.journal.get reference.id).any fun entry => entry.2 = .committed then d
  else { d with journal := d.journal.set reference.id (reference, phase) }

/-- Store a row, unless it is there. -/
def record (d : Device) (host : DocumentConversation) (id : EventId) : Device :=
  if d.rows.any fun r => r.host = host && r.id = id then d
  else { d with rows := d.rows ++ [⟨host, id, d.now⟩], now := d.now + 1 }

/-- Delete single messages here, which are not to come back. -/
def suppress (d : Device) (host : DocumentConversation) (ids : List EventId) : Device :=
  { d with
    rows := d.rows.filter fun r => r.host ≠ host || r.id ∉ ids
    suppressed := d.suppressed ++ ids.map fun id => (host, id) }

/-- The process ends and starts again: the attempts are gone, the store is opened from its
documents. -/
def restart (d : Device) : Device :=
  { d with store := Store.openFrom d.store.personal, attempts := ∅ }

inductive Action where
  | merge (document : Document) (saved : Bool)
  | noteGroup (group : ConversationId)
  | journal (reference : OperationReference) (phase : Phase)
  | membership (group : ConversationId) (access : Except AccessError Access)
  | learn (event : EventId)
  | chooseLeave (reference : OperationReference) (deleteHistory saved : Bool)
  | deleteLeftGroup (group : ConversationId) (id : OperationId) (saved : Bool)
  | deleteAccountContact (peer : String) (clearHistory : Bool) (id : OperationId) (saved : Bool)
  | reopen (peer : String) (id : OperationId) (saved : Bool)
  | start (n : ℕ) (target : DocumentConversation) (live : Bool)
  | advance (n : ℕ) (io : Io)
  | receive (host : DocumentConversation) (id : EventId)
  | suppress (host : DocumentConversation) (ids : List EventId)
  | restart

def perform : Action → Device
  | .merge document saved =>
    match d.store.merge document saved with
    | .ok store => d.withStore store
    | .error _ => d
  | .noteGroup group => d.withStore (d.store.noteGroup group)
  | .journal reference phase => d.journalPut reference phase
  | .membership group access => { d with access := Function.update d.access group access }
  | .learn event => { d with log := d.log.insert event }
  | .chooseLeave reference deleteHistory saved => d.chooseLeave own reference deleteHistory saved
  | .deleteLeftGroup group id saved => d.deleteLeftGroup own group id saved
  | .deleteAccountContact peer clearHistory id saved =>
      d.deleteAccountContact own peer clearHistory id saved
  | .reopen peer id saved => d.reopenPersonal own peer id saved
  | .start n target live => d.start n target live
  | .advance n io =>
    match d.attempts.get n with
    | none => d
    | some a => d.advance own n a io
  | .receive host id => d.record host id
  | .suppress host ids => d.suppress host ids
  | .restart => d.restart

def run (actions : List Action) : Device := actions.foldl (fun d a => d.perform own a) d

end Device

end MeshTalk.Personal
