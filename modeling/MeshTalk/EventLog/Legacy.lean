import MeshTalk.EventLog.Accepted
import MeshTalk.EventLog.Sync
import MeshTalk.Storage.RecordLog

/-! # The log in a file

The durable log of `eventlog/persist/legacy.rs`: the in-memory log with a record file that holds its
events. What was written is read back without validating it again, so that opening only sorts what
an earlier version left in another order; and dropping, retaining and compacting replace the whole
file.

What the source lists from a hash map or set comes in order here: nothing depends on it, since the
retained events are sorted before they are indexed. Clocks are given, in seconds. -/

namespace MeshTalk

open Lib Storage

/-- Why a call gave up: an `expect` of the source, or an error it returns. -/
inductive Stop where
  | panic (text : String)
  | error (e : LogError)
deriving DecidableEq

def legacyMagic : Bytes 6 := ⟨[77, 84, 76, 79, 71, 49], rfl⟩

/-- The seconds between two scans for superseded profiles. -/
def profileCompactionCooldown : ℕ := 10

def profileRewriteCooldown : ℕ := 60

def profileReclaimRatio : ℕ := 8

/-- The fewest superseded profiles worth a rewrite. -/
def compactProfileMin : ℕ := 8

/-! ### Indexing what was stored -/

namespace EventLog

def parentsHeld (l : EventLog) (e : Event) : Bool :=
  e.parents.all fun p => (l.get p).any fun prior => prior.conversationId = e.conversationId

/-- Index a stored event, or defer it until its parents are. -/
def replayOne (s : EventLog × List Event) (e : Event) : EventLog × List Event :=
  if s.1.parentsHeld e then (s.1.indexTrusted e, s.2) else (s.1, s.2 ++ [e])

/-- Index stored events in the order of the file: the log, and what was deferred. -/
def replay (events : List Event) : EventLog × List Event := events.foldl replayOne (∅, [])

def indexOrdered : List EventId → Map EventId Event → EventLog → List Event →
    Except Stop (EventLog × List Event)
  | [], _, rebuilt, ordered => .ok (rebuilt, ordered)
  | id :: order, byId, rebuilt, ordered =>
    match byId.lookup id with
    | none => .error (.panic "ordered retained event exists")
    | some event =>
      if rebuilt.missingParents event ≠ [] then
        .error (.error (.missingParents (rebuilt.missingParents event)))
      else indexOrdered order (byId.erase id) (rebuilt.indexTrusted event) (ordered ++ [event])

def indexRetained (kept : List Event) (rebuilt : EventLog) : Except Stop (EventLog × List Event) :=
  let order := orderedIds kept [] true
  if order.length ≠ kept.length then
    .error (.error (.corruptFile "retained event graph is not acyclic"))
  else indexOrdered order (byId kept) rebuilt []

def eventsIn (l : EventLog) (chosen : ConversationId → Bool) : List Event :=
  ((OrdSet.ofFinset l.conversations).toList.filter chosen).flatMap l.eventsOf

/-! ### Superseded profiles -/

def referenced (events : List Event) (id : EventId) : Bool := events.any fun e => id ∈ e.parents

def looseProfile (events : List Event) (e : Event) : Bool :=
  e.kind = .profile && !referenced events e.id

def newestProfiles (events : List Event) : Map Author (List EventId) :=
  events.foldl (fun newest e =>
    if looseProfile events e then
      newest.modify e.author [] fun pair =>
        (if pair.length = 2 then pair.drop 1 else pair) ++ [e.id]
    else newest) ∅

/-- The loose profiles of a conversation that are not among their author's newest. -/
def supersededProfileIds (l : EventLog) (c : ConversationId) : List EventId :=
  let events := l.eventsOf c
  let newest := newestProfiles events
  (events.filter fun e => looseProfile events e &&
    !(newest.lookup e.author).any fun pair => e.id ∈ pair).map Event.id

def recordCost (e : Event) : ℕ :=
  saturatingAdd usizeMax
    (saturatingAdd usizeMax e.ciphertext.length (min (e.parents.length * 32) usizeMax)) 256

def costs (events : List Event) (drop : List EventId) : ℕ × ℕ :=
  events.foldl (fun s e => (saturatingAdd usizeMax s.1 (recordCost e),
    saturatingAdd usizeMax s.2 (if e.id ∈ drop then recordCost e else 0))) (0, 0)

end EventLog

/-! ### The durable log -/

structure LegacyEventLog (Key : Type) where
  log : EventLog
  file : RecordLog Key
  pendingProfileCompactions : Finset ConversationId
  lastProfileCompactionScan : Option ℕ
  lastProfileRewriteAttempt : Option ℕ
  fingerprintCache : Map ConversationId (BitVec 256 × ℕ)

namespace LegacyEventLog

variable {Key : Type} [Cipher Key] [Codec Event]

def opened (log : EventLog) (file : RecordLog Key) : LegacyEventLog Key :=
  ⟨log, file, ∅, none, none, ∅⟩

/-- Open a log, or create it if there is no file: the log, and the bytes that are left on the
disk. -/
def openLog (stored : Option (List UInt8)) (password : String) (salt : Bytes saltSize)
    (repair : Repair) : Except Stop (LegacyEventLog Key) × List UInt8 :=
  match stored with
  | none =>
    let file := RecordLog.create password legacyMagic salt
    (.ok (opened ∅ file), file.file)
  | some bytes =>
    match RecordLog.load bytes password legacyMagic repair with
    | (.error e, left) => (.error (.error e), left)
    | (.ok (file, events), left) =>
      let s := EventLog.replay events
      if s.2 ≠ [] then
        match EventLog.indexRetained s.2 s.1 with
        | .error stop => (.error stop, left)
        | .ok r => (.ok (opened r.1 file), left)
      else (.ok (opened s.1 file), left)

variable (l : LegacyEventLog Key)

/-! ### Rewrites -/

/-- Sort the retained events, replace the file by their records and the log by their index. The
nonce of each record is given by its event. -/
def rewriteKept (kept : List Event) (nonces : EventId → Bytes nonceSize) (fault : ReplaceFault) :
    Except Stop Unit × LegacyEventLog Key :=
  match EventLog.indexRetained kept ∅ with
  | .error stop => (.error stop, l)
  | .ok (rebuilt, ordered) =>
    match l.file.rewrite (ordered.map fun e => (e, nonces e.id)) fault with
    | (.error err, file) => (.error (.error err), { l with file := file })
    | (.ok _, file) => (.ok (), { l with log := rebuilt, file := file })

/-- Drop every conversation that is not to be kept; the number of events dropped. -/
def retainConversations (keep : Finset ConversationId) (nonces : EventId → Bytes nonceSize)
    (fault : ReplaceFault) : Except Stop ℕ × LegacyEventLog Key :=
  let kept := l.log.eventsIn fun c => c ∈ keep
  let dropped := l.log.allEventIds.card - kept.length
  if dropped = 0 then (.ok 0, l)
  else
    match l.rewriteKept kept nonces fault with
    | (.error stop, l) => (.error stop, l)
    | (.ok _, l) => (.ok dropped, { l with fingerprintCache := ∅ })

def dropConversation (c : ConversationId) (nonces : EventId → Bytes nonceSize)
    (fault : ReplaceFault) : Except Stop ℕ × LegacyEventLog Key :=
  let dropped := (l.log.eventsOf c).length
  if dropped = 0 then (.ok 0, l)
  else
    match l.rewriteKept (l.log.eventsIn fun d => d ≠ c) nonces fault with
    | (.error stop, l) => (.error stop, l)
    | (.ok _, l) => (.ok dropped, { l with fingerprintCache := l.fingerprintCache.erase c })

/-- Drop the superseded profiles of conversations, if they are enough to be worth a rewrite. A
rewrite on behalf of maintenance is remembered even if it fails. -/
def compactProfileConversations (conversations : List ConversationId) (maintenanceAt : Option ℕ)
    (nonces : EventId → Bytes nonceSize) (fault : ReplaceFault) :
    Except Stop ℕ × LegacyEventLog Key :=
  let drop := (conversations.flatMap l.log.supersededProfileIds).dedup
  if drop.length < compactProfileMin then (.ok 0, l)
  else
    let costs := EventLog.costs (l.log.eventsIn fun _ => true) drop
    if costs.2 < (costs.1 + profileReclaimRatio - 1) / profileReclaimRatio then (.ok 0, l)
    else
      let l := match maintenanceAt with
        | some now => { l with lastProfileRewriteAttempt := some now }
        | none => l
      match l.rewriteKept ((l.log.eventsIn fun _ => true).filter fun e => e.id ∉ drop)
        nonces fault with
      | (.error stop, l) => (.error stop, l)
      | (.ok _, l) => (.ok drop.length, { l with
          fingerprintCache := conversations.foldl (fun m c => m.erase c) l.fingerprintCache })

/-- The time of the last attempt is less than `cooldown` ago. -/
def cooling (last : Option ℕ) (now cooldown : ℕ) : Bool := last.any fun at_ => now - at_ < cooldown

/-- Serve the pending requests by at most one rewrite. A request stays while its conversation has
superseded profiles. -/
def drainOneProfileCompactionAt (now : ℕ) (nonces : EventId → Bytes nonceSize)
    (fault : ReplaceFault) : Except Stop (Option ℕ) × LegacyEventLog Key :=
  if cooling l.lastProfileRewriteAttempt now profileRewriteCooldown then (.ok none, l)
  else if cooling l.lastProfileCompactionScan now profileCompactionCooldown then (.ok none, l)
  else
    let conversations := (OrdSet.ofFinset l.pendingProfileCompactions).toList
    if conversations = [] then (.ok none, l)
    else
      match { l with lastProfileCompactionScan := some now }.compactProfileConversations
        conversations (some now) nonces fault with
      | (.error stop, l) => (.error stop, l)
      | (.ok dropped, l) => (.ok (some dropped), { l with
          pendingProfileCompactions := l.pendingProfileCompactions.filter fun c =>
            ¬ (c ∈ conversations ∧ l.log.supersededProfileIds c = []) })

end LegacyEventLog

end MeshTalk
