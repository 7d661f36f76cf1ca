import MeshTalk.EventLog.Store
import MeshTalk.EventLog.Order
import MeshTalk.Lib.Codec

/-! # Reconciliation

The three messages of `eventlog/sync.rs`: a request with the ids one side holds, a response with the
events it misses, and a follow-up with the events the responder misses. The functions are generic
over the store as in the source (`SyncStore`); `EventLog` is the in-memory one.

A store taken mutably is returned beside the result, also when the call fails, because what was
ingested before the failure stays. -/

namespace MeshTalk

open Lib List

/-- Bytes of a frame reserved for what is not events. -/
def syncMargin : ℕ := 256

/-- "For this conversation, here are the ids I have." -/
structure SyncRequest where
  conversation : ConversationId
  have_ : List EventId

structure SyncResponse where
  conversation : ConversationId
  events : List Event
  have_ : List EventId

/-- The events the responder misses. -/
structure SyncFollowup where
  conversation : ConversationId
  events : List Event

/-- The outcome of ingesting a batch. -/
structure ApplyReport where
  applied : ℕ
  duplicates : ℕ
  rejected : List (EventId × String)
deriving DecidableEq

/-! ### Frames -/

def encodedEventSize (e : Event) : ℕ :=
    148 + 32 * e.parents.length + e.ciphertext.length + e.sig.length

section Frames

variable {τ : Type*} (size : τ → ℕ) (budget maxFrames : ℕ)

/-- The loop of `framePrefix`: bytes used in the frame, frames filled, and whether an event is
in. -/
def framePrefixFrom : List τ → ℕ → ℕ → Bool → List τ
  | [], _, _, _ => []
  | e :: rest, used, frames, frameHasEvent =>
    if maxFrames = 0 then []
    else if frameHasEvent && decide (saturatingAdd usizeMax used (size e) > budget) then
      if frames + 1 = maxFrames then []
      else e :: framePrefixFrom rest (saturatingAdd usizeMax 0 (size e)) (frames + 1) true
    else e :: framePrefixFrom rest (saturatingAdd usizeMax used (size e)) frames true

/-- The longest greedy initial part fitting `maxFrames` frames. The first event is kept even when it
alone exceeds the budget. -/
def framePrefix (events : List τ) : List τ := framePrefixFrom size budget maxFrames events 0 0 false

end Frames

def capEventFrames (events : List Event) (budget maxFrames : ℕ) : List Event :=
  framePrefix encodedEventSize budget maxFrames events

def boundedEvents (events : List Event) (budget maxFrames : ℕ) : List Event :=
  framePrefix encodedEventSize budget maxFrames events

def followupLoop (c : ConversationId) (budget maxFrames : ℕ) :
    List Event → List SyncFollowup → List Event → ℕ → List SyncFollowup × List Event
  | [], frames, events, _ => (frames, events)
  | e :: rest, frames, events, used =>
    if events ≠ [] ∧ saturatingAdd usizeMax used (encodedEventSize e) > budget then
      if frames.length + 1 = maxFrames then (frames ++ [⟨c, events⟩], [])
      else followupLoop c budget maxFrames rest (frames ++ [⟨c, events⟩]) [e]
        (saturatingAdd usizeMax 0 (encodedEventSize e))
    else followupLoop c budget maxFrames rest frames (events ++ [e])
      (saturatingAdd usizeMax used (encodedEventSize e))

def followupFrames (c : ConversationId) (allMissing : List Event) (budget maxFrames : ℕ) :
    List SyncFollowup :=
  let (frames, events) := followupLoop c budget maxFrames allMissing [] [] 0
  if events ≠ [] ∧ frames.length < maxFrames then frames ++ [⟨c, events⟩] else frames

/-! ### Stores -/

/-- The operations sync needs from a store. -/
class SyncStore (σ : Type*) where
  eventIds : σ → ConversationId → Except LogError (List EventId)
  eventsExcluding : σ → ConversationId → Finset EventId → Except LogError (List Event)
  eventsExcludingBounded : σ → ConversationId → Finset EventId → ℕ → ℕ →
      Except LogError (List Event) := fun s c held budget maxFrames =>
    (eventsExcluding s c held).map fun events => capEventFrames events budget maxFrames
  ingest : σ → Event → Except LogError AppendOutcome × σ

def byId (events : List Event) : Map EventId Event := events.foldl (fun m e => m.insert e.id e) ∅

theorem mem_of_lookup_byId {events i e} (h : (byId events).lookup i = some e) :
    e ∈ events ∧ e.id = i := by
  unfold byId at h
  induction events using reverseRecOn with
  | nil => simp at h
  | append_singleton events x ih =>
    rw [foldl_append, foldl_cons, foldl_nil, Map.lookup_insert_ite] at h
    split_ifs at h with hi
    · cases h
      exact ⟨by simp, hi.symm⟩
    · obtain ⟨he, hid⟩ := ih h
      exact ⟨mem_append_left _ he, hid⟩

theorem lookup_byId {events} (hn : (events.map Event.id).Nodup) {e} (he : e ∈ events) :
    (byId events).lookup e.id = some e := by
  have key : ∀ {events : List Event} {m : Map EventId Event}, (events.map Event.id).Nodup →
      (events.foldl (fun m e => m.insert e.id e) m).lookup e.id =
        (events.find? fun x => x.id = e.id).or (m.lookup e.id) := by
    intro events
    induction events with
    | nil => simp
    | cons x events ih =>
      intro m hn
      obtain ⟨hx, hn⟩ := nodup_cons.mp hn
      rw [foldl_cons, ih hn, Map.lookup_insert_ite, find?_cons]
      by_cases hv : x.id = e.id
      · have : events.find? (fun y => y.id = e.id) = none := by
          simp only [find?_eq_none, decide_eq_true_eq]
          exact fun y hy h => hx (mem_map.mpr ⟨y, hy, h.trans hv.symm⟩)
        simp [hv, this]
      · simp [hv, Ne.symm hv]
  rw [byId, key hn]
  cases hf : events.find? (fun x => x.id = e.id) with
  | none => exact absurd (find?_eq_none.mp hf e he) (by simp)
  | some x =>
    have hx : x.id = e.id := by simpa using find?_some hf
    rw [inj_on_of_nodup_map hn (mem_of_find?_eq_some hf) he hx]
    rfl

def takeOrdered : List EventId → Map EventId Event → List Event
  | [], _ => []
  | id :: ids, m =>
    match m.lookup id with
    | some e => e :: takeOrdered ids (m.erase id)
    -- the source expects every ordered id to be there, `takeOrdered_ids`
    | none => takeOrdered ids m

def causalEvents (events : List Event) : List Event :=
  takeOrdered (orderedIds events [] true) (byId events)

instance [EventCrypto] : SyncStore EventLog where
  eventIds l c := .ok ((l.eventsOf c).map Event.id)
  eventsExcluding l c held := .ok ((causalEvents (l.eventsOf c)).filter fun e => e.id ∉ held)
  eventsExcludingBounded l c held budget maxFrames :=
    .ok (boundedEvents ((causalEvents (l.eventsOf c)).filter fun e => e.id ∉ held) budget maxFrames)
  ingest l e := l.append e

/-! ### Fingerprints -/

/-- SHA-256. -/
class Sha256 where
  digest : List UInt8 → BitVec 256

/-! ### Messages -/

section Messages

variable {σ : Type*} [SyncStore σ]

def buildRequest (store : σ) (c : ConversationId) : Except LogError SyncRequest :=
  (SyncStore.eventIds store c).map fun ids => ⟨c, ids⟩

def handleRequestBounded (store : σ) (request : SyncRequest) (frameBudget : ℕ) :
    Except LogError SyncResponse := do
  let responderHave ← SyncStore.eventIds store request.conversation
  let events ← SyncStore.eventsExcludingBounded store request.conversation request.have_.toFinset
    (frameBudget - syncMargin) 1
  return ⟨request.conversation, events, responderHave⟩

/-- Answer a request without a frame limit. -/
def handleRequest (store : σ) (request : SyncRequest) : Except LogError SyncResponse :=
  handleRequestBounded store request usizeMax

def maxRejectedDetail : ℕ := 64

/-- Ingest a batch, tallying outcomes. A rejected event does not stop the batch, a local failure
does. -/
def applyReceivedEvents (ingest : σ → Event → Except LogError AppendOutcome × σ) :
    List Event → ApplyReport → σ → Except LogError ApplyReport × σ
  | [], report, store => (.ok report, store)
  | e :: events, report, store =>
    match ingest store e with
    | (.ok .appended, store) =>
      applyReceivedEvents ingest events { report with applied := report.applied + 1 } store
    | (.ok .duplicate, store) =>
      applyReceivedEvents ingest events { report with duplicates := report.duplicates + 1 } store
    | (.error err, store) =>
      if err.isPeerRejection then
        applyReceivedEvents ingest events
          (if report.rejected.length < maxRejectedDetail then
            { report with rejected := report.rejected ++ [(e.id, err.display)] } else report) store
      else (.error err, store)

/-- Ingest a batch through the store's validation. -/
def ingestAll (store : σ) (events : List Event) : Except LogError ApplyReport × σ :=
  applyReceivedEvents SyncStore.ingest events ⟨0, 0, []⟩ store

/-- Apply a response and pack up to `maxFrames` frames of what the responder misses. -/
def handleResponseBoundedBurst (store : σ) (response : SyncResponse)
    (frameBudget maxFrames : ℕ) : Except LogError (ApplyReport × List SyncFollowup) × σ :=
  match ingestAll store response.events with
  | (.error err, store) => (.error err, store)
  | (.ok report, store) =>
    ((SyncStore.eventsExcludingBounded store response.conversation response.have_.toFinset
      (frameBudget - syncMargin) maxFrames).map fun allMissing =>
        (report, followupFrames response.conversation allMissing (frameBudget - syncMargin)
          maxFrames), store)

/-- Apply a response and build one bounded follow-up. -/
def handleResponseBounded (store : σ) (response : SyncResponse) (frameBudget : ℕ) :
    Except LogError (ApplyReport × SyncFollowup) × σ :=
  match handleResponseBoundedBurst store response frameBudget 1 with
  | (.error err, store) => (.error err, store)
  | (.ok (report, frames), store) =>
    (.ok (report, frames.getLast?.getD ⟨response.conversation, []⟩), store)

/-- Apply a response without a frame limit. -/
def handleResponse (store : σ) (response : SyncResponse) :
    Except LogError (ApplyReport × SyncFollowup) × σ :=
  handleResponseBounded store response usizeMax

def handleFollowup (store : σ) (followup : SyncFollowup) : Except LogError ApplyReport × σ :=
  ingestAll store followup.events

def handleFollowups (store : σ) : List SyncFollowup → Except LogError (List ApplyReport) × σ
  | [] => (.ok [], store)
  | followup :: followups =>
    match handleFollowup store followup with
    | (.error err, store) => (.error err, store)
    | (.ok report, store) =>
      match handleFollowups store followups with
      | (.error err, store) => (.error err, store)
      | (.ok reports, store) => (.ok (report :: reports), store)

variable {ρ : Type*} [SyncStore ρ]

def reconcile (a : σ) (b : ρ) (c : ConversationId) :
    Except LogError (ApplyReport × ApplyReport) × σ × ρ :=
  match buildRequest a c with
  | .error err => (.error err, a, b)
  | .ok request =>
    match handleRequest b request with
    | .error err => (.error err, a, b)
    | .ok response =>
      match handleResponse a response with
      | (.error err, a) => (.error err, a, b)
      | (.ok (reportA, followup), a) =>
        match handleFollowup b followup with
        | (.error err, b) => (.error err, a, b)
        | (.ok reportB, b) => (.ok (reportA, reportB), a, b)

structure Exchange where
  response : SyncResponse
  reportA : ApplyReport
  followups : List SyncFollowup
  reportsB : List ApplyReport

/-- One bounded exchange, as a session drives it: request, response of one frame, and up to
`maxFrames` follow-up frames. -/
def exchange (a : σ) (b : ρ) (c : ConversationId) (frameBudget maxFrames : ℕ) :
    Except LogError Exchange × σ × ρ :=
  match buildRequest a c with
  | .error err => (.error err, a, b)
  | .ok request =>
    match handleRequestBounded b request frameBudget with
    | .error err => (.error err, a, b)
    | .ok response =>
      match handleResponseBoundedBurst a response frameBudget maxFrames with
      | (.error err, a) => (.error err, a, b)
      | (.ok (reportA, followups), a) =>
        match handleFollowups b followups with
        | (.error err, b) => (.error err, a, b)
        | (.ok reportsB, b) => (.ok ⟨response, reportA, followups, reportsB⟩, a, b)

end Messages

end MeshTalk
