import MeshTalk.AccountGroup.Journal
import Mathlib.Data.String.Basic

/-! # Admission and execution of account group operations

What a device does with operations (`operations.rs`, `operations/execution.rs`,
`operations/legacy_leave.rs`): it takes them from its user, from the requests, results and lookups
its siblings publish, carries them out through the delivery store where it is their source, and
coordinates the departure of an account device by device.

Each function runs under the guards of the source, so it is one step. What it reads of other stores,
and what the file system answers, is an argument. The coordinator of a departure reads and writes
under separate guards: its writes are steps of their own, and what they write back is what was read
before. -/

namespace MeshTalk.AccountGroup

open Lib Channel

inductive NodeError where
  | authorization (text : String)
  | channel (text : String)
  | file (text : String)
  | invalidInput (text : String)
  | log (error : LogError)
deriving DecidableEq

/-- A prepared transaction of the delivery store: its public events, and the operation it is for. -/
structure Transaction where
  operation : Option OperationReference
  events : List Event
deriving DecidableEq

/-- A device: its journal, the transactions of its delivery store that are not installed yet, and
the public events it has written. -/
structure Node where
  journal : Journal
  pending : List Transaction
  log : List Event

/-- What the stores answer to the installation of a transaction: how many of its events are written,
the other stores, the journal, the removal of the transaction and its sync. -/
structure RecoverIo where
  events : ℕ
  sidecars : Except LogError Unit
  journal : Io
  removed : Except LogError Unit
  synced : Except LogError Unit

def writeEvents (log events : List Event) : List Event :=
  events.foldl (fun log e => if e ∈ log then log else log ++ [e]) log

namespace Node

def fresh (account : PubKey) (device : PublicIdentity) : Node := ⟨.fresh account device, [], []⟩

variable [Sha256] [EventCrypto] [Serde] [RecordJson] [Payloads] (n : Node)

def wrote (r : Except LogError Unit × Journal) : Except NodeError Unit × Node :=
  (r.1.mapError .log, { n with journal := r.2 })

def operationStatusFor (r : OperationReference) (phase : Phase) : Status :=
  ⟨r.id, accountIdFrom n.journal.account, r.group, r.kind, phase,
    [⟨r.executor.device.userId, phase, []⟩], [], none⟩

/-! ### Recovery of deliveries -/

/-- Install the first pending transaction: its events, the other stores, its operation, and last its
removal. -/
def recoverNext (io : RecoverIo) (tx : Transaction) (rest : List Transaction) :
    Except LogError Unit × Node :=
  let written := { n with log := writeEvents n.log (tx.events.take io.events) }
  if io.events < tx.events.length then (.error (.io "event log"), written)
  else
    match io.sidecars with
    | .error e => (.error e, written)
    | .ok () =>
      match tx.operation.elim (.ok (), n.journal) fun r =>
        n.journal.complete io.journal r tx.events with
      | (.error e, j) => (.error e, { written with journal := j })
      | (.ok (), j) =>
        match io.removed with
        | .error e => (.error e, { written with journal := j })
        | .ok () => (io.synced, { written with journal := j, pending := rest })

/-- Install the pending transactions in order, as long as the stores answer. -/
def recoverDelivery (n : Node) : List RecoverIo → Except LogError Unit × Node
  | [] => (if n.pending.isEmpty then .ok () else .error (.io "delivery store"), n)
  | io :: ios =>
    match n.pending with
    | [] => (.ok (), n)
    | tx :: rest =>
      match n.recoverNext io tx rest with
      | (.ok (), n) => n.recoverDelivery ios
      | failed => failed

/-! ### Submission and cancellation -/

/-- What a submission reads of other stores: whether the runtime is suspended, the metadata of the
group, the account's access, the author of a recalled message, which sources are ready, whether the
request or the lookup fits in the published document, the device's own proof, and the signature and
retained choice of the reference. -/
structure Submission where
  expectedAccount : String
  id : OperationId
  group : ConversationId
  operation : Operation
  suspended : Bool
  lookupFits : Bool
  metadata : Except NodeError Unit
  access : Except NodeError Access
  recallAuthor : Except NodeError PubKey
  ready : Source → Bool
  proof : Announce
  signature : List UInt8
  prepared : OperationReference → Except NodeError OperationReference
  requestFits : Bool

def normalized (op : Operation) : Except NodeError Operation :=
  match op with
  | .rename name => (need (Payloads.normalizeSimpleName name)
      (.invalidInput "invalid name")).map .rename
  | .setHistoryPolicy _ | .dissolve => .ok op
  | op => if Payloads.validExecutionPayload op then .ok op
      else .error (.invalidInput "account group operation kind unavailable")

def known (id : OperationId) : Option (ConversationId × BitVec 256 × Status) :=
  ((n.journal.entries.get id).map fun e => (e.reference.group, e.reference.digest, e.status)).or
    ((n.journal.lookups.get id).map fun l => (l.group, l.digest, l.status))

def eligible (s : Submission) (op : Operation) (access : Access) :
    Except NodeError (List Source) := do
  let sources := access.sources.filter fun source => op.kind.admitsRole source.role
  let sources := if op.selfControl && op ≠ .leaveAccount then
    sources.filter fun source => source.authority.authority.isSome else sources
  ensure (!(op.selfControl && op ≠ .leaveAccount && sources.isEmpty))
    (.invalidInput "group account-membership format update required for this operation")
  match op with
  | .recall _ =>
    let author ← s.recallAuthor
    return sources.filter fun source => source.device.ed25519Pub = author
  | _ => return sources

/-- Ready sources come first, then this device, then by their ids. -/
def preferred (s : Submission) (a b : Source) : Bool :=
  toLex (!s.ready a, toLex (decide (a.device ≠ n.journal.device), a.device.userId)) ≤
    toLex (!s.ready b, toLex (decide (b.device ≠ n.journal.device), b.device.userId))

def newReference (s : Submission) (op : Operation) : Except NodeError OperationReference := do
  s.metadata
  let access ← s.access
  ensure (op.kind.admitsRole access.role)
    (.authorization "account is not authorized for this group operation")
  let sources ← eligible s op access
  let executor ← need (sources.insertionSort fun a b => n.preferred s a b).head?
    (.channel "owner source is reconciling")
  let reference ← s.prepared ⟨s.id, s.group, op.kind, operationDigest s.group op, s.proof, executor,
    s.signature⟩
  ensure (reference.valid n.journal.account ∧ reference.id = s.id ∧ reference.group = s.group ∧
      reference.kind = op.kind ∧ reference.digest = operationDigest s.group op ∧
      reference.origin.publicIdentity = n.journal.device)
    (.authorization "prepared operation identity changed")
  ensure (op.kind ≠ .file ∨ op.filePayload.any fun payload => payload.descriptor.any fun d =>
      d.validFor reference payload.logical)
    (.invalidInput "invalid original File preparation")
  ensure s.requestFits (.invalidInput "account group operation transport capacity exhausted")
  return reference

def reconcilingStatus (s : Submission) (op : Operation) : Status :=
  ⟨s.id, accountIdFrom n.journal.account, s.group, op.kind, .reconciling, [], [], none⟩

def submittedStatus (s : Submission) (op : Operation) (r : OperationReference) : Status :=
  let phase := if s.ready r.executor then .awaitingAcceptance else .waitingForExecutor
  { n.reconcilingStatus s op with
    phase := phase, executions := [⟨r.executor.device.userId, phase, []⟩] }

def submitNew (s : Submission) (op : Operation) (io : Io) : Except NodeError Status × Node :=
  if !s.id.matchesOrigin n.journal.device then
    if s.lookupFits then
      let status := n.reconcilingStatus s op
      let (result, n) :=
        n.wrote (n.journal.putLookup io ⟨s.id, s.group, op, operationDigest s.group op,
        status, false, 0⟩)
      (result.map fun _ => status, n)
    else (.error (.invalidInput "account group operation transport capacity exhausted"), n)
  else
    match n.newReference s op with
    | .error e => (.error e, n)
    | .ok reference =>
      let status := n.submittedStatus s op reference
      let (result, n) :=
        n.wrote (n.journal.put io ⟨reference, some op, status, none, false, false, 0⟩)
      (result.map fun _ => status, n)

/-- A message may be sent that was not admitted before. -/
def newAdmission : Operation → Bool
  | .send message => Payloads.validateNewAdmission message
  | _ => true

def submit (s : Submission) (io : Io) : Except NodeError Status × Node :=
  if s.expectedAccount ≠ accountIdFrom n.journal.account then
    (.error (.authorization "account changed"), n)
  else
    match normalized s.operation with
    | .error e => (.error e, n)
    | .ok op =>
      if s.suspended then (.error (.authorization "restart node after account adoption"), n)
      else
        match n.known s.id with
        | some (group, digest, status) =>
          if group = s.group && digest = operationDigest s.group op then (.ok status, n)
          else (.error (.invalidInput "operation ID belongs to another request"), n)
        | none =>
          if s.id.matchesOrigin n.journal.device && !newAdmission op then
            (.error (.invalidInput "message is not admissible"), n)
          else n.submitNew s op io

def cancelRequested (e : Entry) : Entry :=
  { e with cancel := true, status := { e.status with phase := .cancellationRequested } }

/-- Take a cancellation from the user. The outcome of the recovery before it is not asked for. -/
def cancel (account : String) (id : OperationId) (recovery : List RecoverIo) (io : Io) :
    Except NodeError Status × Node :=
  if account ≠ accountIdFrom n.journal.account then (.error (.authorization "account changed"), n)
  else
    let n := (n.recoverDelivery recovery).2
    match n.journal.entries.get id, n.journal.lookups.get id with
    | some e, _ =>
      if e.terminal then (.ok e.status, n)
      else
        let (result, n) := n.wrote (n.journal.put io (cancelRequested e))
        (result.map fun _ => (cancelRequested e).status, n)
    | none, some l =>
      let l := { l with
        cancel := true, status := { l.status with phase := .cancellationRequested } }
      let (result, n) := n.wrote (n.journal.putLookup io l)
      (result.map fun _ => l.status, n)
    | none, none => (.error (.invalidInput "unknown account group operation"), n)

/-! ### Admission at the source -/

/-- A legacy departure of a member keeps its source while only the epoch advances. -/
def legacyMemberLeaveSourceMatches (r : OperationReference) (source : Source) : Bool :=
  r.kind = .leaveAccount && r.executor.role = .member && source.role = .member &&
    r.executor.authority.authority.isNone && source.authority.authority.isNone &&
    r.executor.authority.epoch ≤ source.authority.epoch &&
    { source with
      execution := r.executor.execution
      authority := { source.authority with epoch := r.executor.authority.epoch } } = r.executor

/-- What became of preparing an effect: it is ready and fits in the delivery store or not, nothing
is to be done, it is refused, or a store failed. -/
inductive Preparation where
  | effect (fits : Bool)
  | nothing
  | refused
  | failed (error : NodeError)

def Preparation.phase (reason : Rejection) : Preparation → Except NodeError Phase
  | effect true | nothing => .ok .accepted
  | effect false => .ok (.rejected .resourceLimit)
  | refused => .ok (.rejected reason)
  | failed e => .error e

/-- The message an action is about: not one, one that has expired or not, one without its metadata,
or a store failed. -/
inductive ActionTarget where
  | found (expired : Bool)
  | unavailable
  | failed (error : NodeError)

structure AdmissionView where
  retired : Except NodeError Bool
  assetsReady : Except NodeError Bool
  target : ActionTarget
  recovery : List RecoverIo
  access : Except NodeError Access
  now : ℕ
  owner : Preparation
  self : Preparation
  action : Preparation
  io : Io

def standing (r : OperationReference) (access : Access) (source : Option Source) : Phase :=
  if !r.kind.admitsRole access.role || !source.any fun s => r.kind.admitsRole s.role then
    .rejected .notAuthorized
  else if (source.any fun s => s.lifetime ≠ r.executor.lifetime || s.authority ≠
    r.executor.authority) && !source.any (legacyMemberLeaveSourceMatches r) then
    .rejected .membershipChanged
  else .accepted

/-- The body of a request may be executed now, given how the source stands. -/
def bodyPhase (r : OperationReference) (body : Option Operation) (now : ℕ) (standing : Phase) :
    Phase :=
  match body with
  | none => .rejected .invalidPayload
  | some op =>
    if !Payloads.validExecutionPayload op || op.kind ≠ r.kind || operationDigest r.group
      op ≠ r.digest then
      .rejected .invalidPayload
    else
      match op with
      | .send message =>
        if (Payloads.expiresAtMs message).any (· ≤ now) then .rejected .expired
        else if !Payloads.validateNewAdmission message then .rejected .invalidPayload
        else standing
      | _ => standing

/-- Go on only with what is accepted so far. -/
def andThen (phase : Phase) (next : Except NodeError Phase) : Except NodeError Phase :=
  if phase = .accepted then next else .ok phase

def controlPhase (v : AdmissionView) (r : RequestProjection) (legacyChild : Bool) :
    Except NodeError Phase :=
  match r.body with
  | none => .ok .accepted
  | some op =>
    if op.ownerControl then v.owner.phase .invalidTarget
    else if op.selfControl then
      if !legacyChild && r.reference.kind = .leaveAccount &&
        r.reference.executor.authority.authority.isNone then .ok .accepted
      else v.self.phase .membershipChanged
    else if op.messageAction then
      match v.target with
      | .unavailable => .ok (.rejected .invalidTarget)
      | .found true => .ok (.rejected .expired)
      | .found false => v.action.phase .invalidTarget
      | .failed e => .error e
    else .ok .accepted

def admissionPhase (v : AdmissionView) (r : RequestProjection) (legacyChild : Bool) :
    Except NodeError Phase :=
  if r.cancel then .ok .cancelled
  else do
    let access ← v.access
    ensure (access.role ≠ .unknown) (.channel "group authority is reconciling")
    let source := access.sources.find? fun s => s.device = n.journal.device
    ensure (source.all fun s => s.execution ≠ .reconciling)
      (.channel "group authority is reconciling")
    andThen (bodyPhase r.reference r.body v.now (standing r.reference access source))
      (controlPhase v r legacyChild)

/-- Write the entry of a request that this device has not admitted yet. A file waits for its
assets. -/
def admitNew (r : RequestProjection) (v : AdmissionView) (ready : Bool) (phase : Phase) :
    Except NodeError Unit × Node :=
  let taken (phase : Phase) := n.wrote (n.journal.put v.io ⟨r.reference, r.body,
    n.operationStatusFor r.reference phase, none, true, r.cancel, 0⟩)
  match r.body.bind Operation.filePayload with
  | some payload =>
    if phase ≠ .accepted then taken phase
    else if !payload.descriptor.any fun d => d.validFor r.reference payload.logical then
      taken (.rejected .invalidPayload)
    else if ready then taken phase
    else
      let (result, n) := n.wrote (n.journal.put v.io ⟨r.reference, r.body,
        n.operationStatusFor r.reference .awaitingAcceptance, none, false, false, 0⟩)
      (result.bind fun _ => .error (.file "original File assets are reconciling"), n)
  | none => taken phase

/-- Admit a request after the recovery of deliveries: one that is known keeps its result, and only
learns that it is to be cancelled. -/
def admitRecovered (r : RequestProjection) (v : AdmissionView) (ready legacyChild : Bool) :
    Except NodeError Unit × Node :=
  let existing := n.journal.entries.get r.reference.id
  if existing.any fun e => e.reference.group ≠ r.reference.group || e.reference.digest ≠
    r.reference.digest
  then (.ok (), n)
  else
    match existing.filter fun e => e.source with
    | some e =>
      if !r.cancel || e.terminal || e.cancel then (.ok (), n)
      else n.wrote (n.journal.put v.io (cancelRequested e))
    | none =>
      if r.body.isNone && !r.cancel then (.ok (), n)
      else
        match n.admissionPhase v r legacyChild with
        | .error e => (.error e, n)
        | .ok phase => n.admitNew r v ready phase

/-- Record that the leg of a departure is over, if its membership has ended: `none` if it has
not. -/
def completeRetiredLeg (r : RequestProjection) (v : AdmissionView) :
    Option (Except NodeError Unit × Node) :=
  match v.retired, n.journal.entries.get r.reference.id with
  | .error e, _ => some (.error e, n)
  | .ok true, some e =>
    if e.terminal then none
    else some (n.wrote (n.journal.put v.io
      { e with source := true, status := n.operationStatusFor e.reference .committed }))
  | .ok _, _ => none

def fileReady (r : RequestProjection) (v : AdmissionView) : Except NodeError Bool :=
  if (r.body.bind Operation.filePayload).isSome then v.assetsReady else .ok false

def targetRead (r : RequestProjection) (v : AdmissionView) : Except NodeError Unit :=
  if r.cancel || (n.journal.entries.get r.reference.id).any (fun e => e.source) then .ok ()
  else if r.body.any Operation.messageAction then
    match v.target with
    | .failed e => .error e
    | _ => .ok ()
  else .ok ()

def admitUnretired (r : RequestProjection) (v : AdmissionView) (legacyChild : Bool) :
    Except NodeError Unit × Node :=
  match fileReady r v, n.targetRead r v with
  | .error e, _ => (.error e, n)
  | .ok _, .error e => (.error e, n)
  | .ok ready, .ok () =>
    match n.recoverDelivery v.recovery with
    | (.error e, n) => (.error (.log e), n)
    | (.ok (), n) => n.admitRecovered r v ready legacyChild

def admitSourceGroupRequest (r : RequestProjection) (v : AdmissionView) :
    Except NodeError Unit × Node :=
  if r.reference.executor.device ≠ n.journal.device || !r.reference.valid n.journal.account then
    (.error (.authorization "invalid operation executor"), n)
  else
    let legacyChild := n.journal.legacyChildren.has r.reference.id
    if legacyChild && !(n.journal.entries.get r.reference.id).any fun e =>
      e.reference.same r.reference then
      (.error (.authorization "legacy departure child binding changed"), n)
    else
      match if legacyChild then n.completeRetiredLeg r v else none with
      | some done => done
      | none => n.admitUnretired r v legacyChild

/-! ### What siblings publish -/

/-- Take a request of a sibling's frame: as its source, or to keep it until its result is known. A
departure that has ended is written again when it is asked for. -/
def takeRequest (r : RequestProjection) (v : AdmissionView) (asked : Bool) (io : Io) :
    Except NodeError Unit × Node :=
  if r.reference.executor.device = n.journal.device then
    match n.admitSourceGroupRequest r v with
    | (.ok (), n) =>
      match (n.journal.entries.get r.reference.id).filter fun e =>
        e.source && e.reference.same r.reference with
      | some parent =>
        if asked && r.reference.kind = .leaveAccount &&
            r.reference.executor.authority.authority.isNone &&
            !n.journal.legacyChildren.has r.reference.id && parent.terminal then
          n.wrote (n.journal.put io parent)
        else (.ok (), n)
      | none => (.ok (), n)
    | failed => failed
  else if n.journal.entries.has r.reference.id || n.journal.lookups.has r.reference.id
    then (.ok (), n)
  else n.wrote (n.journal.put v.io ⟨r.reference, r.body,
    n.operationStatusFor r.reference .awaitingAcceptance, none, false, r.cancel, 0⟩)

/-- What the import of a result reads of other stores: the file copy of a committed file, and
whether the private copies of its message or action could be stored. -/
structure ImportView where
  copy : Except NodeError Bool
  privateCopies : Except NodeError Unit
  io : Io

def importedCopy (r : ResultProjection) (v : ImportView) : Except NodeError (Option FileCopy) :=
  if r.reference.kind = .file && r.status.phase = .committed then
    if r.fileDescriptor.isNone && r.messageEvent.isNone then .ok none
    else
      match r.fileDescriptor.filter fun _ => r.messageEvent.isSome with
      | none => .error (.authorization "partial original File result metadata")
      | some d =>
        if (Serde.manifestLogical d.manifest).isNone then
          .error (.authorization "invalid original File metadata")
        else v.copy.map fun complete => some ⟨d, complete⟩
  else .ok none

/-- A result is not for what is known: the source keeps its own, and what has ended stays. -/
def ignoresResult (r : ResultProjection) : Bool :=
  match n.journal.entries.get r.reference.id with
  | some old => old.source || !old.reference.same r.reference || old.terminal
  | none => (n.journal.lookups.get r.reference.id).any fun l =>
      l.group ≠ r.reference.group || l.digest ≠ r.reference.digest

def knownBody (id : OperationId) : Option Operation :=
  ((n.journal.entries.get id).bind (·.body)).or ((n.journal.lookups.get id).map (·.body))

def importGroupOperationResult (r : ResultProjection) (v : ImportView) :
    Except NodeError Unit × Node :=
  if n.ignoresResult r then (.ok (), n)
  else
    match importedCopy r v, v.privateCopies with
    | .error e, _ => (.error e, n)
    | .ok _, .error e => (.error e, n)
    | .ok copy, .ok () =>
        n.wrote (n.journal.adopt v.io ⟨r.reference, n.knownBody r.reference.id, r.status,
        copy, false, false, 0⟩)

/-- Answer a lookup of a sibling: write the result again, and learn that it is to be cancelled. -/
def answerLookup (l : LookupProjection) (io : Io) : Except NodeError Unit × Node :=
  match (n.journal.entries.get l.id).filter fun e => e.source with
  | none => (.ok (), n)
  | some e => n.wrote (n.journal.put io
      (if l.cancel && !e.terminal then { e with cancel := true } else e))

def legEntry (r : OperationReference) (body : Option Operation) (cancel : Bool) : Entry :=
  ⟨r, body, n.operationStatusFor r .awaitingAcceptance, none, false, cancel, 0⟩

def takeLegRequest (leg : LegacyLegRequest) (v : AdmissionView) (linkIo io : Io) :
    Except NodeError Unit × Node :=
  let r := leg.request
  let own := r.reference.executor.device = n.journal.device
  if leg.parent.executor.device ≠ n.journal.device && !own then (.ok (), n)
  else
    match n.wrote (n.journal.putLegacyChild linkIo leg.parent
      (n.legEntry r.reference r.body r.cancel)) with
    | (.error e, n) => (.error e, n)
    | (.ok (), n) =>
      if !own then (.ok (), n)
      else
        match n.admitSourceGroupRequest r v with
        | (.error e, n) => (.error e, n)
        | (.ok (), n) =>
          match (n.journal.entries.get r.reference.id).filter fun e => e.source && e.terminal with
          | some e => n.wrote (n.journal.put io e)
          | none => (.ok (), n)

def takeLegResult (leg : LegacyLegResult) (v : ImportView) (linkIo : Io) :
    Except NodeError Unit × Node :=
  let r := leg.result.reference
  if leg.parent.executor.device ≠ n.journal.device && r.executor.device ≠ n.journal.device
    then (.ok (), n)
  else
    match n.wrote (n.journal.putLegacyChild linkIo leg.parent
      (n.legEntry r (some .leaveAccount) false)) with
    | (.error e, n) => (.error e, n)
    | (.ok (), n) => n.importGroupOperationResult leg.result v

/-! ### Execution -/

/-- What an execution reads of other stores. `prepared` is the public effect, `none` where nothing
is to be done. -/
structure ExecutionView where
  retired : Bool
  recovery : List RecoverIo
  invitation : Bool
  target : ActionTarget
  access : Except NodeError Access
  current : Except NodeError (Option Source)
  now : ℕ
  prepared : Except NodeError (Option (List Event))
  preflight : Except NodeError Unit
  began : Except NodeError Unit
  afterwards : List RecoverIo
  io : Io

def coordinated (e : Entry) : Bool :=
  e.source && e.reference.kind = .leaveAccount && e.reference.executor.authority.authority.isNone &&
    !n.journal.legacyChildren.has e.reference.id

/-- A source may no longer act as a reference pins it. -/
def sourceChanged (r : OperationReference) (source : Option Source) : Bool :=
  !source.any fun s => r.kind.admitsRole s.role && s.device = r.executor.device &&
    s.lifetime = r.executor.lifetime &&
    (s.authority = r.executor.authority || legacyMemberLeaveSourceMatches r s)

/-- Why an operation is refused when its turn comes, if it is; `none` if it has to wait. -/
def verdict (e : Entry) (body : Operation) (v : ExecutionView) :
    Except NodeError (Option (Option Rejection)) := do
  let access ← v.access
  let source := access.sources.find? fun s => s.device = n.journal.device
  if access.role = .unknown || source.any (fun s => s.execution = .reconciling) then return none
  if !e.reference.kind.admitsRole access.role || sourceChanged e.reference source then
    return some (some .membershipChanged)
  let current ← v.current
  if sourceChanged e.reference current then return some (some .membershipChanged)
  match body with
  | .send message =>
    if (Payloads.expiresAtMs message).any (· ≤ v.now) then return some (some .expired)
    return some none
  | _ => return some none

/-- Write the end of an operation that has no effect. -/
def stop (e : Entry) (phase : Phase) (io : Io) : Except NodeError (Option ConversationId) × Node :=
  let (result, n) :=
    n.wrote (n.journal.put io { e with status := n.operationStatusFor e.reference phase })
  (result.map fun _ => none, n)

def deliver (e : Entry) (events : List Event) (v : ExecutionView) :
    Except NodeError (Option ConversationId) × Node :=
  match v.preflight, v.began with
  | .error err, _ => (.error err, n)
  | .ok (), .error err => (.error err, n)
  | .ok (), .ok () =>
    let begun : Node := { n with pending := n.pending ++ [⟨some e.reference, events⟩] }
    match begun.recoverDelivery v.afterwards with
    | (.error err, n) => (.error (.log err), n)
    | (.ok (), n) => (.ok (some e.reference.group), n)

/-- Carry out an operation whose source stands and whose body may be executed. -/
def carryOut (e : Entry) (v : ExecutionView) : Except NodeError (Option ConversationId) × Node :=
  match v.prepared with
  | .error err => (.error err, n)
  | .ok none =>
    let (result, n) := n.wrote (n.journal.complete v.io e.reference [])
    (result.map fun _ => none, n)
  | .ok (some events) => n.deliver e events v

def executePending (e : Entry) (v : ExecutionView) :
    Except NodeError (Option ConversationId) × Node :=
  if e.reference.kind = .invite && !v.invitation && !e.cancel then (.ok none, n)
  else if e.cancel then n.stop e .cancelled v.io
  else
    match if e.body.any Operation.messageAction then v.target else .found false with
    | .failed err => (.error err, n)
    | .unavailable => n.stop e (.rejected .invalidTarget) v.io
    | .found true => n.stop e (.rejected .expired) v.io
    | .found false =>
      match e.body with
      | none => (.ok none, n)
      | some body =>
        match n.verdict e body v with
        | .error err => (.error err, n)
        | .ok none => (.ok none, n)
        | .ok (some (some reason)) => n.stop e (.rejected reason) v.io
        | .ok (some none) => n.carryOut e v

def executeSourceControl (id : OperationId) (v : ExecutionView) :
    Except NodeError (Option ConversationId) × Node :=
  if (n.journal.entries.get id).any n.coordinated then (.ok none, n)
  else if v.retired then (.error (.authorization "account source runtime is retired"), n)
  else
    match n.recoverDelivery v.recovery with
    | (.error e, n) => (.error (.log e), n)
    | (.ok (), n) =>
      match (n.journal.entries.get id).filter fun e => e.source && !e.terminal with
      | none => (.ok none, n)
      | some e => n.executePending e v

/-! ### Departures -/

def planLegs (plan : LegacyLeavePlan) (legs : List OperationReference) (io : Io) :
    Except NodeError Unit × Node :=
  n.wrote (n.journal.putLegacyPlan io plan
    (legs.map fun leg => n.legEntry leg (some .leaveAccount) false))

/-- The status of a departure from those of its legs; `zero` are the legs that may end without an
event. -/
def departureStatus (parent : Entry) (plan : LegacyLeavePlan) (children : List Entry)
    (zero : OperationId → Bool) : Status :=
  let cancelling := parent.cancel && !plan.rollForward
  let hasEffect := children.any fun c => !c.status.committedEvents.isEmpty
  let allCommitted := children.all fun c => c.status.phase = .committed &&
    (!c.status.committedEvents.isEmpty || zero c.reference.id)
  let rollForward := plan.rollForward || hasEffect
  let rejected := children.findSome? fun c =>
    match c.status.phase with
    | .rejected reason => some reason
    | .cancelled => if rollForward && !parent.cancel then some .membershipChanged else none
    | _ => none
  { parent.status with
    phase := if cancelling && children.all Entry.terminal && !hasEffect then .cancelled
      else if allCommitted then .committed
      else if cancelling && !hasEffect then .cancellationRequested
      else match rejected with
        | some reason => .actionRequired reason
        | none => .executing
    executions := children.map fun c =>
      ⟨c.reference.executor.device.userId, c.status.phase, c.status.committedEvents⟩
    committedEvents :=
      ((children.flatMap fun c => c.status.committedEvents).insertionSort (· ≤ ·)).dedup
    primaryEvent := none }

/-- Write a departure with the status of its legs, as both were read. -/
def settleDeparture (parent : Entry) (plan : LegacyLeavePlan) (children : List Entry)
    (zero : OperationId → Bool) (io : Io) : Except NodeError Unit × Node :=
  let status := departureStatus parent plan children zero
  if (n.journal.entries.get parent.reference.id).any fun e => e.status = status then (.ok (), n)
  else n.wrote (n.journal.put io { parent with status := status })

/-- End a departure that was cancelled before it had a plan. -/
def stopDeparture (parent : Entry) (io : Io) : Except NodeError Unit × Node :=
  if parent.cancel then
    n.wrote (n.journal.put io { parent with
      status := n.operationStatusFor parent.reference .cancelled })
  else (.ok (), n)

def cancelLeg (child : Entry) (io : Io) : Except NodeError Unit × Node :=
  n.wrote (n.journal.put io { child with cancel := true })

/-! ### Publication -/

/-- What a projection reads of other stores: the operations a forwarding batch holds back, the
devices that are ready for a kind of operation and for legacy departures, the counters of queries,
the public event of a committed operation, and whether the published document is small enough. -/
structure PublishView where
  blocked : OperationId → Bool
  ready : PublicIdentity → Kind → Bool
  legacyReady : PublicIdentity → Bool
  nonce : OperationId → BitVec 128
  messageEvent : OperationReference → Status → Option Event
  fits : OperationProjection → Bool

/-- The entries of a group, the last written first. -/
def latest (p : Entry → Bool) : List Entry :=
  ((n.journal.entries.byKey.map Prod.snd).filter p).mergeSort fun a b => b.sequence ≤ a.sequence

def requestOf (v : PublishView) (e : Entry) : Option RequestProjection :=
  let ready := v.ready e.reference.executor.device e.reference.kind &&
    (e.reference.kind ≠ .leaveAccount || e.reference.executor.authority.authority.isSome ||
      v.legacyReady e.reference.executor.device)
  if ready || e.cancel then
    some ⟨e.reference, if ready then e.body else none, e.cancel, v.nonce e.reference.id⟩
  else none

def resultOf (v : PublishView) (e : Entry) : ResultProjection :=
  let event := v.messageEvent e.reference e.status
  let descriptor := e.fileCopy.map (·.descriptor)
  if e.reference.kind = .file && !(event.isSome && descriptor.isSome) then
    ⟨e.reference, e.status, none, none⟩
  else ⟨e.reference, e.status, event, descriptor⟩

/-- Leave out the oldest results until the document is small enough. -/
def trimmed (fits : OperationProjection → Bool) : ℕ → OperationProjection → OperationProjection
  | 0, p => p
  | k + 1, p => if p.results.isEmpty || fits p then p
      else trimmed fits k { p with results := p.results.dropLast }

def operationProjection (group : ConversationId) (v : PublishView) : OperationProjection :=
  let entries := n.latest fun e =>
    e.reference.group = group && !n.journal.legacyChildren.has e.reference.id
  let pending := (entries.filter fun e => !e.source && !e.terminal).take 128
  let requests := ((pending.filter fun e => e.cancel || !v.blocked e.reference.id).filterMap
    (requestOf v)).take 8
  let results := ((entries.filter fun e => e.source).take 16).map (resultOf v)
  let lookups := (((n.journal.lookups.byKey.map Prod.snd).filter fun l =>
    l.group = group).take 8).map
    fun l => (⟨l.id, l.group, l.body.kind, l.digest, l.cancel, v.nonce l.id⟩ : LookupProjection)
  trimmed v.fits results.length ⟨requests, results, lookups⟩

/-- The legs of departures that a device asks for, starting at a place that moves with its
queries. -/
def legacyLeaveProjection (group : ConversationId) (v : PublishView) (start : ℕ) :
    List LegacyLegRequest × List LegacyLegResult :=
  let entries := (n.latest fun e => e.reference.group = group).filterMap fun e =>
    (n.journal.legacyChildren.get e.reference.id).map fun parent => (parent, e)
  let pending := entries.filter fun r =>
    r.1.executor.device = n.journal.device && !r.2.source && !r.2.terminal
  (((pending.rotateLeft start).take 8).map fun r =>
      ⟨r.1, ⟨r.2.reference, some .leaveAccount, r.2.cancel, v.nonce r.1.id⟩⟩,
    ((entries.filter fun r => r.2.source).take 16).map fun r =>
      ⟨r.1, ⟨r.2.reference, r.2.status, none, none⟩⟩)

/-! ### Steps -/

/-- Start again: the journal is read from its file, and the pending transactions are installed. A
start that fails leaves what it has written, and no other step but a start follows it. -/
def reopen (recovery : List RecoverIo) : Node :=
  match Journal.openRows n.journal.account n.journal.device n.journal.rows with
  | .error _ => n
  | .ok j => ({ n with journal := j }.recoverDelivery recovery).2

end Node

/-- What may happen on a device. -/
inductive Action where
  | submit (s : Node.Submission) (io : Io)
  | cancel (account : String) (id : OperationId) (recovery : List RecoverIo) (io : Io)
  | request (r : RequestProjection) (v : Node.AdmissionView) (asked : Bool) (io : Io)
  | result (sender : PublicIdentity) (r : ResultProjection) (v : Node.ImportView)
  | lookup (l : LookupProjection) (io : Io)
  | legRequest (leg : LegacyLegRequest) (v : Node.AdmissionView) (linkIo io : Io)
  | legResult (sender : PublicIdentity) (leg : LegacyLegResult) (v : Node.ImportView) (linkIo : Io)
  | execute (id : OperationId) (v : Node.ExecutionView)
  | planLegs (plan : LegacyLeavePlan) (legs : List OperationReference) (io : Io)
  | cancelLeg (child : Entry) (io : Io)
  | stopDeparture (parent : Entry) (io : Io)
  | settleDeparture (parent : Entry) (plan : LegacyLeavePlan) (children : List Entry)
      (zero : OperationId → Bool) (io : Io)
  | prepareFile (payload : FilePayload) (assets : Option FileAssetsReceipt) (io : Io)
  | fileCopied (reference : OperationReference) (descriptor : FileDescriptor) (io : Io)
  | recover (recovery : List RecoverIo)
  | reopen (recovery : List RecoverIo)

variable [Sha256] [EventCrypto] [Serde] [RecordJson] [Payloads]

/-- One step of a device. What a sibling publishes is taken only if it is well formed, and a device
does not take its own. -/
def Node.step (n : Node) : Action → Node
  | .submit s io => (n.submit s io).2
  | .cancel account id recovery io => (n.cancel account id recovery io).2
  | .request r v asked io =>
    if r.wellFormed n.journal.account then (n.takeRequest r v asked io).2 else n
  | .result sender r v =>
    if sender ≠ n.journal.device && r.wellFormed n.journal.account sender then
      (n.importGroupOperationResult r v).2 else n
  | .lookup l io => (n.answerLookup l io).2
  | .legRequest leg v linkIo io =>
    if leg.request.wellFormed n.journal.account then (n.takeLegRequest leg v linkIo io).2 else n
  | .legResult sender leg v linkIo =>
    if sender ≠ n.journal.device && leg.result.wellFormed n.journal.account sender then
      (n.takeLegResult leg v linkIo).2 else n
  | .execute id v => (n.executeSourceControl id v).2
  | .planLegs plan legs io => (n.planLegs plan legs io).2
  | .cancelLeg child io => (n.cancelLeg child io).2
  | .stopDeparture parent io => (n.stopDeparture parent io).2
  | .settleDeparture parent plan children zero io =>
      (n.settleDeparture parent plan children zero io).2
  | .prepareFile payload assets io => (n.wrote (n.journal.putFilePreparation io payload assets)).2
  | .fileCopied reference descriptor io =>
      (n.wrote (n.journal.completeFileCopy io reference descriptor)).2
  | .recover recovery => (n.recoverDelivery recovery).2
  | .reopen recovery => n.reopen recovery

def Node.run (n : Node) (actions : List Action) : Node := actions.foldl Node.step n

end MeshTalk.AccountGroup
