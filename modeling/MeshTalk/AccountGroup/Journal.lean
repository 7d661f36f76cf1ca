import MeshTalk.AccountGroup.Operation
import MeshTalk.Lib.Table

/-! # The journal of account group operations

The durable intents of a device and the results of its siblings (`operations/journal.rs`). A row is
appended before the maps change, a growing file is replaced by the rows of the maps, and opening a
file replays its rows. -/

namespace MeshTalk.AccountGroup

open Lib Channel File

/-- The descriptor of a committed file, and whether its assets are here. -/
structure FileCopy where
  descriptor : FileDescriptor
  complete : Bool
deriving DecidableEq

/-- An operation whose reference is known. `source` says that this device carries it out. -/
structure Entry where
  reference : OperationReference
  body : Option Operation
  status : Status
  fileCopy : Option FileCopy
  source : Bool
  cancel : Bool
  sequence : ℕ
deriving DecidableEq

def Entry.terminal (e : Entry) : Bool := e.status.phase.terminal

/-- An operation of another device whose reference is not known yet. -/
structure Lookup where
  id : OperationId
  group : ConversationId
  body : Operation
  digest : BitVec 256
  status : Status
  cancel : Bool
  sequence : ℕ
deriving DecidableEq

/-- The frozen legs of a departure of all devices of an account. -/
structure LegacyLeavePlan where
  parent : OperationReference
  legs : List OperationReference
  rollForward : Bool
deriving DecidableEq

/-- A plan with the entries and links of its legs, or one leg linked to its departure. -/
structure LegacyBatch where
  plan : Option LegacyLeavePlan
  links : List (OperationId × OperationReference)
  entries : List Entry
deriving DecidableEq

/-- What a row of the file holds. -/
inductive RecordBody where
  | entry (entry : Entry)
  | lookup (lookup : Lookup)
  | legacy (batch : LegacyBatch)
  | filePreparation (payload : FilePayload) (assets : Option FileAssetsReceipt)
deriving DecidableEq

/-- A row of the file. -/
structure Record where
  account : PubKey
  device : PublicIdentity
  body : RecordBody
deriving DecidableEq

/-- The lengths of serialized rows and of the parts that are measured on their own. -/
class RecordJson where
  record : Record → ℕ
  plan : LegacyLeavePlan → ℕ
  link : OperationId → OperationReference → ℕ
  reference : OperationReference → ℕ

/-- The most rows that may be kept. -/
def maxEntries : ℕ := 100000

/-- The most bytes that current rows may take. -/
def maxLive : ℕ := 64 * 1024 * 1024

def maxPending : ℕ := 128

def maxFile : ℕ := 120 * 1024 * 1024

def invalid : LogError := .corruptFile "invalid account group operation journal"

/-- An open journal, with the rows of its file. The counts of rows and bytes are those of the
file. -/
structure Journal where
  rows : List Record
  entries : Table OperationId Entry
  lookups : Table OperationId Lookup
  legacyPlans : Table OperationId LegacyLeavePlan
  legacyChildren : Table OperationId OperationReference
  filePreparations : Table OperationId FilePayload
  fileAssetReceipts : Table OperationId FileAssetsReceipt
  account : PubKey
  device : PublicIdentity
  sequence : ℕ
  live : ℕ

/-- What the file system answers to a replacement of the file and to an append. -/
structure Io where
  rewritten : Except LogError Unit
  appended : Except LogError Unit

namespace Journal

def fresh (account : PubKey) (device : PublicIdentity) : Journal :=
  ⟨[], ∅, ∅, ∅, ∅, ∅, ∅, account, device, 0, 0⟩

variable [Sha256] [EventCrypto] [Serde] [RecordJson] (j : Journal)

/-! ### Sizes -/

def row (body : RecordBody) : Record := ⟨j.account, j.device, body⟩

def rowSize (body : RecordBody) : ℕ := RecordJson.record (j.row body) + 40

def bytes : ℕ := 22 + (j.rows.map fun r => RecordJson.record r + 40).sum

/-- How many legs and effects an operation may come to have. -/
def reservedEffects : Kind → ℕ × ℕ
  | .leaveAccount | .reaction => (65, 65)
  | .rename | .recall => (1, 1)
  | _ => (1, 8)

def longDeviceId : String := String.ofList (List.replicate 32 'f')

def reserved (e : Entry) : Entry :=
  let event : EventId := ⟨BitVec.allOnes 256⟩
  let phase : Phase := .actionRequired .originalSignerNoLongerAuthorized
  let (legs, effects) := reservedEffects e.reference.kind
  { e with
    body := none
    source := false
    sequence := u64Max
    status := { e.status with
      phase := phase
      primaryEvent := some event
      committedEvents := List.replicate effects event
      executions := List.replicate legs
        ⟨longDeviceId, phase, List.replicate (if legs = 1 then effects else 1) event⟩ } }

def size (e : Entry) : ℕ :=
  if e.terminal then j.rowSize (.entry e)
  else max (j.rowSize (.entry e)) (j.rowSize (.entry (reserved e)))

def lookupSize (l : Lookup) : ℕ := j.rowSize (.lookup l) + 80 * 1024

def preparationSize (id : OperationId) (payload : FilePayload) : ℕ :=
  j.rowSize (.filePreparation payload (j.fileAssetReceipts.get id))

def legacyPlanSize (plan : LegacyLeavePlan) : ℕ := RecordJson.plan plan + 40

def legacyLinkSize (id : OperationId) (parent : OperationReference) : ℕ :=
    RecordJson.link id parent + 40

def kept (id : OperationId) : ℕ :=
  (j.entries.get id).elim 0 j.size + (j.lookups.get id).elim 0 j.lookupSize

/-- The number of operations, lookups and file preparations that have not ended. -/
def pendingCount : ℕ :=
  j.entries.count (fun r => !r.2.terminal) + j.lookups.rows.length +
    j.filePreparations.count fun r => !j.entries.has r.1 && !j.lookups.has r.1

def total : ℕ := j.entries.rows.length + j.lookups.rows.length + j.filePreparations.rows.length

/-! ### Validity of entries -/

def fileBodyMatchesPreparation (body : Operation) (original : FilePayload)
    (requireDescriptor : Bool) :
    Bool :=
  match body, body.filePayload with
  | .send message, some payload =>
    message.stagedAssets = [original.logical.checksum] && payload.logical = original.logical &&
      match payload.descriptor with
      | some d => original.descriptor = some d
      | none => !requireDescriptor
  | _, _ => false

def copyBelongs (e : Entry) : Bool :=
  e.fileCopy.all fun copy =>
    match Serde.manifestLogical copy.descriptor.manifest with
    | none => false
    | some logical =>
      e.reference.kind = .file && e.status.phase = .committed && e.status.primaryEvent.isSome &&
        copy.descriptor.validFor e.reference logical &&
        (Serde.encodePayload ⟨logical, some copy.descriptor⟩).isSome &&
        (j.filePreparations.get e.reference.id).all (fun original =>
          original = ⟨logical, some copy.descriptor⟩) &&
        e.body.all fun body => fileBodyMatchesPreparation body ⟨logical, some copy.descriptor⟩ false

def copyStays (e : Entry) : Bool :=
  ((j.entries.get e.reference.id).bind (·.fileCopy)).all fun old =>
    e.fileCopy.any fun copy => copy.descriptor = old.descriptor && (!old.complete || copy.complete)

def ofPreparation (e : Entry) : Bool :=
  (j.filePreparations.get e.reference.id).all fun payload => payload.descriptor.any fun d =>
    e.reference.kind = .file && e.reference.group = d.group && e.reference.digest =
      d.logicalDigest && e.body.all fun body => fileBodyMatchesPreparation body payload e.source

/-- An entry says of itself what its valid reference says. -/
def describes (e : Entry) : Bool :=
  e.reference.valid j.account && e.status.accountId = accountIdFrom j.account &&
    e.status.id = e.reference.id && e.status.group = e.reference.group &&
    e.status.kind = e.reference.kind &&
    e.body.all (fun body => operationDigest e.reference.group body = e.reference.digest &&
      body.kind = e.reference.kind) &&
    (!e.source || e.reference.executor.device = j.device) &&
    e.status.committedEvents.length ≤ 65 && e.status.executions.length ≤ 65

/-- An entry may follow the one there is: the reference stays, a source stays one, and what has
ended stays as it is. -/
def follows (e : Entry) : Bool :=
  (j.entries.get e.reference.id).all fun old =>
    old.reference.same e.reference && (!old.source || e.source) &&
      (!old.terminal || (e.status = old.status && e.body.isNone && e.source = old.source &&
        e.cancel = old.cancel))

/-- What ended without an effect names no events. -/
def stoppedClean (e : Entry) : Bool :=
  !e.status.phase.stopped || (e.status.committedEvents.isEmpty && e.status.primaryEvent.isNone &&
    e.status.executions.all fun x => x.committedEvents.isEmpty)

def isHexDigit (c : Char) : Bool := c.isDigit || ('a' ≤ c && c ≤ 'f') || ('A' ≤ c && c ≤ 'F')

/-- The main event is one of those committed, and executions are those of devices. -/
def effectsNamed (e : Entry) : Bool :=
  e.status.primaryEvent.all (fun id => e.status.committedEvents.contains id) &&
    e.status.executions.all fun x => x.deviceId.utf8ByteSize = 32 && x.deviceId.toList.all
      isHexDigit && x.committedEvents.length ≤ 65

def validate (e : Entry) : Bool :=
  j.copyBelongs e && j.copyStays e && j.ofPreparation e && j.describes e && j.follows e &&
    stoppedClean e && effectsNamed e

/-! ### The maps -/

/-- Put an entry in the place of what there was for its id. -/
def install (e : Entry) : Journal :=
  { j with
    lookups := j.lookups.erase e.reference.id
    entries := j.entries.set e.reference.id e
    live := j.live - j.kept e.reference.id + j.size e
    sequence := max j.sequence e.sequence }

/-- Put a lookup in the place of the one there was. -/
def installLookup (l : Lookup) : Journal :=
  { j with
    lookups := j.lookups.set l.id l
    live := j.live - (j.lookups.get l.id).elim 0 j.lookupSize + j.lookupSize l
    sequence := max j.sequence l.sequence }

def validateLookup (l : Lookup) : Bool :=
  (j.filePreparations.get l.id).all (fun payload => payload.descriptor.any fun d =>
    l.body.kind = .file && l.group = d.group && l.digest = d.logicalDigest &&
      fileBodyMatchesPreparation l.body payload false) &&
    l.id ≠ ⟨0⟩ && l.digest = operationDigest l.group l.body && l.status.id = l.id &&
    l.status.group = l.group && l.status.kind = l.body.kind && l.status.accountId =
      accountIdFrom j.account

/-- A preparation may be written: it is signed by a device of the account, for the operation there
is. -/
def validatePreparation (payload : FilePayload) : Except LogError OperationId :=
  match payload.descriptor, payload.logicalOperation with
  | some d, some op =>
    if d.signature.length = 64 && d.id.matchesOrigin d.creator.publicIdentity && d.creator.verify &&
      !d.creator.postOffice && d.creator.account = some j.account &&
      d.logicalDigest = operationDigest d.group op &&
      verifyKey d.creator.ed25519Pub d.message d.signature &&
      Serde.manifestLogical d.manifest = some payload.logical &&
        (Serde.encodePayload payload).isSome &&
      (d.creator.publicIdentity = j.device || (j.entries.get d.id).any fun e =>
        e.reference.executor.device = j.device && d.validFor e.reference payload.logical) &&
      (j.filePreparations.get d.id).all (fun old => old = payload) &&
      (j.entries.get d.id).all (fun e => e.reference.kind = .file && e.reference.group = d.group &&
        e.reference.digest = d.logicalDigest && e.fileCopy.all (fun copy => copy.descriptor = d) &&
        e.body.all fun body => fileBodyMatchesPreparation body payload e.source) &&
      (j.lookups.get d.id).all (fun l => l.body.kind = .file && l.group = d.group &&
        l.digest = d.logicalDigest && fileBodyMatchesPreparation l.body payload false)
    then .ok d.id else .error invalid
  | _, _ => .error invalid

def liveWithPreparation (id : OperationId) (payload : FilePayload)
    (assets : Option FileAssetsReceipt) :
    ℕ :=
  j.live - (j.filePreparations.get id).elim 0 (j.preparationSize id) +
    j.rowSize (.filePreparation payload assets)

def installPreparation (payload : FilePayload) (assets : Option FileAssetsReceipt) :
    Except LogError Journal := do
  let id ← j.validatePreparation payload
  ensure (assets.all (·.validFor payload) && !(j.fileAssetReceipts.has id && assets.isNone)) invalid
  ensure (j.liveWithPreparation id payload assets ≤ maxLive ∧
    (j.filePreparations.has id ∨ j.total < maxEntries)) invalid
  return { j with
    live := j.liveWithPreparation id payload assets
    filePreparations := j.filePreparations.set id payload
    fileAssetReceipts := match assets with
      | some receipt => j.fileAssetReceipts.set id receipt
      | none => j.fileAssetReceipts }

/-! ### Departures -/

/-- A leg may belong to a departure. -/
def legacyPairValid (parent child : OperationReference) : Bool :=
  parent.valid j.account && child.valid j.account && parent.kind = .leaveAccount &&
    child.kind = parent.kind && parent.group = child.group && parent.id ≠ child.id &&
    parent.executor.authority.authority.isNone && child.executor.authority.authority.isNone &&
    parent.executor.role = .member && child.executor.role = .member &&
    parent.executor.device = child.origin.publicIdentity &&
    parent.executor.lifetime.member = parent.executor.device &&
    child.executor.lifetime.member = child.executor.device &&
    parent.digest = operationDigest parent.group .leaveAccount && child.digest = parent.digest &&
    RecordJson.reference parent ≤ 16 * 1024 && RecordJson.reference child ≤ 16 * 1024

def entryFor (batch : LegacyBatch) (id : OperationId) : Option Entry :=
  (batch.entries.find? fun e => e.reference.id = id).or (j.entries.get id)

def batchEntriesOk (batch : LegacyBatch) : Bool :=
  (batch.entries.map fun e => e.reference.id).Nodup && batch.entries.all fun e =>
    j.validate e && !e.source && (j.lookups.get e.reference.id).all fun l =>
      l.group = e.reference.group && l.digest = e.reference.digest

def batchLinksOk (batch : LegacyBatch) : Bool :=
  (batch.links.map Prod.fst).Nodup && batch.links.all (fun link =>
    (j.entryFor batch link.1).any fun child =>
      j.legacyPairValid link.2 child.reference &&
        (link.2.executor.device = j.device || child.reference.executor.device = j.device) &&
        (j.legacyChildren.get link.1).all (fun old => old.same link.2) &&
          !j.legacyPlans.has link.1) &&
    batch.entries.all fun e => batch.links.any fun link => link.1 = e.reference.id

/-- One leg of a plan may take the place of another: only after that one has stopped. -/
def legReplaces (previous next : OperationReference) : Bool :=
  (j.entries.get previous.id).any fun retired =>
    previous.id ≠ next.id && previous.executor.device = next.executor.device &&
      previous.executor.lifetime = next.executor.lifetime &&
      previous.executor.authority = next.executor.authority &&
      previous.executor.role = next.executor.role && retired.status.phase.stopped &&
      retired.status.committedEvents.isEmpty && retired.status.primaryEvent.isNone &&
      retired.status.executions.all fun x => x.committedEvents.isEmpty

/-- A plan may follow the one there is: at most one leg changes. -/
def planFollows (old plan : LegacyLeavePlan) : Bool :=
  old.parent.same plan.parent && old.legs.length = plan.legs.length &&
    (!old.rollForward || plan.rollForward) &&
    (old.legs.zip plan.legs).all (fun legs => legs.1.same legs.2 || j.legReplaces legs.1 legs.2) &&
    (old.legs.zip plan.legs).countP (fun legs => !legs.1.same legs.2) ≤ 1

def batchPlanOk (batch : LegacyBatch) (plan : LegacyLeavePlan) : Bool :=
  ((j.entries.get plan.parent.id).any fun parent => parent.source &&
    !(parent.terminal && !batch.entries.isEmpty) && parent.reference.same plan.parent &&
    plan.parent.executor.device = j.device) &&
    !plan.legs.isEmpty && plan.legs.length ≤ 65 && (plan.legs.map fun leg => leg.id).Nodup &&
    (plan.legs.map fun leg => leg.executor.device.userId).Nodup &&
    plan.legs.all (fun leg => j.legacyPairValid plan.parent leg &&
      (j.entryFor batch leg.id).any (fun e => e.reference.same leg) &&
      batch.links.any fun link => link.1 = leg.id && link.2.same plan.parent) &&
    batch.entries.all (fun e => plan.legs.any fun leg => leg.id = e.reference.id) &&
    (j.legacyPlans.get plan.parent.id).all fun old => j.planFollows old plan

/-- Room and counts once an entry of a batch is there. -/
def tallyEntry (t : ℕ × ℕ × ℕ) (e : Entry) : Option (ℕ × ℕ × ℕ) :=
  let old := j.entries.get e.reference.id
  let lookup := j.lookups.get e.reference.id
  let oldPending := match old with
    | some old => if old.terminal then 0 else 1
    | none => if lookup.isSome then 1 else 0
  (checkedAdd usizeMax (t.1 - old.elim 0 j.size - lookup.elim 0 j.lookupSize) (j.size e)).map
    fun live =>
    (live, t.2.1 - oldPending + (if e.terminal then 0 else 1),
      t.2.2 + if old.isNone && lookup.isNone then 1 else 0)

/-- Room once the links of a batch are there. -/
def tallyLink (live : ℕ) (link : OperationId × OperationReference) : Option ℕ :=
  if j.legacyChildren.has link.1 then some live
  else checkedAdd usizeMax live (legacyLinkSize link.1 link.2)

/-- Room once the plan of a batch is there. -/
def tallyPlan (live : ℕ) : Option LegacyLeavePlan → Option ℕ
  | none => some live
  | some plan => checkedAdd usizeMax
      (live - (j.legacyPlans.get plan.parent.id).elim 0 legacyPlanSize) (legacyPlanSize plan)

def batchFits (batch : LegacyBatch) : Bool :=
  match batch.entries.foldlM j.tallyEntry (j.live, j.pendingCount, j.total) with
  | none => false
  | some (live, pending, entries) =>
    match (batch.links.foldlM j.tallyLink live).bind fun live => j.tallyPlan live batch.plan with
    | none => false
    | some live => entries ≤ maxEntries && pending ≤ maxPending && live ≤ maxLive

def validateLegacyBatch (batch : LegacyBatch) : Bool :=
  batch.entries.length ≤ 65 && batch.links.length ≤ 65 &&
    (batch.plan.isSome || (batch.links.length = 1 && batch.entries.length ≤ 1)) &&
    j.batchEntriesOk batch && j.batchLinksOk batch && batch.plan.all (j.batchPlanOk batch) &&
    j.batchFits batch

def installLink (link : OperationId × OperationReference) : Journal :=
  { j with
    live := j.live + if j.legacyChildren.has link.1 then 0 else legacyLinkSize link.1 link.2
    legacyChildren := j.legacyChildren.set link.1 link.2 }

/-- Put a plan in the place of the one there was. -/
def installPlan (plan : LegacyLeavePlan) : Journal :=
  { j with
    live := j.live - (j.legacyPlans.get plan.parent.id).elim 0 legacyPlanSize + legacyPlanSize plan
    legacyPlans := j.legacyPlans.set plan.parent.id plan }

def installLegacyBatch (batch : LegacyBatch) : Journal :=
  let linked := batch.links.foldl installLink (batch.entries.foldl install j)
  batch.plan.elim linked linked.installPlan

/-! ### Writing -/

def compactedRows : List Record :=
  let plans := j.legacyPlans.byKey
  let legs := plans.flatMap fun plan => plan.2.legs.map fun leg => leg.id
  (j.entries.byKey.map fun r => j.row (.entry r.2)) ++
    (j.lookups.byKey.map fun r => j.row (.lookup r.2)) ++
    (j.filePreparations.byKey.map fun r =>
      j.row (.filePreparation r.2 (j.fileAssetReceipts.get r.1))) ++
    (plans.map fun plan => j.row (.legacy ⟨some plan.2,
      plan.2.legs.map fun leg => (leg.id, plan.2.parent), []⟩)) ++
    ((j.legacyChildren.byKey.filter fun link => !legs.contains link.1).map fun link =>
      j.row (.legacy ⟨none, [link], []⟩))

/-- Append a row, to the compacted file if it is time for that. -/
def append (full : Bool) (io : Io) (body : RecordBody) : Except LogError Unit × Journal :=
  match if full then io.rewritten else .ok () with
  | .error e => (.error e, j)
  | .ok () =>
    let base := if full then { j with rows := j.compactedRows } else j
    match io.appended with
    | .error e => (.error e, base)
    | .ok () => (.ok (), { base with rows := base.rows ++ [j.row body] })

/-- Append a row, and change the maps once it is there. -/
def commit (full : Bool) (io : Io) (body : RecordBody) (change : Journal → Journal) :
    Except LogError Unit × Journal :=
  match j.append full io body with
  | (.ok (), j) => (.ok (), change j)
  | failed => failed

/-- It is time to replace the file before a row of an entry or a lookup. -/
def fullFor (body : RecordBody) : Bool :=
  j.rows.length ≥ (j.entries.rows.length + j.lookups.rows.length) * 2 + 32 ||
    j.bytes + j.rowSize body > maxFile

/-- A new id needs room among the entries, and among those that are pending. -/
def hasSlot (id : OperationId) (terminal : Bool) : Bool :=
  j.entries.has id || j.lookups.has id ||
    (j.total < maxEntries && (terminal || j.pendingCount < maxPending || j.filePreparations.has id))

/-- An entry as it is stored: with the next sequence, and without its body once it has ended. -/
def stored (e : Entry) (sequence : ℕ) : Entry :=
  { e with sequence := sequence, body := if e.terminal then none else e.body }

def put (io : Io) (e : Entry) : Except LogError Unit × Journal :=
  if j.validate e && j.hasSlot e.reference.id e.terminal then
    match checkedAdd u64Max j.sequence 1 with
    | none => (.error invalid, j)
    | some sequence =>
      let e := stored e sequence
      if j.live - j.kept e.reference.id + j.size e ≤ maxLive then
        j.commit (j.fullFor (.entry e)) io (.entry e) fun j => j.install e
      else (.error invalid, j)
  else (.error invalid, j)

def putLookup (io : Io) (l : Lookup) : Except LogError Unit × Journal :=
  if j.validateLookup l && !j.entries.has l.id && j.hasSlot l.id false then
    match checkedAdd u64Max j.sequence 1 with
    | none => (.error invalid, j)
    | some sequence =>
      let l := { l with sequence := sequence }
      if j.live - (j.lookups.get l.id).elim 0 j.lookupSize + j.lookupSize l ≤ maxLive then
        j.commit (j.fullFor (.lookup l)) io (.lookup l) fun j => j.installLookup l
      else (.error invalid, j)
  else (.error invalid, j)

def storedBatch (sequence : ℕ) : List Entry → Option (List Entry)
  | [] => some []
  | e :: rest => (checkedAdd u64Max sequence 1).bind fun next =>
      (storedBatch next rest).map (stored e next :: ·)

def appendLegacyBatch (io : Io) (batch : LegacyBatch) : Except LogError Unit × Journal :=
  match storedBatch j.sequence batch.entries with
  | none => (.error invalid, j)
  | some entries =>
    let batch := { batch with entries := entries }
    if j.validateLegacyBatch batch && RecordJson.record (j.row (.legacy batch)) ≤
      8 * 1024 * 1024 then
      let full := j.rows.length ≥ (j.entries.rows.length + j.lookups.rows.length +
        j.legacyChildren.rows.length) * 2 + 32 || j.bytes + j.rowSize (.legacy batch) > maxFile
      j.commit full io (.legacy batch) fun j => j.installLegacyBatch batch
    else (.error invalid, j)

def putFilePreparation (io : Io) (payload : FilePayload) (assets : Option FileAssetsReceipt) :
    Except LogError Unit × Journal :=
  match j.validatePreparation payload with
  | .error e => (.error e, j)
  | .ok id =>
    let receipt := assets.or (j.fileAssetReceipts.get id)
    if !assets.all (·.validFor payload) then (.error invalid, j)
    else if j.filePreparations.has id && receipt = j.fileAssetReceipts.get id then (.ok (), j)
    else if j.liveWithPreparation id payload receipt ≤ maxLive && (j.filePreparations.has id ||
        (j.total < maxEntries &&
          (j.pendingCount < maxPending || j.entries.has id || j.lookups.has id)))
      then
      let body := .filePreparation payload receipt
      let full := j.bytes + j.rowSize body > maxFile || j.rows.length ≥ j.total * 2 + 32
      match j.commit full io body fun j => j with
      | (.ok (), j) =>
        match j.installPreparation payload receipt with
        | .ok j => (.ok (), j)
        | .error e => (.error e, j)
      | failed => failed
    else (.error invalid, j)

inductive Change where
  | entry (e : Entry)
  | lookup (l : Lookup)
  | legs (batch : LegacyBatch)
  | file (payload : FilePayload) (assets : Option FileAssetsReceipt)

def write (io : Io) : Change → Except LogError Unit × Journal
  | .entry e => j.put io e
  | .lookup l => j.putLookup io l
  | .legs batch => j.appendLegacyBatch io batch
  | .file payload assets => j.putFilePreparation io payload assets

def putLegacyPlan (io : Io) (plan : LegacyLeavePlan) (children : List Entry) :
    Except LogError Unit × Journal :=
  j.appendLegacyBatch io ⟨some plan, plan.legs.map fun leg => (leg.id, plan.parent), children⟩

def putLegacyChild (io : Io) (parent : OperationReference) (e : Entry) :
    Except LogError Unit × Journal :=
  match j.legacyChildren.get e.reference.id with
  | some old =>
    if old.same parent && (j.entries.get e.reference.id).any
      (fun old => old.reference.same e.reference)
    then (.ok (), j) else (.error invalid, j)
  | none => j.appendLegacyBatch io ⟨none, [(e.reference.id, parent)], [e]⟩

/-- Write the entry a lookup waits for, or any other. -/
def adopt (io : Io) (e : Entry) : Except LogError Unit × Journal :=
  if (j.lookups.get e.reference.id).all fun l => l.group = e.reference.group &&
    l.digest = e.reference.digest
  then j.put io e else (.error invalid, j)

def primaryKinds : List EventKind := [.message, .fileManifest, .react, .delete]

def committedCopy (e : Entry) : Except LogError (Option FileCopy) :=
  if e.reference.kind = .file then
    match e.body.bind Operation.filePayload with
    | none => .error invalid
    | some payload =>
      match payload.descriptor.filter fun d => d.validFor e.reference payload.logical with
      | none => .error invalid
      | some d => .ok (some ⟨d, true⟩)
  else .ok e.fileCopy

def committedWith (e : Entry) (copy : Option FileCopy) (deviceId : String) (events : List Event) :
    Entry :=
  let ids := events.map (·.id)
  { e with
    fileCopy := copy
    status := { e.status with
      phase := .committed
      primaryEvent := (events.reverse.find? fun event =>
        primaryKinds.contains event.kind).map (·.id)
      committedEvents := ids
      executions := [⟨deviceId, .committed, ids⟩] } }

def complete (io : Io) (reference : OperationReference) (events : List Event) :
    Except LogError Unit × Journal :=
  match (j.entries.get reference.id).filter fun e => e.source && e.reference.same reference with
  | none => (.error invalid, j)
  | some e =>
    if e.terminal then
      if e.status.phase = .committed && e.status.committedEvents =
        events.map (·.id) then (.ok (), j)
      else (.error invalid, j)
    else
      match committedCopy e with
      | .error err => (.error err, j)
      | .ok copy => j.put io (committedWith e copy j.device.userId events)

def completeFileCopy (io : Io) (reference : OperationReference) (descriptor : FileDescriptor) :
    Except LogError Unit × Journal :=
  match j.entries.get reference.id with
  | none => (.error invalid, j)
  | some e =>
    if !e.reference.same reference || e.status.phase ≠ .committed then (.error invalid, j)
    else
      match e.fileCopy.filter fun copy => copy.descriptor = descriptor with
      | none => (.error invalid, j)
      | some copy =>
        if copy.complete then (.ok (), j)
        else j.put io { e with fileCopy := some { copy with complete := true } }

/-! ### Opening -/

def replay (r : Record) : Except LogError Journal := do
  ensure (r.account = j.account ∧ r.device = j.device) invalid
  match r.body with
  | .legacy batch =>
    ensure (j.validateLegacyBatch batch) invalid
    return j.installLegacyBatch batch
  | .entry e =>
    ensure (j.validate e) invalid
    return if (j.entries.get e.reference.id).all fun old =>
      old.sequence < e.sequence then j.install e
      else j
  | .lookup l =>
    ensure (j.validateLookup l) invalid
    return if ((j.entries.get l.id).all fun e => e.sequence < l.sequence) &&
        (j.lookups.get l.id).all fun old => old.sequence < l.sequence then j.installLookup l
      else j
  | .filePreparation payload assets => j.installPreparation payload assets

def replayAll (account : PubKey) (device : PublicIdentity) (rows : List Record) :
    Except LogError Journal :=
  rows.foldlM replay (fresh account device)

def openRows (account : PubKey) (device : PublicIdentity) (rows : List Record) :
    Except LogError Journal :=
  (replayAll account device rows).map fun j => { j with rows := rows }

end Journal

end MeshTalk.AccountGroup
