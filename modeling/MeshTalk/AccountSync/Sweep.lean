import MeshTalk.AccountSync.Archive
import MeshTalk.Lib.Frame
import MeshTalk.Lib.Run

/-! # Sweeps of a sibling's archive

A device pulls the history archive of a sibling page by page (`node/account_sync.rs`). Before each
page the sibling brings its index up to date, so the archive may be another one at every page. The
puller's `PeerCursor` remembers the digest of the archive at the first page; at the last page it
reports the sweep complete if the digest is that one again, and starts over if it is not. -/

namespace MeshTalk.AccountSync

open MeshTalk.Lib HistoryPageAssembler List

/-! ### The index before a page -/

/-- The public lifetime behind an export. -/
structure PrivateChannelScope where
  channel : ConversationId
  genesisOwner : String
  membership : EventId
  acceptance : Option EventId
  authority : Option EventId
  epoch : ℕ
deriving DecidableEq

/-- What an index was built from. -/
structure ArchiveKey where
  owner : String
  history : Bool
  files : Bool
  version : ℕ
  revisions : List ℕ
  channels : List ConversationId
  channelScopes : List PrivateChannelScope
  accounts : List String
  controls : ℕ × BitVec 256
  recalls : ℕ
  fileEligibility : ℕ
deriving DecidableEq

/-- Only rows were appended: everything but the first three revisions, those of the transcripts, is
as it was. -/
def ArchiveKey.acceptsAppendOnlyChange (old current : ArchiveKey) : Bool :=
  old.owner = current.owner ∧ old.history = current.history ∧ old.files = current.files ∧
    old.version = current.version ∧ old.channels = current.channels ∧
    old.channelScopes = current.channelScopes ∧ old.accounts = current.accounts ∧
    old.controls = current.controls ∧ old.recalls = current.recalls ∧
    old.fileEligibility = current.fileEligibility ∧
    old.revisions.drop 3 = current.revisions.drop 3

structure DeviceSyncPolicy where
  history : Bool
  attachments : Bool
  appearance : Bool
  contacts : Bool
deriving DecidableEq

structure PreferenceRecord where
  contacts : Bool
  key : String
  revision : ℕ
  deviceId : String
  value : Option String
deriving DecidableEq

def PreferenceRecord.bytes (r : PreferenceRecord) : List UInt8 :=
  [if r.contacts then 1 else 0] ++ be32 (utf8 r.key).length ++ utf8 r.key ++
    beBytes 8 r.revision ++ utf8 r.deviceId ++
    match r.value with
    | some v => [1] ++ be32 (utf8 v).length ++ utf8 v
    | none => [0]

section
variable [Sha256]

/-- The index as it was left. -/
structure ArchiveState where
  token : ArchiveKey
  ready : Bool
  archive : Archive
  deadline : Option ℕ

/-- A device at the time it is asked for a page. `key` is what an index is to be built from now;
`keyIndexed` and `keySelected` are what it is after indexing and after selecting the page. `scan`
are the rows the transcripts bring to the index. -/
structure Source where
  accountId : String
  siblingCurrent : Bool
  offered : DeviceSyncPolicy
  stores : Stores
  state : Option ArchiveState
  key : ArchiveKey
  keyIndexed : ArchiveKey
  keySelected : ArchiveKey
  now : ℕ
  scan : List ArchiveRow
  preferences : List PreferenceRecord

namespace Source

def unexpired (src : Source) (st : ArchiveState) : Bool := st.deadline.all fun d => src.now < d

def fresh (src : Source) : Option ArchiveState :=
  src.state.filter fun st => st.ready && st.token = src.key && src.unexpired st

def incremental (src : Source) : Option ArchiveState :=
  src.state.filter fun st =>
    st.ready && src.unexpired st && st.token.acceptsAppendOnlyChange src.key

/-- The index a page is read from: as it is, extended, or built from nothing. -/
def archive (src : Source) : Archive :=
  match src.fresh with
  | some st => st.archive
  | none =>
    src.scan.foldl Archive.offer (match src.incremental with
        | some st => st.archive
        | none => .empty)

def shares (src : Source) (wanted : DeviceSyncPolicy) : Bool :=
  (src.offered.history && wanted.history) || (src.offered.attachments && wanted.attachments)

def shownArchive (src : Source) (wanted : DeviceSyncPolicy) : Archive :=
  if src.shares wanted then src.archive else .empty

def shownPreferences (src : Source) (wanted : DeviceSyncPolicy) : List PreferenceRecord :=
  ((if src.offered.appearance && wanted.appearance then
      src.preferences.filter fun r => !r.contacts else []) ++
    (if src.offered.contacts && wanted.contacts then
      src.preferences.filter fun r => r.contacts else [])).insertionSort
      fun a b => toLex (a.contacts, a.key) ≤ toLex (b.contacts, b.key)

/-- What is hashed for a page. -/
def hashed (src : Source) (wanted : DeviceSyncPolicy) : List UInt8 :=
  utf8 "mesh-talk-account-sync-v2" ++ hashBytes (src.shownArchive wanted).digest ++
    (src.shownPreferences wanted).flatMap PreferenceRecord.bytes

def digest (src : Source) (wanted : DeviceSyncPolicy) : BitVec 256 :=
    Sha256.digest (src.hashed wanted)

theorem hashed_inj {src src' : Source} {wanted} (h : src.hashed wanted = src'.hashed wanted) :
    (src.shownArchive wanted).digest = (src'.shownArchive wanted).digest := by
  unfold hashed at h
  have hlen (d : BitVec 256) : (hashBytes d).length = 32 := EventId.length_asBytes _
  obtain ⟨h, -⟩ := append_inj h (by rw [length_append, length_append, hlen, hlen])
  exact hashBytes_injective (append_cancel_left h)

variable [Envelopes]

def prepareAccountExport (src : Source) (after : Option HistoryCursor) :
    Except NodeError (List HistoryRecord × Option HistoryCursor) := do
  ensure (src.siblingCurrent = true) (.authorization "account archive requester binding changed")
  ensure (src.fresh.isSome = true ∨ src.key.acceptsAppendOnlyChange src.keyIndexed = true)
    (.channel "account archive changed while indexing")
  let (page, next) ← selectPage src.archive.rows after
  let records ← materializeAll src.accountId src.stores (page.take recordsPerPage)
  ensure (src.key.acceptsAppendOnlyChange src.keySelected = true)
    (.channel "account archive changed while selecting page")
  pure (records, next)

/-- The history part of a page: empty if none is shared. -/
def historyPage (src : Source) (wanted : DeviceSyncPolicy) (after : Option HistoryCursor) :
    Except NodeError (List HistoryRecord × Option HistoryCursor) :=
  if src.shares wanted then src.prepareAccountExport after else .ok ([], none)

/-- The page a device answers a request with. A sibling that starts a sweep and already knows the
digest is only told so. -/
def answer (src : Source) (own : String) (wanted : DeviceSyncPolicy)
    (cursor : Option HistoryCursor) (knownDigest : BitVec 256) :
    Except NodeError HistoryPageCompletion := do
  ensure (own = src.accountId) (.authorization "not this account")
  let (records, next) ← src.historyPage wanted cursor
  if cursor = none ∧ knownDigest = src.digest wanted then
    pure ⟨[], none, src.digest wanted⟩
  else pure ⟨records, next, src.digest wanted⟩

def serve (src : Source) (own : String) (wanted : DeviceSyncPolicy)
    (cursor : Option HistoryCursor) (knownDigest : BitVec 256) :
    Except NodeError (List AccountHistoryFrame) :=
  (src.answer own wanted cursor knownDigest).map fun page =>
    pageFrames page.records page.nextCursor page.digest

def shown (src : Source) (wanted : DeviceSyncPolicy) : List (HistoryCursor × HistoryRecord) :=
  (src.shownArchive wanted).rows.filterMap fun row =>
    match materializeReady src.accountId src.stores row with
    | .ok (some r) => some (row.key, r)
    | _ => none

def keys (src : Source) (wanted : DeviceSyncPolicy) : List HistoryCursor :=
  (src.shownArchive wanted).keys

theorem mem_shown {src : Source} {wanted x} :
    x ∈ src.shown wanted ↔ ∃ row ∈ (src.shownArchive wanted).rows,
      row.key = x.1 ∧ materializeReady src.accountId src.stores row = .ok (some x.2) := by
  unfold shown
  rw [mem_filterMap]
  refine exists_congr fun row => and_congr_right fun _ => ?_
  constructor
  · intro h
    split at h
    next r hr =>
      cases h
      exact ⟨rfl, hr⟩
    next => cases h
  · rintro ⟨hk, hr⟩
    rw [hr, hk]

theorem key_mem_keys {src : Source} {wanted x} (h : x ∈ src.shown wanted) :
    x.1 ∈ src.keys wanted := by
  obtain ⟨row, hrow, hk, -⟩ := mem_shown.mp h
  exact hk ▸ mem_map_of_mem hrow

/-- Every record of the archive between two cursors is in a list of records. -/
def Covers (src : Source) (wanted : DeviceSyncPolicy) (after next : Option HistoryCursor)
    (records : List HistoryRecord) : Prop :=
  ∀ x ∈ src.shown wanted, (∀ c, after = some c → c < x.1) →
    (∀ c, next = some c → x.1 ≤ c) → x.2 ∈ records

variable {src : Source} {own : String} {wanted : DeviceSyncPolicy}
  {after next cursor : Option HistoryCursor} {records : List HistoryRecord}
  {known : BitVec 256} {page : HistoryPageCompletion}

theorem prepare_ok (h : src.prepareAccountExport after = .ok (records, next)) :
    ∃ rows, selectPage src.archive.rows after = .ok (rows, next) ∧
      materializeAll src.accountId src.stores rows = .ok records := by
  obtain ⟨_, -, h⟩ := bind_eq_ok.mp h
  obtain ⟨_, -, h⟩ := bind_eq_ok.mp h
  obtain ⟨⟨rows, n⟩, hsel, h⟩ := bind_eq_ok.mp h
  obtain ⟨rs, hrs, h⟩ := bind_eq_ok.mp h
  obtain ⟨_, -, h⟩ := bind_eq_ok.mp h
  cases h
  have hlen := (selectPage_spec src.archive.sorted hsel).1
  rw [take_of_length_le hlen] at hrs
  exact ⟨rows, hsel, hrs⟩

theorem historyPage_sendable (h : src.historyPage wanted after = .ok (records, next)) :
    records.length ≤ recordsPerPage ∧ ∀ r ∈ records, r.Sendable src.accountId := by
  unfold historyPage at h
  split_ifs at h with hs
  · obtain ⟨rows, hsel, hmat⟩ := prepare_ok h
    have hlen := (selectPage_spec src.archive.sorted hsel).1
    refine ⟨(length_materializeAll hmat).trans hlen, fun r hr => ?_⟩
    obtain ⟨row, -, hrow⟩ := (mem_materializeAll hmat).mp hr
    exact materialize_sendable hrow
  · cases h
    exact ⟨Nat.zero_le _, fun r hr => absurd hr not_mem_nil⟩

theorem historyPage_covers (h : src.historyPage wanted after = .ok (records, next)) :
    src.Covers wanted after next records := by
  intro x hx hafter hnext
  obtain ⟨row, hrow, hk, hmat⟩ := mem_shown.mp hx
  unfold historyPage at h
  unfold shownArchive at hrow
  split_ifs at h hrow with hs
  · obtain ⟨rows, hsel, hall⟩ := prepare_ok h
    rw [mem_materializeAll hall]
    refine ⟨row, (selectPage_spec src.archive.sorted hsel).2 row hrow ?_ ?_, hmat⟩
    · exact fun c hc => hk ▸ hafter c hc
    · exact fun c hc => hk ▸ hnext c hc
  · cases hrow

section

variable (h : src.answer own wanted cursor known = .ok page)
include h

theorem answer_ok : own = src.accountId ∧
    page.digest = src.digest wanted ∧ ∃ records next,
      src.historyPage wanted cursor = .ok (records, next) ∧
      ((cursor = none ∧ known = src.digest wanted ∧ page = ⟨[], none, src.digest wanted⟩) ∨
        page = ⟨records, next, src.digest wanted⟩) := by
  obtain ⟨hown, h⟩ := ensure_bind_eq_ok.mp h
  obtain ⟨⟨records, next⟩, hpage, h⟩ := bind_eq_ok.mp h
  split_ifs at h with hknown
  · cases h
    exact ⟨hown, rfl, records, next, hpage, .inl ⟨hknown.1, hknown.2, rfl⟩⟩
  · cases h
    exact ⟨hown, rfl, records, next, hpage, .inr rfl⟩

/-- **The frames of an answer** are put together to exactly the answer. -/
theorem answer_reassembles :
    feed own new (pageFrames page.records page.nextCursor page.digest) = .ok (new, some page) := by
  obtain ⟨rfl, -, records, next, hpage, hwhat⟩ := answer_ok h
  obtain ⟨hlen, hsend⟩ := historyPage_sendable hpage
  rcases hwhat with ⟨-, -, rfl⟩ | rfl
  · exact feed_page (fun r hr => absurd hr not_mem_nil) (Nat.zero_le _) none _
  · exact feed_page hsend hlen next _

/-- **An answer** says that its digest is known, or has every record between its two cursors. -/
theorem answer_covers :
    (cursor = none ∧ known = page.digest ∧ page.nextCursor = none) ∨
      src.Covers wanted cursor page.nextCursor page.records := by
  obtain ⟨-, hdig, records, next, hpage, hwhat⟩ := answer_ok h
  rcases hwhat with ⟨hc, hk, rfl⟩ | rfl
  · exact .inl ⟨hc, hk, rfl⟩
  · exact .inr (historyPage_covers hpage)

end

theorem shown_eq_nil (h : src.shares wanted = false) : src.shown wanted = [] := by
  unfold shown shownArchive
  rw [h]
  rfl

end Source

/-! ### The puller -/

/-- What a puller remembers of a sibling's archive. -/
structure PeerCursor where
  next : Option HistoryCursor
  knownDigest : BitVec 256
  sweepDigest : BitVec 256
deriving DecidableEq

namespace PeerCursor

def default : PeerCursor := ⟨none, 0, 0⟩

/-- Continue forward through a changing archive. A changed sweep gets one fresh sweep afterward to
collect new ids behind the exclusive cursor. -/
def completePage (c : PeerCursor) (next : Option HistoryCursor) (digest : BitVec 256) :
    PeerCursor × Bool :=
  match next with
  | some next =>
    (⟨some next, 0, if c.next.isNone then digest else c.sweepDigest⟩, false)
  | none =>
    let complete := c.next.isNone || c.sweepDigest == digest
    (⟨none, if complete then digest else 0, c.sweepDigest⟩, complete)

end PeerCursor

variable [Envelopes]

/-- One exchange: ask for the page after the cursor and put its frames together. A device that wants
nothing asks for nothing. -/
def pull (own : String) (wanted : DeviceSyncPolicy) (cursor : PeerCursor) (src : Source) :
    Except NodeError HistoryPageCompletion :=
  if !wanted.history && !wanted.attachments && !wanted.appearance && !wanted.contacts then
    .ok ⟨[], none, 0⟩
  else do
    let frames ← src.serve own wanted
      (if wanted.history || wanted.attachments then cursor.next else none) cursor.knownDigest
    match ← feed own new frames with
    | (_, some page) => pure page
    | (_, none) => .error (.channel "account-history read timed out")

/-- A page of a sweep, with the sibling as it was then. -/
structure Pulled where
  source : Source
  page : HistoryPageCompletion

/-- A puller: its cursor, the pages of the sweep that is under way, and the sibling as it was when a
sweep was last reported complete. -/
structure Puller where
  wanted : DeviceSyncPolicy
  cursor : PeerCursor
  sweep : List Pulled
  completed : Option Source

/-- What can happen: a page is asked for, or the user changes what is wanted, which drops the
cursor. -/
inductive Action where
  | page (src : Source)
  | policy (wanted : DeviceSyncPolicy)

namespace Puller

def start (wanted : DeviceSyncPolicy) : Puller := ⟨wanted, .default, [], none⟩

/-- What a page leaves; an exchange that fails leaves the cursor as it was. -/
def took (p : Puller) (src : Source) (page : HistoryPageCompletion) : Puller :=
  let (cursor, complete) := p.cursor.completePage page.nextCursor page.digest
  { p with
    cursor := cursor
    sweep := if page.nextCursor.isSome then p.sweep ++ [⟨src, page⟩] else []
    completed := if complete then some src else p.completed }

def step (own : String) (p : Puller) : Action → Puller
  | .policy wanted => start wanted
  | .page src =>
    match pull own p.wanted p.cursor src with
    | .error _ => p
    | .ok page => p.took src page

def Completes (own : String) (p : Puller) (src : Source) (page : HistoryPageCompletion) : Prop :=
  pull own p.wanted p.cursor src = .ok page ∧
    (p.cursor.completePage page.nextCursor page.digest).2 = true

/-- The archives a puller compares with one it is shown. -/
def compared (p : Puller) : List Source := p.sweep.map Pulled.source ++ p.completed.toList

/-- SHA-256 has no collision among what is hashed for the archives a puller compares, and does not
give zero. -/
def Apart (p : Puller) : Action → Prop
  | .policy _ => True
  | .page src => src.digest p.wanted ≠ 0 ∧ ∀ old ∈ p.compared,
      (old.digest p.wanted = src.digest p.wanted → old.hashed p.wanted = src.hashed p.wanted) ∧
      ((old.shownArchive p.wanted).digest = (src.shownArchive p.wanted).digest →
        (old.shownArchive p.wanted).hashed = (src.shownArchive p.wanted).hashed)

/-- Archives a puller compares have the same keys if the exclusive or of the hashes of their keys is
the same, and the number of them. -/
def Told (p : Puller) : Action → Prop
  | .policy _ => True
  | .page src => ∀ old ∈ p.compared,
      (old.shownArchive p.wanted).digestXor = (src.shownArchive p.wanted).digestXor →
      beBytes 8 (old.shownArchive p.wanted).records =
        beBytes 8 (src.shownArchive p.wanted).records →
      old.keys p.wanted = src.keys p.wanted

omit [Envelopes] in
theorem keys_of_digest {p : Puller} {src old : Source} (hfree : p.Apart (.page src))
    (htold : p.Told (.page src))
    (hold : old ∈ p.compared) (h : old.digest p.wanted = src.digest p.wanted) :
    old.keys p.wanted = src.keys p.wanted := by
  obtain ⟨hpage, harchive⟩ := hfree.2 old hold
  obtain ⟨hxor, hrecords⟩ := Archive.hashed_inj (harchive (Source.hashed_inj (hpage h)))
  exact htold old hold hxor hrecords

/-- No record that was in the index when the sweep began has come back after an absence. -/
def Steady (p : Puller) : Action → Prop
  | .policy _ => True
  | .page src => ∀ x ∈ src.shown p.wanted, ∀ first ∈ p.sweep.head?,
      x.1 ∈ first.source.keys p.wanted → ∀ q ∈ p.sweep, x ∈ q.source.shown p.wanted

/-! ### What a sweep has so far -/

variable {own : String} {wanted : DeviceSyncPolicy} {cursor : PeerCursor} {src : Source}
  {page : HistoryPageCompletion}

theorem covers_of_not_shares (h : src.shares wanted = false) (after next records) :
    src.Covers wanted after next records := by
  intro x hx
  rw [Source.shown_eq_nil h] at hx
  cases hx

theorem serve_feed {frames c k} (h : src.serve own wanted c k = .ok frames) :
    ∃ page, src.answer own wanted c k = .ok page ∧ feed own new frames = .ok (new, some page) := by
  unfold Source.serve at h
  cases ha : src.answer own wanted c k with
  | error e =>
    rw [ha] at h
    cases h
  | ok page =>
    rw [ha] at h
    cases h
    exact ⟨page, rfl, Source.answer_reassembles ha⟩

/-- What an exchange brings: the digest of the archive, and every record between the two cursors
unless the digest was known. -/
theorem pull_spec (h : pull own wanted cursor src = .ok page) :
    (page.digest = src.digest wanted ∨ (src.shown wanted = [] ∧ page = ⟨[], none, 0⟩)) ∧
      ((page.nextCursor = none ∧ cursor.knownDigest = src.digest wanted) ∨
        src.Covers wanted cursor.next page.nextCursor page.records) := by
  unfold pull at h
  split_ifs at h with hnothing hwants
  · cases h
    have hshares : src.shares wanted = false := by
      simp only [Bool.and_eq_true, Bool.not_eq_true'] at hnothing
      simp [Source.shares, hnothing.1.1.1, hnothing.1.1.2]
    exact ⟨.inr ⟨Source.shown_eq_nil hshares, rfl⟩, .inr (covers_of_not_shares hshares _ _ _)⟩
  · obtain ⟨frames, hserve, h⟩ := bind_eq_ok.mp h
    obtain ⟨page', hans, hfeed⟩ := serve_feed hserve
    rw [hfeed] at h
    cases h
    obtain ⟨-, hdig, -⟩ := Source.answer_ok hans
    refine ⟨.inl hdig, ?_⟩
    rcases Source.answer_covers hans with ⟨-, hk, hn⟩ | hcov
    · exact .inl ⟨hn, hk.trans hdig⟩
    · exact .inr hcov
  · obtain ⟨frames, hserve, h⟩ := bind_eq_ok.mp h
    obtain ⟨page', hans, hfeed⟩ := serve_feed hserve
    rw [hfeed] at h
    cases h
    obtain ⟨-, hdig, -⟩ := Source.answer_ok hans
    have hshares : src.shares wanted = false := by
      simp only [Bool.or_eq_true, not_or, Bool.not_eq_true] at hwants
      simp [Source.shares, hwants.1, hwants.2]
    exact ⟨.inl hdig, .inr (covers_of_not_shares hshares _ _ _)⟩

/-- What holds of a puller between two exchanges: the digest of the sweep is that of its first page,
what was there at every page and lies behind the cursor was brought, and the digest that is known is
that of the archive that was last completed. -/
structure Inv (p : Puller) : Prop where
  idle : p.cursor.next = none → p.sweep = []
  first : p.cursor.next ≠ none → ∃ q ∈ p.sweep.head?,
    p.cursor.sweepDigest = q.source.digest p.wanted
  covered : ∀ c, p.cursor.next = some c → ∀ x : HistoryCursor × HistoryRecord, x.1 ≤ c →
    (∀ q ∈ p.sweep, x ∈ q.source.shown p.wanted) → ∃ q ∈ p.sweep, x.2 ∈ q.page.records
  known : p.cursor.knownDigest = 0 ∨
    ∃ old, p.completed = some old ∧ p.cursor.knownDigest = old.digest p.wanted

theorem inv_start (wanted) : Inv (start wanted) :=
  ⟨fun _ => rfl, fun h => absurd rfl h, nofun, .inl rfl⟩

variable {p : Puller}

theorem Inv.more (hi : p.Inv) (h : pull own p.wanted p.cursor src = .ok page) {n}
    (hn : page.nextCursor = some n) : (p.took src page).Inv := by
  obtain ⟨hdig, hcov⟩ := pull_spec h
  have hdig : page.digest = src.digest p.wanted := by
    rcases hdig with hdig | ⟨-, rfl⟩
    · exact hdig
    · cases hn
  have htook : p.took src page = { p with
      cursor := ⟨some n, 0, if p.cursor.next.isNone then page.digest else p.cursor.sweepDigest⟩
      sweep := p.sweep ++ [⟨src, page⟩] } := by
    simp [took, PeerCursor.completePage, hn]
  rw [htook]
  refine ⟨nofun, fun _ => ?_, ?_, .inl rfl⟩
  · cases hc : p.cursor.next with
    | none => exact ⟨⟨src, page⟩, by rw [hi.idle hc]; rfl, by simpa using hdig⟩
    | some c =>
      obtain ⟨q, hq, hd⟩ := hi.first (by rw [hc]; nofun)
      refine ⟨q, ?_, by simpa using hd⟩
      rw [head?_append_of_ne_nil]
      · exact hq
      · rintro hnil
        rw [hnil] at hq
        cases hq
  · rintro _ ⟨⟩ x hx hall
    -- behind the old cursor, or on this page
    have hnew : (∀ c, p.cursor.next = some c → c < x.1) → x.2 ∈ page.records := by
      intro hafter
      rcases hcov with ⟨hnone, -⟩ | hcov
      · rw [hn] at hnone
        cases hnone
      · refine hcov x (hall ⟨src, page⟩ (by simp)) hafter fun c hc => ?_
        rw [hn] at hc
        cases hc
        exact hx
    cases hc : p.cursor.next with
    | none => exact ⟨⟨src, page⟩, by simp, hnew (by rw [hc]; nofun)⟩
    | some c =>
      by_cases hle : x.1 ≤ c
      · obtain ⟨q, hq, hr⟩ := hi.covered c hc x hle fun q hq => hall q (mem_append_left _ hq)
        exact ⟨q, mem_append_left _ hq, hr⟩
      · refine ⟨⟨src, page⟩, by simp, hnew ?_⟩
        rintro c' hc'
        rw [hc] at hc'
        cases hc'
        exact not_le.mp hle

theorem inv_last (h : pull own p.wanted p.cursor src = .ok page)
    (hn : page.nextCursor = none) : (p.took src page).Inv := by
  obtain ⟨hdig, -⟩ := pull_spec h
  unfold took
  simp only [PeerCursor.completePage, hn]
  refine ⟨fun _ => rfl, fun h => absurd rfl h, nofun, ?_⟩
  by_cases hc : (p.cursor.next.isNone || p.cursor.sweepDigest == page.digest) = true
  · simp only [hc, if_true]
    rcases hdig with hdig | ⟨-, rfl⟩
    · exact .inr ⟨src, rfl, hdig⟩
    · exact .inl rfl
  · rw [Bool.not_eq_true] at hc
    simp only [hc]
    exact .inl rfl

theorem Inv.step (hi : p.Inv) (a) : (p.step own a).Inv := by
  cases a with
  | policy wanted => exact inv_start wanted
  | page src =>
    cases h : pull own p.wanted p.cursor src with
    | error e =>
      simp only [Puller.step, h]
      exact hi
    | ok page =>
      simp only [Puller.step, h]
      cases hn : page.nextCursor with
      | none => exact inv_last h hn
      | some n => exact hi.more h hn

theorem inv_run (wanted) (as : List Action) : (as.foldl (step own) (start wanted)).Inv := by
  induction as using reverseRecOn with
  | nil => exact inv_start wanted
  | append_singleton as a ih =>
    rw [foldl_append]
    exact ih.step a

/-- What the last page of a sweep is for: with the pages before it, it has every record of the
archive, or the archive was completed before. -/
theorem Inv.completes (hi : p.Inv) (hfree : p.Apart (.page src)) (htold : p.Told (.page src))
    (hsteady : p.Steady (.page src)) (h : p.Completes own src page) :
    (∀ x ∈ src.shown p.wanted, ∃ q ∈ p.sweep ++ [⟨src, page⟩], x.2 ∈ q.page.records) ∨
      ∃ old, p.completed = some old ∧ old.keys p.wanted = src.keys p.wanted := by
  obtain ⟨hpull, hdone⟩ := h
  obtain ⟨hdig, hcov⟩ := pull_spec hpull
  rcases hcov with ⟨-, hk⟩ | hcov
  · -- the digest was known, so it is that of the archive that was completed last
    rcases hi.known with hzero | ⟨old, hold, hd⟩
    · exact absurd (hk.symm.trans hzero) hfree.1
    · exact .inr ⟨old, hold, keys_of_digest hfree htold (by simp [compared, hold])
        (hd.symm.trans hk)⟩
  · refine .inl fun x hx => ?_
    have hnext : page.nextCursor = none := by
      cases hn : page.nextCursor with
      | none => rfl
      | some n => simp [PeerCursor.completePage, hn] at hdone
    have hdig : page.digest = src.digest p.wanted := by
      rcases hdig with hdig | ⟨hnil, -⟩
      · exact hdig
      · rw [hnil] at hx
        cases hx
    have hlast : (∀ c, p.cursor.next = some c → c < x.1) →
        ∃ q ∈ p.sweep ++ [⟨src, page⟩], x.2 ∈ q.page.records := fun hafter =>
      ⟨⟨src, page⟩, by simp, hcov x hx hafter (by rw [hnext]; nofun)⟩
    cases hc : p.cursor.next with
    | none => exact hlast (by rw [hc]; nofun)
    | some c =>
      have hsame : p.cursor.sweepDigest = page.digest := by
        simpa [PeerCursor.completePage, hnext, hc] using hdone
      obtain ⟨first, hfirst, hd⟩ := hi.first (by rw [hc]; nofun)
      have hmem : first ∈ p.sweep := mem_of_mem_head? hfirst
      have hkeys : first.source.keys p.wanted = src.keys p.wanted :=
        keys_of_digest hfree htold (mem_append_left _ (mem_map_of_mem hmem))
          (hd.symm.trans (hsame.trans hdig))
      have hall := hsteady x hx first hfirst (hkeys ▸ Source.key_mem_keys hx)
      by_cases hle : x.1 ≤ c
      · obtain ⟨q, hq, hr⟩ := hi.covered c hc x hle hall
        exact ⟨q, mem_append_left _ hq, hr⟩
      · refine hlast fun c' hc' => ?_
        rw [hc] at hc'
        cases hc'
        exact not_le.mp hle

end Puller

/-- **A sweep that is reported complete missed nothing.** However the archive of the sibling changes
between the pages, when the cursor reports the sweep complete at a page, every record the archive
has then was in a page of the sweep, or the archive is the one that was completed before; and the
frames of every page are put together to exactly the page. What is asked, beyond a hash without
collisions, is that the exclusive or and the number tell the archives apart that the puller
compares, and that no record that was in the index when the sweep began has come back after an
absence. -/
theorem sweep_missed_nothing (own : String) (wanted : DeviceSyncPolicy) (as : List Action)
    (src : Source) (page : HistoryPageCompletion)
    (hfree : (as.foldl (Puller.step own) (.start wanted)).Apart (.page src))
    (htold : (as.foldl (Puller.step own) (.start wanted)).Told (.page src))
    (hsteady : (as.foldl (Puller.step own) (.start wanted)).Steady (.page src))
    (hdone : (as.foldl (Puller.step own) (.start wanted)).Completes own src page) :
    ((∀ x ∈ src.shown (as.foldl (Puller.step own) (.start wanted)).wanted,
        ∃ q ∈ (as.foldl (Puller.step own) (.start wanted)).sweep ++ [⟨src, page⟩],
          x.2 ∈ q.page.records) ∨
      ∃ old, (as.foldl (Puller.step own) (.start wanted)).completed = some old ∧
        old.keys (as.foldl (Puller.step own) (.start wanted)).wanted =
          src.keys (as.foldl (Puller.step own) (.start wanted)).wanted) ∧
    ∀ (s : Source) (w : DeviceSyncPolicy) (cursor : Option HistoryCursor) (known : BitVec 256)
      (answer : HistoryPageCompletion), s.answer own w cursor known = .ok answer →
      feed own new (pageFrames answer.records answer.nextCursor answer.digest) =
        .ok (new, some answer) :=
  ⟨(Puller.inv_run wanted as).completes hfree htold hsteady hdone,
    fun _ _ _ _ _ h => Source.answer_reassembles h⟩

end

section Samples

/-- A hash that keeps the last byte: the digest of an archive is then its number of rows. -/
@[reducible] def lastByte : Sha256 := ⟨fun bs => BitVec.ofNat 256 (bs.getLast?.getD 0).toNat⟩

@[reducible] def noEnvelopes : Envelopes := ⟨fun _ => none, fun _ _ => ⟨0⟩⟩

def sampleGroup (n : ℕ) : ConversationId := if n = 20 then ⟨2⟩ else ⟨1⟩

def sampleRow (n : ℕ) : ArchiveRow := ⟨⟨1, ⟨n⟩⟩, .received, n, sampleGroup n, none, 2048⟩

def sampleRecord (n : ℕ) : HistoryRecord := .channel ⟨sampleGroup n, "bob", 7, ⟨n⟩, [1]⟩

def sampleStores : Stores where
  userId := "alice"
  suppressed := fun _ _ => false
  sent := fun _ => none
  received := fun n => some ⟨sampleGroup n, ⟨n⟩, "bob", 7, [1]⟩
  files := fun _ => none
  eligibleOrdinal := fun _ => false
  fileErased := fun _ _ => false
  fileSuppressed := fun _ => false
  recipientExpired := fun _ _ _ => false
  proof := fun _ => none
  eligibleManifest := fun _ _ => false
  authorAccount := fun _ _ => none
  recalled := fun _ _ _ _ => false
  eventBytes := fun _ => []

def samplePolicy : DeviceSyncPolicy := ⟨true, false, false, false⟩

def sampleKey : ArchiveKey := ⟨"alice", true, false, 2, [], [], [], [], (0, 0), 0, 0⟩

/-- A device that shares these messages. -/
def sampleSource (ns : List ℕ) : letI := lastByte; Source :=
  letI := lastByte
  { accountId := "alice"
    siblingCurrent := true
    offered := samplePolicy
    stores := sampleStores
    state := none
    key := sampleKey
    keyIndexed := sampleKey
    keySelected := sampleKey
    now := 0
    scan := ns.map sampleRow
    preferences := [] }

def upTo (n : ℕ) : List ℕ := (List.range n).map (· + 1)

/-- A sweep of seventeen messages that do not change ends with the second page. -/
theorem sweep_missed_nothing_sample :
    letI := lastByte
    letI := noEnvelopes
    ∃ p : Puller, p = [Action.page (sampleSource (upTo 17))].foldl (Puller.step "alice")
        (.start samplePolicy) ∧
      p.Completes "alice" (sampleSource (upTo 17))
        ⟨[sampleRecord 17], none, (sampleSource (upTo 17)).digest samplePolicy⟩ ∧
      ((∀ x ∈ (sampleSource (upTo 17)).shown p.wanted, ∃ q ∈ p.sweep ++ [⟨sampleSource (upTo 17),
              ⟨[sampleRecord 17], none, (sampleSource (upTo 17)).digest samplePolicy⟩⟩],
            x.2 ∈ q.page.records) ∨
        ∃ old, p.completed = some old ∧ old.keys p.wanted = (sampleSource (upTo 17)).keys
          p.wanted) := by
  let := lastByte
  let := noEnvelopes
  have hdone : ([Action.page (sampleSource (upTo 17))].foldl (Puller.step "alice")
      (.start samplePolicy)).Completes "alice" (sampleSource (upTo 17))
      ⟨[sampleRecord 17], none, (sampleSource (upTo 17)).digest samplePolicy⟩ := by
    unfold Puller.Completes
    decide +kernel
  exact ⟨_, rfl, hdone, (sweep_missed_nothing "alice" samplePolicy
    [.page (sampleSource (upTo 17))] (sampleSource (upTo 17)) _
    (by unfold Puller.Apart; decide +kernel) (by unfold Puller.Told; decide +kernel)
    (by unfold Puller.Steady; decide +kernel) hdone).1⟩

/-- The pages of a sweep of thirty-four messages: the group of the twentieth leaves what is shared
before the second page, and is back before the third. -/
theorem returned_record_missed :
    letI := lastByte
    letI := noEnvelopes
    ∃ p : Puller, p = [Action.page (sampleSource (upTo 34)),
        .page (sampleSource ((upTo 34).erase 20))].foldl (Puller.step "alice")
          (.start samplePolicy) ∧
      p.Apart (.page (sampleSource (upTo 34))) ∧ p.Told (.page (sampleSource (upTo 34))) ∧
      p.Completes "alice" (sampleSource (upTo 34))
        ⟨[sampleRecord 34], none, (sampleSource (upTo 34)).digest samplePolicy⟩ ∧
      p.completed.isNone ∧
      (⟨1, ⟨20⟩⟩, sampleRecord 20) ∈ (sampleSource (upTo 34)).shown p.wanted ∧
      ∀ q ∈ p.sweep ++ [⟨sampleSource (upTo 34),
          ⟨[sampleRecord 34], none, (sampleSource (upTo 34)).digest samplePolicy⟩⟩],
        sampleRecord 20 ∉ q.page.records := by
  let := lastByte
  let := noEnvelopes
  refine ⟨_, rfl, ?_, ?_, ?_, ?_, ?_, ?_⟩
  · unfold Puller.Apart
    decide +kernel
  · unfold Puller.Told
    decide +kernel
  · unfold Puller.Completes
    decide +kernel
  · decide +kernel
  · decide +kernel
  · decide +kernel

end Samples

end MeshTalk.AccountSync
