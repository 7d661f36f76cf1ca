import MeshTalk.Personal.Erasure
import MeshTalk.Personal.Queue

/-! # Deleted history and the pages of siblings

The devices of an account exchange their controls in any order and pull pages of history from each
other (`node/account_sync.rs`). A device captures, when it asks for a page, the floors it knows and
which of them both sides have applied. The source reads its rows some time later, checks each of
them before it sends it, and the page is committed still later, against the floors then in force. -/

namespace MeshTalk.Personal

open Lib Channel AccountGroup List

/-! ### Records -/

/-- What a record says of the row it carries: the accounts of a direct message, the message of a
group, or a file card with the account it is shared with. -/
inductive Shape where
  | direct (sender recipient : String)
  | channel
  | fileCard (peer : Option String)
deriving DecidableEq

/-- A row as a page carries it. -/
structure Record where
  row : Row
  shape : Shape
deriving DecidableEq

/-- The floors a request was made under, and the conversations it may bring nothing of. -/
structure HistoryCut where
  floors : DocumentConversation → Option DocumentVersion
  blocked : DocumentConversation → Bool

/-- A cut lets a conversation in whose floor is the one it was captured with. -/
def HistoryCut.allows (cut : HistoryCut) (d : Device) (c : DocumentConversation) : Bool :=
  !cut.blocked c && cut.floors c = (d.store.floors.get c).map (·.version)

def recordConversation (account : String) (r : Record) : Option DocumentConversation :=
  match r.shape with
  | .direct sender recipient =>
    let peer := if sender = account then some recipient
      else if recipient = account then some sender else none
    peer.bind fun p => if r.row.host = .account p then some (.account p) else none
  | .channel =>
    match r.row.host with
    | .channel group => some (.channel group)
    | .account _ => none
  | .fileCard (some peer) => some (.account peer)
  | .fileCard none =>
    match r.row.host with
    | .channel group => some (.channel group)
    | .account _ => none

def recordGroup (r : Record) : Option ConversationId :=
  match r.shape, r.row.host with
  | .channel, .channel group => some group
  | .fileCard none, .channel group => some group
  | _, _ => none

/-- What the other checks of an import say of a record: whether it is expired or recalled, and
whether it conflicts with what is there. -/
inductive Verdict where
  | store | skip | fail
deriving DecidableEq

namespace Device

variable (own : PublicIdentity) (account : String) (d : Device)

/-- The floors of a device, with those blocked that it or the source has not applied. -/
def captureHistoryCut (source : PublicIdentity) : HistoryCut where
  floors := fun c => (d.store.floors.get c).map (·.version)
  blocked := fun c => (d.store.floors.get c).any fun f =>
    !(d.store.applied.contains ⟨c, f.version, own⟩ && d.store.applied.contains
      ⟨c, f.version, source⟩)

/-- A floor lets history in that both sides have applied it for. -/
def historySourceAllowed (c : DocumentConversation) (source : PublicIdentity) : Bool :=
  (d.store.floors.get c).isNone || d.store.sourceApplied c own && d.store.sourceApplied c source

def channelRecordCurrent [EventGraph] (d : Device) (group : ConversationId) (event : EventId) :
    Bool :=
  match d.store.floors.get (.channel group), d.access group with
  | some f, .ok access => descends d.log group ((freshLifetimes access f.closed).map anchor) event
  | _, _ => false

def takesPart (d : Device) (group : ConversationId) : Bool :=
  match d.access group with
  | .ok access => access.role = .member || access.role = .owner
  | .error _ => false

def recordCurrent [EventGraph] (r : Record) (cut : Option HistoryCut) (source : PublicIdentity) :
    Bool :=
  match recordConversation account r with
  | none => true
  | some c =>
    let plain := match cut with
      | some cut => cut.allows d c
      | none => d.historySourceAllowed own c source
    match recordGroup r with
    | some group =>
      if (d.store.floors.get c).isSome && d.takesPart group
        then d.channelRecordCurrent group r.row.id
      else plain
    | none => plain

/-- Store the row of a record, unless it is suppressed, or fail. -/
def importRecord (verdict : EventId → Verdict) (r : Record) : Option Device :=
  match recordConversation account r with
  | none =>
    match r.shape with
    | .fileCard _ => none
    | _ => some d
  | some c =>
    if c ≠ r.row.host then none
    else if d.suppressed.contains (c, r.row.id) then some d
    else
      match verdict r.row.id with
      | .store => some (d.record c r.row.id)
      | .skip => some d
      | .fail => none

def importAll (account : String) (verdict : EventId → Verdict) : Device → List Record → Device
  | d, [] => d
  | d, r :: rest =>
    match d.importRecord account verdict r with
    | some d' => importAll account verdict d' rest
    | none => d

/-- The records of a page in the order of their import: direct messages, messages of groups, file
cards. -/
def importOrder (history files : Bool) (records : List Record) : List Record :=
  (if history then
      (records.filter fun r => match r.shape with | .direct _ _ => true | _ => false) ++
        records.filter fun r => r.shape = .channel
    else []) ++
  if files then
    records.filter fun r => match r.shape with | .fileCard _ => true | _ => false
  else []

end Device

/-! ### The devices of an account -/

/-- A page on its way. Once it is read it has the copies of the rows, and, for the proofs, what the
source had erased until then. -/
structure Page where
  requester : PublicIdentity
  source : PublicIdentity
  cut : HistoryCut
  records : Option (List Record)
  seen : List Erasure
  sent : Bool

/-- The devices of an account and the pages between them. -/
structure Network where
  devices : PublicIdentity → Device
  pages : Table ℕ Page

namespace Network

/-- What happens: a device acts, a document of one device is merged on another, a page is asked for,
read, sent and committed, and a device goes down and comes up again. -/
inductive Action where
  | act (p : PublicIdentity) (action : Device.Action)
  | deliver (p q : PublicIdentity) (n : ℕ) (saved : Bool)
  | request (i : ℕ) (p q : PublicIdentity)
  | read (i : ℕ) (records : List Record)
  | send (i : ℕ)
  | commit (i : ℕ) (history files : Bool) (verdict : EventId → Verdict)
  | crash (p : PublicIdentity)

def isLocal : Device.Action → Bool
  | .merge _ _ => false
  | .restart => false
  | _ => true

def update (s : Network) (p : PublicIdentity) (d : Device) : Network :=
  { s with devices := Function.update s.devices p d }

def setPage (s : Network) (i : ℕ) (page : Page) : Network := { s with pages := s.pages.set i page }

/-- A source can read a record: it holds the row, which is not suppressed. -/
def readable (d : Device) (r : Record) : Bool :=
  d.rows.contains r.row && !d.suppressed.contains (r.row.host, r.row.id)

section

variable [Sha256] [ContentHash] [EventGraph] (account : String)

def commitPage (s : Network) (i : ℕ) (page : Page) (records : List Record) (history files : Bool)
    (verdict : EventId → Verdict) : Network :=
  let d := s.devices page.requester
  let admitted := records.filter fun r =>
    d.recordCurrent page.requester account r (some page.cut) page.source
  { s.update page.requester
    (Device.importAll account verdict d (Device.importOrder history files admitted))
    with pages := s.pages.erase i }

def step (s : Network) : Action → Network
  | .act p action => if isLocal action then s.update p ((s.devices p).perform p action) else s
  | .deliver p q n saved =>
    match (s.devices q).store.personal[n]? with
    | some x => s.update p ((s.devices p).perform p (.merge x saved))
    | none => s
  | .request i p q =>
    if s.pages.has i then s
    else s.setPage i ⟨p, q, (s.devices p).captureHistoryCut p q, none, [], false⟩
  | .read i records =>
    match s.pages.get i with
    | some page =>
      if page.records.isNone && records.all (readable (s.devices page.source)) then
        s.setPage i { page with records := some records, seen := (s.devices page.source).erasures }
      else s
    | none => s
  | .send i =>
    match s.pages.get i with
    | some page =>
      match page.records with
      | some records =>
        if records.all fun r =>
            (s.devices page.source).recordCurrent page.source account r none page.source then
          s.setPage i { page with sent := true }
        else { s with pages := s.pages.erase i }
      | none => s
    | none => s
  | .commit i history files verdict =>
    match s.pages.get i with
    | some page =>
      match page.records with
      | some records =>
        if page.sent then commitPage account s i page records history files verdict else s
      | none => s
    | none => s
  | .crash p =>
    { s.update p (s.devices p).restart with
      pages := s.pages.filter fun row => row.2.requester ≠ p && row.2.source ≠ p }

end

/-! ### What a page stores -/

section Import

variable {account : String} {verdict : EventId → Verdict} {d d' : Device}

theorem import_record {r} (h : d.importRecord account verdict r = some d') :
    d' = d ∨ recordConversation account r = some r.row.host ∧
      d' = d.record r.row.host r.row.id := by
  unfold Device.importRecord at h
  split at h
  · split at h
    · cases h
    · cases h
      exact .inl rfl
  · next c hc =>
    split at h
    · cases h
    · next heq =>
      rw [Decidable.not_not] at heq
      subst heq
      split at h
      · cases h
        exact .inl rfl
      · split at h
        · cases h
          exact .inr ⟨hc, rfl⟩
        · cases h
          exact .inl rfl
        · cases h

/-- A page leaves all but the rows, and stores rows of its records. -/
structure Imported (account : String) (records : List Record) (d d' : Device) : Prop where
  store : d'.store = d.store
  erasures : d'.erasures = d.erasures
  rows : ∀ r ∈ d'.rows, r ∈ d.rows ∨ ∃ x ∈ records, x.row.host = r.host ∧ x.row.id = r.id ∧
    recordConversation account x = some r.host

theorem imported_record {r} (h : d.importRecord account verdict r = some d') :
    Imported account [r] d d' := by
  rcases import_record h with rfl | ⟨hc, rfl⟩
  · exact ⟨rfl, rfl, fun _ => .inl⟩
  · unfold Device.record
    split
    · exact ⟨rfl, rfl, fun _ => .inl⟩
    · refine ⟨rfl, rfl, fun x hx => ?_⟩
      rcases mem_append.mp hx with hx | hx
      · exact .inl hx
      · rw [mem_singleton] at hx
        subst hx
        exact .inr ⟨r, mem_cons_self, rfl, rfl, hc⟩

theorem imported_all (account verdict) :
    ∀ (records : List Record) (d : Device),
      Imported account records d (Device.importAll account verdict d records)
  | [], d => ⟨rfl, rfl, fun _ => .inl⟩
  | r :: rest, d => by
    unfold Device.importAll
    split
    · next d' hd =>
      have h1 := imported_record hd
      have h2 := imported_all account verdict rest d'
      refine ⟨h2.store.trans h1.store, h2.erasures.trans h1.erasures, fun x hx => ?_⟩
      rcases h2.rows x hx with hx | ⟨y, hy, hrest⟩
      · rcases h1.rows x hx with hx | ⟨y, hy, hrest⟩
        · exact .inl hx
        · rw [mem_singleton] at hy
          exact .inr ⟨y, hy ▸ mem_cons_self, hrest⟩
      · exact .inr ⟨y, mem_cons_of_mem _ hy, hrest⟩
    · exact ⟨rfl, rfl, fun _ => .inl⟩

theorem kept_importAll [EventGraph] : ∀ (records : List Record) {d}, d.Kept →
    (Device.importAll account verdict d records).Kept
  | [], _, h => h
  | r :: rest, d, h => by
    unfold Device.importAll
    split
    · next d' hd =>
      refine kept_importAll rest ?_
      rcases import_record hd with rfl | ⟨-, rfl⟩
      · exact h
      · exact h.record _ _
    · exact h

theorem mem_of_importOrder {history files records r}
    (h : r ∈ Device.importOrder history files records) : r ∈ records := by
  rcases mem_append.mp h with h | h
  · split at h
    · rcases mem_append.mp h with h | h <;> exact (mem_filter.mp h).1
    · exact absurd h not_mem_nil
  · split at h
    · exact (mem_filter.mp h).1
    · exact absurd h not_mem_nil

end Import

/-! ### The invariant -/

/-- What a copy on a page has to do with an erasure: it was stored after it or is spared by it, and
its id is not suppressed by it. -/
def Clear [EventGraph] (e : Erasure) (r : Row) : Prop :=
  (e.time < r.since ∨ e.Spares r.id) ∧ r.id ∉ e.suppressed

/-- The source of a page had erased for every floor the page may pass, when it was asked for and
when the page was read, and its copies are clear of what it had erased for. -/
structure PageOk [EventGraph] (s : Network) (page : Page) : Prop where
  asked : ∀ c v, page.cut.floors c = some v → page.cut.blocked c = false →
    ∃ e ∈ (s.devices page.source).erasures, e.For c v
  was_read : ∀ records, page.records = some records →
    (∀ c v, page.cut.floors c = some v → page.cut.blocked c = false → ∃ e ∈ page.seen, e.For c v) ∧
      ∀ r ∈ records, ∀ e ∈ page.seen, e.conversation = r.row.host → Clear e r.row

/-- What holds of all devices and pages together. -/
structure Inv [EventGraph] (s : Network) : Prop where
  kept : ∀ p, (s.devices p).Kept
  settled : ∀ q, ∀ x ∈ (s.devices q).store.personal, ∀ k, x.acknowledges = some k →
    (s.devices k.device).Settled k
  pages : ∀ i page, s.pages.get i = some page → PageOk s page

section Steps

variable [EventGraph] {s s' : Network}

section

variable (h : Inv s)
include h

theorem Inv.update {p d} (hd : s'.devices = Function.update s.devices p d) (hk : d.Kept)
    (hp : ∀ x ∈ (s.devices p).store.personal, x ∈ d.store.personal)
    (he : ∀ e ∈ (s.devices p).erasures, e ∈ d.erasures)
    (hs : ∀ x ∈ d.store.personal, x ∈ (s.devices p).store.personal ∨ ∀ k, x.acknowledges = some k →
      (s.devices k.device).Settled k)
    (hpages : ∀ i page, s'.pages.get i = some page → s.pages.get i = some page) : Inv s' := by
  have hpersonal (q : PublicIdentity) : ∀ x ∈ (s.devices q).store.personal,
      x ∈ (s'.devices q).store.personal := by
    rw [hd]
    by_cases hq : q = p
    · subst hq
      rwa [Function.update_self]
    · rw [Function.update_of_ne hq]
      exact fun _ => id
  have herasures (q : PublicIdentity) : ∀ e ∈ (s.devices q).erasures,
    e ∈ (s'.devices q).erasures := by
    rw [hd]
    by_cases hq : q = p
    · subst hq
      rwa [Function.update_self]
    · rw [Function.update_of_ne hq]
      exact fun _ => id
  have hsettled {q : PublicIdentity} {k : AppliedKey} (hk : (s.devices q).Settled k) :
      (s'.devices q).Settled k := by
    obtain ⟨⟨e, he, hfor⟩, x, hx, hrest⟩ := hk
    exact ⟨⟨e, herasures q e he, hfor⟩, x, hpersonal q x hx, hrest⟩
  refine ⟨fun q => ?_, fun q x hx k hack => ?_, fun i page hi => ?_⟩
  · rw [hd]
    by_cases hq : q = p
    · subst hq
      rwa [Function.update_self]
    · rw [Function.update_of_ne hq]
      exact h.kept q
  · rw [hd] at hx
    by_cases hq : q = p
    · subst hq
      rw [Function.update_self] at hx
      rcases hs x hx with hx | hx
      · exact hsettled (h.settled q x hx k hack)
      · exact hsettled (hx k hack)
    · rw [Function.update_of_ne hq] at hx
      exact hsettled (h.settled q x hx k hack)
  · obtain ⟨hasked, hread⟩ := h.pages i page (hpages i page hi)
    refine ⟨fun c v hf hb => ?_, hread⟩
    obtain ⟨e, hm, hfor⟩ := hasked c v hf hb
    exact ⟨e, herasures _ e hm, hfor⟩

theorem Inv.setPage {i page} (hp : PageOk s page) : Inv (s.setPage i page) := by
  refine ⟨h.kept, h.settled, fun j other hj => ?_⟩
  have hget : (s.setPage i page).pages.get j = if j = i then some page else s.pages.get j :=
    Table.get_set _ _ _ _
  rw [hget] at hj
  split at hj
  · cases hj
    exact ⟨hp.asked, hp.was_read⟩
  · exact ⟨(h.pages j other hj).asked, (h.pages j other hj).was_read⟩

theorem Inv.erasePage (i) : Inv { s with pages := s.pages.erase i } :=
  ⟨h.kept, h.settled, fun j page hj =>
    have hp := h.pages j page (Table.get_of_get_erase hj)
    ⟨hp.asked, hp.was_read⟩⟩

/-- A cut lets a conversation in only if the source had erased for its floor. -/
theorem Inv.pageOk_request (p q) :
    PageOk s ⟨p, q, (s.devices p).captureHistoryCut p q, none, [], false⟩ := by
  refine ⟨fun c v hf hb => ?_, fun records hr => by cases hr⟩
  obtain ⟨f, hfloor, rfl⟩ := Option.map_eq_some_iff.mp hf
  have hb' : ((s.devices p).store.floors.get c).any (fun f =>
      !((s.devices p).store.applied.contains ⟨c, f.version, p⟩ &&
        (s.devices p).store.applied.contains ⟨c, f.version, q⟩)) = false := hb
  rw [hfloor, Option.any_some, Bool.not_eq_false', Bool.and_eq_true, contains_iff_mem,
    contains_iff_mem] at hb'
  obtain ⟨x, hx, hack⟩ := ((h.kept p).indexed.applied_iff _).mp hb'.2
  exact (h.settled p x hx _ hack).1

/-- The copies a source reads are clear of all it has erased. -/
theorem Inv.pageOk_read {i page} (hi : s.pages.get i = some page) {records}
    (hr : records.all (readable (s.devices page.source)) = true) :
    PageOk s { page with records := some records, seen := (s.devices page.source).erasures } := by
  have hp := h.pages i page hi
  have hk := h.kept page.source
  refine ⟨hp.asked, fun rs hrs => ?_⟩
  cases hrs
  refine ⟨hp.asked, fun r hm e he hc => ?_⟩
  have hread := all_eq_true.mp hr r hm
  rw [readable, Bool.and_eq_true, contains_iff_mem, Bool.not_eq_true'] at hread
  refine ⟨hk.rows r.row hread.1 e he hc, fun hsup => ?_⟩
  have := hk.suppressed e he _ hsup
  rw [hc, ← contains_iff_mem, hread.2] at this
  cases this

theorem Inv.commitPage {account i page records history files verdict} :
    Inv (commitPage account s i page records history files verdict) := by
  have hi := imported_all account verdict (Device.importOrder history files (records.filter fun r =>
      (s.devices page.requester).recordCurrent page.requester account r
        (some page.cut) page.source))
    (s.devices page.requester)
  refine h.update rfl (kept_importAll _ (h.kept _)) ?_ ?_ ?_ fun _ _ => Table.get_of_get_erase
  · rw [hi.store]
    exact fun _ => id
  · rw [hi.erasures]
    exact fun _ => id
  · rw [hi.store]
    exact fun _ => .inl

end

variable [Sha256] [ContentHash] {account : String}

/-- **One step** of the devices of an account. -/
theorem inv_step (h : Inv s) (action) : Inv (s.step account action) := by
  cases action with
  | act p action =>
    unfold step
    dsimp only
    split
    · next hlocal =>
      have hg : Device.Grows p (s.devices p) ((s.devices p).perform p action) :=
        Device.grows_perform (h.kept p) fun x saved heq => by rw [heq] at hlocal; cases hlocal
      refine h.update rfl (Device.kept_perform (h.kept p) action) hg.personal hg.erasures
        ?_ fun _ _ => id
      intro x hx
      rcases hg.acknowledged x hx with hx | hnone | ⟨k, hk, rfl, hset⟩
      · exact .inl hx
      · refine .inr fun k hk => ?_
        rw [hnone] at hk
        cases hk
      · refine .inr fun k' hk' => ?_
        rw [hk] at hk'
        cases hk'
        exact hset
    · exact h
  | deliver p q n saved =>
    unfold step
    dsimp only
    split
    · next x hx =>
      have hxm : x ∈ (s.devices q).store.personal := mem_of_getElem? hx
      have hstore : ((s.devices p).perform p (.merge x saved)).store.personal =
          (s.devices p).store.personal ∨ ((s.devices p).perform p (.merge x saved)).store.personal =
          (s.devices p).store.personal ++ [x] := by
        unfold Device.perform
        dsimp only
        split
        · next hok =>
          rcases Store.merge_cases hok with rfl | rfl
          · exact .inl rfl
          · exact .inr rfl
        · exact .inl rfl
      have herasures : ((s.devices p).perform p (.merge x saved)).erasures =
        (s.devices p).erasures := by
        unfold Device.perform
        dsimp only
        split <;> rfl
      refine h.update rfl (Device.kept_perform (h.kept p) _) ?_ (fun e he => herasures ▸ he) ?_
        fun _ _ => id
      · intro y hy
        rcases hstore with hs | hs
        · exact hs ▸ hy
        · exact hs ▸ mem_append_left _ hy
      · intro y hy
        rcases hstore with hs | hs
        · exact .inl (hs ▸ hy)
        · rw [hs, mem_append, mem_singleton] at hy
          rcases hy with hy | rfl
          · exact .inl hy
          · exact .inr (h.settled q y hxm)
    · exact h
  | request i p q =>
    unfold step
    dsimp only
    split
    · exact h
    · exact h.setPage (h.pageOk_request p q)
  | read i records =>
    unfold step
    dsimp only
    split
    · next page hi =>
      split
      · next hr =>
        rw [Bool.and_eq_true] at hr
        exact h.setPage (h.pageOk_read hi hr.2)
      · exact h
    · exact h
  | send i =>
    unfold step
    dsimp only
    split
    · next page hi =>
      split
      · split
        · have hp := h.pages i page hi
          exact h.setPage ⟨hp.asked, hp.was_read⟩
        · exact h.erasePage i
      · exact h
    · exact h
  | commit i history files verdict =>
    unfold step
    dsimp only
    split
    · split
      · split
        · exact h.commitPage
        · exact h
      · exact h
    · exact h
  | crash p =>
    refine h.update (p := p) rfl (h.kept p).restart ?_ (fun _ => id) ?_ fun i page hi => ?_
    · intro x hx
      exact (Store.personal_openFrom _).symm ▸ hx
    · intro x hx
      exact .inl (Store.personal_openFrom (s.devices p).store.personal ▸ hx)
    · exact (Table.get_filter_eq_some.mp hi).1

def new : Network := ⟨fun _ => Device.new, ∅⟩

def run (s : Network) (account : String) (actions : List Action) : Network :=
  actions.foldl (step account) s

omit [Sha256] [ContentHash] in
theorem inv_new : Inv new where
  kept := fun _ =>
    { indexed := Store.indexed_empty
      floor := fun n a f hn => by cases hn
      erased := fun n a f hn => by cases hn
      time := fun e he => absurd he not_mem_nil
      rows := fun r hr => absurd hr not_mem_nil
      suppressed := fun e he => absurd he not_mem_nil }
  settled := fun q x hx => absurd hx not_mem_nil
  pages := fun i page hi => by cases hi

/-- **Every run.** -/
theorem inv_run (account actions) : Inv (new.run account actions) :=
  foldlRecOn actions (step account) inv_new fun _ h a _ => inv_step h a

end Steps

/-- A row of a group follows a membership that takes part in it as the device sees it, and that a
deletion is not for. -/
def Exempt [EventGraph] (d : Device) (f : Document) (r : Row) : Prop :=
  ∃ group access, r.host = .channel group ∧ d.access group = .ok access ∧
    ∃ l ∈ freshLifetimes access f.closed, Follows (anchor l) r.id

theorem host_of_recordGroup {r group} (h : recordGroup r = some group) :
    r.row.host = .channel group := by
  unfold recordGroup at h
  split at h
  · next heq =>
    cases h
    exact heq
  · next heq =>
    cases h
    exact heq
  · cases h

/-- What is let in follows a fresh membership, or was asked for under the floor in force. -/
theorem recordCurrent_cases [EventGraph] {d own source account r cut f}
    (hc : recordConversation account r = some r.row.host)
    (hf : d.store.floors.get r.row.host = some f)
    (h : d.recordCurrent own account r (some cut) source = true) :
    Exempt d f r.row ∨ cut.blocked r.row.host = false ∧ cut.floors r.row.host = some f.version := by
  have hplain (hallows : cut.allows d r.row.host = true) :
      cut.blocked r.row.host = false ∧ cut.floors r.row.host = some f.version := by
    rw [HistoryCut.allows, hf, Bool.and_eq_true, Bool.not_eq_true', decide_eq_true_eq] at hallows
    exact hallows
  unfold Device.recordCurrent at h
  rw [hc] at h
  dsimp only at h
  split at h
  · next group hg =>
    split at h
    · have hhost := host_of_recordGroup hg
      unfold Device.channelRecordCurrent at h
      split at h
      · next f' access hf' hacc =>
        rw [← hhost, hf] at hf'
        cases hf'
        obtain ⟨v, hv, hfollows⟩ := follows_of_descends h
        obtain ⟨l, hl, rfl⟩ := mem_map.mp hv
        exact .inl ⟨group, access, hhost, hacc, l, hl, hfollows⟩
      · cases h
    · exact .inr (hplain h)
  · exact .inr (hplain h)

end Network

open Network in
/-- **A cleared conversation does not come back.** After a device has recorded a clearing deletion
as applied, whatever row a page makes it store in that conversation either follows, as a message of
a group, a membership that takes part and that the deletion in force is not for; or it is a copy
that the source stored after each of its erasures for the deletion in force, of which there was one
before it read the page, or that follows a membership such an erasure spared and the deletion is not
for. The deletion in force is that one or a later one. -/
theorem cleared_stays_cleared [Sha256] [ContentHash] [EventGraph] (account : String)
    (actions : List Network.Action) (i : ℕ) (history files : Bool) (verdict : EventId → Verdict)
    (page : Page) (hpage : (new.run account actions).pages.get i = some page) (r : Row)
    (hstored : r ∈ (((new.run account actions).step account
      (.commit i history files verdict)).devices
      page.requester).rows)
    (hnew : r ∉ ((new.run account actions).devices page.requester).rows) (v : DocumentVersion)
    (happlied : ⟨r.host, v, page.requester⟩ ∈
      ((new.run account actions).devices page.requester).store.applied) :
    ∃ f, ((new.run account actions).devices page.requester).store.floors.get r.host = some f ∧
      v ≤ f.version ∧
      (Exempt ((new.run account actions).devices page.requester) f r ∨
        ∃ x ∈ page.records.getD [], x.row.host = r.host ∧ x.row.id = r.id ∧
          (∃ e ∈ page.seen, e.For r.host f.version) ∧
          ∀ e ∈ page.seen, e.For r.host f.version →
            (e.time < x.row.since ∨ e.Spares r.id) ∧ r.id ∉ e.suppressed) := by
  have h := inv_run account actions
  generalize new.run account actions = s at h hpage hstored hnew happlied ⊢
  -- the deletion is held here, so there is a floor that is not before it
  obtain ⟨y, hy, hack⟩ := ((h.kept page.requester).indexed.applied_iff _).mp happlied
  obtain ⟨-, z, hz, hclears, hconv, hversion⟩ := h.settled page.requester y hy _ hack
  obtain ⟨f, hf, hle⟩ := (h.kept page.requester).indexed.floor_le z hz hclears
  rw [hconv] at hf
  rw [hversion] at hle
  refine ⟨f, hf, hle, ?_⟩
  -- the row comes from a record of the page that was let in
  unfold step at hstored
  dsimp only at hstored
  rw [hpage] at hstored
  dsimp only at hstored
  split at hstored
  · next records hrecords =>
    split at hstored
    · unfold commitPage at hstored
      dsimp only [update] at hstored
      rw [Function.update_self] at hstored
      rcases (imported_all account verdict _ _).rows r hstored with hold | ⟨x, hx, hhost, hid, hxc⟩
      · exact absurd hold hnew
      obtain ⟨hxm, hcurrent⟩ := List.mem_filter.mp (mem_of_importOrder hx)
      rw [← hhost] at hxc hf ⊢
      rcases recordCurrent_cases hxc hf hcurrent with ⟨g, access, hg, hacc, l, hl, hfollows⟩
        | ⟨hb, hfl⟩
      · exact .inl ⟨g, access, hhost ▸ hg, hacc, l, hl, hid ▸ hfollows⟩
      · obtain ⟨hseen, hclear⟩ := (h.pages i page hpage).was_read records hrecords
        refine .inr ⟨x, by rw [hrecords]; exact hxm, rfl, hid, hseen _ _ hfl hb,
          fun e he hfor => ?_⟩
        rw [← hid]
        exact hclear x hxm e he hfor.1
    · exact absurd hstored hnew
  · exact absurd hstored hnew

/-! ### A sample run -/

namespace Sample

/-- A deletion is applied on two devices, the second gets a message, and the first asks it for a
page. -/
def exchanged : List Network.Action :=
  [.act (device 1) (.receive (.account "bob") ⟨5⟩),
    .act (device 1) (.deleteAccountContact "bob" true ⟨1⟩ true),
    .act (device 1) (.start 0 (.account "bob") false)] ++
    List.replicate 7 (.act (device 1) (.advance 0 io)) ++
    [.deliver (device 2) (device 1) 0 true, .act (device 2) (.start 0 (.account "bob") false)] ++
    List.replicate 7 (.act (device 2) (.advance 0 io)) ++
    [.deliver (device 1) (device 2) 1 true, .act (device 2) (.receive (.account "bob") ⟨9⟩),
      .request 0 (device 1) (device 2),
      .read 0 [⟨⟨.account "bob", ⟨9⟩, 1⟩, .direct "bob" "me"⟩], .send 0]

/-- The message as the first device stores it. -/
def fresh : Row := ⟨.account "bob", ⟨9⟩, 2⟩

end Sample

section

open Network Sample

theorem exchanged_page :
    letI := digest
    letI := contentHash
    letI := eventGraph
    ((new.run "me" exchanged).pages.get 0).map (·.requester) = some (device 1) := by
  decide +kernel

theorem exchanged_stores :
    letI := digest
    letI := contentHash
    letI := eventGraph
    fresh ∈ (((new.run "me" exchanged).step "me" (.commit 0 true true fun _ => .store)).devices
        (device 1)).rows ∧
      fresh ∉ ((new.run "me" exchanged).devices (device 1)).rows := by
  decide +kernel

theorem exchanged_applied :
    letI := digest
    letI := contentHash
    letI := eventGraph
    ((new.run "me" exchanged).devices (device 1)).store.applied.any (fun k =>
      k.conversation = .account "bob" && k.device = device 1) = true := by
  decide +kernel

/-- A page stores a message in the conversation that both devices have cleared: the source got it
after its erasure. -/
theorem cleared_stays_cleared_exchanged :
    letI := digest
    letI := contentHash
    letI := eventGraph
    ∃ page, (new.run "me" exchanged).pages.get 0 = some page ∧ page.requester = device 1 ∧
      fresh ∈ (((new.run "me" exchanged).step "me" (.commit 0 true true fun _ => .store)).devices
        (device 1)).rows ∧
      ∃ f, ((new.run "me" exchanged).devices (device 1)).store.floors.get (.account "bob") =
        some f ∧ (Exempt ((new.run "me" exchanged).devices (device 1)) f fresh ∨
          ∃ x ∈ page.records.getD [], x.row.host = .account "bob" ∧ x.row.id = ⟨9⟩ ∧
            (∃ e ∈ page.seen, e.For (.account "bob") f.version) ∧
            ∀ e ∈ page.seen, e.For (.account "bob") f.version →
              (e.time < x.row.since ∨ e.Spares ⟨9⟩) ∧ ⟨9⟩ ∉ e.suppressed) := by
  let := digest
  let := contentHash
  let := eventGraph
  obtain ⟨page, hpage, hreq⟩ := Option.map_eq_some_iff.mp exchanged_page
  obtain ⟨k, hk, hkey⟩ := List.any_eq_true.mp exchanged_applied
  obtain ⟨c, v, p⟩ := k
  rw [Bool.and_eq_true, decide_eq_true_eq, decide_eq_true_eq] at hkey
  obtain ⟨rfl, rfl⟩ := hkey
  obtain ⟨hstored, hnew⟩ := exchanged_stores
  obtain ⟨f, hf, -, hrest⟩ := cleared_stays_cleared "me" exchanged 0 true true
    (fun _ => .store) page hpage
    fresh (hreq.symm ▸ hstored) (hreq.symm ▸ hnew) v (hreq.symm ▸ hk)
  rw [hreq] at hf hrest
  exact ⟨page, hpage, hreq, hstored, f, hf, hrest⟩

end

end MeshTalk.Personal
