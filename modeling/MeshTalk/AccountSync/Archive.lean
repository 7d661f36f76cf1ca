import MeshTalk.AccountSync.Page
import MeshTalk.EventLog.Sync
import Mathlib.Data.String.Basic

/-! # The history archive of a device

The selectors of everything a device shares with its siblings, as `account_sync/archive.rs` keeps
them: an index of rows by `(tag, id)` with the exclusive-or of the hashes of its keys, brought up to
date before each page, and pages of it read from a cursor on, bounded in rows and in bytes. A row
becomes a record only when the message behind it can still be shared (`materializeReady`). -/

namespace MeshTalk.AccountSync

open MeshTalk.Lib List

/-- The transcript a row selects from. -/
inductive Kind where
  | sent | received | files
deriving DecidableEq

structure ArchiveRow where
  key : HistoryCursor
  kind : Kind
  ordinal : ℕ
  conversation : ConversationId
  peer : Option String
  charge : ℕ
deriving DecidableEq

/-! ### The index -/

def utf8 (s : String) : List UInt8 := s.toUTF8.data.toList

/-- A number as eight bytes, the most significant first. -/
def hashBytes (h : BitVec 256) : List UInt8 := EventId.asBytes ⟨h⟩

theorem hashBytes_injective : Function.Injective hashBytes := fun _ _ h =>
  congrArg EventId.bytes (EventId.asBytes_injective h)

section
variable [Sha256]

def keyHash (k : HistoryCursor) : BitVec 256 :=
  Sha256.digest (utf8 "mesh-talk-history-record-v2" ++ [UInt8.ofNat k.tag] ++ k.id.asBytes)

def xorOf (rows : List ArchiveRow) : BitVec 256 := rows.foldr (fun r x => keyHash r.key ^^^ x) 0

theorem xorOf_perm {rows rows'} (h : rows.Perm rows') : xorOf rows = xorOf rows' := by
  have : LeftCommutative fun (r : ArchiveRow) (x : BitVec 256) => keyHash r.key ^^^ x :=
    ⟨fun a b x => by rw [← BitVec.xor_assoc, ← BitVec.xor_assoc, BitVec.xor_comm (keyHash a.key)]⟩
  exact h.foldr_eq _

/-- An index: rows in the order of their keys, with the digest and the count of them. -/
structure Archive where
  rows : List ArchiveRow
  digestXor : BitVec 256
  records : ℕ
  sorted : rows.Pairwise fun r r' => r.key < r'.key
  digestXor_eq : digestXor = xorOf rows
  records_eq : records = rows.length

namespace Archive

/-- The index of nothing, where a rebuild starts. -/
def empty : Archive := ⟨[], 0, 0, List.Pairwise.nil, rfl, rfl⟩

def keys (a : Archive) : List HistoryCursor := a.rows.map ArchiveRow.key

def insertRow (row : ArchiveRow) (rows : List ArchiveRow) : List ArchiveRow :=
  rows.orderedInsert (fun r r' => r.key ≤ r'.key) row

omit [Sha256] in
theorem insertRow_perm (row rows) :
    (insertRow row rows).Perm (row :: rows) := perm_orderedInsert _ _ _

omit [Sha256] in
theorem insertRow_sorted {row} : ∀ {rows},
    rows.Pairwise (fun r r' => r.key < r'.key) → (∀ r ∈ rows, r.key ≠ row.key) →
    (insertRow row rows).Pairwise fun r r' => r.key < r'.key
  | [], _, _ => pairwise_singleton _ _
  | r :: rows, hs, hne => by
    rw [pairwise_cons] at hs
    unfold insertRow
    rw [orderedInsert_cons]
    by_cases hle : row.key ≤ r.key
    · have hlt : row.key < r.key := lt_of_le_of_ne hle (hne r mem_cons_self).symm
      rw [if_pos hle, pairwise_cons, pairwise_cons]
      refine ⟨fun r' hr' => ?_, hs⟩
      rcases mem_cons.mp hr' with rfl | hr'
      · exact hlt
      · exact hlt.trans (hs.1 r' hr')
    · rw [if_neg hle, pairwise_cons]
      refine ⟨fun r' hr' => ?_,
        insertRow_sorted hs.2 fun x hx => hne x (mem_cons_of_mem _ hx)⟩
      rcases mem_cons.mp ((insertRow_perm row rows).mem_iff.mp hr') with rfl | hr'
      · exact not_le.mp hle
      · exact hs.1 r' hr'

/-- Add a row, unless its key is there; the digest and the count follow. -/
def offer (a : Archive) (row : ArchiveRow) : Archive :=
  if h : ∀ r ∈ a.rows, r.key ≠ row.key then
    { rows := insertRow row a.rows
      digestXor := a.digestXor ^^^ keyHash row.key
      records := a.records + 1
      sorted := insertRow_sorted a.sorted h
      digestXor_eq := by
        rw [xorOf_perm (insertRow_perm row a.rows), a.digestXor_eq, BitVec.xor_comm]
        rfl
      records_eq := by rw [(insertRow_perm row a.rows).length_eq, a.records_eq, List.length_cons] }
  else a

/-- What is hashed of an index: the exclusive or of the hashes of its keys, and their number. -/
def hashed (a : Archive) : List UInt8 :=
  utf8 "mesh-talk-history-digest-v2" ++ hashBytes a.digestXor ++ beBytes 8 a.records

def digest (a : Archive) : BitVec 256 := Sha256.digest a.hashed

theorem hashed_inj {a b : Archive} (h : a.hashed = b.hashed) :
    a.digestXor = b.digestXor ∧ beBytes 8 a.records = beBytes 8 b.records := by
  unfold hashed at h
  obtain ⟨h, hrecords⟩ := append_inj' h rfl
  exact ⟨hashBytes_injective (append_cancel_left h), hrecords⟩

end Archive
end

/-! ### What can still be shared -/

structure Entry where
  conversation : ConversationId
  eventId : EventId
  sender : String
  wallClock : ℕ
  plaintext : List UInt8
deriving DecidableEq

structure Stores where
  userId : String
  suppressed : ConversationId → EventId → Bool
  sent : ℕ → Option Entry
  received : ℕ → Option Entry
  files : ℕ → Option Entry
  eligibleOrdinal : ℕ → Bool
  fileErased : ConversationId → EventId → Bool
  fileSuppressed : Entry → Bool
  recipientExpired : List UInt8 → EventId → ℕ → Bool
  proof : EventId → Option Event
  eligibleManifest : Entry → Event → Bool
  authorAccount : Entry → Event → Option String
  recalled : ConversationId → EventId → Option String → Option String → Bool
  eventBytes : Event → List UInt8

def stale : NodeError := .channel "account archive selector invalidated"

section
variable [Envelopes]

def fileCardPayload (s : Stores) (manifest : List UInt8) (proof : Event) : List UInt8 :=
  leBytes 8 manifest.length ++ manifest ++ s.eventBytes proof

def materializeFile (s : Stores) (row : ArchiveRow) : Except NodeError (Option HistoryRecord) :=
  if s.eligibleOrdinal row.ordinal = false then .ok none
  else match s.files row.ordinal with
    | none => .error stale
    | some entry =>
      if entry.conversation ≠ row.conversation ∨ entry.eventId ≠ row.key.id then .error stale
      else if s.fileErased entry.conversation entry.eventId then .ok none
      else if s.fileSuppressed entry ∨
          s.recipientExpired entry.plaintext entry.eventId entry.wallClock then .ok none
      else match s.proof entry.eventId with
        | none => .ok none
        | some proof =>
          if s.eligibleManifest entry proof = false then .ok none
          else if s.recalled entry.conversation entry.eventId row.peer (s.authorAccount entry proof)
            then .ok none
          else if maxRecord < (fileCardPayload s entry.plaintext proof).length then .ok none
          else .ok (some (.fileCard ⟨entry.conversation, row.peer, entry.sender, entry.wallClock,
            row.key.id, fileCardPayload s entry.plaintext proof⟩))

def selected (s : Stores) (row : ArchiveRow) : Except NodeError Entry :=
  if row.kind = .sent then
    match s.sent row.ordinal with
    | none => .error stale
    | some entry => .ok { entry with sender := s.userId }
  else match s.received row.ordinal with
    | none => .error stale
    | some entry =>
      if row.key.tag = 1 ∧ entry.eventId ≠ row.key.id then .error stale else .ok entry

def materializeDirect (own : String) (s : Stores) (row : ArchiveRow) (entry : Entry) :
    Option HistoryRecord :=
  match Envelopes.decode entry.plaintext with
  | none => none
  | some env =>
    match otherAccount own env with
    | none => none
    | some peer =>
      if env.msgId ≠ row.key.id ∨
          Envelopes.accountConversationId own peer ≠ entry.conversation ∨
          (row.kind = .sent ∧ env.senderAccount ≠ own) ∨
          (row.kind = .received ∧ env.senderAccount ≠ entry.sender) ∨
          s.recipientExpired env.body row.key.id entry.wallClock then none
      else if s.recalled entry.conversation row.key.id (some peer)
        (some env.senderAccount) then none
      else some (.direct ⟨entry.conversation, env.senderAccount, entry.wallClock, entry.plaintext,
        row.key.id⟩)

/-- The record of a row, if its message can still be shared. -/
def materializeReady (own : String) (s : Stores) (row : ArchiveRow) :
    Except NodeError (Option HistoryRecord) :=
  if s.suppressed row.conversation row.key.id then .ok none
  else if row.kind = .files then materializeFile s row
  else match selected s row with
    | .error e => .error e
    | .ok entry =>
      if entry.conversation ≠ row.conversation ∨ entry.plaintext.isEmpty ∨
          maxRecord < entry.plaintext.length then .ok none
      else if row.key.tag = 1 then
        if s.recipientExpired entry.plaintext row.key.id entry.wallClock ∨
            s.recalled entry.conversation row.key.id none none then .ok none
        else .ok (some (.channel ⟨entry.conversation, entry.sender, entry.wallClock, row.key.id,
          entry.plaintext⟩))
      else .ok (materializeDirect own s row entry)

variable {own : String} {s : Stores} {row : ArchiveRow} {r : HistoryRecord}

omit [Envelopes] in
theorem length_fileCardPayload_pos (s manifest proof) :
    0 < (fileCardPayload s manifest proof).length := by
  simp only [fileCardPayload, length_append, length_leBytes]
  omega

theorem materializeFile_sendable (h : materializeFile s row = .ok (some r)) : r.Sendable own := by
  unfold materializeFile at h
  by_cases hel : s.eligibleOrdinal row.ordinal = false
  · rw [if_pos hel] at h
    cases h
  rw [if_neg hel] at h
  cases hf : s.files row.ordinal with
  | none =>
    rw [hf] at h
    cases h
  | some entry =>
    simp only [hf] at h
    cases hp : s.proof entry.eventId with
    | none =>
      simp only [hp] at h
      split_ifs at h <;> cases h
    | some proof =>
      simp only [hp] at h
      split_ifs at h with _ _ _ _ _ hle <;> cases h
      exact HistoryRecord.sendable_fileCard (length_fileCardPayload_pos s entry.plaintext proof)
        (not_lt.mp hle)

theorem materializeDirect_sendable {entry} (hpos : 0 < entry.plaintext.length)
    (hle : entry.plaintext.length ≤ maxRecord) (h : materializeDirect own s row entry = some r) :
    r.Sendable own := by
  unfold materializeDirect at h
  cases henv : Envelopes.decode entry.plaintext with
  | none => simp [henv] at h
  | some env =>
    cases hpeer : otherAccount own env with
    | none => simp [henv, hpeer] at h
    | some peer =>
      simp only [henv, hpeer] at h
      split_ifs at h with hbad
      cases h
      rw [not_or, not_or] at hbad
      exact HistoryRecord.sendable_direct hpos hle henv (not_not.mp hbad.1) rfl hpeer
        (not_not.mp hbad.2.1)

/-- **What a row becomes is what the receiver takes.** -/
theorem materialize_sendable (h : materializeReady own s row = .ok (some r)) : r.Sendable own := by
  unfold materializeReady at h
  by_cases hsup : s.suppressed row.conversation row.key.id = true
  · rw [if_pos hsup] at h
    cases h
  rw [if_neg hsup] at h
  by_cases hk : row.kind = .files
  · rw [if_pos hk] at h
    exact materializeFile_sendable h
  rw [if_neg hk] at h
  cases he : selected s row with
  | error e => simp [he] at h
  | ok entry =>
    simp only [he] at h
    split_ifs at h with hbad _ _
    · cases h
    · cases h
    · cases h
      rw [not_or, not_or] at hbad
      exact HistoryRecord.sendable_channel
        (length_pos_iff.mpr fun hnil => hbad.2.1 (isEmpty_iff.mpr hnil))
        (not_lt.mp hbad.2.2)
    · injection h with h
      rw [not_or, not_or] at hbad
      exact materializeDirect_sendable
        (length_pos_iff.mpr fun hnil => hbad.2.1 (isEmpty_iff.mpr hnil))
        (not_lt.mp hbad.2.2) h

/-- The records of some rows, in their order. -/
def materializeAll (own : String) (s : Stores) :
    List ArchiveRow → Except NodeError (List HistoryRecord)
  | [] => .ok []
  | row :: rest =>
    match materializeReady own s row, materializeAll own s rest with
    | .ok r, .ok rs => .ok (r.toList ++ rs)
    | .error e, _ => .error e
    | .ok _, .error e => .error e

theorem materializeAll_cons {rows rs} (h : materializeAll own s (row :: rows) = .ok rs) :
    ∃ r rs', materializeReady own s row = .ok r ∧
      materializeAll own s rows = .ok rs' ∧ rs = r.toList ++ rs' := by
  rw [materializeAll] at h
  cases hr : materializeReady own s row with
  | error e => simp [hr] at h
  | ok r =>
    cases hrs : materializeAll own s rows with
    | error e => simp [hr, hrs] at h
    | ok rs' =>
      simp only [hr, hrs] at h
      cases h
      exact ⟨r, rs', rfl, rfl, rfl⟩

theorem mem_materializeAll : ∀ {rows rs},
    materializeAll own s rows = .ok rs →
    (r ∈ rs ↔ ∃ row ∈ rows, materializeReady own s row = .ok (some r))
  | [], rs, h => by
    cases h
    simp
  | row :: rows, rs, h => by
    obtain ⟨o, rs', hrow, hrows, rfl⟩ := materializeAll_cons h
    rw [mem_append, mem_materializeAll hrows, exists_mem_cons_iff, hrow]
    refine or_congr ?_ Iff.rfl
    rw [Option.mem_toList, Except.ok.injEq]

theorem length_materializeAll : ∀ {rows rs},
    materializeAll own s rows = .ok rs → rs.length ≤ rows.length
  | [], rs, h => by
    cases h
    exact Nat.le_refl 0
  | row :: rows, rs, h => by
    obtain ⟨o, rs', -, hrows, rfl⟩ := materializeAll_cons h
    have hle := length_materializeAll hrows
    have ho : o.toList.length ≤ 1 := by cases o <;> simp
    rw [length_append, length_cons]
    omega

end

/-! ### Pages -/

def pageBudget : ℕ := 8 * 1024 * 1024

/-- Take rows as long as the page has room; the first one must fit. -/
def select (bytes : ℕ) (chosen : List ArchiveRow) :
    List ArchiveRow → Except NodeError (List ArchiveRow × Bool)
  | [] => .ok (chosen, false)
  | row :: rest =>
    if chosen.length = recordsPerPage ∨ pageBudget < bytes + row.charge then
      if chosen = [] then .error (.pageBudgetTooSmall row.charge) else .ok (chosen, true)
    else select (bytes + row.charge) (chosen ++ [row]) rest

def rowsAfter (rows : List ArchiveRow) : Option HistoryCursor → List ArchiveRow
  | none => rows
  | some after => rows.filter fun r => after < r.key

variable {rows page : List ArchiveRow}

theorem select_spec {bytes chosen more} (h : select bytes chosen rows = .ok (page, more))
    (hlen : chosen.length ≤ recordsPerPage) :
    ∃ taken rest, rows = taken ++ rest ∧ page = chosen ++ taken ∧ page.length ≤ recordsPerPage ∧
      (more = false → rest = []) ∧ (more = true → page ≠ []) := by
  induction rows generalizing bytes chosen with
  | nil =>
    cases h
    exact ⟨[], [], rfl, (append_nil _).symm, hlen, fun _ => rfl, nofun⟩
  | cons row rows ih =>
    rw [select] at h
    by_cases hfull : chosen.length = recordsPerPage ∨ pageBudget < bytes + row.charge
    · rw [if_pos hfull] at h
      by_cases hnil : chosen = []
      · rw [if_pos hnil] at h
        cases h
      · rw [if_neg hnil] at h
        cases h
        exact ⟨[], row :: rows, rfl, (append_nil _).symm, hlen, nofun, fun _ => hnil⟩
    · rw [if_neg hfull] at h
      rw [not_or] at hfull
      obtain ⟨taken, rest, hrows, hpage, hle, hdone, hmore⟩ := ih h (by
        rw [length_append, length_singleton]
        omega)
      refine ⟨row :: taken, rest, by rw [hrows, cons_append], ?_, hle, hdone, hmore⟩
      rw [hpage, append_assoc]
      rfl

def selectPage (rows : List ArchiveRow) (after : Option HistoryCursor) :
    Except NodeError (List ArchiveRow × Option HistoryCursor) :=
  match select 0 [] ((rowsAfter rows after).take (recordsPerPage + 1)) with
  | .error e => .error e
  | .ok (page, more) => .ok (page, if more then page.getLast?.map ArchiveRow.key else none)

theorem rowsAfter_sorted (hs : rows.Pairwise fun r r' => r.key < r'.key) (after) :
    (rowsAfter rows after).Pairwise fun r r' => r.key < r'.key := by
  cases after with
  | none => exact hs
  | some c => exact hs.filter _

variable {after : Option HistoryCursor}

theorem mem_rowsAfter {row} :
    row ∈ rowsAfter rows after ↔ row ∈ rows ∧ ∀ c, after = some c → c < row.key := by
  cases after with
  | none => simp [rowsAfter]
  | some c => simp [rowsAfter]

/-- **A page has every row between its two cursors**, and no more rows than a page may have. -/
theorem selectPage_spec {next} (hs : rows.Pairwise fun r r' => r.key < r'.key)
    (h : selectPage rows after = .ok (page, next)) : page.length ≤ recordsPerPage ∧
      (∀ row ∈ rows, (∀ c, after = some c → c < row.key) → (∀ c, next = some c → row.key ≤ c) →
        row ∈ page) := by
  unfold selectPage at h
  cases hsel : select 0 [] ((rowsAfter rows after).take (recordsPerPage + 1)) with
  | error e => simp [hsel] at h
  | ok out =>
    obtain ⟨p, more⟩ := out
    simp only [hsel] at h
    cases h
    obtain ⟨taken, rest, hcut, hpage, hlen, hdone, hmore⟩ := select_spec hsel (Nat.zero_le _)
    rw [nil_append] at hpage
    subst hpage
    refine ⟨hlen, fun row hrow hafter hnext => ?_⟩
    have hmem : row ∈ rowsAfter rows after := mem_rowsAfter.mpr ⟨hrow, hafter⟩
    have hall : rowsAfter rows after =
        page ++ (rest ++ (rowsAfter rows after).drop (recordsPerPage + 1)) := by
      rw [← append_assoc, ← hcut, take_append_drop]
    cases more with
    | false =>
      -- nothing is left of the rows asked for, and there was room for one more
      have hrest := hdone rfl
      subst hrest
      rw [append_nil] at hcut
      have hwhole : (rowsAfter rows after).drop (recordsPerPage + 1) = [] := by
        apply drop_eq_nil_of_le
        have hl := congrArg length hcut
        rw [length_take] at hl
        omega
      rw [hall, hwhole] at hmem
      simpa using hmem
    | true =>
      have hne := hmore rfl
      have hlast := hnext _ (by rw [if_pos rfl, getLast?_eq_getLast_of_ne_nil hne]; rfl)
      rw [hall] at hmem
      rcases mem_append.mp hmem with hin | hout
      · exact hin
      · have hsorted := rowsAfter_sorted hs after
        rw [hall] at hsorted
        have hlt := (pairwise_append.mp hsorted).2.2 _ (getLast_mem hne) row hout
        exact absurd hlast (not_le.mpr hlt)

end MeshTalk.AccountSync
