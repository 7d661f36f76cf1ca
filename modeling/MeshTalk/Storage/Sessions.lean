import Mathlib.Data.Finset.Card
import MeshTalk.Storage.Faults
import MeshTalk.Lib.Table

/-! # The store of ratchet sessions

`RatchetSessions` of `node/ratchet_sessions.rs`: the last session of each peer in memory, over a
record log that is compacted to one record for each peer now and then. The hash map is a table, and
its order that of the rows. -/

namespace MeshTalk.Storage

open Lib List Table

/-- One peer's session, serialized. -/
structure SessionRecord where
  peer : String
  state : List UInt8
deriving DecidableEq

/-- The serialization of sessions. -/
class SessionCodec (State : Type) where
  serialize : State → List UInt8
  deserialize : List UInt8 → Option State
  deserialize_serialize : ∀ s, deserialize (serialize s) = some s

/-- The store: the log, the last session of each peer, and the number of records in the log. -/
structure RatchetSessions (Key : Type) where
  file : RecordLog Key
  latest : Table String (List UInt8)
  onDisk : ℕ
  compactionWarned : Bool

structure Compaction where
  nonces : String → Bytes nonceSize
  fault : ReplaceFault

/-- A write of a session, with the compactions before and after it and what fails in its append. -/
structure Write (State : Type) where
  peer : String
  state : State
  forced : Compaction
  nonce : Bytes nonceSize
  fault : WriteFault
  deferred : Compaction

/-- The sessions written with success, and the one whose write failed and closed the log: it may be
in the file. -/
structure Written (State : Type) where
  done : String → Option State := fun _ => none
  stuck : Option (String × State) := none

def latestOf (records : List SessionRecord) : Table String (List UInt8) :=
  records.foldl (fun t r => t.set r.peer r.state) ∅

def sessionMagic : Bytes 6 := ⟨[77, 84, 82, 84, 67, 72], rfl⟩

theorem get_latestOf_snoc (rs r p) :
    (latestOf (rs ++ [r])).get p = if p = r.peer then some r.state else (latestOf rs).get p := by
  rw [latestOf, foldl_append]
  exact get_set _ _ _ _

theorem get_foldl_set {p} : ∀ {rows : List (String × List UInt8)}
    {t : Table String (List UInt8)}, (rows.map Prod.fst).Nodup →
    (rows.foldl (fun t r => t.set r.1 r.2) t).get p =
      ((rows.find? fun r => r.1 = p).map Prod.snd).or (t.get p)
  | [], t, _ => rfl
  | r :: rows, t, hn => by
    obtain ⟨hr, hn⟩ := nodup_cons.mp hn
    rw [foldl_cons, get_foldl_set hn, get_set, find?_cons]
    rcases eq_or_ne r.1 p with rfl | hp
    · have : rows.find? (fun x => x.1 = r.1) = none := by
        simp only [find?_eq_none, decide_eq_true_eq]
        exact fun x hx h => hr (mem_map.mpr ⟨x, hx, h⟩)
      simp [this]
    · simp [hp, hp.symm]

theorem get_latestOf_rows (t : Table String (List UInt8)) (p) :
    (latestOf (t.rows.map fun r => SessionRecord.mk r.1 r.2)).get p = t.get p := by
  rw [latestOf, List.foldl_map, get_foldl_set t.nodup, Table.get]
  exact Option.or_none

section Store

open SessionCodec

variable {Key State : Type} [Cipher Key] [Codec SessionRecord] [SessionCodec State]

namespace RatchetSessions

def openStore (file : Option (List UInt8)) (password : String) (salt : Bytes saltSize)
    (repair : Repair) : Except LogError (RatchetSessions Key) :=
  match file with
  | none => .ok ⟨.create password sessionMagic salt, ∅, 0, false⟩
  | some file =>
    (RecordLog.load file password sessionMagic repair).1.map fun r =>
      ⟨r.1, latestOf r.2, r.2.length, false⟩

variable (s : RatchetSessions Key)

def get (peer : String) : Option State := (s.latest.get peer).bind deserialize

/-- The number of records above which the file is compacted. -/
def slack : ℕ := s.latest.rows.length * 4 + 16

/-- Compact the file to one record for each peer, if it has too many. -/
def maybeCompact (io : Compaction) : Except LogError Unit × RatchetSessions Key :=
  if s.onDisk ≤ s.slack then (.ok (), s)
  else
    match s.file.rewrite (s.latest.rows.map fun r => (SessionRecord.mk r.1 r.2, io.nonces r.1))
        io.fault with
    | (.ok _, file) =>
      (.ok (), { s with file := file, onDisk := s.latest.rows.length, compactionWarned := false })
    | (.error e, file) => (.error e, { s with file := file })

def wrote (file : RecordLog Key) (w : Write State) : RatchetSessions Key :=
  { s with
    file := file
    onDisk := s.onDisk + 1
    latest := s.latest.set w.peer (serialize w.state) }

def appendState (w : Write State) : Except LogError Unit × RatchetSessions Key :=
  match s.file.append (SessionRecord.mk w.peer (serialize w.state)) w.nonce w.fault with
  | (.error e, file) => (.error e, { s with file := file })
  | (.ok _, file) =>
    let c := (s.wrote file w).maybeCompact w.deferred
    (.ok (), if succeeded c.1 then c.2 else { c.2 with compactionWarned := true })

/-- A file with far too many records has to be compacted before a write. -/
def forced (io : Compaction) : Except LogError Unit × RatchetSessions Key :=
  if s.slack * 2 ≤ s.onDisk then s.maybeCompact io else (.ok (), s)

def put (w : Write State) : Except LogError Unit × RatchetSessions Key :=
  match (s.forced w.forced).1 with
  | .error e => (.error e, (s.forced w.forced).2)
  | .ok _ => (s.forced w.forced).2.appendState w

def stuckBy (w : Write State) (stuck : Option (String × State)) : Option (String × State) :=
  if !s.file.poisoned && (s.put w).2.file.poisoned then some (w.peer, w.state) else stuck

def step (x : RatchetSessions Key × Written State) (w : Write State) :
    RatchetSessions Key × Written State :=
  ⟨(x.1.put w).2,
    if succeeded (x.1.put w).1 then Function.update x.2.done w.peer (some w.state) else x.2.done,
    x.1.stuckBy w x.2.stuck⟩

def run (ws : List (Write State)) : RatchetSessions Key × Written State := ws.foldl step (s, {})

/-! ### The log under the store -/

/-- The store stands on a log that holds what it shows, with not too many records. -/
structure Backed (password : String) (s : RatchetSessions Key) (t : Session Key SessionRecord)
    (stuck : Option (String × State)) : Prop where
  ok : t.Ok password sessionMagic
  log : t.log = some s.file
  latest : ∀ p, (latestOf t.confirmed).get p = s.latest.get p
  onDisk : t.confirmed.length = s.onDisk
  bound : s.onDisk ≤ s.slack * 2
  uncertain : t.uncertain = stuck.map fun w => ⟨w.1, serialize w.2⟩

variable {password : String} {s} {t : Session Key SessionRecord} {stuck : Option (String × State)}

omit [SessionCodec State] in
theorem poisoned_maybeCompact (s : RatchetSessions Key) (io) :
    (s.maybeCompact io).2.file.poisoned = s.file.poisoned := by
  unfold RatchetSessions.maybeCompact
  split_ifs
  · rfl
  · obtain ⟨e, he⟩ | ⟨-, fs, -, he⟩ := s.file.rewrite_cases
      (s.latest.rows.map fun r => (SessionRecord.mk r.1 r.2, io.nonces r.1)) io.fault
    · rw [he]
    · rw [he]

/-- **A compaction**, whatever fails in it. -/
theorem Backed.maybeCompact (h : Backed password s t stuck) (io) :
    ∃ t', Backed password (s.maybeCompact io).2 t' stuck ∧ (s.maybeCompact io).2.latest = s.latest ∧
      (succeeded (s.maybeCompact io).1 = true → (s.maybeCompact io).2.onDisk ≤ s.slack) := by
  unfold RatchetSessions.maybeCompact
  split_ifs with hle
  · exact ⟨t, h, rfl, fun _ => hle⟩
  · have hok := Session.step_ok h.ok (.rewrite
      (s.latest.rows.map fun r => (SessionRecord.mk r.1 r.2, io.nonces r.1)) io.fault)
    simp only [Session.step, h.log, Session.record] at hok
    split
    · next file hr =>
      rw [hr] at hok
      refine ⟨_, ⟨hok, rfl, fun p => ?_, ?_, ?_, h.uncertain⟩, rfl, fun _ => ?_⟩
      · simpa [succeeded, Function.comp_def] using get_latestOf_rows s.latest p
      · simp [succeeded]
      · show s.latest.rows.length ≤ (s.latest.rows.length * 4 + 16) * 2
        omega
      · show s.latest.rows.length ≤ s.latest.rows.length * 4 + 16
        omega
    · next e file hr =>
      rw [hr] at hok
      exact ⟨_, ⟨hok, rfl, h.latest, h.onDisk, h.bound, h.uncertain⟩, rfl, fun h => by cases h⟩

/-- An append is uncertain if it closes the log. -/
theorem Backed.stuck_append (h : Backed password s t stuck) (w : Write State) (c : Bool) :
    (if c then some ⟨w.peer, serialize w.state⟩ else t.uncertain) =
      (if c then some (w.peer, w.state) else stuck).map fun w =>
        SessionRecord.mk w.1 (serialize w.2) := by
  split_ifs
  · rfl
  · exact h.uncertain

theorem Backed.appendState (h : Backed password s t stuck) (hroom : s.onDisk < s.slack * 2)
    (w : Write State) : ∃ t', Backed password (s.appendState w).2 t'
        (if !s.file.poisoned && (s.appendState w).2.file.poisoned then some
          (w.peer, w.state) else stuck) ∧
      (s.appendState w).2.latest = if succeeded (s.appendState w).1 then
        s.latest.set w.peer (serialize w.state) else s.latest := by
  unfold RatchetSessions.appendState
  have hok := Session.step_ok h.ok (.append
    (SessionRecord.mk w.peer (serialize w.state)) w.nonce w.fault)
  simp only [Session.step, h.log, Session.record] at hok
  split
  · next e file hr =>
    rw [hr] at hok
    exact ⟨_, ⟨hok, rfl, h.latest, h.onDisk, h.bound, h.stuck_append w _⟩, rfl⟩
  · next file hr =>
    rw [hr] at hok
    have hmid : Backed password (s.wrote file w) (⟨some file, file.file,
        t.confirmed ++ [⟨w.peer, serialize w.state⟩], if !s.file.poisoned && file.poisoned then
          some ⟨w.peer, serialize w.state⟩ else t.uncertain⟩ : Session Key _)
        (if !s.file.poisoned && file.poisoned then some (w.peer, w.state) else stuck) := by
      refine ⟨hok, rfl, fun p => ?_, ?_, ?_, h.stuck_append w _⟩
      · rw [get_latestOf_snoc, h.latest]
        exact (Table.get_set _ _ _ p).symm
      · rw [List.length_append, h.onDisk]
        rfl
      · have := length_set s.latest w.peer (serialize w.state)
        unfold slack wrote at *
        dsimp only
        split_ifs at this <;> omega
    obtain ⟨t', h', hlatest, -⟩ := hmid.maybeCompact w.deferred
    have hback : Backed password ((s.wrote file w).maybeCompact w.deferred).2 t'
        (if !s.file.poisoned && ((s.wrote file w).maybeCompact w.deferred).2.file.poisoned then
          some (w.peer, w.state) else stuck) := by
      rw [poisoned_maybeCompact]
      exact h'
    refine ⟨t', ?_, Eq.trans ?_ hlatest⟩
    · dsimp only
      by_cases hc : succeeded ((s.wrote file w).maybeCompact w.deferred).1 = true
      · simp only [if_pos hc]
        exact hback
      · simp only [if_neg hc]
        exact ⟨hback.ok, hback.log, hback.latest, hback.onDisk, hback.bound, hback.uncertain⟩
    · dsimp only
      split_ifs <;> rfl

/-- **A write**, whatever fails in it. -/
theorem Backed.put (h : Backed password s t stuck) (w : Write State) :
    ∃ t', Backed password (s.put w).2 t' (s.stuckBy w stuck) ∧
      (s.put w).2.latest = if succeeded (s.put w).1 then
        s.latest.set w.peer (serialize w.state) else s.latest := by
  obtain ⟨t₁, h₁, hlatest, hpoisoned, hroom⟩ :
    ∃ t₁, Backed password (s.forced w.forced).2 t₁ stuck ∧
      (s.forced w.forced).2.latest = s.latest ∧ (s.forced w.forced).2.file.poisoned =
        s.file.poisoned ∧
      (succeeded (s.forced w.forced).1 = true → (s.forced w.forced).2.onDisk < s.slack * 2) := by
    unfold forced
    split_ifs with hfull
    · obtain ⟨t₁, h₁, hlatest, hle⟩ := h.maybeCompact w.forced
      have hpos : 16 ≤ s.slack := Nat.le_add_left _ _
      exact ⟨t₁, h₁, hlatest, s.poisoned_maybeCompact _, fun hc => by have := hle hc; omega⟩
    · exact ⟨t, h, rfl, rfl, fun _ => not_le.mp hfull⟩
  unfold stuckBy RatchetSessions.put
  cases hc : (s.forced w.forced).1 with
  | error e =>
    refine ⟨t₁, ?_, hlatest⟩
    dsimp only
    rw [hpoisoned, Bool.not_and_self, if_neg Bool.false_ne_true]
    exact h₁
  | ok u =>
    have hslack : (s.forced w.forced).2.slack = s.slack := by
      rw [slack, hlatest, slack]
    rw [← hlatest, ← hpoisoned]
    exact h₁.appendState (hslack ▸ hroom (by rw [hc]; rfl)) w

/-! ### Runs -/

/-- Opening the file of the store again succeeds, with at most one record more than the bound. The
store then has the sessions that were written with success; only if the log is closed to writes it
may have the session of the write that closed it in the place of that peer's. -/
def Reopens (password : String) (salt : Bytes saltSize) (s : RatchetSessions Key)
    (x : Written State) : Prop :=
  ∃ s' : RatchetSessions Key, openStore (some s.file.file) password salt .done = .ok s' ∧
    s'.onDisk ≤ s.slack * 2 + 1 ∧ ((∀ p, s'.get p = x.done p) ∨ s.file.poisoned = true ∧
      ∃ w, x.stuck = some w ∧ ∀ p, s'.get p = Function.update x.done w.1 (some w.2) p)

theorem Backed.reopens {x : Written State} (h : Backed password s t x.stuck) (salt)
    (hdone : ∀ p, s.get p = x.done p) : Reopens password salt s x := by
  obtain ⟨log, rs, file, hload, hrs⟩ := h.ok.reads
  obtain ⟨salt', fs, tail, -, hopen⟩ := h.ok
  obtain ⟨hopened, hclean, -⟩ := hopen _ h.log
  have hb := h.bound
  refine ⟨⟨log, latestOf rs, rs.length, false⟩, ?_, ?_⟩
  · rw [openStore, hopened.file, hload]
    rfl
  · rcases hrs with rfl | ⟨r, hr, rfl⟩
    · refine ⟨h.onDisk.trans_le (Nat.le_succ_of_le hb), .inl fun p => ?_⟩
      rw [← hdone p, get, get, h.latest]
    · refine ⟨(length_append.trans (congrArg (· + 1) h.onDisk)).trans_le
        (Nat.succ_le_succ hb), .inr ⟨?_, ?_⟩⟩
      · by_contra hp
        rw [(hclean (by simpa using hp)).2] at hr
        cases hr
      · rw [h.uncertain] at hr
        obtain ⟨w, hw, rfl⟩ := Option.map_eq_some_iff.mp hr
        refine ⟨w, hw, fun p => ?_⟩
        rw [get, get_latestOf_snoc, Function.update_apply]
        split_ifs
        · exact deserialize_serialize w.2
        · rw [← hdone p, get, h.latest]

theorem foldl_step_backed (ws : List (Write State)) {x} (h : Backed password x.1 t x.2.stuck)
    (hx : ∀ p, x.1.get p = x.2.done p) :
    ∃ t', Backed password (ws.foldl step x).1 t' (ws.foldl step x).2.stuck ∧
      ∀ p, (ws.foldl step x).1.get p = (ws.foldl step x).2.done p := by
  induction ws generalizing x t with
  | nil => exact ⟨t, h, hx⟩
  | cons w ws ih =>
    obtain ⟨t', h', hlatest⟩ := h.put w
    refine ih h' fun p => ?_
    rw [step, get, hlatest]
    split_ifs
    · dsimp only
      rw [get_set, Function.update_apply]
      split_ifs
      · exact deserialize_serialize w.state
      · exact hx p
    · exact hx p

/-- **Sessions survive faults.** After any writes to a new store, with anything failing in them, the
store has the last session of each peer that was written with success, and so has the store that is
opened again, but for the peer of a write that closed the log, which may have the session of that
write; a write that fails changes nothing else. -/
theorem sessions_survive (password : String) (salt : Bytes saltSize) (ws : List (Write State)) :
    ∃ s : RatchetSessions Key, openStore none password salt .done = .ok s ∧
      (∀ p, (s.run ws).1.get p = (s.run ws).2.done p) ∧
        Reopens password salt (s.run ws).1 (s.run ws).2 ∧
      ∀ w : Write State, succeeded ((s.run ws).1.put w).1 = false →
        ((s.run ws).1.put w).2.latest = (s.run ws).1.latest ∧
        Reopens password salt ((s.run ws).1.put w).2
          ⟨(s.run ws).2.done, (s.run ws).1.stuckBy w (s.run ws).2.stuck⟩ := by
  refine ⟨_, rfl, ?_⟩
  have hstart : Backed password (RatchetSessions.mk (.create password sessionMagic salt) ∅ 0 false)
      (.start (.create password sessionMagic salt : RecordLog Key) [])
        (none : Option (String × State)) :=
    ⟨Session.ok_of_whole .nil ⟨by simp [RecordLog.create], rfl, rfl⟩ rfl, rfl, fun _ => rfl, rfl,
      Nat.zero_le _, rfl⟩
  obtain ⟨t, h, hx⟩ := foldl_step_backed ws (x := (_, {})) hstart fun _ => rfl
  refine ⟨hx, h.reopens salt hx, fun w hw => ?_⟩
  obtain ⟨t', h', hlatest⟩ := h.put w
  rw [run] at hw
  rw [hw, if_neg Bool.false_ne_true] at hlatest
  refine ⟨hlatest, h'.reopens salt fun p => Eq.trans ?_ (hx p)⟩
  exact congrArg (fun t : Table String (List UInt8) => (t.get p).bind deserialize) hlatest

end RatchetSessions

end Store

/-! ### A sample store -/

@[reducible] def byteSession : SessionCodec UInt8 := ⟨fun b => [b], List.head?, fun _ => rfl⟩

/-- Only records of one peer can be written. -/
@[reducible] def oneCodec : Codec SessionRecord where
  serialize r := if r.peer = "bob" then .ok r.state else .error "peer"
  deserialize bs := .ok ⟨"bob", bs⟩
  deserialize_serialize r bs h := by
    split_ifs at h with hr
    cases h
    rw [← hr]

/-- **A write that failed can come back**, if what it left in the file could not be cut off. -/
theorem failed_write_survives : letI := plainCipher; letI := byteSession; letI := oneCodec
    let nonce : Bytes nonceSize := ⟨List.replicate 12 0, rfl⟩
    let salt : Bytes saltSize := ⟨List.replicate 16 1, rfl⟩
    let s : RatchetSessions Unit := ⟨.create "pw" sessionMagic salt, ∅, 0, false⟩
    let io : Compaction := ⟨fun _ => nonce, .none⟩
    let r := s.put ⟨"bob", (7 : UInt8), io, nonce, .failed "sync" 99 (.stuck "cut"), io⟩
    succeeded r.1 = false ∧ r.2.get "bob" = (none : Option UInt8) ∧
      (RatchetSessions.openStore (some r.2.file.file) "pw" salt .done).toOption.bind
        (fun s : RatchetSessions Unit => s.get "bob") = some (7 : UInt8) := by
  decide +kernel

end MeshTalk.Storage
