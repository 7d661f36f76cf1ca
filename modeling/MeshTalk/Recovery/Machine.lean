import MeshTalk.Lib.Volatile
import MeshTalk.Lib.Run

/-! # Publishing a restored or enrolled account

A restored account, or the account of an enrolled device, is prepared in a staging folder and
published by two renames, of its credentials into `users` and of its profile into `accounts`
(`recovery.rs`, `device_enrollment.rs`). A marker in the root says that a publication is under way;
renaming it is the commit. Start-up, and a publication that fails, roll back what a marker names.

The machine takes one file operation at a step. An operation may fail, and the power may be lost
before any of them: then each entry is what it was at some time since its folder was last synced
(`Lib.Cell`). The host id an operation draws for its account is the number of the operation. -/

namespace MeshTalk.Recovery

open MeshTalk.Lib

/-- The directory of a user or of an account: the operation it is from, and whether all of it is
there. -/
structure Entry where
  op : ℕ
  whole : Bool
deriving DecidableEq

structure Publication where
  username : String
  hostId : ℕ
  complete : Bool
deriving DecidableEq

/-- The files of the root that matter: the marker, and the completed marker. -/
structure Root where
  marker : Option Publication
  completed : Bool
deriving DecidableEq

inductive PublishPc where
  | persistMarker | syncMarker | renameCredentials | syncUsers | renameProfile | syncAccounts
  | renameMarker | syncCommit | removeCompleted | syncRoot
deriving DecidableEq

inductive RecoverPc where
  | removeCompleted | removeUser | removeAccount | removeMarker | removeStages | syncRoot
deriving DecidableEq

/-- Why a recovery runs: at start-up, before a restore, or after a publication that failed. -/
inductive Cause where
  | startup
  | restore (username : String) (op : ℕ)
  | failure (op : ℕ)
deriving DecidableEq

inductive Phase where
  | down
  | idle
  | recovering (cause : Cause) (pc : RecoverPc)
  | publishing (username : String) (op : ℕ) (pc : PublishPc)
deriving DecidableEq

/-- The folders, and what is known of the operations so far: the number of them, the names of those
that publish an account, and what they have reported. -/
structure Disk where
  root : Cell Root
  users : String → Cell (Option Entry)
  accounts : ℕ → Cell (Option Entry)
  nextOp : ℕ
  names : ℕ → Option String
  reports : ℕ → Option Bool

structure State extends Disk where
  phase : Phase

/-- How a file operation ends. A removal that fails may have removed a part. -/
inductive Io where
  | ok | fails | failsPart
deriving DecidableEq

/-- What a loss of power takes the root and some entries back to. The others stay as they are. -/
structure Loss where
  root : ℕ
  users : List (String × ℕ)
  accounts : List (ℕ × ℕ)
deriving DecidableEq

/-- The version a user's entry goes back to. -/
def Loss.user (l : Loss) (n : String) : ℕ := (l.users.lookup n).getD 0

/-- The version an account's entry goes back to. -/
def Loss.account (l : Loss) (i : ℕ) : ℕ := (l.accounts.lookup i).getD 0

inductive Action where
  | start
  | restore (username : String)
  | enroll (username : String)
  | register (username : String) (io sync : Io)
  | openAccount (op : ℕ) (io : Io)
  | io (io : Io)
  | crash (loss : Loss)
deriving DecidableEq

namespace State

/-- A device on which nothing was installed yet. -/
def init : State where
  root := .still ⟨none, false⟩
  users _ := .still none
  accounts _ := .still none
  phase := .down
  nextOp := 0
  names _ := none
  reports _ := none

def setUser (s : State) (n : String) (c : Cell (Option Entry)) : State :=
  { s with users := Function.update s.users n c }

def setAccount (s : State) (i : ℕ) (c : Cell (Option Entry)) : State :=
  { s with accounts := Function.update s.accounts i c }

def syncUsers (s : State) : State := { s with users := fun n => (s.users n).sync }

def syncAccounts (s : State) : State := { s with accounts := fun i => (s.accounts i).sync }

def finish (s : State) (op : ℕ) (result : Bool) : State :=
  { s with phase := .idle, reports := Function.update s.reports op (some result) }

/-- A recovery gives up. Start-up does not get past it. -/
def abort (s : State) : Cause → State
  | .startup => { s with phase := .down }
  | .restore _ op => s.finish op false
  | .failure op => s.finish op false

def recovered (s : State) : Cause → State
  | .startup => { s with phase := .idle }
  | .restore username op => { s with phase := .publishing username op .persistMarker }
  | .failure op => s.finish op false

/-- Remove a directory; the error, if there is one, is not looked at. -/
def dropDir (c : Cell (Option Entry)) (io : Io) : Cell (Option Entry) :=
  match c.current, io with
  | none, _ => c
  | some e, .ok => (c.write (some { e with whole := false })).write none
  | some _, .fails => c
  | some e, .failsPart => c.write (some { e with whole := false })

/-- What a recovery does about the marker: a pair that is not complete is removed before it. -/
def afterCompleted : Option Publication → RecoverPc
  | none => .removeStages
  | some m => if m.complete then .removeMarker else .removeUser

def recoverStep (s : State) (cause : Cause) (io : Io) : RecoverPc → State
  | .removeCompleted =>
    if s.root.current.completed = true ∧ io ≠ .ok then s.abort cause
    else { s with
      root := if s.root.current.completed then
        s.root.write { s.root.current with completed := false } else s.root
      phase := .recovering cause (afterCompleted s.root.current.marker) }
  | .removeUser =>
    match s.root.current.marker with
    | none => { s with phase := .recovering cause .removeStages }
    | some m =>
      { s.setUser m.username (dropDir (s.users m.username) io) with
        phase := .recovering cause .removeAccount }
  | .removeAccount =>
    match s.root.current.marker with
    | none => { s with phase := .recovering cause .removeStages }
    | some m =>
      { s.setAccount m.hostId (dropDir (s.accounts m.hostId) io) with
        phase := .recovering cause .removeMarker }
  | .removeMarker =>
    if io ≠ .ok then s.abort cause
    else { s with
      root := s.root.write { s.root.current with marker := none }
      phase := .recovering cause .removeStages }
  | .removeStages =>
    if io ≠ .ok then s.abort cause else { s with phase := .recovering cause .syncRoot }
  | .syncRoot =>
    if io ≠ .ok then s.abort cause else State.recovered { s with root := s.root.sync } cause

/-- A publication that fails after its marker was written is rolled back. -/
def rollBack (s : State) (op : ℕ) : State :=
  { s with phase := .recovering (.failure op) .removeCompleted }

/-- A file operation of a publication. The marker is written before anything is published, and an
error there ends the call at once. -/
def publishStep (s : State) (username : String) (op : ℕ) (io : Io) : PublishPc → State
  | .persistMarker =>
    if (s.users username).current.isSome ∨ (s.accounts op).current.isSome ∨
        s.root.current.marker.isSome ∨ io ≠ .ok then s.finish op false
    else { s with
      root := s.root.write { s.root.current with marker := some ⟨username, op, false⟩ }
      phase := .publishing username op .syncMarker }
  | .syncMarker =>
    if io ≠ .ok then s.finish op false
    else { s with root := s.root.sync, phase := .publishing username op .renameCredentials }
  | .renameCredentials =>
    if io ≠ .ok then s.rollBack op
    else { s.setUser username ((s.users username).write (some ⟨op, true⟩)) with
      phase := .publishing username op .syncUsers }
  | .syncUsers =>
    if io ≠ .ok then s.rollBack op
    else { s.syncUsers with phase := .publishing username op .renameProfile }
  | .renameProfile =>
    if io ≠ .ok then s.rollBack op
    else { s.setAccount op ((s.accounts op).write (some ⟨op, true⟩)) with
      phase := .publishing username op .syncAccounts }
  | .syncAccounts =>
    if io ≠ .ok then s.rollBack op
    else { s.syncAccounts with phase := .publishing username op .renameMarker }
  | .renameMarker =>
    if io ≠ .ok then s.rollBack op
    else { s with
      root := s.root.write ⟨none, true⟩
      phase := .publishing username op .syncCommit }
  -- from here on errors are not looked at
  | .syncCommit =>
    { s with
      root := if io = .ok then s.root.sync else s.root
      phase := .publishing username op .removeCompleted }
  | .removeCompleted =>
    { s with
      root := if io = .ok then s.root.write { s.root.current with completed := false } else s.root
      phase := .publishing username op .syncRoot }
  | .syncRoot => State.finish { s with root := if io = .ok then s.root.sync else s.root } op true

/-- A new operation that is to publish an account. -/
def begin (s : State) (username : String) (phase : Phase) : State :=
  { s with
    phase := phase
    nextOp := s.nextOp + 1
    names := Function.update s.names s.nextOp (some username) }

def register (s : State) (username : String) (io sync : Io) : State :=
  if (s.users username).current.isSome ∨ io ≠ .ok then { s with nextOp := s.nextOp + 1 }
  else
    let t := s.setUser username ((s.users username).write (some ⟨s.nextOp, true⟩))
    { (if sync = .ok then t.syncUsers else t) with nextOp := s.nextOp + 1 }

/-- The account directory of a registered user is made when the user first signs in. -/
def openAccount (s : State) (op : ℕ) (io : Io) : State :=
  if (s.accounts op).current.isSome ∨ s.nextOp ≤ op ∨ (s.names op).isSome ∨ io ≠ .ok then s
  else s.setAccount op ((s.accounts op).write (some ⟨op, true⟩))

def crash (s : State) (loss : Loss) : State :=
  { s with
    root := s.root.pick loss.root
    users := fun n => (s.users n).pick (loss.user n)
    accounts := fun i => (s.accounts i).pick (loss.account i)
    phase := .down }

def step (s : State) (a : Action) : State :=
  match s.phase, a with
  | .down, .start => { s with phase := .recovering .startup .removeCompleted }
  | .idle, .restore username =>
    s.begin username (.recovering (.restore username s.nextOp) .removeCompleted)
  | .idle, .enroll username => s.begin username (.publishing username s.nextOp .persistMarker)
  | .idle, .register username io sync => s.register username io sync
  | .idle, .openAccount op io => s.openAccount op io
  | .recovering cause pc, .io io => s.recoverStep cause io pc
  | .publishing username op pc, .io io => s.publishStep username op io pc
  | _, .crash loss => s.crash loss
  | _, _ => s

end State

end MeshTalk.Recovery
