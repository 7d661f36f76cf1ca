import MeshTalk.Event
import MeshTalk.Lib.Frame
import MeshTalk.Lib.Outcome

/-! # The encrypted record log

The append-only file of `storage/record_log.rs`: a header of magic and salt, then one frame for each
record, its nonce before its ciphertext. What the operating system may fail at is an argument of
each operation: a write stops after any number of bytes, and cutting the file back fails or is not
synced.

The serialization of records and the cipher are parameters, with the one law each that reading back
needs. A nonce the source draws at random is given with the record. -/

namespace MeshTalk.Storage

open Lib

abbrev Bytes (n : ℕ) := { bs : List UInt8 // bs.length = n }

def nonceSize : ℕ := 12

def saltSize : ℕ := 16

/-- The cipher of records, with the derivation of its key from a password. -/
class Cipher (Key : Type) where
  fromPassword : String → Bytes saltSize → Key
  encryptData : Key → Bytes nonceSize → List UInt8 → Except String (List UInt8)
  decryptData : Key → Bytes nonceSize → List UInt8 → Except String (List UInt8)
  decrypt_encrypt : ∀ k n p c, encryptData k n p = .ok c → decryptData k n c = .ok p

/-- The serialization of records. -/
class Codec (R : Type) where
  serialize : R → Except String (List UInt8)
  deserialize : List UInt8 → Except String R
  deserialize_serialize : ∀ r bs, serialize r = .ok bs → deserialize bs = .ok r

def mapError {α : Type} (f : String → LogError) : Except String α → Except LogError α
  | .ok a => .ok a
  | .error e => .error (f e)

/-- An open log: the bytes of its file, and whether a failed append may have left some behind. -/
structure RecordLog (Key : Type) where
  file : List UInt8
  key : Key
  salt : Bytes saltSize
  magic : Bytes 6
  poisoned : Bool
  rollbackBoundary : ℕ

/-- What became of cutting the file back: done, cut but not synced, or not cut. -/
inductive Repair where
  | done
  | unsynced (text : String)
  | stuck (text : String)

def Repair.cut (r : Repair) (boundary : ℕ) (file : List UInt8) : List UInt8 :=
  match r with
  | done | unsynced _ => file.take boundary
  | stuck _ => file

/-- What an append may fail at: reading the length of the file, or the write and its flush, after
some bytes, which the file is then cut back by. -/
inductive WriteFault where
  | none
  | metadata (text : String)
  | failed (text : String) (written : ℕ) (repair : Repair)

/-- What a replacement of the file may fail at: before its records are encoded, or after. -/
inductive ReplaceFault where
  | none
  | early (text : String)
  | late (text : String)

/-- The refusal of a log that may have bytes of a failed append. -/
def requiresReopen : LogError := .corruptFile "record log requires reopen"

variable {Key R : Type} [Cipher Key] [Codec R]

def openRecord (key : Key) (record : List UInt8) : Except LogError R := do
  let nonce ← if h : (record.take nonceSize).length = nonceSize then .ok ⟨record.take nonceSize, h⟩
    else .error (.corruptFile "record shorter than nonce")
  let plaintext ← mapError (fun _ => .corruptFile "record failed to decrypt")
    (Cipher.decryptData key nonce (record.drop nonceSize))
  mapError (fun e => .corruptFile ("record decode: " ++ e)) (Codec.deserialize plaintext)

/-- Parse records until the bytes end or are torn: the records, and how many bytes they take. -/
def parseRecords (key : Key) : ℕ → List UInt8 → Except LogError (List R × ℕ)
  | 0, _ => .ok ([], 0)
  | fuel + 1, body =>
    if body.length < 4 then .ok ([], 0)
    else if body.length - 4 < ofBe (body.take 4) then .ok ([], 0)
    else if ofBe (body.take 4) < nonceSize then .error (.corruptFile "record shorter than nonce")
    else do
      let value ← openRecord key ((body.drop 4).take (ofBe (body.take 4)))
      let (more, valid) ← parseRecords key fuel (body.drop (4 + ofBe (body.take 4)))
      return (value :: more, 4 + ofBe (body.take 4) + valid)

def encodeRecord (key : Key) (record : R) (nonce : Bytes nonceSize) :
    Except LogError (List UInt8) := do
  let plaintext ← mapError .serialization (Codec.serialize record)
  let ciphertext ← mapError .storage (Cipher.encryptData key nonce plaintext)
  ensure (nonceSize + ciphertext.length < 2 ^ 32) (.serialization "record exceeds u32 length")
  return be32 (nonceSize + ciphertext.length) ++ nonce.1 ++ ciphertext

/-- The frames of records, one after the other. -/
def encodeAll (key : Key) : List (R × Bytes nonceSize) → Except LogError (List UInt8)
  | [] => .ok []
  | r :: rs => do
    let frame ← encodeRecord key r.1 r.2
    let frames ← encodeAll key rs
    return frame ++ frames

namespace RecordLog

variable (log : RecordLog Key)

def header : List UInt8 := log.magic.1 ++ log.salt.1

def create (password : String) (magic : Bytes 6) (salt : Bytes saltSize) : RecordLog Key :=
  ⟨magic.1 ++ salt.1, Cipher.fromPassword password salt, salt, magic, false, 0⟩

/-- Load a file: the log and its records, and the file that is left, cut back to the last whole
record. -/
def load (file : List UInt8) (password : String) (magic : Bytes 6) (repair : Repair) :
    Except LogError (RecordLog Key × List R) × List UInt8 :=
  if file.length < 6 then (.error (.corruptFile "missing magic"), file)
  else if file.take 6 ≠ magic.1 then (.error (.corruptFile "bad magic"), file)
  else if h : ((file.drop 6).take saltSize).length = saltSize then
    let salt : Bytes saltSize := ⟨(file.drop 6).take saltSize, h⟩
    let key : Key := Cipher.fromPassword password salt
    let body := file.drop (6 + saltSize)
    match parseRecords key (body.length + 1) body with
    | .error e => (.error e, file)
    | .ok (records, valid) =>
      if valid = body.length then (.ok (⟨file, key, salt, magic, false, 0⟩, records), file)
      else
        match repair with
        | .done =>
          (.ok (⟨file.take (6 + saltSize + valid), key, salt, magic, false, 0⟩, records),
            file.take (6 + saltSize + valid))
        | .unsynced text => (.error (.io text), file.take (6 + saltSize + valid))
        | .stuck text => (.error (.io text), file)
  else (.error (.corruptFile "missing salt"), file)

/-- Append a record. If the write fails the file is cut back to where it ended; if that fails too
the log is closed to writes. -/
def append (record : R) (nonce : Bytes nonceSize) (fault : WriteFault) :
    Except LogError Unit × RecordLog Key :=
  if log.poisoned then (.error requiresReopen, log)
  else
    match encodeRecord log.key record nonce with
    | .error e => (.error e, log)
    | .ok buf =>
      match fault with
      | .metadata text => (.error (.io text), log)
      | .none => (.ok (), { log with file := log.file ++ buf })
      | .failed text written repair =>
        (.error (.io text),
          match repair with
          | .done => { log with file := repair.cut log.file.length (log.file ++ buf.take written) }
          | _ => { log with
            file := repair.cut log.file.length (log.file ++ buf.take written)
            rollbackBoundary := log.file.length
            poisoned := true })

/-- Try again to cut back what a failed append may have left. -/
def recoverFailedAppend (repair : Repair) : Except LogError Unit × RecordLog Key :=
  if log.poisoned = false then (.ok (), log)
  else
    match repair with
    | .done => (.ok (), { log with
        file := repair.cut log.rollbackBoundary log.file
        poisoned := false })
    | .unsynced text | .stuck text =>
      (.error (.io text), { log with file := repair.cut log.rollbackBoundary log.file })

/-- Replace the file by another in one step, after the rest of it is encoded. -/
def replace (base : List UInt8) (records : List (R × Bytes nonceSize)) (fault : ReplaceFault) :
    Except LogError Unit × RecordLog Key :=
  match fault with
  | .early text => (.error (.io text), log)
  | .none | .late _ =>
    match encodeAll log.key records with
    | .error e => (.error e, log)
    | .ok frames =>
      match fault with
      | .late text => (.error (.io text), log)
      | _ => (.ok (), { log with file := base ++ frames })

def rewrite (records : List (R × Bytes nonceSize)) (fault : ReplaceFault) :
    Except LogError Unit × RecordLog Key :=
  if log.poisoned then (.error requiresReopen, log) else log.replace log.header records fault

def appendBatchAtomic (records : List (R × Bytes nonceSize)) (fault : ReplaceFault) :
    Except LogError Unit × RecordLog Key :=
  if log.poisoned then (.error requiresReopen, log)
  else if records.isEmpty then (.ok (), log)
  else log.replace log.file records fault

end RecordLog

end MeshTalk.Storage
