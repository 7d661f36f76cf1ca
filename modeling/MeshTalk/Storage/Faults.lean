import MeshTalk.Storage.RecordLog

/-! # The record log under faults

Whatever fails in a sequence of operations on a record log, its file reads back as what was
confirmed, and at most one record more: that of an append which failed and could not be undone. -/

namespace MeshTalk.Storage

open Lib List RecordLog Cipher

variable {Key R : Type} [Cipher Key] [Codec R]

/-! ### Frames of records -/

def FramesOf (key : Key) (rs : List R) (fs : List (List UInt8)) : Prop :=
  List.Forall₂ (fun r f => ∃ nonce, encodeRecord key r nonce = .ok f) rs fs

variable {key : Key}

theorem encodeRecord_eq_ok {r : R} {nonce f} (h : encodeRecord key r nonce = .ok f) :
    ∃ p, f = frame p ∧ p.length < 2 ^ 32 ∧
      nonceSize ≤ p.length ∧ openRecord key p = .ok r := by
  obtain ⟨plaintext, hser, h⟩ := bind_eq_ok.mp h
  obtain ⟨ciphertext, henc, h⟩ := bind_eq_ok.mp h
  obtain ⟨_, hlen, h⟩ := bind_eq_ok.mp h
  rw [ensure_eq_ok] at hlen
  cases h
  have hnonce := nonce.2
  have htake : (nonce.1 ++ ciphertext).take nonceSize = nonce.1 := take_left' hnonce
  have hdrop : (nonce.1 ++ ciphertext).drop nonceSize = ciphertext := drop_left' hnonce
  refine ⟨nonce.1 ++ ciphertext, ?_, ?_, ?_, ?_⟩
  · rw [frame, length_append, hnonce, append_assoc]
  · rw [length_append, hnonce]
    exact hlen
  · rw [length_append, hnonce]
    omega
  · have hdec : decryptData key nonce ciphertext = .ok plaintext := by
      cases he : encryptData key nonce plaintext with
      | error e =>
        rw [he] at henc
        cases henc
      | ok c =>
        rw [he] at henc
        cases henc
        exact decrypt_encrypt _ _ _ _ he
    have hdes : (Codec.deserialize plaintext : Except String R) = .ok r := by
      cases hs : Codec.serialize r with
      | error e =>
        rw [hs] at hser
        cases hser
      | ok bs =>
        rw [hs] at hser
        cases hser
        exact Codec.deserialize_serialize _ _ hs
    unfold openRecord
    rw [dif_pos (by rw [htake]; exact hnonce)]
    simp only [htake, hdrop, ok_bind]
    rw [hdec]
    show mapError _ (Codec.deserialize plaintext) = _
    rw [hdes]
    rfl

theorem FramesOf.payloads {rs : List R} {fs} (h : FramesOf key rs fs) :
    ∃ ps : List (List UInt8), fs = ps.map frame ∧
      List.Forall₂ (fun r p => p.length < 2 ^ 32 ∧ nonceSize ≤ p.length ∧
        openRecord key p = .ok r) rs ps := by
  induction h with
  | nil => exact ⟨[], rfl, .nil⟩
  | cons hf _ ih =>
    obtain ⟨nonce, hf⟩ := hf
    obtain ⟨p, rfl, hp⟩ := encodeRecord_eq_ok hf
    obtain ⟨ps, rfl, hps⟩ := ih
    exact ⟨p :: ps, rfl, .cons hp hps⟩

/-- **Whole frames are parsed**, up to a torn rest. -/
theorem parseRecords_spec {rs : List R} {ps t} (ht : Torn t)
    (h : List.Forall₂ (fun r p => p.length < 2 ^ 32 ∧ nonceSize ≤ p.length ∧
      openRecord key p = .ok r) rs ps) : ∀ {fuel}, ps.length < fuel →
    parseRecords key fuel (ps.flatMap frame ++ t) = .ok (rs, (ps.flatMap frame).length) := by
  induction h with
  | nil =>
    intro fuel hfuel
    obtain ⟨fuel, rfl⟩ := Nat.exists_eq_succ_of_ne_zero (Nat.ne_zero_of_lt hfuel)
    rw [flatMap_nil, nil_append, parseRecords]
    rcases ht with ht | ht
    · rw [if_pos ht]
      rfl
    · rw [if_pos ht]
      split_ifs <;> rfl
  | @cons r p rs ps hp _ ih =>
    intro fuel hfuel
    obtain ⟨fuel, rfl⟩ := Nat.exists_eq_succ_of_ne_zero (Nat.ne_zero_of_lt hfuel)
    obtain ⟨hlen, hnonce, hopen⟩ := hp
    have happ : (p :: ps).flatMap frame ++ t = be32 p.length ++ (p ++ (ps.flatMap frame ++ t)) := by
      rw [flatMap_cons, frame, append_assoc, append_assoc]
    have htake : (be32 p.length ++ (p ++ (ps.flatMap frame ++ t))).take 4 = be32 p.length :=
      take_left' (length_be32 _)
    have hdrop : (be32 p.length ++ (p ++ (ps.flatMap frame ++ t))).drop 4 =
        p ++ (ps.flatMap frame ++ t) := drop_left' (length_be32 _)
    have hsize : (be32 p.length ++ (p ++ (ps.flatMap frame ++ t))).length =
        4 + (p.length + (ps.flatMap frame ++ t).length) := by
      rw [length_append, length_append, length_be32]
    rw [happ, parseRecords, htake, ofBe_be32 hlen, hsize, if_neg (by omega), if_neg (by omega),
      if_neg (by omega), hdrop, take_left' rfl, hopen, ok_bind, ← drop_drop, hdrop,
      drop_left' rfl, ih (by rw [length_cons] at hfuel; omega), ok_bind]
    show Except.ok _ = Except.ok _
    rw [flatMap_cons, length_append, length_frame, Nat.add_comm p.length 4]

theorem length_le_flatMap_frame (ps : List (List UInt8)) :
    ps.length ≤ (ps.flatMap frame).length := by
  induction ps with
  | nil => exact Nat.zero_le _
  | cons p ps ih =>
    rw [flatMap_cons, length_append, length_frame, length_cons]
    omega

namespace RecordLog

/-- The log a file of whole frames is loaded as. -/
def loaded (password : String) (magic : Bytes 6) (salt : Bytes saltSize) (body : List UInt8) :
    RecordLog Key :=
  ⟨magic.1 ++ salt.1 ++ body, Cipher.fromPassword password salt, salt, magic, false, 0⟩

/-- **A file of frames with a torn rest loads as its whole frames**, once the rest is cut off. -/
theorem load_spec {password} (magic) {salt : Bytes saltSize} {rs : List R} {ps t} (ht : Torn t)
    (h : List.Forall₂ (fun r p => p.length < 2 ^ 32 ∧ nonceSize ≤ p.length ∧
      openRecord (fromPassword password salt : Key) p = .ok r) rs ps) (repair : Repair) :
    load (magic.1 ++ salt.1 ++ (ps.flatMap frame ++ t)) password magic repair =
      if t = [] then (.ok ((loaded password magic salt (ps.flatMap frame) : RecordLog Key), rs),
        magic.1 ++ salt.1 ++ ps.flatMap frame)
      else match repair with
        | .done => (.ok (loaded password magic salt (ps.flatMap frame), rs),
            magic.1 ++ salt.1 ++ ps.flatMap frame)
        | .unsynced text => (.error (.io text), magic.1 ++ salt.1 ++ ps.flatMap frame)
        | .stuck text => (.error (.io text), magic.1 ++ salt.1 ++ (ps.flatMap frame ++ t)) := by
  have hmagic := magic.2
  have hsalt := salt.2
  have hsize : (magic.1 ++ salt.1).length = 6 + saltSize := by rw [length_append, hmagic, hsalt]
  have htake : (magic.1 ++ salt.1 ++ (ps.flatMap frame ++ t)).take 6 = magic.1 := by
    rw [append_assoc]
    exact take_left' hmagic
  have hdrop : (magic.1 ++ salt.1 ++ (ps.flatMap frame ++ t)).drop 6 =
      salt.1 ++ (ps.flatMap frame ++ t) := by
    rw [append_assoc]
    exact drop_left' hmagic
  have hsaltTake : ((magic.1 ++ salt.1 ++ (ps.flatMap frame ++ t)).drop 6).take
    saltSize = salt.1 := by
    rw [hdrop]
    exact take_left' hsalt
  have hbody : (magic.1 ++ salt.1 ++ (ps.flatMap frame ++ t)).drop (6 + saltSize) =
      ps.flatMap frame ++ t := drop_left' hsize
  unfold load
  rw [if_neg (by rw [length_append, hsize]; omega), if_neg (by rw [htake]; simp),
    dif_pos (by rw [hsaltTake]; exact hsalt)]
  simp only [hsaltTake, hbody]
  have hle := length_le_flatMap_frame ps
  rw [parseRecords_spec ht h (by rw [length_append]; omega)]
  dsimp only
  by_cases hnil : t = []
  · subst hnil
    rw [if_pos (by rw [append_nil]), if_pos rfl]
    simp only [append_nil]
    rfl
  · have hpos := length_pos_of_ne_nil hnil
    have hcut : (magic.1 ++ salt.1 ++ (ps.flatMap frame ++ t)).take
        (6 + saltSize + (ps.flatMap frame).length) = magic.1 ++ salt.1 ++ ps.flatMap frame := by
      rw [← append_assoc]
      exact take_left' (by rw [length_append, hsize])
    rw [if_neg (by rw [length_append]; omega), if_neg hnil, hcut]
    cases repair <;> rfl

end RecordLog

/-! ### Sessions -/

inductive Op (R : Type) where
  | append (record : R) (nonce : Bytes nonceSize) (fault : WriteFault)
  | batch (records : List (R × Bytes nonceSize)) (fault : ReplaceFault)
  | rewrite (records : List (R × Bytes nonceSize)) (fault : ReplaceFault)
  | recover (repair : Repair)
  | reopen (repair : Repair)

/-- A log that is open, or the file of one that could not be opened again; what was confirmed to the
caller, and the record of an append that failed and may be in the file. -/
structure Session (Key R : Type) where
  log : Option (RecordLog Key)
  file : List UInt8
  confirmed : List R
  uncertain : Option R

def succeeded (r : Except LogError Unit) : Bool :=
  match r with
  | .ok _ => true
  | .error _ => false

namespace Session

def start (log : RecordLog Key) (records : List R) : Session Key R :=
  ⟨some log, log.file, records, none⟩

/-- A session after an operation of its log: `records` were confirmed if it succeeded. -/
def record (s : Session Key R) (r : Except LogError Unit × RecordLog Key) (records : List R)
    (uncertain : Option R) : Session Key R :=
  ⟨some r.2, r.2.file, if succeeded r.1 then records else s.confirmed, uncertain⟩

/-- One operation. An append that fails is uncertain if it leaves the log closed to writes. A log
that could not be opened does nothing but open again. -/
def step (password : String) (magic : Bytes 6) (s : Session Key R) (op : Op R) : Session Key R :=
  match op, s.log with
  | .append r nonce fault, some log =>
    s.record (log.append r nonce fault) (s.confirmed ++ [r])
      (if !log.poisoned && (log.append r nonce fault).2.poisoned then some r else s.uncertain)
  | .batch rs fault, some log =>
    s.record (log.appendBatchAtomic rs fault) (s.confirmed ++ rs.map Prod.fst) s.uncertain
  | .rewrite rs fault, some log =>
    s.record (log.rewrite rs fault) (rs.map Prod.fst) s.uncertain
  | .recover repair, some log =>
    s.record (log.recoverFailedAppend repair) s.confirmed
      (if succeeded (log.recoverFailedAppend repair).1 then none else s.uncertain)
  | .reopen repair, _ =>
    match RecordLog.load s.file password magic repair with
    | (.ok (log, rs), file) => ⟨some log, file, rs, none⟩
    | (.error _, file) => { s with log := none, file := file }
  | _, none => s

def run (password : String) (magic : Bytes 6) (s : Session Key R) (ops : List (Op R)) :
    Session Key R :=
  ops.foldl (step password magic) s

/-- Opening the file again yields the confirmed records in order, and at most the uncertain one
after them. -/
def Reads (password : String) (magic : Bytes 6) (s : Session Key R) : Prop :=
  ∃ log rs file, RecordLog.load s.file password magic .done =
    (.ok ((log : RecordLog Key), rs), file) ∧
    (rs = s.confirmed ∨ ∃ r, s.uncertain = some r ∧ rs = s.confirmed ++ [r])

end Session

/-! ### What is on the disk -/

/-- A file with the frames of the confirmed records, and after them a part of the frame of the
uncertain one. -/
structure OnDisk (Key : Type) [Cipher Key] (password : String) (magic : Bytes 6)
    (salt : Bytes saltSize) (rs : List R)
    (uncertain : Option R) (fs : List (List UInt8)) (t : List UInt8) (file : List UInt8) :
      Prop where
  file : file = magic.1 ++ salt.1 ++ (fs.flatten ++ t)
  frames : FramesOf (Cipher.fromPassword password salt : Key) rs fs
  tail : t = [] ∨ ∃ r nonce f k, uncertain = some r ∧
    encodeRecord (Cipher.fromPassword password salt : Key) r nonce = .ok f ∧ t = f.take k

namespace OnDisk

variable {password : String} {magic : Bytes 6} {salt : Bytes saltSize} {rs : List R}
  {uncertain : Option R} {fs : List (List UInt8)} {t file : List UInt8}

/-- The file as whole frames and a torn rest: the uncertain record is among them or in the rest. -/
theorem split (h : OnDisk Key password magic salt rs uncertain fs t file) :
    ∃ rs' fs' t', Torn t' ∧ FramesOf (fromPassword password salt : Key) rs' fs' ∧
      file = magic.1 ++ salt.1 ++ (fs'.flatten ++ t') ∧
      ((rs' = rs ∧ fs' = fs ∧ t' = t) ∨ t' = [] ∧ ∃ r, uncertain = some r ∧ rs' = rs ++ [r]) := by
  rcases h.tail with rfl | ⟨r, nonce, f, k, hr, hf, rfl⟩
  · exact ⟨rs, fs, [], torn_nil, h.frames, h.file, Or.inl ⟨rfl, rfl, rfl⟩⟩
  · obtain ⟨p, rfl, hp, -⟩ := encodeRecord_eq_ok hf
    rcases Nat.lt_or_ge k (frame p).length with hk | hk
    · exact ⟨rs, fs, _, torn_take_frame hp hk, h.frames, h.file, Or.inl ⟨rfl, rfl, rfl⟩⟩
    · refine ⟨rs ++ [r], fs ++ [frame p], [], torn_nil,
        rel_append h.frames (.cons ⟨nonce, hf⟩ .nil), ?_, Or.inr ⟨rfl, r, hr, rfl⟩⟩
      rw [h.file, take_of_length_le hk]
      simp

end OnDisk

theorem flatten_map_frame (ps : List (List UInt8)) :
    (ps.map frame).flatten = ps.flatMap frame := rfl

theorem encodeAll_eq_ok {key : Key} : ∀ {rs : List (R × Bytes nonceSize)} {bs : List UInt8},
    encodeAll key rs = .ok bs → ∃ fs, bs = fs.flatten ∧ FramesOf key (rs.map Prod.fst) fs
  | [], bs, h => ⟨[], (Except.ok.inj h).symm, .nil⟩
  | (r, nonce) :: rs, bs, h => by
    obtain ⟨f, hf, h⟩ := bind_eq_ok.mp h
    obtain ⟨more, hmore, h⟩ := bind_eq_ok.mp h
    obtain ⟨fs, rfl, hfs⟩ := encodeAll_eq_ok hmore
    exact ⟨f :: fs, (Except.ok.inj h).symm, .cons ⟨nonce, hf⟩ hfs⟩

/-! ### Steps -/

namespace RecordLog

variable (log : RecordLog Key)

/-- What an append can do: nothing, write the frame, or leave a part of it behind and close the log
to writes. -/
theorem append_cases (r : R) (nonce fault) :
    (∃ e, log.append r nonce fault = (.error e, log)) ∨
      log.poisoned = false ∧ ∃ f, encodeRecord log.key r nonce = .ok f ∧
        (log.append r nonce fault = (.ok (), { log with file := log.file ++ f }) ∨
          ∃ e k, log.append r nonce fault = (.error e, { log with
            file := log.file ++ f.take k
            rollbackBoundary := log.file.length
            poisoned := true })) := by
  unfold append
  cases hp : log.poisoned with
  | true => exact Or.inl ⟨_, if_pos rfl⟩
  | false =>
    rw [if_neg (by simp)]
    cases hf : encodeRecord log.key r nonce with
    | error e => exact Or.inl ⟨e, rfl⟩
    | ok f =>
      cases fault with
      | none => exact Or.inr ⟨rfl, f, rfl, Or.inl rfl⟩
      | metadata text => exact Or.inl ⟨_, rfl⟩
      | failed text written repair =>
        cases repair with
        | done =>
          refine Or.inl ⟨.io text, ?_⟩
          simp only [Repair.cut, take_left' rfl, ← hp]
        | unsynced u =>
          refine Or.inr ⟨rfl, f, rfl, Or.inr ⟨.io text, 0, ?_⟩⟩
          simp [Repair.cut]
        | stuck u => exact Or.inr ⟨rfl, f, rfl, Or.inr ⟨.io text, written, rfl⟩⟩

theorem replace_cases (base) (rs : List (R × Bytes nonceSize)) (fault) :
    (∃ e, log.replace base rs fault = (.error e, log)) ∨ ∃ fs,
      FramesOf log.key (rs.map Prod.fst) fs ∧
        log.replace base rs fault = (.ok (), { log with file := base ++ fs.flatten }) := by
  unfold replace
  cases fault with
  | early text => exact Or.inl ⟨_, rfl⟩
  | none =>
    cases hf : encodeAll log.key rs with
    | error e => exact Or.inl ⟨e, rfl⟩
    | ok bs =>
      obtain ⟨fs, rfl, hfs⟩ := encodeAll_eq_ok hf
      exact Or.inr ⟨fs, hfs, rfl⟩
  | late text =>
    cases hf : encodeAll log.key rs with
    | error e => exact Or.inl ⟨e, rfl⟩
    | ok bs => exact Or.inl ⟨_, rfl⟩

/-- What a rewrite can do: nothing, or replace the file of a log that is open to writes. -/
theorem rewrite_cases (rs : List (R × Bytes nonceSize)) (fault) :
    (∃ e, log.rewrite rs fault = (.error e, log)) ∨
      log.poisoned = false ∧ ∃ fs, FramesOf log.key (rs.map Prod.fst) fs ∧
        log.rewrite rs fault = (.ok (), { log with file := log.header ++ fs.flatten }) := by
  unfold rewrite
  cases hp : log.poisoned with
  | true => exact Or.inl ⟨_, if_pos rfl⟩
  | false =>
    rw [if_neg (by simp)]
    rcases log.replace_cases log.header rs fault with ⟨e, he⟩ | ⟨fs, hfs, he⟩
    · exact Or.inl ⟨e, he⟩
    · exact Or.inr ⟨rfl, fs, hfs, by rw [he, ← hp]⟩

omit [Cipher Key] in
/-- What a recovery can do: nothing, or cut the file back, after which the log may be open again. -/
theorem recover_cases (repair) :
    log.recoverFailedAppend repair = (.ok (), log) ∧ log.poisoned = false ∨ log.poisoned = true ∧
        (log.recoverFailedAppend repair = (.ok (), { log with
            file := log.file.take log.rollbackBoundary
            poisoned := false }) ∨
          ∃ e, log.recoverFailedAppend repair = (.error e, log) ∨
            log.recoverFailedAppend repair = (.error e, { log with
              file := log.file.take log.rollbackBoundary })) := by
  unfold recoverFailedAppend
  cases hp : log.poisoned with
  | false => exact Or.inl ⟨if_pos rfl, rfl⟩
  | true =>
    rw [if_neg (by simp)]
    refine Or.inr ⟨rfl, ?_⟩
    cases repair with
    | done => exact Or.inl rfl
    | unsynced text => exact Or.inr ⟨.io text, Or.inr (by simp only [Repair.cut, ← hp])⟩
    | stuck text => exact Or.inr ⟨.io text, Or.inl (by simp only [Repair.cut, ← hp])⟩

end RecordLog

structure Open (password : String) (salt : Bytes saltSize) (magic : Bytes 6) (file : List UInt8)
    (log : RecordLog Key) : Prop where
  file : log.file = file
  header : log.header = magic.1 ++ salt.1
  key : log.key = Cipher.fromPassword password salt

/-- What a session keeps: the file holds what was confirmed. A log that is open to writes has
nothing after it, and one that is closed to writes knows where it ends. -/
def Session.Ok (password : String) (magic : Bytes 6) (s : Session Key R) : Prop :=
  ∃ salt fs t, OnDisk Key password magic salt s.confirmed s.uncertain fs t s.file ∧
    ∀ log, s.log = some log → Open password salt magic s.file log ∧
      (log.poisoned = false → t = [] ∧ s.uncertain = none) ∧
      (log.poisoned = true → log.rollbackBoundary = (magic.1 ++ salt.1 ++ fs.flatten).length)

namespace Session

variable {password : String} {magic : Bytes 6} {s : Session Key R} {log : RecordLog Key}

theorem ok_of_whole {salt rs fs} (hf : FramesOf (fromPassword password salt : Key) rs fs)
    (hopen : Open password salt magic (magic.1 ++ salt.1 ++ fs.flatten) log)
    (hpoison : log.poisoned = false) :
    Ok password magic (⟨some log, log.file, rs, none⟩ : Session Key R) := by
  refine ⟨salt, fs, [], ⟨?_, hf, Or.inl rfl⟩, ?_⟩
  · rw [hopen.file, append_nil]
  · intro log' hlog
    cases hlog
    refine ⟨⟨rfl, hopen.header, hopen.key⟩, fun _ => ⟨rfl, rfl⟩, fun hp => ?_⟩
    rw [hpoison] at hp
    cases hp

section

variable (h : s.Ok password magic)
include h

theorem record_error (hlog : s.log = some log) (e rs) :
    (s.record (.error e, log) rs s.uncertain).Ok password magic := by
  obtain ⟨salt, fs, t, hdisk, hopen⟩ := h
  obtain ⟨hfile, hheader, hkey⟩ := (hopen log hlog).1
  refine ⟨salt, fs, t, ?_, fun log' hlog' => ?_⟩
  · show OnDisk Key password magic salt s.confirmed s.uncertain fs t log.file
    rw [hfile]
    exact hdisk
  · cases hlog'
    exact ⟨⟨rfl, hheader, hkey⟩, (hopen log hlog).2⟩

theorem Ok.whole (hlog : s.log = some log) (hp : log.poisoned = false) :
    s.uncertain = none ∧ ∃ salt fs,
      FramesOf (fromPassword password salt : Key) s.confirmed fs ∧
      Open password salt magic (magic.1 ++ salt.1 ++ fs.flatten) log := by
  obtain ⟨salt, fs, t, hdisk, hopen⟩ := h
  obtain ⟨⟨hfile, hheader, hkey⟩, hclean, -⟩ := hopen log hlog
  obtain ⟨rfl, hnone⟩ := hclean hp
  refine ⟨hnone, salt, fs, hdisk.frames, ⟨?_, hheader, hkey⟩⟩
  rw [hfile, hdisk.file, append_nil]

/-- **An append**, whatever fails in it. -/
theorem append_ok (r : R) (nonce fault) :
    (s.step password magic (.append r nonce fault)).Ok password magic := by
  cases hlog : s.log with
  | none =>
    simp only [step, hlog]
    exact h
  | some log =>
    simp only [step, hlog]
    rcases log.append_cases r nonce fault with ⟨e, he⟩ | ⟨hp, f, hf, he | ⟨e, k, he⟩⟩
    · rw [he]
      simpa using record_error h hlog e _
    · obtain ⟨hnone, salt, fs, hfs, hfile, hheader, hkey⟩ := h.whole hlog hp
      rw [hkey] at hf
      have hfs' : FramesOf _ (s.confirmed ++ [r]) (fs ++ [f]) :=
        rel_append hfs (.cons ⟨nonce, hf⟩ .nil)
      simp only [he, hp, hnone, record]
      exact ok_of_whole hfs' ⟨by simp [hfile], hheader, hkey⟩ rfl
    · obtain ⟨hnone, salt, fs, hfs, hfile, hheader, hkey⟩ := h.whole hlog hp
      rw [hkey] at hf
      simp only [he, hp, record]
      refine ⟨salt, fs, f.take k, ⟨?_, hfs, Or.inr ⟨r, nonce, f, k, by simp, hf, rfl⟩⟩, ?_⟩
      · simp [hfile]
      · intro log' hlog'
        cases hlog'
        refine ⟨⟨rfl, hheader, hkey⟩, nofun, fun _ => ?_⟩
        rw [hfile]

/-- **A batch or a rewrite**, whatever fails in it: `base` is the part of the file that is kept. -/
theorem replace_ok (hlog : s.log = some log) (hp : log.poisoned = false) {base kept}
    (hbase : ∀ salt fs, FramesOf (fromPassword password salt : Key) s.confirmed fs →
      Open password salt magic (magic.1 ++ salt.1 ++ fs.flatten) log → ∃ gs,
        FramesOf (fromPassword password salt : Key) kept gs ∧
          base = magic.1 ++ salt.1 ++ gs.flatten) (rs : List (R × Bytes nonceSize)) (fault) :
    (s.record (log.replace base rs fault) (kept ++ rs.map Prod.fst) s.uncertain).Ok
      password magic := by
  rcases log.replace_cases base rs fault with ⟨e, he⟩ | ⟨fs', hfs', he⟩
  · rw [he]
    exact record_error h hlog e _
  · obtain ⟨hnone, salt, fs, hfs, hopen⟩ := h.whole hlog hp
    obtain ⟨gs, hgs, rfl⟩ := hbase salt fs hfs hopen
    rw [hopen.key] at hfs'
    have hall : FramesOf _ (kept ++ rs.map Prod.fst) (gs ++ fs') := rel_append hgs hfs'
    simp only [he, hnone, record]
    exact ok_of_whole hall ⟨by simp, hopen.header, hopen.key⟩ hp

/-- **A recovery**, whatever fails in it. -/
theorem recover_ok (repair) : (s.step password magic (.recover repair)).Ok password magic := by
  cases hlog : s.log with
  | none =>
    simp only [step, hlog]
    exact h
  | some log =>
    simp only [step, hlog]
    rcases log.recover_cases repair with ⟨he, hp⟩ | ⟨hp, he⟩
    · obtain ⟨hnone, salt, fs, hfs, hopen⟩ := h.whole hlog hp
      simp only [he, record]
      exact ok_of_whole hfs hopen hp
    · obtain ⟨salt, fs, t, hdisk, hopen⟩ := id h
      obtain ⟨⟨hfile, hheader, hkey⟩, -, hboundary⟩ := hopen log hlog
      have hcut : log.file.take log.rollbackBoundary = magic.1 ++ salt.1 ++ fs.flatten := by
        rw [hfile, hdisk.file, hboundary hp, ← append_assoc]
        exact take_left' rfl
      rcases he with he | ⟨e, he | he⟩
      · simp only [he, record]
        exact ok_of_whole hdisk.frames ⟨hcut, hheader, hkey⟩ rfl
      · rw [he]
        simpa [succeeded] using record_error h hlog e _
      · simp only [he, record]
        refine ⟨salt, fs, [], ⟨?_, hdisk.frames, Or.inl rfl⟩, fun log' hlog' => ?_⟩
        · rw [append_nil]
          exact hcut
        · cases hlog'
          exact ⟨⟨rfl, hheader, hkey⟩, fun hp' => absurd (hp.symm.trans hp') (by simp),
            fun _ => hboundary hp⟩

/-- **Opening again**, whatever fails in it. -/
theorem reopen_ok (repair : Repair) :
    (s.step password magic (.reopen repair)).Ok password magic := by
  obtain ⟨salt, fs, t, hdisk, -⟩ := h
  obtain ⟨rs', fs', t', ht', hfs', hfile, hcase⟩ := hdisk.split
  obtain ⟨ps, rfl, hps⟩ := hfs'.payloads
  have hload := load_spec magic ht' hps repair
  have hwhole : ∀ rs', FramesOf (fromPassword password salt : Key) rs' (ps.map frame) →
      Ok password magic (⟨some (.loaded password magic salt (ps.flatMap frame)),
        magic.1 ++ salt.1 ++ ps.flatMap frame, rs', none⟩ : Session Key R) := fun rs' hfs' =>
    ok_of_whole hfs' ⟨rfl, rfl, rfl⟩ rfl
  have hclosed : ∀ t, OnDisk Key password magic salt s.confirmed s.uncertain fs t
      (magic.1 ++ salt.1 ++ (fs.flatten ++ t)) → Ok password magic
        { s with log := none, file := magic.1 ++ salt.1 ++ (fs.flatten ++ t) } := fun t hd =>
    ⟨salt, fs, t, hd, nofun⟩
  rw [flatten_map_frame] at hfile
  have hstep : s.step password magic (.reopen repair) =
      match load s.file password magic repair with
      | (.ok (log, rs), file) => ⟨some log, file, rs, none⟩
      | (.error _, file) => { s with log := none, file := file } := by
    cases s.log <;> rfl
  rw [hstep, hfile, hload]
  by_cases hnil : t' = []
  · rw [if_pos hnil]
    exact hwhole rs' hfs'
  rw [if_neg hnil]
  -- something is cut off, so the uncertain record was not whole
  obtain ⟨rfl, rfl, rfl⟩ | ⟨hnil', -⟩ := hcase
  · cases repair with
    | done => exact hwhole _ hfs'
    | unsynced text =>
      have := hclosed [] ⟨by rw [append_nil], hdisk.frames, Or.inl rfl⟩
      rwa [append_nil, flatten_map_frame] at this
    | stuck text =>
      have := hclosed t' ⟨rfl, hdisk.frames, hdisk.tail⟩
      rwa [flatten_map_frame] at this
  · exact absurd hnil' hnil

/-- **Every operation keeps what a session keeps.** -/
theorem step_ok (op) : (s.step password magic op).Ok password magic := by
  cases op with
  | append r nonce fault => exact append_ok h r nonce fault
  | recover repair => exact recover_ok h repair
  | reopen repair => exact reopen_ok h repair
  | batch rs fault =>
    cases hlog : s.log with
    | none =>
      simp only [step, hlog]
      exact h
    | some log =>
      simp only [step, hlog, appendBatchAtomic]
      split_ifs with hp hempty
      · exact record_error h hlog _ _
      · obtain rfl := isEmpty_iff.mp hempty
        obtain ⟨hnone, salt, fs, hfs, hopen⟩ := h.whole hlog (by simpa using hp)
        simp only [record, hnone, map_nil, append_nil, ite_self]
        exact ok_of_whole hfs hopen (by simpa using hp)
      · exact replace_ok h hlog (by simpa using hp) (fun salt fs hfs hopen => ⟨fs, hfs, hopen.file⟩)
          rs fault
  | rewrite rs fault =>
    cases hlog : s.log with
    | none =>
      simp only [step, hlog]
      exact h
    | some log =>
      simp only [step, hlog, rewrite]
      split_ifs with hp
      · exact record_error h hlog _ _
      · have hbase : ∀ salt fs, FramesOf (fromPassword password salt : Key) s.confirmed fs →
            Open password salt magic (magic.1 ++ salt.1 ++ fs.flatten) log → ∃ gs,
              FramesOf (fromPassword password salt : Key) ([] : List R) gs ∧
                log.header = magic.1 ++ salt.1 ++ gs.flatten :=
          fun salt fs _ hopen => ⟨[], .nil, by rw [hopen.header]; simp⟩
        exact replace_ok h hlog (by simpa using hp) hbase rs fault

end

/-- **Every run keeps it.** -/
theorem run_ok : ∀ (ops : List (Op R)) {s : Session Key R}, s.Ok password magic →
    (s.run password magic ops).Ok password magic
  | [], _, h => h
  | op :: ops, _, h => run_ok ops (step_ok h op)

theorem Ok.reads (h : s.Ok password magic) : s.Reads password magic := by
  obtain ⟨salt, fs, t, hdisk, -⟩ := h
  obtain ⟨rs', fs', t', ht', hfs', hfile, hcase⟩ := hdisk.split
  obtain ⟨ps, rfl, hps⟩ := hfs'.payloads
  have hload := load_spec magic ht' hps .done
  rw [flatten_map_frame] at hfile
  refine ⟨_, rs', _, by rw [hfile, hload, ite_self], ?_⟩
  rcases hcase with ⟨hrs, -, -⟩ | ⟨-, hr⟩
  · exact Or.inl hrs
  · exact Or.inr hr

end Session

/-! ### Runs -/

theorem payload_lt {key : Key} {rs : List R} {ps}
    (h : List.Forall₂ (fun r p => p.length < 2 ^ 32 ∧ nonceSize ≤ p.length ∧
      openRecord key p = .ok r) rs ps) : ∀ p ∈ ps, p.length < 2 ^ 32 := by
  induction h with
  | nil => simp
  | cons hp _ ih =>
    intro q hq
    rcases mem_cons.mp hq with rfl | hq
    · exact hp.1
    · exact ih q hq

/-- A file of frames that is cut after its header loads as the whole frames left, and the log it is
loaded as keeps what it is told from then on. -/
theorem load_take {password} (magic : Bytes 6) {salt} {rs : List R} {fs : List (List UInt8)}
    {t : List UInt8} (ht : Torn t) (hfs : FramesOf (fromPassword password salt : Key) rs fs)
    {k} (hk : 6 + saltSize ≤ k) :
    ∃ m log, load ((magic.1 ++ salt.1 ++ (fs.flatten ++ t)).take k) password magic .done =
        (.ok ((log : RecordLog Key), rs.take m), log.file) ∧
      6 + saltSize + (fs.take m).flatten.length ≤ k ∧
      (m < fs.length → k < 6 + saltSize + (fs.take (m + 1)).flatten.length) ∧
      (Session.start log (rs.take m)).Ok password magic := by
  obtain ⟨ps, rfl, hps⟩ := hfs.payloads
  have hlen : (magic.1 ++ salt.1).length = 6 + saltSize := by
    rw [length_append, magic.2, salt.2]
  obtain ⟨m, t', -, ht', htake, hle, hlt⟩ := take_frames ht _ (k - (6 + saltSize)) (payload_lt hps)
  have hcut : (magic.1 ++ salt.1 ++ ((ps.map frame).flatten ++ t)).take k =
      magic.1 ++ salt.1 ++ ((ps.take m).flatMap frame ++ t') := by
    rw [take_append, take_of_length_le (by omega), hlen, flatten_map_frame, htake]
  refine ⟨m, .loaded password magic salt ((ps.take m).flatMap frame), ?_, ?_, fun hm => ?_, ?_⟩
  · rw [hcut, load_spec magic ht' (forall₂_take m hps), ite_self]
    rfl
  · rw [← map_take, flatten_map_frame]
    omega
  · have := hlt (by simpa using hm)
    rw [← map_take, flatten_map_frame]
    omega
  · have htaken : FramesOf (fromPassword password salt : Key) (rs.take m)
        ((ps.map frame).take m) := forall₂_take m hfs
    rw [← map_take] at htaken
    exact Session.ok_of_whole htaken ⟨rfl, rfl, rfl⟩ rfl

/-- **Faults lose nothing.** After any operations on a new log, with anything failing in them,
opening the file again yields the confirmed records in order, and at most the uncertain one after
them. And the file cut at any byte after its header loads as the longest run of whole records left;
whatever is done with that log, the same holds again. -/
theorem faults_lose_nothing (password : String) (magic : Bytes 6) (salt : Bytes saltSize)
    (ops : List (Op R)) :
    let s := (Session.start (RecordLog.create password magic salt : RecordLog Key)
      ([] : List R)).run password magic ops
    s.Reads password magic ∧ ∃ (log : RecordLog Key) (rs : List R) (file : List UInt8)
        (fs : List (List UInt8)) (header t : List UInt8),
      RecordLog.load s.file password magic .done = (.ok (log, rs), file) ∧
      FramesOf log.key rs fs ∧ s.file = header ++ (fs.flatten ++ t) ∧ header.length = 6 + saltSize ∧
      ∀ k, 6 + saltSize ≤ k → ∃ m log', RecordLog.load (s.file.take k) password magic .done =
          (.ok ((log' : RecordLog Key), rs.take m), log'.file) ∧
        (header ++ (fs.take m).flatten).length ≤ k ∧
        (m < fs.length → k < (header ++ (fs.take (m + 1)).flatten).length) ∧
        ∀ ops', ((Session.start log' (rs.take m)).run password magic ops').Reads
          password magic := by
  intro s
  have hnil : FramesOf (Cipher.fromPassword password salt : Key) ([] : List R) [] := .nil
  have hstart : (Session.start (RecordLog.create password magic salt : RecordLog Key)
      ([] : List R)).Ok password magic :=
    Session.ok_of_whole hnil ⟨by simp [RecordLog.create], rfl, rfl⟩ rfl
  have hs : s.Ok password magic := Session.run_ok ops hstart
  refine ⟨hs.reads, ?_⟩
  obtain ⟨salt', fs, t, hdisk, -⟩ := hs
  obtain ⟨rs', fs', t', ht', hfs', hfile, -⟩ := hdisk.split
  obtain ⟨ps, rfl, hps⟩ := hfs'.payloads
  have hload := RecordLog.load_spec magic ht' hps .done
  have hlen : (magic.1 ++ salt'.1).length = 6 + saltSize := by
    rw [List.length_append, magic.2, salt'.2]
  refine ⟨.loaded password magic salt' (ps.flatMap frame), rs',
    magic.1 ++ salt'.1 ++ ps.flatMap frame, ps.map frame, magic.1 ++ salt'.1, t', ?_, hfs', hfile,
    hlen, fun k hk => ?_⟩
  · rw [hfile, flatten_map_frame, hload, ite_self]
  · obtain ⟨m, log', hload', hle, hlt, hok⟩ := load_take magic ht' hfs' hk
    refine ⟨m, log', by rw [hfile]; exact hload', ?_, fun hm => ?_, fun ops' => ?_⟩
    · rw [List.length_append, hlen]
      exact hle
    · rw [List.length_append, hlen]
      exact hlt hm
    · exact (Session.run_ok ops' hok).reads

@[reducible] def plainCipher : Cipher Unit where
  fromPassword _ _ := ()
  encryptData _ _ p := .ok p
  decryptData _ _ c := .ok c
  decrypt_encrypt _ _ _ _ h := h.symm

@[reducible] def byteCodec : Codec UInt8 where
  serialize b := .ok [b]
  deserialize bs := match bs with
    | [b] => .ok b
    | _ => .error "length"
  deserialize_serialize _ _ h := by
    cases h
    rfl

/-- A file that is cut within its header does not load. -/
theorem cut_header_fails :
    letI := plainCipher
    letI := byteCodec
    let log : RecordLog Unit := .create "pw" ⟨List.replicate 6 77, rfl⟩ ⟨List.replicate 16 1, rfl⟩
    RecordLog.load (log.file.take 21) "pw" log.magic .done =
      ((.error (.corruptFile "missing salt") : Except LogError (RecordLog Unit × List UInt8)),
        log.file.take 21) := by
  rfl

end MeshTalk.Storage
