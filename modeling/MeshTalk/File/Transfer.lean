import MeshTalk.File.Manifest

/-! # Sending and saving a file

The staging of a file into chunk events, and the saving of a file from the chunks a node holds
(`node/files.rs`). A file may change while it is staged, so a source is what each read returns. What
the operating system may fail at is an argument, and so is the copy of a media file that a node may
keep. -/

namespace MeshTalk.File

open Lib Channel List

inductive NodeError where
  | file (text : String)
  | invalidInput (text : String)
  | log (text : String)
deriving DecidableEq

/-! ### Staging -/

/-- A file name as text, and whether bytes of it had to be replaced. -/
structure OsName where
  text : String
  replaced : Bool
deriving DecidableEq

def OsName.toStr (n : OsName) : Option String := if n.replaced then none else some n.text

/-- A file that is read chunk by chunk: the size it had first, and what each read returns. -/
structure Source where
  size : ℕ
  read : ℕ → Except String (List UInt8)
  read_le : ∀ i bs, read i = .ok bs → bs.length ≤ chunkSize

namespace Source

/-- A file that nobody else can change. -/
def ofBytes (bytes : List UInt8) : Source where
  size := bytes.length
  read i := .ok ((bytes.drop (i * chunkSize)).take chunkSize)
  read_le i bs h := by
    rw [← Except.ok.inj h]
    exact List.length_take_le _ _

def chunk (s : Source) (i : ℕ) : List UInt8 := (s.read i).toOption.getD []

def chunks (s : Source) (n : ℕ) : List (List UInt8) := (List.range n).map s.chunk

theorem length_chunks (s : Source) (n) : (s.chunks n).length = n := by
  rw [Source.chunks, length_map, length_range]

theorem chunks_succ (s : Source) (n) : s.chunks (n + 1) = s.chunks n ++ [s.chunk n] := by
  rw [Source.chunks, range_succ, map_append, map_singleton, Source.chunks]

def taken (s : Source) : List (List UInt8) := s.chunks (chunkCountFor s.size)

/-- A file is read in its declared size, and, where that is asked for, in chunks of the declared
sizes. -/
def Declared (s : Source) (compact : Prop) : Prop :=
  s.taken.flatten.length = s.size ∧
    (compact → ∀ i < chunkCountFor s.size, (s.chunk i).length =
      min (s.size - i * chunkSize) chunkSize)

end Source

/-- What is to be sent: the bytes of a file that were read at once, should it be a sticker, and the
file itself; or a directory, packed into an archive. -/
inductive Entry where
  | file (snapshot : Except String (List UInt8)) (source : Source)
  | directory (archive : Except NodeError (List UInt8))

/-- The name, type, intent and bytes to stage. -/
structure StagePlan where
  name : String
  mime : String
  kind : FileKind
  source : Source

/-- What a node draws and meets while it stages a file. -/
structure StageEnv where
  key : BitVec 256
  nonce : BitVec 64
  conv : ConversationId
  eventFits : ℕ → Bool
  closed : ℕ → Bool
  append : ℕ → Except NodeError Unit

def directoryMime : String := "application/x-mesh-talk-directory-tar"

def archiveName [Presentation] (n : OsName) : Except NodeError String :=
  match n.toStr with
  | none => .error (.file "directory name is not UTF-8")
  | some name => .ok (Presentation.sanitizeFilename (name.replace "\\" "_") ++ ".tar")

/-- The bytes of a sticker, which are validated before they are staged. -/
def stickerSnapshot [Presentation] (n : OsName) (kind : FileKind) (entry : Entry) :
    Except NodeError (Option (List UInt8)) :=
  let name := n.toStr.getD ""
  if isStickerName name = false then .ok none
  else if kind ≠ .media then .error (.invalidInput "stickers must be inline media")
  else
    match entry with
    | .directory _ => .error (.file "read sticker: is a directory")
    | .file snapshot _ =>
      match snapshot with
      | .error e => .error (.file ("read sticker: " ++ e))
      | .ok bytes =>
        let bytes := bytes.take (maxStickerBytes + 1)
        if validateImage name (mimeFromName name) bytes then .ok (some bytes)
        else .error (.invalidInput "Invalid sticker name, media type or byte size")

/-- What a node stages for a path: stickers and directories from a private copy. -/
def stagePlan [Presentation] (n : OsName) (kind : FileKind) (entry : Entry) :
    Except NodeError StagePlan := do
  match ← stickerSnapshot n kind entry with
  | some bytes =>
    let name := n.toStr.getD ""
    pure ⟨name, mimeFromName name, .media, .ofBytes bytes⟩
  | none =>
    match entry with
    | .directory archive => do
      let bytes ← archive
      let name ← archiveName n
      pure ⟨name, directoryMime, .file, .ofBytes bytes⟩
    | .file _ source => pure ⟨n.text, mimeFromName n.text, kind, source⟩

/-- The bytes that wrap a manifest in its event, at most. -/
def sealedOverhead : ℕ := (32 + 8 + 16) + 6 + 32 + 13

/-- Whether the manifest must do without hashes to fit a frame. -/
def compactManifestNeeded (env : StageEnv) (prospective : FileManifestV3) : Except NodeError Bool :=
  let fits := fun n => decide (n ≤ maxPlaintext) && env.eventFits n
  if fits ((AnyManifest.v3 prospective).encodedLen + prospective.v2.chunkCount * 32 +
    sealedOverhead)
  then .ok false
  else if fits ((AnyManifest.v4 ⟨prospective⟩).encodedLen + sealedOverhead) then .ok true
  else .error (.invalidInput "file manifest exceeds transport frame")

/-- What has been staged so far: the bytes that were hashed, the hashes of the chunks, and the
payloads of the chunk events. -/
structure Staged where
  whole : List UInt8
  hashes : List (BitVec 256)
  events : List (List UInt8)

section Crypto

variable [Sha256] [FileCipher]

/-- Read, hash, seal and append the first chunks of a file. -/
def stageChunks (env : StageEnv) (compact : Bool) (source : Source) : ℕ → Except NodeError Staged
  | 0 => .ok ⟨[], [], []⟩
  | index + 1 => do
    let staged ← stageChunks env compact source index
    ensure (env.closed index = false) (.file "participant runtime is stopping")
    let plain ← (source.read index).mapError fun e => .file ("read: " ++ e)
    env.append index
    pure ⟨staged.whole ++ plain,
      if compact then staged.hashes else staged.hashes ++ [chunkHash plain],
      staged.events ++ [sealChunkIndexed env.key env.nonce index plain]⟩

/-- The manifest of a file: its size and number of chunks are those it had before it was read. -/
def manifestOf (env : StageEnv) (plan : StagePlan) (checksum : BitVec 256)
    (hashes : List (BitVec 256)) : FileManifestV3 :=
  ⟨⟨plan.name, plan.source.size, plan.mime, checksum, env.key, env.nonce, env.conv, chunkSize,
    chunkCountFor plan.source.size, hashes⟩, plan.kind⟩

def stageRegularFile (env : StageEnv) (plan : StagePlan) :
    Except NodeError (FileManifestV3 × List (List UInt8)) := do
  ensure (plan.source.size ≤ maxFileSize) (.invalidInput "file too large")
  let compact ← compactManifestNeeded env (manifestOf env plan 0 [])
  let staged ← stageChunks env compact plan.source (chunkCountFor plan.source.size)
  pure (manifestOf env plan (Sha256.digest staged.whole) staged.hashes, staged.events)

def stageFile [Presentation] (env : StageEnv) (n : OsName) (kind : FileKind) (entry : Entry) :
    Except NodeError (FileManifestV3 × List (List UInt8)) := do
  let plan ← stagePlan n kind entry
  stageRegularFile env plan

/-! ### Saving -/

/-- The destination, and the file that is written before it is moved there. -/
structure Disk where
  dest : Option (List UInt8)
  part : Option (List UInt8)
deriving DecidableEq

/-- What becomes of each operation on files while a file is saved. -/
structure SaveIo where
  create : Except NodeError Unit
  write : ℕ → Except NodeError Unit
  sync : Except NodeError Unit
  rename : Except NodeError Unit
  syncParent : Except NodeError Unit
  preserve : Except NodeError Unit
  complete : Except NodeError Unit

/-- Every operation goes through. -/
structure SaveIo.Ok (io : SaveIo) : Prop where
  create : io.create = .ok ()
  write : ∀ i, io.write i = .ok ()
  sync : io.sync = .ok ()
  rename : io.rename = .ok ()
  syncParent : io.syncParent = .ok ()
  preserve : io.preserve = .ok ()
  complete : io.complete = .ok ()

/-- Open and write chunk after chunk. -/
def assemble (manifest : AnyManifest) (io : SaveIo) :
    ℕ → List UInt8 → List (List UInt8) → Except NodeError (List UInt8)
  | _, written, [] => .ok written
  | i, written, ciphertext :: rest => do
    let plain ← (openChunkFor manifest i ciphertext).mapError fun e =>
      .file (s!"open chunk {i}: " ++ e.text)
    ensure (written.length + plain.length ≤ manifest.size) (.file "file size mismatch")
    io.write i
    assemble manifest io (i + 1) (written ++ plain) rest

/-- The content of the file that is written from chunks, verified. -/
def assembled (manifest : AnyManifest) (io : SaveIo) (held : List (List UInt8)) :
    Except NodeError (List UInt8) := do
  io.create
  let bytes ← assemble manifest io 0 [] held
  ensure (bytes.length = manifest.size) (.file "file size mismatch")
  io.sync
  ensure (Sha256.digest bytes = manifest.checksum) (.file "whole-file checksum mismatch")
  pure bytes

/-- The content of the file that is written from a media copy, verified. -/
def exported (manifest : AnyManifest) (io : SaveIo) (media : List UInt8) :
    Except NodeError (List UInt8) := do
  io.create
  ensure (Sha256.digest media = manifest.checksum ∧ media.length = manifest.size)
    (.file "media checksum mismatch")
  io.sync
  pure media

/-- Move what was written into place. A file that is not moved is removed. -/
def finalize (io : SaveIo) (disk : Disk) (content : Except NodeError (List UInt8))
    (after : Except NodeError Unit) : Except NodeError Unit × Disk :=
  match content with
  | .error e => (.error e, { disk with part := none })
  | .ok bytes =>
    match io.rename with
    | .error e => (.error e, { disk with part := none })
    | .ok _ => (after, ⟨some bytes, none⟩)

/-- Save a file from the chunks that are held, in their order. With another number of chunks than
the manifest says, a media copy is used if there is one. -/
def saveFile (manifest : AnyManifest) (held : List (List UInt8)) (managed : Option (List UInt8))
    (io : SaveIo) (disk : Disk) : Except NodeError Unit × Disk :=
  if held.length ≠ manifest.chunkCount then
    match managed with
    | some media => finalize io disk (exported manifest io media) io.syncParent
    | none =>
      let n := held.length
      let total := manifest.chunkCount
      (.error (.file s!"file incomplete: {n}/{total} chunks"), disk)
  else
    finalize io disk (assembled manifest io held) (do io.syncParent; io.preserve; io.complete)

/-! ### Staged chunks -/

/-- Chunks sealed by their indexes, from one index on. -/
def sealFrom (key : BitVec 256) (nonce : BitVec 64) : ℕ → List (List UInt8) → List (List UInt8)
  | _, [] => []
  | i, p :: rest => sealChunkIndexed key nonce i p :: sealFrom key nonce (i + 1) rest

variable {key : BitVec 256} {nonce : BitVec 64}

omit [Sha256] in
theorem length_sealFrom (key nonce) : ∀ (i : ℕ) (ps : List (List UInt8)),
    (sealFrom key nonce i ps).length = ps.length
  | _, [] => rfl
  | i, _ :: ps => congrArg (· + 1) (length_sealFrom key nonce (i + 1) ps)

omit [Sha256] in
theorem sealFrom_snoc : ∀ (i : ℕ) (ps : List (List UInt8)) (p : List UInt8),
    sealFrom key nonce i (ps ++ [p]) =
      sealFrom key nonce i ps ++ [sealChunkIndexed key nonce (i + ps.length) p]
  | _, [], _ => rfl
  | i, q :: ps, p => by
    rw [cons_append, sealFrom, sealFrom_snoc (i + 1) ps p, sealFrom, cons_append,
      length_cons, Nat.add_right_comm, Nat.add_assoc]

/-- **Staging.** What is hashed, sealed and appended is what the reads returned, in their order. -/
theorem stageChunks_spec {env compact source} :
    ∀ {n staged}, stageChunks env compact source n = .ok staged →
      staged.whole = (source.chunks n).flatten ∧
      staged.hashes = (if compact then [] else (source.chunks n).map chunkHash) ∧
      staged.events = sealFrom env.key env.nonce 0 (source.chunks n)
  | 0, staged, h => by
    cases h
    refine ⟨rfl, ?_, rfl⟩
    split_ifs <;> rfl
  | n + 1, staged, h => by
    simp only [stageChunks, bind_eq_ok, ensure_eq_ok] at h
    obtain ⟨before, hbefore, _, -, plain, hread, _, -, h⟩ := h
    cases h
    obtain ⟨hwhole, hhashes, hevents⟩ := stageChunks_spec hbefore
    have hplain : source.chunk n = plain := by
      rw [Source.chunk, mapError_eq_ok hread]
      rfl
    refine ⟨?_, ?_, ?_⟩
    · rw [Source.chunks_succ, flatten_append, hwhole, hplain, flatten_singleton]
    · rw [Source.chunks_succ, map_append, hplain, hhashes]
      split_ifs <;> rfl
    · rw [Source.chunks_succ, sealFrom_snoc, Source.length_chunks, Nat.zero_add, hplain, hevents]

structure Stages (env : StageEnv) (plan : StagePlan) (manifest : FileManifestV3)
    (events : List (List UInt8)) : Prop where
  size_le : plan.source.size ≤ maxFileSize
  fits : (outgoingManifest manifest).encodedLen ≤ maxPlaintext
  hashes : manifest.v2.chunkHashes = [] ∨ manifest.v2.chunkHashes = plan.source.taken.map chunkHash
  manifest_eq : manifest = manifestOf env plan (Sha256.digest plan.source.taken.flatten)
    manifest.v2.chunkHashes
  events_eq : events = sealFrom env.key env.nonce 0 plan.source.taken

theorem stageRegularFile_spec {env plan manifest events}
    (h : stageRegularFile env plan = .ok (manifest, events)) : Stages env plan manifest events := by
  simp only [stageRegularFile, bind_eq_ok, ensure_eq_ok] at h
  obtain ⟨_, hsize, compact, hcompact, staged, hstaged, h⟩ := h
  cases h
  obtain ⟨hwhole, hhashes, hevents⟩ := stageChunks_spec hstaged
  have htaken : plan.source.taken ≠ [] := by
    rw [← length_pos_iff, Source.taken, Source.length_chunks, chunkCountFor_eq hsize]
    omega
  unfold compactManifestNeeded at hcompact
  simp only [Bool.and_eq_true, decide_eq_true_eq] at hcompact
  split_ifs at hcompact with hfull hshort
  · cases hcompact
    have hlist : staged.hashes = plan.source.taken.map chunkHash := hhashes
    refine ⟨hsize, ?_, .inr hlist, by rw [hwhole]; rfl, hevents⟩
    have hne : staged.hashes.isEmpty = false := by
      rw [hlist, isEmpty_eq_false_iff]
      simpa using htaken
    have hlen : staged.hashes.length = chunkCountFor plan.source.size := by
      rw [hlist, length_map, Source.taken, Source.length_chunks]
    simp only [outgoingManifest, manifestOf, hne, AnyManifest.encodedLen, FileManifestV2.encodedLen,
      length_nil, hlen, if_false, Bool.false_eq_true] at hfull ⊢
    omega
  · cases hcompact
    have hlist : staged.hashes = [] := hhashes
    refine ⟨hsize, ?_, .inl hlist, by rw [hwhole]; rfl, hevents⟩
    simp only [outgoingManifest, manifestOf, hlist, isEmpty_nil, AnyManifest.encodedLen,
      FileManifestV2.encodedLen, if_true] at hshort ⊢
    omega

/-! ### Opened chunks -/

variable {m : FileManifestV3} {io : SaveIo}

omit [Sha256] in
theorem openChunkIndexed_eq_ok {i c p} :
    openChunkIndexed key nonce i c = .ok p ↔ c = sealChunkIndexed key nonce i p := by
  unfold openChunkIndexed sealChunkIndexed
  constructor
  · intro h
    split_ifs at h
    exact (FileCipher.decrypt_eq_some _ _ _ _).mp (need_eq_ok.mp h)
  · rintro rfl
    rw [if_neg (Nat.not_lt.mpr (FileCipher.tagged _ _ _)), need_eq_ok, FileCipher.decrypt_eq_some]

def ChunkFits (m : FileManifestV3) (i : ℕ) (p : List UInt8) : Prop :=
  if m.v2.chunkHashes.isEmpty then
    i < m.v2.chunkCount ∧ i * m.v2.chunkSize ≤ m.v2.size ∧
      p.length = min (m.v2.size - i * m.v2.chunkSize) m.v2.chunkSize
  else m.v2.chunkHashes[i]? = some (chunkHash p)

/-- **Opening a chunk.** What opens is a chunk the manifest declares, sealed at its index. -/
theorem openChunkFor_eq_ok {i c p} :
    openChunkFor (outgoingManifest m) i c = .ok p ↔
      c = sealChunkIndexed m.v2.fileKey m.v2.fileNonce i p ∧ ChunkFits m i p := by
  unfold outgoingManifest ChunkFits
  split_ifs
  · simp only [openChunkFor, openChunkV4, bind_eq_ok, ensure_eq_ok, openChunkIndexed_eq_ok]
    constructor
    · rintro ⟨_, hi, q, hc, _, hoff, _, hlen, hq⟩
      cases hq
      exact ⟨hc, hi, hoff, hlen⟩
    · rintro ⟨hc, hi, hoff, hlen⟩
      exact ⟨(), hi, p, hc, (), hoff, (), hlen, rfl⟩
  · simp only [openChunkFor, openChunkV2, bind_eq_ok, ensure_eq_ok, need_eq_ok,
      openChunkIndexed_eq_ok]
    constructor
    · rintro ⟨q, hc, x, hx, _, hhash, hq⟩
      cases hq
      exact ⟨hc, hhash ▸ hx⟩
    · rintro ⟨hc, hhash⟩
      exact ⟨p, hc, _, hhash, (), rfl, rfl⟩

def Opens (manifest : AnyManifest) : ℕ → List (List UInt8) → List (List UInt8) → Prop
  | _, [], [] => True
  | i, c :: cs, p :: ps => openChunkFor manifest i c = .ok p ∧ Opens manifest (i + 1) cs ps
  | _, [], _ :: _ => False
  | _, _ :: _, [] => False

theorem opens_iff : ∀ {i held ps}, Opens (outgoingManifest m) i held ps ↔
    held = sealFrom m.v2.fileKey m.v2.fileNonce i ps ∧ ∀ j p, ps[j]? = some p →
      ChunkFits m (i + j) p
  | i, [], [] => by simp [Opens, sealFrom]
  | i, [], p :: ps => by simp [Opens, sealFrom]
  | i, c :: cs, [] => by simp [Opens, sealFrom]
  | i, c :: cs, p :: ps => by
    rw [Opens, openChunkFor_eq_ok, opens_iff, sealFrom, cons.injEq]
    constructor
    · rintro ⟨⟨hc, hfits⟩, hcs, hrest⟩
      refine ⟨⟨hc, hcs⟩, fun j q hq => ?_⟩
      cases j with
      | zero =>
        cases hq
        exact hfits
      | succ j =>
        have := hrest j q hq
        rwa [Nat.add_right_comm] at this
    · rintro ⟨⟨hc, hcs⟩, hall⟩
      refine ⟨⟨hc, hall 0 p rfl⟩, hcs, fun j q hq => ?_⟩
      rw [Nat.add_right_comm]
      exact hall (j + 1) q hq

theorem assemble_eq_ok {manifest} : ∀ {held i written out}, assemble manifest io i written held =
    .ok out → ∃ ps, Opens manifest i held ps ∧ out = written ++ ps.flatten
  | [], i, written, out, h => by
    cases h
    exact ⟨[], trivial, by simp⟩
  | c :: rest, i, written, out, h => by
    simp only [assemble, bind_eq_ok, ensure_eq_ok] at h
    obtain ⟨p, hp, _, -, _, -, h⟩ := h
    obtain ⟨ps, hopens, rfl⟩ := assemble_eq_ok h
    exact ⟨p :: ps, ⟨mapError_eq_ok hp, hopens⟩, by simp⟩

theorem assemble_of_opens {manifest} (hio : io.Ok) : ∀ {held ps i written},
    Opens manifest i held ps → written.length + ps.flatten.length ≤ manifest.size →
        assemble manifest io i written held = .ok (written ++ ps.flatten)
  | [], [], i, written, _, _ => by simp [assemble]
  | [], p :: ps, i, written, h, _ => h.elim
  | c :: cs, [], i, written, h, _ => h.elim
  | c :: cs, p :: ps, i, written, h, hsize => by
    rw [flatten_cons, length_append] at hsize
    have ih : assemble manifest io (i + 1) (written ++ p) cs = .ok (written ++ p ++ ps.flatten) :=
      assemble_of_opens hio h.2 (by rw [length_append]; omega)
    have hfit : written.length + p.length ≤ manifest.size := by omega
    simp only [assemble, h.1, hio.write i, Except.mapError, ok_bind]
    rw [ensure_of _ hfit, ok_bind, ih, flatten_cons, append_assoc]

/-! ### The transfer -/

/-- Nothing else has the hash of these bytes. -/
def OnlyPreimage (p : List UInt8) : Prop := ∀ q, Sha256.digest q = Sha256.digest p → q = p

variable {env : StageEnv} {plan : StagePlan} {events : List (List UInt8)}

omit [Sha256] [FileCipher] in
theorem getElem?_taken {s : Source} {j p} (h : s.taken[j]? = some p) :
    j < chunkCountFor s.size ∧ s.chunk j = p := by
  rw [Source.taken, Source.chunks, List.getElem?_map, Option.map_eq_some_iff] at h
  obtain ⟨i, hi, rfl⟩ := h
  obtain ⟨hlt, rfl⟩ := List.getElem?_eq_some_iff.mp hi
  rw [List.length_range] at hlt
  rw [List.getElem_range]
  exact ⟨hlt, rfl⟩

namespace Stages

section

variable (h : Stages env plan m events)
include h

theorem v2_eq :
    m.v2.fileKey = env.key ∧ m.v2.fileNonce = env.nonce ∧ m.v2.size = plan.source.size ∧
      m.v2.chunkSize = chunkSize ∧ m.v2.chunkCount = chunkCountFor plan.source.size ∧
      m.v2.checksum = Sha256.digest plan.source.taken.flatten := by
  rw [h.manifest_eq]
  exact ⟨rfl, rfl, rfl, rfl, rfl, rfl⟩

theorem taken_fits (hd : plan.source.Declared (m.v2.chunkHashes = []))
    {j p} (hj : plan.source.taken[j]? = some p) : ChunkFits m j p := by
  obtain ⟨-, -, hsize, hchunk, hcount, -⟩ := h.v2_eq
  obtain ⟨hlt, hp⟩ := getElem?_taken hj
  unfold ChunkFits
  split_ifs with hempty
  · have hlen := hd.2 (isEmpty_iff.mp hempty) j hlt
    rw [hsize, hchunk, hcount]
    refine ⟨hlt, ?_, hp ▸ hlen⟩
    rw [chunkCountFor_eq h.size_le] at hlt
    unfold chunkSize at *
    omega
  · rcases h.hashes with hnil | hmap
    · rw [hnil] at hempty
      exact absurd rfl hempty
    · rw [hmap, getElem?_map, hj]
      rfl

/-- Chunks that fit the manifest and have its checksum are those that were read. -/
theorem taken_unique (hd : plan.source.Declared (m.v2.chunkHashes = []))
    (hchunks : ∀ p ∈ plan.source.taken, OnlyPreimage p)
    (hwhole : OnlyPreimage plan.source.taken.flatten) {ps}
    (hlen : ps.length = plan.source.taken.length) (hfits : ∀ j p, ps[j]? = some p → ChunkFits m j p)
    (hsum : Sha256.digest ps.flatten = Sha256.digest plan.source.taken.flatten) :
    ps = plan.source.taken := by
  rcases h.hashes with hnil | hmap
  · -- without hashes, the whole and the lengths decide
    have hlengths : ps.map length = plan.source.taken.map length := by
      refine ext_getElem (by simpa using hlen) fun j hj hj' => ?_
      rw [length_map] at hj hj'
      rw [getElem_map, getElem_map]
      have hp := hfits j _ (getElem?_eq_getElem hj)
      have hq := h.taken_fits hd (getElem?_eq_getElem hj')
      unfold ChunkFits at hp hq
      rw [if_pos (by rw [hnil]; rfl)] at hp hq
      exact hp.2.2.trans hq.2.2.symm
    exact eq_iff_flatten_eq.mpr ⟨hwhole _ hsum, hlengths⟩
  · refine ext_getElem hlen fun j hj hj' => ?_
    have hp := hfits j _ (getElem?_eq_getElem hj)
    unfold ChunkFits at hp
    have hne : m.v2.chunkHashes.isEmpty = false := by
      rw [isEmpty_eq_false_iff, hmap, ← length_pos_iff, length_map]
      omega
    rw [if_neg (by rw [hne]; decide), hmap, getElem?_map, getElem?_eq_getElem hj'] at hp
    exact hchunks _ (getElem_mem hj') _ (Option.some.inj hp).symm

/-- **The receiver accepts the manifest.** -/
theorem validated [Presentation] (hsticker : isStickerName plan.name = true →
      validStickerManifest plan.name plan.mime plan.source.size (plan.kind = .media) = true) :
    validatedManifest (outgoingManifest m) = some (outgoingManifest m) := by
  obtain ⟨-, -, hsize, hchunk, hcount, -⟩ := h.v2_eq
  obtain ⟨hosize, hocount, -, honame, homime, hokind⟩ := outgoingManifest_fields m
  have hname : m.v2.name = plan.name ∧ m.v2.mime = plan.mime ∧ m.kind = plan.kind := by
    rw [h.manifest_eq]
    exact ⟨rfl, rfl, rfl⟩
  have hcount' := chunkCountFor_eq h.size_le
  unfold validatedManifest
  rw [if_neg (Nat.not_lt.mpr h.fits), if_neg, if_neg, if_neg]
  · have hfit : chunksFit m.v2 = true := by
      unfold chunksFit
      rw [hchunk, hcount, hsize, hcount']
      simp [chunkSize]
    unfold outgoingManifest
    split_ifs with hempty
    · simp [formatOk, hfit, hempty]
    · rcases h.hashes with hnil | hmap
      · rw [hnil] at hempty
        exact absurd rfl hempty
      · have hl : m.v2.chunkHashes.length = m.v2.chunkCount := by
          rw [hmap, hcount, length_map, Source.taken, Source.length_chunks]
        simp [formatOk, hfit, hl]
  · rintro ⟨hs, hbad⟩
    rw [honame, hname.1] at hs
    rw [honame, homime, hosize, hokind, hname.1, hname.2.1, hname.2.2, hsize] at hbad
    have := hsticker hs
    simp only [Option.some.injEq] at hbad
    rw [this] at hbad
    cases hbad
  · rintro (hbig | hzero)
    · rw [hosize, hsize] at hbig
      exact absurd h.size_le (Nat.not_le.mpr hbig)
    · rw [hocount, hcount, hcount'] at hzero
      omega

/-- **Whoever holds the chunks can save the file.** -/
theorem saves (hd : plan.source.Declared (m.v2.chunkHashes = [])) (hio : io.Ok)
    (managed : Option (List UInt8)) (disk) :
    saveFile (outgoingManifest m) events managed io disk =
      (.ok (), ⟨some plan.source.taken.flatten, none⟩) := by
  obtain ⟨hkey, hnonce, hsize, -, hcount, hsum⟩ := h.v2_eq
  obtain ⟨hosize, hocount, hosum, -⟩ := outgoingManifest_fields m
  have hopens : Opens (outgoingManifest m) 0 events plan.source.taken := by
    refine opens_iff.mpr ⟨by rw [h.events_eq, hkey, hnonce], fun j p hj => ?_⟩
    rw [Nat.zero_add]
    exact h.taken_fits hd hj
  have hbytes : plan.source.taken.flatten.length = (outgoingManifest m).size := by
    rw [hosize, hsize, hd.1]
  have hall : assemble (outgoingManifest m) io 0 [] events = .ok plan.source.taken.flatten :=
    assemble_of_opens hio hopens (by rw [hbytes]; simp)
  have hlen : events.length = (outgoingManifest m).chunkCount := by
    rw [h.events_eq, length_sealFrom, hocount, hcount, Source.taken, Source.length_chunks]
  have hassembled : assembled (outgoingManifest m) io events = .ok plan.source.taken.flatten := by
    unfold assembled
    rw [hio.create, ok_bind, hall, ok_bind, ensure_of _ hbytes, ok_bind, hio.sync, ok_bind,
      ensure_of _ (by rw [hosum, hsum]), ok_bind]
    rfl
  unfold saveFile finalize
  rw [if_neg (by simpa using hlen), hassembled, hio.rename, hio.syncParent,
    hio.preserve, hio.complete]
  rfl

theorem assembled_only (hd : plan.source.Declared (m.v2.chunkHashes = []))
    (hchunks : ∀ p ∈ plan.source.taken, OnlyPreimage p)
    (hwhole : OnlyPreimage plan.source.taken.flatten) {held bytes}
    (hlen : held.length = (outgoingManifest m).chunkCount)
    (hok : assembled (outgoingManifest m) io held = .ok bytes) : held = events := by
  obtain ⟨hkey, hnonce, -, -, hcount, hsum⟩ := h.v2_eq
  obtain ⟨-, hocount, hosum, -⟩ := outgoingManifest_fields m
  simp only [assembled, bind_eq_ok, ensure_eq_ok] at hok
  obtain ⟨_, -, out, hout, _, -, _, -, _, hdigest, hok⟩ := hok
  cases hok
  obtain ⟨ps, hopens, rfl⟩ := assemble_eq_ok hout
  obtain ⟨hheld, hfits⟩ := opens_iff.mp hopens
  have hpslen : ps.length = plan.source.taken.length := by
    rw [← length_sealFrom m.v2.fileKey m.v2.fileNonce 0 ps, ← hheld, hlen, hocount, hcount,
      Source.taken, Source.length_chunks]
  have hps := h.taken_unique hd hchunks hwhole hpslen
    (fun j p hj => by simpa using hfits j p hj) (by simpa [hosum, hsum] using hdigest)
  rw [hheld, hps, hkey, hnonce, h.events_eq]

end

end Stages

omit [Sha256] [FileCipher] in
/-- What a node stages is a sticker's if its name says so, unless the name was made a sticker's. -/
theorem stagePlan_sticker [Presentation] {n kind entry} (h : stagePlan n kind entry = .ok plan)
    (hname : isStickerName plan.name = true → isStickerName (n.toStr.getD "") = true) :
    isStickerName plan.name = true →
      validStickerManifest plan.name plan.mime plan.source.size (plan.kind = .media) = true := by
  intro hs
  have hsticker := hname hs
  simp only [stagePlan, bind_eq_ok] at h
  obtain ⟨snapshot, hsnap, h⟩ := h
  unfold stickerSnapshot at hsnap
  simp only [hsticker, Bool.true_eq_false, if_false] at hsnap
  split_ifs at hsnap
  split at hsnap
  · cases hsnap
  · split at hsnap
    · cases hsnap
    · split_ifs at hsnap with himage
      cases hsnap
      cases h
      unfold validateImage at himage
      rw [Bool.and_eq_true] at himage
      exact himage.1

/-- **File transfer is exact.** For a file that is read in its declared size, and whose name was not
made a sticker's, the receiver accepts the manifest, and whoever holds the chunks that were staged
can save the file, with the bytes that were sealed. From any other chunks the file is not saved,
except from a media copy of just these bytes if their number is not the declared one. -/
theorem transfer_exact [Presentation] (env : StageEnv) (n : OsName) (kind : FileKind)
    (entry : Entry)
    (hplan : stagePlan n kind entry = .ok plan)
      (hstage : stageFile env n kind entry = .ok (m, events))
    (hd : plan.source.Declared (m.v2.chunkHashes = []))
    (hname : isStickerName plan.name = true → isStickerName (n.toStr.getD "") = true)
    (hchunks : ∀ p ∈ plan.source.taken, OnlyPreimage p)
    (hwhole : OnlyPreimage plan.source.taken.flatten) :
    validatedManifest (outgoingManifest m) = some (outgoingManifest m) ∧
    (∀ managed io disk, io.Ok → saveFile (outgoingManifest m) events managed io disk =
      (.ok (), ⟨some plan.source.taken.flatten, none⟩)) ∧
    ∀ held managed io disk, held ≠ events →
      ((∃ e, (saveFile (outgoingManifest m) held managed io disk).1 = .error e) ∧
        (saveFile (outgoingManifest m) held managed io disk).2.dest = disk.dest) ∨
      (held.length ≠ m.v2.chunkCount ∧ managed = some plan.source.taken.flatten ∧
        (saveFile (outgoingManifest m) held managed io disk).2.dest =
          some plan.source.taken.flatten) := by
  have hstaged : stageRegularFile env plan = .ok (m, events) := by
    rw [stageFile, hplan, ok_bind] at hstage
    exact hstage
  have h := stageRegularFile_spec hstaged
  refine ⟨h.validated (stagePlan_sticker hplan hname), fun managed io disk hio =>
    h.saves hd hio managed disk, fun held managed io disk hne => ?_⟩
  obtain ⟨hosize, hocount, hosum, -⟩ := outgoingManifest_fields m
  unfold saveFile
  split_ifs with hcount
  · cases managed with
    | none => exact .inl ⟨⟨_, rfl⟩, rfl⟩
    | some media =>
      simp only
      cases hcontent : exported (outgoingManifest m) io media with
      | error e => exact .inl ⟨⟨e, rfl⟩, rfl⟩
      | ok bytes =>
        simp only [exported, bind_eq_ok, ensure_eq_ok] at hcontent
        obtain ⟨_, -, _, ⟨hdigest, -⟩, _, -, hbytes⟩ := hcontent
        cases hbytes
        obtain rfl : media = plan.source.taken.flatten :=
          hwhole _ (by rw [hdigest, hosum, h.v2_eq.2.2.2.2.2])
        cases hrename : io.rename with
        | error e => exact .inl ⟨⟨e, by rw [finalize, hrename]⟩, by rw [finalize, hrename]⟩
        | ok _ => exact .inr ⟨hocount ▸ hcount, rfl, by rw [finalize, hrename]⟩
  · push Not at hcount
    cases hcontent : assembled (outgoingManifest m) io held with
    | error e => exact .inl ⟨⟨e, rfl⟩, rfl⟩
    | ok bytes => exact absurd (h.assembled_only hd hchunks hwhole hcount hcontent) hne

end Crypto

/-! ### Samples -/

@[reducible] def sampleCipher : FileCipher where
  encrypt _ _ p := List.replicate 16 0 ++ p
  decrypt _ _ c := if c.take 16 = List.replicate 16 0 then some (c.drop 16) else none
  decrypt_eq_some _ _ c p := by
    constructor
    · intro h
      split_ifs at h with htake
      rw [← Option.some.inj h, ← htake, List.take_append_drop]
    · rintro rfl
      simp
  tagged _ _ p := by
    rw [List.length_append, List.length_replicate]
    exact Nat.le_add_right _ _

/-- A hash that tells three bytes from all others. -/
@[reducible] def sampleHash : Sha256 where
  digest bs := if bs = [1, 2, 3] then 1 else 0

/-- No stickers, and every name is legal. -/
@[reducible] def samplePresentation : Presentation := ⟨fun _ => false, fun _ _ => false, id⟩

def sampleEnv : StageEnv := ⟨7, 8, ⟨9⟩, fun _ => true, fun _ => false, fun _ => .ok ()⟩

def sampleIo : SaveIo := ⟨.ok (), fun _ => .ok (), .ok (), .ok (), .ok (), .ok (), .ok ()⟩

def sampleSource : Source := .ofBytes [1, 2, 3]

/-- The same file, when it had one byte as its size was asked for. -/
def grownSource : Source := { sampleSource with size := 1 }

def sampleName : OsName := ⟨"note.txt", false⟩

def sampleEntry (source : Source) : Entry := .file (.ok []) source

/-- What is staged: the file has three bytes when it is read. -/
def sampleManifest (size : ℕ) : FileManifestV3 :=
  ⟨⟨"note.txt", size, "application/octet-stream", 1, 7, 8, ⟨9⟩, chunkSize, 1, [1]⟩, .file⟩

def sampleEvents : List (List UInt8) := [List.replicate 16 0 ++ [1, 2, 3]]

def samplePlan : StagePlan := ⟨"note.txt", mimeFromName "note.txt", .file, sampleSource⟩

theorem onlyPreimage_sample : letI := sampleHash; OnlyPreimage [1, 2, 3] := by
  intro q hq
  have hq : (if q = [1, 2, 3] then (1 : BitVec 256) else 0) = 1 := hq
  by_contra hne
  rw [if_neg hne] at hq
  exact absurd hq (by decide)

theorem transfer_exact_sample : letI := sampleHash; letI := sampleCipher; letI := samplePresentation
    validatedManifest (outgoingManifest (sampleManifest 3)) =
      some (outgoingManifest (sampleManifest 3)) ∧
    (∀ managed io disk, io.Ok →
      saveFile (outgoingManifest (sampleManifest 3)) sampleEvents managed io disk =
        (.ok (), ⟨some samplePlan.source.taken.flatten, none⟩)) ∧
    ∀ held managed io disk, held ≠ sampleEvents →
      ((∃ e, (saveFile (outgoingManifest (sampleManifest 3)) held managed io disk).1 = .error e) ∧
        (saveFile (outgoingManifest (sampleManifest 3)) held managed io disk).2.dest = disk.dest) ∨
      (held.length ≠ (sampleManifest 3).v2.chunkCount ∧
        managed = some samplePlan.source.taken.flatten ∧
        (saveFile (outgoingManifest (sampleManifest 3)) held managed io disk).2.dest =
          some samplePlan.source.taken.flatten) :=
  let := sampleHash
  let := sampleCipher
  let := samplePresentation
  have htaken : samplePlan.source.taken = [[1, 2, 3]] := by decide +kernel
  transfer_exact sampleEnv sampleName .file (sampleEntry sampleSource) rfl
    (by decide +kernel) ⟨by decide +kernel, nofun⟩ (fun h => h)
    (fun p hp => by
      rw [htaken, List.mem_singleton] at hp
      exact hp ▸ onlyPreimage_sample)
    (by rw [htaken]; exact onlyPreimage_sample)

/-- **A file that grows while it is staged.** It is staged, with a manifest of the size it had
first, and whoever holds its chunks cannot save it. A node that keeps a media copy can save a
file of which it holds no chunk. And the manifest of a file is refused whose name became that of a
sticker as it was read. -/
theorem grown_file_not_saved : letI := sampleHash; letI := sampleCipher; letI := samplePresentation
    stageFile sampleEnv sampleName .file (sampleEntry grownSource) =
      .ok (sampleManifest 1, sampleEvents) ∧
    saveFile (outgoingManifest (sampleManifest 1)) sampleEvents none sampleIo ⟨none, none⟩ =
      (.error (.file "file size mismatch"), ⟨none, none⟩) ∧
    saveFile (outgoingManifest (sampleManifest 3)) [] (some [1, 2, 3]) sampleIo ⟨none, none⟩ =
      (.ok (), ⟨some [1, 2, 3], none⟩) ∧
    (stageFile sampleEnv ⟨"mt-sticker-v1-x", true⟩ .file (sampleEntry sampleSource)).toOption.map
      (fun staged => validatedManifest (outgoingManifest staged.1)) = some none := by
  decide +kernel

end MeshTalk.File
