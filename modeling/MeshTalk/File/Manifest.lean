import MeshTalk.Channel.Identity
import MeshTalk.Lib.Outcome

/-! # Files and their manifests

How a file is cut into chunks and sealed (`file/crypto.rs`), what its manifest says of it
(`file/manifest.rs`), and the validation of a manifest that is received (`node/files.rs`). The
envelopes of protected images and of expiring messages are left out, and a manifest stands for its
bytes, of which only the length matters.

The cipher is the parameter `FileCipher`: what opens is just what was sealed. -/

namespace MeshTalk.File

open Lib Channel

def chunkSize : ℕ := 48 * 1024

/-- The bytes an authenticated ciphertext is longer by, at least. -/
def tagSize : ℕ := 16

def nonceSize : ℕ := 12

def maxFileSize : ℕ := 4 * 1024 * 1024 * 1024

def maxPlaintext : ℕ := 65535 - 16

/-- AES-256-GCM, as an ideal cipher: a ciphertext opens under a key and a nonce exactly if it was
sealed under them. -/
class FileCipher where
  encrypt : BitVec 256 → BitVec 96 → List UInt8 → List UInt8
  decrypt : BitVec 256 → BitVec 96 → List UInt8 → Option (List UInt8)
  decrypt_eq_some : ∀ k n c p, decrypt k n c = some p ↔ c = encrypt k n p
  tagged : ∀ k n p, tagSize ≤ (encrypt k n p).length

/-! ### Chunks -/

inductive FileError where
  | encrypt
  | decrypt
  | malformed (text : String)
  | checksumMismatch
  | chunkHashMismatch (index : ℕ)
deriving DecidableEq

def FileError.text : FileError → String
  | encrypt => "file chunk encrypt error"
  | decrypt => "file chunk decrypt error"
  | malformed m => "malformed file chunk: " ++ m
  | checksumMismatch => "file checksum mismatch after reassembly"
  | chunkHashMismatch i => s!"chunk {i} failed its per-chunk hash"

def chunkHash [Sha256] (plaintext : List UInt8) : BitVec 256 := Sha256.digest plaintext

def chunkNonce (fileNonce : BitVec 64) (index : ℕ) : BitVec 96 := fileNonce ++ BitVec.ofNat 32 index

def chunkCountFor (size : ℕ) : ℕ :=
  if size = 0 then 1 else (size + chunkSize - 1) / chunkSize % 2 ^ 32

theorem chunkCountFor_eq {size} (h : size ≤ maxFileSize) :
    chunkCountFor size = max ((size + chunkSize - 1) / chunkSize) 1 := by
  unfold chunkCountFor maxFileSize chunkSize at *
  split_ifs with h0
  · subst h0
    rfl
  · omega

def sealChunkIndexed [FileCipher] (key : BitVec 256) (fileNonce : BitVec 64) (index : ℕ)
    (plaintext : List UInt8) : List UInt8 :=
  FileCipher.encrypt key (chunkNonce fileNonce index) plaintext

def openChunkIndexed [FileCipher] (key : BitVec 256) (fileNonce : BitVec 64) (index : ℕ)
    (ciphertext : List UInt8) : Except FileError (List UInt8) :=
  if ciphertext.length < tagSize then .error (.malformed "chunk too short (need tag)")
  else need (FileCipher.decrypt key (chunkNonce fileNonce index) ciphertext) .decrypt

def openChunk [FileCipher] (key : BitVec 256) (envelope : List UInt8) :
    Except FileError (List UInt8) :=
  if envelope.length < nonceSize + tagSize then
    .error (.malformed "chunk too short (need nonce + tag)")
  else
    need (FileCipher.decrypt key (BitVec.ofNat 96 (ofBe (envelope.take nonceSize)))
      (envelope.drop nonceSize)) .decrypt

/-! ### Manifests -/

/-- The first format: chunks carry their nonces. -/
structure FileManifest where
  name : String
  size : ℕ
  mime : String
  checksum : BitVec 256
  fileKey : BitVec 256
  fileConv : ConversationId
  chunkCount : ℕ
deriving DecidableEq

/-- The second format: chunks of one size, each with its hash. -/
structure FileManifestV2 where
  name : String
  size : ℕ
  mime : String
  checksum : BitVec 256
  fileKey : BitVec 256
  fileNonce : BitVec 64
  fileConv : ConversationId
  chunkSize : ℕ
  chunkCount : ℕ
  chunkHashes : List (BitVec 256)
deriving DecidableEq

inductive FileKind where
  | media
  | file
deriving DecidableEq

/-- The third format: the second, with the sender's intent. -/
structure FileManifestV3 where
  v2 : FileManifestV2
  kind : FileKind
deriving DecidableEq

/-- The fourth format: the third, without the hashes. -/
structure FileManifestV4 where
  v3 : FileManifestV3
deriving DecidableEq

inductive AnyManifest where
  | v1 (m : FileManifest)
  | v2 (m : FileManifestV2)
  | v3 (m : FileManifestV3)
  | v4 (m : FileManifestV4)
deriving DecidableEq

namespace AnyManifest

def name : AnyManifest → String
  | v1 m => m.name
  | v2 m => m.name
  | v3 m => m.v2.name
  | v4 m => m.v3.v2.name

def size : AnyManifest → ℕ
  | v1 m => m.size
  | v2 m => m.size
  | v3 m => m.v2.size
  | v4 m => m.v3.v2.size

def mime : AnyManifest → String
  | v1 m => m.mime
  | v2 m => m.mime
  | v3 m => m.v2.mime
  | v4 m => m.v3.v2.mime

def chunkCount : AnyManifest → ℕ
  | v1 m => m.chunkCount
  | v2 m => m.chunkCount
  | v3 m => m.v2.chunkCount
  | v4 m => m.v3.v2.chunkCount

def checksum : AnyManifest → BitVec 256
  | v1 m => m.checksum
  | v2 m => m.checksum
  | v3 m => m.v2.checksum
  | v4 m => m.v3.v2.checksum

/-- The sender's intent, if the format carries it. -/
def kind : AnyManifest → Option FileKind
  | v1 _ | v2 _ => none
  | v3 m => some m.kind
  | v4 m => some m.v3.kind

end AnyManifest

/-- The encoded length of the second format, with its frame: texts and lists carry their length in
eight bytes. -/
def FileManifestV2.encodedLen (m : FileManifestV2) : ℕ :=
  4 + (8 + m.name.utf8ByteSize) + 8 + (8 + m.mime.utf8ByteSize) + 32 + 32 + 8 + 32 + 4 + 4 +
    (8 + 32 * m.chunkHashes.length)

def AnyManifest.encodedLen : AnyManifest → ℕ
  | v1 m => (8 + m.name.utf8ByteSize) + 8 + (8 + m.mime.utf8ByteSize) + 32 + 32 + 32 + 4
  | v2 m => m.encodedLen
  | v3 m => m.v2.encodedLen + 4
  | v4 m => m.v3.v2.encodedLen + 4

/-! ### Opening chunks -/

section Crypto

variable [Sha256] [FileCipher]

def openChunkV2 (m : FileManifestV2) (index : ℕ) (ciphertext : List UInt8) :
    Except FileError (List UInt8) := do
  let plaintext ← openChunkIndexed m.fileKey m.fileNonce index ciphertext
  let expected ← need m.chunkHashes[index]? (.chunkHashMismatch index)
  ensure (chunkHash plaintext = expected) (.chunkHashMismatch index)
  pure plaintext

def openChunkV4 (m : FileManifestV2) (index : ℕ) (ciphertext : List UInt8) :
    Except FileError (List UInt8) := do
  ensure (index < m.chunkCount) (.malformed "chunk index exceeds manifest")
  let plaintext ← openChunkIndexed m.fileKey m.fileNonce index ciphertext
  ensure (index * m.chunkSize ≤ m.size) (.malformed "chunk index exceeds file size")
  ensure (plaintext.length = min (m.size - index * m.chunkSize) m.chunkSize)
    (.malformed "chunk length differs from manifest")
  pure plaintext

def openChunkFor (manifest : AnyManifest) (index : ℕ) (ciphertext : List UInt8) :
    Except FileError (List UInt8) :=
  match manifest with
  | .v1 m => openChunk m.fileKey ciphertext
  | .v2 m => openChunkV2 m index ciphertext
  | .v3 m => openChunkV2 m.v2 index ciphertext
  | .v4 m => openChunkV4 m.v3.v2 index ciphertext

end Crypto

/-! ### Stickers -/

def maxStickerBytes : ℕ := 3 * 1024 * 1024

/-- The reading of the name and of the image of a sticker, and the legalization of names. -/
class Presentation where
  fromName : String → Bool
  rasterOk : String → List UInt8 → Bool
  sanitizeFilename : String → String

def isStickerName (name : String) : Bool :=
  "mt-sticker-v1-".toList.isPrefixOf name.toList || "mt-sticker-v2-".toList.isPrefixOf name.toList

def extension (name : String) : Option String :=
  if '.' ∈ name.toList then
    some (String.ofList (name.toList.reverse.takeWhile (· ≠ '.')).reverse)
  else none

def expectedFormat (name : String) : Option String :=
  match extension name with
  | some "png" => some "image/png"
  | some "jpg" => some "image/jpeg"
  | some "webp" => some "image/webp"
  | some "gif" => some "image/gif"
  | _ => none

def mimeFromName (name : String) : String :=
  match ((extension name).getD name).toLower with
  | "png" => "image/png"
  | "jpg" | "jpeg" => "image/jpeg"
  | "gif" => "image/gif"
  | "webp" => "image/webp"
  | "bmp" => "image/bmp"
  | "avif" => "image/avif"
  | "svg" => "image/svg+xml"
  | "heic" => "image/heic"
  | "heif" => "image/heif"
  | "mp4" => "video/mp4"
  | "mov" => "video/quicktime"
  | "webm" => "video/webm"
  | "m4v" => "video/x-m4v"
  | "ogv" => "video/ogg"
  | _ => "application/octet-stream"

def validStickerManifest [Presentation] (name mime : String) (size : ℕ) (media : Bool) : Bool :=
  media && 0 < size && size ≤ maxStickerBytes && Presentation.fromName name &&
    (expectedFormat name).any (· = mime)

def validateImage [Presentation] (name mime : String) (bytes : List UInt8) : Bool :=
  validStickerManifest name mime bytes.length true && Presentation.rasterOk name bytes

/-! ### Validation -/

def chunksFit (m : FileManifestV2) : Bool :=
  m.chunkSize ≠ 0 && m.chunkSize ≤ chunkSize &&
    m.chunkCount = max ((m.size + m.chunkSize - 1) / m.chunkSize) 1

def formatOk : AnyManifest → Bool
  | .v1 m => m.chunkCount = chunkCountFor m.size
  | .v2 m => chunksFit m && m.chunkHashes.length = m.chunkCount
  | .v3 m => chunksFit m.v2 && m.v2.chunkHashes.length = m.v2.chunkCount
  | .v4 m => chunksFit m.v3.v2 && m.v3.v2.chunkHashes.isEmpty

def validatedManifest [Presentation] (m : AnyManifest) : Option AnyManifest :=
  if maxPlaintext < m.encodedLen then none
  else if maxFileSize < m.size ∨ m.chunkCount = 0 then none
  else if isStickerName m.name = true ∧
      validStickerManifest m.name m.mime m.size (m.kind = some .media) = false then none
  else if formatOk m = false then none
  else some m

/-- The manifest that is sent: without hashes if there are none. -/
def outgoingManifest (m : FileManifestV3) : AnyManifest :=
  if m.v2.chunkHashes.isEmpty then .v4 ⟨m⟩ else .v3 m

theorem outgoingManifest_fields (m) : (outgoingManifest m).size = m.v2.size ∧
    (outgoingManifest m).chunkCount = m.v2.chunkCount ∧
    (outgoingManifest m).checksum = m.v2.checksum ∧ (outgoingManifest m).name = m.v2.name ∧
    (outgoingManifest m).mime = m.v2.mime ∧ (outgoingManifest m).kind = some m.kind := by
  unfold outgoingManifest
  split_ifs <;> exact ⟨rfl, rfl, rfl, rfl, rfl, rfl⟩

end MeshTalk.File
