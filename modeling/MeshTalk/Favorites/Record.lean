import MeshTalk.Channel.Identity
import MeshTalk.Lib.Latest
import MeshTalk.Lib.Outcome
import Mathlib.Data.String.Basic

/-! # Favorites

Messages that an account keeps apart from their conversations (`node/favorites.rs`). Each change of
a favorite is a record of its own: a save starts a generation, an edit and a removal stay in it. A
device holds for every favorite the record that is greatest in the order of generation, removal,
revision and device (`FavoriteRecord.order`).

What a message said is left out of a record that is passed on after the message has expired
(`FavoriteRecord.project`), which changes neither the id nor the order of the record. -/

namespace MeshTalk.Favorites

open Lib Channel

structure FavoriteSource where
  kind : String
  target : String
  messageIds : List String
deriving DecidableEq

structure FavoriteMetadata where
  title : String
  description : String
  notes : Table String String
deriving DecidableEq

structure FavoriteFile where
  fileConv : String
  name : String
  size : ℕ
  mime : String
  media : Bool
deriving DecidableEq

/-- A message as it was when it was saved. -/
structure FavoriteMessage where
  id : String
  who : String
  senderName : String
  text : String
  wallClock : ℕ
  expiresAtMs : Option ℕ
  sticker : Option String
  file : Option FavoriteFile
deriving DecidableEq

structure MessageFavorite where
  id : String
  source : FavoriteSource
  sourceLabel : String
  metadata : FavoriteMetadata
  messages : List FavoriteMessage
  savedAtMs : ℕ
  revision : ℕ
  deviceId : String
deriving DecidableEq

structure FavoriteRecord where
  generation : ℕ
  favorite : MessageFavorite
  removed : Bool
deriving DecidableEq

def maxFavorites : ℕ := 4096
def maxSafeRevision : ℕ := 9007199254740991
def maxFavoriteBytes : ℕ := 256 * 1024
def maxFileSize : ℕ := 4 * 1024 * 1024 * 1024

/-! ### What is a valid record -/

def hexValid (s : String) (len : ℕ) : Bool :=
  s.utf8ByteSize = len && s.toList.all fun c => c.isDigit || 'a' ≤ c && c ≤ 'f'

def zeroId : String := String.ofList (List.replicate 64 '0')

def validPlace (source : FavoriteSource) : Bool :=
  source.kind = "account" && hexValid source.target 32 ||
    source.kind = "channel" && hexValid source.target 64

def validSource (source : FavoriteSource) : Bool :=
  validPlace source && !source.messageIds.isEmpty && source.messageIds.length ≤ 100 &&
    (source.messageIds.all fun id => hexValid id 64 && id ≠ zeroId) &&
    source.messageIds.dedup.length = source.messageIds.length

def validMetadata (metadata : FavoriteMetadata) (source : FavoriteSource) : Bool :=
  metadata.title.length ≤ 200 && metadata.description.length ≤ 4000 &&
    metadata.notes.rows.length ≤ source.messageIds.length &&
    metadata.notes.rows.all fun note => source.messageIds.contains note.1 && note.2.length ≤ 1000

def textSize (s : String) : ℕ := 8 + s.utf8ByteSize

def FavoriteSource.serializedSize (s : FavoriteSource) : ℕ :=
  textSize s.kind + textSize s.target + (8 + (s.messageIds.map textSize).sum)

def FavoriteMetadata.serializedSize (m : FavoriteMetadata) : ℕ :=
  textSize m.title + textSize m.description +
    (8 + (m.notes.rows.map fun note => textSize note.1 + textSize note.2).sum)

def FavoriteFile.serializedSize (f : FavoriteFile) : ℕ :=
  textSize f.fileConv + textSize f.name + 8 + textSize f.mime + 1

def FavoriteMessage.serializedSize (m : FavoriteMessage) : ℕ :=
  textSize m.id + textSize m.who + textSize m.senderName + textSize m.text + 8 +
    (1 + m.expiresAtMs.elim 0 fun _ => 8) + (1 + m.sticker.elim 0 textSize) +
    (1 + m.file.elim 0 FavoriteFile.serializedSize)

def MessageFavorite.serializedSize (f : MessageFavorite) : ℕ :=
  textSize f.id + f.source.serializedSize + textSize f.sourceLabel + f.metadata.serializedSize +
    (8 + (f.messages.map FavoriteMessage.serializedSize).sum) + 8 + 8 + textSize f.deviceId

namespace FavoriteRecord

def serializedSize (r : FavoriteRecord) : ℕ := 8 + r.favorite.serializedSize + 1

def id (r : FavoriteRecord) : String := r.favorite.id

def validMessage (m : FavoriteMessage) (id : String) : Bool :=
  m.id = id && m.who.utf8ByteSize ≤ 128 && m.senderName.utf8ByteSize ≤ 1024 &&
    (m.sticker.all fun s => s.utf8ByteSize ≤ 128) &&
    m.file.all fun file =>
      hexValid file.fileConv 64 && file.name.utf8ByteSize ≤ 4096 && file.mime.utf8ByteSize ≤ 256 &&
        file.size ≤ maxFileSize

def valid (r : FavoriteRecord) : Bool :=
  0 < r.generation && r.generation ≤ maxSafeRevision && hexValid r.favorite.id 64 &&
    hexValid r.favorite.deviceId 32 && 0 < r.favorite.revision &&
    r.favorite.revision ≤ maxSafeRevision && validSource r.favorite.source &&
    validMetadata r.favorite.metadata r.favorite.source &&
    r.favorite.sourceLabel.utf8ByteSize ≤ 1024 &&
    r.favorite.messages.length = r.favorite.source.messageIds.length &&
    ((r.favorite.messages.zip r.favorite.source.messageIds).all fun p => validMessage p.1 p.2) &&
    r.serializedSize ≤ maxFavoriteBytes

def order (r : FavoriteRecord) : ℕ ×ₗ Bool ×ₗ ℕ ×ₗ String :=
  toLex (r.generation, toLex (r.removed, toLex (r.favorite.revision, r.favorite.deviceId)))

end FavoriteRecord

def FavoriteMessage.project (now : ℕ) (m : FavoriteMessage) : FavoriteMessage :=
  if m.expiresAtMs.any (· ≤ now) then { m with text := "", file := none, sticker := none } else m

def project (favorite : MessageFavorite) (now : ℕ) : MessageFavorite :=
  { favorite with messages := favorite.messages.map (·.project now) }

def FavoriteRecord.project (r : FavoriteRecord) (now : ℕ) : FavoriteRecord :=
  { r with favorite := Favorites.project r.favorite now }

theorem FavoriteMessage.project_project {s t} (h : s ≤ t) (m : FavoriteMessage) :
    (m.project s).project t = m.project t := by
  unfold FavoriteMessage.project
  by_cases hs : m.expiresAtMs.any (· ≤ s) = true
  · have ht : m.expiresAtMs.any (· ≤ t) = true := by
      obtain ⟨e, he, hle⟩ := (Option.any_eq_true _ _).mp hs
      exact (Option.any_eq_true _ _).mpr ⟨e, he, decide_eq_true ((of_decide_eq_true hle).trans h)⟩
    rw [if_pos hs, if_pos ht, if_pos ht]
  · rw [if_neg hs]

theorem FavoriteRecord.project_project {s t} (h : s ≤ t) (r : FavoriteRecord) :
    (r.project s).project t = r.project t := by
  have hm : (r.favorite.messages.map (·.project s)).map (·.project t) =
      r.favorite.messages.map (·.project t) := by
    rw [List.map_map]
    exact List.map_congr_left fun m _ => m.project_project h
  unfold FavoriteRecord.project Favorites.project
  rw [hm]

end MeshTalk.Favorites
