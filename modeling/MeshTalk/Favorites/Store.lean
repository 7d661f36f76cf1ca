import MeshTalk.Favorites.Record

/-! # The favorites of a device

The store of a device (`node/favorites.rs`) and what the account does with its favorites there
(`node/favorites/collection.rs`). What the rest of the node has to say, the history that a save is
taken from and the outcome of its file operations, is given to the operations. -/

namespace MeshTalk.Favorites

open Lib Channel

inductive FavoriteError where
  | invalidInput (message : String)
  | log (error : LogError)
  | other
deriving DecidableEq

/-- The records in force and the journal they are read from. -/
structure FavoriteStore where
  journal : List FavoriteRecord
  current : Table String FavoriteRecord

namespace FavoriteStore

def validate (current : Table String FavoriteRecord) (r : FavoriteRecord) : Except LogError Unit :=
  if !r.valid || !current.has r.id && maxFavorites ≤ current.rows.length then
    .error (.corruptFile "invalid or excessive favorites")
  else .ok ()

def replay (current : Table String FavoriteRecord) (r : FavoriteRecord) :
    Except LogError (Table String FavoriteRecord) := do
  validate current r
  if (current.get r.id).all fun old => old.order < r.order then pure (current.set r.id r)
  else pure current

def openFrom (records : List FavoriteRecord) : Except LogError FavoriteStore := do
  let current ← records.foldlM replay ∅
  pure ⟨records, current⟩

/-- Take a record over if it wins, and say so. -/
def merge (s : FavoriteStore) (r : FavoriteRecord) : Except LogError (FavoriteStore × Bool) := do
  validate s.current r
  if (s.current.get r.id).any fun old => r.order ≤ old.order then pure (s, false)
  else pure (⟨s.journal ++ [r], s.current.set r.id r⟩, true)

/-- A number as eight bytes, the most significant first. -/
def digestBytes (id : String) (r : FavoriteRecord) : List UInt8 :=
  textBytes id ++ beBytes 8 r.generation ++ [if r.removed then 1 else 0] ++
    beBytes 8 r.favorite.revision ++ textBytes r.favorite.deviceId

def digest [Sha256] (s : FavoriteStore) : BitVec 256 :=
  Sha256.digest (textBytes "mesh-talk-favorites-v1" ++
    s.current.byKey.flatMap fun row => digestBytes row.1 row.2)

/-- A revision after all that are in force. A sum that does not fit is above the limit as well. -/
def nextRevision (s : FavoriteStore) (now : ℕ) : Except FavoriteError ℕ :=
  let r := max ((s.current.values.map (·.favorite.revision)).foldl max 0 + 1) now
  if r ≤ maxSafeRevision then .ok r else .error (.invalidInput "favorite revision exhausted")

/-! ### The invariant of a store -/

structure Sound (received : List FavoriteRecord) (s : FavoriteStore) : Prop where
  latest : s.current.Latest FavoriteRecord.id FavoriteRecord.order (· ∈ received)
  reopens : openFrom s.journal = .ok s

theorem sound_new : Sound [] ⟨[], ∅⟩ :=
  ⟨Table.latest_empty.congr fun _ => by simp, rfl⟩

variable {r : FavoriteRecord} {s : FavoriteStore} {t : Table String FavoriteRecord}

theorem openFrom_append {records} (h : openFrom records = .ok s) (ht : replay s.current r = .ok t) :
    openFrom (records ++ [r]) = .ok ⟨records ++ [r], t⟩ := by
  unfold openFrom at h ⊢
  obtain ⟨current, hc, hs⟩ := bind_eq_ok.mp h
  cases hs
  rw [List.foldlM_append, hc, ok_bind, List.foldlM_cons, ht]
  rfl

variable {s' : FavoriteStore}

/-- **A merge** leaves the store when the record does not win, and journals it and puts it in force
when it does. -/
theorem merge_spec {won} (h : s.merge r = .ok (s', won)) :
    (s' = s ∧ ∃ old, s.current.get r.id = some old ∧ r.order ≤ old.order) ∨
      (s' = ⟨s.journal ++ [r], s.current.set r.id r⟩ ∧ validate s.current r = .ok () ∧
        ∀ old, s.current.get r.id = some old → old.order < r.order) := by
  obtain ⟨_, hv, h⟩ := bind_eq_ok.mp h
  split at h
  · next hany =>
    obtain ⟨old, hold, hle⟩ := (Option.any_eq_true _ _).mp hany
    cases h
    exact .inl ⟨rfl, old, hold, of_decide_eq_true hle⟩
  · next hany =>
    cases h
    refine .inr ⟨rfl, hv, fun old hold => ?_⟩
    rw [hold, Option.any_some, decide_eq_true_eq] at hany
    exact lt_of_not_ge hany

theorem replay_of_lt (hv : validate t r = .ok ())
    (hlt : ∀ old, t.get r.id = some old → old.order < r.order) :
    replay t r = .ok (t.set r.id r) := by
  have hall : ((t.get r.id).all fun old => old.order < r.order) = true := by
    cases hget : t.get r.id with
    | none => rfl
    | some old => exact decide_eq_true (hlt old hget)
  unfold replay
  rw [hv, ok_bind, if_pos hall]
  rfl

theorem Sound.merge {received won} (h : Sound received s) (hm : s.merge r = .ok (s', won)) :
    Sound (received ++ [r]) s' := by
  have hmem (x : FavoriteRecord) : x ∈ received ∨ x = r ↔ x ∈ received ++ [r] := by simp
  rcases merge_spec hm with ⟨rfl, old, hold, hle⟩ | ⟨rfl, hv, hlt⟩
  · exact ⟨(h.latest.of_le hold hle).congr hmem, h.reopens⟩
  · exact ⟨(h.latest.set hlt).congr hmem, openFrom_append h.reopens (replay_of_lt hv hlt)⟩

theorem le_foldl_max {l : List ℕ} : ∀ {m n}, n ≤ m ∨ n ∈ l → n ≤ l.foldl max m := by
  induction l with
  | nil =>
    intro m n h
    simpa using h
  | cons a l ih =>
    intro m n h
    rw [List.foldl_cons]
    apply ih
    rcases h with h | h
    · exact .inl (le_max_of_le_left h)
    · rcases List.mem_cons.mp h with rfl | h
      · exact .inl (le_max_right m n)
      · exact .inr h

theorem lt_nextRevision {now n : ℕ} (h : s.nextRevision now = .ok n) {id}
    (hr : s.current.get id = some r) : r.favorite.revision < n := by
  unfold nextRevision at h
  dsimp only at h
  split at h
  · cases h
    have hle : r.favorite.revision ≤ (s.current.values.map (·.favorite.revision)).foldl max 0 :=
      le_foldl_max (.inr (List.mem_map_of_mem (Table.mem_values.mpr ⟨id, Table.get_eq_some.mp hr⟩)))
    omega
  · cases h

end FavoriteStore

/-! ### What the account does -/

/-- What a save finds in the history. -/
structure Capture where
  source : FavoriteSource
  sourceLabel : String
  messages : List FavoriteMessage
  savedAtMs : ℕ
deriving DecidableEq

def serializeText (s : String) : List UInt8 := leBytes 8 s.utf8ByteSize ++ textBytes s

def serializeSource (source : FavoriteSource) : List UInt8 :=
  serializeText source.kind ++ serializeText source.target ++
    (leBytes 8 source.messageIds.length ++ source.messageIds.flatMap serializeText)

def canonicalId [Sha256] (account : String) (source : FavoriteSource) : String :=
  hexEncode (keyBytes (Sha256.digest (textBytes "mesh-talk-favorite-v1" ++ textBytes account ++
    serializeSource source)))

def captureFavorite [Sha256] (account own : String) (metadata : FavoriteMetadata) (c : Capture) :
    MessageFavorite where
  id := canonicalId account c.source
  source := c.source
  sourceLabel := c.sourceLabel
  metadata := metadata
  messages := c.messages
  savedAtMs := c.savedAtMs
  revision := 1
  deviceId := own

/-- What the rest of the node has to say to a save: which favorites have protected content, the
records in force when they were looked through for the same messages, the history at the beginning
and after the files were copied, how the copying went, and the clocks. -/
structure SaveIo where
  hidden : MessageFavorite → Bool
  inspected : Table String FavoriteRecord
  first : Except FavoriteError Capture
  copied : Except FavoriteError Unit
  second : Except FavoriteError Capture
  now : ℕ
  expiryNow : ℕ

def existing (source : FavoriteSource) (io : SaveIo) : Option MessageFavorite :=
  let found := io.inspected.byKey.filter fun row =>
    !row.2.removed && row.2.favorite.source.kind = source.kind &&
      row.2.favorite.source.target = source.target && !io.hidden row.2.favorite &&
      row.2.favorite.source.messageIds.toFinset = source.messageIds.toFinset
  found.getLast?.map fun row => project row.2.favorite io.expiryNow

def nextGeneration (s : FavoriteStore) (id : String) : Except FavoriteError ℕ :=
  match s.current.get id with
  | none => .ok 1
  | some old =>
    if old.generation + 1 ≤ maxSafeRevision then .ok (old.generation + 1)
    else .error (.invalidInput "favorite generation exhausted")

def saveRecord (s : FavoriteStore) (favorite : MessageFavorite) (io : SaveIo) :
    Except FavoriteError FavoriteRecord := do
  let revision ← s.nextRevision io.now
  let generation ← nextGeneration s favorite.id
  let record : FavoriteRecord := ⟨generation, { favorite with revision := revision }, false⟩
  (FavoriteStore.validate s.current record).mapError .log
  io.copied
  let current ← io.second
  ensure (current.source = favorite.source ∧ current.messages = favorite.messages)
    (.invalidInput "selected messages changed while saving")
  ensure ((favorite.messages.any fun m => m.expiresAtMs.any (· ≤ io.expiryNow)) = false)
    (.invalidInput "selected message expired")
  pure record

def saveMessageFavorite [Sha256] (account own : String) (s : FavoriteStore)
    (source : FavoriteSource)
    (metadata : FavoriteMetadata) (io : SaveIo) :
      Except FavoriteError (FavoriteStore × MessageFavorite) := do
  ensure (validSource source && validMetadata metadata source)
    (.invalidInput "invalid favorite source or metadata")
  match existing source io with
  | some favorite => pure (s, favorite)
  | none =>
    let c ← io.first
    let favorite := captureFavorite account own metadata c
    match (s.current.get favorite.id).filter fun r => !r.removed with
    | some r => pure (s, project r.favorite io.expiryNow)
    | none =>
      let record ← saveRecord s favorite io
      let merged ← (s.merge record).mapError .log
      pure (merged.1, record.favorite)

def changed (s : FavoriteStore) (id : String) : Except FavoriteError FavoriteRecord :=
  need ((s.current.get id).filter fun r => !r.removed) (.invalidInput "favorite unavailable")

/-- A change is made to the favorite as it was seen. -/
def unmodified (r : FavoriteRecord) (expectedRevision : ℕ) (expectedDevice : String) :
    Except FavoriteError Unit :=
  ensure (r.favorite.revision = expectedRevision ∧ r.favorite.deviceId = expectedDevice)
    (.invalidInput "favorite was modified; refresh and retry")

def editMessageFavorite (own : String) (s : FavoriteStore) (id : String) (expectedRevision : ℕ)
    (expectedDevice : String) (metadata : FavoriteMetadata) (hidden : MessageFavorite → Bool)
    (now expiryNow : ℕ) : Except FavoriteError (FavoriteStore × MessageFavorite) := do
  let old ← changed s id
  ensure (hidden old.favorite = false)
    (.invalidInput "Protected messages cannot be saved to Favorites")
  unmodified old expectedRevision expectedDevice
  ensure (validMetadata metadata old.favorite.source) (.invalidInput "invalid favorite metadata")
  let revision ← s.nextRevision now
  let record : FavoriteRecord :=
    { old with
      favorite := { old.favorite with
        metadata := metadata, revision := revision, deviceId := own } }
  let merged ← (s.merge record).mapError .log
  pure (merged.1, project record.favorite expiryNow)

/-- Remove a favorite. The store has changed even if the files of the favorite cannot be removed
then. -/
def removeMessageFavorite (own : String) (s : FavoriteStore) (id : String) (expectedRevision : ℕ)
    (expectedDevice : String) (now : ℕ) : Except FavoriteError FavoriteStore := do
  let old ← changed s id
  unmodified old expectedRevision expectedDevice
  let revision ← s.nextRevision now
  let record : FavoriteRecord :=
    { old with
      removed := true
      favorite := { old.favorite with revision := revision, deviceId := own } }
  let merged ← (s.merge record).mapError .log
  pure merged.1

/-! ### What they write -/

structure Writes (own : String) (s s' : FavoriteStore) (r : FavoriteRecord) : Prop where
  device : r.favorite.deviceId = own
  above : ∀ old, s.current.get r.id = some old → old.order < r.order
  merged : ∃ won, s.merge r = .ok (s', won)

variable {x y : FavoriteRecord}

theorem order_lt_of_generation (h : x.generation < y.generation) :
    x.order < y.order := Prod.Lex.toLex_lt_toLex.mpr (.inl h)

theorem order_lt_of_removed (hg : x.generation = y.generation)
    (hx : x.removed = false) (hy : y.removed = true) : x.order < y.order :=
  Prod.Lex.toLex_lt_toLex.mpr (.inr ⟨hg, Prod.Lex.toLex_lt_toLex.mpr (.inl (by
    change x.removed < y.removed
    rw [hx, hy]
    decide))⟩)

theorem order_lt_of_revision (hg : x.generation = y.generation)
    (hr : x.removed = y.removed) (hv : x.favorite.revision < y.favorite.revision) :
      x.order < y.order :=
  Prod.Lex.toLex_lt_toLex.mpr (.inr ⟨hg, Prod.Lex.toLex_lt_toLex.mpr (.inr ⟨hr,
    Prod.Lex.toLex_lt_toLex.mpr (.inl hv)⟩)⟩)

theorem order_le_iff : x.order ≤ y.order ↔ x.generation < y.generation ∨
    x.generation = y.generation ∧ (x.removed < y.removed ∨ x.removed = y.removed ∧
      (x.favorite.revision < y.favorite.revision ∨ x.favorite.revision = y.favorite.revision ∧
        x.favorite.deviceId ≤ y.favorite.deviceId)) := by
  unfold FavoriteRecord.order
  rw [Prod.Lex.toLex_le_toLex, Prod.Lex.toLex_le_toLex, Prod.Lex.toLex_le_toLex]

theorem filter_live {o : Option FavoriteRecord} :
    (o.filter fun r => !r.removed) = none ↔ ∀ r, o = some r → r.removed = true := by
  cases o with
  | none => simp
  | some r => simp [Option.filter_some]

variable {id : String}

theorem changed_spec {s r} (h : changed s id = .ok r) :
    s.current.get id = some r ∧ r.removed = false := by
  have hr := need_eq_ok.mp h
  rw [Option.filter_eq_some_iff] at hr
  exact ⟨hr.1, by simpa using hr.2⟩

variable {s s' : FavoriteStore} {own : String} {metadata : FavoriteMetadata}
  {favorite : MessageFavorite}

/-- **A save** leaves the store or starts a generation after the one in force, which is a
removal. -/
theorem save_spec [Sha256] {account source} {io : SaveIo}
    (h : saveMessageFavorite account own s source metadata io = .ok (s', favorite)) :
    s' = s ∨ ∃ r, Writes own s s' r ∧ r.removed = false ∧
      ∀ old, s.current.get r.id = some old → old.removed = true ∧
        r.generation = old.generation + 1 := by
  obtain ⟨_, -, h⟩ := bind_eq_ok.mp h
  split at h
  · cases h
    exact .inl rfl
  · obtain ⟨c, -, h⟩ := bind_eq_ok.mp h
    dsimp only at h
    split at h
    · cases h
      exact .inl rfl
    · next hlive =>
      obtain ⟨record, hr, h⟩ := bind_eq_ok.mp h
      obtain ⟨merged, hm, h⟩ := bind_eq_ok.mp h
      cases h
      obtain ⟨revision, -, hr⟩ := bind_eq_ok.mp hr
      obtain ⟨generation, hg, hr⟩ := bind_eq_ok.mp hr
      obtain ⟨_, -, hr⟩ := bind_eq_ok.mp hr
      obtain ⟨_, -, hr⟩ := bind_eq_ok.mp hr
      obtain ⟨_, -, hr⟩ := bind_eq_ok.mp hr
      obtain ⟨_, -, hr⟩ := bind_eq_ok.mp hr
      obtain ⟨_, -, hr⟩ := bind_eq_ok.mp hr
      cases hr
      have hold : ∀ old, s.current.get (captureFavorite account own metadata c).id = some old →
          old.removed = true ∧ generation = old.generation + 1 := by
        intro old hget
        refine ⟨filter_live.mp hlive old hget, ?_⟩
        rw [nextGeneration, hget] at hg
        dsimp only at hg
        split at hg <;> cases hg
        rfl
      refine .inr ⟨_, ⟨rfl, fun old hget => ?_, merged.2, mapError_eq_ok hm⟩, rfl, hold⟩
      refine order_lt_of_generation ?_
      have := (hold old hget).2
      dsimp only
      omega

variable {expectedRevision : ℕ} {expectedDevice : String}

/-- **An edit** stays in the generation that is in force. -/
theorem edit_spec {hidden now expiryNow} (hid : ∀ k r, s.current.get k = some r → r.id = k)
    (h : editMessageFavorite own s id expectedRevision expectedDevice metadata hidden now
      expiryNow = .ok (s', favorite)) :
    ∃ r old, Writes own s s' r ∧ s.current.get r.id = some old ∧ old.removed = false ∧
      r.removed = false ∧ r.generation = old.generation := by
  obtain ⟨old, hold, h⟩ := bind_eq_ok.mp h
  obtain ⟨_, -, h⟩ := bind_eq_ok.mp h
  obtain ⟨_, -, h⟩ := bind_eq_ok.mp h
  obtain ⟨_, -, h⟩ := bind_eq_ok.mp h
  obtain ⟨revision, hrev, h⟩ := bind_eq_ok.mp h
  obtain ⟨merged, hm, h⟩ := bind_eq_ok.mp h
  cases h
  obtain ⟨hget, hlive⟩ := changed_spec hold
  have hget' : s.current.get old.id = some old := by rw [hid id old hget, hget]
  refine ⟨_, old, ⟨rfl, fun old' hold' => ?_, merged.2, mapError_eq_ok hm⟩, hget',
    hlive, hlive, rfl⟩
  have heq : some old' = some old := hold'.symm.trans hget'
  cases heq
  exact order_lt_of_revision rfl rfl (FavoriteStore.lt_nextRevision hrev hget)

/-- **A removal** stays in the generation that is in force. -/
theorem remove_spec {now} (hid : ∀ k r, s.current.get k = some r → r.id = k)
    (h : removeMessageFavorite own s id expectedRevision expectedDevice now = .ok s') :
    ∃ r old, Writes own s s' r ∧ s.current.get r.id = some old ∧ old.removed = false ∧
      r.removed = true ∧ r.generation = old.generation := by
  obtain ⟨old, hold, h⟩ := bind_eq_ok.mp h
  obtain ⟨_, -, h⟩ := bind_eq_ok.mp h
  obtain ⟨revision, -, h⟩ := bind_eq_ok.mp h
  obtain ⟨merged, hm, h⟩ := bind_eq_ok.mp h
  cases h
  obtain ⟨hget, hlive⟩ := changed_spec hold
  have hget' : s.current.get old.id = some old := by rw [hid id old hget, hget]
  refine ⟨_, old, ⟨rfl, fun old' hold' => ?_, merged.2, mapError_eq_ok hm⟩, hget', hlive, rfl, rfl⟩
  have heq : some old' = some old := hold'.symm.trans hget'
  cases heq
  exact order_lt_of_removed rfl hlive rfl

end MeshTalk.Favorites
