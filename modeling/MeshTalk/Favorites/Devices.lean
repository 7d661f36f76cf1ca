import MeshTalk.Favorites.Store

/-! # The favorites of an account

The devices of an account exchange the records they hold in force
(`node/account_sync/favorites.rs`). A record is passed on as it is shown by the clock of the device
that sends it, and taken over as it is shown by the clock of the device that receives it, any number
of times, in any order and at any time. -/

namespace MeshTalk.Favorites

open Lib Channel FavoriteStore List Function

/-- The store of a device, with the records it was given and has accepted. -/
structure Device where
  store : FavoriteStore
  received : List FavoriteRecord

/-- The devices of an account, by their ids, and the records that were sent. -/
structure Network where
  devices : String → Device
  sent : List FavoriteRecord

namespace Network

inductive Action where
  | save (p : String) (source : FavoriteSource) (metadata : FavoriteMetadata) (io : SaveIo)
  | edit (p : String) (id : String) (expectedRevision : ℕ) (expectedDevice : String)
    (metadata : FavoriteMetadata) (hidden : MessageFavorite → Bool) (now expiryNow : ℕ)
  | remove (p : String) (id : String) (expectedRevision : ℕ) (expectedDevice : String) (now : ℕ)
  | send (p : String) (id : String) (expiryNow : ℕ)
  | receive (p : String) (n : ℕ) (expiryNow : ℕ)
  | reopen (p : String)

def Action.clock : Action → ℕ
  | .send _ _ now => now
  | .receive _ _ now => now
  | _ => 0

def update (s : Network) (p : String) (d : Device) : Network :=
  { s with devices := Function.update s.devices p d }

/-- A device whose store has changed was given what is new in its journal. -/
def write (s : Network) (p : String) (store : FavoriteStore) : Network :=
  let d := s.devices p
  s.update p ⟨store, d.received ++ store.journal.drop d.store.journal.length⟩

variable [Sha256] (account : String)

def step (s : Network) : Action → Network
  | .save p source metadata io =>
    match saveMessageFavorite account p (s.devices p).store source metadata io with
    | .ok (store, _) => s.write p store
    | .error _ => s
  | .edit p id expectedRevision expectedDevice metadata hidden now expiryNow =>
    match editMessageFavorite p (s.devices p).store id expectedRevision expectedDevice
      metadata hidden now
        expiryNow with
    | .ok (store, _) => s.write p store
    | .error _ => s
  | .remove p id expectedRevision expectedDevice now =>
    match removeMessageFavorite p (s.devices p).store id expectedRevision expectedDevice now with
    | .ok store => s.write p store
    | .error _ => s
  | .send p id expiryNow =>
    match (s.devices p).store.current.get id with
    | some r => { s with sent := s.sent ++ [r.project expiryNow] }
    | none => s
  | .receive p n expiryNow =>
    match s.sent[n]? with
    | some r =>
      match (s.devices p).store.merge (r.project expiryNow) with
      | .ok (store, _) => s.update p ⟨store, (s.devices p).received ++ [r.project expiryNow]⟩
      | .error _ => s
    | none => s
  | .reopen p =>
    match FavoriteStore.openFrom (s.devices p).store.journal with
    | .ok store => s.update p { s.devices p with store := store }
    | .error _ => s

/-- The devices before anything has happened. -/
def new : Network := ⟨fun _ => ⟨⟨[], ∅⟩, []⟩, []⟩

def run (s : Network) (actions : List Action) : Network := actions.foldl (step account) s

/-! ### The invariant -/

def Known (s : Network) (x : FavoriteRecord) : Prop := x ∈ s.sent ∨ ∃ p, x ∈ (s.devices p).received

/-- What holds of all devices together, by clocks that have not passed a time. -/
structure Inv (T : ℕ) (s : Network) : Prop where
  sound : ∀ p, (s.devices p).store.Sound (s.devices p).received
  own : ∀ x, s.Known x → ∃ y ∈ (s.devices x.favorite.deviceId).received, y.project T = x.project T
  agree : ∀ x y, s.Known x → s.Known y → x.id = y.id → x.order = y.order → x.project T = y.project T

section Steps

omit [Sha256]

variable {T : ℕ} {s s' : Network}
  {x y : FavoriteRecord} {d : Device} {p : String} {store : FavoriteStore} {r : FavoriteRecord}

section

variable (h : x.project T = y.project T)
include h

theorem id_of_project : x.id = y.id :=
  show (x.project T).id = (y.project T).id from congrArg _ h

theorem order_of_project : x.order = y.order :=
  show (x.project T).order = (y.project T).order from congrArg _ h

theorem device_of_project : x.favorite.deviceId = y.favorite.deviceId :=
  congrArg (fun r => r.favorite.deviceId) h

end

theorem inv_new : Inv T new where
  sound := fun _ => sound_new
  own := fun x hx => by
    rcases hx with hx | ⟨p, hx⟩ <;> exact absurd hx not_mem_nil
  agree := fun x _ hx => by
    rcases hx with hx | ⟨p, hx⟩ <;> exact absurd hx not_mem_nil

theorem Inv.copy (h : Inv T s) (hs : ∀ p, (s'.devices p).store.Sound (s'.devices p).received)
    (hr : ∀ p, ∀ x ∈ (s.devices p).received, x ∈ (s'.devices p).received)
    (hk : ∀ x, s'.Known x → ∃ y, s.Known y ∧ y.project T = x.project T) : Inv T s' := by
  refine ⟨hs, fun x hx => ?_, fun x y hx hy hid hord => ?_⟩
  · obtain ⟨x', hx', hxx⟩ := hk x hx
    obtain ⟨y, hy, hyx⟩ := h.own x' hx'
    rw [device_of_project hxx] at hy
    exact ⟨y, hr _ y hy, hyx.trans hxx⟩
  · obtain ⟨x', hx', hxx⟩ := hk x hx
    obtain ⟨y', hy', hyy⟩ := hk y hy
    rw [← hxx, ← hyy]
    refine h.agree x' y' hx' hy' ?_ ?_
    · rw [id_of_project hxx, hid, id_of_project hyy]
    · rw [order_of_project hxx, hord, order_of_project hyy]

theorem received_update {q} :
    ((s.update p d).devices q).received = if q = p then d.received else (s.devices q).received := by
  unfold update
  dsimp only
  by_cases hq : q = p
  · subst hq
    rw [update_self, if_pos rfl]
  · rw [update_of_ne hq, if_neg hq]

theorem sound_update (h : Inv T s) (hd : d.store.Sound d.received) (q) :
    ((s.update p d).devices q).store.Sound ((s.update p d).devices q).received := by
  unfold update
  dsimp only
  by_cases hq : q = p
  · subst hq
    rwa [update_self]
  · rw [update_of_ne hq]
    exact h.sound q

theorem known_update (h : (s.update p d).Known x) : s.Known x ∨ x ∈ d.received := by
  rcases h with h | ⟨q, h⟩
  · exact .inl (.inl h)
  · rw [received_update] at h
    split at h
    · exact .inr h
    · exact .inl (.inr ⟨q, h⟩)

theorem Inv.give (h : Inv T s) (hx : s.Known x) (hr : x.project T = r.project T) {won}
    (hm : (s.devices p).store.merge r = .ok (store, won)) :
    Inv T (s.update p ⟨store, (s.devices p).received ++ [r]⟩) := by
  refine h.copy (sound_update h ((h.sound p).merge hm)) (fun q y hy => ?_) fun y hy => ?_
  · rw [received_update]
    split
    · next hq => exact mem_append_left _ (hq ▸ hy)
    · exact hy
  · rcases known_update hy with hy | hy
    · exact ⟨y, hy, rfl⟩
    · rcases mem_append.mp hy with hy | hy
      · exact ⟨y, .inr ⟨p, hy⟩, rfl⟩
      · rw [mem_singleton] at hy
        subst hy
        exact ⟨x, hx, hr⟩

theorem Inv.unknown (h : Inv T s) (hw : Writes p (s.devices p).store store r) (hx : s.Known x)
    (hid : x.id = r.id) (hord : x.order = r.order) : False := by
  have hdev : x.favorite.deviceId = p :=
    (congrArg (fun o => (ofLex (ofLex (ofLex o).2).2).2) hord).trans hw.device
  obtain ⟨y, hy, hyx⟩ := h.own x hx
  rw [hdev] at hy
  obtain ⟨w, hget, hle⟩ := (h.sound p).latest.le y hy
  rw [id_of_project hyx, hid] at hget
  rw [order_of_project hyx, hord] at hle
  exact absurd (hw.above w hget) (not_lt_of_ge hle)

theorem Inv.writes (h : Inv T s) (hw : Writes p (s.devices p).store store r) :
    Inv T (s.update p ⟨store, (s.devices p).received ++ [r]⟩) := by
  obtain ⟨won, hm⟩ := hw.merged
  have hknown {x : FavoriteRecord}
      (hx : (s.update p ⟨store, (s.devices p).received ++ [r]⟩).Known x) : s.Known x ∨ x = r := by
    rcases known_update hx with hx | hx
    · exact .inl hx
    · rcases mem_append.mp hx with hx | hx
      · exact .inl (.inr ⟨p, hx⟩)
      · exact .inr (mem_singleton.mp hx)
  refine ⟨sound_update h ((h.sound p).merge hm), fun x hx => ?_, fun x y hx hy hid hord => ?_⟩
  · rcases hknown hx with hx | rfl
    · obtain ⟨y, hy, hyx⟩ := h.own x hx
      refine ⟨y, ?_, hyx⟩
      rw [received_update]
      split
      · next hq => exact mem_append_left _ (hq ▸ hy)
      · exact hy
    · refine ⟨x, ?_, rfl⟩
      rw [received_update, if_pos hw.device]
      exact mem_append_right _ mem_cons_self
  · rcases hknown hx with hx' | hx'
    · rcases hknown hy with hy' | hy'
      · exact h.agree x y hx' hy' hid hord
      · exact (h.unknown hw hx' (hy' ▸ hid) (hy' ▸ hord)).elim
    · rcases hknown hy with hy' | hy'
      · exact (h.unknown hw hy' (hx' ▸ hid.symm) (hx' ▸ hord.symm)).elim
      · rw [hx', hy']

theorem write_self (h : Inv T s) (p) : Inv T (s.write p (s.devices p).store) := by
  have hd : s.write p (s.devices p).store = s := by
    unfold write update
    dsimp only
    rw [drop_length, append_nil]
    exact congrArg (fun d => (⟨d, s.sent⟩ : Network)) (update_eq_self p s.devices)
  rwa [hd]

theorem write_eq (hw : Writes p (s.devices p).store store r) :
    s.write p store = s.update p ⟨store, (s.devices p).received ++ [r]⟩ := by
  obtain ⟨won, hm⟩ := hw.merged
  rcases merge_spec hm with ⟨-, old, hold, hle⟩ | ⟨rfl, -, -⟩
  · exact absurd (hw.above old hold) (not_lt_of_ge hle)
  · unfold write
    dsimp only
    rw [drop_left]

theorem Inv.ids (h : Inv T s) (p) : ∀ k r, (s.devices p).store.current.get k = some r → r.id = k :=
  fun k r hr => ((h.sound p).latest.mem k r hr).2

variable [Sha256] {account : String}

/-- **One step** of the devices of an account. -/
theorem inv_step (h : Inv T s) {a} (ha : a.clock ≤ T) : Inv T (s.step account a) := by
  cases a with
  | save p source metadata io =>
    unfold step
    dsimp only
    split
    · next hsave =>
      rcases save_spec hsave with rfl | ⟨r, hw, -⟩
      · exact write_self h p
      · rw [write_eq hw]
        exact h.writes hw
    · exact h
  | edit p id expectedRevision expectedDevice metadata hidden now expiryNow =>
    unfold step
    dsimp only
    split
    · next hedit =>
      obtain ⟨r, -, hw, -⟩ := edit_spec (h.ids p) hedit
      rw [write_eq hw]
      exact h.writes hw
    · exact h
  | remove p id expectedRevision expectedDevice now =>
    unfold step
    dsimp only
    split
    · next hremove =>
      obtain ⟨r, -, hw, -⟩ := remove_spec (h.ids p) hremove
      rw [write_eq hw]
      exact h.writes hw
    · exact h
  | send p id expiryNow =>
    unfold step
    dsimp only
    split
    · next r hr =>
      refine h.copy h.sound (fun _ _ hx => hx) fun x hx => ?_
      rcases hx with hx | hx
      · rcases mem_append.mp hx with hx | hx
        · exact ⟨x, .inl hx, rfl⟩
        · rw [mem_singleton] at hx
          subst hx
          exact ⟨r, .inr ⟨p, ((h.sound p).latest.mem id r hr).1⟩, (r.project_project ha).symm⟩
      · exact ⟨x, .inr hx, rfl⟩
    · exact h
  | receive p n expiryNow =>
    unfold step
    dsimp only
    split
    · next r hr =>
      split
      · next hm =>
        exact h.give (.inl (mem_of_getElem? hr)) (r.project_project ha).symm hm
      · exact h
    · exact h
  | reopen p =>
    unfold step
    dsimp only
    rw [(h.sound p).reopens]
    have hd : s.update p { s.devices p with store := (s.devices p).store } = s :=
      congrArg (fun d => (⟨d, s.sent⟩ : Network)) (update_eq_self p s.devices)
    dsimp only
    rwa [hd]

/-- **Every run.** -/
theorem inv_run (account) : ∀ (actions : List Action) {s}, Inv T s →
    (∀ a ∈ actions, a.clock ≤ T) → Inv T (s.run account actions)
  | [], _, h, _ => h
  | a :: actions, _, h, hc =>
    inv_run account actions (inv_step h (hc a mem_cons_self)) fun b hb =>
      hc b (mem_cons_of_mem _ hb)

end Steps

/-! ### What holds in every state -/

section Force

omit [Sha256]

variable {T : ℕ} {s : Network} {x : FavoriteRecord} {p : String}

theorem Inv.in_force (h : Inv T s) (hx : x ∈ (s.devices p).received) :
    ∃ y, (s.devices p).store.current.get x.id = some y ∧ x.order ≤ y.order :=
  (h.sound p).latest.le x hx

/-- The records a device was given determine what it holds in force, as it is shown at a time that
no clock has passed. -/
theorem Inv.shown_eq (h : Inv T s) {q}
    (hr : ∀ x, x ∈ (s.devices p).received ↔ x ∈ (s.devices q).received) (id) :
    ((s.devices p).store.current.get id).map (·.project T) =
      ((s.devices q).store.current.get id).map (·.project T) :=
  (h.sound p).latest.map_eq ((h.sound q).latest.congr fun x => (hr x).symm)
    (fun x y hx hy => h.agree x y (.inr ⟨p, hx⟩) (.inr ⟨p, hy⟩)) id

theorem digest_eq [Sha256] {a b : FavoriteStore}
    (h : ∀ id, (a.current.get id).map (·.project T) = (b.current.get id).map (·.project T)) :
    a.digest = b.digest := by
  have hrows := Table.byKey_map_eq h
  have hbytes (s : FavoriteStore) : (s.current.byKey.flatMap fun row =>
      digestBytes row.1 row.2) = (s.current.byKey.map fun row =>
        (row.1, row.2.project T)).flatMap fun row => digestBytes row.1 row.2 := by
    rw [flatMap_map]
    rfl
  unfold digest
  rw [hbytes a, hbytes b, hrows]

/-- A removal that was given is in force, or a record of a later generation is. -/
theorem Inv.removal_wins (h : Inv T s) (hx : x ∈ (s.devices p).received) (hr : x.removed = true) :
    ∃ y, (s.devices p).store.current.get x.id = some y ∧
      (x.generation < y.generation ∨ x.generation = y.generation ∧ y.removed = true) := by
  obtain ⟨y, hy, hle⟩ := h.in_force hx
  refine ⟨y, hy, ?_⟩
  rcases order_le_iff.mp hle with hlt | ⟨heq, hlt | ⟨hrem, -⟩⟩
  · exact .inl hlt
  · rw [hr] at hlt
    exact absurd hlt (by cases y.removed <;> decide)
  · exact .inr ⟨heq, hrem ▸ hr⟩

/-- A save that writes a record starts a generation after all the device was given. -/
theorem Inv.save_above [Sha256] (h : Inv T s) {account source metadata io r}
    (hr : ((s.step account (.save p source metadata io)).devices p).received =
      (s.devices p).received ++ [r]) (hx : x ∈ (s.devices p).received) (hid : x.id = r.id) :
    x.generation < r.generation := by
  have hsame (hd : (s.devices p).received = (s.devices p).received ++ [r]) : False := by
    have := congrArg length hd
    simp at this
  unfold step at hr
  dsimp only at hr
  split at hr
  · next store favorite hsave =>
    rcases save_spec hsave with rfl | ⟨r', hw, -, hold⟩
    · unfold write at hr
      rw [received_update, if_pos rfl, drop_length, append_nil] at hr
      exact (hsame hr).elim
    · rw [write_eq hw, received_update, if_pos rfl] at hr
      obtain rfl : r' = r := by simpa using hr
      obtain ⟨y, hy, hle⟩ := h.in_force hx
      rw [hid] at hy
      have hgen := (hold y hy).2
      have hxy : x.generation ≤ y.generation := by
        rcases order_le_iff.mp hle with hlt | ⟨heq, -⟩
        · exact hlt.le
        · exact heq.le
      omega
  · exact (hsame hr).elim

end Force

end Network

open Network in
/-- **Favorites converge.** In every run of the devices of an account, for every time that no clock
has passed by which records were passed on and taken over:

* devices that were given the same records hold the same favorites as they are shown at that time,
and have the same digest; * a device that was given a removal and another record of the same save
holds a removal of it, or a later save; * a device that was given the record of a save holds a later
generation than every removal that the saving device had been given; * the journal of a device gives
its store back. -/
theorem favorites_converge [Sha256] (account : String) (actions : List Action) (T : ℕ)
    (hclock : ∀ a ∈ actions, a.clock ≤ T) :
    (∀ p q, (∀ x, x ∈ ((new.run account actions).devices p).received ↔
        x ∈ ((new.run account actions).devices q).received) →
      (∀ id, (((new.run account actions).devices p).store.current.get id).map (·.project T) =
        (((new.run account actions).devices q).store.current.get id).map (·.project T)) ∧
      ((new.run account actions).devices p).store.digest =
        ((new.run account actions).devices q).store.digest) ∧
    (∀ p, ∀ x ∈ ((new.run account actions).devices p).received, x.removed = true →
      ∃ y, ((new.run account actions).devices p).store.current.get x.id = some y ∧
        (x.generation < y.generation ∨ x.generation = y.generation ∧ y.removed = true)) ∧
    (∀ before p source metadata io after, actions = before ++ .save p source metadata io :: after →
      ∀ r, (((new.run account before).step account (.save p source metadata io)).devices
        p).received = ((new.run account before).devices p).received ++ [r] →
      ∀ x ∈ ((new.run account before).devices p).received, x.id = r.id → x.removed = true →
      ∀ q, ∀ r' ∈ ((new.run account actions).devices q).received, r'.project T = r.project T →
      ∃ y, ((new.run account actions).devices q).store.current.get r.id = some y ∧
        x.generation < y.generation) ∧
    ∀ p, FavoriteStore.openFrom ((new.run account actions).devices p).store.journal =
      .ok ((new.run account actions).devices p).store := by
  have h := inv_run account actions inv_new hclock
  refine ⟨fun p q hr => ⟨h.shown_eq hr, digest_eq (h.shown_eq hr)⟩,
    fun p x hx hrem => h.removal_wins hx hrem, ?_, fun p => (h.sound p).reopens⟩
  intro before p source metadata io after heq r hr x hx hid _ q r' hr' hproj
  have hbefore := inv_run account before inv_new fun a ha =>
    hclock a (heq ▸ List.mem_append_left _ ha)
  have hlt := hbefore.save_above hr hx hid
  obtain ⟨y, hy, hle⟩ := h.in_force hr'
  rw [id_of_project hproj] at hy
  rw [order_of_project hproj] at hle
  refine ⟨y, hy, hlt.trans_le ?_⟩
  rcases order_le_iff.mp hle with hgen | ⟨hgen, -⟩
  · exact hgen.le
  · exact hgen.le

/-! ### Sample runs -/

namespace Sample

@[reducible] def sha : Sha256 := ⟨fun _ => 0⟩

def text (n : ℕ) (c : Char) : String := String.ofList (List.replicate n c)

def device (c : Char) : String := text 32 c

def source : FavoriteSource := ⟨"account", text 32 'b', [text 64 'a']⟩

def capture : Capture := ⟨source, "", [⟨text 64 'a', "", "", "hi", 0, some 10, none, none⟩], 0⟩

def metadata : FavoriteMetadata := ⟨"", "", ∅⟩

def io (now : ℕ) : SaveIo := ⟨fun _ => false, ∅, .ok capture, .ok (), .ok capture, now, 1⟩

def favoriteId : String := text 64 '0'

/-- The favorite is sent before and after the clock of its device has passed its expiry, and two
devices with clocks that have not get it in either order. -/
def skewed : List Network.Action :=
  [.save (device 'a') source metadata (io 1), .send (device 'a') favoriteId 5,
    .send (device 'a') favoriteId 20, .receive (device 'c') 0 5, .send (device 'c') favoriteId 5,
    .receive (device 'd') 1 5, .receive (device 'd') 2 5, .receive (device 'c') 1 5]

/-- One device removes the favorite while the other edits it, and then saves it again. -/
def shared : List Network.Action :=
  [.save (device 'a') source metadata (io 1), .send (device 'a') favoriteId 5,
    .receive (device 'c') 0 5, .edit (device 'a') favoriteId 1 (device 'a') ⟨"", "note", ∅⟩
      (fun _ => false) 2 1, .remove (device 'c') favoriteId 1 (device 'a') 2,
    .send (device 'a') favoriteId 5, .send (device 'c') favoriteId 5, .receive (device 'c') 1 5,
    .receive (device 'a') 2 5]

def resaved : List Network.Action :=
  shared ++ [.save (device 'a') source metadata (io 3), .send (device 'a') favoriteId 5,
    .receive (device 'c') 3 5]

end Sample

section

open Network Sample

theorem skewed_spec :
    letI := sha
    ((new.run "me" skewed).devices (device 'c')).received.Perm
        ((new.run "me" skewed).devices (device 'd')).received ∧
      (((new.run "me" skewed).devices (device 'c')).store.current.get favoriteId).map
        (·.project 5) ≠
        (((new.run "me" skewed).devices (device 'd')).store.current.get favoriteId).map
          (·.project 5) := by
  decide +kernel

/-- **Clocks that are apart**: two devices were given the same records, and hold different
favorites, also as their clocks show them. -/
theorem skewed_clocks_diverge :
    letI := sha
    ∃ actions p q id, (∀ x, x ∈ ((new.run "me" actions).devices p).received ↔
        x ∈ ((new.run "me" actions).devices q).received) ∧
      (((new.run "me" actions).devices p).store.current.get id).map (·.project 5) ≠
        (((new.run "me" actions).devices q).store.current.get id).map (·.project 5) :=
  letI := sha
  ⟨skewed, device 'c', device 'd', favoriteId, fun _ => skewed_spec.1.mem_iff, skewed_spec.2⟩

theorem shared_spec :
    letI := sha
    ((new.run "me" resaved).devices (device 'a')).received.length = 4 ∧
      ((new.run "me" resaved).devices (device 'a')).received.Perm
        ((new.run "me" resaved).devices (device 'c')).received ∧
      ∃ x ∈ ((new.run "me" shared).devices (device 'c')).received,
        x.removed = true ∧ x.id = favoriteId ∧ x.generation = 1 := by
  decide +kernel

/-- Both devices were given the same and hold the same; and the removal wins over the edit. -/
theorem favorites_converge_shared :
    letI := sha
    (∀ a ∈ resaved, a.clock ≤ 5) ∧
      ((new.run "me" resaved).devices (device 'a')).received.length = 4 ∧
      (∀ id, (((new.run "me" resaved).devices (device 'a')).store.current.get id).map
          (·.project 5) =
        (((new.run "me" resaved).devices (device 'c')).store.current.get id).map (·.project 5)) ∧
      ((new.run "me" resaved).devices (device 'a')).store.digest =
        ((new.run "me" resaved).devices (device 'c')).store.digest ∧
      ∃ y, ((new.run "me" shared).devices (device 'c')).store.current.get favoriteId = some y ∧
        (1 < y.generation ∨ 1 = y.generation ∧ y.removed = true) := by
  have hclock : ∀ a ∈ resaved, a.clock ≤ 5 := by decide
  obtain ⟨hlength, hperm, x, hx, hremoved, hid, hgeneration⟩ := shared_spec
  obtain ⟨hsame, hdigest⟩ := (@favorites_converge sha "me" resaved 5 hclock).1 (device 'a')
    (device 'c') fun _ => hperm.mem_iff
  have hwins := (@favorites_converge sha "me" shared 5 (by decide)).2.1 (device 'c') x hx hremoved
  rw [hid, hgeneration] at hwins
  exact ⟨hclock, hlength, hsame, hdigest, hwins⟩

end

end MeshTalk.Favorites
