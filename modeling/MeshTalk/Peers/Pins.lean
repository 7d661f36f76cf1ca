import MeshTalk.Channel.Governance
import MeshTalk.Peers.Directory

/-! # Who may move a pin

A node with its directory of peers, over announcements and chains of transitions from any peer,
decisions of the user, pairings, saves that fail, and restarts. `Authority` lists what may move the
pin of a known device to another account. -/

namespace MeshTalk.Peers

open Lib Channel PeerDirectory Option List

/-! ### The node -/

/-- Who may see an invisible node. -/
structure Policy where
  invisible : Bool
  allowedAccounts : List String
deriving DecidableEq

def Policy.grant (p : Policy) (account : String) : Policy :=
  if account ∈ p.allowedAccounts then p
  else { p with allowedAccounts := p.allowedAccounts ++ [account] }

/-- A node that runs, with its directory and the id of its account. -/
structure Running where
  proofs : PeerDirectory
  accountId : String
deriving DecidableEq

/-- A node: the file of its directory, the devices linked to each account it has had, its policy,
and what it has in memory while it runs. -/
structure Node where
  disk : Option Snapshot
  registry : String → List AccountDevice
  policy : Policy
  running : Option Running

def maxLinkedDevices : ℕ := 64

/-- What happens to a node: an announcement that discovery or a session has verified, the node's own
presence, an account the user accepts, a pairing, a chain of transitions relayed within a channel or
shown by its device, a change of the policy, a stop, and a start. -/
inductive Action where
  | announce (a : Announce) (save : Except ErrorKind Unit)
  | updatePresence (a : Announce) (save : Except ErrorKind Unit)
  | accept (a : Announce) (save : Except ErrorKind Unit)
  | pair (device : AccountDevice) (stored interrupted : Bool)
  | relayed (a : Announce) (chain : List AccountBindingTransition) (member granted : Bool)
    (save : Except ErrorKind Unit)
  | direct (a : Announce) (chain : List AccountBindingTransition) (group granted : Bool)
    (save : Except ErrorKind Unit)
  | setPolicy (policy : Policy)
  | stop
  | configure (a : Announce) (account : String) (created save : Except ErrorKind Unit)

section Crypto

variable [Sha256] [EventCrypto]

/-- Enter a device into the registry of an account, given whether the write goes through. -/
def insertDevice (devices : List AccountDevice) (device : AccountDevice) (account : String)
    (stored : Bool) : Except ErrorKind (List AccountDevice) :=
  if device.certificate.verify = false ∨
      device.certificate.deviceEd25519Pub ≠ device.publicIdentity.ed25519Pub ∨
      device.certificate.accountId ≠ account then .error .invalidData
  else
    match devices.find? (·.publicIdentity.userId = device.publicIdentity.userId) with
    | some existing => if existing = device then .ok devices else .error .invalidData
    | none =>
      if maxLinkedDevices ≤ devices.length then .error .invalidData
      else if stored then .ok (devices ++ [device]) else .error .other

namespace Node

def stored (s : Node) (userId : String) : Option Announce :=
  s.disk.bind fun snap => snap.records.find? (·.userId = userId)

def lastRecorded (s : Node) (p : PublicIdentity) : Option AccountBindingTransition :=
  s.disk.bind fun snap => (snap.heads.find? (·.publicIdentity = p)).bind (·.transitions.getLast?)

/-- The node after an operation of its directory: on disk first, then in memory. -/
def commit (s : Node) (r : Running) : Except ErrorKind (Option PeerDirectory) → Node
  | .ok (some d) => { s with disk := some d.snapshot, running := some { r with proofs := d } }
  | .ok none | .error _ => s

/-- Enroll a device that a pairing code has authorized: the registry first, then the directory,
unless the process ends in between. -/
def pair (s : Node) (r : Running) (device : AccountDevice) (stored interrupted : Bool) : Node :=
  match insertDevice (s.registry r.accountId) device r.accountId stored with
  | .error _ => s
  | .ok devices =>
    let s := { s with registry := Function.update s.registry r.accountId devices }
    if interrupted then { s with running := none }
    else
      match r.proofs.authorizeLinkedDevice device r.accountId with
      | .error _ => s
      | .ok d => { s with running := some { r with proofs := d } }

/-- Apply a chain of transitions to the pin of its device. A grant of the account before is carried
over first, given whether that is saved. -/
def applyTransitionAnnouncement (s : Node) (r : Running) (a : Announce)
    (chain : List AccountBindingTransition) (group granted : Bool) (save : Except ErrorKind Unit) :
    Node :=
  if r.proofs.acceptsBinding a then s
  else
    match r.proofs.transitionCandidate a chain, a.accountId with
    | some previous, some current =>
      if previous ∈ s.policy.allowedAccounts then
        if granted then
          { s with policy := s.policy.grant current }.commit r
            (r.proofs.recordTransition a chain save)
        else s
      else if s.policy.invisible && !group then s
      else s.commit r (r.proofs.recordTransition a chain save)
    | _, _ => s

def openProofs (s : Node) (created : Except ErrorKind Unit) : Except ErrorKind PeerDirectory :=
  match s.disk with
  | some snap => PeerDirectory.open snap
  | none => created.map fun _ => PeerDirectory.fresh

/-- Bind the devices that are linked to the account a node starts under, and run. -/
def link (s : Node) (d : PeerDirectory) (account : String) : Node :=
  let devices := (s.registry account).insertionSort
    fun x y => x.publicIdentity.userId ≤ y.publicIdentity.userId
  match devices.foldlM (fun d device => d.authorizeLinkedDevice device account) d with
  | .error _ => s
  | .ok d => { s with running := some ⟨d, account⟩ }

/-- Start a node under an account: read its directory, record its own announcement, and bind the
linked devices. -/
def configure (own : PublicIdentity) (s : Node) (a : Announce) (account : String)
    (created save : Except ErrorKind Unit) : Node :=
  if a.validPresence = false ∨ a.publicIdentity ≠ own ∨ a.accountId ≠ some account then s
  else
    match s.openProofs created with
    | .error _ => s
    | .ok d =>
      let s := { s with disk := some (s.disk.getD d.snapshot) }
      match d.recordOwn a own save with
      | .error _ => s
      | .ok none => s.link d account
      | .ok (some d) => { s with disk := some d.snapshot }.link d account

/-- One step of a node; `own` is its device. A node that does not run can only be started. -/
def step (own : PublicIdentity) (s : Node) : Action → Node
  | .announce a save =>
    match s.running with
    | some r => s.commit r (r.proofs.record a save)
    | none => s
  | .updatePresence a save =>
    match s.running with
    | some r =>
      if a.validPresence = false ∨ a.publicIdentity ≠ own ∨ a.accountId ≠ some r.accountId then s
      else s.commit r (r.proofs.recordOwn a own save)
    | none => s
  | .accept a save =>
    match s.running with
    | some r => s.commit r (r.proofs.recordExplicitAccount a save)
    | none => s
  | .pair device stored interrupted =>
    match s.running with
    | some r => s.pair r device stored interrupted
    | none => s
  | .relayed a chain member granted save =>
    match s.running with
    | some r => if member then s.applyTransitionAnnouncement r a chain true granted save else s
    | none => s
  | .direct a chain group granted save =>
    match s.running with
    | some r => s.applyTransitionAnnouncement r a chain group granted save
    | none => s
  | .setPolicy policy => { s with policy := policy }
  | .stop => { s with running := none }
  | .configure a account created save =>
    { s with running := none }.configure own a account created save

def run (own : PublicIdentity) (s : Node) (as : List Action) : Node := as.foldl (step own) s

end Node

/-! ### Authority -/

/-- All three keys of a transition have signed it, in the role of each. -/
def Endorsed (made : PubKey → List UInt8 → Prop) (t : AccountBindingTransition) : Prop :=
  made t.previousCertificate.accountEd25519Pub (t.message "old-root") ∧
  made t.currentCertificate.accountEd25519Pub (t.message "new-root") ∧
  made t.publicIdentity.ed25519Pub (t.message "device")

/-- Transitions of exactly one device, each endorsed and each after the one before it, from one
certificate to another. -/
def Leads (made : PubKey → List UInt8 → Prop) (device : PublicIdentity) :
    DeviceCertificate → List AccountBindingTransition → DeviceCertificate → Prop
  | c, [], c' => c = c'
  | c, t :: rest, c' =>
    t.publicIdentity = device ∧ t.previousCertificate = c ∧ Endorsed made t ∧
      (∀ u ∈ rest.head?, u.previousTransition = some t.id) ∧
      Leads made device t.currentCertificate rest c'

/-- A chain moves a device from its pin to an announcement: it ends in transitions from the
certificate that is pinned, the first of which extends the last transition that is recorded. -/
def Moves (made : PubKey → List UInt8 → Prop) (s : Node) (old new : Announce)
    (chain : List AccountBindingTransition) : Prop :=
  ∃ (t : AccountBindingTransition) (rest : List AccountBindingTransition)
    (c c' : DeviceCertificate),
    (t :: rest) <:+ chain ∧ old.accountCert = some c ∧ new.accountCert = some c' ∧
    Leads made new.publicIdentity c (t :: rest) c' ∧
    ∀ last, s.lastRecorded new.publicIdentity = some last → t.previousTransition = some last.id

/-- What may move the pin of a device from one announcement to another: the user, the node for its
own device, a pairing, or a chain of transitions. -/
inductive Authority (own : PublicIdentity) (made : PubKey → List UInt8 → Prop) (s : Node)
    (old new : Announce) : Action → Prop
  | accepted (save : Except ErrorKind Unit) : Authority own made s old new (.accept new save)
  | present (save : Except ErrorKind Unit) (hown : new.publicIdentity = own) :
    Authority own made s old new (.updatePresence new save)
  | started (account : String) (created save : Except ErrorKind Unit)
    (hown : new.publicIdentity = own) :
    Authority own made s old new (.configure new account created save)
  | paired {a : Action} {r : Running} {device : AccountDevice} (hr : s.running = some r)
    (hmem : device ∈ s.registry r.accountId) (hkeys : device.publicIdentity = new.publicIdentity)
    (hcert : new.accountCert = some device.certificate) : Authority own made s old new a
  | relayed {chain : List AccountBindingTransition} (granted : Bool) (save : Except ErrorKind Unit)
    (hchain : Moves made s old new chain) :
    Authority own made s old new (.relayed new chain true granted save)
  | direct {chain : List AccountBindingTransition} (group granted : Bool)
    (save : Except ErrorKind Unit) (hchain : Moves made s old new chain) :
    Authority own made s old new (.direct new chain group granted save)

/-! ### The directory -/

variable {d d' : PeerDirectory} {a old : Announce} {save : Except ErrorKind Unit}
variable {chain : List AccountBindingTransition} {accept : Bool}

def PeerDirectory.find (d : PeerDirectory) (userId : String) : Option Announce :=
  d.records.find? (·.userId = userId)

/-- An announcement is recorded in the place of its device, whose keys stay. -/
structure Recorded (d d' : PeerDirectory) (a : Announce) : Prop where
  find : ∀ id, d'.find id = if id = a.userId then some a else d.find id
  keys : ∀ old, d.find a.userId = some old → old.publicIdentity = a.publicIdentity
  heads : ∀ h ∈ d'.heads, h ∈ d.heads ∨ h.transitions.getLast?.map (·.id) = some h.id
  linked : d'.linkedBindings = d.linkedBindings

theorem userId_of_valid (h : valid a = true) : a.userId = userIdFrom a.ed25519Pub := by
  rw [valid, Bool.and_eq_true] at h
  exact Announce.userId_of_validPresence h.1

section
omit [EventCrypto]

theorem place_spec {next} (h : d.place a accept = .ok (some next)) :
    (∀ id, next.find? (·.userId = id) = if id = a.userId then some a else d.find id) ∧
      ∀ old, d.find a.userId = some old → d.conflicts old a accept = false := by
  unfold place at h
  split at h
  · rename_i i hi
    obtain ⟨old, hat, hfind⟩ := find_of_search hi
    simp only [hat] at h
    split_ifs at h with hc heq
    · cases h
    · injection h with h
      injection h with h
      subst h
      refine ⟨find_set hi, fun old' hold' => ?_⟩
      obtain rfl : old = old' := mem_unique hfind hold'
      simpa using hc
  · rename_i i hi
    split_ifs at h
    injection h with h
    injection h with h
    subst h
    refine ⟨find_insertAt hi, fun old hold => ?_⟩
    rw [find, search_error hi] at hold
    cases hold

theorem publicIdentity_of_conflicts (h : d.conflicts old a accept = false) :
    old.publicIdentity = a.publicIdentity := by
  simp only [conflicts, Bool.or_eq_false_iff, decide_eq_false_iff_not, not_not] at h
  rw [Announce.publicIdentity, Announce.publicIdentity, h.1.1, h.1.2]

theorem mem_keptHeads {h} (hh : h ∈ d.keptHeads a accept) : h ∈ d.heads := by
  unfold keptHeads at hh
  split_ifs at hh
  · exact mem_of_mem_filter hh
  · exact hh

end

/-- **Recording an announcement.** The keys of its device stay. Its account stays too, unless the
change is accepted, or the device is linked with just this certificate. -/
theorem recordBound_spec (h : d.recordBound a accept save = .ok (some d')) :
    Recorded d d' a ∧ (accept = false → ∀ old, d.find a.userId = some old →
      old.account = a.account ∨ ∃ b ∈ d.linkedBindings, b.publicIdentity = a.publicIdentity ∧
        a.accountCert = some b.certificate) := by
  simp only [recordBound, bind_eq_ok, ensure_eq_ok] at h
  obtain ⟨_, ⟨hvalid, hlinked⟩, next, hplace, h⟩ := h
  cases next with
  | none => cases h
  | some next =>
    simp only [bind_eq_ok] at h
    obtain ⟨_, -, h⟩ := h
    cases h
    obtain ⟨hfind, hconflict⟩ := place_spec hplace
    refine ⟨⟨hfind, fun old hold => publicIdentity_of_conflicts (hconflict old hold),
      fun x hx => .inl (mem_keptHeads hx), rfl⟩, ?_⟩
    rintro rfl old hold
    have hc := hconflict old hold
    simp only [conflicts, Bool.or_eq_false_iff, Bool.not_false, Bool.true_and,
      Bool.and_eq_false_iff, decide_eq_false_iff_not, not_not] at hc
    rcases hc.2 with hsome | hsame
    · obtain ⟨b, hb⟩ := isSome_iff_exists.mp (isNone_eq_false_iff.mp hsome)
      have haccepts : d.acceptsBinding a = true := by
        by_contra hno
        exact hlinked ⟨by rw [hb]; rfl, Bool.eq_false_iff.mpr hno⟩
      rw [acceptsBinding, hb] at haccepts
      simp only [Bool.and_eq_true, decide_eq_true_eq] at haccepts
      exact .inr ⟨b, mem_of_find?_eq_some hb, haccepts.1.symm, haccepts.2⟩
    · exact .inl hsame

/-! ### Chains -/

variable {made : PubKey → List UInt8 → Prop} {device : PublicIdentity}

omit [Sha256] in
theorem endorsed_of_verify (ideal : ∀ k m sig, verifyKey k m sig = true → made k m) {t}
    (h : t.verify = true) : Endorsed made t := by
  unfold AccountBindingTransition.verify at h
  split_ifs at h
  simp only [AccountBindingTransition.signatures, all_cons, all_nil, Bool.and_true,
    Bool.and_eq_true] at h
  exact ⟨ideal _ _ _ h.1, ideal _ _ _ h.2.1, ideal _ _ _ h.2.2⟩

/-- One link of a chain after another. -/
def Follows (t u : AccountBindingTransition) : Prop :=
  u.previousTransition = some t.id ∧ u.previousCertificate = t.currentCertificate

theorem of_chainChecked : ∀ {chain before roots},
    chainChecked device before roots chain = true →
      (∀ t ∈ chain, t.verify = true ∧ t.publicIdentity = device) ∧
        (before.toList ++ chain).IsChain Follows
  | [], before, roots, _ => by
    cases before <;> simp
  | t :: rest, none, roots, h => by
    simp only [chainChecked] at h
    split_ifs at h with hbad hroot
    push Not at hbad
    obtain ⟨hall, hchain⟩ := of_chainChecked h
    exact ⟨forall_mem_cons.mpr ⟨⟨by simpa using hbad.1, hbad.2⟩, hall⟩, hchain⟩
  | t :: rest, some s, roots, h => by
    simp only [chainChecked] at h
    split_ifs at h with hbad hlink hroot
    push Not at hbad hlink
    obtain ⟨hall, hchain⟩ := of_chainChecked h
    exact ⟨forall_mem_cons.mpr ⟨⟨by simpa using hbad.1, hbad.2⟩, hall⟩, hchain.cons_cons hlink⟩

theorem leads_of_isChain (ideal : ∀ k m sig, verifyKey k m sig = true → made k m) :
    ∀ {rest t last},
      (∀ u ∈ t :: rest, u.verify = true ∧ u.publicIdentity = device) →
        (t :: rest).IsChain Follows → (t :: rest).getLast? = some last →
          Leads made device t.previousCertificate (t :: rest) last.currentCertificate
  | [], t, last, hall, _, hlast => by
    obtain rfl : t = last := some.inj hlast
    obtain ⟨hv, hp⟩ := hall t mem_cons_self
    exact ⟨hp, rfl, endorsed_of_verify ideal hv, by simp, rfl⟩
  | u :: rest, t, last, hall, hchain, hlast => by
    obtain ⟨hv, hp⟩ := hall t mem_cons_self
    obtain ⟨hfollows, hrest⟩ := isChain_cons_cons.mp hchain
    rw [getLast?_cons_cons] at hlast
    have ih := leads_of_isChain ideal (fun v hv => hall v (mem_cons_of_mem _ hv)) hrest hlast
    rw [hfollows.2] at ih
    refine ⟨hp, rfl, endorsed_of_verify ideal hv, ?_, ih⟩
    simpa using hfollows.1

/-- **An accepted chain** leads from the certificate that is pinned to the one announced, and its
first link extends the head that is recorded. -/
theorem transitionCandidate_spec (ideal : ∀ k m sig, verifyKey k m sig = true → made k m) {previous}
    (h : d.transitionCandidate a chain = some previous) :
    valid a = true ∧ ∃ old, d.find a.userId = some old ∧ old.publicIdentity = a.publicIdentity ∧
      ∃ t rest c c', (t :: rest) <:+ chain ∧ old.accountCert = some c ∧ a.accountCert = some c' ∧
        Leads made a.publicIdentity c (t :: rest) c' ∧
        ∀ head, d.head a.publicIdentity = some head → t.previousTransition = some head.id := by
  simp only [transitionCandidate, ite_none_left_eq_some,
    bind_eq_some_iff] at h
  obtain ⟨hbad, old, hold, hother, -, hcheck, hend, start, hstart, hhead, -⟩ := h
  push Not at hbad hother hend
  have hvalid : valid a = true := by simpa using hbad.1
  obtain ⟨hfound, -⟩ := filter_eq_some_iff.mp hold
  obtain ⟨hlt, hpinned, -⟩ := findIdx?_eq_some_iff_getElem.mp hstart
  obtain ⟨hall, hchain⟩ := of_chainChecked (Bool.not_eq_false _ ▸ hcheck)
  have hsuffix : chain[start] :: chain.drop (start + 1) = chain.drop start :=
    getElem_cons_drop hlt
  have hsuf : (chain[start] :: chain.drop (start + 1)) <:+ chain := by
    rw [hsuffix]
    exact drop_suffix _ _
  cases hlast : chain.getLast? with
  | none => exact absurd (getLast?_eq_none_iff.mp hlast) hbad.2.2.1
  | some last =>
    rw [hlast] at hend
    have hlast' : (chain[start] :: chain.drop (start + 1)).getLast? = some last := by
      rw [hsuffix, getLast?_drop, if_neg (by omega), hlast]
    refine ⟨hvalid, old, ?_, hother.2.1, chain[start], chain.drop (start + 1), _, _, hsuf,
      (by simpa using hpinned : some _ = old.accountCert).symm, hend.symm,
      leads_of_isChain ideal (fun u hu => hall u (hsuf.subset hu)) ?_ hlast', ?_⟩
    · rw [find, userId_of_valid hvalid]
      exact hfound
    · rw [hsuffix]
      exact IsChain.suffix hchain (drop_suffix _ _)
    · intro head hh
      rw [hh] at hhead
      simpa [headAdmits, getElem?_eq_getElem hlt] using hhead

omit [Sha256] [EventCrypto] in
theorem getLast?_recordedChain {transitions last} (h : d.recordedChain a chain = .ok transitions)
    (hlast : chain.getLast? = some last) : transitions.getLast? = some last := by
  unfold recordedChain at h
  split_ifs at h with hfirst
  · cases h
    exact hlast
  · split at h
    · cases h
    · split_ifs at h
      cases h
      rw [getLast?_append, hlast, some_or]

omit [EventCrypto] in
theorem mem_replaceHead {heads x y} (h : x ∈ replaceHead heads y) :
    x ∈ heads ∨ x = y := by
  rcases mem_append.mp ((mem_insertionSort _).mp h) with hx | hx
  · exact .inl (mem_of_mem_filter hx)
  · exact .inr (mem_singleton.mp hx)

/-- **Recording the end of a chain.** The chain has been accepted, and the keys of the device
stay. -/
theorem recordTransition_spec (h : d.recordTransition a chain save = .ok (some d')) :
    (d.transitionCandidate a chain).isSome ∧
      ((∀ old, d.find a.userId = some old → old.publicIdentity = a.publicIdentity) →
        Recorded d d' a) := by
  unfold recordTransition at h
  split_ifs at h with hnone hknown
  · cases h
  · simp only [bind_eq_ok, need_eq_ok] at h
    obtain ⟨index, hindex, transitions, htransitions, last, hlast, _, -, h⟩ := h
    cases h
    refine ⟨isSome_iff_ne_none.mpr (by simpa using hnone), fun hkeys =>
      ⟨find_set (mapError_eq_ok hindex), hkeys, ?_, rfl⟩⟩
    intro x hx
    rcases mem_replaceHead hx with hx | rfl
    · exact .inl hx
    · refine .inr ?_
      rw [getLast?_recordedChain htransitions hlast]
      rfl

theorem authorizeLinkedDevice_spec {b account} (h : d.authorizeLinkedDevice b account = .ok d') :
    d'.records = d.records ∧ d'.heads = d.heads ∧
      ∀ x ∈ d'.linkedBindings, x ∈ d.linkedBindings ∨ x = b := by
  unfold authorizeLinkedDevice at h
  split_ifs at h
  split at h
  · split_ifs at h
    cases h
    exact ⟨rfl, rfl, fun x hx => .inl hx⟩
  · cases h
    refine ⟨rfl, rfl, fun x hx => ?_⟩
    rcases mem_append.mp hx with hx | hx
    · exact .inl hx
    · exact .inr (mem_singleton.mp hx)

/-- What is read back is what was saved, and the heads that are read are those of their chains. -/
theorem open_spec {snap} (h : PeerDirectory.open snap = .ok d) :
    d.records = snap.records ∧ d.heads = snap.heads ∧ d.linkedBindings = [] ∧
      ∀ x ∈ d.heads, x.transitions.getLast?.map (·.id) = some x.id := by
  simp only [PeerDirectory.open, bind_eq_ok, ensure_eq_ok] at h
  obtain ⟨_, ⟨-, -, hheads⟩, _, -, _, -, h⟩ := h
  cases h
  refine ⟨rfl, rfl, rfl, fun x hx => ?_⟩
  have hx := all_eq_true.mp hheads x hx
  simp only [TransitionHead.wellFormed, Bool.and_eq_true] at hx
  have hlast := hx.1.1.1.2
  cases hl : x.transitions.getLast? with
  | none => simp [hl] at hlast
  | some t => simpa [hl] using hlast

/-! ### Steps of the node -/

/-- A running node agrees with its file, its heads are those of their chains, and its linked devices
are in the registry. -/
structure Running.Ok (s : Node) (r : Running) : Prop where
  disk : ∃ snap, s.disk = some snap ∧ snap.records = r.proofs.records ∧ snap.heads = r.proofs.heads
  heads : ∀ h ∈ r.proofs.heads, h.transitions.getLast?.map (·.id) = some h.id
  linked : ∀ b ∈ r.proofs.linkedBindings, b ∈ s.registry r.accountId

def Node.Inv (s : Node) : Prop := ∀ r, s.running = some r → r.Ok s

variable {own : PublicIdentity} {s s' : Node} {r : Running} {act : Action}

omit [EventCrypto] in
theorem Running.Ok.stored (h : r.Ok s) (id) : s.stored id = r.proofs.find id := by
  obtain ⟨snap, hdisk, hrecords, -⟩ := h.disk
  rw [Node.stored, hdisk, find, ← hrecords]
  rfl

omit [EventCrypto] in
theorem Running.Ok.lastRecorded (h : r.Ok s) {p last} (hlast : s.lastRecorded p = some last) :
    ∃ head, r.proofs.head p = some head ∧ head.id = last.id := by
  obtain ⟨snap, hdisk, -, hheads⟩ := h.disk
  rw [Node.lastRecorded, hdisk, bind_some, hheads, bind_eq_some_iff] at hlast
  obtain ⟨head, hfind, hlast⟩ := hlast
  have hid := h.heads head (mem_of_find?_eq_some hfind)
  rw [hlast] at hid
  exact ⟨head, hfind, (some.inj hid).symm⟩

/-- What a step does to the pins: keys stay, and accounts move with authority. -/
def PinsKept (own : PublicIdentity) (made : PubKey → List UInt8 → Prop) (s : Node) (act : Action)
    (s' : Node) : Prop :=
  ∀ id old, s.stored id = some old → ∃ new, s'.stored id = some new ∧
    new.publicIdentity = old.publicIdentity ∧
    (new.account = old.account ∨ Authority own made s old new act)

section
omit [EventCrypto]

theorem PinsKept.same (h : s'.stored = s.stored) : PinsKept own made s act s' := by
  intro id old hold
  exact ⟨old, by rw [h, hold], rfl, .inl rfl⟩

theorem PinsKept.replace (hstored : ∀ id, s'.stored id = if id =
    a.userId then some a else s.stored id)
    (hkeys : ∀ old, s.stored a.userId = some old → old.publicIdentity = a.publicIdentity)
    (hauth : ∀ old, s.stored a.userId = some old →
      old.account = a.account ∨ Authority own made s old a act) : PinsKept own made s act s' := by
  intro id old hold
  rw [hstored]
  split_ifs with hid
  · subst hid
    refine ⟨a, rfl, (hkeys old hold).symm, ?_⟩
    rcases hauth old hold with h | h
    · exact .inl h.symm
    · exact .inr h
  · exact ⟨old, hold, rfl, .inl rfl⟩

theorem Node.Inv.setPolicy (hs : s.Inv) (policy) : { s with policy := policy }.Inv :=
  fun r hr => ⟨(hs r hr).disk, (hs r hr).heads, (hs r hr).linked⟩

theorem commit_recorded (policy) (hr : r.Ok s) (hrec : Recorded r.proofs d' a)
    (hauth : ∀ old, r.proofs.find a.userId = some old →
      old.account = a.account ∨ Authority own made s old a act) :
    ({ s with policy := policy }.commit r (.ok (some d'))).Inv ∧
      PinsKept own made s act ({ s with policy := policy }.commit r (.ok (some d'))) := by
  constructor
  · rintro r' hr'
    obtain rfl : { r with proofs := d' } = r' := some.inj hr'
    refine ⟨⟨_, rfl, rfl, rfl⟩, fun h hh => ?_, fun b hb => ?_⟩
    · exact (hrec.heads h hh).elim (hr.heads h) id
    · exact hr.linked b (hrec.linked ▸ hb)
  · refine PinsKept.replace (a := a) (fun id => ?_) (fun old hold => ?_) (fun old hold => ?_)
    · rw [hr.stored]
      exact hrec.find id
    · exact hrec.keys old (hr.stored _ ▸ hold)
    · exact hauth old (hr.stored _ ▸ hold)

/-- An operation of the directory that records an announcement, or nothing. -/
theorem commit_cases {res} (hs : s.Inv) (hr : s.running = some r)
    (hrec : ∀ d', res = .ok (some d') → Recorded r.proofs d' a ∧
      ∀ old, r.proofs.find a.userId = some old →
        old.account = a.account ∨ Authority own made s old a act) :
    (s.commit r res).Inv ∧ PinsKept own made s act (s.commit r res) := by
  cases res with
  | error e => exact ⟨hs, .same rfl⟩
  | ok saved =>
    cases saved with
    | none => exact ⟨hs, .same rfl⟩
    | some d' =>
      obtain ⟨hrec, hauth⟩ := hrec d' rfl
      exact commit_recorded s.policy (hs r hr) hrec hauth

end

/-- The user or the node records an announcement, with authority for any account. -/
theorem commit_accepted (hs : s.Inv) (hr : s.running = some r)
    (hauth : ∀ old, Authority own made s old a act) :
    (s.commit r (r.proofs.recordBound a true save)).Inv ∧
      PinsKept own made s act (s.commit r (r.proofs.recordBound a true save)) :=
  commit_cases (a := a) hs hr fun _ hd => ⟨(recordBound_spec hd).1, fun old _ => .inr (hauth old)⟩

theorem commit_announced (hs : s.Inv) (hr : s.running = some r) :
    (s.commit r (r.proofs.record a save)).Inv ∧
      PinsKept own made s act (s.commit r (r.proofs.record a save)) := by
  refine commit_cases (a := a) hs hr fun d' hd => ?_
  obtain ⟨hrec, haccount⟩ := recordBound_spec hd
  refine ⟨hrec, fun old hold => ?_⟩
  rcases haccount rfl old hold with h | ⟨b, hb, hkeys, hcert⟩
  · exact .inl h
  · exact .inr (.paired hr ((hs r hr).linked b hb) hkeys hcert)

theorem recordTransition_moves (ideal : ∀ k m sig, verifyKey k m sig = true → made k m)
    (hr : r.Ok s) (h : r.proofs.recordTransition a chain save = .ok (some d')) :
    Recorded r.proofs d' a ∧ ∀ old, r.proofs.find a.userId = some old →
      Moves made s old a chain := by
  obtain ⟨hsome, hrec⟩ := recordTransition_spec h
  obtain ⟨previous, hprevious⟩ := isSome_iff_exists.mp hsome
  obtain ⟨-, old, hold, hkeys, t, rest, c, c', hsuf, hc, hc', hleads, hhead⟩ :=
    transitionCandidate_spec ideal hprevious
  refine ⟨hrec fun old' hold' => ?_, fun old' hold' => ?_⟩
  · rw [← mem_unique hold hold', hkeys]
  · obtain rfl : old = old' := mem_unique hold hold'
    refine ⟨t, rest, c, c', hsuf, hc, hc', hleads, fun last hlast => ?_⟩
    obtain ⟨head, hfind, hid⟩ := hr.lastRecorded hlast
    rw [hhead head hfind, hid]

theorem applyTransition_kept {group granted} (ideal :
    ∀ k m sig, verifyKey k m sig = true → made k m)
    (hs : s.Inv) (hr : s.running = some r)
    (hauth : ∀ old, Moves made s old a chain → Authority own made s old a act) :
    (s.applyTransitionAnnouncement r a chain group granted save).Inv ∧
      PinsKept own made s act (s.applyTransitionAnnouncement r a chain group granted save) := by
  have hquiet : s.Inv ∧ PinsKept own made s act s := ⟨hs, .same rfl⟩
  have hcommit : ∀ policy : Policy,
      ({ s with policy := policy }.commit r (r.proofs.recordTransition a chain save)).Inv ∧
        PinsKept own made s act
          ({ s with policy := policy }.commit r (r.proofs.recordTransition a chain save)) := by
    intro policy
    cases hres : r.proofs.recordTransition a chain save with
    | error e => exact ⟨hs.setPolicy policy, .same rfl⟩
    | ok saved =>
      cases saved with
      | none => exact ⟨hs.setPolicy policy, .same rfl⟩
      | some d' =>
        obtain ⟨hrec, hmoves⟩ := recordTransition_moves ideal (hs r hr) hres
        exact commit_recorded policy (hs r hr) hrec fun old hold =>
          .inr (hauth old (hmoves old hold))
  unfold Node.applyTransitionAnnouncement
  by_cases haccepts : r.proofs.acceptsBinding a = true
  · rw [if_pos haccepts]
    exact hquiet
  · rw [if_neg haccepts]
    split
    · split_ifs
      · exact hcommit _
      · exact hquiet
      · exact hquiet
      · exact hcommit s.policy
    · exact hquiet

variable {devices : List AccountDevice} {account : String}

theorem insertDevice_spec {devices' b stored}
    (h : insertDevice devices b account stored = .ok devices') :
    b ∈ devices' ∧ devices ⊆ devices' := by
  unfold insertDevice at h
  cases hfind : devices.find? (·.publicIdentity.userId = b.publicIdentity.userId) with
  | some existing =>
    simp only [hfind] at h
    split_ifs at h with _ heq
    cases h
    exact ⟨heq ▸ mem_of_find?_eq_some hfind, Subset.refl _⟩
  | none =>
    simp only [hfind] at h
    split_ifs at h
    cases h
    exact ⟨mem_append_right _ (mem_singleton.mpr rfl), subset_append_left _ _⟩

theorem pair_kept {device stored interrupted} (hs : s.Inv) (hr : s.running = some r) :
    (s.pair r device stored interrupted).Inv ∧
      PinsKept own made s act (s.pair r device stored interrupted) := by
  unfold Node.pair
  cases hins : insertDevice (s.registry r.accountId) device r.accountId stored with
  | error e => exact ⟨hs, .same rfl⟩
  | ok devices =>
    obtain ⟨hmem, hsub⟩ := insertDevice_spec hins
    have hok := hs r hr
    have hlinked : ∀ b, b ∈ s.registry r.accountId ∨ b = device →
        b ∈ Function.update s.registry r.accountId devices r.accountId := by
      intro b hb
      rw [Function.update_self]
      rcases hb with hb | rfl
      · exact hsub hb
      · exact hmem
    simp only
    split_ifs
    · exact ⟨nofun, .same rfl⟩
    · split
      · refine ⟨fun r' hr' => ?_, .same rfl⟩
        obtain rfl : r = r' := mem_unique hr hr'
        exact ⟨hok.disk, hok.heads, fun b hb => hlinked b (.inl (hok.linked b hb))⟩
      · rename_i d' hd
        obtain ⟨hrecords, hheads, hbound⟩ := authorizeLinkedDevice_spec hd
        refine ⟨fun r' hr' => ?_, .same rfl⟩
        obtain rfl : { r with proofs := d' } = r' := some.inj hr'
        obtain ⟨snap, hdisk, hsnap, hsnap'⟩ := hok.disk
        refine ⟨⟨snap, hdisk, hsnap.trans hrecords.symm, hsnap'.trans hheads.symm⟩, ?_, ?_⟩
        · intro h hh
          exact hok.heads h (hheads ▸ hh)
        · intro b hb
          exact hlinked b ((hbound b hb).imp_left (hok.linked b))

structure PeerDirectory.Agrees (d : PeerDirectory) (snap : Snapshot) : Prop where
  records : snap.records = d.records
  heads : snap.heads = d.heads
  last : ∀ h ∈ d.heads, h.transitions.getLast?.map (·.id) = some h.id

variable {created : Except ErrorKind Unit}

theorem openProofs_spec (h : s.openProofs created = .ok d) :
    d.Agrees (s.disk.getD d.snapshot) ∧ d.linkedBindings = [] ∧ ∀ id, s.stored id = d.find id := by
  unfold Node.openProofs at h
  cases hdisk : s.disk with
  | some snap =>
    simp only [hdisk] at h
    obtain ⟨hrecords, hheads, hlinked, hlast⟩ := open_spec h
    refine ⟨⟨hrecords.symm, hheads.symm, hlast⟩, hlinked, fun id => ?_⟩
    rw [Node.stored, hdisk, PeerDirectory.find, hrecords]
    rfl
  | none =>
    simp only [hdisk] at h
    cases created with
    | error e => cases h
    | ok u =>
      cases h
      refine ⟨⟨rfl, rfl, nofun⟩, rfl, fun id => ?_⟩
      rw [Node.stored, hdisk]
      rfl

theorem linkAll_spec
    (h : devices.foldlM (fun d b => d.authorizeLinkedDevice b account) d = .ok d') :
    d'.records = d.records ∧ d'.heads = d.heads ∧
      ∀ x ∈ d'.linkedBindings, x ∈ d.linkedBindings ∨ x ∈ devices := by
  refine foldlM_ok (P := fun x : PeerDirectory => x.records = d.records ∧ x.heads = d.heads ∧
    ∀ y ∈ x.linkedBindings, y ∈ d.linkedBindings ∨ y ∈ devices) h ⟨rfl, rfl, fun y hy => .inl hy⟩ ?_
  rintro b hb x x' ⟨hrecords, hheads, hlinked⟩ hx
  obtain ⟨hrecords', hheads', hlinked'⟩ := authorizeLinkedDevice_spec hx
  refine ⟨hrecords'.trans hrecords, hheads'.trans hheads, fun y hy => ?_⟩
  rcases hlinked' y hy with hy | rfl
  · exact hlinked y hy
  · exact .inr hb

theorem link_spec {snap} (account) (hrun : s.running = none) (hdisk : s.disk = some snap)
    (hagrees : d.Agrees snap) (hlinked : d.linkedBindings = []) :
    (s.link d account).Inv ∧ (s.link d account).stored = s.stored := by
  unfold Node.link
  simp only
  split
  · refine ⟨fun r hr => ?_, rfl⟩
    rw [hrun] at hr
    cases hr
  · rename_i d' hd
    obtain ⟨hrecords, hheads, hbound⟩ := linkAll_spec hd
    refine ⟨fun r hr => ?_, rfl⟩
    obtain rfl : Running.mk d' account = r := some.inj hr
    refine ⟨⟨snap, hdisk, hagrees.records.trans hrecords.symm, hagrees.heads.trans hheads.symm⟩,
      fun h hh => hagrees.last h (hheads ▸ hh), fun b hb => ?_⟩
    rcases hbound b hb with hb | hb
    · rw [hlinked] at hb
      cases hb
    · exact (mem_insertionSort _).mp hb

theorem configure_kept :
    ({ s with running := none }.configure own a account created save).Inv ∧
      PinsKept own made s (.configure a account created save)
        ({ s with running := none }.configure own a account created save) := by
  have hstopped : ∀ s' : Node, s'.running = none → s'.Inv := fun s' h r hr => by
    rw [h] at hr
    cases hr
  unfold Node.configure
  by_cases hbad : a.validPresence = false ∨ a.publicIdentity ≠ own ∨ a.accountId ≠ some account
  · rw [if_pos hbad]
    exact ⟨hstopped _ rfl, .same rfl⟩
  rw [if_neg hbad]
  push Not at hbad
  cases hopen : Node.openProofs { s with running := none } created with
  | error e => exact ⟨hstopped _ rfl, .same rfl⟩
  | ok d =>
    obtain ⟨hagrees, hlinked, hstored⟩ := openProofs_spec hopen
    have hsame : Node.stored { s with running := none, disk := some (s.disk.getD d.snapshot) } =
        s.stored := by
      funext id
      refine Eq.trans ?_ (hstored id).symm
      rw [find, ← hagrees.records]
      rfl
    simp only
    rw [recordOwn, if_neg (by simpa using hbad.2.1)]
    split
    · exact ⟨hstopped _ rfl, .same hsame⟩
    · obtain ⟨hinv, hkept⟩ := link_spec account
        (s := { s with running := none, disk := some (s.disk.getD d.snapshot) }) rfl rfl
          hagrees hlinked
      exact ⟨hinv, .same (hkept.trans hsame)⟩
    · rename_i d' hd
      obtain ⟨hrec, -⟩ := recordBound_spec hd
      have hagrees' : d'.Agrees d'.snapshot :=
        ⟨rfl, rfl, fun h hh => (hrec.heads h hh).elim (hagrees.last h) id⟩
      obtain ⟨hinv, hkept⟩ := link_spec account
        (s := { s with running := none, disk := some d'.snapshot }) rfl rfl hagrees'
          (hrec.linked.trans hlinked)
      refine ⟨hinv, PinsKept.replace (a := a) (fun id => ?_) (fun old hold => ?_)
        fun old hold => ?_⟩
      · rw [hkept]
        exact (hrec.find id).trans (by rw [← hstored id]; rfl)
      · exact hrec.keys old ((hstored _).symm.trans hold)
      · exact .inr (.started account created save hbad.2.1)

/-- **Steps.** -/
theorem step_kept (own) (ideal : ∀ k m sig, verifyKey k m sig = true → made k m)
    (hs : s.Inv) (act) :
    (s.step own act).Inv ∧ PinsKept own made s act (s.step own act) := by
  have hquiet : s.Inv ∧ PinsKept own made s act s := ⟨hs, .same rfl⟩
  cases hr : s.running with
  | none =>
    cases act with
    | setPolicy policy => exact ⟨hs.setPolicy policy, .same rfl⟩
    | stop => exact ⟨nofun, .same rfl⟩
    | configure a account created save => exact configure_kept
    | _ => simpa only [Node.step, hr] using hquiet
  | some r =>
    cases act with
    | announce a save => simpa only [Node.step, hr] using commit_announced hs hr
    | updatePresence a save =>
      simp only [Node.step, hr]
      split_ifs with hbad
      · exact hquiet
      · push Not at hbad
        rw [recordOwn, if_neg (by simpa using hbad.2.1)]
        exact commit_accepted hs hr fun old => .present save hbad.2.1
    | accept a save =>
      simp only [Node.step, hr]
      exact commit_accepted hs hr fun old => .accepted save
    | pair device stored interrupted => simpa only [Node.step, hr] using pair_kept hs hr
    | relayed a chain member granted save =>
      simp only [Node.step, hr]
      split_ifs with hmember
      · subst hmember
        exact applyTransition_kept ideal hs hr fun old h => .relayed granted save h
      · exact hquiet
    | direct a chain group granted save =>
      simp only [Node.step, hr]
      exact applyTransition_kept ideal hs hr fun old h => .direct group granted save h
    | setPolicy policy => exact ⟨hs.setPolicy policy, .same rfl⟩
    | stop => exact ⟨nofun, .same rfl⟩
    | configure a account created save => exact configure_kept

theorem run_inv (ideal : ∀ k m sig, verifyKey k m sig = true → made k m) :
    ∀ (as : List Action) {s : Node}, s.Inv → (s.run own as).Inv
  | [], _, hs => hs
  | act :: as, s, hs => run_inv ideal as (s := s.step own act) (step_kept own ideal hs act).1

theorem run_keys (ideal : ∀ k m sig, verifyKey k m sig = true → made k m) :
    ∀ (as : List Action) {s : Node}, s.Inv → ∀ {id : String} {old : Announce},
      s.stored id = some old →
        ∃ new, (s.run own as).stored id = some new ∧ new.publicIdentity = old.publicIdentity
  | [], _, _, _, old, hold => ⟨old, hold, rfl⟩
  | act :: as, s, hs, id, old, hold => by
    obtain ⟨hinv, hkept⟩ := step_kept own ideal hs act
    obtain ⟨mid, hmid, hkeys, -⟩ := hkept id old hold
    obtain ⟨new, hnew, hkeys'⟩ := run_keys ideal as hinv hmid
    exact ⟨new, hnew, hkeys'.trans hkeys⟩

/-- **Pins move only with authority.** From whatever a node finds on disk, along every sequence of
actions, the keys stored of a device stay as they are, and its stored account changes only by a step
with authority for the change. `made` is what the holders of keys have signed. -/
theorem pins_move_with_authority (own : PublicIdentity) (made : PubKey → List UInt8 → Prop)
    (ideal : ∀ k m sig, verifyKey k m sig = true → made k m) (s : Node) (hs : s.running = none)
    (as : List Action) :
    (∀ later id old, (s.run own as).stored id = some old →
      ∃ new, (s.run own (as ++ later)).stored id = some new ∧
        new.publicIdentity = old.publicIdentity) ∧
    ∀ act id old new, (s.run own as).stored id = some old →
      (s.run own (as ++ [act])).stored id = some new → new.account ≠ old.account →
        Authority own made (s.run own as) old new act := by
  have hinv : (s.run own as).Inv := run_inv ideal as fun r hr => by
    rw [hs] at hr
    cases hr
  constructor
  · intro later id old hold
    rw [Node.run, List.foldl_append]
    exact run_keys ideal later hinv hold
  · intro act id old new hold hnew hne
    rw [Node.run, List.foldl_append] at hnew
    obtain ⟨new', hnew', -, haccount⟩ := (step_kept own ideal hinv act).2 id old hold
    obtain rfl : new' = new := Option.mem_unique hnew' hnew
    exact haccount.resolve_left hne

end Crypto

/-! ### A device that changes its account -/

def sampleCertificate (account k : ℕ) : DeviceCertificate :=
  ⟨BitVec.ofNat 256 account, BitVec.ofNat 256 k, List.replicate 64 0⟩

def sampleAnnounce [Sha256] (k account : ℕ) : Announce :=
  ⟨(sampleDevice k).userId, (sampleDevice k).ed25519Pub, (sampleDevice k).x25519Pub, "peer", 7,
    false, some (sampleCertificate account k), List.replicate 64 0⟩

def sampleTransition : AccountBindingTransition :=
  ⟨sampleDevice 2, sampleCertificate 10 2, sampleCertificate 11 2, none, 0, List.replicate 64 0,
    List.replicate 64 0, List.replicate 64 0⟩

def sampleNode : Node := ⟨none, fun _ => [], ⟨false, []⟩, none⟩

/-- Device 1 starts under account 9 and meets device 2 under account 10. -/
def sampleMeeting [Sha256] : List Action :=
  [.configure (sampleAnnounce 1 9) (accountIdFrom (BitVec.ofNat 256 9)) (.ok ()) (.ok ()),
    .announce (sampleAnnounce 2 10) (.ok ())]

def sampleShown [Sha256] : Action :=
  .direct (sampleAnnounce 2 11) [sampleTransition] false false (.ok ())

theorem pins_move_with_authority_shown : letI := sampleDigest; letI := sampleSigner
    ((sampleNode.run (sampleDevice 1) sampleMeeting).stored (sampleDevice 2).userId =
        some (sampleAnnounce 2 10) ∧
      (sampleNode.run (sampleDevice 1) (sampleMeeting ++ [sampleShown])).stored
        (sampleDevice 2).userId = some (sampleAnnounce 2 11)) ∧
    (∀ later id old, (sampleNode.run (sampleDevice 1) sampleMeeting).stored id = some old →
      ∃ new, (sampleNode.run (sampleDevice 1) (sampleMeeting ++ later)).stored id = some new ∧
        new.publicIdentity = old.publicIdentity) ∧
    ∀ act id old new, (sampleNode.run (sampleDevice 1) sampleMeeting).stored id = some old →
      (sampleNode.run (sampleDevice 1) (sampleMeeting ++ [act])).stored id = some new →
        new.account ≠ old.account → Authority (sampleDevice 1) (fun _ _ => True)
            (sampleNode.run (sampleDevice 1) sampleMeeting) old new act :=
  let := sampleDigest
  let := sampleSigner
  ⟨by decide +kernel, pins_move_with_authority (sampleDevice 1) (fun _ _ => True)
    (fun _ _ _ _ => trivial) sampleNode rfl sampleMeeting⟩

end MeshTalk.Peers
