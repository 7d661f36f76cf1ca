import MeshTalk.AccountGroup.Operation
import MeshTalk.Lib.Table
import Mathlib.Data.String.Basic

/-! # Personal conversation controls

The private documents by which the devices of an account agree to delete a conversation
(`node/account_documents/personal.rs`): the choice to delete with a leave, the deletion, its
reopening, and a device's word that it has applied one. A document is never replaced. The store
keeps, besides the documents, what it derives from them: the latest clearing deletion of each
conversation (its floor), the floors each device has applied, and the conversations that wait to be
cleaned up. -/

namespace MeshTalk.Personal

open Lib Channel AccountGroup List

inductive DocumentConversation where
  | account (id : String)
  | channel (group : ConversationId)
deriving DecidableEq

/-- The version of a document: its revision, the device that wrote it and the hash of what it
holds. -/
structure DocumentVersion where
  revision : ℕ
  writerDevice : String
  contentHash : BitVec 256
deriving DecidableEq

namespace DocumentVersion

def order (v : DocumentVersion) : ℕ ×ₗ String ×ₗ ℕ :=
  toLex (v.revision, toLex (v.writerDevice, v.contentHash.toNat))

theorem order_injective : Function.Injective order := by
  rintro ⟨r, w, h⟩ ⟨r', w', h'⟩ he
  have hp := congrArg ofLex he
  have hq := congrArg (fun p : ℕ × (String ×ₗ ℕ) => ofLex p.2) hp
  have hr : r = r' := congrArg Prod.fst hp
  have hw : w = w' := congrArg Prod.fst hq
  have hh : h.toNat = h'.toNat := congrArg Prod.snd hq
  rw [hr, hw, BitVec.eq_of_toNat_eq hh]

instance : LinearOrder DocumentVersion := LinearOrder.lift' order order_injective

end DocumentVersion

/-- What a control says. -/
inductive PersonalAction where
  | leaveChoice (reference : OperationReference) (deleteHistory : Bool)
  | delete (clearHistory : Bool) (closed : List MembershipLifetime) (leave : Option OperationId)
  | reopen (deletion : DocumentVersion)
  | applied (floor : DocumentVersion) (device : PublicIdentity)
deriving DecidableEq

/-- The id of a control within its conversation: that of an operation, or the hash of what it
answers. -/
inductive ActionId where
  | operation (id : OperationId)
  | leaveDelete (id : OperationId)
  | applied (floor : DocumentVersion) (device : PublicIdentity)
deriving DecidableEq

structure PersonalControl where
  conversation : DocumentConversation
  actionId : ActionId
  author : PublicIdentity
  action : PersonalAction
deriving DecidableEq

/-- The hash of a control's bytes. -/
class ContentHash where
  contentHash : PersonalControl → BitVec 256

/-- What an action may say of a conversation, and who may say it. -/
def PersonalControl.valid (c : PersonalControl) : Bool :=
  match c.action with
  | .leaveChoice reference _ =>
    reference.kind = .leaveAccount && reference.origin.publicIdentity = c.author &&
      c.conversation = .channel reference.group
  | .delete _ closed leave =>
    closed.length ≤ 65 &&
      match c.conversation with
      | .account _ => closed.isEmpty && leave.isNone
      | .channel _ => !closed.isEmpty
  | .applied floor device => device = c.author && 0 < floor.revision
  | .reopen deletion =>
    (match c.conversation with
      | .account _ => true
      | .channel _ => false) && 0 < deletion.revision

structure AppliedKey where
  conversation : DocumentConversation
  floor : DocumentVersion
  device : PublicIdentity
deriving DecidableEq

/-- A control with the version it was written as. -/
structure Document where
  version : DocumentVersion
  control : PersonalControl
deriving DecidableEq

namespace Document

def conversation (d : Document) : DocumentConversation := d.control.conversation

def key (d : Document) : DocumentConversation × ActionId :=
    (d.control.conversation, d.control.actionId)

def clears (d : Document) : Bool :=
  match d.control.action with
  | .delete clearHistory _ _ => clearHistory
  | _ => false

def closed (d : Document) : List MembershipLifetime :=
  match d.control.action with
  | .delete _ closed _ => closed
  | _ => []

def acknowledges (d : Document) : Option AppliedKey :=
  match d.control.action with
  | .applied floor device => some ⟨d.conversation, floor, device⟩
  | _ => none

def requests (d : Document) : Option OperationReference :=
  match d.control.action with
  | .leaveChoice reference true => some reference
  | _ => none

def leave (d : Document) : Option OperationId :=
  match d.control.action with
  | .delete _ _ leave => leave
  | _ => none

def valid [Sha256] (d : Document) : Bool :=
  d.version.writerDevice = d.control.author.userId && d.control.valid

end Document

theorem Document.conversation_of_acknowledges {d : Document} {k} (h : d.acknowledges = some k) :
    k.conversation = d.conversation := by
  unfold acknowledges at h
  split at h
  · cases h
    rfl
  · cases h

/-! ### The store -/

structure Store where
  personal : List Document
  pending : List DocumentConversation
  floors : Table DocumentConversation Document
  applied : List AppliedKey

/-- Why a control is not taken on. -/
inductive StoreError where
  | corrupt | io | anotherChoice | revisionExhausted
deriving DecidableEq

namespace Store

def empty : Store := ⟨[], [], ∅, []⟩

/-- The floors after a document: a later clearing deletion takes the place of an earlier one. -/
def raise (floors : Table DocumentConversation Document) (d : Document) :
    Table DocumentConversation Document :=
  if d.clears && (floors.get d.conversation).all fun old => old.version < d.version then
    floors.set d.conversation d
  else floors

def indexPersonalControl (s : Store) (d : Document) : Store where
  personal := s.personal ++ [d]
  pending := s.pending.insert d.conversation
  floors := raise s.floors d
  applied := match d.acknowledges with
    | some k => s.applied.insert k
    | none => s.applied

def openFrom (documents : List Document) : Store := documents.foldl indexPersonalControl empty

def find (s : Store) (key : DocumentConversation × ActionId) : Option Document :=
  s.personal.find? fun d => d.key = key

/-- Merge a document, which is there already, conflicts with another, or is new. -/
def merge [Sha256] (s : Store) (d : Document) (saved : Bool) : Except StoreError Store :=
  if (s.find d.key).any fun old => old ≠ d then .error .corrupt
  else if !d.valid then .error .corrupt
  else if (s.find d.key).isSome then .ok s
  else if saved then .ok (s.indexPersonalControl d) else .error .io

/-- An operation, access or legacy operation document of a group has been merged: a conversation
with controls is queued again. -/
def noteGroup (s : Store) (group : ConversationId) : Store :=
  if s.personal.any fun d => d.conversation = .channel group then
    { s with pending := s.pending.insert (.channel group) }
  else s

def nextRevision (s : Store) : ℕ := (s.personal.map fun d => d.version.revision).foldl max 0 + 1

def newDocument [Sha256] [ContentHash] (own : PublicIdentity) (s : Store)
    (conversation : DocumentConversation) (id : ActionId) (action : PersonalAction) : Document :=
  ⟨⟨s.nextRevision, own.userId, ContentHash.contentHash ⟨conversation, id, own, action⟩⟩,
    ⟨conversation, id, own, action⟩⟩

/-- Write a control under an id, unless it is there. -/
def writePersonal [Sha256] [ContentHash] (own : PublicIdentity) (s : Store)
    (conversation : DocumentConversation) (id : ActionId) (action : PersonalAction) (saved : Bool) :
    Except StoreError Store :=
  match s.find (conversation, id) with
  | some old => if old.control.action = action then .ok s else .error .anotherChoice
  | none =>
    if s.nextRevision < 2 ^ 64 then s.merge (s.newDocument own conversation id action) saved
    else .error .revisionExhausted

def sourceApplied (s : Store) (conversation : DocumentConversation) (device : PublicIdentity) :
    Bool :=
  (s.floors.get conversation).all fun f => s.applied.contains ⟨conversation, f.version, device⟩

/-! ### What the index says -/

/-- The derived parts of a store say what its documents say. -/
structure Indexed (s : Store) : Prop where
  floor_mem : ∀ c f, s.floors.get c = some f → f ∈ s.personal ∧ f.clears = true ∧ f.conversation = c
  floor_le : ∀ d ∈ s.personal, d.clears = true →
    ∃ f, s.floors.get d.conversation = some f ∧ d.version ≤ f.version
  applied_iff : ∀ k, k ∈ s.applied ↔ ∃ d ∈ s.personal, d.acknowledges = some k

theorem indexed_empty : empty.Indexed where
  floor_mem := fun c f h => by cases h
  floor_le := fun d h => absurd h not_mem_nil
  applied_iff := fun k => by simp [empty]

variable {s s' : Store} {d : Document}

@[simp] theorem personal_index (s : Store) (d) :
    (s.indexPersonalControl d).personal = s.personal ++ [d] := rfl

variable {c : DocumentConversation} {floors : Table DocumentConversation Document} {saved : Bool}

@[simp] theorem mem_pending_index :
    c ∈ (s.indexPersonalControl d).pending ↔ c = d.conversation ∨ c ∈ s.pending :=
  mem_insert_iff

theorem mem_applied_index {k} :
    k ∈ (s.indexPersonalControl d).applied ↔ d.acknowledges = some k ∨ k ∈ s.applied := by
  unfold indexPersonalControl
  cases hd : d.acknowledges with
  | none => simp
  | some k' =>
    simp only [mem_insert_iff, Option.some.injEq]
    exact or_congr ⟨Eq.symm, Eq.symm⟩ Iff.rfl

theorem get_raise_of_ne (h : d.conversation ≠ c) : (raise floors d).get c = floors.get c := by
  unfold raise
  split
  · rw [Table.get_set, if_neg h.symm]
  · rfl

/-- After a clearing deletion a conversation has a floor that is not before it. -/
theorem get_raise_clears (h : d.clears = true) :
    ∃ f, (raise floors d).get d.conversation = some f ∧ d.version ≤ f.version ∧
      (f = d ∨ floors.get d.conversation = some f) := by
  unfold raise
  rw [h, Bool.true_and]
  split
  · exact ⟨d, by rw [Table.get_set, if_pos rfl], le_rfl, .inl rfl⟩
  · next hn =>
    cases hf : floors.get d.conversation with
    | none => simp [hf] at hn
    | some f =>
      rw [hf, Option.all_some, decide_eq_true_eq, not_lt] at hn
      exact ⟨f, rfl, hn, .inr rfl⟩

theorem get_raise_mono {f} (h : floors.get c = some f) :
    ∃ f', (raise floors d).get c = some f' ∧ f.version ≤ f'.version ∧ (f' = f ∨ f' = d) := by
  unfold raise
  split
  · next hr =>
    by_cases hc : d.conversation = c
    · subst hc
      rw [h, Option.all_some, Bool.and_eq_true, decide_eq_true_eq] at hr
      exact ⟨d, by rw [Table.get_set, if_pos rfl], hr.2.le, .inr rfl⟩
    · exact ⟨f, by rw [Table.get_set, if_neg (Ne.symm hc), h], le_rfl, .inl rfl⟩
  · exact ⟨f, h, le_rfl, .inl rfl⟩

theorem get_raise_eq_some {f} (h : (raise floors d).get c = some f) :
    floors.get c = some f ∨ f = d ∧ d.clears = true ∧ d.conversation = c := by
  unfold raise at h
  split at h
  · next hr =>
    rw [Bool.and_eq_true] at hr
    rw [Table.get_set] at h
    split at h
    · next hc =>
      cases h
      exact .inr ⟨rfl, hr.1, hc.symm⟩
    · exact .inl h
  · exact .inl h

/-- **The index stays true to the documents.** -/
theorem Indexed.index (h : s.Indexed) (d) : (s.indexPersonalControl d).Indexed where
  floor_mem := by
    intro c f hf
    rw [personal_index]
    rcases get_raise_eq_some hf with hf | ⟨rfl, hc, hd⟩
    · obtain ⟨hm, hrest⟩ := h.floor_mem c f hf
      exact ⟨mem_append_left _ hm, hrest⟩
    · exact ⟨mem_append_right _ mem_cons_self, hc, hd⟩
  floor_le := by
    intro e he hclears
    rw [personal_index, mem_append, mem_singleton] at he
    rcases he with he | rfl
    · obtain ⟨f, hf, hle⟩ := h.floor_le e he hclears
      obtain ⟨f', hf', hle', -⟩ := get_raise_mono hf
      exact ⟨f', hf', hle.trans hle'⟩
    · obtain ⟨f, hf, hle, -⟩ := get_raise_clears hclears
      exact ⟨f, hf, hle⟩
  applied_iff := by
    intro k
    rw [mem_applied_index, h.applied_iff k, personal_index]
    constructor
    · rintro (hd | ⟨e, he, hk⟩)
      · exact ⟨d, mem_append_right _ mem_cons_self, hd⟩
      · exact ⟨e, mem_append_left _ he, hk⟩
    · rintro ⟨e, he, hk⟩
      rw [mem_append, mem_singleton] at he
      rcases he with he | rfl
      · exact .inr ⟨e, he, hk⟩
      · exact .inl hk

theorem foldl_index (documents) (s : Store) (h : s.Indexed) :
    (documents.foldl indexPersonalControl s).Indexed ∧
      (documents.foldl indexPersonalControl s).personal = s.personal ++ documents ∧
      ∀ c, c ∈ (documents.foldl indexPersonalControl s).pending ↔
        c ∈ s.pending ∨ ∃ d ∈ documents, d.conversation = c := by
  induction documents generalizing s with
  | nil => exact ⟨h, (append_nil _).symm, fun c => by simp⟩
  | cons d rest ih =>
    obtain ⟨hi, hp, hq⟩ := ih (s.indexPersonalControl d) (h.index d)
    refine ⟨hi, ?_, fun c => ?_⟩
    · rw [foldl_cons, hp, personal_index, append_assoc, singleton_append]
    · rw [foldl_cons, hq, mem_pending_index, exists_mem_cons_iff]
      constructor
      · rintro ((rfl | hc) | hc)
        · exact .inr (.inl rfl)
        · exact .inl hc
        · exact .inr (.inr hc)
      · rintro (hc | rfl | hc)
        · exact .inl (.inr hc)
        · exact .inl (.inl rfl)
        · exact .inr hc

/-- **Opening finds the index again.** -/
theorem indexed_openFrom (documents) : (openFrom documents).Indexed :=
  (foldl_index documents empty indexed_empty).1

@[simp] theorem personal_openFrom (documents) : (openFrom documents).personal = documents :=
  (foldl_index documents empty indexed_empty).2.1

theorem mem_pending_openFrom {documents} :
    c ∈ (openFrom documents).pending ↔ ∃ d ∈ documents, d.conversation = c := by
  refine ((foldl_index documents empty indexed_empty).2.2 c).trans ?_
  simp [empty]

/-! ### Merging and writing -/

/-- **A merge** leaves the store or takes a new valid document into the index. -/
theorem merge_ok [Sha256] (h : s.merge d saved = .ok s') : d.valid = true ∧
    (s' = s ∧ d ∈ s.personal ∨ s' = s.indexPersonalControl d ∧ s.find d.key = none) := by
  unfold merge at h
  split at h
  · cases h
  next hsame =>
  split at h
  · cases h
  next hvalid =>
  refine ⟨by simpa using hvalid, ?_⟩
  cases hf : s.find d.key with
  | some old =>
    rw [hf] at h hsame
    cases h
    have hold : old = d := by simpa using hsame
    subst hold
    exact .inl ⟨rfl, mem_of_find?_eq_some hf⟩
  | none =>
    rw [hf] at h
    split at h
    · next hsome => cases hsome
    · split at h
      · cases h
        exact .inr ⟨rfl, rfl⟩
      · cases h

theorem mem_of_find {key} (h : s.find key = some d) : d ∈ s.personal ∧ d.key = key :=
  ⟨mem_of_find?_eq_some h, by simpa using find?_some h⟩

theorem key_of_mem (h : d ∈ s.personal) : (s.find d.key).isSome = true :=
  find?_isSome.mpr ⟨d, h, by simp⟩

/-- **A write** finds its control in the store or takes a new document of the device into the
index. -/
theorem writePersonal_ok [Sha256] [ContentHash] {own id action}
    (h : s.writePersonal own c id action saved = .ok s') :
    (s' = s ∧ ∃ old ∈ s.personal, old.conversation = c ∧ old.control.action = action) ∨
      (s' = s.indexPersonalControl (s.newDocument own c id action) ∧ s.find (c, id) = none ∧
        (s.newDocument own c id action).valid = true) := by
  unfold writePersonal at h
  cases hf : s.find (c, id) with
  | some old =>
    rw [hf] at h
    dsimp only at h
    split at h
    · next ha =>
      cases h
      obtain ⟨hm, hk⟩ := mem_of_find hf
      exact .inl ⟨rfl, old, hm, congrArg Prod.fst hk, ha⟩
    · cases h
  | none =>
    rw [hf] at h
    dsimp only at h
    split at h
    · obtain ⟨hvalid, ⟨-, hm⟩ | ⟨rfl, -⟩⟩ := merge_ok h
      · exact absurd (key_of_mem hm) (by rw [show Document.key _ = (c, id) from rfl, hf]; decide)
      · exact .inr ⟨rfl, rfl, hvalid⟩
    · cases h

theorem merge_cases [Sha256] (h : s.merge d saved = .ok s') :
    s' = s ∨ s' = s.indexPersonalControl d :=
  (merge_ok h).2.imp And.left And.left

@[simp] theorem noteGroup_frame (s : Store) (g) : (s.noteGroup g).personal = s.personal ∧
    (s.noteGroup g).floors = s.floors ∧ (s.noteGroup g).applied = s.applied := by
  unfold noteGroup
  split <;> exact ⟨rfl, rfl, rfl⟩

theorem mem_pending_noteGroup {g} (h : c ∈ s.pending) : c ∈ (s.noteGroup g).pending := by
  unfold noteGroup
  split
  · exact mem_insert_iff.mpr (.inr h)
  · exact h

theorem Indexed.congr (h : s.Indexed) (hp : s'.personal = s.personal) (hf : s'.floors = s.floors)
    (ha : s'.applied = s.applied) : s'.Indexed where
  floor_mem := by
    rw [hp, hf]
    exact h.floor_mem
  floor_le := by
    rw [hp, hf]
    exact h.floor_le
  applied_iff := by
    rw [hp, ha]
    exact h.applied_iff

end Store

end MeshTalk.Personal
