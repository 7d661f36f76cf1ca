import Mathlib.Algebra.Order.BigOperators.Group.List
import MeshTalk.EventLog.Transfer

/-! # Reconciliation converges

Two logs that do not dispute a conversation (`Agree`) hold the same events of it after a
reconciliation, and after finitely many bounded exchanges whatever the budgets are.

An event is identified by its id. Two signatures of one content are one event here: each side keeps
the one it has. -/

namespace MeshTalk

open Lib List Finset

namespace EventLog

def heldIds (l : EventLog) (c : ConversationId) : Finset EventId :=
  ((l.eventsOf c).map Event.id).toFinset

def responseEvents (a b : EventLog) (c : ConversationId) (frameBudget : ℕ) : List Event :=
  framePrefix encodedEventSize (frameBudget - syncMargin) 1 (b.missing c (a.heldIds c))

/-- The follow-up frames the requester packs once it has the response. -/
def followupsOf (a b : EventLog) (c : ConversationId) (frameBudget maxFrames : ℕ) :
    List SyncFollowup :=
  followupFrames c (boundedEvents (a.missing c (b.heldIds c)) (frameBudget - syncMargin) maxFrames)
    (frameBudget - syncMargin) maxFrames

theorem followupsOf_isPrefix (a b c frameBudget maxFrames) :
    frameEvents (followupsOf a b c frameBudget maxFrames) <+: a.missing c (b.heldIds c) :=
  (followupFrames_isPrefix _).trans (framePrefix_isPrefix _)

/-! ### Agreement -/

/-- No two of the events dispute a sequence number of `c`, and an id stands for one content. -/
structure Agree (c : ConversationId) (U : List Event) : Prop where
  seq : ∀ x ∈ U, ∀ y ∈ U, x.conversationId = c → y.conversationId = c → x.author = y.author →
    x.seq = y.seq → x.id = y.id
  content : ∀ x ∈ U, ∀ y ∈ U, x.id = y.id → x.content = y.content

theorem Agree.mono {c U U'} (h : Agree c U) (hsub : ∀ e ∈ U', e ∈ U) : Agree c U' :=
  ⟨fun x hx y hy => h.seq x (hsub x hx) y (hsub y hy),
    fun x hx y hy => h.content x (hsub x hx) y (hsub y hy)⟩

theorem sum_le_of_subset {L M : List Event} (hn : L.Nodup) (hsub : L ⊆ M) :
    (L.map encodedEventSize).sum ≤ (M.map encodedEventSize).sum := by
  obtain ⟨L', hp, hs⟩ := hn.subperm hsub
  rw [← (hp.map encodedEventSize).sum_eq]
  exact (hs.map encodedEventSize).sum_le_sum fun _ _ => Nat.zero_le _

section Exchange

variable [EventCrypto] {c : ConversationId} {a b : EventLog} {A B : List Event}

theorem Indexes.mem_heldIds {l} (h : Indexes l A) {i} :
    i ∈ l.heldIds c ↔ ∃ e ∈ A, e.conversationId = c ∧ e.id = i := by
  simp [heldIds, h.mem_eventsOf, and_assoc]

/-- Whatever initial part of the missing events arrives, the receiver applies it. -/
theorem Indexes.ingestible {src dst S D} (hs : Indexes src S) (hd : Indexes dst D)
    (hag : Agree c (D ++ S)) {L} (hL : L <+: src.missing c (dst.heldIds c)) : Ingestible c D L := by
  have hmem : ∀ e ∈ L, (e ∈ S ∧ e.conversationId = c) ∧ e.id ∉ dst.heldIds c := fun e he =>
    hs.mem_missing.mp (hL.subset he)
  refine ⟨fun e he => hs.valid e (hmem e he).1.1, hs.nodup_missing.sublist (hL.sublist.map _),
    fun e he => (hmem e he).1.2, fun e he x hx hid => ?_, fun e he x hx hxc ha hseq => ?_, ?_⟩
  · obtain ⟨⟨heS, hec⟩, hnot⟩ := hmem e he
    -- one id is one content, so the receiver would hold it in this conversation
    have hcont := hag.content x (mem_append_left _ hx) e (mem_append_right _ heS) hid
    have hxc : x.conversationId = c := (congrArg EventContent.conversationId hcont).trans hec
    exact hnot (hd.mem_heldIds.mpr ⟨x, hx, hxc, hid⟩)
  · have hx' : x ∈ D ++ S := by
      rcases mem_append.mp hx with hx | hx
      · exact mem_append_left _ hx
      · exact mem_append_right _ (hmem x hx).1.1
    exact hag.seq x hx' e (mem_append_right _ (hmem e he).1.1) hxc (hmem e he).1.2 ha hseq
  · refine ((hs.sendable_missing c _).of_isPrefix hL).mono fun i hi => ?_
    obtain ⟨x, hx, hxc, hid⟩ := hd.mem_heldIds.mp hi
    exact ⟨x, hx, hid, hxc⟩

/-! ### One exchange -/

/-- **One bounded exchange**: both sides apply all they are sent, each from the other's events. -/
theorem exchange_spec (ha : Indexes a A) (hb : Indexes b B) (hag : Agree c (A ++ B))
    (frameBudget maxFrames) :
    ∃ a' b' : EventLog, exchange a b c frameBudget maxFrames = (.ok
        ⟨⟨c, responseEvents a b c frameBudget, (b.eventsOf c).map Event.id⟩,
          ⟨(responseEvents a b c frameBudget).length, 0, []⟩,
            followupsOf a' b c frameBudget maxFrames,
          (followupsOf a' b c frameBudget maxFrames).map fun f =>
            ⟨f.events.length, 0, []⟩⟩, a', b') ∧
      Indexes a' (A ++ responseEvents a b c frameBudget) ∧
      Indexes b' (B ++ frameEvents (followupsOf a' b c frameBudget maxFrames)) := by
  have hL : responseEvents a b c frameBudget <+: b.missing c (a.heldIds c) := framePrefix_isPrefix _
  have hsub : ∀ e ∈ responseEvents a b c frameBudget, e ∈ B := fun e he =>
    (hb.mem_missing.mp (hL.subset he)).1.1
  obtain ⟨a', ha', hia⟩ := ha.ingest ⟨0, 0, []⟩ (hb.ingestible ha hag hL)
  have hag' : Agree c (B ++ (A ++ responseEvents a b c frameBudget)) := hag.mono fun e he => by
    simp only [List.mem_append] at he ⊢
    rcases he with he | he | he
    · exact Or.inr he
    · exact Or.inl he
    · exact Or.inr (hsub e he)
  obtain ⟨b', hb', hib⟩ := hb.followups
    (hia.ingestible hb hag' (followupsOf_isPrefix a' b c frameBudget maxFrames))
  refine ⟨a', b', ?_, hia, hib⟩
  have hreq : buildRequest a c = .ok ⟨c, (a.eventsOf c).map Event.id⟩ := rfl
  have hresp : handleRequestBounded b ⟨c, (a.eventsOf c).map Event.id⟩ frameBudget =
      .ok ⟨c, responseEvents a b c frameBudget, (b.eventsOf c).map Event.id⟩ := rfl
  have hing : ingestAll a (responseEvents a b c frameBudget) =
      (.ok ⟨(responseEvents a b c frameBudget).length, 0, []⟩, a') := by
    rw [Nat.zero_add] at ha'
    exact ha'
  have hburst : handleResponseBoundedBurst a
      ⟨c, responseEvents a b c frameBudget, (b.eventsOf c).map Event.id⟩ frameBudget maxFrames =
      (.ok (⟨(responseEvents a b c frameBudget).length, 0, []⟩,
        followupsOf a' b c frameBudget maxFrames), a') := by
    rw [handleResponseBoundedBurst]
    rw [hing]
    rfl
  rw [exchange, hreq]
  dsimp only
  rw [hresp]
  dsimp only
  rw [hburst]
  dsimp only
  rw [hb']

/-! ### Reachable logs -/

/-- No author's sequence number in `c` stands for different events in the two logs. -/
def Undisputed (a b : EventLog) (c : ConversationId) : Prop :=
  ∀ x ∈ a.eventsOf c, ∀ y ∈ b.eventsOf c, x.author = y.author → x.seq = y.seq → x.id = y.id

/-- An id that both logs hold stands for one content. -/
def CollisionFree (a b : EventLog) : Prop :=
  ∀ i x y, a.get i = some x → b.get i = some y → x.content = y.content

theorem Indexes.agree (ha : Indexes a A) (hb : Indexes b B)
    (hu : Undisputed a b c) (hf : CollisionFree a b) : Agree c (A ++ B) := by
  have cross : ∀ x ∈ A, ∀ y ∈ B, x.id = y.id → x.content = y.content := fun x hx y hy hid =>
    hf x.id x y ((ha.events _ _).mpr ⟨hx, rfl⟩) ((hb.events _ _).mpr ⟨hy, hid.symm⟩)
  have dispute : ∀ x ∈ A, ∀ y ∈ B, x.conversationId = c → y.conversationId = c →
      x.author = y.author → x.seq = y.seq → x.id = y.id := fun x hx y hy hxc hyc =>
    hu x (ha.mem_eventsOf.mpr ⟨hx, hxc⟩) y (hb.mem_eventsOf.mpr ⟨hy, hyc⟩)
  refine ⟨fun x hx y hy hxc hyc hau hs => ?_, fun x hx y hy hid => ?_⟩
  · rcases mem_append.mp hx with hx | hx <;> rcases mem_append.mp hy with hy | hy
    · rw [ha.eq_of_seq hx hy (hxc.trans hyc.symm) hau hs]
    · exact dispute x hx y hy hxc hyc hau hs
    · exact (dispute y hy x hx hyc hxc hau.symm hs.symm).symm
    · rw [hb.eq_of_seq hx hy (hxc.trans hyc.symm) hau hs]
  · rcases mem_append.mp hx with hx | hx <;> rcases mem_append.mp hy with hy | hy
    · rw [ha.eq_of_id hx hy hid]
    · exact cross x hx y hy hid
    · exact (cross y hy x hx hid.symm).symm
    · rw [hb.eq_of_id hx hy hid]

theorem collisionFree_of_offered {as bs}
    (h : ∀ x ∈ as, ∀ y ∈ bs, x.id = y.id → x.content = y.content) :
    CollisionFree ((∅ : EventLog).appendAll as) ((∅ : EventLog).appendAll bs) := by
  intro i x y hx hy
  obtain ⟨hxA, rfl⟩ := ((indexes_appendAll as).events i x).mp hx
  obtain ⟨hyB, hid⟩ := ((indexes_appendAll bs).events _ y).mp hy
  exact h x (mem_of_mem_acceptedBy hxA) y (mem_of_mem_acceptedBy hyB) hid.symm

/-! ### Repeated exchanges -/

/-- Both logs after `n` bounded exchanges, the one numbered `k` with the frame budget and the number
of follow-up frames `budgets k`. -/
def exchangeN (c : ConversationId) (budgets : ℕ → ℕ × ℕ) (a b : EventLog) : ℕ → EventLog × EventLog
  | 0 => (a, b)
  | n + 1 =>
    let s := exchangeN c budgets a b n
    (exchange s.1 s.2 c (budgets n).1 (budgets n).2).2

/-- What holds between exchanges: the responder has learnt only what the requester has, and the ids
the requester still misses are at most `k`. -/
structure RoundInv (c : ConversationId) (b₀ a b : EventLog) (A B : List Event) (k : ℕ) : Prop where
  requester : Indexes a A
  responder : Indexes b B
  agree : Agree c (A ++ B)
  learnt : b.heldIds c ⊆ a.heldIds c ∪ b₀.heldIds c
  kept : b₀.heldIds c ⊆ b.heldIds c
  left : (b₀.heldIds c \ a.heldIds c).card ≤ k

theorem heldIds_append {l l' L} (h : Indexes l A) (h' : Indexes l' (A ++ L))
    (hc : ∀ e ∈ L, e.conversationId = c) :
    l'.heldIds c = l.heldIds c ∪ (L.map Event.id).toFinset := by
  ext i
  simp only [h'.mem_heldIds, h.mem_heldIds, Finset.mem_union, List.mem_toFinset, List.mem_map,
    List.mem_append, or_and_right, exists_or]
  refine or_congr_right ⟨?_, ?_⟩
  · rintro ⟨e, he, -, rfl⟩
    exact ⟨e, he, rfl⟩
  · rintro ⟨e, he, rfl⟩
    exact ⟨e, he, hc e he, rfl⟩

theorem heldIds_union {dst src dst' D S} (hd : Indexes dst D) (hs : Indexes src S)
    (hd' : Indexes dst' (D ++ src.missing c (dst.heldIds c))) :
    dst'.heldIds c = dst.heldIds c ∪ src.heldIds c := by
  rw [heldIds_append hd hd' fun e he => (hs.mem_missing.mp he).1.2]
  ext i
  simp only [Finset.mem_union, List.mem_toFinset, List.mem_map]
  constructor
  · rintro (hi | ⟨e, he, rfl⟩)
    · exact Or.inl hi
    · obtain ⟨⟨heS, hec⟩, -⟩ := hs.mem_missing.mp he
      exact Or.inr (hs.mem_heldIds.mpr ⟨e, heS, hec, rfl⟩)
  · rintro (hi | hi)
    · exact Or.inl hi
    · by_cases hid : i ∈ dst.heldIds c
      · exact Or.inl hid
      · obtain ⟨e, heS, hec, rfl⟩ := hs.mem_heldIds.mp hi
        exact Or.inr ⟨e, hs.mem_missing.mpr ⟨⟨heS, hec⟩, hid⟩, rfl⟩

/-- The requester misses an event exactly when the sender has something to send. -/
theorem Indexes.missing_ne_nil (hb : Indexes b B) {held} :
    b.missing c held ≠ [] ↔ ¬ b.heldIds c ⊆ held := by
  rw [not_subset]
  constructor
  · intro h
    obtain ⟨e, he⟩ := exists_mem_of_ne_nil _ h
    obtain ⟨⟨heB, hec⟩, hnot⟩ := hb.mem_missing.mp he
    exact ⟨e.id, hb.mem_heldIds.mpr ⟨e, heB, hec, rfl⟩, hnot⟩
  · rintro ⟨i, hi, hnot⟩
    obtain ⟨e, heB, hec, rfl⟩ := hb.mem_heldIds.mp hi
    exact ne_nil_of_mem (hb.mem_missing.mpr ⟨⟨heB, hec⟩, hnot⟩)

/-- **One round leaves fewer missing events**, or none. -/
theorem RoundInv.step {b₀ k} (h : RoundInv c b₀ a b A B k) (frameBudget maxFrames) :
    ∃ A' B', RoundInv c b₀ (exchange a b c frameBudget maxFrames).2.1
      (exchange a b c frameBudget maxFrames).2.2 A' B' (k - 1) := by
  obtain ⟨a', b', hex, ha', hb'⟩ :=
    exchange_spec h.requester h.responder h.agree frameBudget maxFrames
  rw [hex]
  have hL : responseEvents a b c frameBudget <+: b.missing c (a.heldIds c) := framePrefix_isPrefix _
  have hmemL : ∀ e ∈ responseEvents a b c frameBudget,
      (e ∈ B ∧ e.conversationId = c) ∧ e.id ∉ a.heldIds c := fun e he =>
    h.responder.mem_missing.mp (hL.subset he)
  have hmemF : ∀ e ∈ frameEvents (followupsOf a' b c frameBudget maxFrames),
      (e ∈ A ++ responseEvents a b c frameBudget ∧ e.conversationId = c) ∧ e.id ∉ b.heldIds c :=
    fun e he => ha'.mem_missing.mp ((followupsOf_isPrefix a' b c frameBudget maxFrames).subset he)
  have hidsA := heldIds_append h.requester ha' fun e he => (hmemL e he).1.2
  have hidsB := heldIds_append h.responder hb' fun e he => (hmemF e he).1.2
  refine ⟨_, _, ha', hb', h.agree.mono fun e he => ?_, ?_, ?_, ?_⟩
  · simp only [List.mem_append] at he ⊢
    rcases he with (he | he) | he | he
    · exact Or.inl he
    · exact Or.inr (hmemL e he).1.1
    · exact Or.inr he
    · rcases List.mem_append.mp (hmemF e he).1.1 with he | he
      · exact Or.inl he
      · exact Or.inr (hmemL e he).1.1
  · rw [hidsB]
    refine Finset.union_subset (h.learnt.trans ?_) fun i hi => ?_
    · rw [hidsA]
      exact Finset.union_subset_union_left Finset.subset_union_left
    · obtain ⟨e, he, rfl⟩ := List.mem_map.mp (List.mem_toFinset.mp hi)
      refine Finset.mem_union_left _ (ha'.mem_heldIds.mpr ⟨e, ?_⟩)
      exact ⟨(hmemF e he).1.1, (hmemF e he).1.2, rfl⟩
  · rw [hidsB]
    exact h.kept.trans Finset.subset_union_left
  · -- the first event of the frame is one the requester missed
    have hsub : b₀.heldIds c \ a'.heldIds c ⊆ b₀.heldIds c \ a.heldIds c := by
      rw [hidsA]
      exact Finset.sdiff_subset_sdiff subset_rfl Finset.subset_union_left
    by_cases hdone : b.heldIds c ⊆ a.heldIds c
    · have hempty : b₀.heldIds c \ a'.heldIds c = ∅ := by
        refine Finset.sdiff_eq_empty_iff_subset.mpr (h.kept.trans (hdone.trans ?_))
        rw [hidsA]
        exact Finset.subset_union_left
      simp [hempty]
    · have hne : responseEvents a b c frameBudget ≠ [] :=
        framePrefix_ne_nil (by omega) (h.responder.missing_ne_nil.mpr hdone)
      obtain ⟨e, he⟩ := List.exists_mem_of_ne_nil _ hne
      obtain ⟨⟨heB, hec⟩, hnot⟩ := hmemL e he
      have hold : e.id ∈ b₀.heldIds c := by
        rcases Finset.mem_union.mp
          (h.learnt (h.responder.mem_heldIds.mpr ⟨e, heB, hec, rfl⟩)) with hh | hh
        · exact absurd hh hnot
        · exact hh
      have hnow : e.id ∈ a'.heldIds c :=
        ha'.mem_heldIds.mpr ⟨e, List.mem_append_right _ he, hec, rfl⟩
      have hlt : (b₀.heldIds c \ a'.heldIds c).card < (b₀.heldIds c \ a.heldIds c).card := by
        refine Finset.card_lt_card ⟨hsub, fun hback => ?_⟩
        exact (Finset.mem_sdiff.mp (hback (Finset.mem_sdiff.mpr ⟨hold, hnot⟩))).2 hnow
      have hleft := h.left
      show (b₀.heldIds c \ a'.heldIds c).card ≤ k - 1
      omega

theorem RoundInv.rounds (ha : Indexes a A) (hb : Indexes b B) (hag : Agree c (A ++ B)) (budgets n) :
    ∃ A' B', RoundInv c b (exchangeN c budgets a b n).1 (exchangeN c budgets a b n).2 A' B'
      ((b.heldIds c \ a.heldIds c).card - n) := by
  induction n with
  | zero => exact ⟨A, B, ha, hb, hag, subset_union_right, subset_rfl, le_rfl⟩
  | succ n ih =>
    obtain ⟨A', B', h⟩ := ih
    exact h.step (budgets n).1 (budgets n).2

/-- **Bounded exchanges deliver everything.** In each round whatever is sent is new, comes after its
parents and is applied, and something is sent while the requester misses an event; so after as many
rounds as events were missing the requester holds every event of the responder, with any budgets. -/
theorem exchangeN_delivers (as bs : List Event) (c : ConversationId) (budgets : ℕ → ℕ × ℕ)
    (hu : Undisputed ((∅ : EventLog).appendAll as) ((∅ : EventLog).appendAll bs) c)
    (hf : CollisionFree ((∅ : EventLog).appendAll as) ((∅ : EventLog).appendAll bs)) :
    (∀ n a b, exchangeN c budgets ((∅ : EventLog).appendAll as) ((∅ : EventLog).appendAll bs) n =
      (a, b) → ∃ ex, (exchange a b c (budgets n).1 (budgets n).2).1 = .ok ex ∧
        Sendable (· ∈ a.heldIds c) ex.response.events ∧
        (∀ e ∈ ex.response.events, e ∈ b.eventsOf c ∧ e.id ∉ a.heldIds c) ∧
        ex.reportA = ⟨ex.response.events.length, 0, []⟩ ∧
        (¬ b.heldIds c ⊆ a.heldIds c → 1 ≤ ex.reportA.applied)) ∧
      ∃ N, ∀ n ≥ N, ∀ a b, exchangeN c budgets ((∅ : EventLog).appendAll as)
        ((∅ : EventLog).appendAll bs) n = (a, b) → b.heldIds c ⊆ a.heldIds c := by
  have ha := indexes_appendAll as
  have hb := indexes_appendAll bs
  have hag := ha.agree hb hu hf
  refine ⟨fun n a b hn => ?_, (((∅ : EventLog).appendAll bs).heldIds c \
    ((∅ : EventLog).appendAll as).heldIds c).card, fun n hn a b hab => ?_⟩
  · obtain ⟨A, B, h⟩ := RoundInv.rounds ha hb hag budgets n
    rw [hn] at h
    obtain ⟨a', b', hex, -, -⟩ :=
      exchange_spec h.requester h.responder h.agree (budgets n).1 (budgets n).2
    have hL : responseEvents a b c (budgets n).1 <+: b.missing c (a.heldIds c) :=
      framePrefix_isPrefix _
    refine ⟨_, by rw [hex], (h.responder.sendable_missing c _).of_isPrefix hL, fun e he => ?_, rfl,
      fun hmiss => ?_⟩
    · obtain ⟨heB, hnot⟩ := h.responder.mem_missing.mp (hL.subset he)
      exact ⟨h.responder.mem_eventsOf.mpr heB, hnot⟩
    · have hne : responseEvents a b c (budgets n).1 ≠ [] :=
        framePrefix_ne_nil (by omega) (h.responder.missing_ne_nil.mpr hmiss)
      exact List.length_pos_iff.mpr hne
  · obtain ⟨A, B, h⟩ := RoundInv.rounds ha hb hag budgets n
    rw [hab] at h
    have hleft : (((∅ : EventLog).appendAll bs).heldIds c \ a.heldIds c).card ≤ _ := h.left
    have hnone : ((∅ : EventLog).appendAll bs).heldIds c \ a.heldIds c = ∅ :=
      Finset.card_eq_zero.mp (by omega)
    have hall := Finset.sdiff_eq_empty_iff_subset.mp hnone
    exact h.learnt.trans (Finset.union_subset subset_rfl hall)

end Exchange

/-- What the requester of the samples below appended: a child whose clock is before its parent's. -/
def sampleRequester : List Event :=
  [sampleEvent 1 1 [] 5 .message, sampleEvent 1 2 [sampleId 1 1] 1 .message]

def sampleResponder : List Event :=
  [sampleEvent 1 1 [] 5 .message, sampleEvent 2 1 [sampleId 1 1] 2 .edit,
    sampleEvent 2 2 [sampleId 2 1] 1 .message]

theorem exchangeN_delivers_sample :
    letI := sampleCrypto
    ∃ N, ∀ n ≥ N, ∀ a b, exchangeN sampleConversation (fun _ => (1, 0))
      ((∅ : EventLog).appendAll sampleRequester) ((∅ : EventLog).appendAll sampleResponder) n =
        (a, b) → b.heldIds sampleConversation ⊆ a.heldIds sampleConversation :=
  letI := sampleCrypto
  (exchangeN_delivers sampleRequester sampleResponder sampleConversation (fun _ => (1, 0))
    (by unfold Undisputed; decide) (collisionFree_of_offered (by decide))).2

/-! ### Reconciliation -/

section Reconcile

variable [EventCrypto]

/-- The encoded events of a conversation fit the address space beside the frame margin, as those of
a log a process holds do. -/
def FitsMemory (l : EventLog) (c : ConversationId) : Prop :=
  ((l.eventsOf c).map encodedEventSize).sum ≤ usizeMax - syncMargin

variable {A : List Event} {c : ConversationId}

/-- What reconciliation leaves: each side gains all it missed, and nothing else happens. -/
theorem reconcile_spec {a b} {B : List Event} (ha : Indexes a A) (hb : Indexes b B)
    (hag : Agree c (A ++ B)) (hfa : FitsMemory a c) (hfb : FitsMemory b c) :
    ∃ a' b' : EventLog, reconcile a b c = (.ok (⟨(b.missing c (a.heldIds c)).length, 0, []⟩,
          ⟨(a'.missing c (b.heldIds c)).length, 0, []⟩), a', b') ∧
      Indexes a' (A ++ b.missing c (a.heldIds c)) ∧
      Indexes b' (B ++ a'.missing c (b.heldIds c)) := by
  have hmemL : ∀ e ∈ b.missing c (a.heldIds c), (e ∈ B ∧ e.conversationId = c) ∧ _ :=
    fun e he => hb.mem_missing.mp he
  have hsumL : ((b.missing c (a.heldIds c)).map encodedEventSize).sum ≤ usizeMax - syncMargin :=
    (sum_le_of_subset hb.nodup_missing.of_map fun e he =>
      hb.mem_eventsOf.mpr (hmemL e he).1).trans hfb
  obtain ⟨a', ha', hia⟩ := ha.ingest ⟨0, 0, []⟩ (hb.ingestible ha hag (List.prefix_refl _))
  have hag' : Agree c (B ++ (A ++ b.missing c (a.heldIds c))) := hag.mono fun e he => by
    simp only [List.mem_append] at he ⊢
    rcases he with he | he | he
    · exact Or.inr he
    · exact Or.inl he
    · exact Or.inr (hmemL e he).1.1
  -- what `a` sends back it had before
  have hsumM : ((a'.missing c (b.heldIds c)).map encodedEventSize).sum ≤ usizeMax - syncMargin := by
    refine (sum_le_of_subset hia.nodup_missing.of_map fun e he => ?_).trans hfa
    obtain ⟨⟨heA, hec⟩, hnot⟩ := hia.mem_missing.mp he
    rcases List.mem_append.mp heA with heA | heL
    · exact ha.mem_eventsOf.mpr ⟨heA, hec⟩
    · exact absurd (hb.mem_heldIds.mpr ⟨e, (hmemL e heL).1.1, hec, rfl⟩) hnot
  obtain ⟨b', hb', hib⟩ := hb.ingest ⟨0, 0, []⟩ (hia.ingestible hb hag' (List.prefix_refl _))
  refine ⟨a', b', ?_, hia, hib⟩
  have hreq : buildRequest a c = .ok ⟨c, (a.eventsOf c).map Event.id⟩ := rfl
  have hresp : handleRequest b ⟨c, (a.eventsOf c).map Event.id⟩ =
      .ok ⟨c, b.missing c (a.heldIds c), (b.eventsOf c).map Event.id⟩ := by
    have hall : boundedEvents (b.missing c (a.heldIds c)) (usizeMax - syncMargin) 1 =
        b.missing c (a.heldIds c) := framePrefix_eq_self (by omega) hsumL
    show Except.ok (SyncResponse.mk c (boundedEvents (b.missing c (a.heldIds c))
      (usizeMax - syncMargin) 1) ((b.eventsOf c).map Event.id)) = _
    rw [hall]
  have hing : ingestAll a (b.missing c (a.heldIds c)) =
      (.ok ⟨(b.missing c (a.heldIds c)).length, 0, []⟩, a') := by
    rw [Nat.zero_add] at ha'
    exact ha'
  have hburst : handleResponseBoundedBurst a
      ⟨c, b.missing c (a.heldIds c), (b.eventsOf c).map Event.id⟩ usizeMax 1 =
      (.ok (⟨(b.missing c (a.heldIds c)).length, 0, []⟩, if a'.missing c (b.heldIds c) = [] then []
        else [⟨c, a'.missing c (b.heldIds c)⟩]), a') := by
    have hall : boundedEvents (a'.missing c (b.heldIds c)) (usizeMax - syncMargin) 1 =
        a'.missing c (b.heldIds c) := framePrefix_eq_self (by omega) hsumM
    rw [handleResponseBoundedBurst]
    rw [hing, ← followupFrames_of_fits hsumM, ← hall]
    show (Except.ok (_, followupFrames c (boundedEvents (a'.missing c (b.heldIds c))
      (usizeMax - syncMargin) 1) (usizeMax - syncMargin) 1), a') = _
    rw [hall]
  have hhandle : handleResponse a ⟨c, b.missing c (a.heldIds c), (b.eventsOf c).map Event.id⟩ =
      (.ok (⟨(b.missing c (a.heldIds c)).length, 0, []⟩, ⟨c, a'.missing c (b.heldIds c)⟩), a') := by
    rw [handleResponse, handleResponseBounded, hburst]
    by_cases hm : a'.missing c (b.heldIds c) = [] <;> simp [hm]
  have hfollow : handleFollowup b ⟨c, a'.missing c (b.heldIds c)⟩ =
      (.ok ⟨(a'.missing c (b.heldIds c)).length, 0, []⟩, b') := by
    rw [Nat.zero_add] at hb'
    exact hb'
  rw [reconcile, hreq]
  dsimp only
  rw [hresp]
  dsimp only
  rw [hhandle]
  dsimp only
  rw [hfollow]

/-- With nothing missing on either side reconciliation changes nothing. -/
theorem reconcile_of_missing_nil {a b : EventLog} (hab : b.missing c (a.heldIds c) = [])
    (hba : a.missing c (b.heldIds c) = []) :
    reconcile a b c = (.ok (⟨0, 0, []⟩, ⟨0, 0, []⟩), a, b) := by
  have hresp : handleRequest b ⟨c, (a.eventsOf c).map Event.id⟩ =
      .ok ⟨c, [], (b.eventsOf c).map Event.id⟩ := by
    show Except.ok (SyncResponse.mk c (boundedEvents (b.missing c (a.heldIds c))
      (usizeMax - syncMargin) 1) ((b.eventsOf c).map Event.id)) = _
    rw [hab]
    rfl
  have hhandle : handleResponse a ⟨c, [], (b.eventsOf c).map Event.id⟩ =
      (.ok (⟨0, 0, []⟩, ⟨c, []⟩), a) := by
    have hburst : handleResponseBoundedBurst a ⟨c, [], (b.eventsOf c).map Event.id⟩ usizeMax 1 =
        (.ok (⟨0, 0, []⟩, followupFrames c (boundedEvents (a.missing c (b.heldIds c))
          (usizeMax - syncMargin) 1) (usizeMax - syncMargin) 1), a) := rfl
    rw [handleResponse, handleResponseBounded, hburst, hba]
    rfl
  rw [reconcile, show buildRequest a c = .ok ⟨c, (a.eventsOf c).map Event.id⟩ from rfl]
  dsimp only
  rw [hresp]
  dsimp only
  rw [hhandle]
  rfl

theorem ingestAll_appendAll (l : EventLog) (L) :
    ∃ r, ingestAll l L = (.ok r, l.appendAll L) := applyReceivedEvents_append L _ l

/-- Whatever the two logs hold, reconciliation appends to both and does nothing else. -/
theorem reconcile_appendAll (a b : EventLog) (c) :
    ∃ L M, (reconcile a b c).2 = (a.appendAll L, b.appendAll M) := by
  obtain ⟨rA, hA⟩ := a.ingestAll_appendAll
    (boundedEvents (b.missing c (a.heldIds c)) (usizeMax - syncMargin) 1)
  have hresp : handleRequest b ⟨c, (a.eventsOf c).map Event.id⟩ = .ok ⟨c, boundedEvents
      (b.missing c (a.heldIds c)) (usizeMax - syncMargin) 1, (b.eventsOf c).map Event.id⟩ := rfl
  rw [reconcile, show buildRequest a c = .ok ⟨c, (a.eventsOf c).map Event.id⟩ from rfl]
  dsimp only
  rw [hresp]
  dsimp only
  rw [handleResponse, handleResponseBounded, handleResponseBoundedBurst]
  rw [hA]
  simp only [SyncStore.eventsExcludingBounded, Except.map]
  rw [handleFollowup]
  generalize SyncFollowup.events _ = M
  obtain ⟨rB, hB⟩ := b.ingestAll_appendAll M
  rw [hB]
  exact ⟨_, M, rfl⟩

theorem Indexes.get_appendAll {l} (h : Indexes l A) (es) {i e} (he : l.get i = some e) :
    (l.appendAll es).get i = some e := by
  obtain ⟨heA, hid⟩ := (h.events i e).mp he
  exact ((h.appendAll es).events i e).mpr ⟨mem_append_left _ heA, hid⟩

theorem Indexes.sameAnswers_append {l l' L} (h : Indexes l A) (h' : Indexes l' (A ++ L)) {c'}
    (hc : ∀ e ∈ L, e.conversationId = c) (hne : c' ≠ c) : SameAnswers l l' c' := by
  refine h.sameAnswers h' fun e hec => ?_
  rw [mem_append]
  refine ⟨Or.inl, fun he => he.elim id fun heL => ?_⟩
  exact absurd (hec.symm.trans (hc e heL)) hne

/-- **Reconciliation leaves both logs with the union.** Of two logs reached by appends that do not
dispute the conversation, each ends up with the ids of both, of events one of them had, nothing is
rejected, other conversations answer as before, and a second reconciliation applies nothing.
Disputed or not, neither log loses an event. -/
theorem reconcile_union (as bs : List Event) (c : ConversationId) (a b : EventLog)
    (ha : a = (∅ : EventLog).appendAll as) (hb : b = (∅ : EventLog).appendAll bs) :
    (Undisputed a b c → CollisionFree a b → FitsMemory a c → FitsMemory b c →
      ∃ rA rB a' b', reconcile a b c = (.ok (rA, rB), a', b') ∧ rA.rejected = [] ∧
        rB.rejected = [] ∧
        a'.heldIds c = a.heldIds c ∪ b.heldIds c ∧ b'.heldIds c = a.heldIds c ∪ b.heldIds c ∧
        (∀ e, e ∈ a'.eventsOf c ∨ e ∈ b'.eventsOf c → e ∈ a.eventsOf c ∨ e ∈ b.eventsOf c) ∧
        (∀ c', c' ≠ c → SameAnswers a a' c' ∧ SameAnswers b b' c') ∧
        reconcile a' b' c = (.ok (⟨0, 0, []⟩, ⟨0, 0, []⟩), a', b')) ∧
      (∀ i e, a.get i = some e → (reconcile a b c).2.1.get i = some e) ∧
      ∀ i e, b.get i = some e → (reconcile a b c).2.2.get i = some e := by
  subst ha hb
  have ha := indexes_appendAll as
  have hb := indexes_appendAll bs
  generalize (∅ : EventLog).appendAll as = a at *
  generalize (∅ : EventLog).appendAll bs = b at *
  generalize (∅ : EventLog).acceptedBy as = A at *
  generalize (∅ : EventLog).acceptedBy bs = B at *
  obtain ⟨L, M, hLM⟩ := reconcile_appendAll a b c
  refine ⟨fun hu hf hfa hfb => ?_, fun i e he => ?_, fun i e he => ?_⟩
  · obtain ⟨a', b', hrec, hia, hib⟩ := reconcile_spec ha hb (ha.agree hb hu hf) hfa hfb
    have hmemL : ∀ e ∈ b.missing c (a.heldIds c),
        (e ∈ B ∧ e.conversationId = c) ∧ e.id ∉ a.heldIds c := fun e he => hb.mem_missing.mp he
    have hmemM : ∀ e ∈ a'.missing c (b.heldIds c),
        (e ∈ A ++ b.missing c (a.heldIds c) ∧ e.conversationId = c) ∧ e.id ∉ b.heldIds c :=
      fun e he => hia.mem_missing.mp he
    have hidsA : a'.heldIds c = a.heldIds c ∪ b.heldIds c := heldIds_union ha hb hia
    have hidsB : b'.heldIds c = a.heldIds c ∪ b.heldIds c := by
      rw [heldIds_union hb hia hib, hidsA, Finset.union_comm, Finset.union_assoc, Finset.union_self]
    refine ⟨_, _, a', b', hrec, rfl, rfl, hidsA, hidsB, fun e he => ?_, fun c' hne => ?_, ?_⟩
    · have key : e.conversationId = c → e ∈ A ++ B → e ∈ a.eventsOf c ∨ e ∈ b.eventsOf c := by
        intro hec he
        rcases List.mem_append.mp he with he | he
        · exact Or.inl (ha.mem_eventsOf.mpr ⟨he, hec⟩)
        · exact Or.inr (hb.mem_eventsOf.mpr ⟨he, hec⟩)
      have hfromA : ∀ x, x ∈ A ++ b.missing c (a.heldIds c) → x ∈ A ++ B := fun x hx => by
        rcases List.mem_append.mp hx with hx | hx
        · exact List.mem_append_left _ hx
        · exact List.mem_append_right _ (hmemL x hx).1.1
      rcases he with he | he
      · obtain ⟨he, hec⟩ := hia.mem_eventsOf.mp he
        exact key hec (hfromA e he)
      · obtain ⟨he, hec⟩ := hib.mem_eventsOf.mp he
        rcases List.mem_append.mp he with he | he
        · exact key hec (List.mem_append_right _ he)
        · exact key hec (hfromA e (hmemM e he).1.1)
    · exact ⟨ha.sameAnswers_append hia (fun e he => (hmemL e he).1.2) hne,
        hb.sameAnswers_append hib (fun e he => (hmemM e he).1.2) hne⟩
    · refine reconcile_of_missing_nil ?_ ?_ <;> by_contra hne
      · exact hib.missing_ne_nil.mp hne (by rw [hidsA, hidsB])
      · exact hia.missing_ne_nil.mp hne (by rw [hidsA, hidsB])
  · rw [hLM]
    exact ha.get_appendAll L he
  · rw [hLM]
    exact hb.get_appendAll M he

end Reconcile

theorem reconcile_union_sample :
    letI := sampleCrypto
    ∃ rA rB a' b', reconcile ((∅ : EventLog).appendAll sampleRequester)
        ((∅ : EventLog).appendAll sampleResponder) sampleConversation = (.ok (rA, rB), a', b') ∧
      a'.heldIds sampleConversation = b'.heldIds sampleConversation := by
  let _ := sampleCrypto
  obtain ⟨rA, rB, a', b', hrec, -, -, hA, hB, -⟩ :=
    (reconcile_union sampleRequester sampleResponder sampleConversation _ _ rfl rfl).1
      (by unfold Undisputed; decide) (collisionFree_of_offered (by decide))
      (by unfold FitsMemory; decide) (by unfold FitsMemory; decide)
  exact ⟨rA, rB, a', b', hrec, hA.trans hB.symm⟩

end EventLog

end MeshTalk
