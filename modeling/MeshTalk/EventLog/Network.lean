import MeshTalk.EventLog.Convergence

/-! # A network of logs

Any number of devices, each with a log, that append events and reconcile conversations in pairs
(`reconcile` of `eventlog/sync.rs`), in whatever order. -/

namespace MeshTalk.EventLog

open Lib List

inductive NetworkStep (ι : Type) where
  | append (i : ι) (e : Event)
  | reconcile (i j : ι) (c : ConversationId)

/-- The events that devices tried to append. -/
def offered {ι : Type} (steps : List (NetworkStep ι)) : List Event :=
  steps.filterMap fun
    | .append _ e => some e
    | .reconcile .. => none

variable {ι : Type} [EventCrypto] {c : ConversationId} {U : List Event}

def networkStep [DecidableEq ι] (s : ι → EventLog) : NetworkStep ι → ι → EventLog
  | .append i e => Function.update s i ((s i).append e).2
  | .reconcile i j c =>
    if i = j then s
    else Function.update (Function.update s i (reconcile (s i) (s j) c).2.1) j
      (reconcile (s i) (s j) c).2.2

def networkRun [DecidableEq ι] (s : ι → EventLog) (steps : List (NetworkStep ι)) : ι → EventLog :=
  steps.foldl networkStep s

/-- The devices that news of a conversation gets to, from those that have it. -/
def informed [DecidableEq ι] (c : ConversationId) : List (NetworkStep ι) → Finset ι → Finset ι
  | [], S => S
  | .append .. :: steps, S => informed c steps S
  | .reconcile i j c' :: steps, S =>
    informed c steps (if c' = c ∧ (i ∈ S ∨ j ∈ S) then insert i (insert j S) else S)

/-- A log of some of the events, and what it has become. -/
def Grows (U : List Event) (l l' : EventLog) : Prop :=
  ∃ A A', Indexes l A ∧ Indexes l' A' ∧ A ⊆ A' ∧ A' ⊆ U

/-- Every device has a log of some of the events. -/
def Sound (U : List Event) (s : ι → EventLog) : Prop := ∀ k, ∃ A, Indexes (s k) A ∧ A ⊆ U

theorem Sound.refl {s : ι → EventLog} (hs : Sound U s) (k) : Grows U (s k) (s k) := by
  obtain ⟨A, hA, hU⟩ := hs k
  exact ⟨A, A, hA, hA, Subset.refl A, hU⟩

theorem Sound.of_grows {s s' : ι → EventLog} (h : ∀ k, Grows U (s k) (s' k)) : Sound U s' := by
  intro k
  obtain ⟨-, A', -, hA', -, hU⟩ := h k
  exact ⟨A', hA', hU⟩

theorem Grows.get {l l'} (h : Grows U l l') {i e} (he : l.get i = some e) :
    l'.get i = some e ∧ e ∈ U := by
  obtain ⟨A, A', hA, hA', hsub, hU⟩ := h
  obtain ⟨hmem, hid⟩ := (hA.events i e).mp he
  exact ⟨(hA'.events i e).mpr ⟨hsub hmem, hid⟩, hU (hsub hmem)⟩

theorem Grows.heldIds {l l'} (h : Grows U l l') (c) : l.heldIds c ⊆ l'.heldIds c := by
  obtain ⟨A, A', hA, hA', hsub, -⟩ := h
  intro i hi
  obtain ⟨e, he, hc, hid⟩ := hA.mem_heldIds.mp hi
  exact hA'.mem_heldIds.mpr ⟨e, hsub he, hc, hid⟩

theorem Grows.trans {l l' l''} (h : Grows U l l') (h' : Grows U l' l'') : Grows U l l'' := by
  obtain ⟨A, A', hA, hA', hsub, -⟩ := h
  obtain ⟨B, B', hB, hB', hsub', hU⟩ := h'
  refine ⟨A, B', hA, hB', fun e he => hsub' ?_, hU⟩
  have hget := (hA'.events e.id e).mpr ⟨hsub he, rfl⟩
  exact ((hB.events e.id e).mp hget).1

theorem fitsMemory_of_subset {l : EventLog} {A} (h : Indexes l A) (hA : A ⊆ U)
    (hU : (U.map encodedEventSize).sum ≤ usizeMax - syncMargin) : FitsMemory l c := by
  have hsorted : ((l.eventsOf c).map fun e => toLex (e.lamport, e.id)).Nodup :=
    (h.exact.eventsOf_sorted c).imp ne_of_lt
  have hsub : l.eventsOf c ⊆ U := fun e he => hA (h.mem_eventsOf.mp he).1
  exact (sum_le_of_subset (.of_map _ hsorted) hsub).trans hU

section Undisputed

variable (hagree : ∀ c, Agree c U) (hfits : (U.map encodedEventSize).sum ≤ usizeMax - syncMargin)
  {s : ι → EventLog} (hs : Sound U s)

include hagree hfits hs

/-- Two devices after they reconciled. -/
theorem reconcile_grows (i j c) :
    Grows U (s i) (reconcile (s i) (s j) c).2.1 ∧ Grows U (s j) (reconcile (s i) (s j) c).2.2 ∧
      (reconcile (s i) (s j) c).2.1.heldIds c = (s i).heldIds c ∪ (s j).heldIds c ∧
      (reconcile (s i) (s j) c).2.2.heldIds c = (s i).heldIds c ∪ (s j).heldIds c := by
  obtain ⟨A, ha, hA⟩ := hs i
  obtain ⟨B, hb, hB⟩ := hs j
  obtain ⟨a', b', hrec, hia, hib⟩ := reconcile_spec ha hb
    ((hagree c).mono fun e he => append_subset.mpr ⟨hA, hB⟩ he)
    (fitsMemory_of_subset ha hA hfits) (fitsMemory_of_subset hb hB hfits)
  have hidsA : a'.heldIds c = (s i).heldIds c ∪ (s j).heldIds c := heldIds_union ha hb hia
  have hidsB : b'.heldIds c = (s i).heldIds c ∪ (s j).heldIds c := by
    rw [heldIds_union hb hia hib, hidsA, Finset.union_comm, Finset.union_assoc, Finset.union_self]
  have hA' : A ++ (s j).missing c ((s i).heldIds c) ⊆ U :=
    append_subset.mpr ⟨hA, fun e he => hB (hb.mem_missing.mp he).1.1⟩
  have hB' : B ++ a'.missing c ((s j).heldIds c) ⊆ U :=
    append_subset.mpr ⟨hB, fun e he => hA' (hia.mem_missing.mp he).1.1⟩
  rw [hrec]
  exact ⟨⟨A, _, ha, hia, subset_append_left _ _, hA'⟩,
    ⟨B, _, hb, hib, subset_append_left _ _, hB'⟩, hidsA, hidsB⟩

variable [DecidableEq ι]

theorem networkStep_grows (x : NetworkStep ι) (hx : offered [x] ⊆ U) (k) :
    Grows U (s k) (networkStep s x k) := by
  have hsame := hs.refl
  cases x with
  | append i e =>
    rw [networkStep]
    by_cases hk : k = i
    · subst hk
      obtain ⟨A, hA, hU⟩ := hs k
      rw [Function.update_self]
      exact ⟨A, _, hA, hA.appendAll [e], subset_append_left _ _,
        append_subset.mpr ⟨hU, fun x hx' => hx (mem_of_mem_acceptedBy hx')⟩⟩
    · rw [Function.update_of_ne hk]
      exact hsame k
  | reconcile i j c =>
    obtain ⟨hi, hj, -⟩ := reconcile_grows hagree hfits hs i j c
    rw [networkStep]
    split_ifs with hij
    · exact hsame k
    · by_cases hkj : k = j
      · subst hkj
        rwa [Function.update_self]
      · rw [Function.update_of_ne hkj]
        by_cases hki : k = i
        · subst hki
          rwa [Function.update_self]
        · rw [Function.update_of_ne hki]
          exact hsame k

theorem reconcile_shares (i j c) : ∀ k, k = i ∨ k = j →
    (s i).heldIds c ∪ (s j).heldIds c ⊆ (networkStep s (.reconcile i j c) k).heldIds c := by
  obtain ⟨-, -, hi, hj⟩ := reconcile_grows hagree hfits hs i j c
  intro k hk
  rw [networkStep]
  split_ifs with hij
  · rcases hk with rfl | rfl <;> simp [hij]
  · rcases hk with rfl | rfl
    · rw [Function.update_of_ne hij, Function.update_self, hi]
    · rw [Function.update_self, hj]

omit hs in
/-- A run of the network: its logs grow, and what is held at the start gets to all that are
informed. -/
theorem networkRun_grows {X : Finset EventId} (steps : List (NetworkStep ι))
    (hsteps : offered steps ⊆ U) :
    ∀ {s : ι → EventLog} {S}, Sound U s → (∀ k ∈ S, X ⊆ (s k).heldIds c) →
      (∀ k, Grows U (s k) (networkRun s steps k)) ∧
        ∀ k ∈ informed c steps S, X ⊆ (networkRun s steps k).heldIds c := by
  induction steps with
  | nil => exact fun hs hX => ⟨hs.refl, hX⟩
  | cons x steps ih =>
    intro s S hs hX
    have hoffered : offered (x :: steps) = offered [x] ++ offered steps :=
      filterMap_append (l := [x])
    rw [hoffered, append_subset] at hsteps
    have hstep := networkStep_grows hagree hfits hs x hsteps.1
    have hX' : ∀ k ∈ S, X ⊆ (networkStep s x k).heldIds c :=
      fun k hk => (hX k hk).trans ((hstep k).heldIds c)
    have hrest : ∀ S', (∀ k ∈ S', X ⊆ (networkStep s x k).heldIds c) →
        (∀ k, Grows U (s k) (networkRun s (x :: steps) k)) ∧
          ∀ k ∈ informed c steps S', X ⊆ (networkRun s (x :: steps) k).heldIds c := by
      intro S' hS'
      obtain ⟨hgrows, hinf⟩ := ih hsteps.2 (.of_grows hstep) hS'
      exact ⟨fun k => (hstep k).trans (hgrows k), hinf⟩
    cases x with
    | append i e => exact hrest S hX'
    | reconcile i j c' =>
      rw [informed]
      split_ifs with hc
      · obtain ⟨rfl, hor⟩ := hc
        have hshare := reconcile_shares hagree hfits hs i j c'
        have hXu : X ⊆ (s i).heldIds c' ∪ (s j).heldIds c' := hor.elim
          (fun h => (hX i h).trans Finset.subset_union_left) fun h =>
            (hX j h).trans Finset.subset_union_right
        refine hrest _ fun k hk => ?_
        rw [Finset.mem_insert, Finset.mem_insert] at hk
        rcases hk with hk | hk | hk
        · exact hXu.trans (hshare k (.inl hk))
        · exact hXu.trans (hshare k (.inr hk))
        · exact hX' k hk
      · exact hrest S hX'

end Undisputed

/-- **News spreads through a network.** In every run of any number of devices that append and
reconcile in whatever order, of events no two of which dispute a sequence number: a device holds
only events that some device offered, it loses none, and what one held at a time is held in the end
by every device that reconciliations since lead to. -/
theorem news_spreads [DecidableEq ι] (c) (before after : List (NetworkStep ι))
    (hagree : ∀ c, Agree c (offered (before ++ after)))
    (hfits : ((offered (before ++ after)).map encodedEventSize).sum ≤ usizeMax - syncMargin) :
    let s := networkRun (fun _ => ∅) before
    let s' := networkRun (fun _ => ∅) (before ++ after)
    (∀ k i e, (s' k).get i = some e → e ∈ offered (before ++ after)) ∧
      (∀ k i e, (s k).get i = some e → (s' k).get i = some e) ∧
      ∀ i, ∀ k ∈ informed c after {i}, (s i).heldIds c ⊆ (s' k).heldIds c := by
  intro s s'
  have hsub : offered before ⊆ offered (before ++ after) ∧
    offered after ⊆ offered (before ++ after) := by
    rw [← append_subset, offered, offered, offered, filterMap_append]
    exact Subset.refl _
  have hrun : s' = networkRun s after := foldl_append
  have hstart : Sound (offered (before ++ after)) fun _ : ι => (∅ : EventLog) :=
    fun _ => ⟨[], indexes_appendAll [], nil_subset _⟩
  have hs : Sound (offered (before ++ after)) s :=
    .of_grows (networkRun_grows hagree hfits (c := c) (X := ∅) before hsub.1 hstart
      (S := ∅) (by simp)).1
  have hafter (i) := networkRun_grows hagree hfits (X := (s i).heldIds c) after hsub.2 hs (S := {i})
    fun k hk => by rw [Finset.mem_singleton.mp hk]
  rw [hrun]
  refine ⟨fun k i e he => ?_, fun k i e he => (((hafter k).1 k).get he).1, fun i => (hafter i).2⟩
  exact ((Sound.of_grows (hafter k).1).refl k |>.get he).2

omit [EventCrypto] in
theorem news_spreads_relayed : letI := sampleCrypto
    let e := sampleEvent 1 1 [] 5 .message
    (networkRun (fun _ : Fin 3 => ∅) [.append 0 e] 0).heldIds sampleConversation ⊆
      (networkRun (fun _ : Fin 3 => ∅) ([.append 0 e] ++ [.reconcile 0 1 sampleConversation,
        .reconcile 2 1 sampleConversation]) 2).heldIds sampleConversation := by
  let := sampleCrypto
  intro e
  refine (news_spreads sampleConversation [.append 0 e] [.reconcile 0 1 sampleConversation,
    .reconcile 2 1 sampleConversation] (fun c => ?_) (by decide)).2.2 0 2 (by decide)
  have hall : ∀ x ∈ [e], x = e := fun x => mem_singleton.mp
  exact ⟨fun x hx y hy _ _ _ _ => by rw [hall x hx, hall y hy], fun x hx y hy _ =>
    by rw [hall x hx, hall y hy]⟩

end MeshTalk.EventLog
