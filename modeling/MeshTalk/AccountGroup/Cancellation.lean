import MeshTalk.AccountGroup.Moves
import MeshTalk.Channel.Governance

/-! # Cancellations

A device that has taken a cancellation keeps it as a mark on the operation until the operation has
ended. The mark is a field of a row that is written whole, and not every writer of the row reads it:
a result that has not ended, an admission or a link without the cancellation, and a departure that
was read before the cancellation each write a row without the mark. -/

namespace MeshTalk.AccountGroup

open Lib Channel Journal Option List

namespace Journal

variable (j : Journal) (id : OperationId)

def settled : Bool := (j.entries.get id).any Entry.terminal

def marked : Bool :=
  match j.entries.get id with
  | some e => e.cancel
  | none => (j.lookups.get id).any (·.cancel)

/-- This device carries out an operation. -/
def acts : Bool := (j.entries.get id).any (·.source)

def Kept : Prop := j.settled id = true ∨ j.marked id = true

variable {j id} {k : Journal}

theorem kept_congr (he : k.entries.get id = j.entries.get id)
    (hl : k.lookups.get id = j.lookups.get id) :
    k.Kept id ↔ j.Kept id := by
  unfold Kept settled marked
  rw [he, hl]

theorem not_kept_of_unknown (he : j.entries.get id = none) (hl : j.lookups.get id = none) :
    ¬j.Kept id := by
  unfold Kept settled marked
  rw [he, hl]
  simp

theorem acts_iff : j.acts id = true ↔ ∃ e, j.entries.get id = some e ∧ e.source = true := by
  rw [acts, Option.any_eq_true]

theorem marked_of_entry {e} (he : j.entries.get id = some e) (hc : e.cancel = true) :
    j.marked id = true := by
  rwa [marked, he]

theorem marked_of_lookup {l} (he : j.entries.get id = none) (hl : j.lookups.get id = some l)
    (hc : l.cancel = true) : j.marked id = true := by
  rwa [marked, he, hl]

theorem settled_iff : j.settled id = true ↔ ∃ e, j.entries.get id = some e ∧ e.terminal = true := by
  rw [settled, Option.any_eq_true]

section

variable [Sha256] [EventCrypto] [Serde] [RecordJson] {c : Change}

omit [RecordJson] in
theorem Effect.acts (h : Effect j k c id) (ha : j.acts id = true) : k.acts id = true := by
  obtain ⟨old, hold, hsource⟩ := acts_iff.mp ha
  cases h with
  | unchanged entry lookup => exact acts_iff.mpr ⟨old, entry.trans hold, hsource⟩
  | put mem key fits entry lookup legs =>
    subst key
    exact acts_iff.mpr ⟨_, entry, (fits.follows old hold).source hsource⟩
  | lookup change key none entry lookup =>
    rw [none] at hold
    cases hold

omit [RecordJson] in
/-- A change keeps the mark if its rows have it, or end the operation, or are refused at its
source. -/
theorem Effect.kept (h : Effect j k c id) (hk : j.Kept id)
    (he : ∀ e ∈ c.entries, e.reference.id = id → j.settled id = false →
      e.terminal = true ∨ e.cancel = true ∨ (j.acts id = true ∧ ∃ batch, c = .legs batch))
    (hl : ∀ l, c = .lookup l → l.id = id → l.cancel = true) : k.Kept id := by
  cases h with
  | unchanged entry lookup => exact (kept_congr entry lookup).mpr hk
  | @put e sequence mem key fits entry lookup legs =>
    subst key
    cases hset : j.settled e.reference.id with
    | true =>
      obtain ⟨old, hold, hterm⟩ := settled_iff.mp hset
      refine .inl (settled_iff.mpr ⟨_, entry, ?_⟩)
      rw [Entry.terminal, ((fits.follows old hold).settled hterm).1]
      exact hterm
    | false =>
      rcases he e mem rfl hset with hterm | hcancel | ⟨hacts, batch, rfl⟩
      · exact .inl (settled_iff.mpr ⟨_, entry, hterm⟩)
      · refine .inr ?_
        rw [marked, entry]
        exact hcancel
      · obtain ⟨old, hold, hsource⟩ := acts_iff.mp hacts
        have hs : e.source = true := (fits.follows old hold).source hsource
        rw [legs batch rfl] at hs
        cases hs
  | @lookup l sequence change key none entry lookup =>
    refine .inr ?_
    rw [marked, entry, lookup, any_some]
    exact hl l change key

theorem entry_kept (hk : j.Kept id) {e} (io)
    (he : e.reference.id = id → j.settled id = false → e.terminal = true ∨ e.cancel = true) :
    (j.write io (.entry e)).2.Kept id := by
  refine (write_effect j io (.entry e) id).kept hk (fun e' hmem hid hset => ?_)
    (fun l hl => by cases hl)
  obtain rfl := mem_singleton.mp hmem
  exact (he hid hset).imp_right .inl

theorem lookup_kept (hk : j.Kept id) {l} (io) (hl : l.id = id → l.cancel = true) :
    (j.write io (.lookup l)).2.Kept id := by
  refine (write_effect j io (.lookup l) id).kept hk (fun e hmem => by cases hmem)
    (fun l' hl' hid => ?_)
  cases hl'
  exact hl hid

theorem legs_kept (hk : j.Kept id) {batch} (io)
    (he : ∀ e ∈ batch.entries, e.reference.id = id → e.cancel = true ∨ j.acts id = true) :
    (j.write io (.legs batch)).2.Kept id := by
  refine (write_effect j io (.legs batch) id).kept hk (fun e hmem hid _ => ?_)
    (fun l hl => by cases hl)
  exact .inr ((he e hmem hid).imp_right fun h => ⟨h, batch, rfl⟩)

end

end Journal

namespace Node

variable [Sha256] [EventCrypto] [Serde] [RecordJson] [Payloads] {id : OperationId}
  {a : Action} {n m : Node}

/-- What a step may take of an operation that is marked, so that the mark stays: requests that carry
the cancellation, or that find the operation at its source, results that have ended, no new legs,
and no departure that was read before. -/
structure Allows (n : Node) (id : OperationId) (a : Action) : Prop where
  request : ∀ r, a.request? = some r → r.reference.id = id →
    r.reference.executor.device = n.journal.device → r.cancel = true ∨ n.journal.acts id = true
  leg : ∀ leg v lio io, a = .legRequest leg v lio io → leg.request.reference.id = id →
    leg.request.cancel = true ∨ n.journal.acts id = true
  result : ∀ r, a.result? = some r → r.reference.id = id →
    r.status.phase.terminal = true ∨ n.journal.acts id = true
  legResult : ∀ sender leg v lio, a = .legResult sender leg v lio → leg.result.reference.id = id →
    n.journal.acts id = true
  plan : ∀ plan legs io, a = .planLegs plan legs io → ∀ leg ∈ legs, leg.id ≠ id
  settle : ∀ parent plan children zero io, a = .settleDeparture parent plan children zero io →
    parent.reference.id = id →
    parent.cancel = true ∨ (departureStatus parent plan children zero).phase.terminal = true

omit [Payloads] in
theorem move_acts (hs : n.journal.Sound) (b) (h : n.journal.acts id = true) :
    (n.move b).journal.acts id = true := by
  refine move_journal (P := fun j => j.acts id = true) b h
    (fun io c => (write_effect _ io c id).acts h) fun j hk => ?_
  rw [acts, (hs.openRows hk).2.entries]
  exact h

theorem Allows.move (h : n.Allows id a) (hs : n.journal.Sound) (b) : (n.move b).Allows id a where
  request r hr hid hself := (h.request r hr hid (hself.trans (move_scope n b).2)).imp_right
    (move_acts hs b)
  leg leg v lio io ha hid := (h.leg leg v lio io ha hid).imp_right (move_acts hs b)
  result r hr hid := (h.result r hr hid).imp_right (move_acts hs b)
  legResult sender leg v lio ha hid := move_acts hs b (h.legResult sender leg v lio ha hid)
  plan := h.plan
  settle := h.settle

omit [Sha256] [EventCrypto] [Serde] [RecordJson] [Payloads] in
theorem known_eq_none (h : n.known id = none) :
    n.journal.entries.get id = none ∧ n.journal.lookups.get id = none := by
  unfold known at h
  rw [or_eq_none_iff, map_eq_none_iff, map_eq_none_iff] at h
  exact h

omit [Sha256] [EventCrypto] [Serde] [RecordJson] [Payloads] in
theorem Kept.cancel {e} (h : n.journal.Kept id) (hget : n.journal.entries.get id = some e)
    (hset : n.journal.settled id = false) : e.cancel = true := by
  rcases h with h | h
  · rw [hset] at h
    cases h
  · rwa [marked, hget] at h

omit [EventCrypto] [Serde] [RecordJson] [Payloads] in
theorem Allows.cancel {r} (h : n.Allows id a) (ha : a.request? = some r) (hid : r.reference.id = id)
    (hself : r.reference.executor.device = n.journal.device)
    (hold : ∀ e, n.journal.entries.get r.reference.id = some e → e.source = false) :
    r.cancel = true := by
  rcases h.request r ha hid hself with hc | hacts
  · exact hc
  · obtain ⟨e, he, hsource⟩ := acts_iff.mp hacts
    rw [hold e (hid ▸ he)] at hsource
    cases hsource

omit [EventCrypto] [Serde] [RecordJson] [Payloads] in
theorem Allows.terminal {r} (h : n.Allows id a) (ha : a.result? = some r)
    (hid : r.reference.id = id)
    (hnew : n.ignoresResult r = false) : r.status.phase.terminal = true := by
  rcases h.result r ha hid with ht | hacts
  · exact ht
  · obtain ⟨e, he, hsource⟩ := acts_iff.mp hacts
    rw [ignoresResult, hid, he] at hnew
    simp only [hsource, Bool.true_or] at hnew
    cases hnew

omit [Payloads] in
/-- **No move that a step may make removes the mark.** -/
theorem May.kept {b} (h : May a n b) (hs : n.journal.Sound) (hal : n.Allows id a)
    (hk : n.journal.Kept id) : (n.move b).journal.Kept id := by
  cases h with
  | published count => exact hk
  | finished hp hdone => exact hk
  | began hp hw hlegs hkeep => exact hk
  | submitted ha hnew hid hown hactive =>
    refine entry_kept hk _ fun hid' _ => ?_
    obtain rfl := hid.symm.trans hid'
    exact absurd hk (not_kept_of_unknown (known_eq_none hnew).1 (known_eq_none hnew).2)
  | looked ha hnew hid =>
    refine lookup_kept hk _ fun hid' => ?_
    obtain rfl := hid.symm.trans hid'
    exact absurd hk (not_kept_of_unknown (known_eq_none hnew).1 (known_eq_none hnew).2)
  | cancelled ha hget hactive => exact entry_kept hk _ fun _ _ => .inr rfl
  | cancelledLookup ha hnone hget => exact lookup_kept hk _ fun _ => rfl
  | completed hp hop hw => exact entry_kept hk _ fun _ _ => .inl rfl
  | learned ha hw hcancel => exact entry_kept hk _ fun _ _ => .inr rfl
  | admitted ha hself hp hold hphase =>
    exact entry_kept hk _ fun hid _ => .inr (hal.cancel ha hid hself hold)
  | waiting ha hself hcancel hold =>
    refine entry_kept hk _ fun hid _ => ?_
    rw [hal.cancel ha hid hself hold] at hcancel
    cases hcancel
  | retired ha hleg hself hget href hactive => exact entry_kept hk _ fun _ _ => .inl rfl
  | repeated hget hsource =>
    refine entry_kept hk _ fun hid hset => .inr ?_
    rw [← (hs.entries _ _ hget).1, hid] at hget
    exact Kept.cancel hk hget hset
  | held ha hother hnone hfresh =>
    refine entry_kept hk _ fun hid _ => ?_
    subst hid
    exact absurd hk (not_kept_of_unknown hnone hfresh)
  | imported ha hnew => exact entry_kept hk _ fun hid _ => .inl (hal.terminal ha hid hnew)
  | answered hcancel hget hsource hactive => exact entry_kept hk _ fun _ _ => .inr rfl
  | linkedRequest ha hnew =>
    refine legs_kept hk _ fun e he hid => ?_
    obtain rfl := mem_singleton.mp he
    exact hal.leg _ _ _ _ ha hid
  | linkedResult ha hnew =>
    refine legs_kept hk _ fun e he hid => .inr ?_
    obtain rfl := mem_singleton.mp he
    exact hal.legResult _ _ _ _ ha hid
  | stopped hp hw hlegs hphase =>
    exact entry_kept hk _ fun _ _ => .inl (Phase.terminal_of_stopped hphase)
  | nothing hp hw hlegs hkeep => exact entry_kept hk _ fun _ _ => .inl rfl
  | planned ha =>
    refine legs_kept hk _ fun e he hid => ?_
    obtain ⟨leg, hleg, rfl⟩ := mem_map.mp he
    exact absurd hid (hal.plan _ _ _ ha leg hleg)
  | legCancelled ha => exact entry_kept hk _ fun _ _ => .inr rfl
  | departureStopped ha hcancel => exact entry_kept hk _ fun _ _ => .inl rfl
  | departureSettled ha =>
    exact entry_kept hk _ fun hid _ => (hal.settle _ _ _ _ _ ha hid).symm
  | prepared =>
    exact (write_effect _ _ _ id).kept hk (fun e he => by cases he) (fun l hl => by cases hl)
  | copied hget hdone =>
    refine entry_kept hk _ fun _ _ => .inl ?_
    rw [Entry.terminal, hdone]
    rfl
  | reopened ha =>
    unfold move
    cases ho : openRows n.journal.account n.journal.device n.journal.rows with
    | error e => exact hk
    | ok j => exact (kept_congr ((hs.openRows ho).2.entries id)
        ((hs.openRows ho).2.lookups id)).mpr hk

theorem Moves.kept (h : n.Moves a m) (hs : n.journal.Sound) (hal : n.Allows id a)
    (hk : n.journal.Kept id) : m.journal.Kept id := by
  have hinv := Chain.inv (I := fun k : Node => k.journal.Sound ∧ k.Allows id a ∧ k.journal.Kept id)
    (fun k b ⟨h1, h2, h3⟩ hb => ⟨move_sound h1 b, h2.move h1 b, hb.kept h1 h2 h3⟩) h ⟨hs, hal, hk⟩
  exact hinv.2.2

/-! ### Steps -/

/-- A step writes no row without the mark over an operation that has not ended: a request that is
admitted or a leg that is linked carries the cancellation, a result that is imported has ended, and
a departure is not written back as it was read before the cancellation. -/
def carries (id : OperationId) (n : Node) (a : Action) : Bool :=
  n.journal.settled id ||
    match a with
    | .request r _ _ _ => r.reference.id ≠ id || r.reference.executor.device ≠ n.journal.device ||
        r.cancel || n.journal.acts id
    | .result _ r _ => r.reference.id ≠ id || r.status.phase.terminal || n.ignoresResult r
    | .legRequest leg _ _ _ =>
        leg.request.reference.id ≠ id || leg.request.cancel || n.journal.acts id ||
        (n.journal.legacyChildren.has id && leg.request.reference.executor.device ≠
          n.journal.device)
    | .legResult _ leg _ _ => leg.result.reference.id ≠ id || n.journal.acts id ||
        (n.journal.legacyChildren.has id &&
          (leg.result.status.phase.terminal || n.ignoresResult leg.result))
    | .planLegs _ legs _ => legs.all fun leg => leg.id ≠ id
    | .settleDeparture parent plan children zero _ => parent.reference.id ≠ id || parent.cancel ||
        (departureStatus parent plan children zero).phase.terminal
    | _ => true

omit [EventCrypto] [Serde] [RecordJson] [Payloads] in
/-- A result that is not ignored may be taken if it has ended. -/
theorem allows_result {sender r v} (h : r.reference.id = id → r.status.phase.terminal = true) :
    n.Allows id (.result sender r v) where
  request := fun _ h => nomatch h
  leg := fun _ _ _ _ h => nomatch h
  result r' hr hid := by
    cases hr
    exact .inl (h hid)
  legResult := fun _ _ _ _ h => nomatch h
  plan := fun _ _ _ h => nomatch h
  settle := fun _ _ _ _ _ h => nomatch h

theorem import_kept {r} (v) (hs : n.journal.Sound) (hk : n.journal.Kept id)
    (h : r.reference.id ≠ id ∨ r.status.phase.terminal = true ∨ n.ignoresResult r = true) :
    (n.importGroupOperationResult r v).2.journal.Kept id := by
  by_cases hi : n.ignoresResult r = true
  · rw [importGroupOperationResult, if_pos hi]
    exact hk
  · refine (importGroupOperationResult_moves (a := .result n.journal.device r v) v rfl).kept hs
      (allows_result fun hid => ?_) hk
    rcases h with h | h | h
    · exact absurd hid h
    · exact h
    · exact absurd h hi

theorem takeLegResult_kept {leg v lio} (hs : n.journal.Sound) (hk : n.journal.Kept id)
    (hlinked : n.journal.legacyChildren.has leg.result.reference.id = true)
    (h : leg.result.status.phase.terminal = true ∨ n.ignoresResult leg.result = true) :
    (n.takeLegResult leg v lio).2.journal.Kept id := by
  obtain ⟨parent, hparent⟩ := Table.has_eq_true.mp hlinked
  unfold takeLegResult
  dsimp only [wrote, putLegacyChild, legEntry]
  rw [hparent]
  dsimp only
  split_ifs
  · exact hk
  · exact import_kept v hs hk (.inr h)
  · exact hk

theorem takeLegRequest_linked {leg v lio io}
    (hlinked : n.journal.legacyChildren.has leg.request.reference.id = true)
    (hother : leg.request.reference.executor.device ≠ n.journal.device) :
    (n.takeLegRequest leg v lio io).2 = n := by
  obtain ⟨parent, hparent⟩ := Table.has_eq_true.mp hlinked
  unfold takeLegRequest
  dsimp only [wrote, putLegacyChild, legEntry]
  rw [hparent]
  dsimp only
  split_ifs <;> first | rfl | simp_all

omit [Payloads] in
theorem move_settled (hs : n.journal.Sound) (b) (h : n.journal.settled id = true) :
    (n.move b).journal.settled id = true := by
  obtain ⟨old, hold, hterm⟩ := settled_iff.mp h
  refine move_journal (P := fun j => j.settled id = true) b h (fun io c => ?_) fun j hk => ?_
  · have heff := write_effect n.journal io c id
    cases heff with
    | unchanged entry lookup => exact settled_iff.mpr ⟨old, entry.trans hold, hterm⟩
    | put mem key fits entry lookup legs =>
      subst key
      refine settled_iff.mpr ⟨_, entry, ?_⟩
      rw [Entry.terminal, ((fits.follows old hold).settled hterm).1]
      exact hterm
    | lookup change key none entry lookup =>
      rw [none] at hold
      cases hold
  · rw [settled, (hs.openRows hk).2.entries]
    exact h

theorem Moves.settled (h : n.Moves a m) (hs : n.journal.Sound)
    (hset : n.journal.settled id = true) :
    m.journal.settled id = true :=
  (Chain.inv (I := fun k : Node => k.journal.Sound ∧ k.journal.settled id = true)
    (fun _ b hk _ => ⟨move_sound hk.1 b, move_settled hk.1 b hk.2⟩) h ⟨hs, hset⟩).2

omit [EventCrypto] [Serde] [RecordJson] [Payloads] in
/-- An action that takes nothing of other devices. -/
theorem allows_plain (hreq : a.request? = none) (hres : a.result? = none)
    (hplan : ∀ plan legs io, a = .planLegs plan legs io → ∀ leg ∈ legs, leg.id ≠ id)
    (hsettle : ∀ parent plan children zero io, a = .settleDeparture parent plan children zero io →
      parent.reference.id = id →
      parent.cancel = true ∨ (departureStatus parent plan children zero).phase.terminal = true) :
    n.Allows id a where
  request r hr := by rw [hreq] at hr; cases hr
  leg leg v lio io ha := by rw [ha] at hreq; cases hreq
  result r hr := by rw [hres] at hr; cases hr
  legResult sender leg v lio ha := by rw [ha] at hres; cases hres
  plan := hplan
  settle := hsettle

section

variable (hs : n.journal.Sound)
include hs

/-- **A step that carries the cancellation keeps it.** -/
theorem step_kept (hk : n.journal.Kept id) (hc : n.carries id a = true) :
    (n.step a).journal.Kept id := by
  have hmoves := step_moves hs a
  by_cases hset : n.journal.settled id = true
  · exact .inl (hmoves.settled hs hset)
  rw [Bool.not_eq_true] at hset
  unfold carries at hc
  rw [hset, Bool.false_or] at hc
  cases a with
  | result sender r v =>
    simp only [Bool.or_eq_true, decide_eq_true_eq] at hc
    rw [step]
    split_ifs
    · exact import_kept v hs hk (by tauto)
    · exact hk
  | legResult sender leg v lio =>
    simp only [Bool.or_eq_true, Bool.and_eq_true, decide_eq_true_eq] at hc
    by_cases hdone : n.journal.legacyChildren.has leg.result.reference.id = true ∧
        (leg.result.status.phase.terminal = true ∨ n.ignoresResult leg.result = true)
    · rw [step]
      split_ifs
      · exact takeLegResult_kept hs hk hdone.1 hdone.2
      · exact hk
    · have hacts : leg.result.reference.id = id → n.journal.acts id = true := by
        rintro rfl
        tauto
      exact hmoves.kept hs
        { request := fun _ h => by cases h
          leg := fun _ _ _ _ h => by cases h
          result := fun r hr hid => .inr (by cases hr; exact hacts hid)
          legResult := fun _ _ _ _ ha hid => by cases ha; exact hacts hid
          plan := fun _ _ _ h => by cases h
          settle := fun _ _ _ _ _ h => by cases h } hk
  | request r v asked io =>
    simp only [Bool.or_eq_true, decide_eq_true_eq] at hc
    exact hmoves.kept hs
      { request := fun r' hr hid hself => by cases hr; tauto
        leg := fun _ _ _ _ h => by cases h
        result := fun _ h => by cases h
        legResult := fun _ _ _ _ h => by cases h
        plan := fun _ _ _ h => by cases h
        settle := fun _ _ _ _ _ h => by cases h } hk
  | legRequest leg v lio io =>
    simp only [Bool.or_eq_true, Bool.and_eq_true, decide_eq_true_eq] at hc
    by_cases hdone : n.journal.legacyChildren.has leg.request.reference.id = true ∧
        leg.request.reference.executor.device ≠ n.journal.device
    · rw [step]
      split_ifs
      · rwa [takeLegRequest_linked hdone.1 hdone.2]
      · exact hk
    · have hcancel : leg.request.reference.id = id → leg.request.cancel = true ∨
          n.journal.acts id = true := by
        rintro rfl
        tauto
      exact hmoves.kept hs
        { request := fun r hr hid _ => by cases hr; exact hcancel hid
          leg := fun _ _ _ _ ha hid => by cases ha; exact hcancel hid
          result := fun _ h => by cases h
          legResult := fun _ _ _ _ h => by cases h
          plan := fun _ _ _ h => by cases h
          settle := fun _ _ _ _ _ h => by cases h } hk
  | planLegs plan legs io =>
    simp only [List.all_eq_true, decide_eq_true_eq] at hc
    exact hmoves.kept hs (allows_plain rfl rfl (fun _ _ _ ha => by cases ha; exact hc)
      fun _ _ _ _ _ h => by cases h) hk
  | settleDeparture parent plan children zero io =>
    simp only [Bool.or_eq_true, decide_eq_true_eq] at hc
    exact hmoves.kept hs (allows_plain rfl rfl (fun _ _ _ h => by cases h)
      fun _ _ _ _ _ ha hid => by cases ha; tauto) hk
  | _ => exact hmoves.kept hs (allows_plain rfl rfl (fun _ _ _ h => by cases h)
      fun _ _ _ _ _ h => by cases h) hk

theorem step_sound (a) : (n.step a).journal.Sound :=
  (step_moves hs a).sound hs

theorem run_sound (actions) : (n.run actions).journal.Sound := by
  induction actions generalizing n with
  | nil => exact hs
  | cons a rest ih => exact ih (step_sound hs a)

/-- A cancellation that is taken marks its operation, or finds that it has ended. -/
theorem cancel_kept {user recovery io status} (h : (n.cancel user id recovery io).1 = .ok status) :
    (n.cancel user id recovery io).2.journal.Kept id := by
  revert h
  unfold cancel
  split_ifs
  · exact fun h => by cases h
  have hs' : (n.recoverDelivery recovery).2.journal.Sound :=
    (recoverDelivery_moves (a := .recover recovery) recovery n).sound hs
  generalize (n.recoverDelivery recovery).2 = m at hs' ⊢
  dsimp only
  cases he : m.journal.entries.get id with
  | some e =>
    dsimp only
    split_ifs with ht
    · exact fun _ => .inl (settled_iff.mpr ⟨e, he, ht⟩)
    · intro h
      rcases put_cases (j := m.journal) io (cancelRequested e) with
        ⟨⟨err, herr⟩, -⟩ | ⟨-, -, rows, -, heq⟩
      · rw [wrote, herr] at h
        cases h
      · refine .inr (marked_of_entry (e := stored (cancelRequested e) (m.journal.sequence + 1)) ?_
          rfl)
        rw [wrote, heq]
        exact (get_install ..).trans (if_pos (hs'.entries _ _ he).1.symm)
  | none =>
    cases hl : m.journal.lookups.get id with
    | none => exact fun h => by cases h
    | some l =>
      intro h
      dsimp only at h ⊢
      rcases putLookup_cases (j := m.journal) io { l with
          cancel := true, status := { l.status with phase := .cancellationRequested } } with
        ⟨⟨err, herr⟩, -⟩ | ⟨-, -, rows, -, heq⟩
      · rw [wrote, herr] at h
        cases h
      · refine .inr (marked_of_lookup (l := { l with
          cancel := true, status := { l.status with phase := .cancellationRequested }
          sequence := m.journal.sequence + 1 }) ?_ ?_ rfl)
        · rw [wrote, heq]
          exact he
        · rw [wrote, heq]
          exact (lookups_installLookup ..).trans (if_pos (hs'.lookups _ _ hl).1.symm)

end

/-! ### Publication -/

/-- Every request that a device publishes for an operation carries the cancellation. -/
def AsksCancel (n : Node) (id : OperationId) : Prop :=
  ∀ (group : ConversationId) (v : PublishView) (start : ℕ),
    (∀ r ∈ (n.operationProjection group v).requests, r.reference.id = id → r.cancel = true) ∧
    (∀ l ∈ (n.operationProjection group v).lookups, l.id = id → l.cancel = true) ∧
    ∀ leg ∈ (n.legacyLeaveProjection group v start).1, leg.request.reference.id = id →
      leg.request.cancel = true

omit [Sha256] [EventCrypto] [Serde] [RecordJson] [Payloads] in
theorem trimmed_keeps (fits) : ∀ (k : ℕ) (p : OperationProjection),
    (trimmed fits k p).requests = p.requests ∧ (trimmed fits k p).lookups = p.lookups
  | 0, _ => ⟨rfl, rfl⟩
  | k + 1, p => by
    unfold trimmed
    split_ifs
    · exact ⟨rfl, rfl⟩
    · exact trimmed_keeps fits k { p with results := p.results.dropLast }

omit [Sha256] [EventCrypto] [Serde] [RecordJson] [Payloads] in
theorem mem_of_mem_rotateLeft {α : Type} {x} {l : List α} {k} (h : x ∈ l.rotateLeft k) : x ∈ l := by
  unfold rotateLeft at h
  dsimp only at h
  split_ifs at h
  · exact h
  · rcases mem_append.mp h with h | h
    · exact mem_of_mem_drop h
    · exact mem_of_mem_take h

omit [Sha256] [EventCrypto] [Serde] [RecordJson] [Payloads] in
theorem mem_latest {p e} (h : e ∈ n.latest p) : ∃ id, n.journal.entries.get id = some e := by
  unfold latest at h
  rw [List.mem_mergeSort, List.mem_filter, List.mem_map] at h
  obtain ⟨⟨⟨id, e'⟩, hmem, rfl⟩, -⟩ := h
  exact ⟨id, Table.mem_byKey.mp hmem⟩

omit [Payloads] in
theorem marked_latest (hs : n.journal.Sound) (hm : n.journal.marked id = true) {p e}
    (h : e ∈ n.latest p) (hid : e.reference.id = id) : e.cancel = true := by
  obtain ⟨id', he⟩ := mem_latest h
  obtain rfl := (hs.entries id' e he).1.symm.trans hid
  rwa [marked, he] at hm

omit [Sha256] [EventCrypto] [Serde] [RecordJson] [Payloads] in
theorem requestOf_eq_some {v e r} (h : requestOf v e = some r) :
    r.reference = e.reference ∧ r.cancel = e.cancel := by
  unfold requestOf at h
  dsimp only at h
  split_ifs at h <;> (cases h; exact ⟨rfl, rfl⟩)

omit [Payloads] in
/-- **What is marked is asked for with the cancellation only.** -/
theorem asksCancel_of_marked (hs : n.journal.Sound) (hm : n.journal.marked id = true) :
    n.AsksCancel id := by
  intro group v start
  refine ⟨fun r hr hid => ?_, fun l hl hid => ?_, fun leg hleg hid => ?_⟩
  · unfold operationProjection at hr
    rw [(trimmed_keeps ..).1] at hr
    obtain ⟨e, he, hre⟩ := mem_filterMap.mp (mem_of_mem_take hr)
    have he := mem_of_mem_take (mem_filter.mp he).1
    obtain ⟨href, hcancel⟩ := requestOf_eq_some hre
    rw [hcancel]
    exact marked_latest hs hm (mem_filter.mp he).1 (href ▸ hid)
  · unfold operationProjection at hl
    rw [(trimmed_keeps ..).2] at hl
    obtain ⟨l', hl', rfl⟩ := mem_map.mp hl
    have hl' := (mem_filter.mp (mem_of_mem_take hl')).1
    obtain ⟨⟨id', l''⟩, hmem, rfl⟩ := mem_map.mp hl'
    have hget := Table.mem_byKey.mp hmem
    obtain rfl := (hs.lookups id' l'' hget).1.symm.trans hid
    cases he : n.journal.entries.get id' with
    | some e =>
      rw [hs.apart id' e he] at hget
      cases hget
    | none => rwa [marked, he, hget, any_some] at hm
  · obtain ⟨⟨parent, e⟩, hmem, rfl⟩ := mem_map.mp hleg
    have hmem := mem_of_mem_rotateLeft (mem_of_mem_take hmem)
    obtain ⟨e', he', hp⟩ := mem_filterMap.mp (mem_filter.mp hmem).1
    obtain ⟨parent', -, hpair⟩ := map_eq_some_iff.mp hp
    cases hpair
    exact marked_latest hs hm he' hid

/-- **A cancellation is never forgotten**, as long as no step writes a row without it: in every
state after it was taken the operation has ended, or it is marked and every request for it says
so. -/
theorem cancellation_kept (account : PubKey) (device : PublicIdentity) (before after : List Action)
    (user : String) (id : OperationId) (recovery : List RecoverIo) (io : Io) (status : Status)
    (htaken : (((fresh account device).run before).cancel user id recovery io).1 = .ok status)
    (hafter : Along Node.step (fun n a => n.carries id a = true)
      (((fresh account device).run before).cancel user id recovery io).2 after) :
    let n := (((fresh account device).run before).cancel user id recovery io).2.run after
    n.journal.settled id = true ∨ (n.journal.marked id = true ∧ n.AsksCancel id) := by
  have hs := run_sound (n := fresh account device) (Journal.sound_fresh account device) before
  have hs' : (((fresh account device).run before).cancel user id recovery io).2.journal.Sound :=
    step_sound hs (.cancel user id recovery io)
  obtain ⟨hsound, hkept⟩ := Along.inv (I := fun n : Node => n.journal.Sound ∧ n.journal.Kept id)
    (fun n a hn hc => ⟨step_sound hn.1 a, step_kept hn.1 hn.2 hc⟩)
      ⟨hs', cancel_kept hs htaken⟩ hafter
  exact hkept.imp_right fun hm => ⟨hm, asksCancel_of_marked hsound hm⟩

end Node

/-! ### A sample account -/

/-- Serialized forms are empty, and no file is in a body. -/
@[reducible] def sampleSerde : Serde where
  operation _ := []
  reference _ _ _ _ _ _ := []
  descriptor _ _ _ _ _ _ := []
  encodePayload _ := none
  decodePayload _ := none
  manifestLogical _ := none
  manifestFile _ := none

@[reducible] def sampleJson : RecordJson where
  record _ := 0
  plan _ := 0
  link _ _ := 0
  reference _ := 0

/-- Every body may be executed. -/
@[reducible] def samplePayloads : Payloads where
  validExecutionPayload _ := true
  normalizeSimpleName name := some name
  expiresAtMs _ := none
  validateNewAdmission _ := true

section Sample

variable [Sha256]

def sampleProof (k : ℕ) : Announce :=
  ⟨(sampleDevice k).userId, (sampleDevice k).ed25519Pub, (sampleDevice k).x25519Pub, "device", 1,
    false, some ⟨9, (sampleDevice k).ed25519Pub, List.replicate 64 0⟩, List.replicate 64 0⟩

def sampleSource (k : ℕ) : Source :=
  ⟨sampleDevice k, .owner, ⟨sampleDevice k, ⟨1⟩, none⟩, ⟨none, 1⟩, .localDevice⟩

def sampleOperation (k : ℕ) : OperationId := ⟨originTag (sampleDevice k) ++ (1 : BitVec 128)⟩

/-- Device 1 asks for a new name of group 7, which device 2 is to give it. -/
def sampleSubmission : Node.Submission where
  expectedAccount := accountIdFrom 9
  id := sampleOperation 1
  group := ⟨7⟩
  operation := .rename "lounge"
  suspended := false
  lookupFits := true
  metadata := .ok ()
  access := .ok ⟨.owner, [sampleSource 2]⟩
  recallAuthor := .error (.channel "no message")
  ready _ := true
  proof := sampleProof 1
  signature := List.replicate 64 0
  prepared := .ok
  requestFits := true

def sampleReference [Serde] : OperationReference :=
  ⟨sampleOperation 1, ⟨7⟩, .rename, operationDigest ⟨7⟩ (.rename "lounge"), sampleProof 1,
    sampleSource 2, List.replicate 64 0⟩

/-- The file system does what it is asked. -/
def sampleIo : Io := ⟨.ok (), .ok ()⟩

def sampleResult [Serde] (phase : Phase) : Action :=
  .result (sampleDevice 2)
    ⟨sampleReference, ⟨sampleOperation 1, accountIdFrom 9, ⟨7⟩, .rename, phase,
    [⟨(sampleDevice 2).userId, phase, []⟩], [], none⟩, none, none⟩ ⟨.ok false, .ok (), sampleIo⟩

/-- What a device publishes, with all devices ready. -/
def samplePublish : Node.PublishView :=
  ⟨fun _ => false, fun _ _ => true, fun _ => true, fun _ => 0, fun _ _ => none, fun _ => true⟩

end Sample

namespace Node

theorem cancellation_kept_sample : letI := sampleDigest; letI := sampleSigner; letI := sampleSerde
    letI := sampleJson; letI := samplePayloads
    let n := (((fresh 9 (sampleDevice 1)).run [.submit sampleSubmission sampleIo]).cancel
      (accountIdFrom 9)
      (sampleOperation 1) [] sampleIo).2.run [.reopen [], sampleResult .cancelled]
    n.journal.settled (sampleOperation 1) = true ∨
      (n.journal.marked (sampleOperation 1) = true ∧ n.AsksCancel (sampleOperation 1)) :=
  let := sampleDigest
  let := sampleSigner
  let := sampleSerde
  let := sampleJson
  let := samplePayloads
  cancellation_kept 9 (sampleDevice 1) [.submit sampleSubmission sampleIo]
    [.reopen [], sampleResult .cancelled] (accountIdFrom 9) (sampleOperation 1) [] sampleIo
    { id := sampleOperation 1, accountId := accountIdFrom 9, group := ⟨7⟩, kind := .rename,
      phase := .cancellationRequested, executions :=
        [⟨(sampleDevice 2).userId, .awaitingAcceptance, []⟩],
      committedEvents := [], primaryEvent := none } (by decide +kernel) (by decide +kernel)

/-- **A result that was published before the cancellation removes the mark**: the operation has not
ended, and the device asks for it again without the cancellation. -/
theorem cancellation_forgotten : letI := sampleDigest; letI := sampleSigner; letI := sampleSerde
    letI := sampleJson; letI := samplePayloads
    let taken := ((fresh 9 (sampleDevice 1)).run [.submit sampleSubmission sampleIo]).cancel
      (accountIdFrom 9) (sampleOperation 1) [] sampleIo
    let n := taken.2.run [sampleResult .accepted]
    taken.1.isOk = true ∧ taken.2.journal.marked (sampleOperation 1) = true ∧
      n.journal.settled (sampleOperation 1) = false ∧ n.journal.marked (sampleOperation 1) = false ∧
      ∃ r ∈ (n.operationProjection ⟨7⟩ samplePublish).requests,
        r.reference.id = sampleOperation 1 ∧ r.cancel = false := by
  decide +kernel

end Node

end MeshTalk.AccountGroup
