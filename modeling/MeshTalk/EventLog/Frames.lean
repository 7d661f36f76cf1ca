import MeshTalk.EventLog.Sync

/-! # Follow-up frames

What one side sends after a response is cut twice: the export keeps what fits a number of frames,
and `followupFrames` packs it. Both compute the same sizes apart from each other. -/

namespace MeshTalk.EventLog

open Lib List

/-! ### Greedy packing -/

section Pack

variable {τ : Type*} (size : τ → ℕ) (budget : ℕ)

/-- Pack what is left behind an open frame with some bytes. A frame is closed before what would
exceed the budget. -/
def packFrom : List τ → List τ → ℕ → List (List τ)
  | [], frame, _ => if frame = [] then [] else [frame]
  | e :: rest, frame, used =>
    if frame ≠ [] ∧ saturatingAdd usizeMax used (size e) > budget then
      frame :: packFrom rest [e] (saturatingAdd usizeMax 0 (size e))
    else packFrom rest (frame ++ [e]) (saturatingAdd usizeMax used (size e))

def pack (es : List τ) : List (List τ) := packFrom size budget es [] 0

variable {size budget}

theorem flatten_packFrom : ∀ (es frame : List τ) (used : ℕ),
    (packFrom size budget es frame used).flatten = frame ++ es
  | [], frame, _ => by
    unfold packFrom
    split_ifs with h <;> simp [h]
  | e :: es, frame, used => by
    unfold packFrom
    split_ifs
    · rw [flatten_cons, flatten_packFrom es]
      rfl
    · rw [flatten_packFrom es, append_assoc]
      rfl

def Fits (size : τ → ℕ) (budget : ℕ) (frame : List τ) : Prop :=
  min usizeMax (frame.map size).sum ≤ budget ∨ ∃ e, frame = [e]

theorem fits_packFrom : ∀ {es frame : List τ}, (frame = [] ∨ Fits size budget frame) →
    ∀ f ∈ packFrom size budget es frame (min usizeMax (frame.map size).sum), f ≠ [] ∧
      Fits size budget f
  | [], frame, h, f, hf => by
    unfold packFrom at hf
    split_ifs at hf with hframe
    · cases hf
    · rw [mem_singleton.mp hf]
      exact ⟨hframe, h.resolve_left hframe⟩
  | e :: es, frame, h, f, hf => by
    unfold packFrom at hf
    have hone : saturatingAdd usizeMax 0 (size e) = min usizeMax ([e].map size).sum := by
      simp [saturatingAdd]
    have hmore : saturatingAdd usizeMax (min usizeMax (frame.map size).sum) (size e) =
        min usizeMax ((frame ++ [e]).map size).sum := by
      simp only [saturatingAdd, map_append, sum_append, map_cons, map_nil, sum_singleton]
      omega
    split_ifs at hf with hover
    · rcases mem_cons.mp hf with rfl | hf
      · exact ⟨hover.1, h.resolve_left hover.1⟩
      · rw [hone] at hf
        exact fits_packFrom (.inr (.inr ⟨e, rfl⟩)) f hf
    · rw [hmore] at hf hover
      refine fits_packFrom (.inr ?_) f hf
      by_cases hframe : frame = []
      · exact .inr ⟨e, by rw [hframe, nil_append]⟩
      · exact .inl (not_lt.mp fun hlt => hover ⟨hframe, hlt⟩)

end Pack

/-! ### Both cuts -/

def closeFrames (c : ConversationId) (maxFrames : ℕ) (r : List SyncFollowup × List Event) :
    List SyncFollowup :=
  if r.2 ≠ [] ∧ r.1.length < maxFrames then r.1 ++ [⟨c, r.2⟩] else r.1

/-- **Both loops side by side.** The export never stops in a frame that packing would go on with, so
packing never meets its own limit. -/
theorem followupLoop_framePrefixFrom (c : ConversationId) (budget : ℕ) {maxFrames} :
    ∀ es frames frame used, frames.length < maxFrames →
    closeFrames c maxFrames
      (followupLoop c budget maxFrames (framePrefixFrom encodedEventSize budget maxFrames
        es used frames.length (decide (frame ≠ []))) frames frame used) =
      frames ++ ((packFrom encodedEventSize budget es frame used).take
        (maxFrames - frames.length)).map (⟨c, ·⟩)
  | [], frames, frame, used, hlt => by
    unfold framePrefixFrom followupLoop packFrom closeFrames
    by_cases hframe : frame = []
    · simp [hframe]
    · rw [if_pos ⟨hframe, hlt⟩, if_neg hframe,
        take_of_length_le (by simp only [length_singleton]; omega)]
      rfl
  | e :: es, frames, frame, used, hlt => by
    unfold framePrefixFrom packFrom
    rw [if_neg (by omega : maxFrames ≠ 0)]
    by_cases hover : frame ≠ [] ∧ saturatingAdd usizeMax used (encodedEventSize e) > budget
    · rw [if_pos hover, if_pos (by simpa using hover)]
      by_cases hlast : frames.length + 1 = maxFrames
      · rw [if_pos hlast, followupLoop, closeFrames, if_pos ⟨hover.1, hlt⟩,
          show maxFrames - frames.length = 1 by omega]
        rfl
      · have hlt' : (frames ++ [SyncFollowup.mk c frame]).length < maxFrames := by
          rw [length_append, length_singleton]
          omega
        have ih := followupLoop_framePrefixFrom c budget es (frames ++ [⟨c, frame⟩]) [e]
          (saturatingAdd usizeMax 0 (encodedEventSize e)) hlt'
        rw [length_append, length_singleton] at ih
        rw [if_neg hlast, followupLoop, if_pos hover, if_neg hlast]
        refine ih.trans ?_
        rw [show maxFrames - frames.length = maxFrames - (frames.length + 1) + 1 by omega,
          take_succ_cons, map_cons, append_assoc]
        rfl
    · rw [if_neg hover, if_neg (by simpa using hover), followupLoop, if_neg hover]
      have ih := followupLoop_framePrefixFrom c budget es frames (frame ++ [e])
        (saturatingAdd usizeMax used (encodedEventSize e)) hlt
      rwa [show decide (frame ++ [e] ≠ []) = true by simp] at ih

theorem followupFrames_eq_pack (c : ConversationId) (es : List Event) (budget maxFrames : ℕ) :
    followupFrames c (boundedEvents es budget maxFrames) budget maxFrames =
      ((pack encodedEventSize budget es).take maxFrames).map (⟨c, ·⟩) := by
  rcases Nat.eq_zero_or_pos maxFrames with rfl | hpos
  · have hnone : boundedEvents es budget 0 = [] := by cases es <;> rfl
    rw [hnone]
    rfl
  · exact followupLoop_framePrefixFrom c budget es [] [] 0 hpos

/-- **The follow-up of a bounded export.** For any events, budget and number of frames: at most that
many frames, none empty, together an initial part of the events, each within the budget (in the
saturating arithmetic of the source) unless it is one event, and they are the first that greedy
packing of all events gives. -/
theorem followupFrames_bounded (c : ConversationId) (es : List Event) (budget maxFrames : ℕ) :
    let frames := followupFrames c (boundedEvents es budget maxFrames) budget maxFrames
    capEventFrames es budget maxFrames = boundedEvents es budget maxFrames ∧
    frames.length ≤ maxFrames ∧ frames.flatMap SyncFollowup.events <+: es ∧
    (∀ f ∈ frames, f.conversation = c ∧ f.events ≠ [] ∧ Fits encodedEventSize budget f.events) ∧
    frames.map SyncFollowup.events = (pack encodedEventSize budget es).take maxFrames := by
  intro frames
  have hframes : frames = _ := followupFrames_eq_pack c es budget maxFrames
  have hmap : frames.map SyncFollowup.events = (pack encodedEventSize budget es).take
    maxFrames := by
    rw [hframes, map_map]
    exact map_id _
  refine ⟨rfl, ?_, ⟨((pack encodedEventSize budget es).drop maxFrames).flatten, ?_⟩,
    fun f hf => ?_, hmap⟩
  · rw [hframes, length_map]
    exact length_take_le _ _
  · rw [flatMap_def, hmap, ← flatten_append, take_append_drop, pack, flatten_packFrom, nil_append]
  · rw [hframes] at hf
    obtain ⟨frame, hframe, rfl⟩ := mem_map.mp hf
    exact ⟨rfl, fits_packFrom (.inl rfl) frame (mem_of_mem_take hframe)⟩

end MeshTalk.EventLog
