import MeshTalk.Channel.State
import MeshTalk.Lib.Reach

/-! # Ancestry of channel events

What the channel reducer reads of the event graph (`node/channel/graph.rs`): an event by its id, and
whether one event descends from another. The graph of a pure reduction is a hash map
  of the events. -/

namespace MeshTalk.Channel

open Lib

/-- The reads of the event graph. Ancestry includes equality. -/
structure AuthorityGraph where
  event : EventId → Option Event
  descends : EventId → EventId → Bool

def parentsIn (m : Map EventId Event) (id : EventId) : List EventId :=
  ((m.lookup id).map Event.parents).getD []

def Descends (m : Map EventId Event) (child ancestor : EventId) : Prop :=
  Relation.ReflTransGen (Edge (parentsIn m)) child ancestor

def walkFuel (m : Map EventId Event) (k : ℕ) : ℕ := k + ∑ id ∈ m.keys, (parentsIn m id).length + 1

def hashGraph (m : Map EventId Event) : AuthorityGraph where
  event := m.lookup
  descends child ancestor :=
    (walk (parentsIn m) (fun id => id = ancestor) (walkFuel m 1) [child] ∅).isNone

/-- The strict ancestors of an event, if all of them are there and of the channel. -/
def ancestorsIn (m : Map EventId Event) (channel : ConversationId) (e : Event) :
    Option (Finset EventId) :=
  walk (parentsIn m) (fun id => ((m.lookup id).filter fun p => p.conversationId = channel).isNone)
    (walkFuel m e.parents.length) e.parents.reverse ∅

section Ancestry

variable {m : Map EventId Event}

theorem parentsIn_of_notMem {id} (h : id ∉ m.keys) : parentsIn m id = [] := by
  rw [parentsIn, Finmap.lookup_eq_none.mpr fun hm => h (Finmap.mem_keys.mpr hm)]
  rfl

theorem rounds_lt_walkFuel (stack) :
    rounds (parentsIn m) m.keys stack ∅ < walkFuel m stack.length := by
  unfold rounds walkFuel
  rw [Finset.sdiff_empty]
  omega

/-- **The hash-map graph answers ancestry.** -/
theorem hashGraph_descends {child ancestor} :
    (hashGraph m).descends child ancestor = true ↔ Descends m child ancestor := by
  show (walk _ _ (walkFuel m [child].length) _ _).isNone = true ↔ _
  rw [Option.isNone_iff_eq_none, walk_eq_none_iff (fun _ => parentsIn_of_notMem)
    (rounds_lt_walkFuel [child])]
  simp [Descends]

end Ancestry

/-! ### The order of a reduction -/

def orderedEvents (events : List Event) : List Event :=
  (orderedIds events [] true).filterMap (byId events).lookup

theorem mem_orderedEvents {events e} (h : e ∈ orderedEvents events) :
    (byId events).lookup e.id = some e ∧ e ∈ events := by
  obtain ⟨id, -, hl⟩ := List.mem_filterMap.mp h
  obtain ⟨hmem, rfl⟩ := mem_of_lookup_byId hl
  exact ⟨hl, hmem⟩

end MeshTalk.Channel
