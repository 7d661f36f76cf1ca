import MeshTalk.Event
import MeshTalk.Lib.Map
import MeshTalk.Lib.Kahn

/-! # Deterministic traversal of the event graph

`ordered_ids` of `eventlog/order.rs`: Kahn's algorithm over the retained parent edges, with a clock
and the id as the key. It emits the canonical order of the graph and stops when nothing is ready
(`orderedIds_spec`), so its result does not depend on the order its input is listed in.

The loop is given the number of vertices as fuel, which it cannot use up: every turn emits a vertex
it had not emitted. -/

namespace MeshTalk

open Lib List

def Event.clock (logical : Bool) (e : Event) : ℕ := if logical then e.lamport else e.wallClock

def clocksOf (events : List Event) (archive : List (EventId × ℕ)) (logical : Bool) :
    Map EventId ℕ :=
  events.foldl (fun m e => m.insert e.id (e.clock logical))
    (archive.foldl (fun m p => m.insert p.1 p.2) ∅)

/-- The degrees and the children, with one edge of `child` added if its parent is a vertex. -/
def linkParent (clocks : Map EventId ℕ) (child : EventId)
    (s : Map EventId ℕ × Map EventId (List EventId)) (parent : EventId) :
    Map EventId ℕ × Map EventId (List EventId) :=
  if parent ∈ clocks then
    (s.1.modify child 0 (· + 1), s.2.modify parent [] (· ++ [child]))
  else s

def linkEvent (clocks : Map EventId ℕ) (s : Map EventId ℕ × Map EventId (List EventId))
    (e : Event) : Map EventId ℕ × Map EventId (List EventId) :=
  e.parents.foldl (linkParent clocks e.id) s

def vertexKey (clocks : Map EventId ℕ) (id : EventId) : Key := toLex ((clocks.lookup id).getD 0, id)

/-- Count one parent of `child` as emitted; without any left it becomes ready. -/
def releaseChild (clocks : Map EventId ℕ) (s : Map EventId ℕ × OrdSet Key) (child : EventId) :
    Map EventId ℕ × OrdSet Key :=
  let degree := (s.1.lookup child).getD 0 - 1
  (s.1.insert child degree,
    if degree = 0 then s.2.insert (vertexKey clocks child) else s.2)

/-- Emit ready vertices until there is none. -/
def orderLoop (clocks : Map EventId ℕ) (children : Map EventId (List EventId)) :
    ℕ → Map EventId ℕ × OrdSet Key → List EventId → List EventId
  | 0, _, ordered => ordered
  | fuel + 1, (degrees, ready), ordered =>
    match ready.popFirst with
    | none => ordered
    | some (k, rest) =>
      let id := (ofLex k).2
      orderLoop clocks children fuel
        (((children.lookup id).getD []).foldl (releaseChild clocks) (degrees, rest))
        (ordered ++ [id])

def orderedIds (events : List Event) (archive : List (EventId × ℕ)) (logical : Bool) :
    List EventId :=
  let clocks := clocksOf events archive logical
  let links := events.foldl (linkEvent clocks) (clocks.mapValues fun _ => 0, ∅)
  let ready := OrdSet.ofFinset
    ((links.1.keys.filter fun id => links.1.lookup id = some 0).image (vertexKey clocks))
  orderLoop clocks links.2 clocks.keys.card (links.1, ready) []

/-! ### The graph -/

/-- The parents of a vertex; an archived row has none. -/
def predsOf (events : List Event) (v : EventId) : List EventId :=
  ((events.find? fun e => e.id = v).map Event.parents).getD []

variable {events : List Event}

theorem find_of_mem (hn : (events.map Event.id).Nodup) {e} (he : e ∈ events) :
    events.find? (fun x => x.id = e.id) = some e := by
  refine List.find?_eq_some_iff_append.mpr ⟨by simp, ?_⟩
  obtain ⟨l₁, l₂, rfl⟩ := List.append_of_mem he
  refine ⟨l₁, l₂, rfl, fun x hx => ?_⟩
  rw [List.map_append, List.nodup_append] at hn
  have := hn.2.2 x.id (List.mem_map_of_mem hx) e.id (by simp)
  simpa using this

theorem predsOf_of_mem (hn : (events.map Event.id).Nodup) {e} (he : e ∈ events) :
    predsOf events e.id = e.parents := by
  rw [predsOf, find_of_mem hn he]
  rfl

theorem predsOf_of_notMem {v} (h : ∀ e ∈ events, e.id ≠ v) : predsOf events v = [] := by
  have : events.find? (fun x => x.id = v) = none := by
    simpa [find?_eq_none] using h
  rw [predsOf, this]
  rfl

theorem lookup_foldl_insert_events {logical v} :
    ∀ {events : List Event} {m : Map EventId ℕ}, (events.map Event.id).Nodup →
      (events.foldl (fun m e => m.insert e.id (e.clock logical)) m).lookup v =
        ((events.find? fun e => e.id = v).map (Event.clock logical)).or (m.lookup v)
  | [], m, _ => by simp
  | e :: events, m, hn => by
    obtain ⟨he, hn⟩ := List.nodup_cons.mp hn
    rw [List.foldl_cons, lookup_foldl_insert_events hn, Map.lookup_insert_ite, List.find?_cons]
    by_cases hv : e.id = v
    · subst hv
      have : events.find? (fun x => x.id = e.id) = none := by
        simp only [List.find?_eq_none, decide_eq_true_eq]
        exact fun x hx h => he (List.mem_map.mpr ⟨x, hx, h⟩)
      simp [this]
    · simp [hv, Ne.symm hv]

theorem predsOf_cons (e events v) :
    predsOf (e :: events) v = if e.id = v then e.parents else predsOf events v := by
  unfold predsOf
  rw [find?_cons]
  split_ifs with h <;> simp [h]

/-! ### Linking -/

section Link

variable {clocks : Map EventId ℕ}

theorem lookup_linkParents {child} (v) :
    ∀ {ps : List EventId} {s : Map EventId ℕ × Map EventId (List EventId)}, child ∈ s.1 →
      (ps.foldl (linkParent clocks child) s).1.lookup v =
        if v = child then (s.1.lookup v).map (· + ps.countP (· ∈ clocks)) else s.1.lookup v
  | [], s, _ => by simp
  | p :: ps, s, hc => by
    obtain ⟨d, hd⟩ := Map.mem_iff_lookup.mp hc
    rw [foldl_cons]
    by_cases hp : p ∈ clocks
    · have hlook : ∀ v, (linkParent clocks child s p).1.lookup v =
          if v = child then some (d + 1) else s.1.lookup v := fun v => by
        rw [linkParent, if_pos hp, Map.lookup_modify, hd]
        rfl
      rw [lookup_linkParents v (Map.mem_iff_lookup.mpr ⟨d + 1, by rw [hlook, if_pos rfl]⟩), hlook]
      split_ifs with hv
      · rw [hv, hd, countP_cons, if_pos (by simpa using hp)]
        simp only [Option.map_some, Option.some.injEq]
        omega
      · rfl
    · rw [linkParent, if_neg hp, lookup_linkParents v hc]
      simp [hp]

theorem count_linkParents {child p} (v) (hp : p ∈ clocks) :
    ∀ {ps : List EventId} {s : Map EventId ℕ × Map EventId (List EventId)},
      (((ps.foldl (linkParent clocks child) s).2.lookup p).getD []).count v =
        ((s.2.lookup p).getD []).count v + if v = child then ps.count p else 0
  | [], s => by simp
  | q :: ps, s => by
    rw [foldl_cons, count_linkParents v hp, linkParent]
    by_cases hpq : p = q
    · subst hpq
      rw [if_pos hp, Map.lookup_modify]
      rcases eq_or_ne v child with rfl | hv
      · simp [add_assoc, add_comm]
      · simp [hv, hv.symm]
    · split_ifs with h1 h2 h3 <;> simp_all [Map.lookup_modify, Ne.symm hpq]

theorem lookup_linkEvents (v) :
    ∀ {events : List Event} {s : Map EventId ℕ × Map EventId (List EventId)},
      (events.map Event.id).Nodup → (∀ e ∈ events, e.id ∈ s.1) →
      (events.foldl (linkEvent clocks) s).1.lookup v =
        (s.1.lookup v).map (· + (predsOf events v).countP (· ∈ clocks))
  | [], s, _, _ => by simp [predsOf]
  | e :: events, s, hn, hs => by
    obtain ⟨he, hn⟩ := List.nodup_cons.mp hn
    have hlook : ∀ v, (e.parents.foldl (linkParent clocks e.id) s).1.lookup v =
        if v = e.id then (s.1.lookup v).map (· + e.parents.countP (· ∈ clocks))
        else s.1.lookup v :=
      fun v => lookup_linkParents v (hs e List.mem_cons_self)
    have hkeep : ∀ x ∈ events, x.id ∈ (linkEvent clocks s e).1 := fun x hx => by
      obtain ⟨d, hd⟩ := Map.mem_iff_lookup.mp (hs x (List.mem_cons_of_mem e hx))
      have hne : x.id ≠ e.id := fun h => he (List.mem_map.mpr ⟨x, hx, h⟩)
      exact Map.mem_iff_lookup.mpr ⟨d, by rw [linkEvent, hlook, if_neg hne, hd]⟩
    rw [List.foldl_cons, lookup_linkEvents v hn hkeep, linkEvent, hlook, predsOf_cons]
    by_cases hv : v = e.id
    · subst hv
      rw [if_pos rfl, if_pos rfl, predsOf_of_notMem fun x hx h => he (List.mem_map.mpr ⟨x, hx, h⟩),
        List.countP_nil, Option.map_map]
      rfl
    · rw [if_neg hv, if_neg (Ne.symm hv)]

theorem count_linkEvents {p} (v) (hp : p ∈ clocks) :
    ∀ {events : List Event} {s : Map EventId ℕ × Map EventId (List EventId)},
      (events.map Event.id).Nodup →
      (((events.foldl (linkEvent clocks) s).2.lookup p).getD []).count v =
        ((s.2.lookup p).getD []).count v + (predsOf events v).count p
  | [], s, _ => by simp [predsOf]
  | e :: events, s, hn => by
    obtain ⟨he, hn⟩ := List.nodup_cons.mp hn
    rw [List.foldl_cons, count_linkEvents v hp hn, linkEvent, count_linkParents v hp, predsOf_cons]
    by_cases hv : v = e.id
    · subst hv
      rw [if_pos rfl, if_pos rfl, predsOf_of_notMem fun x hx h => he (List.mem_map.mpr ⟨x, hx, h⟩)]
      rfl
    · rw [if_neg hv, if_neg (Ne.symm hv), add_zero]

end Link

/-! ### Emission -/

section Release

variable {clocks : Map EventId ℕ}

theorem lookup_release (v) :
    ∀ {cs : List EventId} {s : Map EventId ℕ × OrdSet Key}, (∀ c ∈ cs, c ∈ s.1) →
      (cs.foldl (releaseChild clocks) s).1.lookup v = (s.1.lookup v).map (· - cs.count v)
  | [], s, _ => by simp
  | c :: cs, s, hs => by
    obtain ⟨d, hd⟩ := Map.mem_iff_lookup.mp (hs c mem_cons_self)
    have hkeep : ∀ x ∈ cs, x ∈ (releaseChild clocks s c).1 := fun x hx =>
      Finmap.mem_insert.mpr (Or.inr (hs x (mem_cons_of_mem c hx)))
    rw [foldl_cons, lookup_release v hkeep, releaseChild, Map.lookup_insert_ite]
    by_cases hv : v = c
    · subst hv
      simp [hd, Nat.sub_sub, add_comm]
    · simp [hv, Ne.symm hv]

theorem mem_release (k) :
    ∀ {cs : List EventId} {s : Map EventId ℕ × OrdSet Key},
      k ∈ (cs.foldl (releaseChild clocks) s).2 ↔
        k ∈ s.2 ∨ ∃ c ∈ cs, (s.1.lookup c).getD 0 ≤ cs.count c ∧ k = vertexKey clocks c
  | [], s => by simp
  | c :: cs, s => by
    have hready : k ∈ (releaseChild clocks s c).2 ↔
        k ∈ s.2 ∨ (s.1.lookup c).getD 0 - 1 = 0 ∧ k = vertexKey clocks c := by
      unfold releaseChild
      dsimp only
      split_ifs with hz
      · simp [hz, or_comm]
      · simp [hz]
    rw [foldl_cons, mem_release k, hready, or_assoc]
    refine or_congr_right ?_
    have hcount : ∀ x, ((releaseChild clocks s c).1.lookup x).getD 0 ≤ cs.count x ↔
        (s.1.lookup x).getD 0 ≤ (c :: cs).count x := fun x => by
      rw [releaseChild, Map.lookup_insert_ite]
      rcases eq_or_ne x c with rfl | hx
      · simp
      · simp [hx, hx.symm]
    simp only [hcount, mem_cons, exists_eq_or_imp]
    constructor
    · rintro (⟨hz, rfl⟩ | h)
      · exact Or.inl ⟨by rw [count_cons_self]; omega, rfl⟩
      · exact Or.inr h
    · rintro (⟨hz, rfl⟩ | h)
      · -- named more than once, `c` is ready with the last mention
        by_cases hc : c ∈ cs
        · exact Or.inr ⟨c, hc, hz, rfl⟩
        · rw [count_cons_self, count_eq_zero.mpr hc] at hz
          exact Or.inl ⟨by omega, rfl⟩
      · exact Or.inr h

end Release

/-! ### The loop -/

section Loop

abbrev vertices (clocks : Map EventId ℕ) : Set EventId := {v | v ∈ clocks}

theorem vertexKey_injective (clocks) : Function.Injective (vertexKey clocks) := by
  intro a b h
  exact (Prod.mk.inj (toLex.injective h)).2

variable {clocks : Map EventId ℕ} {preds : EventId → List EventId}
  {children : Map EventId (List EventId)}

/-- What holds whenever the loop looks for a ready vertex. -/
structure OrderInv (clocks : Map EventId ℕ) (preds : EventId → List EventId)
    (s : Map EventId ℕ × OrdSet Key) (ordered : List EventId) : Prop where
  emitted : Emitted (vertices clocks) (fun p v => p ∈ preds v) (vertexKey clocks) ordered
  degree : ∀ v ∈ clocks, s.1.lookup v = some (pending (vertices clocks) preds ordered v)
  ready : ∀ k, k ∈ s.2 ↔
    ∃ v, Ready (vertices clocks) (fun p v => p ∈ preds v) ordered v ∧ k = vertexKey clocks v

/-- The graph as the loop uses it: a child is listed with a parent as often as it names it. -/
structure Linked (clocks : Map EventId ℕ) (preds : EventId → List EventId)
    (children : Map EventId (List EventId)) : Prop where
  count : ∀ p ∈ clocks, ∀ v, ((children.lookup p).getD []).count v = (preds v).count p
  vertex : ∀ p v, p ∈ preds v → v ∈ clocks

theorem Linked.mem (hl : Linked clocks preds children) {p v} (hp : p ∈ clocks) :
    v ∈ (children.lookup p).getD [] ↔ p ∈ preds v := by
  rw [← count_pos_iff, hl.count p hp, count_pos_iff]

variable {s : Map EventId ℕ × OrdSet Key} {ordered : List EventId}

/-- **One turn**: emitting the least ready vertex and releasing its children. -/
theorem OrderInv.step (hl : Linked clocks preds children) (h : OrderInv clocks preds s ordered) {k}
    {rest : OrdSet Key} (hpop : s.2.popFirst = some (k, rest)) :
    OrderInv clocks preds
      (((children.lookup (ofLex k).2).getD []).foldl (releaseChild clocks) (s.1, rest))
      (ordered ++ [(ofLex k).2]) := by
  obtain ⟨hk, hmin, hrest⟩ := OrdSet.popFirst_eq_some hpop
  obtain ⟨x, hx, rfl⟩ := (h.ready k).mp hk
  have hid : (ofLex (vertexKey clocks x)).2 = x := rfl
  rw [hid]
  have hxV : x ∈ clocks := hx.1
  have hpend : ∀ v, pending (vertices clocks) preds ordered v =
      pending (vertices clocks) preds (ordered ++ [x]) v + (preds v).count x :=
    fun v => pending_snoc hx.1 hx.2.1
  have hcl : ∀ c ∈ (children.lookup x).getD [], c ∈ s.1 := fun c hc =>
    Map.mem_iff_lookup.mpr ⟨_, h.degree c (hl.vertex x c ((hl.mem hxV).mp hc))⟩
  refine ⟨h.emitted.snoc hx fun w hw => ?_, fun v hv => ?_, fun k' => ?_⟩
  · exact hmin _ ((h.ready _).mpr ⟨w, hw, rfl⟩)
  · rw [lookup_release (s := (s.1, rest)) v hcl, h.degree v hv, hpend v, hl.count x hxV]
    simp
  · rw [mem_release k', hrest, h.ready]
    -- a vertex is ready now if it was, or if `x` was the last parent it waited for
    have hnow : ∀ v, Ready (vertices clocks) (fun p v => p ∈ preds v) (ordered ++ [x]) v ↔
        Ready (vertices clocks) (fun p v => p ∈ preds v) ordered v ∧ v ≠ x ∨
          v ∈ clocks ∧ x ∈ preds v ∧ pending (vertices clocks) preds (ordered ++ [x]) v = 0 ∧
            v ∉ ordered ∧ v ≠ x := by
      intro v
      have := hpend v
      have hpos : 0 < (preds v).count x ↔ x ∈ preds v := count_pos_iff
      simp only [ready_iff_pending, mem_append, mem_singleton, Set.mem_ofPred_eq]
      grind
    have hchild : ∀ v, v ∈ clocks → x ∈ preds v → v ∉ ordered ∧ v ≠ x := by
      intro v hv hm
      refine ⟨fun hvo => hx.2.1 (h.emitted.pred_mem_of_mem hvo hx.1 hm), ?_⟩
      rintro rfl
      exact hx.2.1 (hx.2.2 v hx.1 hm)
    constructor
    · rintro (⟨⟨v, hv, rfl⟩, hne⟩ | ⟨c, hc, hz, rfl⟩)
      · refine ⟨v, (hnow v).mpr (Or.inl ⟨hv, ?_⟩), rfl⟩
        rintro rfl
        exact hne rfl
      · have hm := (hl.mem hxV).mp hc
        have hcV := hl.vertex x c hm
        rw [h.degree c hcV, hpend c, hl.count x hxV] at hz
        exact ⟨c, (hnow c).mpr (Or.inr ⟨hcV, hm, by simpa using hz, hchild c hcV hm⟩), rfl⟩
    · rintro ⟨v, hv, rfl⟩
      rcases (hnow v).mp hv with ⟨hv, hne⟩ | ⟨hvV, hm, hz, -⟩
      · exact Or.inl ⟨⟨v, hv, rfl⟩, fun he => hne (vertexKey_injective clocks he)⟩
      · refine Or.inr ⟨v, (hl.mem hxV).mpr hm, ?_, rfl⟩
        rw [h.degree v hvV, hpend v, hl.count x hxV, hz]
        simp

theorem OrderInv.final_of_length (h : OrderInv clocks preds s ordered)
    (hlen : clocks.keys.card ≤ ordered.length) :
    Final (vertices clocks) (fun p v => p ∈ preds v) ordered := by
  intro v hv
  have hsub : ordered.toFinset ⊆ clocks.keys := fun v hv =>
    Finmap.mem_keys.mpr (h.emitted.mem (mem_toFinset.mp hv))
  have heq := Finset.eq_of_subset_of_card_le hsub
    (by rwa [toFinset_card_of_nodup h.emitted.nodup])
  have : v ∈ ordered.toFinset := heq ▸ Finmap.mem_keys.mpr hv.1
  exact hv.2.1 (mem_toFinset.mp this)

/-- **The whole loop** emits canonically until nothing is ready. -/
theorem orderLoop_spec (hl : Linked clocks preds children) :
    ∀ (fuel : ℕ) {s ordered},
      OrderInv clocks preds s ordered → clocks.keys.card ≤ ordered.length + fuel →
      Emitted (vertices clocks) (fun p v => p ∈ preds v) (vertexKey clocks)
          (orderLoop clocks children fuel s ordered) ∧
        Final (vertices clocks) (fun p v => p ∈ preds v) (orderLoop clocks children fuel s ordered)
  | 0, s, ordered, h, hfuel => ⟨h.emitted, h.final_of_length hfuel⟩
  | fuel + 1, s, ordered, h, hfuel => by
    unfold orderLoop
    split
    · rename_i hpop
      refine ⟨h.emitted, fun v hv => ?_⟩
      exact OrdSet.popFirst_eq_none.mp hpop _ ((h.ready _).mpr ⟨v, hv, rfl⟩)
    · rename_i k rest hpop
      refine orderLoop_spec hl fuel (h.step hl hpop) ?_
      rw [length_append, length_singleton]
      omega

end Loop

/-! ### The result -/

variable {events : List Event}

section

variable (hn : (events.map Event.id).Nodup)
include hn

theorem mem_clocksOf_of_mem (archive logical) {e : Event} (he : e ∈ events) :
    (clocksOf events archive logical).lookup e.id = some (e.clock logical) := by
  rw [clocksOf, lookup_foldl_insert_events hn, find_of_mem hn he]
  rfl

theorem linked_of_events (archive logical) {d} :
    Linked (clocksOf events archive logical) (predsOf events)
      (events.foldl (linkEvent (clocksOf events archive logical)) (d, ∅)).2 := by
  refine ⟨fun p hp v => ?_, fun p v hp => ?_⟩
  · rw [count_linkEvents v hp hn]
    simp
  · by_cases hv : ∃ e ∈ events, e.id = v
    · obtain ⟨e, he, rfl⟩ := hv
      exact Map.mem_iff_lookup.mpr ⟨_, mem_clocksOf_of_mem hn archive logical he⟩
    · push Not at hv
      rw [predsOf_of_notMem hv] at hp
      simp at hp

/-- Before the first turn the degrees count all parents that are vertices. -/
theorem orderInv_init {clocks}
    (hids : ∀ e ∈ events, e.id ∈ clocks) {links : Map EventId ℕ × Map EventId (List EventId)}
    (hlinks : links = events.foldl (linkEvent clocks) (clocks.mapValues fun _ => 0, ∅)) :
    OrderInv clocks (predsOf events) (links.1, OrdSet.ofFinset
      ((links.1.keys.filter fun id => links.1.lookup id = some 0).image (vertexKey clocks)))
        [] := by
  have hpend : ∀ v, pending (vertices clocks) (predsOf events) [] v =
      (predsOf events v).countP (· ∈ clocks) := fun v => by simp [pending]
  have hdeg : ∀ v, links.1.lookup v =
      (clocks.lookup v).map fun _ => pending (vertices clocks) (predsOf events) [] v := fun v => by
    have hzero : ∀ e ∈ events, e.id ∈ clocks.mapValues fun _ => 0 := fun e he => by
      obtain ⟨c, hc⟩ := Map.mem_iff_lookup.mp (hids e he)
      exact Map.mem_iff_lookup.mpr ⟨0, by rw [Map.lookup_mapValues, hc]; rfl⟩
    rw [hlinks, lookup_linkEvents v hn hzero, Map.lookup_mapValues, Option.map_map, hpend]
    simp [Function.comp_def]
  refine ⟨.nil, fun v hv => ?_, fun k => ?_⟩
  · obtain ⟨c, hc⟩ := Map.mem_iff_lookup.mp hv
    rw [hdeg v, hc]
    rfl
  · simp only [OrdSet.mem_ofFinset, Finset.mem_image, Finset.mem_filter, Finmap.mem_keys,
      ready_iff_pending]
    constructor
    · rintro ⟨v, ⟨-, hz⟩, rfl⟩
      rw [hdeg v, Option.map_eq_some_iff] at hz
      obtain ⟨c, hc, hz⟩ := hz
      exact ⟨v, ⟨Map.mem_iff_lookup.mpr ⟨c, hc⟩, by simp, hz⟩, rfl⟩
    · rintro ⟨v, ⟨hv, -, hz⟩, rfl⟩
      obtain ⟨c, hc⟩ := Map.mem_iff_lookup.mp hv
      have hlook := hdeg v
      rw [hc, Option.map_some, hz] at hlook
      exact ⟨v, ⟨Map.mem_iff_lookup.mpr ⟨0, hlook⟩, hlook⟩, rfl⟩

/-- **The traversal emits the canonical order until nothing is ready.** -/
theorem orderedIds_spec (archive logical) :
    Emitted (vertices (clocksOf events archive logical)) (fun p v => p ∈ predsOf events v)
        (vertexKey (clocksOf events archive logical)) (orderedIds events archive logical) ∧
      Final (vertices (clocksOf events archive logical)) (fun p v => p ∈ predsOf events v)
        (orderedIds events archive logical) := by
  refine orderLoop_spec (linked_of_events hn archive logical) _
    (orderInv_init hn (fun e he => ?_) rfl) (by simp)
  exact Map.mem_iff_lookup.mpr ⟨_, mem_clocksOf_of_mem hn archive logical he⟩

end

theorem mem_foldl_insert {β : Type*} {f} {g : β → ℕ} {v} :
    ∀ {l : List β} {m : Map EventId ℕ},
      v ∈ l.foldl (fun m b => m.insert (f b) (g b)) m ↔ v ∈ m ∨ v ∈ l.map f
  | [], m => by simp
  | b :: l, m => by
    rw [foldl_cons, mem_foldl_insert, Finmap.mem_insert, map_cons, mem_cons,
      or_left_comm, or_assoc]

theorem mem_clocksOf {archive : List (EventId × ℕ)} {logical} {v : EventId} :
    v ∈ clocksOf events archive logical ↔ v ∈ events.map Event.id ∨ v ∈ archive.map Prod.fst := by
  rw [clocksOf, mem_foldl_insert, mem_foldl_insert, or_comm]
  simp [Finmap.notMem_empty]

theorem find_perm {events' : List Event} (hn : (events.map Event.id).Nodup)
    (hp : events'.Perm events) (v) :
    events'.find? (fun e => e.id = v) = events.find? fun e => e.id = v := by
  cases hf : events.find? (fun e => e.id = v) with
  | none => simpa [List.find?_eq_none, hp.mem_iff] using hf
  | some e =>
    obtain rfl : e.id = v := by simpa using List.find?_some hf
    exact find_of_mem ((hp.map Event.id).nodup_iff.mpr hn)
      (hp.mem_iff.mpr (List.mem_of_find?_eq_some hf))

/-- **On an acyclic graph the traversal is canonical.** It lists every event and every archived row
once; each position has the least key among the vertices whose present parents are placed, and the
order the events are given in does not matter. Parents may be absent or be named repeatedly. -/
theorem orderedIds_canonical (events : List Event) (hn : (events.map Event.id).Nodup)
    (hacyclic : ∀ v, ¬ Relation.TransGen (fun p v => p ∈ predsOf events v) v v)
    (archive : List (EventId × ℕ)) (logical : Bool) :
    (orderedIds events archive logical).Nodup ∧
    (∀ v, v ∈ orderedIds events archive logical ↔
      v ∈ events.map Event.id ∨ v ∈ archive.map Prod.fst) ∧
    (∀ before v after, orderedIds events archive logical = before ++ v :: after →
      (∀ p ∈ predsOf events v, p ∈ orderedIds events archive logical → p ∈ before) ∧
      ∀ w ∈ after, (∀ p ∈ predsOf events w, p ∈ orderedIds events archive logical → p ∈ before) →
        vertexKey (clocksOf events archive logical) v <
          vertexKey (clocksOf events archive logical) w) ∧
    ∀ events', events'.Perm events →
      orderedIds events' archive logical = orderedIds events archive logical := by
  obtain ⟨hem, hf⟩ := orderedIds_spec hn archive logical
  obtain ⟨rank, hrank⟩ := Emitted.exists_rank
    (.ofFinset (clocksOf events archive logical).keys fun v => Finmap.mem_keys) hacyclic
  have hmem : ∀ v, v ∈ orderedIds events archive logical ↔ v ∈ clocksOf events archive logical :=
    fun v => ⟨hem.mem, Emitted.covers hrank hf⟩
  refine ⟨hem.nodup, fun v => (hmem v).trans mem_clocksOf, fun before v after hl => ?_,
    fun events' hp => ?_⟩
  · obtain ⟨hready, hmin⟩ := hem.ready_at hl
    refine ⟨fun p hp hin => hready.2.2 p ((hmem p).mp hin) hp, fun w hw hwp => ?_⟩
    have hnd := hl ▸ hem.nodup
    have hwb : w ∉ before := fun h =>
      (List.nodup_append.mp hnd).2.2 w h w (List.mem_cons_of_mem v hw) rfl
    have hle := hmin w ⟨(hmem w).mp (by simp [hl, hw]), hwb, fun p hp he =>
      hwp p he ((hmem p).mpr hp)⟩
    refine hle.lt_of_ne fun h => ?_
    obtain rfl := vertexKey_injective _ h
    exact (List.nodup_cons.mp (List.nodup_append.mp hnd).2.1).1 hw
  · have hn' := (hp.map Event.id).nodup_iff.mpr hn
    have hclocks : clocksOf events' archive logical = clocksOf events archive logical :=
      Finmap.ext_lookup fun v => by
        rw [clocksOf, clocksOf, lookup_foldl_insert_events hn', lookup_foldl_insert_events hn,
          find_perm hn hp]
    have hpreds : predsOf events' = predsOf events := funext fun v => by
      rw [predsOf, predsOf, find_perm hn hp]
    obtain ⟨hem', hf'⟩ := orderedIds_spec hn' archive logical
    rw [hclocks, hpreds] at hem' hf'
    have hperm : (orderedIds events' archive logical).Perm (orderedIds events archive logical) :=
      (List.perm_ext_iff_of_nodup hem'.nodup hem.nodup).mpr fun v =>
        Iff.trans ⟨hem'.mem, Emitted.covers hrank hf'⟩ (hmem v).symm
    exact hem'.eq_of_length (vertexKey_injective _) hem [] rfl rfl hperm.length_eq

def sampleNode (id : BitVec 256) (parents : List EventId) (time : ℕ) : Event :=
  ⟨⟨id⟩, ⟨0⟩, ⟨0⟩, 0, parents, time, time, .message, [], []⟩

/-- An event that names its parent twice, and one after an absent parent and an archived row. -/
theorem orderedIds_canonical_repeated :
    orderedIds [sampleNode 3 [⟨2⟩, ⟨2⟩] 1, sampleNode 2 [⟨0⟩, ⟨1⟩] 5] [(⟨1⟩, 9)] true =
      orderedIds [sampleNode 2 [⟨0⟩, ⟨1⟩] 5, sampleNode 3 [⟨2⟩, ⟨2⟩] 1] [(⟨1⟩, 9)] true := by
  refine (orderedIds_canonical _ (by decide) (fun v h => ?_) _ true).2.2.2 _ (.swap _ _ _)
  refine lt_irrefl v (Relation.transGen_minimal (fun p v hp => ?_) v v h)
  rw [predsOf_cons, predsOf_cons] at hp
  split_ifs at hp with h2 h3
  · subst h2
    revert p
    decide
  · subst h3
    revert p
    decide
  · simp [predsOf] at hp

/-! ### Without an archive -/

theorem mem_vertices {logical v} :
    v ∈ vertices (clocksOf events [] logical) ↔ ∃ e ∈ events, e.id = v := by
  simp [mem_clocksOf]

theorem vertexKey_of_mem (hn : (events.map Event.id).Nodup) {logical e} (he : e ∈ events) :
    vertexKey (clocksOf events [] logical) e.id = toLex (e.clock logical, e.id) := by
  rw [vertexKey, mem_clocksOf_of_mem hn [] logical he]
  rfl

/-- **On an acyclic graph the traversal lists every event once, parents first.** -/
theorem orderedIds_perm (hn : (events.map Event.id).Nodup) {rank : EventId → ℕ}
    (hrank : ∀ e ∈ events, ∀ p ∈ e.parents, rank p < rank e.id) (logical) :
    (orderedIds events [] logical).Perm (events.map Event.id) := by
  obtain ⟨hem, hf⟩ := orderedIds_spec hn [] logical
  refine (List.perm_ext_iff_of_nodup hem.nodup hn).mpr fun v => ⟨fun hv => ?_, fun hv => ?_⟩
  · obtain ⟨e, he, rfl⟩ := mem_vertices.mp (hem.mem hv)
    exact List.mem_map_of_mem he
  · obtain ⟨e, he, rfl⟩ := List.mem_map.mp hv
    have hedge : ∀ p ∈ vertices (clocksOf events [] logical),
        ∀ v ∈ vertices (clocksOf events [] logical), p ∈ predsOf events v → rank p < rank v := by
      intro p _ v hv hp
      obtain ⟨x, hx, rfl⟩ := mem_vertices.mp hv
      rw [predsOf_of_mem hn hx] at hp
      exact hrank x hx p hp
    exact Emitted.covers hedge hf (mem_vertices.mpr ⟨e, he, rfl⟩)

end MeshTalk
