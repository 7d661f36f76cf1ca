import Mathlib.Data.List.Basic

/-! # Entries that are durable once synced

An entry of a directory, with every version it had since the directory was last synced. A loss of
power takes it back to any one of them. -/

namespace MeshTalk.Lib

open List

variable {α : Type*}

/-- What is there now, and what was there before since the last sync, the latest first. -/
structure Cell (α : Type*) where
  current : α
  older : List α

namespace Cell

def still (a : α) : Cell α := ⟨a, []⟩

def versions (c : Cell α) : List α := c.current :: c.older

def write (c : Cell α) (a : α) : Cell α := ⟨a, c.versions⟩

def sync (c : Cell α) : Cell α := ⟨c.current, []⟩

def pick (c : Cell α) (k : ℕ) : Cell α := ⟨c.versions.getD k c.current, []⟩

@[simp] theorem current_write (c : Cell α) (a) : (c.write a).current = a := rfl

@[simp] theorem current_sync (c : Cell α) : c.sync.current = c.current := rfl

@[simp] theorem current_still (a : α) : (still a).current = a := rfl

theorem current_mem (c : Cell α) : c.current ∈ c.versions := mem_cons_self

@[simp] theorem mem_still {a v : α} : v ∈ (still a).versions ↔ v = a := mem_singleton

@[simp] theorem mem_write {c : Cell α} {a v} : v ∈ (c.write a).versions ↔ v = a ∨ v ∈ c.versions :=
  mem_cons

@[simp] theorem mem_sync {c : Cell α} {v} : v ∈ c.sync.versions ↔ v = c.current :=
  mem_singleton

theorem pick_mem (c : Cell α) (k : ℕ) : (c.pick k).current ∈ c.versions := by
  unfold pick
  rw [getD_eq_getElem?_getD]
  cases h : c.versions[k]? with
  | none => exact c.current_mem
  | some a => exact mem_of_getElem? h

@[simp] theorem mem_pick {c : Cell α} {k v} :
    v ∈ (c.pick k).versions ↔ v = (c.pick k).current := mem_singleton

/-! ### Since the entry was last absent -/

/-- The latest versions, up to the first one that is absent. -/
def sinceAbsent : List (Option α) → List (Option α)
  | [] => []
  | none :: _ => [none]
  | some a :: rest => some a :: sinceAbsent rest

def recent (c : Cell (Option α)) : List (Option α) := sinceAbsent c.versions

variable {c : Cell (Option α)} {v : Option α} {a : α}

theorem current_mem_recent (c : Cell (Option α)) : c.current ∈ c.recent := by
  unfold recent versions
  cases c.current <;> exact mem_cons_self

@[simp] theorem mem_recent_still {o} : v ∈ (still o).recent ↔ v = o := by
  cases o <;> simp [recent, still, versions, sinceAbsent]

theorem mem_recent_of_absent (h : c.current = none) : v ∈ c.recent ↔ v = none := by
  unfold recent versions
  rw [h]
  exact mem_singleton

@[simp] theorem mem_recent_write_some : v ∈ (c.write (some a)).recent ↔ v = some a ∨ v ∈ c.recent :=
  mem_cons

@[simp] theorem mem_recent_sync : v ∈ c.sync.recent ↔ v = c.current := by
  unfold recent sync versions
  cases c.current <;> simp [sinceAbsent]

@[simp] theorem mem_recent_pick {k} : v ∈ (c.pick k).recent ↔ v = (c.pick k).current := by
  unfold recent pick versions
  cases (c.current :: c.older).getD k c.current <;> simp [sinceAbsent]

end Cell

end MeshTalk.Lib
