import Mathlib.Data.List.MinMax
import Mathlib.Data.List.Sort
import Mathlib.Data.Finset.Dedup
import Mathlib.Algebra.Order.BigOperators.Group.List

/-! # Tables with a primary key

A finite relation as a database keeps it: rows in the order of insertion, each with a key that no
other row has. An insertion of a key that is there fails. -/

namespace MeshTalk.Lib

open List Option

variable {κ ν α : Type*}

/-- Rows with distinct keys. -/
structure Table (κ ν : Type*) where
  rows : List (κ × ν)
  nodup : (rows.map Prod.fst).Nodup

namespace Table

def empty : Table κ ν := ⟨[], List.nodup_nil⟩

instance : EmptyCollection (Table κ ν) := ⟨empty⟩

instance : Inhabited (Table κ ν) := ⟨empty⟩

@[simp] theorem rows_empty : (∅ : Table κ ν).rows = [] := rfl

@[ext] theorem ext {t t' : Table κ ν} (h : t.rows = t'.rows) : t = t' := by
  cases t
  cases t'
  cases h
  rfl

theorem eq_of_mem {t : Table κ ν} {k v w} (hv : (k, v) ∈ t.rows) (hw : (k, w) ∈ t.rows) : v = w :=
  congrArg Prod.snd (inj_on_of_nodup_map t.nodup hv hw rfl)

/-- The rows that meet a condition; the others are deleted. -/
def filter (t : Table κ ν) (p : κ × ν → Bool) : Table κ ν :=
  ⟨t.rows.filter p, t.nodup.sublist (List.filter_sublist.map Prod.fst)⟩

def count (t : Table κ ν) (p : κ × ν → Bool) : ℕ := t.rows.countP p

/-! ### Rows by a measure -/

section Order

variable [LinearOrder α]

/-- The row of least measure among those that meet a condition. -/
def first (t : Table κ ν) (f : κ × ν → α) (p : κ × ν → Bool) : Option (κ × ν) :=
  (t.rows.filter p).argmin f

/-- The rows that meet a condition, by a measure. -/
def listBy (t : Table κ ν) (f : κ × ν → α) (p : κ × ν → Bool) : List (κ × ν) :=
  (t.rows.filter p).insertionSort fun a b => f a ≤ f b

def byKey [LinearOrder κ] (t : Table κ ν) : List (κ × ν) :=
    t.rows.insertionSort fun a b => a.1 ≤ b.1

theorem byKey_perm [LinearOrder κ] (t : Table κ ν) : t.byKey.Perm t.rows := perm_insertionSort _ _

theorem nodup_byKey [LinearOrder κ] (t : Table κ ν) : (t.byKey.map Prod.fst).Nodup :=
  (t.byKey_perm.map Prod.fst).nodup_iff.mpr t.nodup

variable {t : Table κ ν} {f : κ × ν → α} {p : κ × ν → Bool}

theorem first_eq_some {r} (h : t.first f p = some r) :
    r ∈ t.rows ∧ p r = true ∧ ∀ r' ∈ t.rows, p r' = true → f r ≤ f r' := by
  obtain ⟨hmem, hp⟩ := mem_filter.mp (argmin_mem h)
  exact ⟨hmem, hp, fun r' hr' hp' => le_of_mem_argmin (mem_filter.mpr ⟨hr', hp'⟩) h⟩

theorem first_eq_none : t.first f p = none ↔ ∀ r ∈ t.rows, p r = false := by
  unfold first
  rw [argmin_eq_none, filter_eq_nil_iff]
  simp

theorem mem_listBy {r} : r ∈ t.listBy f p ↔ r ∈ t.rows ∧ p r = true := by
  unfold listBy
  rw [mem_insertionSort, mem_filter]

end Order

/-! ### Reading by key -/

variable [DecidableEq κ]

def get (t : Table κ ν) (k : κ) : Option ν := (t.rows.find? fun r => r.1 = k).map Prod.snd

def has (t : Table κ ν) (k : κ) : Bool := (t.get k).isSome

theorem get_eq_some {t : Table κ ν} {k v} : t.get k = some v ↔ (k, v) ∈ t.rows := by
  unfold get
  constructor
  · intro h
    obtain ⟨⟨k', v'⟩, hf, rfl⟩ := map_eq_some_iff.mp h
    obtain rfl : k' = k := by simpa using find?_some hf
    exact mem_of_find?_eq_some hf
  · intro h
    cases hf : t.rows.find? fun r => r.1 = k with
    | none =>
      have := find?_eq_none.mp hf _ h
      simp at this
    | some r =>
      obtain ⟨k', v'⟩ := r
      obtain rfl : k' = k := by simpa using find?_some hf
      rw [map_some, t.eq_of_mem (mem_of_find?_eq_some hf) h]

theorem get_eq_none {t : Table κ ν} {k} : t.get k = none ↔ k ∉ t.rows.map Prod.fst := by
  unfold get
  rw [Option.map_eq_none_iff, List.find?_eq_none, List.mem_map]
  constructor
  · rintro h ⟨r, hr, rfl⟩
    have := h r hr
    simp at this
  · intro h r hr
    simp only [decide_eq_true_eq]
    exact fun hk => h ⟨r, hr, hk⟩

theorem mem_byKey [LinearOrder κ] {t : Table κ ν} {k v} : (k, v) ∈ t.byKey ↔ t.get k = some v := by
  rw [t.byKey_perm.mem_iff, get_eq_some]

@[simp] theorem get_empty (k) : (∅ : Table κ ν).get k = none := rfl

theorem has_eq_true {t : Table κ ν} {k} : t.has k = true ↔ ∃ v, t.get k = some v := by
  rw [has, isSome_iff_exists]

theorem has_eq_false {t : Table κ ν} {k} : t.has k = false ↔ t.get k = none := by
  rw [has, isSome_eq_false_iff, isNone_iff_eq_none]

theorem get_filter (t : Table κ ν) (p k) :
    (t.filter p).get k = (t.get k).filter fun v => p (k, v) := by
  refine Option.ext fun v => ?_
  rw [get_eq_some, Option.filter_eq_some_iff, get_eq_some]
  exact List.mem_filter

/-! ### Writing -/

/-- Insert a row, unless its key is there. -/
def insertNew (t : Table κ ν) (k : κ) (v : ν) : Option (Table κ ν) :=
  if h : k ∈ t.rows.map Prod.fst then none
  else some ⟨t.rows ++ [(k, v)], by
    rw [List.map_append, List.nodup_append]
    refine ⟨t.nodup, List.nodup_singleton _, fun a ha b hb hab => ?_⟩
    rw [List.map_singleton, List.mem_singleton] at hb
    rw [hab, hb] at ha
    exact h ha⟩

def insertOrIgnore (t : Table κ ν) (k : κ) (v : ν) : Table κ ν := (t.insertNew k v).getD t

/-- Change the row with a key, if there is one. -/
def modify (t : Table κ ν) (k : κ) (f : ν → ν) : Table κ ν :=
  ⟨t.rows.map fun r => if r.1 = k then (r.1, f r.2) else r, by
    rw [List.map_map]
    have hfst : (Prod.fst ∘ fun r : κ × ν => if r.1 = k then (r.1, f r.2) else r) = Prod.fst := by
      funext r
      simp only [Function.comp]
      split_ifs <;> rfl
    rw [hfst]
    exact t.nodup⟩

/-- Delete the row with a key, if there is one. -/
def erase (t : Table κ ν) (k : κ) : Table κ ν := t.filter fun r => r.1 ≠ k

/-- Set the row with a key, whether or not there is one. -/
def upsert (t : Table κ ν) (k : κ) (new : ν) (f : ν → ν) : Table κ ν :=
  (t.insertNew k new).getD (t.modify k f)

variable {t t' : Table κ ν} {k k' : κ} {v : ν} {f : ν → ν}

theorem insertNew_of_get (h : t.get k = none) : ∃ t', t.insertNew k v = some t' ∧
    t'.rows = t.rows ++ [(k, v)] := by
  unfold insertNew
  rw [dif_neg (get_eq_none.mp h)]
  exact ⟨_, rfl, rfl⟩

theorem insertNew_eq_some (h : t.insertNew k v = some t') :
    t.get k = none ∧ t'.rows = t.rows ++ [(k, v)] := by
  unfold insertNew at h
  split_ifs at h with hk
  cases h
  exact ⟨get_eq_none.mpr hk, rfl⟩

theorem insertNew_of_some {w} (h : t.get k = some w) : t.insertNew k v = none := by
  unfold insertNew
  rw [dif_pos (mem_map_of_mem (get_eq_some.mp h))]

theorem get_insertNew (h : t.insertNew k v = some t') (k') :
    t'.get k' = if k' = k then some v else t.get k' := by
  obtain ⟨hk, hrows⟩ := insertNew_eq_some h
  refine Option.ext fun w => ?_
  rw [get_eq_some, hrows, List.mem_append, List.mem_singleton, Prod.mk.injEq]
  split_ifs with hkk
  · subst hkk
    have hnot : (k', w) ∉ t.rows := fun hm => get_eq_none.mp hk (List.mem_map_of_mem hm)
    simp [hnot, eq_comm]
  · rw [get_eq_some]
    simp [hkk]

theorem get_modify (t : Table κ ν) (k f k') :
    (t.modify k f).get k' = if k' = k then (t.get k').map f else t.get k' := by
  refine Option.ext fun w => ?_
  rw [get_eq_some]
  show (k', w) ∈ t.rows.map _ ↔ _
  rw [List.mem_map]
  split_ifs with hkk
  · subst hkk
    rw [Option.map_eq_some_iff]
    constructor
    · rintro ⟨⟨k₁, v₁⟩, hr, heq⟩
      split_ifs at heq with hk
      · obtain ⟨rfl, rfl⟩ := Prod.mk.inj heq
        exact ⟨v₁, get_eq_some.mpr hr, rfl⟩
      · obtain ⟨rfl, rfl⟩ := Prod.mk.inj heq
        exact absurd rfl hk
    · rintro ⟨v₁, hv, rfl⟩
      exact ⟨(k', v₁), get_eq_some.mp hv, if_pos rfl⟩
  · rw [get_eq_some]
    constructor
    · rintro ⟨⟨k₁, v₁⟩, hr, heq⟩
      split_ifs at heq with hk
      · obtain ⟨rfl, -⟩ := Prod.mk.inj heq
        exact absurd hk hkk
      · exact heq ▸ hr
    · intro hr
      exact ⟨(k', w), hr, if_neg hkk⟩

theorem get_erase (t : Table κ ν) (k k') :
    (t.erase k).get k' = if k' = k then none else t.get k' := by
  rw [erase, get_filter]
  split_ifs with hkk
  · subst hkk
    cases t.get k' <;> simp [Option.filter]
  · cases t.get k' <;> simp [Option.filter, hkk]

theorem get_erase_self (t : Table κ ν) (k) : (t.erase k).get k = none := by
  rw [get_erase, if_pos rfl]

theorem get_erase_of_ne (t : Table κ ν) {k k'} (h : k' ≠ k) : (t.erase k).get k' = t.get k' := by
  rw [get_erase, if_neg h]

theorem length_erase_le (t : Table κ ν) (k) : (t.erase k).rows.length ≤ t.rows.length :=
  length_filter_le _ _

theorem get_insertOrIgnore (t : Table κ ν) (k v k') :
    (t.insertOrIgnore k v).get k' =
      if k' = k then some ((t.get k).getD v) else t.get k' := by
  unfold insertOrIgnore
  cases hk : t.get k with
  | none =>
    obtain ⟨t', ht', -⟩ := insertNew_of_get (v := v) hk
    rw [ht', getD_some, get_insertNew ht']
    rfl
  | some w =>
    rw [insertNew_of_some hk, getD_none]
    split_ifs with hkk
    · rw [hkk, hk]
      rfl
    · rfl

theorem get_upsert (t : Table κ ν) (k : κ) (new f k') :
    (t.upsert k new f).get k' =
      if k' = k then some (((t.get k).map f).getD new) else t.get k' := by
  unfold upsert
  cases hk : t.get k with
  | none =>
    obtain ⟨t', ht', -⟩ := insertNew_of_get (v := new) hk
    rw [ht', getD_some, get_insertNew ht']
    rfl
  | some w =>
    rw [insertNew_of_some hk, getD_none, get_modify]
    split_ifs with hkk
    · rw [hkk, hk]
      rfl
    · rfl

theorem get_filter_eq_some {p} :
    (t.filter p).get k = some v ↔ t.get k = some v ∧ p (k, v) = true := by
  rw [get_filter, filter_eq_some_iff]

/-! ### As a hash map -/

/-- Put a value at a key, in place of the one there is. -/
def set (t : Table κ ν) (k : κ) (v : ν) : Table κ ν := t.upsert k v fun _ => v

def keySet (t : Table κ ν) : Finset κ := (t.rows.map Prod.fst).toFinset

def values (t : Table κ ν) : List ν := t.rows.map Prod.snd

theorem get_set (t : Table κ ν) (k v k') :
    (t.set k v).get k' = if k' = k then some v else t.get k' := by
  rw [set, get_upsert]
  split_ifs with h
  · cases t.get k <;> rfl
  · rfl

theorem has_set (t : Table κ ν) (k v k') : (t.set k v).has k' = (decide (k' = k) || t.has k') := by
  rw [has, get_set]
  by_cases h : k' = k <;> simp [h, has]

theorem length_set (t : Table κ ν) (k v) :
    (t.set k v).rows.length = if t.has k then t.rows.length else t.rows.length + 1 := by
  cases hk : t.get k with
  | none =>
    obtain ⟨t', ht', hrows⟩ := insertNew_of_get (v := v) hk
    have hhas : t.has k = false := has_eq_false.mpr hk
    simp [Table.set, upsert, ht', hrows, hhas]
  | some w =>
    have hhas : t.has k = true := has_eq_true.mpr ⟨w, hk⟩
    simp [Table.set, upsert, insertNew_of_some hk, modify, hhas]

theorem has_insertOrIgnore (t : Table κ ν) (k v k') :
    (t.insertOrIgnore k v).has k' = (decide (k' = k) || t.has k') := by
  rw [has, get_insertOrIgnore]
  by_cases h : k' = k <;> simp [h, has]

theorem has_upsert (t : Table κ ν) (k new f k') :
    (t.upsert k new f).has k' = (decide (k' = k) || t.has k') := by
  rw [has, get_upsert]
  by_cases h : k' = k <;> simp [h, has]

theorem get_of_get_erase {t : Table κ ν} {k k' v} (h : (t.erase k).get k' = some v) :
    t.get k' = some v := (get_filter_eq_some.mp h).1

theorem mem_keySet_iff_has : k ∈ t.keySet ↔ t.has k = true := by
  rw [keySet, List.mem_toFinset, ← not_iff_not, Bool.not_eq_true, has_eq_false, get_eq_none]

omit [DecidableEq κ] in
theorem mem_values {v} : v ∈ t.values ↔ ∃ k, (k, v) ∈ t.rows := by
  simp [values]

end Table

end MeshTalk.Lib
