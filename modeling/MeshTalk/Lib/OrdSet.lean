import Mathlib.Data.Finset.Sort

/-! # Finite sets kept as strictly increasing lists

An `OrdSet α` is a finite set over a linear order, stored as the strictly increasing list of its
elements. The list is the iteration order of a tree set, and the order being strict makes the
representation canonical: sets with the same elements are equal (`OrdSet.ext`). -/

namespace MeshTalk.Lib

open List

/-- A finite set over a linear order, as the strictly increasing list of its elements. -/
structure OrdSet (α : Type*) [LinearOrder α] where
  toList : List α
  sorted : toList.Pairwise (· < ·)

namespace OrdSet

variable {α : Type*} [LinearOrder α]

instance : Membership α (OrdSet α) := ⟨fun s a => a ∈ s.toList⟩

variable {s : OrdSet α} {a : α}

theorem mem_def : a ∈ s ↔ a ∈ s.toList := Iff.rfl

instance (s : OrdSet α) (a : α) : Decidable (a ∈ s) := inferInstanceAs (Decidable (a ∈ s.toList))

theorem nodup (s : OrdSet α) : s.toList.Nodup := s.sorted.imp fun h => ne_of_lt h

/-- Two strictly increasing lists with the same elements are equal. -/
theorem list_ext {l l' : List α} (h : l.Pairwise (· < ·)) (h' : l'.Pairwise (· < ·))
    (hm : ∀ a, a ∈ l ↔ a ∈ l') : l = l' := by
  refine Perm.eq_of_pairwise (fun a b _ _ h1 h2 => absurd h1 (not_lt.mpr h2.le)) h h' ?_
  exact (perm_ext_iff_of_nodup (h.imp ne_of_lt) (h'.imp ne_of_lt)).mpr hm

@[ext] theorem ext {t : OrdSet α} (h : ∀ a, a ∈ s ↔ a ∈ t) : s = t := by
  cases s with
  | mk l hl =>
    cases t with
    | mk l' hl' =>
      have : l = l' := list_ext hl hl' h
      subst this; rfl

instance : DecidableEq (OrdSet α) := fun s t =>
  decidable_of_iff (s.toList = t.toList)
    ⟨fun h => ext fun a => by rw [mem_def, mem_def, h], fun h => by rw [h]⟩

def empty : OrdSet α := ⟨[], List.Pairwise.nil⟩

instance : EmptyCollection (OrdSet α) := ⟨empty⟩
instance : Inhabited (OrdSet α) := ⟨∅⟩

@[simp] theorem notMem_empty (a) : a ∉ (∅ : OrdSet α) := not_mem_nil

@[simp] theorem toList_empty : (∅ : OrdSet α).toList = [] := rfl

/-! ### Insertion -/

/-- Insertion into an increasing list, nothing if the element is there. -/
def insertList (a : α) : List α → List α
  | [] => [a]
  | b :: l => if a < b then a :: b :: l else if a = b then b :: l else b :: insertList a l

theorem mem_insertList {a x : α} : ∀ {l}, x ∈ insertList a l ↔ x = a ∨ x ∈ l
  | [] => by simp [insertList]
  | b :: l => by
    unfold insertList
    split_ifs with h1 h2
    · simp
    · subst h2; simp
    · rw [mem_cons, mem_insertList, mem_cons]
      tauto

theorem sorted_insertList {a : α} : ∀ {l}, l.Pairwise (· < ·) →
    (insertList a l).Pairwise (· < ·)
  | [], _ => by simp [insertList]
  | b :: l, h => by
    obtain ⟨hb, hl⟩ := pairwise_cons.mp h
    unfold insertList
    split_ifs with h1 h2
    · refine pairwise_cons.mpr ⟨fun x hx => ?_, h⟩
      rcases mem_cons.mp hx with rfl | hx
      · exact h1
      · exact h1.trans (hb x hx)
    · exact h
    · refine pairwise_cons.mpr ⟨fun x hx => ?_, sorted_insertList hl⟩
      rcases mem_insertList.mp hx with rfl | hx
      · exact lt_of_le_of_ne (not_lt.mp h1) (Ne.symm h2)
      · exact hb x hx

def insert (a : α) (s : OrdSet α) : OrdSet α := ⟨insertList a s.toList, sorted_insertList s.sorted⟩

variable {x : α}

@[simp] theorem mem_insert : x ∈ s.insert a ↔ x = a ∨ x ∈ s :=
  mem_insertList

def ofList (l : List α) : OrdSet α := l.foldr (fun a s => s.insert a) ∅

@[simp] theorem mem_ofList {l} : x ∈ ofList l ↔ x ∈ l := by
  induction l with
  | nil => simp [ofList]
  | cons a l ih =>
    rw [mem_cons, ← ih]
    exact mem_insert

/-! ### Removal and restriction -/

def filter (p : α → Bool) (s : OrdSet α) : OrdSet α := ⟨s.toList.filter p, s.sorted.filter p⟩

@[simp] theorem mem_filter {p x} {s : OrdSet α} :
    x ∈ s.filter p ↔ x ∈ s ∧ p x = true := List.mem_filter

def erase (a : α) (s : OrdSet α) : OrdSet α := s.filter (fun x => x ≠ a)

@[simp] theorem mem_erase : x ∈ s.erase a ↔ x ≠ a ∧ x ∈ s := by
  simp [erase, and_comm]

theorem mem_foldl_erase {x} : ∀ {l : List α} {s : OrdSet α},
    x ∈ l.foldl (fun t a => t.erase a) s ↔ x ∈ s ∧ x ∉ l
  | [], s => by simp
  | a :: l, s => by
    rw [foldl_cons, mem_foldl_erase, mem_erase, mem_cons]
    tauto

/-! ### The least element, and sets given without an order -/

def popFirst (s : OrdSet α) : Option (α × OrdSet α) :=
  match s with
  | ⟨[], _⟩ => none
  | ⟨a :: l, h⟩ => some (a, ⟨l, (List.pairwise_cons.mp h).2⟩)

theorem popFirst_eq_none : s.popFirst = none ↔ ∀ a, a ∉ s := by
  obtain ⟨l, hl⟩ := s
  cases l with
  | nil => exact ⟨fun _ a => not_mem_nil, fun _ => rfl⟩
  | cons a l => exact ⟨fun h => by simp [popFirst] at h, fun h => absurd mem_cons_self (h a)⟩

theorem popFirst_eq_some {t} (h : s.popFirst = some (a, t)) :
    a ∈ s ∧ (∀ b ∈ s, a ≤ b) ∧ ∀ b, b ∈ t ↔ b ∈ s ∧ b ≠ a := by
  obtain ⟨l, hl⟩ := s
  cases l with
  | nil => simp [popFirst] at h
  | cons x l =>
    cases h
    have hx := (pairwise_cons.mp hl).1
    refine ⟨mem_cons_self, fun b hb => ?_, fun b => ?_⟩
    · rcases mem_cons.mp hb with rfl | hb
      · exact le_rfl
      · exact (hx b hb).le
    · simp only [mem_def, mem_cons]
      constructor
      · exact fun hb => ⟨Or.inr hb, (hx b hb).ne'⟩
      · rintro ⟨rfl | hb, hne⟩
        · exact absurd rfl hne
        · exact hb

def ofFinset (s : Finset α) : OrdSet α :=
  haveI : LeftCommutative fun (a : α) (t : OrdSet α) => t.insert a := ⟨fun a b t => by
    ext x
    simp only [mem_insert]
    tauto⟩
  s.val.foldr (fun a t => t.insert a) ∅

@[simp] theorem mem_ofFinset {s} : x ∈ ofFinset s ↔ x ∈ s := by
  obtain ⟨m, hm⟩ := s
  rw [Finset.mem_mk]
  induction m using Quotient.inductionOn with
  | h l => exact mem_ofList

end OrdSet

end MeshTalk.Lib
