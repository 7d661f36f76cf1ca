import Mathlib.Data.Nat.Notation
import Mathlib.Logic.Basic
import Mathlib.Tactic.SplitIfs

/-! # Code that can fail

The two ways code gives up, and what is known of code that returned. -/

namespace MeshTalk.Lib

variable {ε α β : Type}

/-- Give up unless the condition holds. -/
def ensure (p : Prop) [Decidable p] (e : ε) : Except ε Unit := if p then .ok () else .error e

/-- Give up if there is no value. -/
def need (o : Option α) (e : ε) : Except ε α :=
  match o with
  | some a => .ok a
  | none => .error e

theorem bind_eq_ok {x} {f : α → Except ε β} {b} :
    (x >>= f) = .ok b ↔ ∃ a, x = .ok a ∧ f a = .ok b := by
  cases x with
  | ok a => exact ⟨fun h => ⟨a, rfl, h⟩, fun ⟨_, h, h'⟩ => Except.ok.inj h ▸ h'⟩
  | error e =>
    constructor
    · intro h
      cases h
    · rintro ⟨a, h, -⟩
      cases h

theorem ensure_eq_ok {p : Prop} [Decidable p] {e : ε} {u} : ensure p e = .ok u ↔ p := by
  unfold ensure
  split_ifs with hp <;> simp [hp]

theorem ensure_bind_eq_ok {p : Prop} [Decidable p] {e} {f : Unit → Except ε β} {b} :
    (ensure p e >>= f) = .ok b ↔ p ∧ f () = .ok b := by
  rw [bind_eq_ok]
  exact ⟨fun ⟨_, hp, h⟩ => ⟨ensure_eq_ok.mp hp, h⟩, fun ⟨hp, h⟩ => ⟨(), ensure_eq_ok.mpr hp, h⟩⟩

theorem need_eq_ok {o : Option α} {e : ε} {a} : need o e = .ok a ↔ o = some a := by
  unfold need
  cases o <;> simp

theorem toOption_eq_some {x : Except ε α} {a} (h : x.toOption = some a) : x = .ok a := by
  cases x with
  | ok b => exact congrArg Except.ok (Option.some.inj h)
  | error e => cases h

theorem mapError_eq_ok {ε' : Type} {f : ε → ε'} {x : Except ε α} {a} (h : x.mapError f = .ok a) :
    x = .ok a := by
  cases x with
  | ok b => exact congrArg Except.ok (Except.ok.inj h)
  | error e => cases h

/-- An invariant of the rounds of a fold that returns holds of what it returns. -/
theorem foldlM_ok {γ : Type} {f : α → γ → Except ε α} {P : α → Prop} :
    ∀ {l : List γ} {a b : α}, l.foldlM f a = .ok b → P a →
      (∀ x ∈ l, ∀ a b, P a → f a x = .ok b → P b) → P b
  | [], _, _, h, ha, _ => Except.ok.inj h ▸ ha
  | x :: l, a, b, h, ha, hf => by
    rw [List.foldlM_cons, bind_eq_ok] at h
    obtain ⟨a', hx, hl⟩ := h
    exact foldlM_ok hl (hf x List.mem_cons_self _ _ ha hx) fun y hy =>
      hf y (List.mem_cons_of_mem _ hy)

theorem ok_bind (a) (f : α → Except ε β) : ((.ok a : Except ε α) >>= f) = f a := rfl

theorem error_bind (e) (f : α → Except ε β) : ((.error e : Except ε α) >>= f) = .error e := rfl

theorem ensure_of {p : Prop} [Decidable p] (e : ε) (hp : p) : ensure p e = .ok () := if_pos hp

theorem ensure_of_not {p : Prop} [Decidable p] (e : ε) (hp : ¬ p) : ensure p e = .error e :=
  if_neg hp

end MeshTalk.Lib
