import Mathlib.Data.List.Basic

/-! # Runs under a condition

A machine is a function from a state and an action to the next state. `Along` says that every step
of a run meets a condition on the state it is taken in, and `Along.inv` is the rule for what such
runs keep. `Chain` says that a state is reached by some such run, and `Chain.inv` is its rule. -/

namespace MeshTalk.Lib

variable {σ α : Type*} {step : σ → α → σ} {P Q : σ → α → Prop}

/-- Every step of a run meets a condition. -/
def Along (step : σ → α → σ) (P : σ → α → Prop) : σ → List α → Prop
  | _, [] => True
  | s, a :: rest => P s a ∧ Along step P (step s a) rest

/-- Whether every step of a run meets a condition. -/
def Along.dec [∀ s a, Decidable (P s a)] : ∀ (s : σ) (as : List α), Decidable (Along step P s as)
  | _, [] => .isTrue trivial
  | s, a :: rest =>
    have := Along.dec (step s a) rest
    inferInstanceAs (Decidable (P s a ∧ Along step P (step s a) rest))

instance [∀ s a, Decidable (P s a)] (s : σ) (as : List α) : Decidable (Along step P s as) :=
  Along.dec s as

/-- **What every step keeps, every run keeps.** -/
theorem Along.inv {I : σ → Prop} (hstep : ∀ s a, I s → P s a → I (step s a)) :
    ∀ {as s}, I s → Along step P s as → I (as.foldl step s)
  | [], _, hs, _ => hs
  | a :: _, s, hs, hr => Along.inv (s := step s a) hstep (hstep s a hs hr.1) hr.2

/-- One state is reached from another by steps that each meet a condition. -/
inductive Chain (step : σ → α → σ) (P : σ → α → Prop) : σ → σ → Prop
  | refl (s : σ) : Chain step P s s
  | snoc {s t : σ} (a : α) : Chain step P s t → P t a → Chain step P s (step t a)

namespace Chain

theorem one {s} (a) (h : P s a) : Chain step P s (step s a) := (refl s).snoc a h

theorem trans {s t u} (h : Chain step P s t) (h' : Chain step P t u) : Chain step P s u := by
  induction h' with
  | refl => exact h
  | snoc a _ ha ih => exact ih.snoc a ha

/-- **What every step keeps, is kept all the way.** -/
theorem inv {I : σ → Prop} (hstep : ∀ s a, I s → P s a → I (step s a)) {s t} (h : Chain step P s t)
    (hs : I s) : I t := by
  induction h with
  | refl => exact hs
  | snoc a _ ha ih => exact hstep _ a ih ha

end Chain

end MeshTalk.Lib
