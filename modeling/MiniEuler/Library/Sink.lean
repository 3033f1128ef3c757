import Mathlib.Data.Option.Basic
import Mathlib.Data.List.Basic

/-! Programs that give items to a sink. The store is a parameter of the program, so two
sinks that agree on one item agree on what the program gives them; the text is the sink
that keeps everything. -/

namespace MiniEuler.Library

variable {α β γ δ σ τ : Type*}

theorem rel_bind {R : α → β → Prop} {S : γ → δ → Prop} {x : Option α} {y : Option β}
    {f : α → Option γ} {g : β → Option δ} (hxy : Option.Rel R x y)
    (hfg : ∀ a b, R a b → Option.Rel S (f a) (g b)) : Option.Rel S (x.bind f) (y.bind g) := by
  cases hxy with
  | none => exact .none
  | some h => exact hfg _ _ h

/-- A value that two programs share. -/
theorem rel_bind_same {S : γ → δ → Prop} (x : Option α) {f : α → Option γ} {g : α → Option δ}
    (hfg : ∀ a, x = some a → Option.Rel S (f a) (g a)) : Option.Rel S (x.bind f) (x.bind g) := by
  cases x with
  | none => exact .none
  | some a => exact hfg a rfl

theorem rel_ite {R : α → β → Prop} {p : Prop} [Decidable p] {x x' : Option α} {y y' : Option β}
    (h : p → Option.Rel R x y) (h' : ¬ p → Option.Rel R x' y') :
    Option.Rel R (if p then x else x') (if p then y else y') := by
  by_cases hp : p
  · rw [if_pos hp, if_pos hp]
    exact h hp
  · rw [if_neg hp, if_neg hp]
    exact h' hp

/-- The states of two sinks, each with the same value beside it. -/
def Beside (R : σ → τ → Prop) (x : σ × α) (y : τ × α) : Prop := R x.1 y.1 ∧ x.2 = y.2

/-- The sinks agree on every item. -/
def Follows (R : σ → τ → Prop) (put : σ → α → Option σ) (put' : τ → α → Option τ) : Prop :=
  ∀ s t a, R s t → Option.Rel R (put s a) (put' t a)

/-- The sink that keeps what it is given. -/
def putText (l : List α) (a : α) : Option (List α) := some (l ++ [a])

@[simp] theorem putText_eq (l : List α) (a : α) : putText l a = some (l ++ [a]) := rfl

/-! ## Results under a condition -/

/-- The result is `x` under the condition, and there is none without it. -/
def Yields (p : Prop) (x : α) (o : Option α) : Prop := (p → o = some x) ∧ (¬ p → o = none)

namespace Yields

variable {p q : Prop} {x : α} {y : β} {o : Option α} {f : α → Option β}

theorem pure (x : α) : Yields True x (some x) := ⟨fun _ => rfl, fun h => absurd trivial h⟩

theorem of_ite [Decidable p] (h : o = if p then some x else none) : Yields p x o :=
  ⟨fun hp => h.trans (if_pos hp), fun hp => h.trans (if_neg hp)⟩

theorem congr (h : Yields p x o) (hpq : p ↔ q) : Yields q x o :=
  ⟨fun hq => h.1 (hpq.mpr hq), fun hq => h.2 fun hp => hq (hpq.mp hp)⟩

theorem bind (h : Yields p x o) (h' : p → Yields q y (f x)) : Yields (p ∧ q) y (o.bind f) := by
  constructor
  · rintro ⟨hp, hq⟩
    rw [h.1 hp, Option.bind_some, (h' hp).1 hq]
  · intro hpq
    by_cases hp : p
    · rw [h.1 hp, Option.bind_some, (h' hp).2 fun hq => hpq ⟨hp, hq⟩]
    · rw [h.2 hp, Option.bind_none]

/-- A step that always has its result. -/
theorem bind_some (h : o = some x) (h' : Yields q y (f x)) : Yields q y (o.bind f) := by
  rw [h, Option.bind_some]
  exact h'

/-- A result that is only passed on. -/
theorem wrap (h : Yields p x o) (g : α → β) : Yields p (g x) (o.bind fun x => some (g x)) :=
  (h.bind (f := fun x => some (g x)) fun _ => pure _).congr (and_iff_left trivial)

end Yields

end MiniEuler.Library
