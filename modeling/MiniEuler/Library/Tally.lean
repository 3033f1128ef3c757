import Mathlib.Algebra.Order.BigOperators.Group.Finset
import Mathlib.Data.Fintype.BigOperators

/-! Sums, over the tasks of a system, of what the local state of each contributes. -/

namespace MiniEuler.Library

variable {T L : Type} {S : Finset T} {f : L → Nat} {loc : T → L} {t : T} {x : L}

def tally (S : Finset T) (f : L → Nat) (loc : T → L) : Nat := ∑ t ∈ S, f (loc t)

theorem tally_eq_zero (h : ∀ t ∈ S, f (loc t) = 0) : tally S f loc = 0 := Finset.sum_eq_zero h

theorem tally_add (S : Finset T) (f g : L → Nat) (loc : T → L) :
    tally S (fun l => f l + g l) loc = tally S f loc + tally S g loc := Finset.sum_add_distrib

/-- The tasks that contribute more to one tally than to another tell how far the tallies are
apart. -/
theorem length_add_tally_le (S : Finset T) (f g : L → Nat) (loc : T → L) {l : List T} (hl : l.Nodup)
    (hgf : ∀ t ∈ S, g (loc t) ≤ f (loc t)) (h : ∀ t ∈ l, t ∈ S ∧ g (loc t) < f (loc t)) :
    l.length + tally S g loc ≤ tally S f loc := by
  classical
  have hsub : S ∩ l.toFinset = l.toFinset :=
    Finset.inter_eq_right.mpr fun t ht => (h t (List.mem_toFinset.mp ht)).1
  have hcard : l.length = ∑ t ∈ S, if t ∈ l.toFinset then 1 else 0 := by
    rw [← Finset.sum_filter, Finset.filter_mem_eq_inter, hsub, ← Finset.card_eq_sum_ones,
      List.toFinset_card_of_nodup hl]
  rw [hcard, tally, tally, ← Finset.sum_add_distrib]
  refine Finset.sum_le_sum fun t ht => ?_
  split
  · rename_i hm
    have := (h t (List.mem_toFinset.mp hm)).2
    omega
  · have := hgf t ht
    omega

theorem length_le_tally (S : Finset T) (f : L → Nat) (loc : T → L) {l : List T}
    (hl : l.Nodup) (h : ∀ t ∈ l, t ∈ S ∧ 1 ≤ f (loc t)) :
    l.length ≤ tally S f loc :=
  (Nat.le_add_right _ _).trans
    (length_add_tally_le S f (fun _ => 0) loc hl (fun _ _ => Nat.zero_le _) h)

/-- A tally of at most one each is not more than the tasks that contribute. -/
theorem tally_le_length (S : Finset T) (f : L → Nat) (loc : T → L) {l : List T}
    (hone : ∀ t ∈ S, f (loc t) ≤ 1)
    (h : ∀ t ∈ S, f (loc t) ≠ 0 → t ∈ l) : tally S f loc ≤ l.length := by
  classical
  calc tally S f loc = ∑ t ∈ S with f (loc t) ≠ 0, f (loc t) := (Finset.sum_filter_ne_zero S).symm
    _ ≤ ∑ t ∈ S with f (loc t) ≠ 0, 1 :=
      Finset.sum_le_sum fun t ht => hone t (Finset.mem_filter.mp ht).1
    _ = (S.filter fun t => f (loc t) ≠ 0).card := (Finset.card_eq_sum_ones _).symm
    _ ≤ l.toFinset.card := Finset.card_le_card fun t ht =>
      List.mem_toFinset.mpr (h t (Finset.mem_filter.mp ht).1 (Finset.mem_filter.mp ht).2)
    _ ≤ l.length := List.toFinset_card_le l

section
variable [DecidableEq T]

/-- When one task moves, its old contribution gives way to its new one. -/
theorem tally_update (f : L → Nat) (loc : T → L) (x : L) (ht : t ∈ S) :
    tally S f (Function.update loc t x) + f (loc t) = tally S f loc + f x := by
  have hsame : ∑ u ∈ S.erase t, f (Function.update loc t x u) = ∑ u ∈ S.erase t, f (loc u) :=
    Finset.sum_congr rfl fun u hu => by rw [Function.update_of_ne (Finset.ne_of_mem_erase hu)]
  have hnew := Finset.add_sum_erase S (fun u => f (Function.update loc t x u)) ht
  have hold := Finset.add_sum_erase S (fun u => f (loc u)) ht
  rw [Function.update_self, hsame] at hnew
  unfold tally
  omega

theorem tally_update_other (ht : t ∉ S) : tally S f (Function.update loc t x) = tally S f loc := by
  refine Finset.sum_congr rfl fun u hu => ?_
  rw [Function.update_of_ne (ne_of_mem_of_not_mem hu ht)]

theorem tally_update_eq (hx : f x = f (loc t)) :
    tally S f (Function.update loc t x) = tally S f loc := by
  by_cases ht : t ∈ S
  · have := tally_update f loc x ht
    omega
  · exact tally_update_other ht

end

end MiniEuler.Library
