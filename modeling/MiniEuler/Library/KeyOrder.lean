import Mathlib.Order.Lattice
import MiniEuler.Library.NodeLists

/-! Lists kept in the strict order of a key. With pairs of a rank and a time of arrival
as keys, equal ranks stand in the order of arrival. -/

namespace MiniEuler.Library

variable {α β : Type} [LinearOrder β] {f g : α → β} {l : List α}

/-- The keys of the list increase. -/
def KeyOrdered (f : α → β) (l : List α) : Prop := l.Pairwise fun a b => f a < f b

namespace KeyOrdered

theorem nil : KeyOrdered f [] := List.Pairwise.nil

theorem tail {a : α} (h : KeyOrdered f (a :: l)) : KeyOrdered f l := (List.pairwise_cons.mp h).2

theorem head_lt {a : α} (h : KeyOrdered f (a :: l)) : ∀ b ∈ l, f a < f b :=
  (List.pairwise_cons.mp h).1

theorem congr (h : KeyOrdered f l) (he : ∀ a ∈ l, g a = f a) : KeyOrdered g l := by
  refine List.Pairwise.imp_of_mem (fun {a b} ha hb hab => ?_) h
  rw [he a ha, he b hb]
  exact hab

/-- A greater key goes to the end. -/
theorem concat (h : KeyOrdered f l) {n : α} (hn : ∀ a ∈ l, f a < f n) :
    KeyOrdered f (l ++ [n]) := by
  refine List.pairwise_append.mpr ⟨h, List.pairwise_singleton _ _, fun a ha b hb => ?_⟩
  rw [List.mem_singleton.mp hb]
  exact hn a ha

/-- Any other key goes in front of the first greater one. -/
theorem insertBefore [DecidableEq α] (h : KeyOrdered f l) {n cur : α} {p : α → Bool}
    (hp : ∀ a ∈ l, p a = true ↔ f n < f a) (hne : ∀ a ∈ l, f a ≠ f n)
    (hfind : l.find? p = some cur) : KeyOrdered f (NodeLists.insertBefore n cur l) := by
  induction l with
  | nil => simp at hfind
  | cons a l ih =>
    by_cases ha : p a = true
    · obtain rfl : a = cur := by simpa [List.find?_cons, ha] using hfind
      have hna := (hp a (by simp)).mp ha
      simp only [NodeLists.insertBefore, ↓reduceIte]
      refine List.pairwise_cons.mpr ⟨fun b hb => ?_, h⟩
      rcases List.mem_cons.mp hb with rfl | hb
      · exact hna
      · exact lt_trans hna (h.head_lt b hb)
    · have hfind' : l.find? p = some cur := by simpa [List.find?_cons, ha] using hfind
      have hcur : a ≠ cur := by
        rintro rfl
        exact ha (List.find?_some hfind')
      have han : f a < f n := lt_of_le_of_ne (not_lt.mp fun hlt => ha ((hp a (by simp)).mpr hlt))
        (hne a (by simp))
      simp only [NodeLists.insertBefore, hcur, ↓reduceIte]
      refine List.pairwise_cons.mpr ⟨fun b hb => ?_, ih h.tail
        (fun b hb => hp b (List.mem_cons_of_mem _ hb))
        (fun b hb => hne b (List.mem_cons_of_mem _ hb)) hfind'⟩
      have hperm := NodeLists.insertBefore_perm n cur l (List.mem_of_find?_eq_some hfind')
      have hmem := hperm.mem_iff.mp hb
      rcases List.mem_cons.mp hmem with rfl | hb
      · exact han
      · exact h.head_lt b hb

/-- **New keys keep the order of the list exactly when nothing overtakes anything.** -/
theorem rekey_iff (h : KeyOrdered f l) :
    KeyOrdered g l ↔ ∀ a ∈ l, ∀ b ∈ l, f a < f b → g a < g b := by
  constructor
  · intro hg
    induction l with
    | nil => simp
    | cons c l ih =>
      intro a ha b hb hab
      rcases List.mem_cons.mp ha with rfl | ha' <;> rcases List.mem_cons.mp hb with rfl | hb'
      · exact absurd hab (lt_irrefl _)
      · exact hg.head_lt b hb'
      · exact absurd (lt_trans hab (h.head_lt a ha')) (lt_irrefl _)
      · exact ih h.tail hg.tail a ha' b hb' hab
  · intro hg
    exact List.Pairwise.imp_of_mem (fun ha hb hab => hg _ ha _ hb hab) h

end KeyOrdered

end MiniEuler.Library
