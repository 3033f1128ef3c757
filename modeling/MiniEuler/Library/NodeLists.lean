import Mathlib.Data.List.Basic
import Mathlib.Data.List.Nodup
import Mathlib.Logic.Function.Basic

/-! Families of lists that share one link field per node. A node can be linked
into at most one of the lists, so `delete` takes no list argument: it unlinks
the node from wherever it is. `Placed` says that every node is linked exactly
where its `home` names it. -/

set_option linter.unusedSectionVars false

namespace MiniEuler.Library

variable {Head Node : Type} [DecidableEq Head] [DecidableEq Node]

abbrev NodeLists (Head Node : Type) := Head → List Node

namespace NodeLists

/-- Link `n` at the tail of list `h`. -/
def tailAdd (ls : NodeLists Head Node) (n : Node) (h : Head) : NodeLists Head Node :=
  Function.update ls h (ls h ++ [n])

/-- Link `n` at the front of list `h`. -/
def headAdd (ls : NodeLists Head Node) (n : Node) (h : Head) : NodeLists Head Node :=
  Function.update ls h (n :: ls h)

def insertBefore (n cur : Node) : List Node → List Node
  | [] => []
  | a :: l => if a = cur then n :: a :: l else a :: insertBefore n cur l

/-- Link `n` in front of the node `cur`, on the list where `cur` is. -/
def addBefore (ls : NodeLists Head Node) (n cur : Node) : NodeLists Head Node :=
  fun h => insertBefore n cur (ls h)

/-- Unlink `n`. -/
def delete (ls : NodeLists Head Node) (n : Node) : NodeLists Head Node :=
  fun h => (ls h).erase n

@[simp] theorem tailAdd_self (ls : NodeLists Head Node) (n : Node) (h : Head) :
    tailAdd ls n h h = ls h ++ [n] := by simp [tailAdd]

@[simp] theorem tailAdd_other (ls : NodeLists Head Node) (n : Node) {h h' : Head}
    (hne : h' ≠ h) : tailAdd ls n h h' = ls h' := by simp [tailAdd, hne]

@[simp] theorem headAdd_self (ls : NodeLists Head Node) (n : Node) (h : Head) :
    headAdd ls n h h = n :: ls h := by simp [headAdd]

@[simp] theorem headAdd_other (ls : NodeLists Head Node) (n : Node) {h h' : Head}
    (hne : h' ≠ h) : headAdd ls n h h' = ls h' := by simp [headAdd, hne]

@[simp] theorem delete_apply (ls : NodeLists Head Node) (n : Node) (h : Head) :
    delete ls n h = (ls h).erase n := rfl

theorem insertBefore_of_not_mem (n cur : Node) (l : List Node) (hc : cur ∉ l) :
    insertBefore n cur l = l := by
  induction l with
  | nil => rfl
  | cons a l ih =>
    simp only [List.mem_cons, not_or] at hc
    simp [insertBefore, Ne.symm hc.1, ih hc.2]

theorem insertBefore_perm (n cur : Node) (l : List Node) (hc : cur ∈ l) :
    (insertBefore n cur l).Perm (n :: l) := by
  induction l with
  | nil => simp at hc
  | cons a l ih =>
    by_cases h : a = cur
    · simp [insertBefore, h]
    · have hl : cur ∈ l := by simpa [Ne.symm h] using hc
      simp only [insertBefore, h, ↓reduceIte]
      exact ((ih hl).cons a).trans (List.Perm.swap n a l)

/-- Every node is on the list its home names, once, and on no other list. -/
structure Placed (ls : NodeLists Head Node) (home : Node → Option Head) : Prop where
  mem : ∀ h n, n ∈ ls h ↔ home n = some h
  nodup : ∀ h, (ls h).Nodup

namespace Placed

variable {ls : NodeLists Head Node} {home : Node → Option Head}

theorem unique (p : Placed ls home) {n : Node} {h h' : Head}
    (hn : n ∈ ls h) (hn' : n ∈ ls h') : h = h' := by
  have e := (p.mem h n).mp hn
  rw [(p.mem h' n).mp hn'] at e
  exact (Option.some.inj e).symm

theorem not_mem (p : Placed ls home) {n : Node} {h : Head} (hn : home n ≠ some h) :
    n ∉ ls h := fun hm => hn ((p.mem h n).mp hm)

theorem delete (p : Placed ls home) (n : Node) :
    Placed (ls.delete n) (Function.update home n none) := by
  refine ⟨fun h m => ?_, fun h => (p.nodup h).erase n⟩
  rw [delete_apply, (p.nodup h).mem_erase_iff, p.mem]
  by_cases hm : m = n <;> simp [hm]

/-- Deleting a node leaves every list it is not on as it was. -/
theorem delete_other (p : Placed ls home) {n : Node} {h : Head} (hn : home n ≠ some h) :
    ls.delete n h = ls h := List.erase_of_not_mem (p.not_mem hn)

theorem tailAdd (p : Placed ls home) {n : Node} (hn : home n = none) (h : Head) :
    Placed (ls.tailAdd n h) (Function.update home n (some h)) := by
  have hout : ∀ h', n ∉ ls h' := fun h' => p.not_mem (by simp [hn])
  refine ⟨fun h' m => ?_, fun h' => ?_⟩
  · by_cases hh : h' = h
    · subst hh
      by_cases hm : m = n <;> simp [hm, p.mem]
    · rw [tailAdd_other _ _ hh, p.mem]
      by_cases hm : m = n
      · simp [hm, hn, Ne.symm hh]
      · simp [hm]
  · by_cases hh : h' = h
    · subst hh
      rw [tailAdd_self]
      exact List.nodup_append.mpr ⟨p.nodup h', List.nodup_singleton n, by
        intro a ha b hb
        rw [List.mem_singleton.mp hb]
        exact fun e => hout h' (e ▸ ha)⟩
    · rw [tailAdd_other _ _ hh]
      exact p.nodup h'

theorem addBefore (p : Placed ls home) {n cur : Node} (hn : home n = none) {h : Head}
    (hc : home cur = some h) : Placed (ls.addBefore n cur) (Function.update home n (some h)) := by
  have hat : ∀ h', h' ≠ h → ls.addBefore n cur h' = ls h' := fun h' hh =>
    insertBefore_of_not_mem n cur (ls h') (p.not_mem (by simp [hc, Ne.symm hh]))
  have hperm : (ls.addBefore n cur h).Perm (n :: ls h) :=
    insertBefore_perm n cur (ls h) ((p.mem h cur).mpr hc)
  refine ⟨fun h' m => ?_, fun h' => ?_⟩
  · by_cases hh : h' = h
    · subst hh
      rw [hperm.mem_iff]
      by_cases hm : m = n <;> simp [hm, p.mem]
    · rw [hat h' hh, p.mem]
      by_cases hm : m = n
      · simp [hm, hn, Ne.symm hh]
      · simp [hm]
  · by_cases hh : h' = h
    · subst hh
      rw [hperm.nodup_iff]
      exact List.nodup_cons.mpr ⟨p.not_mem (by simp [hn]), p.nodup h'⟩
    · rw [hat h' hh]
      exact p.nodup h'

theorem headAdd (p : Placed ls home) {n : Node} (hn : home n = none) (h : Head) :
    Placed (ls.headAdd n h) (Function.update home n (some h)) := by
  have hperm : ∀ h', (ls.headAdd n h h').Perm (ls.tailAdd n h h') := by
    intro h'
    by_cases hh : h' = h
    · subst hh
      rw [headAdd_self, tailAdd_self]
      exact (List.perm_append_singleton n (ls h')).symm
    · rw [headAdd_other _ _ hh, tailAdd_other _ _ hh]
  have ht := p.tailAdd hn h
  exact ⟨fun h' m => (hperm h').mem_iff.trans (ht.mem h' m),
    fun h' => (hperm h').nodup_iff.mpr (ht.nodup h')⟩

/-- Emptying a list unlinks the nodes that were on it. -/
theorem empty (p : Placed ls home) (h : Head) :
    Placed (Function.update ls h []) fun n => if home n = some h then none else home n := by
  refine ⟨fun h' m => ?_, fun h' => ?_⟩
  · by_cases hh : h' = h
    · subst hh
      by_cases hm : home m = some h' <;> simp [hm]
    · rw [Function.update_of_ne hh, p.mem]
      by_cases hm : home m = some h <;> simp [hm, Ne.symm hh]
  · by_cases hh : h' = h
    · subst hh
      simp
    · rw [Function.update_of_ne hh]
      exact p.nodup h'

/-- A home that agrees with `home` on every node places the same lists. -/
theorem congr (p : Placed ls home) {home' : Node → Option Head} (he : ∀ n, home' n = home n) :
    Placed ls home' := ⟨fun h n => by rw [he, p.mem], p.nodup⟩

end Placed

end NodeLists

end MiniEuler.Library
