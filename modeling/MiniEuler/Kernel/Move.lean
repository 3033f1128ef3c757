import MiniEuler.Kernel.Phase

/-! Each helper of the task and semaphore modules as a move of one task from
phase to phase. -/

namespace MiniEuler
open Library

theorem home_update (ph : Nat → TskPhase) (p : Nat) (x : TskPhase) (q : Nat) :
    (Function.update ph p x q).home =
      Function.update (fun r => (ph r).home) p x.home q := by
  by_cases h : q = p
  · subst h; simp
  · simp [h]

theorem argmin_congr {α : Type} {f g : α → Nat} {l : List α} (h : ∀ a ∈ l, f a = g a) :
    l.argmin f = l.argmin g := by
  induction l using List.reverseRecOn with
  | nil => rfl
  | append_singleton l a ih =>
    rw [List.argmin_concat, List.argmin_concat, ih (fun b hb => h b (by simp [hb]))]
    cases hm : l.argmin g with
    | none => rfl
    | some c =>
      have hc : c ∈ l := List.argmin_mem hm
      simp only [h a (by simp), h c (by simp [hc])]

/-- Two nodes in a row are linked: out of the old list, then at the tail of a new one. -/
theorem placed_requeue {ls : NodeLists ListHead Nat} {ph : Nat → TskPhase}
    (P : ls.Placed (fun p => (ph p).home)) (p : Nat) {x : TskPhase} {h : ListHead}
    (hx : x.home = some h) :
    ((ls.delete p).tailAdd p h).Placed (fun q => (Function.update ph p x q).home) := by
  refine ((P.delete p).tailAdd (by simp) h).congr (fun q => ?_)
  rw [home_update, hx, Function.update_idem]

namespace Linked

variable {k : Kernel} {ph : Nat → TskPhase}

/-- **Move rule.** Rewriting one block and the lists so that both fit the new
phase of that task keeps everything linked. -/
theorem move (L : Linked k ph) {p : Nat} {x : TskPhase} {t : TagTskCb}
    {l : NodeLists ListHead Nat} {m : Option Nat} (hp : p ≤ k.tskMaxNum)
    (hls : l.Placed (fun q => (Function.update ph p x q).home))
    (hst : t.taskStatus = x.bits ||| runBit k p) (hpid : t.taskPid = p)
    (hw : ∀ s, x = .pending s → t.taskSem = some s)
    (hb : t.priority ≤ t.originalPriority ∧
      (t.priority = t.originalPriority ∨ t.priority ≤ 255))
    (hu : x = .unused → ph p = .unused)
    (hf : m = (l .runQueue).argmin
      (fun q => (Function.update k.tskCbArray p t q).priority)) :
    Linked { k with
      tskCbArray := Function.update k.tskCbArray p t, lists := l, highestTask := m }
      (Function.update ph p x) := by
  constructor
  case placed => exact hls
  case beyond =>
    intro q hq
    have hne : q ≠ p := by rintro rfl; exact absurd hp (by simpa using hq)
    rw [Function.update_of_ne hne]
    exact L.beyond q hq
  case status =>
    intro q hq
    by_cases h : q = p
    · subst h
      simp only [Function.update_self]
      exact hst
    · simp only [Function.update_of_ne h]
      exact L.status q hq
  case pid =>
    intro q hq
    by_cases h : q = p
    · subst h
      simpa using hpid
    · simpa [h] using L.pid q hq
  case waits =>
    intro q s hs
    by_cases h : q = p
    · subst h
      simpa using hw s (by simpa using hs)
    · simpa [h] using L.waits q s (by simpa [h] using hs)
  case boost =>
    intro q hq
    by_cases h : q = p
    · subst h
      simpa [Kernel.priority, Kernel.originalPriority] using hb
    · simpa [Kernel.priority, Kernel.originalPriority, h] using L.boost q hq
  case fresh => exact hf
  case owner =>
    intro s hs
    rcases L.owner s hs with h | ⟨hle, hne⟩
    · exact Or.inl h
    · refine Or.inr ⟨hle, ?_⟩
      by_cases h : (k.allSem s).semOwner = p
      · simp only [h, Function.update_self]
        exact fun hx => hne (h ▸ hu hx)
      · simpa [h] using hne

/-! ## Run queue -/

theorem osTskReadyAdd (L : Linked k ph) {p : Nat} (hp : p ≤ k.tskMaxNum)
    (hd : ph p = .dormant) : Linked (osTskReadyAdd k p) (Function.update ph p .ready) := by
  rw [osTskReadyAdd_eq]
  refine L.move hp ?_ ?_ ?_ (fun _ h => by cases h) ?_ (fun h => by cases h) ?_
  · have hn : (fun q => (ph q).home) p = none := by simp [hd, TskPhase.home]
    exact (L.placed.tailAdd hn .runQueue).congr fun q => home_update ph p .ready q
  · have h := L.status p hp
    rw [hd] at h
    rcases runBit_cases k p with hr | hr <;> simp only [h, hr, TskPhase.bits] <;> decide
  · exact L.pid p hp
  · exact L.boost p hp
  · refine argmin_congr fun q _ => ?_
    by_cases h : q = p
    · subst h; simp
    · simp [h]

theorem osTskReadyDel (L : Linked k ph) {p : Nat} (hr : ph p = .ready) :
    Linked (osTskReadyDel k p) (Function.update ph p .dormant) := by
  have hp : p ≤ k.tskMaxNum := L.le_of_ne_dormant (by rw [hr]; decide)
  rw [osTskReadyDel_eq]
  refine L.move hp ?_ ?_ ?_ (fun _ h => by cases h) ?_ (fun h => by cases h) ?_
  · exact (L.placed.delete p).congr fun q => home_update ph p .dormant q
  · have h := L.status p hp
    rw [hr] at h
    rcases runBit_cases k p with hb | hb <;> simp only [h, hb, TskPhase.bits] <;> decide
  · exact L.pid p hp
  · exact L.boost p hp
  · refine argmin_congr fun q _ => ?_
    by_cases h : q = p
    · subst h; simp
    · simp [h]

/-! ## Priorities -/

/-- The lists other than the run queue do not see a priority write. -/
theorem osOwnerPrioritySet_lists_other (L : Linked k ph) {p : Nat} (hp : p ≤ k.tskMaxNum)
    (v : Nat) {h : ListHead} (hh : h ≠ .runQueue) :
    (osOwnerPrioritySet k p v).lists h = k.lists h := by
  rw [MiniEuler.osOwnerPrioritySet_lists]
  split
  · rename_i hr
    rw [L.tst_ready hp] at hr
    rw [NodeLists.tailAdd_other _ _ hh]
    exact L.placed.delete_other (by simp [hr, TskPhase.home, Ne.symm hh])
  · rfl

theorem osOwnerPrioritySet (L : Linked k ph) {p : Nat} (hp : p ≤ k.tskMaxNum) {v : Nat}
    (hv : v ≤ k.originalPriority p ∧ (v = k.originalPriority p ∨ v ≤ 255)) :
    Linked (osOwnerPrioritySet k p v) ph := by
  have hfresh := osOwnerPrioritySet_highestTask k p v
  have hlists := osOwnerPrioritySet_lists k p v
  have htcb := osOwnerPrioritySet_tskCbArray k p v
  obtain ⟨ls, hi, heq⟩ := osOwnerPrioritySet_frame k p v
  rw [heq] at hfresh hlists
  rw [heq]
  have hmove := L.move (p := p) (x := ph p) (t := { k.tskCbArray p with priority := v })
    (l := ls) (m := hi) hp ?_ (L.status p hp) (L.pid p hp) (fun s hs => L.waits p s hs) hv
    (fun h => h) ?_
  · rwa [Function.update_eq_self] at hmove
  · -- the owner is where it was: unlinked and linked again when it is ready
    simp only at hlists
    rw [hlists]
    split
    · rename_i hr
      rw [L.tst_ready hp] at hr
      exact placed_requeue L.placed p (by rw [hr]; rfl)
    · rw [Function.update_eq_self]
      exact L.placed
  · simp only at hfresh hlists
    rw [hfresh]
    split
    · rfl
    · rename_i hr
      rw [if_neg hr] at hlists
      rw [L.tst_ready hp] at hr
      rw [L.fresh, hlists]
      refine argmin_congr fun q hq => ?_
      have hqp : q ≠ p := by
        rintro rfl
        exact hr (L.mem_runQueue.mp hq)
      simp [Kernel.priority, hqp]

theorem inheritedPriority_ok (L : Linked k ph) {p : Nat} (hp : p ≤ k.tskMaxNum)
    {v : Nat} (hv : v < k.priority p) (h : v ≤ 255) :
    v ≤ k.originalPriority p ∧ (v = k.originalPriority p ∨ v ≤ 255) :=
  ⟨by have := (L.boost p hp).1; omega, Or.inr h⟩

theorem osPriorityInherit (L : Linked k ph) {s : Nat}
    (hs : (k.allSem s).semStat = osSemUsed) (w : Nat) :
    Linked (osPriorityInherit k s w) ph := by
  rcases osPriorityInherit_cases k s w with ⟨h, -⟩ | ⟨hv, -, hlt, h⟩
  · rwa [h]
  · rcases L.owner s hs with h' | ⟨hle, -⟩
    · exact absurd h' hv
    · rw [h]
      exact L.osOwnerPrioritySet hle
        (L.inheritedPriority_ok hle hlt (inheritedPriority_le k s w).2)

theorem osPriorityRestore (L : Linked k ph) {s : Nat}
    (hs : (k.allSem s).semStat = osSemUsed) : Linked (osPriorityRestore k s) ph := by
  rcases osPriorityRestore_cases k s with ⟨h, -⟩ | ⟨hv, -, -, h⟩
  · rwa [h]
  · rcases L.owner s hs with h' | ⟨hle, -⟩
    · exact absurd h' hv
    · rw [h]
      refine L.osOwnerPrioritySet hle ?_
      unfold restoredPriority
      split
      · rename_i hlt
        exact L.inheritedPriority_ok hle hlt (osSemFindHighestWaiterPriority_spec k s).1
      · exact ⟨Nat.le_refl _, Or.inl rfl⟩

end Linked

end MiniEuler
