import MiniEuler.Kernel.Runs

/-! What a call does to one semaphore: the calls that are not about it leave its
block and its wait list alone, and the others change them as told here. -/

namespace MiniEuler
open Library

variable {k k' k'' : Kernel} {ph : Nat → TskPhase} {s s' : Nat}

/-- Semaphore `s` has the same block and the same wait list in both states. -/
structure SemSame (s : Nat) (k k' : Kernel) : Prop where
  sem : k'.allSem s = k.allSem s
  list : k'.semList s = k.semList s

theorem SemSame.refl (k : Kernel) : SemSame s k k := ⟨rfl, rfl⟩

theorem SemSame.trans (h : SemSame s k k') (h' : SemSame s k' k'') : SemSame s k k'' :=
  ⟨h'.sem.trans h.sem, h'.list.trans h.list⟩

theorem SchedFrame.semSame (F : SchedFrame k k') : SemSame s k k' :=
  ⟨by rw [F.allSem], by rw [Kernel.semList, F.lists]⟩

theorem PrioFrame.semSame (F : PrioFrame k k') : SemSame s k k' :=
  ⟨by rw [F.allSem], F.lists _ (by simp)⟩

theorem tailAdd_runQueue_semList (ls : NodeLists ListHead Nat) (p s : Nat) :
    ls.tailAdd p .runQueue (.semList s) = ls (.semList s) :=
  NodeLists.tailAdd_other ls p (by simp)

theorem createdKernel_semSame (L : Linked k ph) {cb : Nat} (hu : ph cb = .unused)
    (t : TagTskCb) (used : Nat → Bool) : SemSame s k (createdKernel k cb t used) :=
  ⟨rfl, L.placed.delete_other (by simp [hu, TskPhase.home])⟩

theorem resumedKernel_semSame (p : Nat) : SemSame s k (resumedKernel k p) := by
  rw [resumedKernel, osTskReadyAdd_eq]
  exact ⟨rfl, tailAdd_runQueue_semList k.lists p s⟩

@[simp] theorem semCreatedKernel_runQueue (k : Kernel) (s : Nat) (rest : List Nat)
    (c : TagSemCb) : (semCreatedKernel k s rest c).runQueue = k.runQueue := by
  simp [semCreatedKernel, Kernel.runQueue]

theorem semCreatedKernel_semSame (rest : List Nat) (c : TagSemCb) (h : s ≠ s') :
    SemSame s k (semCreatedKernel k s' rest c) :=
  ⟨by simp [semCreatedKernel, h], Function.update_of_ne (by simpa using h) _ _⟩

theorem setSem_semSame (c : TagSemCb) (h : s ≠ s') : SemSame s k (k.setSem s' c) :=
  ⟨by simp [Kernel.setSem, h], rfl⟩

theorem osTskReadyDel_semSame (L : Linked k ph) {p : Nat} (hr : ph p = .ready) :
    SemSame s k (osTskReadyDel k p) := by
  rw [osTskReadyDel_eq]
  exact ⟨rfl, L.placed.delete_other (by simp [hr, TskPhase.home])⟩

theorem osSemPendListPut_semSame (L : Linked k ph) (hr : ph k.runningTask = .ready)
    (hs : (k.allSem s').semStat = osSemUsed) (h : s ≠ s') :
    SemSame s k (osSemPendListPut k s') := by
  obtain ⟨-, hsem⟩ := semPendEnter_frame (k := k) (s := s')
  have F := osPriorityInherit_prioFrame (L.semPendEnter hr s') (s := s')
    (by rw [hsem]; exact hs) k.runningTask
  rw [osSemPendListPut_eq]
  refine SemSame.trans ⟨by rw [hsem], ?_⟩ F.semSame
  exact semPendEnter_lists_other L hr (by simp) (by simpa using h)

theorem osSemPostSchePre_semSame (L : Linked k ph) {w : Nat} {rest : List Nat}
    (hs : (k.allSem s').semStat = osSemUsed) (hl : k.semList s' = w :: rest) (h : s ≠ s') :
    SemSame s k (osSemPostSchePre k s') := by
  have F := osPriorityRestore_prioFrame L hs
  have LR := L.osPriorityRestore hs
  have hw : ph w = .pending s' := L.mem_semList.mp (by simp [hl])
  rw [osSemPostSchePre_woken L hs hl]
  refine F.semSame.trans ⟨by simp [wokenKernel, h], ?_⟩
  refine (tailAdd_runQueue_semList ((osPriorityRestore k s').lists.delete w) w s).trans ?_
  exact LR.placed.delete_other (by simp [hw, TskPhase.home, Ne.symm h])

theorem releasedKernel_semSame (L : Linked k ph) (hs : (k.allSem s').semStat = osSemUsed)
    (h : s ≠ s') : SemSame s k (releasedKernel k s') := by
  rw [releasedKernel_eq]
  exact (osPriorityRestore_prioFrame L hs).semSame.trans (setSem_semSame _ h)

theorem startedKernel_semSame (idle hi : Nat) : SemSame s k (startedKernel k idle hi) := ⟨rfl, rfl⟩

theorem osActivate_semSame (I : Inv k ph) (hb : ¬ bgdActive k) {entry : UIntPtr}
    (h : osActivate k entry = .ok k') : SemSame s k k' := by
  obtain ⟨cb, rest, t, used, hi, hl, hc, -, hhi, rfl⟩ := osActivate_cases I hb h
  have hu : ph cb = .unused := I.linked.mem_tskCbFreeList.mp (by simp [hl])
  exact ((createdKernel_semSame I.linked hu t used).trans (resumedKernel_semSame cb)).trans
    (startedKernel_semSame cb hi)

/-- **Frame rule for one semaphore.** -/
theorem Effect.semSame (I : Inv k ph) {op : Op} {ret : Nat} (e : Effect k ph op k' ret)
    (hc : op.Callable k) (hs : op.creates = none ∨ (k.allSem s).semStat = osSemUsed)
    (hpend : ∀ timeout, op ≠ .semPend s timeout) (hpost : op.posts ≠ some s) :
    SemSame s k k' := by
  cases e with
  | failed _ _ => exact SemSame.refl k
  | created hl hcr =>
    exact createdKernel_semSame I.linked (I.linked.mem_tskCbFreeList.mp (by simp [hl])) _ _
  | resumed hsus =>
    split
    · exact (resumedKernel_semSame _).trans (osTskSchedule_frame _).semSame
    · exact resumedKernel_semSame _
  | @semCreated _ s' rest count semType semMode ho hl =>
    have hne : s ≠ s' := by
      rintro rfl
      have := ((I.sems.unusedSem s).mp (by simp [hl])).2
      rw [hs.resolve_left (by simp [ho])] at this
      cases this
    exact semCreatedKernel_semSame _ _ hne
  | @took s' timeout hb hu hcount =>
    have hne : s ≠ s' := by rintro rfl; exact hpend timeout rfl
    exact setSem_semSame _ hne
  | @blocked s' hB =>
    have hne : s ≠ s' := by rintro rfl; exact hpend _ rfl
    exact (osSemPendListPut_semSame I.linked (I.active hc.1).1 (I.sems.used hB.used) hne).trans
      (osTskSchedule_frame _).semSame
  | @unsupported s' timeout hB hf =>
    have hne : s ≠ s' := by rintro rfl; exact hpend timeout rfl
    exact osSemPendListPut_semSame I.linked (I.active hc.1).1 (I.sems.used hB.used) hne
  | full _ _ _ => exact SemSame.refl k
  | @woke _ s' ho hP _ hl =>
    have hne : s ≠ s' := by rintro rfl; exact hpost ho
    obtain ⟨w, rest, hwr⟩ := List.exists_cons_of_ne_nil hl
    exact (osSemPostSchePre_semSame I.linked (I.sems.used hP.used) hwr hne).trans
      (osTskSchedule_frame _).semSame
  | @released _ s' ho hP _ hl =>
    have hne : s ≠ s' := by rintro rfl; exact hpost ho
    exact releasedKernel_semSame I.linked (I.sems.used hP.used) hne
  | exited =>
    rw [osTskEntryReturn_eq I.lock]
    exact (osTskReadyDel_semSame I.linked (I.active hc.1).1).trans (osTskSchedule_frame _).semSame
  | activated h => exact osActivate_semSame I hc.1 h

/-- An unused semaphore stays as it is, unless the call creates it. -/
theorem Effect.unused (I : Inv k ph) {op : Op} {ret : Nat} (e : Effect k ph op k' ret)
    (hc : op.Callable k) (hun : (k.allSem s).semStat = osSemUnused) :
    SemSame s k k' ∨ ∃ rest count semType semMode,
      op.creates = some (count, semType, semMode) ∧
      k' = semCreatedKernel k s rest (createdSem k s count semType semMode) := by
  by_cases hcr : op.creates = none
  · left
    by_cases hpend : ∃ timeout, op = .semPend s timeout
    · obtain ⟨timeout, rfl⟩ := hpend
      cases e with
      | failed _ _ => exact SemSame.refl k
      | semCreated ho _ => cases ho
      | took _ hu _ => exact absurd hun hu
      | blocked hB => exact absurd hun hB.used
      | unsupported hB _ => exact absurd hun hB.used
      | full ho _ _ => cases ho
      | woke ho _ _ _ => cases ho
      | released ho _ _ _ => cases ho
    by_cases hpost : op.posts = some s
    · have hP : ¬ Posts k s := fun hP => hP.used hun
      cases e with
      | failed _ _ => exact SemSame.refl k
      | full ho hP' _ => exact absurd (Option.some.inj (hpost.symm.trans ho) ▸ hP') hP
      | woke ho hP' _ _ => exact absurd (Option.some.inj (hpost.symm.trans ho) ▸ hP') hP
      | released ho hP' _ _ => exact absurd (Option.some.inj (hpost.symm.trans ho) ▸ hP') hP
      | created _ _ => cases hpost
      | resumed _ => cases hpost
      | semCreated ho _ => rw [hcr] at ho; cases ho
      | took _ _ _ => cases hpost
      | blocked _ => cases hpost
      | unsupported _ _ => cases hpost
      | exited => cases hpost
      | activated _ => cases hpost
    · exact e.semSame I hc (Or.inl hcr) (fun t h => hpend ⟨t, h⟩) hpost
  · cases e with
    | failed _ _ => exact Or.inl (SemSame.refl k)
    | @semCreated _ s' rest count semType semMode ho hl =>
      by_cases hs : s = s'
      · subst hs
        exact Or.inr ⟨rest, count, semType, semMode, ho, rfl⟩
      · exact Or.inl (semCreatedKernel_semSame _ _ hs)
    | full ho _ _ => cases op <;> simp [Op.posts, Op.creates] at ho hcr
    | woke ho _ _ _ => cases op <;> simp [Op.posts, Op.creates] at ho hcr
    | released ho _ _ _ => cases op <;> simp [Op.posts, Op.creates] at ho hcr
    | created _ _ => simp [Op.creates] at hcr
    | resumed _ => simp [Op.creates] at hcr
    | took _ _ _ => simp [Op.creates] at hcr
    | blocked _ => simp [Op.creates] at hcr
    | unsupported _ _ => simp [Op.creates] at hcr
    | exited => simp [Op.creates] at hcr
    | activated _ => simp [Op.creates] at hcr

/-! ## The semaphore a call is about -/

/-- A pend that blocks leaves the block alone and puts the caller on the list, at
its end when the semaphore is served in order of arrival. -/
theorem blocked_semList (I : Inv k ph) (hb : bgdActive k)
    (hs : (k.allSem s).semStat = osSemUsed) (hm : (k.allSem s).semMode ≠ .prior) :
    (osSemPendListPut k s).allSem s = k.allSem s ∧
    (osSemPendListPut k s).semList s = k.semList s ++ [k.runningTask] := by
  have L := I.linked
  have hr := (I.active hb).1
  obtain ⟨-, hsem⟩ := semPendEnter_frame (k := k) (s := s)
  have F := osPriorityInherit_prioFrame (L.semPendEnter hr s) (s := s)
    (by rw [hsem]; exact hs) k.runningTask
  rw [osSemPendListPut_eq]
  refine ⟨by rw [F.allSem, hsem], (F.lists _ (by simp)).trans ?_⟩
  rcases semPendEnter_lists k s with hl | ⟨hp, -⟩
  · rw [hl, NodeLists.tailAdd_self]
    congr 1
    exact L.placed.delete_other (by simp [hr, TskPhase.home])
  · exact absurd hp hm

theorem woke_semList (I : Inv k ph) {w : Nat} {rest : List Nat}
    (hs : (k.allSem s).semStat = osSemUsed) (hl : k.semList s = w :: rest) :
    (osSemPostSchePre k s).allSem s = { k.allSem s with semOwner := w } ∧
    (osSemPostSchePre k s).semList s = rest := by
  have hlR := (osPriorityRestore_semList I.linked hs s).trans hl
  obtain ⟨-, hsem⟩ := osSemPostSchePre_frame I.linked hs hl
  refine ⟨by rw [hsem]; simp, ?_⟩
  rw [osSemPostSchePre_woken I.linked hs hl]
  refine (tailAdd_runQueue_semList ((osPriorityRestore k s).lists.delete w) w s).trans ?_
  rw [NodeLists.delete_apply, show (osPriorityRestore k s).lists (.semList s) = _ from hlR]
  simp

theorem released_semList (L : Linked k ph) (hs : (k.allSem s).semStat = osSemUsed) :
    (releasedKernel k s).allSem s = { k.allSem s with
      semCount := ((k.allSem s).semCount + 1) % 2 ^ 32, semOwner := osInvalidOwnerId } ∧
    (releasedKernel k s).semList s = k.semList s := by
  have F := osPriorityRestore_prioFrame L hs
  rw [releasedKernel_eq, F.allSem]
  exact ⟨by simp [Kernel.setSem], F.lists _ (by simp)⟩

end MiniEuler
