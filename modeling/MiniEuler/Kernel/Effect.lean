import MiniEuler.Kernel.Sem

/-! What each helper of the task and semaphore modules changes, and what it
leaves alone. Later proofs use these lemmas and never unfold the helpers. -/

namespace MiniEuler
open Library

variable (k : Kernel) (p q : Nat) (s : Nat)

/-! ## Status and queue helpers -/

theorem osTskHighestSet_highestTask :
    (osTskHighestSet k).highestTask = k.runQueue.argmin k.priority := by
  unfold osTskHighestSet List.argmin
  simp only
  congr 1
  funext a b
  cases a <;> rfl

theorem setTcb_self : k.setTcb p (k.tskCbArray p) = k := by
  simp [Kernel.setTcb]

theorem priority_setTcb_taskStatus (b : BitVec 32) :
    (k.setTcb p { k.tskCbArray p with taskStatus := b }).priority = k.priority := by
  funext r
  by_cases h : r = p
  · subst h; simp [Kernel.setTcb, Kernel.priority]
  · simp [Kernel.setTcb, Kernel.priority, h]

theorem osTskReadyAdd_eq : osTskReadyAdd k p =
    { k with
      tskCbArray := Function.update k.tskCbArray p
        { k.tskCbArray p with taskStatus := (k.tskCbArray p).taskStatus ||| osTskReady }
      lists := k.lists.tailAdd p .runQueue
      highestTask := (k.lists.tailAdd p .runQueue .runQueue).argmin k.priority } := by
  have h := osTskHighestSet_highestTask (osEnqueueTaskAmp (tskStatusSet k p osTskReady) p)
  have hp : (osEnqueueTaskAmp (tskStatusSet k p osTskReady) p).priority = k.priority :=
    priority_setTcb_taskStatus k p _
  rw [hp] at h
  change { osTskReadyAdd k p with highestTask := (osTskReadyAdd k p).highestTask } = _
  rw [show (osTskReadyAdd k p).highestTask = _ from h]
  rfl

theorem osTskReadyDel_eq : osTskReadyDel k p =
    { k with
      tskCbArray := Function.update k.tskCbArray p
        { k.tskCbArray p with taskStatus := (k.tskCbArray p).taskStatus &&& ~~~osTskReady }
      lists := k.lists.delete p
      highestTask := (k.lists.delete p .runQueue).argmin k.priority } := by
  have h := osTskHighestSet_highestTask (osDequeueTaskAmp (tskStatusClear k p osTskReady) p)
  have hp : (osDequeueTaskAmp (tskStatusClear k p osTskReady) p).priority = k.priority :=
    priority_setTcb_taskStatus k p _
  rw [hp] at h
  change { osTskReadyDel k p with highestTask := (osTskReadyDel k p).highestTask } = _
  rw [show (osTskReadyDel k p).highestTask = _ from h]
  rfl

/-! ## Scheduler -/

/-- `k'` differs from `k` only in what rescheduling may write: status words, the
running task, the cache, the request flag and the fault record. -/
structure SchedFrame (k k' : Kernel) : Prop where
  lists : k'.lists = k.lists
  allSem : k'.allSem = k.allSem
  unusedSemList : k'.unusedSemList = k.unusedSemList
  idleTaskId : k'.idleTaskId = k.idleTaskId
  uniTaskLock : k'.uniTaskLock = k.uniTaskLock
  tskMaxNum : k'.tskMaxNum = k.tskMaxNum
  maxSem : k'.maxSem = k.maxSem
  stackMem : k'.stackMem = k.stackMem
  stackMemUsed : k'.stackMemUsed = k.stackMemUsed
  tcb : ∀ r, ∃ b, k'.tskCbArray r = { k.tskCbArray r with taskStatus := b }

theorem SchedFrame.refl : SchedFrame k k := by
  constructor <;> first | rfl | exact fun r => ⟨_, rfl⟩

theorem SchedFrame.trans {k k' k'' : Kernel} (h : SchedFrame k k') (h' : SchedFrame k' k'') :
    SchedFrame k k'' := by
  constructor
  case tcb =>
    intro r
    obtain ⟨b, hb⟩ := h.tcb r
    obtain ⟨b', hb'⟩ := h'.tcb r
    exact ⟨b', by rw [hb', hb]⟩
  · exact h'.lists.trans h.lists
  · exact h'.allSem.trans h.allSem
  · exact h'.unusedSemList.trans h.unusedSemList
  · exact h'.idleTaskId.trans h.idleTaskId
  · exact h'.uniTaskLock.trans h.uniTaskLock
  · exact h'.tskMaxNum.trans h.tskMaxNum
  · exact h'.maxSem.trans h.maxSem
  · exact h'.stackMem.trans h.stackMem
  · exact h'.stackMemUsed.trans h.stackMemUsed

theorem setTcb_taskStatus_frame (b : BitVec 32) :
    SchedFrame k (k.setTcb p { k.tskCbArray p with taskStatus := b }) := by
  constructor <;> try rfl
  intro r
  by_cases h : r = p
  · subst h
    exact ⟨b, by simp [Kernel.setTcb]⟩
  · exact ⟨(k.tskCbArray r).taskStatus, by simp [Kernel.setTcb, h]⟩

/-- The globals of the scheduler itself are outside the frame. -/
theorem SchedFrame.globals {k k' : Kernel} (h : SchedFrame k k') (running : Nat)
    (highest : Option Nat) (flag : BitVec 32) (fault : Bool) :
    SchedFrame k { k' with
      runningTask := running, highestTask := highest, uniFlag := flag, fault := fault } :=
  ⟨h.1, h.2, h.3, h.4, h.5, h.6, h.7, h.8, h.9, h.10⟩

theorem osMainSchedule_frame : SchedFrame k (osMainSchedule k) := by
  unfold osMainSchedule
  split
  · have hflag := (SchedFrame.refl k).globals k.runningTask k.highestTask
      (k.uniFlag &&& ~~~osFlgTskReq) k.fault
    have hclear := hflag.trans (setTcb_taskStatus_frame _ k.runningTask
      ((k.tskCbArray k.runningTask).taskStatus &&& ~~~osTskRunning))
    simp only
    split
    · exact hclear.globals _ _ _ _
    · exact (hclear.trans (setTcb_taskStatus_frame _ _ _)).globals _ _ _ _
  · exact SchedFrame.refl k

theorem osTskSchedule_frame : SchedFrame k (osTskSchedule k) := by
  have hset : SchedFrame k (osTskHighestSet k) := (SchedFrame.refl k).globals _ _ _ _
  unfold osTskSchedule
  simp only
  split
  · split
    · exact (hset.globals _ _ _ _).trans (osMainSchedule_frame _)
    · exact hset.globals _ _ _ _
  · exact hset

section
variable {k} {k' : Kernel} (h : SchedFrame k k')
include h

theorem SchedFrame.priority : k'.priority = k.priority := by
  funext r
  obtain ⟨b, hb⟩ := h.tcb r
  simp [Kernel.priority, hb]

theorem SchedFrame.originalPriority : k'.originalPriority = k.originalPriority := by
  funext r
  obtain ⟨b, hb⟩ := h.tcb r
  simp [Kernel.originalPriority, hb]

theorem SchedFrame.taskPid (r : Nat) : (k'.tskCbArray r).taskPid = (k.tskCbArray r).taskPid := by
  obtain ⟨b, hb⟩ := h.tcb r
  rw [hb]

theorem SchedFrame.taskSem (r : Nat) : (k'.tskCbArray r).taskSem = (k.tskCbArray r).taskSem := by
  obtain ⟨b, hb⟩ := h.tcb r
  rw [hb]

end

/-! ## Priority writes -/

theorem status_requeue (b : BitVec 32) (h : b &&& osTskReady ≠ 0) :
    (b &&& ~~~osTskReady) ||| osTskReady = b := by
  have hb : osTskReady = BitVec.twoPow 32 6 := by decide
  rw [hb] at h ⊢
  have h6 : b.getLsbD 6 = true := by
    by_contra hc
    exact h (by rw [BitVec.and_twoPow, if_neg hc]; rfl)
  ext i hi
  by_cases hi6 : i = 6
  · subst hi6
    simpa using h6
  · simp [hi6]

/-- Whatever the owner's state, only its priority changes in its block. -/
@[simp] theorem osOwnerPrioritySet_tskCbArray (v : Nat) :
    (osOwnerPrioritySet k p v).tskCbArray =
      Function.update k.tskCbArray p { k.tskCbArray p with priority := v } := by
  unfold osOwnerPrioritySet
  simp only
  split
  · rename_i h
    have hb := status_requeue (k.tskCbArray p).taskStatus
      (by simpa [tskStatusTst, Kernel.setTcb] using h)
    rw [osTskReadyAdd_eq, osTskReadyDel_eq]
    simp [Kernel.setTcb, hb]
  · rfl

theorem osOwnerPrioritySet_lists (v : Nat) :
    (osOwnerPrioritySet k p v).lists =
      if tskStatusTst k p osTskReady then (k.lists.delete p).tailAdd p .runQueue else k.lists := by
  unfold osOwnerPrioritySet
  have h : tskStatusTst (k.setTcb p { k.tskCbArray p with priority := v }) p osTskReady ↔
      tskStatusTst k p osTskReady := by simp [tskStatusTst, Kernel.setTcb]
  simp only [h]
  split
  · rw [osTskReadyAdd_eq, osTskReadyDel_eq]; rfl
  · rfl

/-- A priority write refreshes the cache when the owner is queued. -/
theorem osOwnerPrioritySet_highestTask (v : Nat) :
    (osOwnerPrioritySet k p v).highestTask =
      if tskStatusTst k p osTskReady then
        (osOwnerPrioritySet k p v).runQueue.argmin (osOwnerPrioritySet k p v).priority
      else k.highestTask := by
  have h : tskStatusTst (k.setTcb p { k.tskCbArray p with priority := v }) p osTskReady ↔
      tskStatusTst k p osTskReady := by simp [tskStatusTst, Kernel.setTcb]
  by_cases hr : tskStatusTst k p osTskReady
  · have hp : (osOwnerPrioritySet k p v).priority =
        (osTskReadyDel (k.setTcb p { k.tskCbArray p with priority := v }) p).priority := by
      funext r
      by_cases hrp : r = p
      · subst hrp; simp [osTskReadyDel_eq, Kernel.setTcb, Kernel.priority]
      · simp [osTskReadyDel_eq, Kernel.setTcb, Kernel.priority, hrp]
    have hu : osOwnerPrioritySet k p v = osTskReadyAdd
        (osTskReadyDel (k.setTcb p { k.tskCbArray p with priority := v }) p) p := by
      simp only [osOwnerPrioritySet]
      rw [if_pos (h.mpr hr)]
    rw [if_pos hr, hp, hu, osTskReadyAdd_eq]
  · simp only [osOwnerPrioritySet, h, hr, ↓reduceIte]
    rfl

/-- The rest of the state is not touched by a priority write. -/
theorem osOwnerPrioritySet_frame (v : Nat) : ∃ lists highest,
    osOwnerPrioritySet k p v = { k with
      tskCbArray := Function.update k.tskCbArray p { k.tskCbArray p with priority := v }
      lists := lists
      highestTask := highest } := by
  refine ⟨(osOwnerPrioritySet k p v).lists, (osOwnerPrioritySet k p v).highestTask, ?_⟩
  rw [← osOwnerPrioritySet_tskCbArray]
  unfold osOwnerPrioritySet
  simp only
  split
  · rw [osTskReadyAdd_eq, osTskReadyDel_eq]; rfl
  · rfl

/-! ## Waiters -/

theorem foldl_min_spec (f : Nat → Nat) (l : List Nat) (m : Nat) :
    let r := l.foldl (fun highest t => if f t < highest then f t else highest) m
    r ≤ m ∧ (∀ t ∈ l, r ≤ f t) ∧ (r = m ∨ ∃ t ∈ l, r = f t) := by
  induction l generalizing m with
  | nil => simp
  | cons a l ih =>
    obtain ⟨hm, hl, he⟩ := ih (if f a < m then f a else m)
    simp only [List.foldl_cons]
    refine ⟨hm.trans (by split <;> omega), ?_, ?_⟩
    · intro t ht
      rcases List.mem_cons.mp ht with rfl | ht
      · exact hm.trans (by split <;> omega)
      · exact hl t ht
    · rcases he with he | ⟨t, ht, he⟩
      · by_cases h : f a < m
        · exact Or.inr ⟨a, by simp, by rw [he, if_pos h]⟩
        · exact Or.inl (by rw [he, if_neg h])
      · exact Or.inr ⟨t, List.mem_cons_of_mem _ ht, he⟩

/-- The search result: at most 255, at most every waiter's priority, and one of
these values. -/
theorem osSemFindHighestWaiterPriority_spec :
    let r := osSemFindHighestWaiterPriority k s
    r ≤ 255 ∧ (∀ t ∈ k.semList s, r ≤ k.priority t) ∧
      (r = 255 ∨ ∃ t ∈ k.semList s, r = k.priority t) := by
  unfold osSemFindHighestWaiterPriority
  split
  · rename_i h
    simp [h]
  · exact foldl_min_spec k.priority (k.semList s) 255

/-- The priority `OsPriorityInherit` compares the owner with. -/
def inheritedPriority (w : Nat) : Nat :=
  if k.priority w < osSemFindHighestWaiterPriority k s then k.priority w
  else osSemFindHighestWaiterPriority k s

theorem inheritedPriority_le (w : Nat) :
    inheritedPriority k s w ≤ k.priority w ∧ inheritedPriority k s w ≤ 255 := by
  have h := (osSemFindHighestWaiterPriority_spec k s).1
  unfold inheritedPriority
  split <;> omega

theorem osPriorityInherit_cases (w : Nat) :
    let owner := (k.allSem s).semOwner
    (osPriorityInherit k s w = k ∧
      (owner = osInvalidOwnerId ∨ tskIsUnused k owner ∨
        k.priority owner ≤ inheritedPriority k s w)) ∨
    (owner ≠ osInvalidOwnerId ∧ ¬ tskIsUnused k owner ∧
      inheritedPriority k s w < k.priority owner ∧
      osPriorityInherit k s w = osOwnerPrioritySet k owner (inheritedPriority k s w)) := by
  intro owner
  by_cases hv : owner = osInvalidOwnerId
  · exact Or.inl ⟨if_pos hv, Or.inl hv⟩
  by_cases hu : tskIsUnused k owner
  · exact Or.inl ⟨by rw [osPriorityInherit, if_neg hv]; exact if_pos hu, Or.inr (Or.inl hu)⟩
  have hunfold : osPriorityInherit k s w =
      if k.priority owner > inheritedPriority k s w then
        osOwnerPrioritySet
          (if k.priority owner = k.originalPriority owner then
            k.setTcb owner { k.tskCbArray owner with originalPriority := k.priority owner }
          else k) owner (inheritedPriority k s w)
      else k := by
    rw [osPriorityInherit, if_neg hv]
    exact if_neg hu
  by_cases hp : k.priority owner > inheritedPriority k s w
  · refine Or.inr ⟨hv, hu, hp, ?_⟩
    rw [hunfold, if_pos hp]
    by_cases he : k.priority owner = k.originalPriority owner
    · -- saving the original priority writes back the value that is there
      have hself : k.setTcb owner
          { k.tskCbArray owner with originalPriority := k.priority owner } = k := by
        rw [he]
        exact setTcb_self k owner
      rw [if_pos he, hself]
    · rw [if_neg he]
  · exact Or.inl ⟨by rw [hunfold, if_neg hp], Or.inr (Or.inr (Nat.le_of_not_lt hp))⟩

/-- The priority a boosted owner gets when it releases the semaphore. -/
def restoredPriority : Nat :=
  if osSemFindHighestWaiterPriority k s < k.priority (k.allSem s).semOwner then
    osSemFindHighestWaiterPriority k s
  else k.originalPriority (k.allSem s).semOwner

theorem osPriorityRestore_cases :
    let owner := (k.allSem s).semOwner
    (osPriorityRestore k s = k ∧
      (owner = osInvalidOwnerId ∨ tskIsUnused k owner ∨
        k.priority owner = k.originalPriority owner)) ∨
    (owner ≠ osInvalidOwnerId ∧ ¬ tskIsUnused k owner ∧
      k.priority owner ≠ k.originalPriority owner ∧
      osPriorityRestore k s = osOwnerPrioritySet k owner (restoredPriority k s)) := by
  intro owner
  by_cases hv : owner = osInvalidOwnerId
  · exact Or.inl ⟨if_pos hv, Or.inl hv⟩
  by_cases hu : tskIsUnused k owner
  · exact Or.inl ⟨by rw [osPriorityRestore, if_neg hv]; exact if_pos hu, Or.inr (Or.inl hu)⟩
  by_cases hp : k.priority owner = k.originalPriority owner
  · refine Or.inl ⟨?_, Or.inr (Or.inr hp)⟩
    rw [osPriorityRestore, if_neg hv]
    exact (if_neg hu).trans (if_pos hp)
  · refine Or.inr ⟨hv, hu, hp, ?_⟩
    have hunfold : osPriorityRestore k s =
        if osSemFindHighestWaiterPriority k s < k.priority owner then
          osOwnerPrioritySet k owner (osSemFindHighestWaiterPriority k s)
        else osOwnerPrioritySet k owner (k.originalPriority owner) := by
      rw [osPriorityRestore, if_neg hv]
      exact (if_neg hu).trans (if_neg hp)
    rw [hunfold, restoredPriority]
    split <;> rfl

/-! What holds before the call, and after any write of the priority of an owner that is in use,
holds after the call. -/

section
variable {k s} {M : Kernel → Prop} (hsame : M k)
  (hset : ∀ v, (k.allSem s).semOwner ≠ osInvalidOwnerId → ¬ tskIsUnused k (k.allSem s).semOwner →
    M (osOwnerPrioritySet k (k.allSem s).semOwner v))
include hsame hset

theorem osPriorityInherit_rule (w : Nat) : M (osPriorityInherit k s w) := by
  rcases osPriorityInherit_cases k s w with ⟨h, -⟩ | ⟨hv, hu, -, h⟩
  · rw [h]
    exact hsame
  · rw [h]
    exact hset _ hv hu

theorem osPriorityRestore_rule : M (osPriorityRestore k s) := by
  rcases osPriorityRestore_cases k s with ⟨h, -⟩ | ⟨hv, hu, -, h⟩
  · rw [h]
    exact hsame
  · rw [h]
    exact hset _ hv hu

end

end MiniEuler
