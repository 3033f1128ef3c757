import MiniEuler.Bsp.IrqMask
import MiniEuler.Kernel.Parked

/-! `g_highestTask`. `OsMainSchedule` goes by it and does not look at the run queue, so it has to
be right in every state that a call goes through. The calls that write a priority put a task that
is on the run queue back at its tail. -/

namespace MiniEuler
open Library

variable {k : Kernel} {p : Nat}

/-- Of the tasks on the run queue with the smallest priority value, `p` is the first. -/
structure EarliestHighest (k : Kernel) (p : Nat) : Prop where
  queued : p ∈ k.runQueue
  highest : ∀ q ∈ k.runQueue, k.priority p ≤ k.priority q
  earliest : ∀ q ∈ k.runQueue, k.priority q = k.priority p →
    k.runQueue.idxOf p ≤ k.runQueue.idxOf q

/-- The choice of the scheduler is not stale. -/
structure HighestCached (k : Kernel) : Prop where
  task : ∀ p, k.highestTask = some p ↔ EarliestHighest k p
  null : k.highestTask = none ↔ k.runQueue = []

theorem HighestCached.of_argmin (h : k.highestTask = k.runQueue.argmin k.priority) :
    HighestCached k := by
  refine ⟨fun p => ?_, by rw [h, List.argmin_eq_none]⟩
  rw [h, List.argmin_eq_some_iff]
  constructor
  · rintro ⟨hm, hle, hfirst⟩
    exact ⟨hm, hle, fun q hq he => hfirst q hq he.le⟩
  · rintro ⟨hm, hle, hfirst⟩
    exact ⟨hm, hle, fun q hq hq' => hfirst q hq (hq'.antisymm (hle q hq))⟩

/-! ## The invariant -/

/-- A task is on one list at most, and the ones with the ready bit are on the run queue. -/
structure QueueInv (k : Kernel) : Prop where
  placed : ∃ home, k.lists.Placed home
  ready : ∀ p, tskStatusTst k p osTskReady ↔ p ∈ k.runQueue

structure CacheInv (k : Kernel) : Prop extends QueueInv k where
  fresh : k.highestTask = k.runQueue.argmin k.priority

theorem CacheInv.highestCached (I : CacheInv k) : HighestCached k := .of_argmin I.fresh

theorem tskCbArray_setTcb_self (t : TagTskCb) : (k.setTcb p t).tskCbArray p = t :=
  Function.update_self ..

theorem tskCbArray_setTcb_of_ne {q : Nat} (h : q ≠ p) (t : TagTskCb) :
    (k.setTcb p t).tskCbArray q = k.tskCbArray q := Function.update_of_ne h ..

theorem tst_ready_iff : tskStatusTst k p osTskReady ↔
    (k.tskCbArray p).taskStatus.getLsbD 6 = true := by
  have hb : osTskReady = BitVec.twoPow 32 6 := by decide
  rw [hb]
  exact tskStatusTst_twoPow k p (by decide)

/-! ## Writes that leave the choice to be made -/

namespace QueueInv

/-- A block that is on no list. -/
theorem unlinked (Q : QueueInv k) (hn : ∀ h, p ∉ k.lists h) :
    ∃ home, k.lists.Placed home ∧ home p = none := by
  obtain ⟨home, P⟩ := Q.placed
  refine ⟨home, P, Option.eq_none_iff_forall_ne_some.mpr fun h hh => ?_⟩
  exact hn h ((P.mem h p).mpr hh)

theorem not_mem_delete (Q : QueueInv k) (p : Nat) (h : ListHead) : p ∉ k.lists.delete p h := by
  obtain ⟨home, P⟩ := Q.placed
  exact (P.nodup h).not_mem_erase

/-- A task on another list is not on the run queue. -/
theorem not_queued (Q : QueueInv k) {h : ListHead} (hm : p ∈ k.lists h) (hh : h ≠ .runQueue) :
    p ∉ k.runQueue := by
  obtain ⟨home, P⟩ := Q.placed
  exact fun hq => hh (P.unique hm hq)

/-- A write to a block that leaves the ready bit. -/
theorem setTcb (Q : QueueInv k) {t : TagTskCb}
    (hready : t.taskStatus.getLsbD 6 = (k.tskCbArray p).taskStatus.getLsbD 6) :
    QueueInv (k.setTcb p t) := by
  refine ⟨Q.placed, fun q => ?_⟩
  change tskStatusTst (k.setTcb p t) q osTskReady ↔ q ∈ k.runQueue
  rw [← Q.ready, tst_ready_iff, tst_ready_iff]
  by_cases hq : q = p
  · subst hq
    rw [tskCbArray_setTcb_self, hready]
  · rw [tskCbArray_setTcb_of_ne hq]

theorem osTskHighestSet (Q : QueueInv k) : CacheInv (osTskHighestSet k) :=
  ⟨⟨Q.placed, Q.ready⟩, osTskHighestSet_highestTask k⟩

/-- A block that is on no list is queued. -/
theorem osTskReadyAdd (Q : QueueInv k) (hn : ∀ h, p ∉ k.lists h) :
    CacheInv (osTskReadyAdd k p) := by
  obtain ⟨home, P, hhome⟩ := Q.unlinked hn
  have hadd : QueueInv (osEnqueueTaskAmp (MiniEuler.tskStatusSet k p osTskReady) p) := by
    refine ⟨⟨_, P.tailAdd hhome .runQueue⟩, fun q => ?_⟩
    change _ ↔ q ∈ k.lists.tailAdd p .runQueue .runQueue
    rw [NodeLists.tailAdd_self, List.mem_append, List.mem_singleton, ← Q.ready, tst_ready_iff,
      tst_ready_iff]
    by_cases hq : q = p
    · subst hq
      simp [osEnqueueTaskAmp, MiniEuler.tskStatusSet, Kernel.setTcb, osTskReady]
    · simp [osEnqueueTaskAmp, MiniEuler.tskStatusSet, Kernel.setTcb, hq]
  exact hadd.osTskHighestSet

theorem osTskReadyDel (Q : QueueInv k) (p : Nat) : CacheInv (osTskReadyDel k p) := by
  obtain ⟨home, P⟩ := Q.placed
  have hdel : QueueInv (osDequeueTaskAmp (MiniEuler.tskStatusClear k p osTskReady) p) := by
    refine ⟨⟨_, P.delete p⟩, fun q => ?_⟩
    change _ ↔ q ∈ k.lists.delete p .runQueue
    rw [NodeLists.delete_apply, (P.nodup .runQueue).mem_erase_iff, ← Q.ready, tst_ready_iff,
      tst_ready_iff]
    by_cases hq : q = p
    · subst hq
      simp [osDequeueTaskAmp, MiniEuler.tskStatusClear, Kernel.setTcb, osTskReady]
    · simp [osDequeueTaskAmp, MiniEuler.tskStatusClear, Kernel.setTcb, hq]
  exact hdel.osTskHighestSet

end QueueInv

/-! ## Writes that keep the choice -/

namespace CacheInv

/-- A write to a block that leaves the ready bit, and the priority of a task that is queued. -/
theorem setTcb (I : CacheInv k) {t : TagTskCb}
    (hready : t.taskStatus.getLsbD 6 = (k.tskCbArray p).taskStatus.getLsbD 6)
    (hprio : p ∈ k.runQueue → t.priority = k.priority p) : CacheInv (k.setTcb p t) := by
  refine ⟨I.toQueueInv.setTcb hready, I.fresh.trans (argmin_congr fun q hq => ?_)⟩
  by_cases hqp : q = p
  · subst hqp
    rw [Kernel.priority, Kernel.priority, tskCbArray_setTcb_self]
    exact (hprio hq).symm
  · rw [Kernel.priority, Kernel.priority, tskCbArray_setTcb_of_ne hqp]

theorem tskStatusSet (I : CacheInv k) (p : Nat) {b : BitVec 32} (hb : b.getLsbD 6 = false) :
    CacheInv (tskStatusSet k p b) :=
  I.setTcb (by rw [BitVec.getLsbD_or, hb, Bool.or_false]) fun _ => rfl

theorem tskStatusClear (I : CacheInv k) (p : Nat) {b : BitVec 32} (hb : b.getLsbD 6 = false) :
    CacheInv (tskStatusClear k p b) :=
  I.setTcb (by rw [BitVec.getLsbD_and, BitVec.getLsbD_not, hb]; simp) fun _ => rfl

/-- A write to the lists that leaves the run queue, and to what the scheduler does not read. -/
theorem relink (I : CacheInv k) {ls : NodeLists ListHead Nat} (hls : ∃ home, ls.Placed home)
    (hq : ls .runQueue = k.runQueue) (sems : Nat → TagSemCb) (unusedSems : List Nat)
    (running idle : Nat) (flag : BitVec 32) (lock : Nat) (used : Nat → Bool) (fault : Bool) :
    CacheInv { k with
      lists := ls, allSem := sems, unusedSemList := unusedSems, runningTask := running,
      idleTaskId := idle, uniFlag := flag, uniTaskLock := lock, stackMemUsed := used,
      fault := fault } := by
  refine ⟨⟨hls, fun q => (I.ready q).trans ?_⟩, I.fresh.trans ?_⟩
  · change q ∈ k.runQueue ↔ q ∈ ls .runQueue
    rw [hq]
  · change _ = (ls .runQueue).argmin k.priority
    rw [hq]

theorem globals (I : CacheInv k) (sems : Nat → TagSemCb) (unusedSems : List Nat)
    (running idle : Nat) (flag : BitVec 32) (lock : Nat) (used : Nat → Bool) (fault : Bool) :
    CacheInv { k with
      allSem := sems, unusedSemList := unusedSems, runningTask := running, idleTaskId := idle,
      uniFlag := flag, uniTaskLock := lock, stackMemUsed := used, fault := fault } :=
  I.relink I.placed rfl _ _ _ _ _ _ _ _

theorem setMem (I : CacheInv k) (mem : ByteMem) : CacheInv { k with mem := mem } :=
  ⟨⟨I.placed, I.ready⟩, I.fresh⟩

theorem setSem (I : CacheInv k) (s : Nat) (c : TagSemCb) : CacheInv (k.setSem s c) :=
  I.globals _ _ _ _ _ _ _ _

/-- A task that is not on the run queue is unlinked. -/
theorem delete (I : CacheInv k) (hp : p ∉ k.runQueue) :
    CacheInv { k with lists := k.lists.delete p } := by
  obtain ⟨home, P⟩ := I.placed
  exact I.relink ⟨_, P.delete p⟩ (List.erase_of_not_mem hp) _ _ _ _ _ _ _ _

/-- A list other than the run queue is initialised. -/
theorem emptyList (I : CacheInv k) {h : ListHead} (hh : h ≠ .runQueue) :
    CacheInv { k with lists := Function.update k.lists h [] } := by
  obtain ⟨home, P⟩ := I.placed
  exact I.relink ⟨_, P.empty h⟩ (Function.update_of_ne (Ne.symm hh) _ _) _ _ _ _ _ _ _ _

section
variable (I : CacheInv k) (hn : ∀ h, p ∉ k.lists h) {h : ListHead} (hh : h ≠ .runQueue)
include I hn hh

theorem headAdd : CacheInv { k with lists := k.lists.headAdd p h } := by
  obtain ⟨home, P, hp⟩ := I.unlinked hn
  exact I.relink ⟨_, P.headAdd hp h⟩ (NodeLists.headAdd_other _ _ (Ne.symm hh)) _ _ _ _ _ _ _ _

theorem tailAdd : CacheInv { k with lists := k.lists.tailAdd p h } := by
  obtain ⟨home, P, hp⟩ := I.unlinked hn
  exact I.relink ⟨_, P.tailAdd hp h⟩ (NodeLists.tailAdd_other _ _ (Ne.symm hh)) _ _ _ _ _ _ _ _

theorem addBefore {cur : Nat} (hc : cur ∈ k.lists h) :
    CacheInv { k with lists := k.lists.addBefore p cur } := by
  obtain ⟨home, P, hp⟩ := I.unlinked hn
  have hq : cur ∉ k.runQueue := I.not_queued hc hh
  exact I.relink ⟨_, P.addBefore hp ((P.mem h cur).mp hc)⟩
    (NodeLists.insertBefore_of_not_mem _ _ _ hq) _ _ _ _ _ _ _ _

end

/-! ## The helpers of the kernel -/

/-- The block of a new task is on no queue when its priority is written. -/
theorem osTskCreateTcbInit (I : CacheInv k) (hq : p ∉ k.runQueue) (stackPtr : UIntPtr)
    (initParam : TskInitParam) (topStack : UIntPtr) (curStackSize : BitVec 32) :
    CacheInv (osTskCreateTcbInit k stackPtr initParam topStack curStackSize p) :=
  I.setTcb rfl fun hm => absurd hm hq

/-- The status of a task that is not queued is written, without the ready bit. -/
theorem setTaskStatus (I : CacheInv k) (hq : p ∉ k.runQueue) {b : BitVec 32}
    (hb : b.getLsbD 6 = false) : CacheInv (k.setTcb p { k.tskCbArray p with taskStatus := b }) := by
  refine I.setTcb ?_ fun hm => absurd hm hq
  have hready := (not_congr ((I.ready p).symm.trans tst_ready_iff)).mp hq
  rw [hb, Bool.eq_false_iff.mpr hready]

/-- **The priority of an owner is written**, whatever the owner does: one that is on the run queue
goes to its tail, and the priority of another is not looked at. -/
theorem osOwnerPrioritySet (I : CacheInv k) (p prio : Nat) :
    CacheInv (osOwnerPrioritySet k p prio) := by
  have Q : QueueInv (k.setTcb p { k.tskCbArray p with priority := prio }) :=
    I.toQueueInv.setTcb rfl
  have htst : tskStatusTst (k.setTcb p { k.tskCbArray p with priority := prio }) p osTskReady ↔
      tskStatusTst k p osTskReady := by simp [tskStatusTst, Kernel.setTcb]
  unfold MiniEuler.osOwnerPrioritySet
  simp only [htst]
  split
  · -- the choice is made again twice, without the owner and with it
    have hdel := Q.osTskReadyDel p
    refine hdel.osTskReadyAdd fun h => ?_
    rw [osTskReadyDel_eq]
    exact Q.not_mem_delete p h
  · -- an owner without the ready bit is not on the run queue
    rename_i hr
    exact I.setTcb rfl fun hq => absurd ((I.ready p).mpr hq) hr

theorem osPriorityInherit (I : CacheInv k) (s w : Nat) : CacheInv (osPriorityInherit k s w) :=
  osPriorityInherit_rule (M := CacheInv) I (fun v _ _ => I.osOwnerPrioritySet _ v) w

theorem osPriorityRestore (I : CacheInv k) (s : Nat) : CacheInv (osPriorityRestore k s) :=
  osPriorityRestore_rule (M := CacheInv) I fun v _ _ => I.osOwnerPrioritySet _ v

theorem osSemPendNotNeedSche (I : CacheInv k) (s : Nat) :
    CacheInv ((osSemPendNotNeedSche k s k.runningTask).getD k) := by
  unfold MiniEuler.osSemPendNotNeedSche
  simp only
  split
  · exact I.setSem _ _
  · exact I

/-- The caller of a pend leaves the run queue before it waits. -/
theorem osSemPendListPut (I : CacheInv k) (s : Nat) : CacheInv (osSemPendListPut k s) := by
  have hdel : ∀ h, k.runningTask ∉ k.lists.delete k.runningTask h :=
    fun h => I.not_mem_delete k.runningTask h
  have h₁ := I.osTskReadyDel k.runningTask
  have h₂ : CacheInv ((MiniEuler.osTskReadyDel k k.runningTask).setTcb k.runningTask
      { (MiniEuler.osTskReadyDel k k.runningTask).tskCbArray k.runningTask with
        taskSem := some s }) := h₁.setTcb rfl fun _ => rfl
  have h₃ := h₂.tskStatusSet k.runningTask (b := osTskPend) (by decide)
  unfold MiniEuler.osSemPendListPut
  simp only
  split
  · rename_i cur hcur
    have hmem : cur ∈ k.lists.delete k.runningTask (.semList s) := by
      split at hcur
      · exact List.mem_of_find?_eq_some hcur
      · cases hcur
    exact (h₃.addBefore hdel (by simp) hmem).osPriorityInherit _ _
  · exact (h₃.tailAdd hdel (by simp)).osPriorityInherit _ _

/-- The first waiter leaves the list of the semaphore before it is queued. -/
theorem osSemPendListGet (I : CacheInv k) (s : Nat) : CacheInv (osSemPendListGet k s).1 := by
  unfold MiniEuler.osSemPendListGet
  split
  · exact I.globals _ _ _ _ _ _ _ _
  · rename_i w rest hl
    have hw : w ∈ k.lists (.semList s) := by
      rw [show k.lists (.semList s) = _ from hl]
      exact List.mem_cons_self
    have h₁ := I.delete (I.not_queued hw (by simp))
    have h₂ := h₁.tskStatusClear w (b := osTskTimeout ||| osTskPend) (by decide)
    have h₃ : CacheInv ((MiniEuler.tskStatusClear { k with lists := k.lists.delete w } w
        (osTskTimeout ||| osTskPend)).setTcb w { (MiniEuler.tskStatusClear
          { k with lists := k.lists.delete w } w (osTskTimeout ||| osTskPend)).tskCbArray w with
        taskSem := none }) := h₂.setTcb rfl fun _ => rfl
    simp only [osTskDelayLockedDetach, ite_self, osTskReadyAddBgd]
    split
    · exact h₃.osTskReadyAdd fun h => I.not_mem_delete w h
    · exact h₃

theorem osSemPostSchePre (I : CacheInv k) (s : Nat) : CacheInv (osSemPostSchePre k s) := by
  unfold MiniEuler.osSemPostSchePre
  simp only
  refine setSem ?_ _ _
  split
  · split
    · exact (I.osPriorityRestore s).osSemPendListGet s
    · exact I.osSemPendListGet s
  · exact I.osSemPendListGet s

theorem osMainSchedule (I : CacheInv k) : CacheInv (osMainSchedule k) := by
  unfold MiniEuler.osMainSchedule
  split
  · have h₁ : CacheInv { k with uniFlag := k.uniFlag &&& ~~~osFlgTskReq } :=
      I.globals _ _ _ _ _ _ _ _
    have h₂ := h₁.tskStatusClear k.runningTask (b := osTskRunning) (by decide)
    simp only
    split
    · exact h₂.globals _ _ _ _ _ _ _ _
    · rename_i h _
      exact (h₂.tskStatusSet h (b := osTskRunning) (by decide)).globals _ _ _ _ _ _ _ _
  · exact I

/-- `OsFirstTimeSwitch` behind its `OsTskHighestSet`. -/
theorem firstSwitch (I : CacheInv k) (h : Nat) :
    CacheInv (MiniEuler.tskStatusSet { k with runningTask := h } h osTskRunning) := by
  have h₁ : CacheInv { k with runningTask := h } := I.globals _ _ _ _ _ _ _ _
  exact h₁.tskStatusSet h (by decide)

end CacheInv

/-! ## The calls -/

namespace Code

variable (daif : UIntPtr)

/-- The choice is right in every state that a program goes through. -/
abbrev Fresh {α : Type} (c : Code α) (daif : UIntPtr) (k : Kernel) : Prop :=
  Prog.Throughout daifReg CacheInv c daif k

theorem fresh_osTskSchedule (I : CacheInv k) : osTskSchedule.Fresh daif k := by
  have h₁ : CacheInv (MiniEuler.osTskHighestSet k) := I.toQueueInv.osTskHighestSet
  have h₂ : CacheInv { MiniEuler.osTskHighestSet k with uniFlag := k.uniFlag ||| osFlgTskReq } :=
    h₁.globals _ _ _ _ _ _ _ _
  refine ⟨I, Prog.Throughout.ite (fun _ => ⟨h₁, ?_⟩) fun _ => h₁⟩
  exact Prog.Throughout.ite (fun _ => ⟨h₂, h₂.osMainSchedule⟩) fun _ => h₂

/-- A task that is on no list is made ready. -/
theorem fresh_osMoveTaskToReady (I : CacheInv k) (hn : ∀ h, p ∉ k.lists h) :
    (osMoveTaskToReady p).Fresh daif k := by
  have ready : ∀ {k'}, CacheInv k' → k'.lists = k.lists → Fresh (do
      if ¬ tskStatusTst (← get) p osTskBlock then
        modify (MiniEuler.osTskReadyAdd · p)
        if bgdActive (← get) then
          osTskSchedule) daif k' := by
    intro k' I' hl
    have h₁ : CacheInv (MiniEuler.osTskReadyAdd k' p) :=
      I'.osTskReadyAdd fun h => by rw [hl]; exact hn h
    refine Prog.Throughout.ite (fun _ => ⟨I', ?_⟩) fun _ => I'
    exact Prog.Throughout.ite (fun _ => fresh_osTskSchedule _ h₁) fun _ => h₁
  have h₁ := I.tskStatusClear p (b := osTskTimeout ||| osTskDelayInterruptible) (by decide)
  refine Prog.Throughout.ite (fun _ => ?_) fun _ => ready I rfl
  refine Prog.Throughout.ite (fun _ => ⟨I, I, ready h₁ rfl⟩) fun _ => ⟨I, ready h₁ rfl⟩

/-- A free block has left its list when its priority is written, and goes back to it when there
is no stack. -/
theorem fresh_prtTaskCreate (I : CacheInv k) (P : Pool k) (initParam : TskInitParam) :
    (prtTaskCreate initParam).Fresh daif k := by
  simp only [Fresh, prtTaskCreate, osTaskCreateOnly, osTaskCreateChkAndGetTcb, osIntLock, get,
    Prog.bind_eq, Prog.bind, Prog.Throughout]
  cases hfree : k.tskCbFreeList with
  | nil => exact I
  | cons taskCb rest =>
    have hunused := (P.free taskCb (by simp [hfree])).2
    have hq : taskCb ∉ k.runQueue := fun hm =>
      not_inUse_of_unused hunused (P.linked taskCb .runQueue (by simp) hm)
    have h₁ : CacheInv { k with lists := k.lists.delete taskCb } := I.delete hq
    have hn : ∀ h, taskCb ∉ k.lists.delete taskCb h := I.not_mem_delete taskCb
    refine ⟨I, h₁, ?_⟩
    rcases osTaskCreateRsrcInit_cases { k with lists := k.lists.delete taskCb } initParam
      taskCb with h | ⟨used, flg, stack, h⟩
    · simp only [h]
      exact ⟨h₁, h₁.headAdd hn (by simp)⟩
    · have hq₁ : taskCb ∉ k.lists.delete taskCb .runQueue := hn .runQueue
      have h₂ : CacheInv ({ k with
          lists := k.lists.delete taskCb, stackMemUsed := used }.setTcb taskCb
          { k.tskCbArray taskCb with stackCfgFlg := flg }) :=
        (h₁.globals _ _ _ _ _ _ used _).setTcb rfl fun hm => absurd hm hq₁
      have hmem := h₂.setMem (MiniEuler.osTskContextInit k.mem stack.2 stack.1 k.osTskEntry).1
      have h₃ := hmem.osTskCreateTcbInit hq₁ (tskContextAddr stack.2 stack.1) initParam
        stack.1 stack.2
      have h₄ := h₃.setTaskStatus hq₁ (b := osTskSuspend ||| osTskInuse) (by decide)
      simp only [h]
      exact ⟨h₂, hmem, h₃, h₄⟩

/-- Only a parked task is resumed, and it is on no list. -/
theorem fresh_prtTaskResume (I : CacheInv k) (hp : Parked k p → ∀ h, p ∉ k.lists h) :
    (prtTaskResume p).Fresh daif k := by
  refine Prog.Throughout.ite (fun _ => I) fun _ => ?_
  refine Prog.Throughout.ite (fun _ => I) fun _ => ?_
  refine Prog.Throughout.ite (fun _ => I) fun hpark => ⟨I, ?_⟩
  have h₁ := I.tskStatusClear p (b := osTskSuspend) (by decide)
  exact (fresh_osMoveTaskToReady _ h₁ (hp (not_not.mp hpark))).bind_keeps fun _ _ _ h => h

theorem fresh_osSemCreate (I : CacheInv k) (count semType : Nat) (semMode : SemMode)
    (null : Bool) : (osSemCreate count semType semMode null).Fresh daif k := by
  refine Prog.Throughout.ite (fun _ => I) fun _ => ?_
  simp only [osIntLock, get, Prog.bind_eq, Prog.bind, Prog.Throughout]
  cases k.unusedSemList with
  | nil => exact I
  | cons unusedSem rest =>
    have h₁ : CacheInv { k with unusedSemList := rest } := I.globals _ _ _ _ _ _ _ _
    have h₂ := h₁.setSem unusedSem { k.allSem unusedSem with
      semCount := count
      semStat := osSemUsed
      semMode := semMode
      semType := semType
      semOwner := osInvalidOwnerId }
    exact ⟨I, h₁, h₂, h₂.emptyList (by simp)⟩

theorem fresh_prtSemCreate (I : CacheInv k) (count : Nat) (null : Bool) :
    (prtSemCreate count null).Fresh daif k :=
  Prog.Throughout.ite (fun _ => I) fun _ => fresh_osSemCreate daif I count semTypeCount .fifo null

theorem fresh_prtSemPend (I : CacheInv k) (semHandle timeout : Nat) :
    (prtSemPend semHandle timeout).Fresh daif k := by
  refine Prog.Throughout.ite (fun _ => I) fun _ => ?_
  refine Prog.Throughout.ite (fun _ => I) fun _ => ?_
  refine Prog.Throughout.ite (fun _ => I) fun _ => ?_
  refine Prog.Throughout.ite (fun _ => ⟨I, ?_⟩) fun _ => ?_
  · exact I.osSemPendNotNeedSche semHandle
  refine Prog.Throughout.ite (fun _ => I) fun _ => ⟨I, ?_⟩
  have h₁ := I.osSemPendListPut semHandle
  -- a pend with a timeout returns from here, linked into the wait list
  refine Prog.Throughout.ite (fun _ => h₁) fun _ => ?_
  exact (fresh_osTskSchedule _ h₁).bind_keeps fun _ _ _ h => h

theorem fresh_prtSemPost (I : CacheInv k) (semHandle : Nat) :
    (prtSemPost semHandle).Fresh daif k := by
  refine Prog.Throughout.ite (fun _ => I) fun _ => ?_
  refine Prog.Throughout.ite (fun _ => I) fun _ => ?_
  refine Prog.Throughout.ite (fun _ => I) fun _ => ?_
  refine Prog.Throughout.ite (fun _ => ⟨I, ?_⟩) fun _ => ⟨I, ?_⟩
  · have h₁ := I.osSemPostSchePre semHandle
    exact (fresh_osTskSchedule _ h₁).bind_keeps fun _ _ _ h => h
  · have h₁ := I.osPriorityRestore semHandle
    exact ⟨h₁, h₁.setSem semHandle _, (h₁.setSem semHandle _).setSem semHandle _⟩

theorem fresh_osTskEntryReturn (I : CacheInv k) : osTskEntryReturn.Fresh daif k := by
  have h₁ : CacheInv { k with uniTaskLock := 0 } := I.globals _ _ _ _ _ _ _ _
  have h₂ := h₁.osTskReadyDel k.runningTask
  exact ⟨I, h₁, (fresh_osTskSchedule _ h₂).bind_keeps fun _ _ _ h => h⟩

/-! ## Starting the scheduler -/

def osIdleTskAMPCreate (osTskIdleBgd : UIntPtr) : Code Nat := do
  match ← prtTaskCreate { taskEntry := osTskIdleBgd, taskPrio := osTskPriorityLowest } with
  | .error ret => return ret
  | .ok taskHdl =>
    let ret ← prtTaskResume taskHdl
    if ret ≠ osOk then
      return ret
    modify fun k => { k with idleTaskId := taskHdl }
    return ret

/-- `OsFirstTimeSwitch`, up to the load of the context of `runningTask`. -/
def osFirstTimeSwitch : Code Unit := do
  modify osTskHighestSet
  match (← get).highestTask with
  | none => modify fun k => { k with fault := true }
  | some highest =>
    modify fun k => tskStatusSet { k with runningTask := highest } highest osTskRunning

def osActivate (osTskIdleBgd : UIntPtr) : Code Nat := do
  let ret ← osIdleTskAMPCreate osTskIdleBgd
  if ret ≠ osOk then
    return ret
  modify osTskHighestSet
  modify fun k => { k with uniFlag := k.uniFlag ||| (osFlgBgdActive ||| osFlgTskReq) }
  osFirstTimeSwitch
  return osOk

theorem run_osFirstTimeSwitch :
    osFirstTimeSwitch.run daif k = (MiniEuler.osFirstTimeSwitch k, ()) := by
  simp only [run, osFirstTimeSwitch, MiniEuler.osFirstTimeSwitch, modify, get, Prog.bind_eq,
    Prog.bind, Prog.exec]
  generalize MiniEuler.osTskHighestSet k = k₁
  cases hh : k₁.highestTask <;> simp only [Prog.exec, hh]

theorem run_osIdleTskAMPCreate {entry : UIntPtr} {k' : Kernel}
    (h : MiniEuler.osIdleTskAMPCreate k entry = .ok k') :
    (osIdleTskAMPCreate entry).run daif k = (k', osOk) := by
  unfold MiniEuler.osIdleTskAMPCreate at h
  simp only [run, osIdleTskAMPCreate, Prog.bind_eq, run_bind, run_prtTaskCreate]
  cases hcr : MiniEuler.prtTaskCreate k
    { taskEntry := entry, taskPrio := osTskPriorityLowest } with
  | mk k₁ r =>
    rw [hcr] at h
    cases r with
    | error ret => cases h
    | ok taskHdl =>
      simp only [run_bind, run_prtTaskResume] at h ⊢
      by_cases hret : (MiniEuler.prtTaskResume k₁ taskHdl).2 = osOk
      · rw [if_neg (not_not.mpr hret)] at h ⊢
        rw [← Except.ok.inj h, hret]
        rfl
      · rw [if_pos hret] at h
        cases h

/-- Not interrupted, the program ends in the state in which the first task starts. -/
theorem run_osActivate {entry : UIntPtr} {k' : Kernel}
    (h : MiniEuler.osActivate k entry = .ok k') :
    (osActivate entry).run daif k = (k', osOk) := by
  unfold MiniEuler.osActivate at h
  cases hidle : MiniEuler.osIdleTskAMPCreate k entry with
  | error ret =>
    rw [hidle] at h
    cases h
  | ok k₁ =>
    rw [hidle] at h
    simp only [run, osActivate, Prog.bind_eq, run_bind, run_osIdleTskAMPCreate _ hidle]
    rw [← Except.ok.inj h, if_neg (by decide)]
    simp only [modify, Prog.bind, Prog.exec, run_bind, run_osFirstTimeSwitch]
    rfl

theorem fresh_osFirstTimeSwitch (I : CacheInv k) : osFirstTimeSwitch.Fresh daif k := by
  have h₁ : CacheInv (MiniEuler.osTskHighestSet k) := I.toQueueInv.osTskHighestSet
  simp only [Fresh, osFirstTimeSwitch, modify, get, Prog.bind_eq, Prog.bind, Prog.Throughout]
  cases (MiniEuler.osTskHighestSet k).highestTask with
  | none => exact ⟨I, h₁, h₁.globals _ _ _ _ _ _ _ _⟩
  | some highest => exact ⟨I, h₁, h₁.firstSwitch highest⟩

/-- The idle task is parked when it is resumed. -/
theorem fresh_osIdleTskAMPCreate (I : CacheInv k) (K : ParkInv k) (P : Pool k) (entry : UIntPtr) :
    (osIdleTskAMPCreate entry).Fresh daif k := by
  have hcreate := fresh_prtTaskCreate daif I P
    { taskEntry := entry, taskPrio := osTskPriorityLowest }
  have hpark : ParkInv ((prtTaskCreate
      { taskEntry := entry, taskPrio := osTskPriorityLowest }).run daif k).1 := by
    rw [run_prtTaskCreate]
    exact (K.outcome P (P.prtTaskCreate _)).1
  refine hcreate.bind ?_
  split
  · exact hcreate.last
  · rename_i taskHdl _
    refine (fresh_prtTaskResume _ hcreate.last fun hp =>
      (hpark.apart taskHdl hp).1).bind_keeps fun _ _ _ h => ?_
    exact Prog.Throughout.ite (fun _ => h) fun _ => ⟨h, h.globals _ _ _ _ _ _ _ _⟩

theorem fresh_osActivate (I : CacheInv k) (K : ParkInv k) (P : Pool k) (entry : UIntPtr) :
    (osActivate entry).Fresh daif k := by
  have start : ∀ {daif k'}, CacheInv k' → Fresh (do
      modify osTskHighestSet
      modify fun k => { k with uniFlag := k.uniFlag ||| (osFlgBgdActive ||| osFlgTskReq) }
      osFirstTimeSwitch
      return osOk) daif k' := by
    intro daif k' I'
    have h₁ : CacheInv (MiniEuler.osTskHighestSet k') := I'.toQueueInv.osTskHighestSet
    have h₂ : CacheInv { MiniEuler.osTskHighestSet k' with
        uniFlag := k'.uniFlag ||| (osFlgBgdActive ||| osFlgTskReq) } :=
      h₁.globals _ _ _ _ _ _ _ _
    exact ⟨I', h₁, (fresh_osFirstTimeSwitch _ h₂).bind_keeps fun _ _ _ h => h⟩
  refine (fresh_osIdleTskAMPCreate daif I K P entry).bind_keeps fun _ _ _ h => ?_
  exact Prog.Throughout.ite (fun _ => h) fun _ => start h

end Code

/-! ## Runs -/

theorem CacheInv.code_fresh (I : CacheInv k) (K : ParkInv k) (P : Pool k) {op : Op}
    {c : Code Nat} (h : op.code = some c) (daif : UIntPtr) : c.Fresh daif k := by
  cases op <;> cases h
  case taskCreate initParam =>
    exact (Code.fresh_prtTaskCreate daif I P initParam).bind_keeps fun _ _ _ h => h
  case taskResume taskPid =>
    exact Code.fresh_prtTaskResume daif I fun hp => (K.apart taskPid hp).1
  case semCreate count null =>
    exact (Code.fresh_prtSemCreate daif I count null).bind_keeps fun _ _ _ h => h
  case osSemCreate count semType semMode null =>
    exact (Code.fresh_osSemCreate daif I count semType semMode null).bind_keeps fun _ _ _ h => h
  case semPend semHandle timeout => exact Code.fresh_prtSemPend daif I semHandle timeout
  case semPost semHandle => exact Code.fresh_prtSemPost daif I semHandle
  case uartPost semHandle => exact Code.fresh_prtSemPost daif I semHandle
  case taskExit => exact (Code.fresh_osTskEntryReturn daif I).bind_keeps fun _ _ _ h => h

theorem CacheInv.osActivate (I : CacheInv k) (K : ParkInv k) (P : Pool k) {entry : UIntPtr}
    {k' : Kernel} (h : osActivate k entry = .ok k') : CacheInv k' := by
  have hlast := (Code.fresh_osActivate 0 I K P entry).last
  rw [show Prog.exec daifReg (Code.osActivate entry) 0 k = _ from Code.run_osActivate 0 h] at hlast
  exact hlast

/-- **Step lemma.** -/
theorem CacheInv.next (I : CacheInv k) (K : ParkInv k) (P : Pool k) {op : Op}
    (hc : op.CallableAny k) : CacheInv (op.next k) := by
  cases hcode : op.code with
  | some c =>
    have hlast := (I.code_fresh K P hcode 0).last
    rw [show Prog.exec daifReg c 0 k = _ from Op.code_run hcode 0 k] at hlast
    exact hlast
  | none =>
    obtain ⟨entry, rfl⟩ : ∃ entry, op = .activate entry := by
      cases op <;> first | exact ⟨_, rfl⟩ | cases hcode
    have hc : (MiniEuler.osActivate k entry).isOk := hc.2
    cases hact : MiniEuler.osActivate k entry with
    | error ret =>
      rw [hact] at hc
      cases hc
    | ok k' =>
      simp only [Op.next, Op.exec, hact]
      exact I.osActivate K P hact

/-- After `OsTskInit` the only list with tasks on it is that of the free blocks. -/
theorem CacheInv.osTskInit {stackMem osTskEntry : UIntPtr} {mem : ByteMem}
    (h : osTskInit (kernelReset stackMem osTskEntry mem) = .ok k) : CacheInv k := by
  rw [osTskInit_eq] at h
  obtain rfl := Except.ok.inj h
  refine ⟨⟨⟨fun p => if p < 23 then some .tskCbFreeList else none, fun l p => ?_, fun l => ?_⟩,
    fun p => ?_⟩, rfl⟩
  · by_cases hl : l = .tskCbFreeList
    · subst hl
      split <;> simp <;> omega
    · split <;> simp [hl, Ne.symm hl]
  · by_cases hl : l = .tskCbFreeList
    · subst hl
      simpa using List.nodup_range
    · simp [hl]
  · refine iff_of_false (fun hp => ?_) (by simp [Kernel.runQueue])
    rw [tst_ready_iff] at hp
    by_cases hz : p = 23
    · subst hz
      exact absurd hp (by simp [osTskInuse, osTskRunning])
    · by_cases hlt : p < 23 <;> simp [hz, hlt] at hp

theorem CacheInv.initialised (h : Initialised k) : CacheInv k := by
  obtain ⟨stackMem, osTskEntry, mem, k₁, h₁, h₂⟩ := h
  have I := CacheInv.osTskInit h₁
  obtain ⟨used, rfl⟩ := osSemInit_eq _ _ h₂
  exact ⟨⟨I.placed, I.ready⟩, I.fresh⟩

/-- The calls, and by themselves the two functions that write the priority of an owner. -/
inductive CacheOp
  | call (op : Op)
  | inherit (semPended waiterTask : Nat)
  | restore (semPosted : Nat)

def CacheOp.Callable (k : Kernel) : CacheOp → Prop
  | .call op => op.CallableAny k
  | .inherit _ _ => True
  | .restore _ => True

def CacheOp.next (k : Kernel) : CacheOp → Kernel
  | .call op => op.next k
  | .inherit semPended waiterTask => osPriorityInherit k semPended waiterTask
  | .restore semPosted => osPriorityRestore k semPosted

instance (k : Kernel) (op : CacheOp) : Decidable (op.Callable k) :=
  match op with
  | .call op => inferInstanceAs (Decidable (op.CallableAny k))
  | .inherit _ _ | .restore _ => inferInstanceAs (Decidable True)

/-- The kernel under all calls, and with priorities inherited and restored at any time. -/
def cacheMachine : Machine Kernel CacheOp where
  Start := Initialised
  Allowed := fun k op => op.Callable k
  exec := CacheOp.next

instance (k : Kernel) (op : CacheOp) : Decidable (cacheMachine.Allowed k op) :=
  inferInstanceAs (Decidable (op.Callable k))

/-- **Run lemma.** -/
theorem CacheInv.of_run {hist : List (Kernel × CacheOp)} (r : Run cacheMachine hist k) :
    CacheInv k ∧ ParkInv k ∧ Pool k := by
  refine r.invariant (fun k => CacheInv k ∧ ParkInv k ∧ Pool k)
    (fun k h => ⟨CacheInv.initialised h, ParkInv.initialised h, Pool.initialised h⟩) ?_
  rintro k op ⟨I, K, P⟩ hc
  cases op with
  | call op => exact ⟨I.next K P hc, K.next P hc⟩
  | inherit s w =>
    exact ⟨I.osPriorityInherit s w, (K.osPriorityInherit s w).inv, (P.osPriorityInherit s w).pool⟩
  | restore s =>
    exact ⟨I.osPriorityRestore s, (K.osPriorityRestore s).inv, (P.osPriorityRestore s).pool⟩

/-- The choice of the scheduler is right between calls, in every state that a call goes through,
those among them in which it enters `OsMainSchedule`, and while the scheduler is started. -/
structure NeverStale (k : Kernel) : Prop where
  between : HighestCached k
  during : ∀ (op : Op) (c : Code Nat), op.code = some c →
    ∀ daif, c.Throughout daifReg HighestCached daif k
  starting : ∀ entry daif, (Code.osActivate entry).Throughout daifReg HighestCached daif k

/-- After `boostOps` task 3 is resumed, and then the owner's priority restored by itself. -/
def boostActs : List CacheOp := boostOps.map .call ++ [.call (.taskResume 3), .restore 0]

/-- **The choice of the scheduler is never stale.** -/
theorem highest_never_stale :
    (∀ stackMem osTskEntry mem k, osTskInit (kernelReset stackMem osTskEntry mem) = .ok k →
      HighestCached k) ∧
    ∀ hist k, Run cacheMachine hist k → NeverStale k := by
  refine ⟨fun _ _ _ k h => (CacheInv.osTskInit h).highestCached, fun hist k r => ?_⟩
  obtain ⟨I, K, P⟩ := CacheInv.of_run r
  refine ⟨I.highestCached, fun op c h daif => ?_, fun entry daif => ?_⟩
  · exact (I.code_fresh K P h daif).mono fun _ I => I.highestCached
  · exact (Code.fresh_osActivate daif I K P entry).mono fun _ I => I.highestCached

/-- The choice is task 0 when it has been lent the priority of the task that waits, and task 3 of
priority 10 once that has been taken back. -/
theorem highest_never_stale_boost :
    (∃ k, osTskInit zeroKernel = .ok k ∧ HighestCached k) ∧
    NeverStale (boostActs.foldl CacheOp.next bootKernel) ∧
    (boostActs.foldl CacheOp.next bootKernel).semList 0 = [2] ∧
    (boostActs.foldl CacheOp.next bootKernel).highestTask = some 3 := by
  refine ⟨⟨_, osTskInit_eq 0 0 _, highest_never_stale.1 0 0 _ _ (osTskInit_eq 0 0 _)⟩, ?_, ?_⟩
  · exact highest_never_stale.2 _ _ (Run.ofList (M := cacheMachine) bootKernel_initialised
      boostActs (by decide +kernel))
  · decide +kernel

end MiniEuler
