import MiniEuler.Kernel.Move

/-! Blocking and waking: the running task's way into a wait list, the first
waiter's way out of it, and the switch that follows. -/

namespace MiniEuler
open Library

/-! ## Frames of the inheritance code -/

/-- `k'` differs from `k` only in what a priority write changes: priorities, the
order of the run queue and the cache. -/
structure PrioFrame (k k' : Kernel) : Prop where
  allSem : k'.allSem = k.allSem
  unusedSemList : k'.unusedSemList = k.unusedSemList
  runningTask : k'.runningTask = k.runningTask
  idleTaskId : k'.idleTaskId = k.idleTaskId
  uniFlag : k'.uniFlag = k.uniFlag
  uniTaskLock : k'.uniTaskLock = k.uniTaskLock
  tskMaxNum : k'.tskMaxNum = k.tskMaxNum
  maxSem : k'.maxSem = k.maxSem
  fault : k'.fault = k.fault
  lists : ∀ h, h ≠ .runQueue → k'.lists h = k.lists h
  tcb : ∀ r, ∃ v, k'.tskCbArray r = { k.tskCbArray r with priority := v }

theorem PrioFrame.refl (k : Kernel) : PrioFrame k k := by
  constructor <;> first | rfl | exact fun _ _ => rfl | exact fun r => ⟨_, rfl⟩

theorem PrioFrame.originalPriority {k k' : Kernel} (h : PrioFrame k k') :
    k'.originalPriority = k.originalPriority := by
  funext r
  obtain ⟨v, hv⟩ := h.tcb r
  simp [Kernel.originalPriority, hv]

variable {k : Kernel} {ph : Nat → TskPhase}

theorem osOwnerPrioritySet_prioFrame (L : Linked k ph) {p : Nat} (hp : p ≤ k.tskMaxNum)
    (v : Nat) : PrioFrame k (osOwnerPrioritySet k p v) := by
  have hl := fun h hh => L.osOwnerPrioritySet_lists_other hp v (h := h) hh
  obtain ⟨ls, hi, heq⟩ := osOwnerPrioritySet_frame k p v
  rw [heq] at hl ⊢
  constructor <;> try rfl
  · exact hl
  · intro r
    by_cases h : r = p
    · subst h
      exact ⟨v, by simp⟩
    · exact ⟨(k.tskCbArray r).priority, by simp [h]⟩

theorem osPriorityInherit_prioFrame (L : Linked k ph) {s : Nat}
    (hs : (k.allSem s).semStat = osSemUsed) (w : Nat) :
    PrioFrame k (osPriorityInherit k s w) :=
  osPriorityInherit_rule (M := PrioFrame k) (PrioFrame.refl k) (fun _ hv _ =>
    osOwnerPrioritySet_prioFrame L ((L.owner s hs).resolve_left hv).1 _) w

theorem osPriorityRestore_prioFrame (L : Linked k ph) {s : Nat}
    (hs : (k.allSem s).semStat = osSemUsed) : PrioFrame k (osPriorityRestore k s) :=
  osPriorityRestore_rule (M := PrioFrame k) (PrioFrame.refl k) fun _ hv _ =>
    osOwnerPrioritySet_prioFrame L ((L.owner s hs).resolve_left hv).1 _

/-! ## Into the wait list -/

/-- The state in which `OsSemPendListPut` calls `OsPriorityInherit`: the running
task is on the wait list. -/
def semPendEnter (k : Kernel) (s : Nat) : Kernel :=
  let runTsk := k.runningTask
  let k := osTskReadyDel k runTsk
  let k := k.setTcb runTsk { k.tskCbArray runTsk with taskSem := some s }
  let k := tskStatusSet k runTsk osTskPend
  let curTskCb :=
    if (k.allSem s).semMode = .prior then
      (k.semList s).find? (fun cur => k.priority cur > k.priority runTsk)
    else none
  { k with lists :=
    match curTskCb with
    | some cur => k.lists.addBefore runTsk cur
    | none => k.lists.tailAdd runTsk (.semList s) }

theorem osSemPendListPut_eq (k : Kernel) (s : Nat) :
    osSemPendListPut k s = osPriorityInherit (semPendEnter k s) s k.runningTask := by
  unfold osSemPendListPut semPendEnter
  simp only
  split <;> simp_all only

/-- The block of the task that enters a wait list. -/
def pendingTcb (k : Kernel) (s : Nat) : TagTskCb :=
  { k.tskCbArray k.runningTask with
    taskSem := some s
    taskStatus := ((k.tskCbArray k.runningTask).taskStatus &&& ~~~osTskReady) ||| osTskPend }

theorem semPendEnter_eq (k : Kernel) (s : Nat) : semPendEnter k s =
    { k with
      tskCbArray := Function.update k.tskCbArray k.runningTask (pendingTcb k s)
      lists := (semPendEnter k s).lists
      highestTask := (k.lists.delete k.runningTask .runQueue).argmin k.priority } := by
  unfold semPendEnter pendingTcb
  simp only [osTskReadyDel_eq, tskStatusSet, Kernel.setTcb]
  simp

/-- A semaphore that is not of mode `.prior` is waited for in order of arrival. -/
theorem semPendEnter_lists (k : Kernel) (s : Nat) :
    (semPendEnter k s).lists =
        (k.lists.delete k.runningTask).tailAdd k.runningTask (.semList s) ∨
    ((k.allSem s).semMode = .prior ∧ ∃ cur ∈ k.lists.delete k.runningTask (.semList s),
      (semPendEnter k s).lists = (k.lists.delete k.runningTask).addBefore k.runningTask cur) := by
  unfold semPendEnter
  simp only [osTskReadyDel_eq, tskStatusSet, Kernel.setTcb]
  split
  · rename_i cur h
    right
    split at h
    · rename_i hm
      exact ⟨hm, cur, List.mem_of_find?_eq_some h, rfl⟩
    · cases h
  · exact Or.inl rfl

/-- No list but the run queue and the wait list changes. -/
theorem semPendEnter_lists_other (L : Linked k ph) (hr : ph k.runningTask = .ready) {s : Nat}
    {h : ListHead} (hq : h ≠ .runQueue) (hs : h ≠ .semList s) :
    (semPendEnter k s).lists h = k.lists h := by
  have hdel : k.lists.delete k.runningTask h = k.lists h :=
    L.placed.delete_other (by simp [hr, TskPhase.home, Ne.symm hq])
  rcases semPendEnter_lists k s with hl | ⟨-, cur, hc, hl⟩
  · rw [hl, NodeLists.tailAdd_other _ _ hs, hdel]
  · rw [hl, NodeLists.addBefore, hdel]
    refine NodeLists.insertBefore_of_not_mem _ _ _ fun hm => hs ?_
    exact L.placed.unique hm (List.mem_of_mem_erase hc)

theorem Linked.semPendEnter (L : Linked k ph) (hr : ph k.runningTask = .ready) (s : Nat) :
    Linked (semPendEnter k s) (Function.update ph k.runningTask (.pending s)) := by
  have hp : k.runningTask ≤ k.tskMaxNum := L.le_of_ne_dormant (by rw [hr]; decide)
  have hdel := L.placed.delete k.runningTask
  have hnone : Function.update (fun p => (ph p).home) k.runningTask none k.runningTask = none := by
    simp
  have hhome : ∀ q, (Function.update ph k.runningTask (.pending s) q).home =
      Function.update (Function.update (fun p => (ph p).home) k.runningTask none)
        k.runningTask (some (.semList s)) q := by
    intro q
    rw [home_update, Function.update_idem]
    rfl
  -- both ways of linking the caller keep it off the run queue
  have hlists : (MiniEuler.semPendEnter k s).lists.Placed
        (fun q => (Function.update ph k.runningTask (.pending s) q).home) ∧
      (MiniEuler.semPendEnter k s).runQueue = k.lists.delete k.runningTask .runQueue := by
    rcases semPendEnter_lists k s with hl | ⟨-, cur, hc, hl⟩
    · rw [Kernel.runQueue, hl]
      exact ⟨(hdel.tailAdd hnone _).congr hhome, NodeLists.tailAdd_other _ _ (by simp)⟩
    · have hcur := (hdel.mem _ _).mp hc
      rw [Kernel.runQueue, hl]
      refine ⟨(hdel.addBefore hnone hcur).congr hhome, ?_⟩
      exact NodeLists.insertBefore_of_not_mem _ _ _ (hdel.not_mem (by simp [hcur]))
  rw [semPendEnter_eq]
  refine L.move hp hlists.1 ?_ (L.pid _ hp) (fun s' h => by cases h; rfl) (L.boost _ hp)
    (fun h => by cases h) ?_
  · have h := L.status _ hp
    rw [hr] at h
    rcases runBit_cases k k.runningTask with hb | hb <;>
      simp only [pendingTcb, h, hb, TskPhase.bits] <;> decide
  · rw [show (MiniEuler.semPendEnter k s).lists .runQueue = _ from hlists.2]
    refine argmin_congr fun q _ => ?_
    by_cases h : q = k.runningTask
    · subst h; simp [pendingTcb]
    · simp [h]

theorem Linked.osSemPendListPut (L : Linked k ph) (hr : ph k.runningTask = .ready) {s : Nat}
    (hs : (k.allSem s).semStat = osSemUsed) :
    Linked (osSemPendListPut k s) (Function.update ph k.runningTask (.pending s)) := by
  rw [osSemPendListPut_eq]
  refine (L.semPendEnter hr s).osPriorityInherit ?_ _
  rw [semPendEnter_eq]
  exact hs

/-! ## Out of the wait list -/

/-- The block of a task that has been taken off a wait list. -/
def wokenTcb (k : Kernel) (p : Nat) : TagTskCb :=
  { k.tskCbArray p with
    taskSem := none
    taskStatus := ((k.tskCbArray p).taskStatus &&& ~~~(osTskTimeout ||| osTskPend)) ||| osTskReady }

/-- A post takes the head of the wait list and leaves the rest in order. -/
theorem osSemPendListGet_eq (L : Linked k ph) {s w : Nat} {rest : List Nat}
    (hl : k.semList s = w :: rest) : osSemPendListGet k s =
    ({ k with
        tskCbArray := Function.update k.tskCbArray w (wokenTcb k w)
        lists := (k.lists.delete w).tailAdd w .runQueue
        highestTask := ((k.lists.delete w).tailAdd w .runQueue .runQueue).argmin k.priority },
      w) := by
  have hph : ph w = .pending s := L.mem_semList.mp (by simp [hl])
  have hst := L.status w (L.le_of_ne_dormant (by rw [hph]; simp))
  rw [hph] at hst
  have hrun : ∀ b : BitVec 32, b = 0 ∨ b = osTskRunning →
      ((TskPhase.pending s).bits ||| b) &&& ~~~(osTskTimeout ||| osTskPend) &&&
        osTskSuspend = 0 := by
    rintro b (rfl | rfl) <;> simp only [TskPhase.bits] <;> decide
  have hsusp : ¬ tskStatusTst ((tskStatusClear { k with lists := k.lists.delete w } w
      (osTskTimeout ||| osTskPend)).setTcb w
      { (tskStatusClear { k with lists := k.lists.delete w } w
          (osTskTimeout ||| osTskPend)).tskCbArray w with taskSem := none }) w osTskSuspend := by
    simp only [tskStatusTst, tskStatusClear, Kernel.setTcb, Function.update_self, hst,
      Decidable.not_not]
    exact hrun _ (runBit_cases k w)
  have hprio : ((tskStatusClear { k with lists := k.lists.delete w } w
      (osTskTimeout ||| osTskPend)).setTcb w
      { (tskStatusClear { k with lists := k.lists.delete w } w
          (osTskTimeout ||| osTskPend)).tskCbArray w with taskSem := none }).priority =
      k.priority := by
    funext q
    by_cases h : q = w
    · subst h; simp [Kernel.priority, tskStatusClear, Kernel.setTcb]
    · simp [Kernel.priority, tskStatusClear, Kernel.setTcb, h]
  unfold osSemPendListGet
  rw [show k.semList s = w :: rest from hl]
  simp only [osTskDelayLockedDetach, ite_self]
  rw [if_pos hsusp, osTskReadyAddBgd, osTskReadyAdd_eq, hprio]
  simp [tskStatusClear, Kernel.setTcb, wokenTcb]

theorem Linked.osSemPendListGet (L : Linked k ph) {s w : Nat} {rest : List Nat}
    (hl : k.semList s = w :: rest) :
    Linked (osSemPendListGet k s).1 (Function.update ph w .ready) := by
  have hph : ph w = .pending s := L.mem_semList.mp (by simp [hl])
  have hp : w ≤ k.tskMaxNum := L.le_of_ne_dormant (by rw [hph]; simp)
  rw [osSemPendListGet_eq L hl]
  refine L.move hp (placed_requeue L.placed w rfl) ?_ (L.pid w hp) (fun _ h => by cases h)
    (L.boost w hp) (fun h => by cases h) ?_
  · have h := L.status w hp
    rw [hph] at h
    rcases runBit_cases k w with hb | hb <;>
      simp only [wokenTcb, h, hb, TskPhase.bits] <;> decide
  · refine argmin_congr fun q _ => ?_
    by_cases h : q = w
    · subst h; simp [wokenTcb]
    · simp [h]

theorem Linked.setSem (L : Linked k ph) (s : Nat) {c : TagSemCb}
    (hc : c.semStat = osSemUsed → c.semOwner = osInvalidOwnerId ∨
      (c.semOwner ≤ k.tskMaxNum ∧ ph c.semOwner ≠ .unused)) : Linked (k.setSem s c) ph := by
  refine ⟨L.placed, L.beyond, L.status, L.pid, L.waits, L.boost, L.fresh, fun s' hs' => ?_⟩
  by_cases h : s' = s
  · subst h
    simp only [Kernel.setSem, Function.update_self] at hs' ⊢
    exact hc hs'
  · simp only [Kernel.setSem, Function.update_of_ne h] at hs' ⊢
    exact L.owner s' hs'

/-- The test of the old owner is one that `OsPriorityRestore` makes itself. -/
theorem osSemPostSchePre_eq (k : Kernel) (s : Nat) : osSemPostSchePre k s =
    (osSemPendListGet (osPriorityRestore k s) s).1.setSem s
      { (osSemPendListGet (osPriorityRestore k s) s).1.allSem s with
        semOwner := ((osSemPendListGet (osPriorityRestore k s) s).1.tskCbArray
          (osSemPendListGet (osPriorityRestore k s) s).2).taskPid } := by
  have hguard : (if (k.allSem s).semOwner ≠ osInvalidOwnerId then
      if ¬ tskIsUnused k (getTcbHandle (k.allSem s).semOwner) then osPriorityRestore k s else k
      else k) = osPriorityRestore k s := by
    rcases osPriorityRestore_cases k s with ⟨h, -⟩ | ⟨hv, hu, -, -⟩
    · rw [h, ite_self, ite_self]
    · rw [if_pos hv, getTcbHandle_eq, if_pos hu]
  unfold osSemPostSchePre
  simp only [hguard]

/-- A waiter of `s` has been made ready and owns the semaphore. -/
def wokenKernel (k : Kernel) (s w : Nat) : Kernel :=
  { k with
    tskCbArray := Function.update k.tskCbArray w (wokenTcb k w)
    lists := (k.lists.delete w).tailAdd w .runQueue
    highestTask := ((k.lists.delete w).tailAdd w .runQueue .runQueue).argmin k.priority
    allSem := Function.update k.allSem s { k.allSem s with semOwner := w } }

theorem wokenKernel_priority (k : Kernel) (s w : Nat) :
    (wokenKernel k s w).priority = k.priority := by
  funext p
  by_cases h : p = w
  · subst h
    simp [Kernel.priority, wokenKernel, wokenTcb]
  · simp [Kernel.priority, wokenKernel, h]

theorem wokenKernel_originalPriority (k : Kernel) (s w : Nat) :
    (wokenKernel k s w).originalPriority = k.originalPriority := by
  funext p
  by_cases h : p = w
  · subst h
    simp [Kernel.originalPriority, wokenKernel, wokenTcb]
  · simp [Kernel.originalPriority, wokenKernel, h]

theorem osPriorityRestore_semList (L : Linked k ph) {s : Nat}
    (hs : (k.allSem s).semStat = osSemUsed) (s' : Nat) :
    (osPriorityRestore k s).semList s' = k.semList s' :=
  (osPriorityRestore_prioFrame L hs).lists _ (by simp)

section
variable (L : Linked k ph) {s w : Nat} {rest : List Nat}
  (hs : (k.allSem s).semStat = osSemUsed) (hl : k.semList s = w :: rest)
include L hs hl

/-- What a post on a semaphore with waiters does before it reschedules. -/
theorem osSemPostSchePre_woken :
    osSemPostSchePre k s = wokenKernel (osPriorityRestore k s) s w := by
  have hlR := (osPriorityRestore_semList L hs s).trans hl
  have LR := L.osPriorityRestore hs
  have hget := osSemPendListGet_eq LR hlR
  have hw : ph w = .pending s := L.mem_semList.mp (by simp [hl])
  have hp : w ≤ (osPriorityRestore k s).tskMaxNum := LR.le_of_ne_dormant (by rw [hw]; simp)
  have hpid : ((osSemPendListGet (osPriorityRestore k s) s).1.tskCbArray w).taskPid = w := by
    rw [hget]
    simpa [wokenTcb] using LR.pid w hp
  have hsnd : (osSemPendListGet (osPriorityRestore k s) s).2 = w := by rw [hget]
  rw [osSemPostSchePre_eq, hsnd, hpid, hget]
  rfl

theorem osSemPostSchePre_linked : Linked (osSemPostSchePre k s) (Function.update ph w .ready) := by
  have hlR := (osPriorityRestore_semList L hs s).trans hl
  have LR := L.osPriorityRestore hs
  have hw : ph w = .pending s := L.mem_semList.mp (by simp [hl])
  have hp : w ≤ (osPriorityRestore k s).tskMaxNum := LR.le_of_ne_dormant (by rw [hw]; simp)
  have hset := (LR.osSemPendListGet hlR).setSem s
    (c := { (osPriorityRestore k s).allSem s with semOwner := w })
    fun _ => Or.inr ⟨by rw [osSemPendListGet_eq LR hlR]; exact hp, by simp⟩
  rw [osSemPendListGet_eq LR hlR] at hset
  rw [osSemPostSchePre_woken L hs hl]
  exact hset

end

/-! ## The switch -/

theorem osTskHighestSet_self (L : Linked k ph) : osTskHighestSet k = k := by
  change { k with highestTask := (osTskHighestSet k).highestTask } = k
  rw [osTskHighestSet_highestTask, ← L.fresh]

theorem exists_highestTask (L : Linked k ph) (hq : k.runQueue ≠ []) :
    ∃ h, k.highestTask = some h ∧ ph h = .ready := by
  cases hm : k.highestTask with
  | none =>
    rw [L.fresh, List.argmin_eq_none] at hm
    exact absurd hm hq
  | some h =>
    rw [L.fresh] at hm
    exact ⟨h, rfl, L.mem_runQueue.mp (List.argmin_mem hm)⟩

/-- The state after a switch from the running task to `h`. -/
def switched (k : Kernel) (h : Nat) : Kernel :=
  { tskStatusSet (tskStatusClear k k.runningTask osTskRunning) h osTskRunning with
    runningTask := h
    uniFlag := (k.uniFlag ||| osFlgTskReq) &&& ~~~osFlgTskReq }

theorem tskReq_tst (b : BitVec 32) : (b ||| osFlgTskReq) &&& osFlgTskReq ≠ 0 := by
  rw [BitVec.and_or_distrib_right, BitVec.and_self]
  exact fun h => absurd (BitVec.or_eq_zero_iff.mp h).2 (by decide)

theorem tskReq_intActive (b : BitVec 32) :
    (b ||| osFlgTskReq) &&& osIntActiveMask = b &&& osIntActiveMask := by
  rw [BitVec.and_or_distrib_right, show osFlgTskReq &&& osIntActiveMask = 0 by decide]
  simp

/-- Outside interrupts and with the scheduler unlocked, `OsTskSchedule` makes the
most urgent task of the run queue the running one. -/
theorem osTskSchedule_eq (L : Linked k ph) {h : Nat} (hh : k.highestTask = some h)
    (hlock : k.uniTaskLock = 0) (hint : ¬ osIntActive k) :
    osTskSchedule k = if h = k.runningTask then k else switched k h := by
  unfold osTskSchedule
  rw [osTskHighestSet_self L]
  by_cases he : h = k.runningTask
  · simp [hh, he]
  · have hint' : ¬ osIntActive { k with uniFlag := k.uniFlag ||| osFlgTskReq } := by
      rw [osIntActive] at hint ⊢
      simpa only [tskReq_intActive] using hint
    have hne : k.highestTask ≠ some k.runningTask := by
      rw [hh]
      exact fun e => he (Option.some.inj e)
    simp only
    rw [if_pos ⟨hne, hlock⟩, if_pos hint', if_neg he, osTaskTrap, osMainSchedule]
    simp only
    rw [if_pos (tskReq_tst _)]
    simp only [tskStatusClear, Kernel.setTcb, hh]
    rw [← hh]
    rfl

theorem switched_linked (L : Linked k ph) {h : Nat} (hr : ph h = .ready)
    (hne : h ≠ k.runningTask) : Linked (switched k h) ph := by
  have hclear : ∀ x : TskPhase, (x.bits ||| osTskRunning) &&& ~~~osTskRunning = x.bits := by
    intro x
    cases x <;> simp only [TskPhase.bits] <;> decide
  have F : SchedFrame k (switched k h) :=
    ((setTcb_taskStatus_frame k _ _).trans (setTcb_taskStatus_frame _ h _)).globals _ _ _ _
  refine ⟨?_, ?_, ?_, ?_, ?_, ?_, ?_, ?_⟩
  · exact L.placed
  · exact L.beyond
  · intro q hq
    have hst := L.status q hq
    have hp := L.le_of_ne_dormant (p := h) (by rw [hr]; decide)
    simp only [switched, tskStatusSet, tskStatusClear, Kernel.setTcb, runBit]
    by_cases hqh : q = h
    · subst hqh
      simp [hne, hst, runBit]
    · by_cases hqr : q = k.runningTask
      · subst hqr
        simp only [hqh, ↓reduceIte, ne_eq, not_false_eq_true, Function.update_of_ne,
          Function.update_self, hst, runBit, hclear]
        simp
      · simp [hqh, hqr, hst, runBit]
  · intro q hq
    rw [F.taskPid]
    exact L.pid q hq
  · intro q s hs
    rw [F.taskSem]
    exact L.waits q s hs
  · intro q hq
    rw [F.priority, F.originalPriority]
    exact L.boost q hq
  · rw [F.priority]
    exact L.fresh
  · exact L.owner

/-- **Rescheduling** keeps everything linked and runs the most urgent task. -/
theorem Linked.osTskSchedule (L : Linked k ph) (hq : k.runQueue ≠ [])
    (hlock : k.uniTaskLock = 0) (hint : ¬ osIntActive k) :
    Linked (osTskSchedule k) ph ∧
    (osTskSchedule k).highestTask = some (osTskSchedule k).runningTask ∧
    (osTskSchedule k).fault = k.fault ∧
    ((osTskSchedule k).uniFlag = k.uniFlag ∨
      (osTskSchedule k).uniFlag = (k.uniFlag ||| osFlgTskReq) &&& ~~~osFlgTskReq) := by
  obtain ⟨h, hh, hr⟩ := exists_highestTask L hq
  rw [osTskSchedule_eq L hh hlock hint]
  split
  · rename_i he
    exact ⟨L, by rw [hh, he], rfl, Or.inl rfl⟩
  · rename_i he
    exact ⟨switched_linked L hr he, hh, rfl, Or.inr rfl⟩

end MiniEuler
