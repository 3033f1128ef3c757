import MiniEuler.Kernel.Block
import MiniEuler.Kernel.Step

/-! What one call can do. `Effect` lists the outcomes, with the guard of each,
and `Op.effect` says that there are no others. -/

namespace MiniEuler
open Library

variable {k : Kernel} {ph : Nat → TskPhase}

/-! ## Creating tasks -/

/-- The block of a task that has just been created. -/
structure Created (k : Kernel) (initParam : TskInitParam) (cb : Nat) (t : TagTskCb) : Prop where
  taskStatus : t.taskStatus = osTskSuspend ||| osTskInuse
  taskPid : t.taskPid = (k.tskCbArray cb).taskPid
  priority : t.priority = initParam.taskPrio
  originalPriority : t.originalPriority = initParam.taskPrio

def createdTcb (t : TagTskCb) (initParam : TskInitParam) (flg : Nat)
    (stack : UIntPtr × BitVec 32) : TagTskCb :=
  { t with
    stackCfgFlg := flg
    stackPointer := tskContextAddr stack.2 stack.1
    args := initParam.args
    topOfStack := stack.1
    stackSize := stack.2
    taskSem := none
    priority := initParam.taskPrio
    originalPriority := initParam.taskPrio
    taskEntry := initParam.taskEntry
    lastErr := 0
    taskStatus := osTskSuspend ||| osTskInuse }

def createdKernel (k : Kernel) (cb : Nat) (t : TagTskCb) (used : Nat → Bool) : Kernel :=
  { k with
    tskCbArray := Function.update k.tskCbArray cb t
    lists := k.lists.delete cb
    stackMemUsed := used
    mem := (osTskContextInit k.mem t.stackSize t.topOfStack k.osTskEntry).1 }

theorem osMemAllocAlign_cases (k : Kernel) (size : BitVec 32) (alignPow : Nat) :
    osMemAllocAlign k size alignPow = (k, none) ∨
    ∃ used a, osMemAllocAlign k size alignPow = ({ k with stackMemUsed := used }, some a) := by
  unfold osMemAllocAlign
  split
  · exact Or.inl rfl
  · split
    · exact Or.inl rfl
    · split
      · exact Or.inl rfl
      · exact Or.inr ⟨_, _, rfl⟩

theorem osTaskCreateRsrcInit_cases (k : Kernel) (initParam : TskInitParam) (cb : Nat) :
    osTaskCreateRsrcInit k initParam cb = (k, .error osErrnoTskNoMemory) ∨
    ∃ used flg r, osTaskCreateRsrcInit k initParam cb =
      ({ k with stackMemUsed := used }.setTcb cb
        { k.tskCbArray cb with stackCfgFlg := flg }, .ok r) := by
  unfold osTaskCreateRsrcInit
  split
  · exact Or.inr ⟨k.stackMemUsed, _, _, rfl⟩
  · rcases osMemAllocAlign_cases k initParam.stackSize osTskStackSizeAllocAlign with h | ⟨u, a, h⟩
    · rw [osTskMemAlloc, h]
      exact Or.inl rfl
    · rw [osTskMemAlloc, h]
      exact Or.inr ⟨u, _, _, rfl⟩

theorem prtTaskCreate_of_noTcb {initParam : TskInitParam} (hl : k.tskCbFreeList = []) :
    prtTaskCreate k initParam = (k, .error osErrnoTskTcbUnavailable) := by
  simp only [prtTaskCreate, osTaskCreateOnly, osTaskCreateChkAndGetTcb, hl]

/-- Without a stack the block goes back to where it was. -/
theorem prtTaskCreate_of_noStack {initParam : TskInitParam} {cb ret : Nat} {rest : List Nat}
    (hl : k.tskCbFreeList = cb :: rest) (honly : ∀ h, h ≠ .tskCbFreeList → cb ∉ k.lists h)
    (h : osTaskCreateRsrcInit { k with lists := k.lists.delete cb } initParam cb =
      ({ k with lists := k.lists.delete cb }, .error ret)) :
    prtTaskCreate k initParam = (k, .error ret) := by
  have hback : (k.lists.delete cb).headAdd cb .tskCbFreeList = k.lists := by
    funext h'
    by_cases hh : h' = .tskCbFreeList
    · subst hh
      rw [NodeLists.headAdd_self, NodeLists.delete_apply,
        show k.lists .tskCbFreeList = _ from hl]
      simp
    · rw [NodeLists.headAdd_other _ _ hh]
      exact List.erase_of_not_mem (honly h' hh)
  simp only [prtTaskCreate, osTaskCreateOnly, osTaskCreateChkAndGetTcb, hl, h, hback]

/-- With a stack the creation ends well. -/
theorem prtTaskCreate_of_stack {initParam : TskInitParam} {cb : Nat} {rest : List Nat} {flg : Nat}
    {stack : UIntPtr × BitVec 32} {used : Nat → Bool} (hl : k.tskCbFreeList = cb :: rest)
    (h : osTaskCreateRsrcInit { k with lists := k.lists.delete cb } initParam cb =
      ({ k with lists := k.lists.delete cb, stackMemUsed := used }.setTcb cb
        { k.tskCbArray cb with stackCfgFlg := flg }, .ok stack)) :
    prtTaskCreate k initParam =
      (createdKernel k cb (createdTcb (k.tskCbArray cb) initParam flg stack) used,
        .ok (k.tskCbArray cb).taskPid) := by
  simp only [prtTaskCreate, osTaskCreateOnly, osTaskCreateChkAndGetTcb, hl, h, osTskCreateTcbInit,
    Kernel.setTcb, Function.update_self, Function.update_idem, createdKernel, createdTcb,
    osTskContextInit_snd]

/-- A failed creation puts the block back where it was: nothing changes. -/
theorem prtTaskCreate_cases (L : Linked k ph) (initParam : TskInitParam) :
    (∃ ret, ret ≠ osOk ∧ prtTaskCreate k initParam = (k, .error ret)) ∨
    ∃ cb rest t used, k.tskCbFreeList = cb :: rest ∧ Created k initParam cb t ∧
      prtTaskCreate k initParam =
        (createdKernel k cb t used, .ok (k.tskCbArray cb).taskPid) := by
  cases hl : k.tskCbFreeList with
  | nil => exact Or.inl ⟨_, by decide, prtTaskCreate_of_noTcb hl⟩
  | cons cb rest =>
    have hcb : cb ∈ k.lists .tskCbFreeList := by rw [show k.lists .tskCbFreeList = _ from hl]; simp
    rcases osTaskCreateRsrcInit_cases { k with lists := k.lists.delete cb } initParam cb with
      h | ⟨u, flg, r, h⟩
    · exact Or.inl ⟨_, by decide, prtTaskCreate_of_noStack hl
        (fun h' hh hm => hh (L.placed.unique hm hcb)) h⟩
    · exact Or.inr ⟨cb, rest, createdTcb (k.tskCbArray cb) initParam flg r, u, rfl,
        ⟨rfl, rfl, rfl, rfl⟩, prtTaskCreate_of_stack hl h⟩

theorem Linked.createdKernel (L : Linked k ph) {initParam : TskInitParam} {cb : Nat}
    {rest : List Nat} {t : TagTskCb} (hl : k.tskCbFreeList = cb :: rest)
    (hc : Created k initParam cb t) (hne : cb ≠ k.runningTask) (used : Nat → Bool) :
    Linked (createdKernel k cb t used) (Function.update ph cb .suspended) := by
  have hu : ph cb = .unused := L.mem_tskCbFreeList.mp (by simp [hl])
  have hp : cb ≤ k.tskMaxNum := L.le_of_ne_dormant (by rw [hu]; decide)
  have hrun : runBit k cb = 0 := if_neg hne
  have L' : Linked _ (Function.update ph cb .suspended) :=
    L.move (p := cb) (x := .suspended) (t := t) (l := k.lists.delete cb) (m := k.highestTask)
      hp ?_ ?_ ?_ (fun _ h => by cases h) ?_ (fun h => by cases h) ?_
  · exact ⟨L'.placed, L'.beyond, L'.status, L'.pid, L'.waits, L'.boost, L'.fresh, L'.owner⟩
  · exact (L.placed.delete cb).congr fun q => home_update ph cb .suspended q
  · rw [hc.taskStatus, hrun]
    decide
  · rw [hc.taskPid]
    exact L.pid cb hp
  · rw [hc.priority, hc.originalPriority]
    exact ⟨Nat.le_refl _, Or.inl rfl⟩
  · have hdel : k.lists.delete cb .runQueue = k.lists .runQueue :=
      L.placed.delete_other (by simp [hu, TskPhase.home])
    rw [L.fresh, hdel]
    refine argmin_congr fun q hq => ?_
    have hqcb : q ≠ cb := by
      rintro rfl
      have := L.mem_runQueue.mp hq
      rw [hu] at this
      cases this
    simp [Kernel.priority, hqcb]

/-! ## Resuming tasks -/

/-- The resumed task is in the run queue; nothing has been rescheduled yet. -/
def resumedKernel (k : Kernel) (p : Nat) : Kernel :=
  osTskReadyAdd (tskStatusClear k p osTskSuspend) p

theorem Linked.clearSuspend (L : Linked k ph) {p : Nat} (hs : ph p = .suspended) :
    Linked (tskStatusClear k p osTskSuspend) (Function.update ph p .dormant) := by
  have hp : p ≤ k.tskMaxNum := L.le_of_ne_dormant (by rw [hs]; decide)
  refine L.move (l := k.lists) (m := k.highestTask) hp ?_ ?_ (L.pid p hp)
    (fun _ h => by cases h) (L.boost p hp) (fun h => by cases h) ?_
  · refine L.placed.congr fun q => ?_
    by_cases h : q = p
    · subst h; simp [hs, TskPhase.home]
    · simp [h]
  · have h := L.status p hp
    rw [hs] at h
    rcases runBit_cases k p with hb | hb <;> simp only [h, hb, TskPhase.bits] <;> decide
  · rw [L.fresh]
    refine argmin_congr fun q _ => ?_
    by_cases h : q = p
    · subst h; simp
    · simp [h]

theorem Linked.resumedKernel (L : Linked k ph) {p : Nat} (hs : ph p = .suspended) :
    Linked (resumedKernel k p) (Function.update ph p .ready) := by
  have hp : p ≤ k.tskMaxNum := L.le_of_ne_dormant (by rw [hs]; decide)
  have h := (L.clearSuspend hs).osTskReadyAdd (p := p) hp (by simp)
  rwa [Function.update_idem] at h

theorem Linked.not_blocked (L : Linked k ph) {p : Nat} (hp : p ≤ k.tskMaxNum)
    (hd : ph p = .dormant) :
    ¬ tskStatusTst k p osTskDelayInterruptible ∧ ¬ tskStatusTst k p osTskBlock := by
  rw [tskStatusTst, tskStatusTst, L.status p hp, hd]
  rcases runBit_cases k p with hr | hr <;> rw [hr] <;> simp only [TskPhase.bits] <;> decide

theorem prtTaskResume_cases (L : Linked k ph) {p : Nat} (hp : p ≤ k.tskMaxNum)
    (hlock : k.uniTaskLock = 0) :
    (∃ ret, ret ≠ osOk ∧ prtTaskResume k p = (k, ret)) ∨
    (ph p = .suspended ∧ prtTaskResume k p =
      (if bgdActive k then osTskSchedule (resumedKernel k p) else resumedKernel k p, osOk)) := by
  unfold prtTaskResume
  rw [getTcbHandle_eq]
  by_cases hu : tskIsUnused k p
  · exact Or.inl ⟨osErrnoTskNotCreated, by decide, if_pos hu⟩
  by_cases hs : ph p = .suspended
  · right
    refine ⟨hs, ?_⟩
    have L' := L.clearSuspend hs
    obtain ⟨hdi, hblock⟩ := L'.not_blocked (p := p) hp (by simp)
    have hbgd : bgdActive (osTskReadyAdd (tskStatusClear k p osTskSuspend) p) ↔ bgdActive k := by
      rw [osTskReadyAdd_eq]
      rfl
    have htst := (L.tst_suspend hp).mpr hs
    simp only [hu, hlock, htst, ↓reduceIte, ne_eq, not_true_eq_false, and_false]
    unfold osMoveTaskToReady
    simp only [hdi, hblock, ↓reduceIte, not_false_eq_true, hbgd, resumedKernel]
  · left
    have htst : ¬ tskStatusTst k p (osTskSuspend ||| osTskDelayInterruptible) :=
      fun h => hs ((L.tst_suspend hp).mp h)
    refine ⟨osErrnoTskNotSuspended, by decide, ?_⟩
    simp [hu, hlock, htst]

/-! ## Creating semaphores -/

def semCreatedKernel (k : Kernel) (s : Nat) (rest : List Nat) (c : TagSemCb) : Kernel :=
  { k with
    unusedSemList := rest
    allSem := Function.update k.allSem s c
    lists := Function.update k.lists (.semList s) [] }

/-- The block of a semaphore that has just been created. -/
def createdSem (k : Kernel) (s count semType : Nat) (semMode : SemMode) : TagSemCb :=
  { semStat := osSemUsed
    semId := (k.allSem s).semId
    semCount := count
    semOwner := osInvalidOwnerId
    semMode := semMode
    semType := semType }

theorem osSemCreate_cases (k : Kernel) (count semType : Nat) (semMode : SemMode) (null : Bool) :
    (∃ ret, ret ≠ osOk ∧ osSemCreate k count semType semMode null = (k, .error ret)) ∨
    ∃ s rest, k.unusedSemList = s :: rest ∧ osSemCreate k count semType semMode null =
      (semCreatedKernel k s rest (createdSem k s count semType semMode),
        .ok (k.allSem s).semId) := by
  unfold osSemCreate
  cases null with
  | true => exact Or.inl ⟨osErrnoSemPtrNull, by decide, rfl⟩
  | false =>
    cases hl : k.unusedSemList with
    | nil => exact Or.inl ⟨osErrnoSemAllBusy, by decide, by simp⟩
    | cons s rest =>
      refine Or.inr ⟨s, rest, rfl, ?_⟩
      simp [semCreatedKernel, createdSem, Kernel.setSem]

theorem prtSemCreate_cases (k : Kernel) (count : Nat) (null : Bool) :
    (∃ ret, ret ≠ osOk ∧ prtSemCreate k count null = (k, .error ret)) ∨
    ∃ s rest, k.unusedSemList = s :: rest ∧ count ≤ osSemCountMax ∧ prtSemCreate k count null =
      (semCreatedKernel k s rest (createdSem k s count semTypeCount .fifo),
        .ok (k.allSem s).semId) := by
  unfold prtSemCreate
  by_cases hc : count > osSemCountMax
  · exact Or.inl ⟨osErrnoSemOverflow, by decide, if_pos hc⟩
  · rw [if_neg hc]
    rcases osSemCreate_cases k count semTypeCount .fifo null with h | ⟨s, rest, hl, h⟩
    · exact Or.inl h
    · exact Or.inr ⟨s, rest, hl, by omega, h⟩

/-! ## Pend and post -/

/-- A pend that takes a unit of the count. -/
def tookKernel (k : Kernel) (s : Nat) : Kernel :=
  k.setSem s { k.allSem s with
    semCount := ((k.allSem s).semCount + (2 ^ 32 - 1)) % 2 ^ 32
    semOwner := (k.tskCbArray k.runningTask).taskPid }

/-- What stands between a pend and the wait list. -/
structure Blocks (k : Kernel) (s timeout : Nat) : Prop where
  bound : s < k.maxSem
  used : (k.allSem s).semStat ≠ osSemUnused
  idle : ¬ osIntActive k
  empty : (k.allSem s).semCount = 0
  wait : timeout ≠ osNoWait
  unlocked : k.uniTaskLock = 0

theorem prtSemPend_cases (k : Kernel) (s timeout : Nat) :
    (∃ ret, ret ≠ osOk ∧ ¬ Blocks k s timeout ∧ prtSemPend k s timeout = (k, ret)) ∨
    (s < k.maxSem ∧ (k.allSem s).semStat ≠ osSemUnused ∧ 0 < (k.allSem s).semCount ∧
      prtSemPend k s timeout = (tookKernel k s, osOk)) ∨
    (Blocks k s timeout ∧ timeout = osWaitForever ∧
      prtSemPend k s timeout = (osTskSchedule (osSemPendListPut k s), osOk)) ∨
    (Blocks k s timeout ∧ timeout ≠ osWaitForever ∧
      prtSemPend k s timeout = (osSemPendListPut k s, osErrnoSemFuncNotSupport)) := by
  unfold prtSemPend
  by_cases hb : s ≥ k.maxSem
  · exact Or.inl ⟨osErrnoSemInvalid, by decide, fun h => by have := h.bound; omega, if_pos hb⟩
  by_cases hu : (k.allSem s).semStat = osSemUnused
  · exact Or.inl ⟨osErrnoSemInvalid, by decide, fun h => h.used hu, by rw [if_neg hb, if_pos hu]⟩
  by_cases hi : osIntActive k
  · exact Or.inl ⟨osErrnoSemPendInterr, by decide, fun h => h.idle hi,
      by rw [if_neg hb, if_neg hu, if_pos hi]⟩
  rw [if_neg hb, if_neg hu, if_neg hi, osSemPendNotNeedSche]
  by_cases hc : (k.allSem s).semCount > 0
  · exact Or.inr (Or.inl ⟨by omega, hu, hc, by simp [hc, tookKernel]⟩)
  simp only [hc, ↓reduceIte]
  by_cases hw : timeout = osNoWait
  · exact Or.inl ⟨osErrnoSemUnavailable, by decide, fun h => h.wait hw,
      by simp only [osSemPendParaCheck, hw, ↓reduceIte]; rw [if_pos (by decide)]⟩
  by_cases hk : k.uniTaskLock = 0
  · have hB : Blocks k s timeout := ⟨by omega, hu, hi, by omega, hw, hk⟩
    simp only [osSemPendParaCheck, hw, hk, ↓reduceIte, ne_eq, not_true_eq_false]
    by_cases hf : timeout = osWaitForever
    · exact Or.inr (Or.inr (Or.inl ⟨hB, hf, by simp [hf, osTskScheduleFastPs_eq]⟩))
    · exact Or.inr (Or.inr (Or.inr ⟨hB, hf, by simp [hf]⟩))
  · refine Or.inl ⟨osErrnoSemPendInLock, by decide, fun h => hk h.unlocked, ?_⟩
    simp only [osSemPendParaCheck, hw, hk, ↓reduceIte, ne_eq, not_false_eq_true]
    rw [if_pos (by decide)]

/-- A post that no task waits for. -/
def releasedKernel (k : Kernel) (s : Nat) : Kernel :=
  let k := osPriorityRestore k s
  let k := k.setSem s { k.allSem s with semCount := ((k.allSem s).semCount + 1) % 2 ^ 32 }
  k.setSem s { k.allSem s with semOwner := osInvalidOwnerId }

/-- A post that is not refused. -/
structure Posts (k : Kernel) (s : Nat) : Prop where
  bound : s < k.maxSem
  used : (k.allSem s).semStat ≠ osSemUnused
  room : (k.allSem s).semCount < osSemCountMax

theorem prtSemPost_cases (k : Kernel) (s : Nat) :
    (∃ ret, ret ≠ osOk ∧ ¬ Posts k s ∧ prtSemPost k s = (k, ret)) ∨
    (Posts k s ∧ osSemPostIsInvalid k s ∧ prtSemPost k s = (k, osOk)) ∨
    (Posts k s ∧ ¬ osSemPostIsInvalid k s ∧ k.semList s ≠ [] ∧
      prtSemPost k s = (osTskSchedule (osSemPostSchePre k s), osOk)) ∨
    (Posts k s ∧ ¬ osSemPostIsInvalid k s ∧ k.semList s = [] ∧
      prtSemPost k s = (releasedKernel k s, osOk)) := by
  unfold prtSemPost
  by_cases hb : s ≥ k.maxSem
  · exact Or.inl ⟨osErrnoSemInvalid, by decide, fun h => by have := h.bound; omega, if_pos hb⟩
  rw [if_neg hb]
  by_cases hu : (k.allSem s).semStat = osSemUnused
  · refine Or.inl ⟨osErrnoSemInvalid, by decide, fun h => h.used hu, ?_⟩
    simp only [osSemPostErrorCheck, hu, ↓reduceIte]
    rw [if_pos (by decide)]
  by_cases hc : (k.allSem s).semCount ≥ osSemCountMax
  · refine Or.inl ⟨osErrnoSemOverflow, by decide, fun h => by have := h.room; omega, ?_⟩
    simp only [osSemPostErrorCheck, hu, hc, ↓reduceIte]
    rw [if_pos (by decide)]
  have hP : Posts k s := ⟨by omega, hu, by omega⟩
  simp only [osSemPostErrorCheck, hu, hc, ↓reduceIte, ne_eq, not_true_eq_false]
  by_cases hi : osSemPostIsInvalid k s
  · exact Or.inr (Or.inl ⟨hP, hi, by simp [hi]⟩)
  by_cases hl : k.semList s = []
  · exact Or.inr (Or.inr (Or.inr ⟨hP, hi, hl, by simp [hi, hl, releasedKernel]⟩))
  · exact Or.inr (Or.inr (Or.inl ⟨hP, hi, hl, by simp [hi, hl, osTskScheduleFastPs_eq]⟩))

theorem prtSemPost_ret {s : Nat} (hP : Posts k s) : (prtSemPost k s).2 = osOk := by
  rcases prtSemPost_cases k s with ⟨_, -, hno, -⟩ | ⟨-, -, h⟩ | ⟨-, -, -, h⟩ | ⟨-, -, -, h⟩
  · exact absurd hP hno
  all_goals rw [h]

/-! ## All calls -/

/-- The semaphore a call posts on. -/
def Op.posts : Op → Option Nat
  | .semPost s => some s
  | .uartPost s => some s
  | _ => none

/-- Count, type and mode of the semaphore a call creates. -/
def Op.creates : Op → Option (Nat × Nat × SemMode)
  | .semCreate count _ => some (count, semTypeCount, .fifo)
  | .osSemCreate count semType semMode _ => some (count, semType, semMode)
  | _ => none

/-- A pend that blocks, but with a timeout that is neither 0 nor for ever. -/
def Op.Unsupported (k : Kernel) : Op → Prop
  | .semPend s timeout => Blocks k s timeout ∧ timeout ≠ osWaitForever
  | _ => False

/-- What a call does to a state whose tasks are in the phases `ph`. -/
inductive Effect (k : Kernel) (ph : Nat → TskPhase) : Op → Kernel → Nat → Prop
  | failed {op ret} : ret ≠ osOk → (∀ s, op.posts = some s → ¬ Posts k s) → Effect k ph op k ret
  | created {initParam cb rest t used} :
      k.tskCbFreeList = cb :: rest → Created k initParam cb t →
      Effect k ph (.taskCreate initParam) (createdKernel k cb t used) osOk
  | resumed {p} : ph p = .suspended →
      Effect k ph (.taskResume p)
        (if bgdActive k then osTskSchedule (resumedKernel k p) else resumedKernel k p) osOk
  | semCreated {op s rest count semType semMode} :
      op.creates = some (count, semType, semMode) → k.unusedSemList = s :: rest →
      Effect k ph op
        (semCreatedKernel k s rest (createdSem k s count semType semMode)) osOk
  | took {s timeout} : s < k.maxSem → (k.allSem s).semStat ≠ osSemUnused →
      0 < (k.allSem s).semCount → Effect k ph (.semPend s timeout) (tookKernel k s) osOk
  | blocked {s} : Blocks k s osWaitForever →
      Effect k ph (.semPend s osWaitForever) (osTskSchedule (osSemPendListPut k s)) osOk
  | unsupported {s timeout} : Blocks k s timeout → timeout ≠ osWaitForever →
      Effect k ph (.semPend s timeout) (osSemPendListPut k s) osErrnoSemFuncNotSupport
  | full {op s} : op.posts = some s → Posts k s → osSemPostIsInvalid k s → Effect k ph op k osOk
  | woke {op s} : op.posts = some s → Posts k s → ¬ osSemPostIsInvalid k s →
      k.semList s ≠ [] → Effect k ph op (osTskSchedule (osSemPostSchePre k s)) osOk
  | released {op s} : op.posts = some s → Posts k s → ¬ osSemPostIsInvalid k s →
      k.semList s = [] → Effect k ph op (releasedKernel k s) osOk
  | exited : Effect k ph .taskExit (osTskEntryReturn k) osOk
  | activated {osTskIdleBgd k'} : osActivate k osTskIdleBgd = .ok k' →
      Effect k ph (.activate osTskIdleBgd) k' osOk

theorem post_effect {op : Op} {s : Nat} (ho : op.posts = some s)
    (he : op.exec k = prtSemPost k s) : Effect k ph op (op.next k) (op.ret k) := by
  rw [Op.next, Op.ret, he]
  rcases prtSemPost_cases k s with
    ⟨ret, hr, hP, h⟩ | ⟨hP, hi, h⟩ | ⟨hP, hi, hl, h⟩ | ⟨hP, hi, hl, h⟩ <;> rw [h]
  · refine .failed hr fun s' hs' => ?_
    rwa [← Option.some.inj (ho.symm.trans hs')]
  · exact .full ho hP hi
  · exact .woke ho hP hi hl
  · exact .released ho hP hi hl

/-- **Inversion of a call.** -/
theorem Op.effect (L : Linked k ph) (hlock : k.uniTaskLock = 0) (op : Op)
    (hc : op.Callable k) : Effect k ph op (op.next k) (op.ret k) := by
  cases op with
  | taskCreate initParam =>
    rw [Op.next, Op.ret, Op.exec]
    rcases prtTaskCreate_cases L initParam with ⟨ret, hr, h⟩ | ⟨cb, rest, t, used, hl, hcr, h⟩
      <;> rw [h]
    · exact .failed hr fun _ h => by cases h
    · exact .created hl hcr
  | taskResume p =>
    rw [Op.next, Op.ret, Op.exec]
    rcases prtTaskResume_cases L hc hlock with ⟨ret, hr, h⟩ | ⟨hs, h⟩ <;> rw [h]
    · exact .failed hr fun _ h => by cases h
    · exact .resumed hs
  | semCreate count null =>
    rw [Op.next, Op.ret, Op.exec]
    rcases prtSemCreate_cases k count null with ⟨ret, hr, h⟩ | ⟨s, rest, hl, -, h⟩ <;> rw [h]
    · exact .failed hr fun _ h => by cases h
    · exact .semCreated rfl hl
  | osSemCreate count semType semMode null =>
    rw [Op.next, Op.ret, Op.exec]
    rcases osSemCreate_cases k count semType semMode null with ⟨ret, hr, h⟩ | ⟨s, rest, hl, h⟩
      <;> rw [h]
    · exact .failed hr fun _ h => by cases h
    · exact .semCreated rfl hl
  | semPend s timeout =>
    rw [Op.next, Op.ret, Op.exec]
    rcases prtSemPend_cases k s timeout with
      ⟨ret, hr, -, h⟩ | ⟨hb, hu, hcount, h⟩ | ⟨hB, hf, h⟩ | ⟨hB, hf, h⟩ <;> rw [h]
    · exact .failed hr fun _ h => by cases h
    · exact .took hb hu hcount
    · rw [hf] at hB ⊢
      exact .blocked hB
    · exact .unsupported hB hf
  | semPost s => exact post_effect rfl rfl
  | uartPost s => exact post_effect rfl rfl
  | taskExit => exact .exited
  | activate entry =>
    rw [Op.next, Op.ret, Op.exec]
    cases h : osActivate k entry with
    | error ret =>
      have := hc.2
      rw [h] at this
      cases this
    | ok k' => exact .activated h

end MiniEuler
