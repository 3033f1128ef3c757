import Mathlib.Data.List.MinMax
import MiniEuler.Kernel.State

/-! The task module: `prt_task.c`, `prt_task_init.c`, `prt_sched_single.c` and
the inline functions of their headers. -/

namespace MiniEuler
open Library

/-! ## Run queue and scheduler -/

/-- The first of the most urgent tasks of the run queue. -/
def osTskHighestSet (k : Kernel) : Kernel :=
  { k with
    highestTask := k.runQueue.foldl (fun savedTaskCb taskCb =>
      match savedTaskCb with
      | none => some taskCb
      | some saved => if k.priority taskCb < k.priority saved then some taskCb else some saved)
      none }

def osEnqueueTaskAmp (k : Kernel) (tsk : Nat) : Kernel :=
  { k with lists := k.lists.tailAdd tsk .runQueue }

def osDequeueTaskAmp (k : Kernel) (tsk : Nat) : Kernel :=
  { k with lists := k.lists.delete tsk }

def osTskReadyAdd (k : Kernel) (task : Nat) : Kernel :=
  let k := tskStatusSet k task osTskReady
  let k := osEnqueueTaskAmp k task
  osTskHighestSet k

def osTskReadyAddBgd (k : Kernel) (task : Nat) : Kernel := osTskReadyAdd k task

def osTskReadyDel (k : Kernel) (taskCb : Nat) : Kernel :=
  let k := tskStatusClear k taskCb osTskReady
  let k := osDequeueTaskAmp k taskCb
  osTskHighestSet k

/-- `OsMainSchedule`, up to the load of the context of `runningTask`. -/
def osMainSchedule (k : Kernel) : Kernel :=
  if k.uniFlag &&& osFlgTskReq ≠ 0 then
    let k := { k with uniFlag := k.uniFlag &&& ~~~osFlgTskReq }
    let k := tskStatusClear k k.runningTask osTskRunning
    match k.highestTask with
    | none => { k with fault := true }
    | some highest => { tskStatusSet k highest osTskRunning with runningTask := highest }
  else k

/-- `OsTaskTrap` saves the registers of the caller and enters `OsMainSchedule`. -/
def osTaskTrap (k : Kernel) : Kernel := osMainSchedule k

def osTaskTrapFastPs (k : Kernel) : Kernel := osTaskTrap k

def osTskSchedule (k : Kernel) : Kernel :=
  let k := osTskHighestSet k
  if k.highestTask ≠ some k.runningTask ∧ k.uniTaskLock = 0 then
    let k := { k with uniFlag := k.uniFlag ||| osFlgTskReq }
    if ¬ osIntActive k then osTaskTrap k else k
  else k

def osTskScheduleFastPs (k : Kernel) : Kernel :=
  let k := osTskHighestSet k
  if k.highestTask ≠ some k.runningTask ∧ k.uniTaskLock = 0 then
    let k := { k with uniFlag := k.uniFlag ||| osFlgTskReq }
    if ¬ osIntActive k then osTaskTrapFastPs k else k
  else k

theorem osTskScheduleFastPs_eq (k : Kernel) : osTskScheduleFastPs k = osTskSchedule k := rfl

def osFirstTimeSwitch (k : Kernel) : Kernel :=
  let k := osTskHighestSet k
  match k.highestTask with
  | none => { k with fault := true }
  | some highest => tskStatusSet { k with runningTask := highest } highest osTskRunning

def osTaskExit (k : Kernel) (tsk : Nat) : Kernel :=
  let k := osTskReadyDel k tsk
  osTskSchedule k

/-- The part of `OsTskEntry` after the task's own entry function has returned. -/
def osTskEntryReturn (k : Kernel) : Kernel :=
  let k := { k with uniTaskLock := 0 }
  osTaskExit k k.runningTask

/-! ## Creating and resuming tasks -/

/-- The first free 4K area of `stackMem`. -/
def osMemAllocAlign (k : Kernel) (size : BitVec 32) (alignPow : Nat) : Kernel × Option UIntPtr :=
  if alignPow > 8 then (k, none)
  else if size ≠ 4096 then (k, none)
  else
    match (List.range stackMemNum).find? (fun i => !k.stackMemUsed i) with
    | none => (k, none)
    | some i =>
      ({ k with stackMemUsed := Function.update k.stackMemUsed i true },
        some (k.stackMem + BitVec.ofNat 64 (4096 * i)))

def osTskMemAlloc (k : Kernel) (size : BitVec 32) : Kernel × Option UIntPtr :=
  osMemAllocAlign k size osTskStackSizeAllocAlign

/-- `(struct TskContext *)((uintptr_t)topStack + stackSize) - 1` -/
def tskContextAddr (stackSize : BitVec 32) (topStack : UIntPtr) : UIntPtr :=
  topStack + stackSize.setWidth 64 - BitVec.ofNat 64 sizeofTskContext

/-- The context that `OsTskContextInit` writes. -/
def tskContextInit (funcTskEntry : BitVec 64) : TskContext where
  x00 := 0
  x01 := 0x01010101
  x02 := 0x02020202
  x03 := 0x03030303
  x04 := 0x04040404
  x05 := 0x05050505
  x06 := 0x06060606
  x07 := 0x07070707
  x08 := 0x08080808
  x09 := 0x09090909
  x10 := 0x10101010
  x11 := 0x11111111
  x12 := 0x12121212
  x13 := 0x13131313
  x14 := 0x14141414
  x15 := 0x15151515
  x16 := 0x16161616
  x17 := 0x17171717
  x18 := 0x18181818
  x19 := 0x19191919
  x20 := 0x20202020
  x21 := 0x21212121
  x22 := 0x22222222
  x23 := 0x23232323
  x24 := 0x24242424
  x25 := 0x25252525
  x26 := 0x26262626
  x27 := 0x27272727
  x28 := 0x28282828
  x29 := 0x29292929
  x30 := funcTskEntry
  xzr := 0
  elr := funcTskEntry
  esr := 0
  far := 0
  spsr := 0x305

/-- The memory with the context stored in it, and the address of the context. -/
def osTskContextInit (mem : ByteMem) (stackSize : BitVec 32) (topStack funcTskEntry : UIntPtr) :
    ByteMem × UIntPtr :=
  let stack := tskContextAddr stackSize topStack
  (storeWords mem stack (tskContextInit funcTskEntry).words, stack)

@[simp] theorem osTskContextInit_snd (mem : ByteMem) (stackSize : BitVec 32)
    (topStack funcTskEntry : UIntPtr) :
    (osTskContextInit mem stackSize topStack funcTskEntry).2 = tskContextAddr stackSize topStack :=
  rfl

def osTaskCreateChkAndGetTcb (k : Kernel) : Except Nat (Kernel × Nat) :=
  match k.tskCbFreeList with
  | [] => .error osErrnoTskTcbUnavailable
  | taskCb :: _ => .ok ({ k with lists := k.lists.delete taskCb }, taskCb)

def osTaskCreateRsrcInit (k : Kernel) (initParam : TskInitParam) (taskCb : Nat) :
    Kernel × Except Nat (UIntPtr × BitVec 32) :=
  if initParam.stackAddr ≠ 0 then
    (k.setTcb taskCb { k.tskCbArray taskCb with stackCfgFlg := osTskStackCfgByUser },
      .ok (initParam.stackAddr, initParam.stackSize))
  else
    match osTskMemAlloc k initParam.stackSize with
    | (k, none) => (k, .error osErrnoTskNoMemory)
    | (k, some topStack) =>
      (k.setTcb taskCb { k.tskCbArray taskCb with stackCfgFlg := osTskStackCfgBySys },
        .ok (topStack, initParam.stackSize))

def osTskCreateTcbInit (k : Kernel) (stackPtr : UIntPtr) (initParam : TskInitParam)
    (topStackAddr : UIntPtr) (curStackSize : BitVec 32) (taskCb : Nat) : Kernel :=
  k.setTcb taskCb { k.tskCbArray taskCb with
    stackPointer := stackPtr
    args := initParam.args
    topOfStack := topStackAddr
    stackSize := curStackSize
    taskSem := none
    priority := initParam.taskPrio
    originalPriority := initParam.taskPrio
    taskEntry := initParam.taskEntry
    lastErr := 0 }

/-- The new task's pid, or the error code. -/
def osTaskCreateOnly (k : Kernel) (initParam : TskInitParam) : Kernel × Except Nat Nat :=
  match osTaskCreateChkAndGetTcb k with
  | .error ret => (k, .error ret)
  | .ok (k, taskCb) =>
    let taskId := (k.tskCbArray taskCb).taskPid
    match osTaskCreateRsrcInit k initParam taskCb with
    | (k, .error ret) => ({ k with lists := k.lists.headAdd taskCb .tskCbFreeList }, .error ret)
    | (k, .ok (topStack, curStackSize)) =>
      let stack := osTskContextInit k.mem curStackSize topStack k.osTskEntry
      let k := { k with mem := stack.1 }
      let k := osTskCreateTcbInit k stack.2 initParam topStack curStackSize taskCb
      let k := k.setTcb taskCb
        { k.tskCbArray taskCb with taskStatus := osTskSuspend ||| osTskInuse }
      (k, .ok taskId)

def prtTaskCreate (k : Kernel) (initParam : TskInitParam) : Kernel × Except Nat Nat :=
  osTaskCreateOnly k initParam

def osMoveTaskToReady (k : Kernel) (taskCb : Nat) : Kernel :=
  let k :=
    if tskStatusTst k taskCb osTskDelayInterruptible then
      let k := if tskStatusTst k taskCb osTskTimeout then osTskDelayLockedDetach k taskCb else k
      tskStatusClear k taskCb (osTskTimeout ||| osTskDelayInterruptible)
    else k
  if ¬ tskStatusTst k taskCb osTskBlock then
    let k := osTskReadyAdd k taskCb
    if bgdActive k then osTskSchedule k else k
  else k

def prtTaskResume (k : Kernel) (taskPid : Nat) : Kernel × Nat :=
  let taskCb := getTcbHandle taskPid
  if tskIsUnused k taskCb then (k, osErrnoTskNotCreated)
  else if tskStatusTst k taskCb osTskRunning ∧ k.uniTaskLock ≠ 0 then
    (k, osErrnoTskActiveFailed)
  else if ¬ tskStatusTst k taskCb (osTskSuspend ||| osTskDelayInterruptible) then
    (k, osErrnoTskNotSuspended)
  else
    let k := tskStatusClear k taskCb osTskSuspend
    (osMoveTaskToReady k taskCb, osOk)

/-! ## Initialisation -/

/-- The globals before any kernel code has run. -/
def kernelReset (stackMem osTskEntry : UIntPtr) (mem : ByteMem) : Kernel where
  tskCbArray := fun _ => {}
  lists := fun _ => []
  allSem := fun _ => {}
  unusedSemList := []
  runningTask := 0
  highestTask := none
  idleTaskId := 0
  uniFlag := 0
  uniTaskLock := 0
  tskMaxNum := 0
  maxSem := 0
  stackMem := stackMem
  stackMemUsed := fun _ => false
  osTskEntry := osTskEntry
  mem := mem
  fault := false

/-- One round of the loop of `OsTskAMPInit` over the control blocks. -/
def osTskAMPInitTcb (k : Kernel) (idx : Nat) : Kernel :=
  let k := k.setTcb idx { k.tskCbArray idx with
    taskStatus := osTskUnused, taskPid := idx + tskBaseId }
  { k with lists := k.lists.tailAdd idx .tskCbFreeList }

def osTskAMPInit (k : Kernel) : Except Nat Kernel :=
  match osMemAllocAlign k 4096 osTskStackSizeAllocAlign with
  | (_, none) => .error osErrnoTskNoMemory
  | (k, some _) =>
    let k := { k with
      tskMaxNum := 4096 / sizeofTagTskCb - 2
      tskCbArray := fun _ => {}
      lists := Function.update k.lists .tskCbFreeList [] }
    let k := (List.range (osMaxTcbNum k - 1)).foldl osTskAMPInitTcb k
    let k := { k with
      runningTask := osPstZombieTask k
      lists := Function.update k.lists .runQueue [] }
    .ok (k.setTcb k.runningTask { k.tskCbArray k.runningTask with
      taskPid := osMaxTcbNum k - 1 + tskBaseId
      taskStatus := osTskInuse ||| osTskRunning
      priority := osTskPriorityLowest + 1 })

def osTskInit (k : Kernel) : Except Nat Kernel := osTskAMPInit k

def osIdleTskAMPCreate (k : Kernel) (osTskIdleBgd : UIntPtr) : Except Nat Kernel :=
  match prtTaskCreate k { taskEntry := osTskIdleBgd, taskPrio := osTskPriorityLowest } with
  | (_, .error ret) => .error ret
  | (k, .ok taskHdl) =>
    match prtTaskResume k taskHdl with
    | (k, ret) => if ret ≠ osOk then .error ret else .ok { k with idleTaskId := taskHdl }

/-- `OsActivate` returns only when the idle task cannot be created; otherwise
this is the state in which the first task starts. -/
def osActivate (k : Kernel) (osTskIdleBgd : UIntPtr) : Except Nat Kernel :=
  match osIdleTskAMPCreate k osTskIdleBgd with
  | .error ret => .error ret
  | .ok k =>
    let k := osTskHighestSet k
    let k := { k with uniFlag := k.uniFlag ||| (osFlgBgdActive ||| osFlgTskReq) }
    .ok (osFirstTimeSwitch k)

end MiniEuler
