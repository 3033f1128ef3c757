import MiniEuler.Kernel.Task

/-! The semaphore module: `prt_sem.c` and `prt_sem_init.c`, with the priority
inheritance that `PRT_SemPend` and `PRT_SemPost` go through. -/

namespace MiniEuler
open Library

def getSemType (semType : Nat) : Nat := semType &&& ((1 <<< 4) - 1)

/-! ## Initialisation and creation -/

/-- One round of the loop of `OsSemInit` over the semaphore blocks. -/
def osSemInitNode (k : Kernel) (idx : Nat) : Kernel :=
  { k.setSem idx { k.allSem idx with semId := idx } with
    unusedSemList := k.unusedSemList ++ [idx] }

def osSemInit (k : Kernel) : Except Nat Kernel :=
  match osMemAllocAlign k 4096 osSemAddrAllocAlign with
  | (_, none) => .error osErrnoSemNoMemory
  | (k, some _) =>
    let k := { k with
      maxSem := 4096 / sizeofTagSemCb
      allSem := fun _ => {}
      unusedSemList := [] }
    .ok ((List.range k.maxSem).foldl osSemInitNode k)

/-- `null` tells whether the caller passed a NULL `semHandle`. -/
def osSemCreate (k : Kernel) (count semType : Nat) (semMode : SemMode) (null : Bool) :
    Kernel × Except Nat Nat :=
  if null then (k, .error osErrnoSemPtrNull)
  else
    match k.unusedSemList with
    | [] => (k, .error osErrnoSemAllBusy)
    | unusedSem :: rest =>
      let k := { k with unusedSemList := rest }
      let k := k.setSem unusedSem { k.allSem unusedSem with
        semCount := count
        semStat := osSemUsed
        semMode := semMode
        semType := semType
        semOwner := osInvalidOwnerId }
      let k := { k with lists := Function.update k.lists (.semList unusedSem) [] }
      (k, .ok (k.allSem unusedSem).semId)

def prtSemCreate (k : Kernel) (count : Nat) (null : Bool) : Kernel × Except Nat Nat :=
  if count > osSemCountMax then (k, .error osErrnoSemOverflow)
  else osSemCreate k count semTypeCount .fifo null

/-! ## Priority inheritance -/

def osSemFindHighestWaiterPriority (k : Kernel) (sem : Nat) : Nat :=
  if k.semList sem = [] then 255
  else
    (k.semList sem).foldl (fun highestPrio taskCb =>
      if k.priority taskCb < highestPrio then k.priority taskCb else highestPrio) 255

/-- The write of an owner's priority, and the way back into the run queue of
an owner that is ready. -/
def osOwnerPrioritySet (k : Kernel) (owner : Nat) (prio : Nat) : Kernel :=
  let k := k.setTcb owner { k.tskCbArray owner with priority := prio }
  if tskStatusTst k owner osTskReady then osTskReadyAdd (osTskReadyDel k owner) owner else k

def osPriorityInherit (k : Kernel) (semPended : Nat) (waiterTask : Nat) : Kernel :=
  if (k.allSem semPended).semOwner = osInvalidOwnerId then k
  else
    let ownerTask := getTcbHandle (k.allSem semPended).semOwner
    if tskIsUnused k ownerTask then k
    else
      let highest := osSemFindHighestWaiterPriority k semPended
      let highestWaiterPrio :=
        if k.priority waiterTask < highest then k.priority waiterTask else highest
      if k.priority ownerTask > highestWaiterPrio then
        let k :=
          if k.priority ownerTask = k.originalPriority ownerTask then
            k.setTcb ownerTask
              { k.tskCbArray ownerTask with originalPriority := k.priority ownerTask }
          else k
        osOwnerPrioritySet k ownerTask highestWaiterPrio
      else k

def osPriorityRestore (k : Kernel) (semPosted : Nat) : Kernel :=
  if (k.allSem semPosted).semOwner = osInvalidOwnerId then k
  else
    let ownerTask := getTcbHandle (k.allSem semPosted).semOwner
    if tskIsUnused k ownerTask then k
    else if k.priority ownerTask = k.originalPriority ownerTask then k
    else
      let highestWaiterPrio := osSemFindHighestWaiterPriority k semPosted
      if highestWaiterPrio < k.priority ownerTask then
        osOwnerPrioritySet k ownerTask highestWaiterPrio
      else osOwnerPrioritySet k ownerTask (k.originalPriority ownerTask)

/-! ## Pend -/

/-- The caller of `PRT_SemPend` leaves the run queue and enters the wait list. -/
def osSemPendListPut (k : Kernel) (semPended : Nat) : Kernel :=
  let runTsk := k.runningTask
  let k := osTskReadyDel k runTsk
  let k := k.setTcb runTsk { k.tskCbArray runTsk with taskSem := some semPended }
  let k := tskStatusSet k runTsk osTskPend
  let curTskCb :=
    if (k.allSem semPended).semMode = .prior then
      (k.semList semPended).find? (fun cur => k.priority cur > k.priority runTsk)
    else none
  match curTskCb with
  | some cur => osPriorityInherit { k with lists := k.lists.addBefore runTsk cur } semPended runTsk
  | none =>
    osPriorityInherit { k with lists := k.lists.tailAdd runTsk (.semList semPended) } semPended
      runTsk

def osSemPendParaCheck (k : Kernel) (timeout : Nat) : Nat :=
  if timeout = osNoWait then osErrnoSemUnavailable
  else if k.uniTaskLock ≠ 0 then osErrnoSemPendInLock
  else osOk

/-- The state after taking a unit of the count, when there is one. -/
def osSemPendNotNeedSche (k : Kernel) (semPended : Nat) (runTsk : Nat) :
    Option Kernel :=
  let sem := k.allSem semPended
  if sem.semCount > 0 then
    some (k.setSem semPended { sem with
      semCount := (sem.semCount + (2 ^ 32 - 1)) % 2 ^ 32
      semOwner := (k.tskCbArray runTsk).taskPid })
  else none

def prtSemPend (k : Kernel) (semHandle : Nat) (timeout : Nat) : Kernel × Nat :=
  if semHandle ≥ k.maxSem then (k, osErrnoSemInvalid)
  else if (k.allSem semHandle).semStat = osSemUnused then (k, osErrnoSemInvalid)
  else if osIntActive k then (k, osErrnoSemPendInterr)
  else
    match osSemPendNotNeedSche k semHandle k.runningTask with
    | some k => (k, osOk)
    | none =>
      let ret := osSemPendParaCheck k timeout
      if ret ≠ osOk then (k, ret)
      else
        let k := osSemPendListPut k semHandle
        if timeout ≠ osWaitForever then (k, osErrnoSemFuncNotSupport)
        else (osTskScheduleFastPs k, osOk)

/-! ## Post -/

def osSemPostErrorCheck (k : Kernel) (semPosted : Nat) : Nat :=
  if (k.allSem semPosted).semStat = osSemUnused then osErrnoSemInvalid
  else if (k.allSem semPosted).semCount ≥ osSemCountMax then osErrnoSemOverflow
  else osOk

def osSemPostIsInvalid (k : Kernel) (semPosted : Nat) : Bool :=
  if getSemType (k.allSem semPosted).semType = semTypeBin then
    (k.allSem semPosted).semCount = osSemFull
  else false

/-- Takes the first waiter off the list and makes it ready. -/
def osSemPendListGet (k : Kernel) (semPended : Nat) : Kernel × Nat :=
  match k.semList semPended with
  | [] => ({ k with fault := true }, 0)
  | taskCb :: _ =>
    let k := { k with lists := k.lists.delete taskCb }
    let k := if tskStatusTst k taskCb osTskTimeout then osTskDelayLockedDetach k taskCb else k
    let k := tskStatusClear k taskCb (osTskTimeout ||| osTskPend)
    let k := k.setTcb taskCb { k.tskCbArray taskCb with taskSem := none }
    if ¬ tskStatusTst k taskCb osTskSuspend then (osTskReadyAddBgd k taskCb, taskCb)
    else (k, taskCb)

def osSemPostSchePre (k : Kernel) (semPosted : Nat) : Kernel :=
  let oldOwnerId := (k.allSem semPosted).semOwner
  let k :=
    if oldOwnerId ≠ osInvalidOwnerId then
      if ¬ tskIsUnused k (getTcbHandle oldOwnerId) then osPriorityRestore k semPosted else k
    else k
  let (k, resumedTask) := osSemPendListGet k semPosted
  k.setSem semPosted { k.allSem semPosted with semOwner := (k.tskCbArray resumedTask).taskPid }

def prtSemPost (k : Kernel) (semHandle : Nat) : Kernel × Nat :=
  if semHandle ≥ k.maxSem then (k, osErrnoSemInvalid)
  else
    let ret := osSemPostErrorCheck k semHandle
    if ret ≠ osOk then (k, ret)
    else if osSemPostIsInvalid k semHandle then (k, osOk)
    else if k.semList semHandle ≠ [] then
      let k := osSemPostSchePre k semHandle
      (osTskScheduleFastPs k, osOk)
    else
      let k := osPriorityRestore k semHandle
      let k := k.setSem semHandle { k.allSem semHandle with
        semCount := ((k.allSem semHandle).semCount + 1) % 2 ^ 32 }
      let k := k.setSem semHandle { k.allSem semHandle with semOwner := osInvalidOwnerId }
      (k, osOk)

end MiniEuler
