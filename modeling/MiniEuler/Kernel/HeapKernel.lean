import MiniEuler.Library.StoredBlocks
import MiniEuler.Kernel.ListHeap
import MiniEuler.Kernel.Step

/-! The kernel with its lists in memory. `Kernel` has the blocks of each list as a sequence; here
the link fields of the blocks and of the list heads lie in a heap, and the functions that use a
list follow and write these fields with the functions of `prt_list_external.h`. What a function
does besides is as in `Kernel`; but the first context of a task, which in `Kernel` lies apart from
everything else, is stored at its address here, and what it covers is lost. A loop over a list gets
`fuel`, and `none` is a loop that has used it up. -/

namespace MiniEuler
open Library

/-- Offsets of `pendList` in `struct TagTskCb` and of `semList` in `struct TagSemCb`. -/
def offsetPendList : UIntPtr := 88
def offsetSemList : UIntPtr := 8

def sizeofTagListObject : Nat := 16

/-- The numbers of control blocks in the two 4K areas that are linked. Behind the last linked task
block is that of `OS_PST_ZOMBIE_TASK`. -/
def tskCbNum : Nat := 4096 / sizeofTagTskCb - 1
def semCbNum : Nat := 4096 / sizeofTagSemCb

inductive HeapHead
  | tasks (h : ListHead)
  | unusedSems
  deriving DecidableEq, Repr

/-- Where the linker puts `OsTskEntry`, `stackMem`, `g_tskCbFreeList`, `g_runQueue` and
`g_unusedSemList`; `vars` has the addresses and sizes of the other variables of the kernel. -/
structure KernelLayout where
  osTskEntry : UIntPtr
  stackMem : UIntPtr
  tskCbFreeList : UIntPtr
  runQueue : UIntPtr
  unusedSemList : UIntPtr
  vars : List (UIntPtr × Nat)
  inside : stackMem.toNat + 4096 * stackMemNum ≤ 2 ^ 64
  outside : ∀ a ∈ [tskCbFreeList, runQueue, unusedSemList],
    a.toNat < stackMem.toNat ∨ stackMem.toNat + 4096 * stackMemNum ≤ a.toNat
  distinct : [tskCbFreeList, runQueue, unusedSemList].Nodup
  varsOutside : ∀ v ∈ vars, SpansApart v.1 v.2 stackMem (4096 * stackMemNum)

namespace KernelLayout

variable (A : KernelLayout)

/-- `g_tskCbArray` and `g_allSem` are the first two areas of `stackMem`. -/
def tskCbArray : UIntPtr := A.stackMem + BitVec.ofNat 64 (4096 * 0)
def allSem : UIntPtr := A.stackMem + BitVec.ofNat 64 (4096 * 1)

/-- `&g_tskCbArray[p]` and `&g_allSem[s]` -/
def tcb (p : Nat) : UIntPtr := A.tskCbArray + BitVec.ofNat 64 (sizeofTagTskCb * p)
def sem (s : Nat) : UIntPtr := A.allSem + BitVec.ofNat 64 (sizeofTagSemCb * s)

/-- `&g_tskCbArray[p].pendList` and `&g_allSem[s].semList` -/
def tcbNode (p : Nat) : UIntPtr := A.tcb p + offsetPendList
def semNode (s : Nat) : UIntPtr := A.sem s + offsetSemList

def head : HeapHead → UIntPtr
  | .tasks .tskCbFreeList => A.tskCbFreeList
  | .tasks .runQueue => A.runQueue
  | .tasks (.semList s) => A.semNode s
  | .unusedSems => A.unusedSemList

/-- The index of the block a pointer points to. -/
def tcbIndex (taskCb : UIntPtr) : Nat := (taskCb - A.tskCbArray).toNat / sizeofTagTskCb
def semIndex (sem : UIntPtr) : Nat := (sem - A.allSem).toNat / sizeofTagSemCb

def getTcbPend (ptr : UIntPtr) : Nat := A.tcbIndex (listComponent ptr offsetPendList)
def getSemList (ptr : UIntPtr) : Nat := A.semIndex (listComponent ptr offsetSemList)

/-- The fields of `struct TagTskCb` but for its lists and for those that nothing uses. -/
def tcbFields : List (BlockField TagTskCb) :=
  [⟨0, 8, fun t => t.stackPointer.toNat, fun v t => { t with stackPointer := BitVec.ofNat 64 v }⟩,
    ⟨8, 4, fun t => t.taskStatus.toNat, fun v t => { t with taskStatus := BitVec.ofNat 32 v }⟩,
    ⟨12, 2, fun t => t.priority, fun v t => { t with priority := v }⟩,
    ⟨14, 2, fun t => t.originalPriority, fun v t => { t with originalPriority := v }⟩,
    ⟨16, 2, fun t => t.stackCfgFlg, fun v t => { t with stackCfgFlg := v }⟩,
    ⟨20, 4, fun t => t.stackSize.toNat, fun v t => { t with stackSize := BitVec.ofNat 32 v }⟩,
    ⟨24, 4, fun t => t.taskPid, fun v t => { t with taskPid := v }⟩,
    ⟨32, 8, fun t => t.topOfStack.toNat, fun v t => { t with topOfStack := BitVec.ofNat 64 v }⟩,
    ⟨40, 8, fun t => t.taskEntry.toNat, fun v t => { t with taskEntry := BitVec.ofNat 64 v }⟩,
    ⟨48, 8, fun t => (t.taskSem.elim 0 A.sem).toNat,
      fun v t => { t with taskSem := if v = 0 then none else some (A.semIndex (.ofNat 64 v)) }⟩,
    ⟨152, 4, fun t => t.lastErr, fun v t => { t with lastErr := v }⟩] ++
  (List.finRange 4).map fun i => ⟨56 + 8 * i, 8, fun t => (t.args.get i).toNat,
    fun v t => { t with args := t.args.set i (BitVec.ofNat 64 v) }⟩

end KernelLayout

/-- The values of `enum SemMode`. Nothing tells a value above `SEM_MODE_BUTT` from it. -/
def SemMode.value : SemMode → Nat
  | .fifo => 0
  | .prior => 1
  | .butt => 2

def SemMode.ofValue : Nat → SemMode
  | 0 => .fifo
  | 1 => .prior
  | _ => .butt

/-- The fields of `struct TagSemCb` but for its lists. -/
def semFields : List (BlockField TagSemCb) :=
  [⟨0, 2, fun c => c.semStat, fun v c => { c with semStat := v }⟩,
    ⟨2, 2, fun c => c.semId, fun v c => { c with semId := v }⟩,
    ⟨4, 4, fun c => c.semCount, fun v c => { c with semCount := v }⟩,
    ⟨40, 4, fun c => c.semOwner, fun v c => { c with semOwner := v }⟩,
    ⟨44, 4, fun c => c.semMode.value, fun v c => { c with semMode := .ofValue v }⟩,
    ⟨48, 4, fun c => c.semType, fun v c => { c with semType := v }⟩]

/-- `INIT_LIST_OBJECT` -/
def initListObject (m : ListHeap) (object : UIntPtr) : ListHeap :=
  let m := m.setNext object object
  m.setPrev object object

/-- The zeroing of a 4K area, as far as link fields go. -/
def clearArea (m : ListHeap) (base : UIntPtr) : ListHeap := fun a =>
  if (a - base).toNat < 4096 then ⟨0, 0⟩ else m a

/-- `LIST_FOR_EACH` over a body that stops the loop at the first block for which `p` holds. -/
def listForEachStop (m : ListHeap) (listObject field : UIntPtr) (p : UIntPtr → Bool) :
    Nat → UIntPtr → Option (Option UIntPtr)
  | 0, _ => none
  | fuel + 1, pos =>
    if pos + field ≠ listObject then
      if p pos then some (some pos)
      else listForEachStop m listObject field p fuel (listComponent (m (pos + field)).next field)
    else some none

/-- The kernel in memory. The lists of `data` are not used. -/
structure HeapKernel where
  data : Kernel
  heap : ListHeap

namespace HeapKernel

def onData (x : HeapKernel) (f : Kernel → Kernel) : HeapKernel := { x with data := f x.data }

@[simp] theorem onData_id (x : HeapKernel) : x.onData (fun k => k) = x := rfl

variable (A : KernelLayout) (fuel : Nat)

/-! ## Run queue and scheduler -/

def osTskHighestSet (x : HeapKernel) : Option HeapKernel := do
  let highest ← listForEach x.heap A.runQueue offsetPendList (fun savedTaskCb taskCb =>
      match savedTaskCb with
      | none => some (A.tcbIndex taskCb)
      | some saved =>
        if x.data.priority (A.tcbIndex taskCb) < x.data.priority saved then
          some (A.tcbIndex taskCb)
        else some saved) fuel none
  return x.onData fun k => { k with highestTask := highest }

def osEnqueueTaskAmp (x : HeapKernel) (tsk : Nat) : HeapKernel :=
  { x with heap := listTailAdd x.heap (A.tcbNode tsk) A.runQueue }

def osDequeueTaskAmp (x : HeapKernel) (tsk : Nat) : HeapKernel :=
  { x with heap := listDelete x.heap (A.tcbNode tsk) }

def osTskReadyAdd (x : HeapKernel) (task : Nat) : Option HeapKernel :=
  let x := x.onData (tskStatusSet · task osTskReady)
  let x := osEnqueueTaskAmp A x task
  osTskHighestSet A fuel x

def osTskReadyAddBgd (x : HeapKernel) (task : Nat) : Option HeapKernel :=
  osTskReadyAdd A fuel x task

def osTskReadyDel (x : HeapKernel) (taskCb : Nat) : Option HeapKernel :=
  let x := x.onData (tskStatusClear · taskCb osTskReady)
  let x := osDequeueTaskAmp A x taskCb
  osTskHighestSet A fuel x

def osTskSchedule (x : HeapKernel) : Option HeapKernel := do
  let x ← osTskHighestSet A fuel x
  if x.data.highestTask ≠ some x.data.runningTask ∧ x.data.uniTaskLock = 0 then
    let x := x.onData fun k => { k with uniFlag := k.uniFlag ||| osFlgTskReq }
    return if ¬ osIntActive x.data then x.onData osTaskTrap else x
  else return x

def osTskScheduleFastPs (x : HeapKernel) : Option HeapKernel := do
  let x ← osTskHighestSet A fuel x
  if x.data.highestTask ≠ some x.data.runningTask ∧ x.data.uniTaskLock = 0 then
    let x := x.onData fun k => { k with uniFlag := k.uniFlag ||| osFlgTskReq }
    return if ¬ osIntActive x.data then x.onData osTaskTrapFastPs else x
  else return x

def osFirstTimeSwitch (x : HeapKernel) : Option HeapKernel := do
  let x ← osTskHighestSet A fuel x
  return x.onData fun k =>
    match k.highestTask with
    | none => { k with fault := true }
    | some highest => tskStatusSet { k with runningTask := highest } highest osTskRunning

def osTaskExit (x : HeapKernel) (tsk : Nat) : Option HeapKernel := do
  let x ← osTskReadyDel A fuel x tsk
  osTskSchedule A fuel x

def osTskEntryReturn (x : HeapKernel) : Option HeapKernel :=
  let x := x.onData fun k => { k with uniTaskLock := 0 }
  osTaskExit A fuel x x.data.runningTask

/-! ## Creating and resuming tasks -/

def osTaskCreateChkAndGetTcb (x : HeapKernel) : Except Nat (HeapKernel × Nat) :=
  if listEmpty x.heap A.tskCbFreeList then .error osErrnoTskTcbUnavailable
  else
    let taskCb := A.getTcbPend (x.heap A.tskCbFreeList).next
    .ok ({ x with heap := listDelete x.heap (x.heap A.tskCbFreeList).next }, taskCb)

/-- `OsTskContextInit`: the context is stored wherever the stack ends, over blocks and list heads if
they are there. A context over another variable of the kernel is not followed any further. -/
def osTskContextInit (x : HeapKernel) (stackSize : BitVec 32) (topStack funcTskEntry : UIntPtr) :
    Option (HeapKernel × UIntPtr) :=
  let stack := MiniEuler.osTskContextInit x.data.mem stackSize topStack funcTskEntry
  let words := (tskContextInit funcTskEntry).words
  if ∀ v ∈ A.vars, SpansApart v.1 v.2 stack.2 sizeofTskContext then
    some ({
      data := { x.data with
        mem := stack.1
        tskCbArray := fun p =>
          if p ≤ tskCbNum then blockAfter stack.2 words A.tcbFields (A.tcb p) (x.data.tskCbArray p)
          else x.data.tskCbArray p
        allSem := fun s =>
          if s < semCbNum then blockAfter stack.2 words semFields (A.sem s) (x.data.allSem s)
          else x.data.allSem s }
      heap := fun a =>
        { prev := wordAfter stack.2 words a (x.heap a).prev
          next := wordAfter stack.2 words (a + 8) (x.heap a).next } }, stack.2)
  else none

/-- `OsTskCreateTcbInit`, with the `INIT_LIST_OBJECT` of `pendList`. -/
def osTskCreateTcbInit (x : HeapKernel) (stackPtr : UIntPtr) (initParam : TskInitParam)
    (topStackAddr : UIntPtr) (curStackSize : BitVec 32) (taskCb : Nat) : HeapKernel where
  data := MiniEuler.osTskCreateTcbInit x.data stackPtr initParam topStackAddr curStackSize taskCb
  heap := initListObject x.heap (A.tcbNode taskCb)

def osTaskCreateOnly (x : HeapKernel) (initParam : TskInitParam) :
    Option (HeapKernel × Except Nat Nat) :=
  match osTaskCreateChkAndGetTcb A x with
  | .error ret => some (x, .error ret)
  | .ok (x, taskCb) =>
    let taskId := (x.data.tskCbArray taskCb).taskPid
    match osTaskCreateRsrcInit x.data initParam taskCb with
    | (k, .error ret) =>
      some ({ data := k, heap := listAdd x.heap (A.tcbNode taskCb) A.tskCbFreeList }, .error ret)
    | (k, .ok (topStack, curStackSize)) => do
      let x := { x with data := k }
      let (x, stackPtr) ← osTskContextInit A x curStackSize topStack x.data.osTskEntry
      let x := osTskCreateTcbInit A x stackPtr initParam topStack curStackSize taskCb
      let x := x.onData fun k =>
        k.setTcb taskCb { k.tskCbArray taskCb with taskStatus := osTskSuspend ||| osTskInuse }
      return (x, .ok taskId)

def prtTaskCreate (x : HeapKernel) (initParam : TskInitParam) :
    Option (HeapKernel × Except Nat Nat) :=
  osTaskCreateOnly A x initParam

def osMoveTaskToReady (x : HeapKernel) (taskCb : Nat) : Option HeapKernel :=
  let x := x.onData fun k =>
    if tskStatusTst k taskCb osTskDelayInterruptible then
      let k := if tskStatusTst k taskCb osTskTimeout then osTskDelayLockedDetach k taskCb else k
      tskStatusClear k taskCb (osTskTimeout ||| osTskDelayInterruptible)
    else k
  if ¬ tskStatusTst x.data taskCb osTskBlock then do
    let x ← osTskReadyAdd A fuel x taskCb
    if bgdActive x.data then osTskSchedule A fuel x else return x
  else some x

def prtTaskResume (x : HeapKernel) (taskPid : Nat) : Option (HeapKernel × Nat) :=
  let taskCb := getTcbHandle taskPid
  if tskIsUnused x.data taskCb then some (x, osErrnoTskNotCreated)
  else if tskStatusTst x.data taskCb osTskRunning ∧ x.data.uniTaskLock ≠ 0 then
    some (x, osErrnoTskActiveFailed)
  else if ¬ tskStatusTst x.data taskCb (osTskSuspend ||| osTskDelayInterruptible) then
    some (x, osErrnoTskNotSuspended)
  else do
    let x := x.onData (tskStatusClear · taskCb osTskSuspend)
    let x ← osMoveTaskToReady A fuel x taskCb
    return (x, osOk)

/-! ## Semaphores -/

def osSemCreate (x : HeapKernel) (count semType : Nat) (semMode : SemMode) (null : Bool) :
    HeapKernel × Except Nat Nat :=
  if null then (x, .error osErrnoSemPtrNull)
  else if listEmpty x.heap A.unusedSemList then (x, .error osErrnoSemAllBusy)
  else
    let unusedSem := (x.heap A.unusedSemList).next
    let x := { x with heap := listDelete x.heap unusedSem }
    let semCreated := A.getSemList unusedSem
    let x := x.onData fun k => k.setSem semCreated { k.allSem semCreated with
      semCount := count
      semStat := osSemUsed
      semMode := semMode
      semType := semType
      semOwner := osInvalidOwnerId }
    let x := { x with heap := initListObject x.heap (A.semNode semCreated) }
    (x, .ok (x.data.allSem semCreated).semId)

def prtSemCreate (x : HeapKernel) (count : Nat) (null : Bool) : HeapKernel × Except Nat Nat :=
  if count > osSemCountMax then (x, .error osErrnoSemOverflow)
  else osSemCreate A x count semTypeCount .fifo null

def osSemFindHighestWaiterPriority (x : HeapKernel) (sem : Nat) : Option Nat :=
  if listEmpty x.heap (A.semNode sem) then some 255
  else
    listForEach x.heap (A.semNode sem) offsetPendList (fun highestPrio taskCb =>
      if x.data.priority (A.tcbIndex taskCb) < highestPrio then
        x.data.priority (A.tcbIndex taskCb)
      else highestPrio) fuel 255

def osOwnerPrioritySet (x : HeapKernel) (owner : Nat) (prio : Nat) : Option HeapKernel :=
  let x := x.onData fun k => k.setTcb owner { k.tskCbArray owner with priority := prio }
  if tskStatusTst x.data owner osTskReady then do
    let x ← osTskReadyDel A fuel x owner
    osTskReadyAdd A fuel x owner
  else some x

def osPriorityInherit (x : HeapKernel) (semPended : Nat) (waiterTask : Nat) : Option HeapKernel :=
  if (x.data.allSem semPended).semOwner = osInvalidOwnerId then some x
  else
    let ownerTask := getTcbHandle (x.data.allSem semPended).semOwner
    if tskIsUnused x.data ownerTask then some x
    else do
      let highest ← osSemFindHighestWaiterPriority A fuel x semPended
      let highestWaiterPrio :=
        if x.data.priority waiterTask < highest then x.data.priority waiterTask else highest
      if x.data.priority ownerTask > highestWaiterPrio then
        let x := x.onData fun k =>
          if k.priority ownerTask = k.originalPriority ownerTask then
            k.setTcb ownerTask
              { k.tskCbArray ownerTask with originalPriority := k.priority ownerTask }
          else k
        osOwnerPrioritySet A fuel x ownerTask highestWaiterPrio
      else return x

def osPriorityRestore (x : HeapKernel) (semPosted : Nat) : Option HeapKernel :=
  if (x.data.allSem semPosted).semOwner = osInvalidOwnerId then some x
  else
    let ownerTask := getTcbHandle (x.data.allSem semPosted).semOwner
    if tskIsUnused x.data ownerTask then some x
    else if x.data.priority ownerTask = x.data.originalPriority ownerTask then some x
    else do
      let highestWaiterPrio ← osSemFindHighestWaiterPriority A fuel x semPosted
      if highestWaiterPrio < x.data.priority ownerTask then
        osOwnerPrioritySet A fuel x ownerTask highestWaiterPrio
      else osOwnerPrioritySet A fuel x ownerTask (x.data.originalPriority ownerTask)

/-- The loop of `OsSemPendListPut`: the block in front of which the caller is linked. -/
def osSemPendListPos (x : HeapKernel) (semPended runTsk : Nat) : Option (Option UIntPtr) :=
  if (x.data.allSem semPended).semMode = .prior then
    listForEachStop x.heap (A.semNode semPended) offsetPendList
      (fun cur => x.data.priority (A.tcbIndex cur) > x.data.priority runTsk) fuel
      (listComponent (x.heap (A.semNode semPended)).next offsetPendList)
  else some none

def osSemPendListPut (x : HeapKernel) (semPended : Nat) : Option HeapKernel := do
  let runTsk := x.data.runningTask
  let pendObj := A.tcbNode runTsk
  let x ← osTskReadyDel A fuel x runTsk
  let x := x.onData fun k => k.setTcb runTsk { k.tskCbArray runTsk with taskSem := some semPended }
  let x := x.onData (tskStatusSet · runTsk osTskPend)
  match ← osSemPendListPos A fuel x semPended runTsk with
  | some cur =>
    let x := { x with heap := listTailAdd x.heap pendObj (cur + offsetPendList) }
    osPriorityInherit A fuel x semPended runTsk
  | none =>
    let x := { x with heap := listTailAdd x.heap pendObj (A.semNode semPended) }
    osPriorityInherit A fuel x semPended runTsk

def prtSemPend (x : HeapKernel) (semHandle : Nat) (timeout : Nat) : Option (HeapKernel × Nat) :=
  if semHandle ≥ x.data.maxSem then some (x, osErrnoSemInvalid)
  else if (x.data.allSem semHandle).semStat = osSemUnused then some (x, osErrnoSemInvalid)
  else if osIntActive x.data then some (x, osErrnoSemPendInterr)
  else
    match osSemPendNotNeedSche x.data semHandle x.data.runningTask with
    | some k => some ({ x with data := k }, osOk)
    | none =>
      let ret := osSemPendParaCheck x.data timeout
      if ret ≠ osOk then some (x, ret)
      else do
        let x ← osSemPendListPut A fuel x semHandle
        if timeout ≠ osWaitForever then return (x, osErrnoSemFuncNotSupport)
        else
          let x ← osTskScheduleFastPs A fuel x
          return (x, osOk)

def osSemPendListGet (x : HeapKernel) (semPended : Nat) : Option (HeapKernel × Nat) := do
  let taskCb := A.getTcbPend (x.heap (A.semNode semPended)).next
  let x := { x with heap := listDelete x.heap (x.heap (A.semNode semPended)).next }
  let x := x.onData fun k =>
    if tskStatusTst k taskCb osTskTimeout then osTskDelayLockedDetach k taskCb else k
  let x := x.onData (tskStatusClear · taskCb (osTskTimeout ||| osTskPend))
  let x := x.onData fun k => k.setTcb taskCb { k.tskCbArray taskCb with taskSem := none }
  if ¬ tskStatusTst x.data taskCb osTskSuspend then
    let x ← osTskReadyAddBgd A fuel x taskCb
    return (x, taskCb)
  else return (x, taskCb)

/-- The first part of `OsSemPostSchePre`: the old owner gets its priority back. -/
def osSemPostRestore (x : HeapKernel) (semPosted : Nat) : Option HeapKernel :=
  let oldOwnerId := (x.data.allSem semPosted).semOwner
  if oldOwnerId ≠ osInvalidOwnerId then
    if ¬ tskIsUnused x.data (getTcbHandle oldOwnerId) then osPriorityRestore A fuel x semPosted
    else some x
  else some x

def osSemPostSchePre (x : HeapKernel) (semPosted : Nat) : Option HeapKernel := do
  let x ← osSemPostRestore A fuel x semPosted
  let (x, resumedTask) ← osSemPendListGet A fuel x semPosted
  return x.onData fun k => k.setSem semPosted
    { k.allSem semPosted with semOwner := (k.tskCbArray resumedTask).taskPid }

def prtSemPost (x : HeapKernel) (semHandle : Nat) : Option (HeapKernel × Nat) :=
  if semHandle ≥ x.data.maxSem then some (x, osErrnoSemInvalid)
  else
    let ret := osSemPostErrorCheck x.data semHandle
    if ret ≠ osOk then some (x, ret)
    else if osSemPostIsInvalid x.data semHandle then some (x, osOk)
    else if ¬ listEmpty x.heap (A.semNode semHandle) then do
      let x ← osSemPostSchePre A fuel x semHandle
      let x ← osTskScheduleFastPs A fuel x
      return (x, osOk)
    else do
      let x ← osPriorityRestore A fuel x semHandle
      let x := x.onData fun k => k.setSem semHandle { k.allSem semHandle with
        semCount := ((k.allSem semHandle).semCount + 1) % 2 ^ 32 }
      let x := x.onData fun k =>
        k.setSem semHandle { k.allSem semHandle with semOwner := osInvalidOwnerId }
      return (x, osOk)

/-! ## Initialisation -/

/-- The kernel before any of its code has run, with anything in memory. -/
def reset (mem : ByteMem) (heap : ListHeap) : HeapKernel :=
  ⟨kernelReset A.stackMem A.osTskEntry mem, heap⟩

def osTskAMPInitTcb (x : HeapKernel) (idx : Nat) : HeapKernel where
  data := x.data.setTcb idx { x.data.tskCbArray idx with
    taskStatus := osTskUnused, taskPid := idx + tskBaseId }
  heap := listTailAdd x.heap (A.tcbNode idx) A.tskCbFreeList

def osTskAMPInit (x : HeapKernel) : Except Nat HeapKernel :=
  match osMemAllocAlign x.data 4096 osTskStackSizeAllocAlign with
  | (_, none) => .error osErrnoTskNoMemory
  | (k, some _) =>
    let x : HeapKernel :=
      { data := { k with tskMaxNum := 4096 / sizeofTagTskCb - 2, tskCbArray := fun _ => {} }
        heap := initListObject (clearArea x.heap A.tskCbArray) A.tskCbFreeList }
    let x := (List.range (osMaxTcbNum x.data - 1)).foldl (osTskAMPInitTcb A) x
    let x := { x with heap := initListObject x.heap A.runQueue }
    let x := x.onData fun k => { k with runningTask := osPstZombieTask k }
    .ok (x.onData fun k => k.setTcb k.runningTask { k.tskCbArray k.runningTask with
      taskPid := osMaxTcbNum k - 1 + tskBaseId
      taskStatus := osTskInuse ||| osTskRunning
      priority := osTskPriorityLowest + 1 })

def osTskInit (x : HeapKernel) : Except Nat HeapKernel := osTskAMPInit A x

def osSemInitNode (x : HeapKernel) (idx : Nat) : HeapKernel where
  data := x.data.setSem idx { x.data.allSem idx with semId := idx }
  heap := listTailAdd x.heap (A.semNode idx) A.unusedSemList

def osSemInit (x : HeapKernel) : Except Nat HeapKernel :=
  match osMemAllocAlign x.data 4096 osSemAddrAllocAlign with
  | (_, none) => .error osErrnoSemNoMemory
  | (k, some _) =>
    let x : HeapKernel :=
      { data := { k with maxSem := 4096 / sizeofTagSemCb, allSem := fun _ => {} }
        heap := initListObject (clearArea x.heap A.allSem) A.unusedSemList }
    .ok ((List.range x.data.maxSem).foldl (osSemInitNode A) x)

def osIdleTskAMPCreate (x : HeapKernel) (osTskIdleBgd : UIntPtr) :
    Option (Except Nat HeapKernel) := do
  match ← prtTaskCreate A x { taskEntry := osTskIdleBgd, taskPrio := osTskPriorityLowest } with
  | (_, .error ret) => return .error ret
  | (x, .ok taskHdl) =>
    let (x, ret) ← prtTaskResume A fuel x taskHdl
    return if ret ≠ osOk then .error ret
      else .ok (x.onData fun k => { k with idleTaskId := taskHdl })

def osActivate (x : HeapKernel) (osTskIdleBgd : UIntPtr) : Option (Except Nat HeapKernel) := do
  match ← osIdleTskAMPCreate A fuel x osTskIdleBgd with
  | .error ret => return .error ret
  | .ok x =>
    let x ← osTskHighestSet A fuel x
    let x := x.onData fun k =>
      { k with uniFlag := k.uniFlag ||| (osFlgBgdActive ||| osFlgTskReq) }
    return .ok (← osFirstTimeSwitch A fuel x)

/-! ## As a machine -/

/-- The state after a call and the code it returns. -/
def exec (x : HeapKernel) : Op → Option (HeapKernel × Nat)
  | .taskCreate initParam => do
    let (x, r) ← prtTaskCreate A x initParam
    return (x, retOf r)
  | .taskResume taskPid => prtTaskResume A fuel x taskPid
  | .semCreate count null =>
    some ((prtSemCreate A x count null).1, retOf (prtSemCreate A x count null).2)
  | .osSemCreate count semType semMode null =>
    some ((osSemCreate A x count semType semMode null).1,
      retOf (osSemCreate A x count semType semMode null).2)
  | .semPend semHandle timeout => prtSemPend A fuel x semHandle timeout
  | .semPost semHandle => prtSemPost A fuel x semHandle
  | .uartPost semHandle => prtSemPost A fuel x semHandle
  | .taskExit => do return (← osTskEntryReturn A fuel x, osOk)
  | .activate osTskIdleBgd => do
    match ← osActivate A fuel x osTskIdleBgd with
    | .ok x => return (x, osOk)
    | .error ret => return (x, ret)

end HeapKernel

end MiniEuler
