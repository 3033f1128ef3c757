import Mathlib.Data.BitVec
import MiniEuler.Library.Bytes
import MiniEuler.Library.NodeLists

/-! The data of the kernel: task control blocks, semaphore blocks, the lists
linked through `pendList`, and the globals of `prt_sys.c`. A pointer to a block
is its index in the array, a list is the sequence of the blocks linked on it,
and a handle, a priority or a count is a `Nat`.
Every call runs from `OsIntLock` to `OsIntRestore` with interrupts masked, so a
call is one step of this state; the mask itself is not part of it. -/

namespace MiniEuler
open Library

abbrev UIntPtr := BitVec 64

/-! ## Return codes -/

def osErrnoBuildError (mid errno : Nat) : Nat := 0x02000000 ||| (mid <<< 8) ||| errno

def osMidTsk : Nat := 0x3
def osMidSem : Nat := 0x7

def osOk : Nat := 0
def osErrnoTskNoMemory : Nat := osErrnoBuildError osMidTsk 0x01
def osErrnoTskNotSuspended : Nat := osErrnoBuildError osMidTsk 0x0a
def osErrnoTskNotCreated : Nat := osErrnoBuildError osMidTsk 0x0b
def osErrnoTskTcbUnavailable : Nat := osErrnoBuildError osMidTsk 0x11
def osErrnoTskActiveFailed : Nat := osErrnoBuildError osMidTsk 0x14
def osErrnoSemNoMemory : Nat := osErrnoBuildError osMidSem 0x01
def osErrnoSemInvalid : Nat := osErrnoBuildError osMidSem 0x02
def osErrnoSemPtrNull : Nat := osErrnoBuildError osMidSem 0x03
def osErrnoSemAllBusy : Nat := osErrnoBuildError osMidSem 0x04
def osErrnoSemUnavailable : Nat := osErrnoBuildError osMidSem 0x05
def osErrnoSemPendInterr : Nat := osErrnoBuildError osMidSem 0x06
def osErrnoSemPendInLock : Nat := osErrnoBuildError osMidSem 0x07
def osErrnoSemOverflow : Nat := osErrnoBuildError osMidSem 0x09
def osErrnoSemFuncNotSupport : Nat := osErrnoBuildError osMidSem 0x12

/-! ## Configuration -/

def osTskPriorityLowest : Nat := 63
def osNoWait : Nat := 0
def osWaitForever : Nat := 0xFFFFFFFF
def osSemFull : Nat := 1
def osSemCountMax : Nat := 0xFFFFFFFE
def osInvalidOwnerId : Nat := 0xFFFFFFFE
def osSemUnused : Nat := 0
def osSemUsed : Nat := 1
def semTypeCount : Nat := 0
def semTypeBin : Nat := 1
def osTskStackCfgByUser : Nat := 1
def osTskStackCfgBySys : Nat := 0
def osTskStackSizeAllocAlign : Nat := 4
def osSemAddrAllocAlign : Nat := 2

/-- `sizeof` of the two control blocks and of a saved context on AArch64. -/
def sizeofTagTskCb : Nat := 168
def sizeofTagSemCb : Nat := 56
def sizeofTskContext : Nat := 288

/-- The number of 4K areas in `stackMem`. -/
def stackMemNum : Nat := 20

/-! ## Status bits -/

def osTskUnused : BitVec 32 := 0x0000
def osTskInuse : BitVec 32 := 0x0001
def osTskSuspend : BitVec 32 := 0x0004
def osTskPend : BitVec 32 := 0x0008
def osTskTimeout : BitVec 32 := 0x0010
def osTskDelay : BitVec 32 := 0x0020
def osTskReady : BitVec 32 := 0x0040
def osTskRunning : BitVec 32 := 0x0080
def osTskEventPend : BitVec 32 := 0x0800
def osTskQueuePend : BitVec 32 := 0x2000
def osTskDelayInterruptible : BitVec 32 := 0x8000
def osTskWaitqueuePend : BitVec 32 := 0x10000
def osTskBlock : BitVec 32 :=
  osTskDelay ||| osTskPend ||| osTskSuspend ||| osTskQueuePend ||| osTskEventPend |||
    osTskWaitqueuePend

def osFlgHwiActive : BitVec 32 := 0x0001
def osFlgBgdActive : BitVec 32 := 0x0002
def osFlgTickActive : BitVec 32 := 0x0008
def osFlgSysActive : BitVec 32 := 0x0010
def osFlgExcActive : BitVec 32 := 0x0020
def osFlgTskReq : BitVec 32 := 0x1000
def osIntActiveMask : BitVec 32 :=
  osFlgHwiActive ||| osFlgTickActive ||| osFlgSysActive ||| osFlgExcActive

/-! ## Control blocks -/

/-- A task control block. `stackPointer` is the value written at creation; what
a context switch stores there belongs to the register state. -/
structure TagTskCb where
  stackPointer : UIntPtr := 0
  taskStatus : BitVec 32 := 0
  priority : Nat := 0
  originalPriority : Nat := 0
  stackCfgFlg : Nat := 0
  stackSize : BitVec 32 := 0
  taskPid : Nat := 0
  topOfStack : UIntPtr := 0
  taskEntry : UIntPtr := 0
  taskSem : Option Nat := none
  args : Vector UIntPtr 4 := Vector.replicate 4 0
  lastErr : Nat := 0
  deriving DecidableEq, Repr

inductive SemMode
  | fifo
  | prior
  | butt
  deriving DecidableEq, Repr

structure TagSemCb where
  semStat : Nat := 0
  semId : Nat := 0
  semCount : Nat := 0
  semOwner : Nat := 0
  semMode : SemMode := .fifo
  semType : Nat := 0
  deriving DecidableEq, Repr

structure TskContext where
  elr : BitVec 64
  spsr : BitVec 64
  far : BitVec 64
  esr : BitVec 64
  xzr : BitVec 64
  x30 : BitVec 64
  x29 : BitVec 64
  x28 : BitVec 64
  x27 : BitVec 64
  x26 : BitVec 64
  x25 : BitVec 64
  x24 : BitVec 64
  x23 : BitVec 64
  x22 : BitVec 64
  x21 : BitVec 64
  x20 : BitVec 64
  x19 : BitVec 64
  x18 : BitVec 64
  x17 : BitVec 64
  x16 : BitVec 64
  x15 : BitVec 64
  x14 : BitVec 64
  x13 : BitVec 64
  x12 : BitVec 64
  x11 : BitVec 64
  x10 : BitVec 64
  x09 : BitVec 64
  x08 : BitVec 64
  x07 : BitVec 64
  x06 : BitVec 64
  x05 : BitVec 64
  x04 : BitVec 64
  x03 : BitVec 64
  x02 : BitVec 64
  x01 : BitVec 64
  x00 : BitVec 64
  deriving DecidableEq, Repr

/-- The fields in the order of their offsets. -/
def TskContext.words (c : TskContext) : List (BitVec 64) :=
  [c.elr, c.spsr, c.far, c.esr, c.xzr, c.x30, c.x29, c.x28, c.x27, c.x26, c.x25, c.x24, c.x23,
    c.x22, c.x21, c.x20, c.x19, c.x18, c.x17, c.x16, c.x15, c.x14, c.x13, c.x12, c.x11, c.x10,
    c.x09, c.x08, c.x07, c.x06, c.x05, c.x04, c.x03, c.x02, c.x01, c.x00]

/-- The list heads a `pendList` node can be linked to. -/
inductive ListHead
  | tskCbFreeList
  | runQueue
  | semList (sem : Nat)
  deriving DecidableEq, Repr

structure TskInitParam where
  taskEntry : UIntPtr := 0
  taskPrio : Nat
  args : Vector UIntPtr 4 := Vector.replicate 4 0
  stackSize : BitVec 32 := 4096
  stackAddr : UIntPtr := 0
  deriving DecidableEq, Repr

/-- `stackMem` is the address of the stack areas and `osTskEntry` that of `OsTskEntry`; `mem` is
the memory that stacks are laid in, which here has no address in common with blocks, list heads
and globals. `fault` records that the code followed a pointer that names no block: NULL, or the
head of an empty list. -/
structure Kernel where
  tskCbArray : Nat → TagTskCb
  lists : NodeLists ListHead Nat
  allSem : Nat → TagSemCb
  unusedSemList : List Nat
  runningTask : Nat
  highestTask : Option Nat
  idleTaskId : Nat
  uniFlag : BitVec 32
  uniTaskLock : Nat
  tskMaxNum : Nat
  maxSem : Nat
  stackMem : UIntPtr
  stackMemUsed : Nat → Bool
  osTskEntry : UIntPtr
  mem : ByteMem
  fault : Bool

namespace Kernel

def setTcb (k : Kernel) (p : Nat) (t : TagTskCb) : Kernel :=
  { k with tskCbArray := Function.update k.tskCbArray p t }

def setSem (k : Kernel) (s : Nat) (c : TagSemCb) : Kernel :=
  { k with allSem := Function.update k.allSem s c }

abbrev runQueue (k : Kernel) : List Nat := k.lists .runQueue

abbrev tskCbFreeList (k : Kernel) : List Nat := k.lists .tskCbFreeList

abbrev semList (k : Kernel) (s : Nat) : List Nat := k.lists (.semList s)

abbrev priority (k : Kernel) (p : Nat) : Nat := (k.tskCbArray p).priority

abbrev originalPriority (k : Kernel) (p : Nat) : Nat := (k.tskCbArray p).originalPriority

end Kernel

/-! ## Macros of `prt_task_external.h` -/

def tskBaseId : Nat := 0
def tskGetIndex (taskId : Nat) : Nat := taskId - tskBaseId

/-- `GET_TCB_HANDLE`: never NULL, since it is the array base plus an index. -/
def getTcbHandle (taskPid : Nat) : Nat := tskGetIndex taskPid

@[simp] theorem getTcbHandle_eq (p : Nat) : getTcbHandle p = p := rfl

def osMaxTcbNum (k : Kernel) : Nat := k.tskMaxNum + 1 + 1

def osPstZombieTask (k : Kernel) : Nat := osMaxTcbNum k - 1

def tskIsUnused (k : Kernel) (p : Nat) : Prop := (k.tskCbArray p).taskStatus = osTskUnused

instance (k : Kernel) (p : Nat) : Decidable (tskIsUnused k p) :=
  inferInstanceAs (Decidable (_ = _))

def tskStatusTst (k : Kernel) (p : Nat) (statBit : BitVec 32) : Prop :=
  (k.tskCbArray p).taskStatus &&& statBit ≠ 0

instance (k : Kernel) (p : Nat) (statBit : BitVec 32) :
    Decidable (tskStatusTst k p statBit) :=
  inferInstanceAs (Decidable (_ ≠ _))

theorem tskStatusTst_twoPow (k : Kernel) (p : Nat) {i : Nat} (hi : i < 32) :
    tskStatusTst k p (BitVec.twoPow 32 i) ↔ (k.tskCbArray p).taskStatus.getLsbD i = true := by
  have hne : BitVec.twoPow 32 i ≠ 0 := by
    intro h
    have hbit := congrArg (fun b => b.getLsbD i) h
    simp [hi] at hbit
  rw [tskStatusTst, BitVec.and_twoPow]
  split
  · exact iff_of_true hne ‹_›
  · exact iff_of_false (by simp) ‹_›

def tskStatusSet (k : Kernel) (p : Nat) (statBit : BitVec 32) : Kernel :=
  k.setTcb p { k.tskCbArray p with taskStatus := (k.tskCbArray p).taskStatus ||| statBit }

def tskStatusClear (k : Kernel) (p : Nat) (statBit : BitVec 32) : Kernel :=
  k.setTcb p { k.tskCbArray p with taskStatus := (k.tskCbArray p).taskStatus &&& ~~~statBit }

/-- `OS_TSK_DELAY_LOCKED_DETACH` unlinks `timerList`, a node no list of this
state goes through. -/
def osTskDelayLockedDetach (k : Kernel) (_task : Nat) : Kernel := k

def osIntActive (k : Kernel) : Prop := k.uniFlag &&& osIntActiveMask ≠ 0

instance (k : Kernel) : Decidable (osIntActive k) := inferInstanceAs (Decidable (_ ≠ _))

/-- Multitasking has been started: `OS_FLG_BGD_ACTIVE` is set. -/
def bgdActive (k : Kernel) : Prop := osFlgBgdActive &&& k.uniFlag ≠ 0

instance (k : Kernel) : Decidable (bgdActive k) := inferInstanceAs (Decidable (_ ≠ _))

end MiniEuler
