import MiniEuler.Library.MaskedProg
import MiniEuler.Kernel.Calls

/-! The IRQ mask. Every call saves, sets and restores the I bit of DAIF by hand on each of its
ways out, and a call that `OsTaskTrap` switches out gets the bit back from the SPSR in the context
of its task. Here the calls are programs that can be interrupted and switched out between any two
steps. A function that neither masks nor schedules is one step of its caller's. -/

namespace MiniEuler
open Library

/-! ## `PRT_HwiLock` and `PRT_HwiRestore` -/

def daifIrqBit : UIntPtr := 1 <<< 1
def intMask : UIntPtr := 1 <<< 7

/-- The bits of DAIF, and those of SPSR that `ERET` moves there. -/
def daifBits : UIntPtr := 0b1111 <<< 6

/-- `MSR DAIFSet, imm` and `MSR DAIFClr, imm`. -/
def msrDaifSet (imm daif : UIntPtr) : UIntPtr := daif ||| imm <<< 6

def msrDaifClr (imm daif : UIntPtr) : UIntPtr := daif &&& ~~~(imm <<< 6)

def irqMasked (daif : UIntPtr) : Bool := daif &&& intMask ≠ 0

/-- The new DAIF and the value returned. -/
def prtHwiLock (daif : UIntPtr) : UIntPtr × UIntPtr :=
  (msrDaifSet daifIrqBit daif, daif &&& intMask)

def prtHwiUnLock (daif : UIntPtr) : UIntPtr × UIntPtr :=
  (msrDaifClr daifIrqBit daif, daif &&& intMask)

def prtHwiRestore (intSave daif : UIntPtr) : UIntPtr :=
  if intSave &&& intMask = 0 then msrDaifClr daifIrqBit daif else msrDaifSet daifIrqBit daif

theorem irqMasked_eq (daif : UIntPtr) : irqMasked daif = daif.getLsbD 7 := by
  have h : intMask = BitVec.twoPow 64 7 := by decide
  rw [irqMasked, h, BitVec.and_twoPow]
  cases daif.getLsbD 7 <;> decide

theorem irqMasked_msrDaifSet (daif : UIntPtr) : irqMasked (msrDaifSet daifIrqBit daif) = true := by
  simp [irqMasked_eq, msrDaifSet, daifIrqBit]

theorem irqMasked_msrDaifClr (daif : UIntPtr) :
    irqMasked (msrDaifClr daifIrqBit daif) = false := by
  simp [irqMasked_eq, msrDaifClr, daifIrqBit]

/-- DAIF as a register with a mask bit. -/
def daifReg : MaskReg UIntPtr UIntPtr where
  masked := irqMasked
  lock := fun daif => (prtHwiLock daif).1
  save := fun daif => (prtHwiLock daif).2
  restore := prtHwiRestore
  bitOf := irqMasked
  masked_lock := irqMasked_msrDaifSet
  bitOf_save := fun daif => by simp [prtHwiLock, irqMasked, BitVec.and_assoc]
  masked_restore := fun intSave daif => by
    unfold prtHwiRestore
    split
    · rename_i h
      rw [irqMasked_msrDaifClr]
      simp [irqMasked, h]
    · rename_i h
      rw [irqMasked_msrDaifSet]
      exact (decide_eq_true h).symm

/-! ## The calls as programs -/

abbrev Code (α : Type) := Prog Kernel UIntPtr Nat α

namespace Code

def osIntLock : Code UIntPtr := .lock .ret

def osIntRestore (intSave : UIntPtr) : Code Unit := .restore intSave (.ret ())

def get : Code Kernel := .read .ret

def modify (f : Kernel → Kernel) : Code Unit := .write f (.ret ())

/-- A call of a function that neither masks nor schedules. -/
def inner {α : Type} (f : Kernel → Kernel × α) : Code α :=
  .read fun k => .write (fun k => (f k).1) (.ret (f k).2)

def osTskContextInit (taskCb : Nat) (stackSize : BitVec 32) (topStack : UIntPtr) :
    Code UIntPtr := do
  let k ← get
  let stack := MiniEuler.osTskContextInit k.mem stackSize topStack k.osTskEntry
  modify fun k => { k with mem := stack.1 }
  .spawn taskCb (.ret stack.2)

def osTaskTrap : Code Unit := .yield MiniEuler.osTaskTrap (.ret ())

def osTaskTrapFastPs (_intSave : UIntPtr) : Code Unit := osTaskTrap

def osTskSchedule : Code Unit := do
  modify osTskHighestSet
  let k ← get
  if k.highestTask ≠ some k.runningTask ∧ k.uniTaskLock = 0 then
    modify fun k => { k with uniFlag := k.uniFlag ||| osFlgTskReq }
    if ¬ osIntActive (← get) then
      osTaskTrap

def osTskScheduleFastPs (intSave : UIntPtr) : Code Unit := do
  modify osTskHighestSet
  let k ← get
  if k.highestTask ≠ some k.runningTask ∧ k.uniTaskLock = 0 then
    modify fun k => { k with uniFlag := k.uniFlag ||| osFlgTskReq }
    if ¬ osIntActive (← get) then
      osTaskTrapFastPs intSave

def osTaskCreateChkAndGetTcb : Code (Except Nat Nat) := do
  match (← get).tskCbFreeList with
  | [] => return .error osErrnoTskTcbUnavailable
  | taskCb :: _ =>
    modify fun k => { k with lists := k.lists.delete taskCb }
    return .ok taskCb

def osTaskCreateOnly (initParam : TskInitParam) : Code (Except Nat Nat) := do
  let intSave ← osIntLock
  match ← osTaskCreateChkAndGetTcb with
  | .error ret =>
    osIntRestore intSave
    return .error ret
  | .ok taskCb =>
    let taskId := ((← get).tskCbArray taskCb).taskPid
    match ← inner (osTaskCreateRsrcInit · initParam taskCb) with
    | .error ret =>
      modify fun k => { k with lists := k.lists.headAdd taskCb .tskCbFreeList }
      osIntRestore intSave
      return .error ret
    | .ok (topStack, curStackSize) =>
      let stackPtr ← osTskContextInit taskCb curStackSize topStack
      modify (osTskCreateTcbInit · stackPtr initParam topStack curStackSize taskCb)
      modify fun k => k.setTcb taskCb
        { k.tskCbArray taskCb with taskStatus := osTskSuspend ||| osTskInuse }
      osIntRestore intSave
      return .ok taskId

def prtTaskCreate (initParam : TskInitParam) : Code (Except Nat Nat) := osTaskCreateOnly initParam

def osMoveTaskToReady (taskCb : Nat) : Code Unit := do
  if tskStatusTst (← get) taskCb osTskDelayInterruptible then
    if tskStatusTst (← get) taskCb osTskTimeout then
      modify (osTskDelayLockedDetach · taskCb)
    modify (tskStatusClear · taskCb (osTskTimeout ||| osTskDelayInterruptible))
  if ¬ tskStatusTst (← get) taskCb osTskBlock then
    modify (osTskReadyAdd · taskCb)
    if bgdActive (← get) then
      osTskSchedule

def prtTaskResume (taskPid : Nat) : Code Nat := do
  let taskCb := getTcbHandle taskPid
  let intSave ← osIntLock
  if tskIsUnused (← get) taskCb then
    osIntRestore intSave
    return osErrnoTskNotCreated
  let k ← get
  if tskStatusTst k taskCb osTskRunning ∧ k.uniTaskLock ≠ 0 then
    osIntRestore intSave
    return osErrnoTskActiveFailed
  if ¬ tskStatusTst (← get) taskCb (osTskSuspend ||| osTskDelayInterruptible) then
    osIntRestore intSave
    return osErrnoTskNotSuspended
  modify (tskStatusClear · taskCb osTskSuspend)
  osMoveTaskToReady taskCb
  osIntRestore intSave
  return osOk

def osSemCreate (count semType : Nat) (semMode : SemMode) (null : Bool) :
    Code (Except Nat Nat) := do
  if null then
    return .error osErrnoSemPtrNull
  let intSave ← osIntLock
  match (← get).unusedSemList with
  | [] =>
    osIntRestore intSave
    return .error osErrnoSemAllBusy
  | unusedSem :: rest =>
    modify fun k => { k with unusedSemList := rest }
    modify fun k => k.setSem unusedSem { k.allSem unusedSem with
      semCount := count
      semStat := osSemUsed
      semMode := semMode
      semType := semType
      semOwner := osInvalidOwnerId }
    modify fun k => { k with lists := Function.update k.lists (.semList unusedSem) [] }
    let semHandle := ((← get).allSem unusedSem).semId
    osIntRestore intSave
    return .ok semHandle

def prtSemCreate (count : Nat) (null : Bool) : Code (Except Nat Nat) := do
  if count > osSemCountMax then
    return .error osErrnoSemOverflow
  osSemCreate count semTypeCount .fifo null

def prtSemPend (semHandle timeout : Nat) : Code Nat := do
  if semHandle ≥ (← get).maxSem then
    return osErrnoSemInvalid
  let intSave ← osIntLock
  if ((← get).allSem semHandle).semStat = osSemUnused then
    osIntRestore intSave
    return osErrnoSemInvalid
  if osIntActive (← get) then
    osIntRestore intSave
    return osErrnoSemPendInterr
  let k ← get
  if (osSemPendNotNeedSche k semHandle k.runningTask).isSome then
    modify fun k => (osSemPendNotNeedSche k semHandle k.runningTask).getD k
    osIntRestore intSave
    return osOk
  let ret := osSemPendParaCheck (← get) timeout
  if ret ≠ osOk then
    osIntRestore intSave
    return ret
  modify (osSemPendListPut · semHandle)
  if timeout ≠ osWaitForever then
    osIntRestore intSave
    return osErrnoSemFuncNotSupport
  else
    osTskScheduleFastPs intSave
  osIntRestore intSave
  return osOk

def prtSemPost (semHandle : Nat) : Code Nat := do
  if semHandle ≥ (← get).maxSem then
    return osErrnoSemInvalid
  let intSave ← osIntLock
  let ret := osSemPostErrorCheck (← get) semHandle
  if ret ≠ osOk then
    osIntRestore intSave
    return ret
  if osSemPostIsInvalid (← get) semHandle then
    osIntRestore intSave
    return osOk
  if (← get).semList semHandle ≠ [] then
    modify (osSemPostSchePre · semHandle)
    osTskScheduleFastPs intSave
  else
    modify (osPriorityRestore · semHandle)
    modify fun k => k.setSem semHandle { k.allSem semHandle with
      semCount := ((k.allSem semHandle).semCount + 1) % 2 ^ 32 }
    modify fun k => k.setSem semHandle { k.allSem semHandle with semOwner := osInvalidOwnerId }
  osIntRestore intSave
  return osOk

def osTaskExit (tsk : Nat) : Code Unit := do
  let intSave ← osIntLock
  modify (osTskReadyDel · tsk)
  osTskSchedule
  osIntRestore intSave

/-- The part of `OsTskEntry` after the task's own entry function has returned. -/
def osTskEntryReturn : Code Unit := do
  let taskCb := (← get).runningTask
  let intSave ← osIntLock
  modify fun k => { k with uniTaskLock := 0 }
  osIntRestore intSave
  osTaskExit taskCb

end Code

/-- The program of a call and the code it returns. `OsActivate` is not one: it does not return. -/
def Op.code : Op → Option (Code Nat)
  | .taskCreate initParam => some ((Code.prtTaskCreate initParam).bind fun r => .ret (retOf r))
  | .taskResume taskPid => some (Code.prtTaskResume taskPid)
  | .semCreate count null => some ((Code.prtSemCreate count null).bind fun r => .ret (retOf r))
  | .osSemCreate count semType semMode null =>
    some ((Code.osSemCreate count semType semMode null).bind fun r => .ret (retOf r))
  | .semPend semHandle timeout => some (Code.prtSemPend semHandle timeout)
  | .semPost semHandle => some (Code.prtSemPost semHandle)
  | .uartPost semHandle => some (Code.prtSemPost semHandle)
  | .taskExit => some (Code.osTskEntryReturn.bind fun _ => .ret osOk)
  | .activate _ => none

/-! ## Not interrupted, a program does what the call does -/

namespace Code

variable {α β : Type} {daif : UIntPtr} {k : Kernel}

/-- What a program does when it is not interrupted. -/
abbrev run (c : Code α) (daif : UIntPtr) (k : Kernel) : Kernel × α := c.exec daifReg daif k

theorem run_bind (c : Code α) (next : α → Code β) : (c.bind next).exec daifReg daif k =
    (next (c.run daif k).2).exec daifReg (c.regAfter daifReg daif k) (c.run daif k).1 :=
  Prog.exec_bind daifReg c next daif k

@[simp] theorem run_osTskSchedule :
    osTskSchedule.run daif k = (MiniEuler.osTskSchedule k, ()) := by
  simp only [run, osTskSchedule, MiniEuler.osTskSchedule, modify, get, osTaskTrap, Prog.bind_eq,
    Prog.bind, Prog.exec, Prog.exec_ite, Prog.pure_eq]
  split
  · split <;> rfl
  · rfl

theorem osTskScheduleFastPs_eq (intSave : UIntPtr) : osTskScheduleFastPs intSave = osTskSchedule :=
  rfl

@[simp] theorem run_osMoveTaskToReady (taskCb : Nat) :
    (osMoveTaskToReady taskCb).run daif k = (MiniEuler.osMoveTaskToReady k taskCb, ()) := by
  simp only [run, osMoveTaskToReady, MiniEuler.osMoveTaskToReady, modify, get, Prog.bind_eq,
    Prog.bind, Prog.exec, Prog.exec_ite, Prog.pure_eq, run_osTskSchedule]
  by_cases hdelay : tskStatusTst k taskCb osTskDelayInterruptible
  · simp only [hdelay, ↓reduceIte]
    split
    · split
      · split <;> rfl
      · rfl
    · split
      · split <;> rfl
      · rfl
  · simp only [hdelay, ↓reduceIte]
    split
    · split <;> rfl
    · rfl

theorem run_prtTaskCreate (initParam : TskInitParam) :
    (prtTaskCreate initParam).run daif k = MiniEuler.prtTaskCreate k initParam := by
  simp only [run, prtTaskCreate, MiniEuler.prtTaskCreate, osTaskCreateOnly,
    MiniEuler.osTaskCreateOnly, osTaskCreateChkAndGetTcb, MiniEuler.osTaskCreateChkAndGetTcb,
    osIntLock, osIntRestore, inner, osTskContextInit, modify, get, Prog.bind_eq, Prog.bind,
    Prog.exec, Prog.pure_eq]
  cases k.tskCbFreeList with
  | nil => simp [Prog.bind, Prog.exec]
  | cons taskCb rest =>
    simp only [Prog.bind, Prog.exec]
    rcases MiniEuler.osTaskCreateRsrcInit { k with lists := k.lists.delete taskCb } initParam
      taskCb with ⟨k', ret | stack⟩ <;> rfl

theorem run_prtTaskResume (taskPid : Nat) :
    (prtTaskResume taskPid).run daif k = MiniEuler.prtTaskResume k taskPid := by
  simp only [run, prtTaskResume, MiniEuler.prtTaskResume, osIntLock, osIntRestore, modify, get,
    Prog.bind_eq, Prog.bind, Prog.exec, Prog.exec_ite, Prog.pure_eq, run_bind,
    run_osMoveTaskToReady]

theorem run_osSemCreate (count semType : Nat) (semMode : SemMode) (null : Bool) :
    (osSemCreate count semType semMode null).run daif k =
      MiniEuler.osSemCreate k count semType semMode null := by
  simp only [run, osSemCreate, MiniEuler.osSemCreate, osIntLock, osIntRestore, modify, get,
    Prog.bind_eq, Prog.bind, Prog.exec, Prog.exec_ite, Prog.pure_eq]
  cases k.unusedSemList <;> rfl

theorem run_prtSemCreate (count : Nat) (null : Bool) :
    (prtSemCreate count null).run daif k = MiniEuler.prtSemCreate k count null := by
  unfold prtSemCreate MiniEuler.prtSemCreate
  split
  · rfl
  · exact run_osSemCreate count semTypeCount .fifo null

theorem run_prtSemPend (semHandle timeout : Nat) :
    (prtSemPend semHandle timeout).run daif k = MiniEuler.prtSemPend k semHandle timeout := by
  simp only [run, prtSemPend, MiniEuler.prtSemPend, osIntLock, osIntRestore, modify, get,
    Prog.bind_eq, Prog.bind, Prog.exec, Prog.exec_ite, Prog.pure_eq, run_bind,
    osTskScheduleFastPs_eq, MiniEuler.osTskScheduleFastPs_eq, run_osTskSchedule]
  cases osSemPendNotNeedSche k semHandle k.runningTask <;> rfl

theorem run_prtSemPost (semHandle : Nat) :
    (prtSemPost semHandle).run daif k = MiniEuler.prtSemPost k semHandle := by
  simp only [run, prtSemPost, MiniEuler.prtSemPost, osIntLock, osIntRestore, modify, get,
    Prog.bind_eq, Prog.bind, Prog.exec, Prog.exec_ite, Prog.pure_eq, run_bind,
    osTskScheduleFastPs_eq, MiniEuler.osTskScheduleFastPs_eq, run_osTskSchedule]

theorem run_osTskEntryReturn :
    osTskEntryReturn.run daif k = (MiniEuler.osTskEntryReturn k, ()) := by
  simp only [run, osTskEntryReturn, MiniEuler.osTskEntryReturn, osTaskExit, MiniEuler.osTaskExit,
    osIntLock, osIntRestore, modify, get, Prog.bind_eq, Prog.bind, Prog.exec]
  simp [run_bind, Prog.exec]

end Code

/-- **The program of a call does what the call does.** -/
theorem Op.code_run {op : Op} {c : Code Nat} (h : op.code = some c) (daif : UIntPtr)
    (k : Kernel) : c.run daif k = op.exec k := by
  cases op with
  | activate _ => cases h
  | taskCreate initParam =>
    cases h
    simp [Code.run, Code.run_bind, Code.run_prtTaskCreate, Prog.exec, Op.exec]
  | taskResume taskPid =>
    cases h
    exact Code.run_prtTaskResume taskPid
  | semCreate count null =>
    cases h
    simp [Code.run, Code.run_bind, Code.run_prtSemCreate, Prog.exec, Op.exec]
  | osSemCreate count semType semMode null =>
    cases h
    simp [Code.run, Code.run_bind, Code.run_osSemCreate, Prog.exec, Op.exec]
  | semPend semHandle timeout =>
    cases h
    exact Code.run_prtSemPend semHandle timeout
  | semPost semHandle =>
    cases h
    exact Code.run_prtSemPost semHandle
  | uartPost semHandle =>
    cases h
    exact Code.run_prtSemPost semHandle
  | taskExit =>
    cases h
    simp [Code.run, Code.run_bind, Code.run_osTskEntryReturn, Prog.exec, Op.exec]

/-! ## Every call is balanced -/

section
variable {k : Kernel}

@[simp] theorem runningTask_osTskReadyAdd (p : Nat) :
    (osTskReadyAdd k p).runningTask = k.runningTask := rfl

@[simp] theorem runningTask_osTskReadyDel (p : Nat) :
    (osTskReadyDel k p).runningTask = k.runningTask := rfl

@[simp] theorem runningTask_osOwnerPrioritySet (p prio : Nat) :
    (osOwnerPrioritySet k p prio).runningTask = k.runningTask := by
  unfold osOwnerPrioritySet
  dsimp only
  split <;> rfl

@[simp] theorem runningTask_osPriorityInherit (s p : Nat) :
    (osPriorityInherit k s p).runningTask = k.runningTask :=
  osPriorityInherit_rule (M := fun k' => k'.runningTask = k.runningTask) rfl
    (fun v _ _ => runningTask_osOwnerPrioritySet _ v) p

@[simp] theorem runningTask_osPriorityRestore (s : Nat) :
    (osPriorityRestore k s).runningTask = k.runningTask :=
  osPriorityRestore_rule (M := fun k' => k'.runningTask = k.runningTask) rfl
    fun v _ _ => runningTask_osOwnerPrioritySet _ v

@[simp] theorem runningTask_osSemPendListPut (s : Nat) :
    (osSemPendListPut k s).runningTask = k.runningTask := by
  unfold osSemPendListPut
  dsimp only
  split <;> exact runningTask_osPriorityInherit _ _

@[simp] theorem runningTask_osSemPendListGet (s : Nat) :
    (osSemPendListGet k s).1.runningTask = k.runningTask := by
  unfold osSemPendListGet
  split
  · rfl
  · dsimp only
    split <;> split <;> rfl

@[simp] theorem runningTask_osSemPostSchePre (s : Nat) :
    (osSemPostSchePre k s).runningTask = k.runningTask := by
  unfold osSemPostSchePre
  dsimp only
  change (osSemPendListGet _ s).1.runningTask = _
  rw [runningTask_osSemPendListGet]
  split
  · split
    · exact runningTask_osPriorityRestore s
    · rfl
  · rfl

theorem runningTask_osTaskCreateRsrcInit (initParam : TskInitParam) (p : Nat) :
    (osTaskCreateRsrcInit k initParam p).1.runningTask = k.runningTask := by
  rcases osTaskCreateRsrcInit_cases k initParam p with h | ⟨_, _, _, h⟩ <;> rw [h]
  rfl

theorem runningTask_osSemPendNotNeedSche (s p : Nat) :
    ((osSemPendNotNeedSche k s p).getD k).runningTask = k.runningTask := by
  unfold osSemPendNotNeedSche
  dsimp only
  split <;> rfl

end

namespace Code

variable {α : Type} {m : Bool}

/-- Started with the I bit `m`, a program ends with it at `b`, and writes with IRQs masked. -/
abbrev Balanced (b m : Bool) (c : Code α) : Prop := Prog.Balanced daifReg Kernel.runningTask b m c

theorem balanced_osTskSchedule : Balanced true true osTskSchedule := by
  refine ⟨rfl, fun _ => rfl, fun k => Prog.Balanced.ite (fun _ => ?_) fun _ => rfl⟩
  refine ⟨rfl, fun _ => rfl, fun k => Prog.Balanced.ite (fun _ => ?_) fun _ => rfl⟩
  exact ⟨rfl, rfl⟩

theorem balanced_osMoveTaskToReady (taskCb : Nat) :
    Balanced true true (osMoveTaskToReady taskCb) := by
  have hready : Balanced true true (do
      if ¬ tskStatusTst (← get) taskCb osTskBlock then
        modify (osTskReadyAdd · taskCb)
        if bgdActive (← get) then
          osTskSchedule) := by
    refine fun k => Prog.Balanced.ite (fun _ => ⟨rfl, fun k => rfl, fun k => ?_⟩) fun _ => rfl
    exact Prog.Balanced.ite (fun _ => balanced_osTskSchedule) fun _ => rfl
  refine fun k => Prog.Balanced.ite (fun _ k => ?_) fun _ => hready
  refine Prog.Balanced.ite (fun _ => ⟨rfl, fun k => rfl, ?_⟩) fun _ => ?_
  all_goals exact ⟨rfl, fun k => rfl, hready⟩

theorem balanced_prtTaskCreate (initParam : TskInitParam) :
    Balanced m m (prtTaskCreate initParam) := by
  simp only [Balanced, prtTaskCreate, osTaskCreateOnly, osTaskCreateChkAndGetTcb, osIntLock, get,
    Prog.bind_eq, Prog.bind, Prog.Balanced]
  intro intSave hs k
  cases k.tskCbFreeList with
  | nil => exact hs
  | cons taskCb rest =>
    refine ⟨rfl, fun k => rfl, fun k' k => ⟨rfl, fun k => ?_, ?_⟩⟩
    · exact runningTask_osTaskCreateRsrcInit initParam taskCb
    · simp only [Prog.bind]
      split
      · exact ⟨rfl, fun k => rfl, hs⟩
      · exact fun k => ⟨rfl, fun k => rfl, rfl, rfl, fun k => rfl, rfl, fun k => rfl, hs⟩

theorem balanced_prtTaskResume (taskPid : Nat) : Balanced m m (prtTaskResume taskPid) := by
  intro intSave hs
  refine fun k => Prog.Balanced.ite (fun _ => hs) fun _ => ?_
  refine fun k => Prog.Balanced.ite (fun _ => hs) fun _ => ?_
  refine fun k => Prog.Balanced.ite (fun _ => hs) fun _ => ⟨rfl, fun k => rfl, ?_⟩
  exact (balanced_osMoveTaskToReady (getTcbHandle taskPid)).bind fun _ => hs

theorem balanced_osSemCreate (count semType : Nat) (semMode : SemMode) (null : Bool) :
    Balanced m m (osSemCreate count semType semMode null) := by
  refine Prog.Balanced.ite (fun _ => rfl) fun _ intSave hs k => ?_
  simp only [Prog.bind]
  cases k.unusedSemList with
  | nil => exact hs
  | cons unusedSem rest =>
    exact ⟨rfl, fun k => rfl, rfl, fun k => rfl, rfl, fun k => rfl, fun k => hs⟩

theorem balanced_prtSemCreate (count : Nat) (null : Bool) :
    Balanced m m (prtSemCreate count null) :=
  Prog.Balanced.ite (fun _ => rfl) fun _ => balanced_osSemCreate count semTypeCount .fifo null

/-- The six ways out of `PRT_SemPend`. -/
theorem balanced_prtSemPend (semHandle timeout : Nat) :
    Balanced m m (prtSemPend semHandle timeout) := by
  refine fun k => Prog.Balanced.ite (fun _ => rfl) fun _ intSave hs => ?_
  refine fun k => Prog.Balanced.ite (fun _ => hs) fun _ => ?_
  refine fun k => Prog.Balanced.ite (fun _ => hs) fun _ => ?_
  refine fun k => Prog.Balanced.ite (fun _ => ⟨rfl, fun k => ?_, hs⟩) fun _ => ?_
  · exact runningTask_osSemPendNotNeedSche semHandle k.runningTask
  refine fun k => Prog.Balanced.ite (fun _ => hs) fun _ => ?_
  refine ⟨rfl, fun k => runningTask_osSemPendListPut semHandle, ?_⟩
  refine Prog.Balanced.ite (fun _ => hs) fun _ => ?_
  exact balanced_osTskSchedule.bind fun _ => hs

theorem balanced_prtSemPost (semHandle : Nat) : Balanced m m (prtSemPost semHandle) := by
  refine fun k => Prog.Balanced.ite (fun _ => rfl) fun _ intSave hs => ?_
  refine fun k => Prog.Balanced.ite (fun _ => hs) fun _ => ?_
  refine fun k => Prog.Balanced.ite (fun _ => hs) fun _ => ?_
  refine fun k => Prog.Balanced.ite (fun _ => ?_) fun _ => ?_
  · refine ⟨rfl, fun k => runningTask_osSemPostSchePre semHandle, ?_⟩
    exact balanced_osTskSchedule.bind fun _ => hs
  · refine ⟨rfl, fun k => runningTask_osPriorityRestore semHandle, ?_⟩
    exact ⟨rfl, fun k => rfl, rfl, fun k => rfl, hs⟩

theorem balanced_osTskEntryReturn : Balanced m m osTskEntryReturn := by
  refine fun k intSave hs => ⟨rfl, fun k => rfl, ?_⟩
  refine fun intSave' hs' => ⟨rfl, fun k => rfl, ?_⟩
  exact balanced_osTskSchedule.bind fun _ => hs'.trans hs

end Code

/-- **Every call is balanced.** -/
theorem Op.code_balanced {op : Op} {c : Code Nat} (h : op.code = some c) (m : Bool) :
    Code.Balanced m m c := by
  cases op <;> cases h
  case taskCreate initParam => exact (Code.balanced_prtTaskCreate initParam).bind fun _ => rfl
  case taskResume taskPid => exact Code.balanced_prtTaskResume taskPid
  case semCreate count null => exact (Code.balanced_prtSemCreate count null).bind fun _ => rfl
  case osSemCreate count semType semMode null =>
    exact (Code.balanced_osSemCreate count semType semMode null).bind fun _ => rfl
  case semPend semHandle timeout => exact Code.balanced_prtSemPend semHandle timeout
  case semPost semHandle => exact Code.balanced_prtSemPost semHandle
  case uartPost semHandle => exact Code.balanced_prtSemPost semHandle
  case taskExit => exact Code.balanced_osTskEntryReturn.bind fun _ => rfl

end MiniEuler
