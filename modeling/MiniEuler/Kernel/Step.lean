import MiniEuler.Library.Run
import MiniEuler.Kernel.Sem

/-! The kernel as a machine: the calls tasks and the UART interrupt make, from
the end of `OsSemInit` on, through `OsActivate` and for ever after. -/

namespace MiniEuler
open Library

inductive Op
  | taskCreate (initParam : TskInitParam)
  | taskResume (taskPid : Nat)
  | semCreate (count : Nat) (null : Bool)
  | osSemCreate (count semType : Nat) (semMode : SemMode) (null : Bool)
  | semPend (semHandle : Nat) (timeout : Nat)
  | semPost (semHandle : Nat)
  /-- A post made by `OsUartRxHandle`, on the stack of the running task. -/
  | uartPost (semHandle : Nat)
  /-- The entry function of the running task returns. -/
  | taskExit
  | activate (osTskIdleBgd : UIntPtr)
  deriving DecidableEq, Repr

def retOf {α : Type} : Except Nat α → Nat
  | .ok _ => osOk
  | .error ret => ret

/-- The state after a call and the code it returns. A caller that is switched
out gets its code when it runs again. -/
def Op.exec (k : Kernel) : Op → Kernel × Nat
  | .taskCreate initParam => ((prtTaskCreate k initParam).1, retOf (prtTaskCreate k initParam).2)
  | .taskResume taskPid => prtTaskResume k taskPid
  | .semCreate count null => ((prtSemCreate k count null).1, retOf (prtSemCreate k count null).2)
  | .osSemCreate count semType semMode null =>
    ((MiniEuler.osSemCreate k count semType semMode null).1,
      retOf (MiniEuler.osSemCreate k count semType semMode null).2)
  | .semPend semHandle timeout => prtSemPend k semHandle timeout
  | .semPost semHandle => prtSemPost k semHandle
  | .uartPost semHandle => prtSemPost k semHandle
  | .taskExit => (osTskEntryReturn k, osOk)
  | .activate osTskIdleBgd =>
    match osActivate k osTskIdleBgd with
    | .ok k => (k, osOk)
    | .error ret => (k, ret)

/-- The state after the call. -/
def Op.next (k : Kernel) (op : Op) : Kernel := (op.exec k).1

/-- The code the call returns. -/
def Op.ret (k : Kernel) (op : Op) : Nat := (op.exec k).2

/-- What can be called when. Before `OsActivate` only `main` and interrupts run;
the idle task calls nothing, and its entry never returns. -/
def Op.Callable (k : Kernel) : Op → Prop
  | .taskResume taskPid => taskPid ≤ k.tskMaxNum
  | .semPend _ _ => bgdActive k ∧ k.runningTask ≠ k.idleTaskId
  | .taskExit => bgdActive k ∧ k.runningTask ≠ k.idleTaskId
  | .activate osTskIdleBgd => ¬ bgdActive k ∧ (osActivate k osTskIdleBgd).isOk
  | _ => True

instance (k : Kernel) (op : Op) : Decidable (op.Callable k) :=
  match op with
  | .taskCreate _ | .semCreate _ _ | .osSemCreate _ _ _ _ | .semPost _ | .uartPost _ =>
    inferInstanceAs (Decidable True)
  | .taskResume _ => inferInstanceAs (Decidable (_ ≤ _))
  | .semPend _ _ | .taskExit => inferInstanceAs (Decidable (_ ∧ _))
  | .activate _ => inferInstanceAs (Decidable (_ ∧ _))

/-- A pend waits for ever or not at all. -/
def Op.TimeoutOk : Op → Prop
  | .semPend _ timeout => timeout = osNoWait ∨ timeout = osWaitForever
  | _ => True

instance (op : Op) : Decidable op.TimeoutOk :=
  match op with
  | .semPend _ _ => inferInstanceAs (Decidable (_ ∨ _))
  | .taskCreate _ | .taskResume _ | .semCreate _ _ | .osSemCreate _ _ _ _ | .semPost _
  | .uartPost _ | .taskExit | .activate _ => inferInstanceAs (Decidable True)

/-- The state after `OsTskInit` and `OsSemInit`. -/
def Initialised (k : Kernel) : Prop :=
  ∃ stackMem osTskEntry mem k₁, osTskInit (kernelReset stackMem osTskEntry mem) = .ok k₁ ∧
    osSemInit k₁ = .ok k

/-- The kernel under all calls that can be made. -/
def callMachine : Machine Kernel Op where
  Start := Initialised
  Allowed := fun k op => op.Callable k
  exec := Op.next

/-- The kernel under calls whose pends use timeout 0 or `OS_WAIT_FOREVER`. -/
def kernelMachine : Machine Kernel Op := callMachine.restrict fun _ op => op.TimeoutOk

instance (k : Kernel) (op : Op) : Decidable (callMachine.Allowed k op) :=
  inferInstanceAs (Decidable (op.Callable k))

instance (k : Kernel) (op : Op) : Decidable (kernelMachine.Allowed k op) :=
  inferInstanceAs (Decidable (_ ∧ _))

abbrev History := List (Kernel × Op)

end MiniEuler
