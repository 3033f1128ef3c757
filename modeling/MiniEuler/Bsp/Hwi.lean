import MiniEuler.Kernel.Runs

/-! Interrupts: `OsHwiDispatch` of `prt_exc.c`, `OsTickDispatcher` of `prt_tick.c`
and `OsUartRxHandle` of `print.c`. A handler runs on the stack of the task it
interrupts, with IRQs masked, so it goes on when that task runs again: each task
has its own `OsHwiDispatch` frame. An interrupt is active from its acknowledgement
by `OsGicIntAcknowledge` to `OsGicIntClear`. -/

namespace MiniEuler
open Library

def shellShowMaxLen : Nat := 272

/-- The receive side of `ShellCB`. -/
structure ShellCB where
  shellBuf : Vector (BitVec 8) shellShowMaxLen
  shellBufOffset : Nat
  offset_lt : shellBufOffset < shellShowMaxLen

def ShellCB.init : ShellCB := ⟨Vector.replicate shellShowMaxLen 0, 0, by decide⟩

/-- The store of a received character, with the wrap of the offset. -/
def ShellCB.store (cb : ShellCB) (c : BitVec 8) : ShellCB where
  shellBuf := cb.shellBuf.set cb.shellBufOffset c cb.offset_lt
  shellBufOffset :=
    if cb.shellBufOffset + 1 = shellShowMaxLen then 0 else cb.shellBufOffset + 1
  offset_lt := by
    have := cb.offset_lt
    split
    · decide
    · omega

/-- Where an `OsHwiDispatch` frame goes on: in the handler, at the post of
`OsUartRxHandle`, or at `OsGicIntClear`. -/
inductive HwiPc
  | handle
  | post
  | clear
  deriving DecidableEq, Repr

structure HwiDispatch where
  irqNum : Nat
  pc : HwiPc
  deriving DecidableEq, Repr

/-- `rxFifo` is what the UART has received and the handler has not read yet. -/
structure System where
  kernel : Kernel
  shell : ShellCB
  uniTicks : BitVec 64
  rxFifo : List (BitVec 8)
  semUartRx : Nat
  dispatch : Nat → Option HwiDispatch

namespace System

/-- The frame on the stack of the running task. -/
abbrev current (σ : System) : Option HwiDispatch := σ.dispatch σ.kernel.runningTask

def setCurrent (σ : System) (d : Option HwiDispatch) : System :=
  { σ with dispatch := Function.update σ.dispatch σ.kernel.runningTask d }

/-- Some interrupt has been acknowledged and not yet ended. -/
def IrqActive (σ : System) : Prop := ∃ t, σ.dispatch t ≠ none

end System

/-- `OsHwiDispatch` up to the call of the handler. -/
def osGicIntAcknowledge (σ : System) (irqNum : Nat) : System :=
  σ.setCurrent (some ⟨irqNum, .handle⟩)

def osGicIntClear (σ : System) : System := σ.setCurrent none

def osTickDispatcher (σ : System) : System := { σ with uniTicks := σ.uniTicks + 1 }

/-- The next step of the frame of the running task. `OsUartRxHandle` reads and
stores a character, posts, and looks at the FIFO again. -/
def osHwiDispatchStep (σ : System) : System :=
  match σ.current with
  | none => σ
  | some ⟨irqNum, .handle⟩ =>
    match irqNum with
    | 30 => (osTickDispatcher σ).setCurrent (some ⟨irqNum, .clear⟩)
    | 33 =>
      match σ.rxFifo with
      | [] => σ.setCurrent (some ⟨irqNum, .clear⟩)
      | c :: rest =>
        { σ with rxFifo := rest, shell := σ.shell.store c }.setCurrent (some ⟨irqNum, .post⟩)
    | _ => σ.setCurrent (some ⟨irqNum, .clear⟩)
  | some ⟨irqNum, .post⟩ =>
    { σ.setCurrent (some ⟨irqNum, .handle⟩) with
      kernel := (Op.uartPost σ.semUartRx).next σ.kernel }
  | some ⟨_, .clear⟩ => osGicIntClear σ

def Op.isUartPost : Op → Bool
  | .uartPost _ => true
  | _ => false

inductive SysAct
  /-- A call of the running task, or of `main` before `OsActivate`. -/
  | call (op : Op)
  /-- The UART receives a character. -/
  | rx (c : BitVec 8)
  /-- An interrupt is taken and acknowledged. -/
  | irq (irqNum : Nat)
  /-- The handler on the stack of the running task goes on. -/
  | hwi
  deriving DecidableEq, Repr

def SysAct.exec (σ : System) : SysAct → System
  | .call op => { σ with kernel := op.next σ.kernel }
  | .rx c => { σ with rxFifo := σ.rxFifo ++ [c] }
  | .irq irqNum => osGicIntAcknowledge σ irqNum
  | .hwi => osHwiDispatchStep σ

/-- While a handler is on its stack the running task neither calls nor is
interrupted: IRQs are masked. -/
def SysAct.Allowed (σ : System) : SysAct → Prop
  | .call op => σ.current = none ∧ op.Callable σ.kernel ∧ op.TimeoutOk ∧ op.isUartPost = false
  | .rx _ => True
  | .irq _ => σ.current = none
  | .hwi => σ.current ≠ none

/-- The system from the end of `OsSemInit` on. -/
def hwiMachine : Machine System SysAct where
  Start := fun σ => Initialised σ.kernel ∧ ∀ t, σ.dispatch t = none
  Allowed := SysAct.Allowed
  exec := SysAct.exec

instance (σ : System) (a : SysAct) : Decidable (hwiMachine.Allowed σ a) :=
  match a with
  | .call _ => inferInstanceAs (Decidable (_ ∧ _ ∧ _ ∧ _))
  | .rx _ => inferInstanceAs (Decidable True)
  | .irq _ => inferInstanceAs (Decidable (_ = _))
  | .hwi => inferInstanceAs (Decidable (_ ≠ _))

end MiniEuler
