import MiniEuler.Library.Run
import MiniEuler.Bsp.IrqMask
import MiniEuler.Kernel.Runs

/-! The processor that runs the calls: the DAIF register, the SPSR in the context of each task that
is switched out, and on the stack of each task the calls and the interrupt handlers that have not
come to their end. `OsTaskTrap` and `OsContextLoad` of `prt_vector.S` take the mask bit from one
task to another. -/

namespace MiniEuler
open Library

inductive Frame
  /-- A call: the mask bit that its caller had, and the rest of its program. -/
  | call (masked : Bool) (rest : Code Nat)
  /-- `OsHwiDispatcher`, with the SPSR it has saved. -/
  | hwi (spsr : UIntPtr)

/-- `context` is the SPSR in the context saved on the stack of each task. -/
structure Cpu where
  kernel : Kernel
  daif : UIntPtr
  context : Nat → UIntPtr
  stack : Nat → List Frame

/-- What `OsTaskTrap` saves for PSTATE, and an exception in SPSR: the flags, DAIF, EL1 and
SP_EL1. -/
def pstate (nzcv : BitVec 4) (daif : UIntPtr) : UIntPtr :=
  daif ||| nzcv.setWidth 64 <<< 28 ||| 1 <<< 2 ||| 1

/-- DAIF after `ERET`. -/
def eretDaif (spsr : UIntPtr) : UIntPtr := spsr &&& daifBits

/-- The SPSR of a new context: EL1, SP_EL1, debug and SError masked. -/
def initSpsr : UIntPtr := 0x305

namespace Cpu

variable (x : Cpu)

abbrev running : Nat := x.kernel.runningTask

/-- The stack of the running task. -/
abbrev frames : List Frame := x.stack x.running

def setFrames (l : List Frame) : Cpu := { x with stack := Function.update x.stack x.running l }

/-- `OsTskContextLoad(RUNNING_TASK)`, up to its `ERET`. -/
def osTskContextLoad : Cpu := { x with daif := eretDaif (x.context x.running) }

/-- `OsTaskTrap`: the context of the caller is saved, and `OsMainSchedule` loads the next one. -/
def osTaskTrap (f : Kernel → Kernel) (nzcv : BitVec 4) : Cpu :=
  { x with
    context := Function.update x.context x.running (pstate nzcv x.daif)
    kernel := f x.kernel }.osTskContextLoad

/-- The context of a task is made anew. What had been on its stack never goes on, unless it is
the task that runs. -/
def spawn (t : Nat) : Cpu :=
  { x with
    context := Function.update x.context t initSpsr
    stack := if t = x.running then x.stack else Function.update x.stack t [] }

/-- The next step of the call on top of the stack. -/
def step (nzcv : BitVec 4) : Cpu :=
  match x.frames with
  | .call masked rest :: below =>
    match rest with
    | .ret _ => x.setFrames below
    | .read next => x.setFrames (.call masked (next x.kernel) :: below)
    | .write f next =>
      { x.setFrames (.call masked next :: below) with kernel := f x.kernel }
    | .spawn t next => (x.setFrames (.call masked next :: below)).spawn t
    | .lock next =>
      { x.setFrames (.call masked (next (prtHwiLock x.daif).2) :: below) with
        daif := (prtHwiLock x.daif).1 }
    | .restore saved next =>
      { x.setFrames (.call masked next :: below) with daif := prtHwiRestore saved x.daif }
    | .yield f next => (x.setFrames (.call masked next :: below)).osTaskTrap f nzcv
  | _ => x

/-- A call is on top of the stack. -/
def inCall : Bool :=
  match x.frames with
  | .call _ _ :: _ => true
  | _ => false

/-- An interrupt handler is on top of the stack, in no call. -/
def inHandler : Bool :=
  match x.frames with
  | .hwi _ :: _ => true
  | _ => false

/-- The mask bit of the caller to which the call on top returns now. -/
def returns : Option Bool :=
  match x.frames with
  | .call masked (.ret _) :: _ => some masked
  | _ => none

/-- The call on top is about to write: to a block or a list, to a new context, or, in
`OsTaskTrap`, to the task block and the stack of the caller. -/
def writes : Bool :=
  match x.frames with
  | .call _ (.write _ _) :: _ | .call _ (.spawn _ _) :: _ | .call _ (.yield _ _) :: _ => true
  | _ => false

end Cpu

/-- `OsActivate` from the return of `OsIdleTskAMPCreate` on. -/
def osActivateSwitch (k : Kernel) (taskHdl : Nat) : Kernel :=
  let k := osTskHighestSet { k with idleTaskId := taskHdl }
  osFirstTimeSwitch { k with uniFlag := k.uniFlag ||| (osFlgBgdActive ||| osFlgTskReq) }

theorem osActivate_eq {k k₁ k₂ : Kernel} {osTskIdleBgd : UIntPtr} {taskHdl : Nat}
    (hc : prtTaskCreate k { taskEntry := osTskIdleBgd, taskPrio := osTskPriorityLowest } =
      (k₁, .ok taskHdl)) (hr : prtTaskResume k₁ taskHdl = (k₂, osOk)) :
    osActivate k osTskIdleBgd = .ok (osActivateSwitch k₂ taskHdl) := by
  unfold osActivate osIdleTskAMPCreate
  rw [hc]
  simp only [hr, ne_eq, not_true_eq_false, ↓reduceIte]
  rfl

inductive CpuAct
  /-- A task, `main` or an interrupt handler calls. -/
  | call (op : Op)
  /-- The call under way takes a step; `nzcv` are the flags at that time. -/
  | step (nzcv : BitVec 4)
  /-- An interrupt is taken. -/
  | irq (nzcv : BitVec 4)
  /-- `OsHwiDispatcher` returns. -/
  | eret
  /-- A task or `main` masks or unmasks IRQs by itself. -/
  | hwiLock
  | hwiUnLock
  /-- `main` starts the first task, the idle task being `taskHdl`. -/
  | activate (taskHdl : Nat)
  deriving DecidableEq, Repr

def CpuAct.exec (x : Cpu) : CpuAct → Cpu
  | .call op =>
    match op.code with
    | some code => x.setFrames (.call (irqMasked x.daif) code :: x.frames)
    | none => x
  | .step nzcv => x.step nzcv
  | .irq nzcv => { x.setFrames (.hwi (pstate nzcv x.daif) :: x.frames) with daif := daifBits }
  | .eret =>
    match x.frames with
    | .hwi spsr :: below => { x.setFrames below with daif := eretDaif spsr }
    | _ => x
  | .hwiLock => { x with daif := (prtHwiLock x.daif).1 }
  | .hwiUnLock => { x with daif := (prtHwiUnLock x.daif).1 }
  | .activate taskHdl => { x with kernel := osActivateSwitch x.kernel taskHdl }.osTskContextLoad

/-- An interrupt is taken wherever IRQs are not masked, in the middle of a call too. -/
def CpuAct.Allowed (x : Cpu) : CpuAct → Prop
  | .call op => op.code.isSome ∧ x.inCall = false
  | .step _ => x.inCall = true
  | .irq _ => irqMasked x.daif = false
  | .eret => x.inHandler = true
  | .hwiLock => x.frames.isEmpty = true
  | .hwiUnLock => x.frames.isEmpty = true
  | .activate _ => ¬ bgdActive x.kernel ∧ x.frames.isEmpty = true

/-- The system from the end of `OsSemInit` on. -/
def cpuMachine : Machine Cpu CpuAct where
  Start := fun x => Initialised x.kernel ∧ ∀ t, x.stack t = []
  Allowed := CpuAct.Allowed
  exec := CpuAct.exec

instance (x : Cpu) (a : CpuAct) : Decidable (cpuMachine.Allowed x a) :=
  match a with
  | .call _ => inferInstanceAs (Decidable (_ ∧ _))
  | .step _ | .irq _ | .eret | .hwiLock | .hwiUnLock => inferInstanceAs (Decidable (_ = _))
  | .activate _ => inferInstanceAs (Decidable (_ ∧ _))

variable {x : Cpu} {a : CpuAct} {hist : List (Cpu × CpuAct)}

theorem irqMasked_pstate (nzcv : BitVec 4) (daif : UIntPtr) :
    irqMasked (pstate nzcv daif) = irqMasked daif := by
  simp [irqMasked_eq, pstate]

theorem irqMasked_eretDaif (spsr : UIntPtr) : irqMasked (eretDaif spsr) = irqMasked spsr := by
  simp [irqMasked_eq, eretDaif, daifBits]

/-! ## The invariant -/

/-- Going on with the mask bit `m`, each call on the stack comes to its end with the bit that its
caller had, and each handler gives its own back. -/
def StackOk : Bool → List Frame → Prop
  | _, [] => True
  | m, .call masked rest :: below => Code.Balanced masked m rest ∧ StackOk masked below
  | _, .hwi spsr :: below => StackOk (irqMasked spsr) below

/-- The mask bit with which a task goes on. -/
def Cpu.maskOf (x : Cpu) (t : Nat) : Bool :=
  if t = x.running then irqMasked x.daif else irqMasked (x.context t)

theorem Cpu.maskOf_running (x : Cpu) : x.maskOf x.running = irqMasked x.daif := if_pos rfl

def CpuInv (x : Cpu) : Prop := ∀ t, StackOk (x.maskOf t) (x.stack t)

namespace CpuInv

/-- A step that only works on the running task's stack and on DAIF. -/
theorem onTop (I : CpuInv x) {l : List Frame} {daif : UIntPtr} {k : Kernel}
    (hk : k.runningTask = x.running) (hl : StackOk (irqMasked daif) l) :
    CpuInv { x.setFrames l with daif := daif, kernel := k } := by
  intro t
  by_cases ht : t = x.running
  · subst ht
    have hm : Cpu.maskOf { x.setFrames l with daif := daif, kernel := k } x.running =
        irqMasked daif := if_pos hk.symm
    rw [hm]
    simpa [Cpu.setFrames] using hl
  · have hm : Cpu.maskOf { x.setFrames l with daif := daif, kernel := k } t = x.maskOf t := by
      rw [Cpu.maskOf, Cpu.maskOf, if_neg ht, if_neg fun h => ht (h.trans hk)]
      rfl
    rw [hm]
    simpa [Cpu.setFrames, ht] using I t

/-- The context of the running task is saved with the mask bit it has, and the one loaded gives
its own. -/
theorem osTaskTrap (I : CpuInv x) (f : Kernel → Kernel) (nzcv : BitVec 4) :
    CpuInv (x.osTaskTrap f nzcv) := by
  intro t
  have hsaved : irqMasked (Function.update x.context x.running (pstate nzcv x.daif) t) =
      x.maskOf t := by
    by_cases ht : t = x.running
    · subst ht
      simp [Cpu.maskOf, irqMasked_pstate]
    · simp [Cpu.maskOf, ht]
  have hmask : (x.osTaskTrap f nzcv).maskOf t = x.maskOf t := by
    rw [← hsaved]
    by_cases ht : t = (f x.kernel).runningTask
    · subst ht
      simp [Cpu.maskOf, Cpu.osTaskTrap, Cpu.osTskContextLoad, irqMasked_eretDaif]
    · simp [Cpu.maskOf, Cpu.osTaskTrap, Cpu.osTskContextLoad, ht]
  rw [hmask]
  exact I t

theorem spawn (I : CpuInv x) (t : Nat) : CpuInv (x.spawn t) := by
  intro q
  by_cases hq : q = x.running
  · have h := I q
    subst hq
    by_cases ht : t = x.running
    · simpa [Cpu.maskOf, Cpu.spawn, ht] using h
    · simpa [Cpu.maskOf, Cpu.spawn, ht, Ne.symm ht] using h
  · by_cases hqt : q = t
    · subst hqt
      simp [Cpu.spawn, hq, StackOk]
    · have h := I q
      by_cases ht : t = x.running
      · simpa [Cpu.maskOf, Cpu.spawn, ht, hq] using h
      · simpa [Cpu.maskOf, Cpu.spawn, ht, hq, hqt] using h

/-- The call on top is balanced from here on. -/
theorem top (I : CpuInv x) {masked : Bool} {rest : Code Nat} {below : List Frame}
    (h : x.frames = .call masked rest :: below) :
    Code.Balanced masked (irqMasked x.daif) rest ∧ StackOk masked below := by
  have ht := I x.running
  rw [show x.stack x.running = _ from h, x.maskOf_running] at ht
  exact ht

/-- **Step lemma**, for a step of a call. -/
theorem step (I : CpuInv x) (nzcv : BitVec 4) : CpuInv (x.step nzcv) := by
  unfold Cpu.step
  split
  · rename_i masked rest below hx
    obtain ⟨hrest, hbelow⟩ := I.top hx
    cases rest with
    | ret v =>
      have hm : irqMasked x.daif = masked := hrest
      exact I.onTop rfl (hm ▸ hbelow)
    | read next => exact I.onTop rfl ⟨hrest x.kernel, hbelow⟩
    | write f next => exact I.onTop (hrest.2.1 x.kernel) ⟨hrest.2.2, hbelow⟩
    | spawn t next =>
      have I' : CpuInv (x.setFrames (.call masked next :: below)) :=
        I.onTop rfl ⟨hrest.2, hbelow⟩
      exact I'.spawn t
    | lock next =>
      refine I.onTop rfl ⟨?_, hbelow⟩
      rw [show irqMasked (prtHwiLock x.daif).1 = true from irqMasked_msrDaifSet x.daif]
      exact hrest _ (daifReg.bitOf_save x.daif)
    | restore saved next =>
      refine I.onTop rfl ⟨?_, hbelow⟩
      rw [show irqMasked (prtHwiRestore saved x.daif) = _ from
        daifReg.masked_restore saved x.daif]
      exact hrest
    | yield f next =>
      have I' : CpuInv (x.setFrames (.call masked next :: below)) :=
        I.onTop rfl ⟨hrest.2, hbelow⟩
      exact I'.osTaskTrap f nzcv
  · exact I

/-- A task or `main` that is in no call has nothing on its stack to keep. -/
theorem atRest (I : CpuInv x) (hnil : x.frames = []) {x' : Cpu} (hs : x'.stack = x.stack)
    (hm : ∀ t, t ≠ x.running → x'.maskOf t = x.maskOf t) : CpuInv x' := by
  intro t
  rw [hs]
  by_cases ht : t = x.running
  · subst ht
    rw [show x.stack x.running = [] from hnil]
    trivial
  · rw [hm t ht]
    exact I t

/-- **Step lemma.** -/
theorem exec (I : CpuInv x) (ha : cpuMachine.Allowed x a) : CpuInv (a.exec x) := by
  have htop : StackOk (irqMasked x.daif) x.frames := x.maskOf_running ▸ I x.running
  cases a with
  | call op =>
    obtain ⟨code, hcode⟩ := Option.isSome_iff_exists.mp ha.1
    simp only [CpuAct.exec, hcode]
    exact I.onTop rfl ⟨op.code_balanced hcode _, htop⟩
  | step nzcv => exact I.step nzcv
  | irq nzcv =>
    refine I.onTop rfl ?_
    rw [StackOk, irqMasked_pstate]
    exact htop
  | eret =>
    simp only [CpuAct.exec]
    split
    · rename_i spsr below hx
      refine I.onTop rfl ?_
      rw [hx] at htop
      rw [irqMasked_eretDaif]
      exact htop
    · exact I
  | hwiLock =>
    exact I.atRest (List.isEmpty_iff.mp ha) rfl fun t ht => by simp [CpuAct.exec, Cpu.maskOf, ht]
  | hwiUnLock =>
    exact I.atRest (List.isEmpty_iff.mp ha) rfl fun t ht => by simp [CpuAct.exec, Cpu.maskOf, ht]
  | activate taskHdl =>
    -- the context of `main` is not saved
    refine I.atRest (List.isEmpty_iff.mp ha.2) rfl fun t ht => ?_
    by_cases hrun : t = (osActivateSwitch x.kernel taskHdl).runningTask
    · subst hrun
      simp [CpuAct.exec, Cpu.maskOf, Cpu.osTskContextLoad, Cpu.running, ht, irqMasked_eretDaif]
    · simp [CpuAct.exec, Cpu.maskOf, Cpu.osTskContextLoad, hrun, ht]

/-- **Run lemma.** -/
theorem of_run (r : Run cpuMachine hist x) : CpuInv x := by
  refine r.invariant CpuInv (fun x h t => ?_) fun x a I ha => I.exec ha
  rw [h.2 t]
  trivial

theorem returns (I : CpuInv x) {masked : Bool} (h : x.returns = some masked) :
    irqMasked x.daif = masked := by
  unfold Cpu.returns at h
  split at h
  · rename_i masked' v below hx
    cases h
    exact (I.top hx).1
  · cases h

theorem writes (I : CpuInv x) (h : x.writes = true) : irqMasked x.daif = true := by
  unfold Cpu.writes at h
  split at h
  · rename_i hx
    exact (I.top hx).1.1
  · rename_i hx
    exact (I.top hx).1.1
  · rename_i hx
    exact (I.top hx).1.1
  · cases h

end CpuInv

/-- A step of a call that does not write leaves the kernel and the contexts as they are. -/
theorem Cpu.step_of_not_writes (h : x.writes = false) (nzcv : BitVec 4) :
    (x.step nzcv).kernel = x.kernel ∧ (x.step nzcv).context = x.context := by
  unfold Cpu.step
  split
  · rename_i masked rest below hx
    cases rest <;> first | exact ⟨rfl, rfl⟩ | simp [Cpu.writes, hx] at h
  · exact ⟨rfl, rfl⟩

/-- **Every call returns with the IRQ mask bit it was called with, and what it changes it changes
with IRQs masked.** -/
theorem maskKept_of_run (r : Run cpuMachine hist x) :
    (∀ masked, x.returns = some masked → irqMasked x.daif = masked) ∧
    ∀ nzcv, x.writes = true ∨ (x.step nzcv).kernel ≠ x.kernel ∨
      (x.step nzcv).context ≠ x.context → irqMasked x.daif = true := by
  have I := CpuInv.of_run r
  refine ⟨fun masked h => I.returns h, fun nzcv h => I.writes ?_⟩
  cases hw : x.writes with
  | true => rfl
  | false =>
    obtain ⟨hk, hc⟩ := Cpu.step_of_not_writes hw nzcv
    rcases h with h | h | h
    · rw [hw] at h
      cases h
    · exact absurd hk h
    · exact absurd hc h

/-- The system whose kernel is `bootKernel`, with IRQs unmasked by `CoreTimerInit`. -/
def cpuBoot : Cpu :=
  { kernel := bootKernel, daif := 0, context := fun _ => 0, stack := fun _ => [] }

theorem cpuBoot_start : cpuMachine.Start cpuBoot := ⟨bootKernel_initialised, fun _ => rfl⟩

/-- A call and its steps. -/
def callSteps (op : Op) (n : Nat) : List CpuAct := .call op :: List.replicate n (.step 0)

/-- Task 0 pends and is switched out, and the post of an interrupt handler on the stack of the
idle task brings it back, to the return of its pend. -/
def wakeActs : List CpuAct :=
  callSteps (.taskCreate { taskPrio := 10 }) 13 ++ callSteps (.taskResume 0) 11 ++
    callSteps (.semCreate 0 false) 8 ++ callSteps (.taskCreate { taskPrio := 63 }) 13 ++
    callSteps (.taskResume 1) 11 ++ [.activate 1] ++ callSteps (.semPend 0 osWaitForever) 12 ++
    [.irq 0] ++ callSteps (.uartPost 0) 12

theorem maskKept_of_wake :
    (wakeActs.foldl CpuAct.exec cpuBoot).returns = some false ∧
    irqMasked (wakeActs.foldl CpuAct.exec cpuBoot).daif = false := by
  have hreturns : (wakeActs.foldl CpuAct.exec cpuBoot).returns = some false := by decide +kernel
  have r : Run cpuMachine (trace CpuAct.exec cpuBoot wakeActs)
      (wakeActs.foldl CpuAct.exec cpuBoot) :=
    Run.ofList (M := cpuMachine) cpuBoot_start wakeActs (by decide +kernel)
  exact ⟨hreturns, (maskKept_of_run r).1 false hreturns⟩

end MiniEuler
