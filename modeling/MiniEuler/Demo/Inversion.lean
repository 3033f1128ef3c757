import MiniEuler.Library.MutexPool
import MiniEuler.Bsp.Console

/-! `test_priority_inversion.c`, as the shell's `demo` command starts it: any number of times,
and with tasks of earlier starts still alive. They all find the semaphore through one variable,
`g_sharedResource`. A step is one call or one read of that variable. -/

namespace MiniEuler
open Library

inductive DemoEntry
  | taskHigh
  | taskMid
  | taskLow
  deriving DecidableEq, Repr

def DemoEntry.taskPrio : DemoEntry → Nat
  | .taskHigh => 5
  | .taskMid => 10
  | .taskLow => 15

/-- The `initParam` a task is created with; `text` has the addresses of the task entries. -/
def DemoEntry.initParam (text : DemoEntry → UIntPtr) (e : DemoEntry) : TskInitParam :=
  { taskEntry := text e, taskPrio := e.taskPrio, stackSize := 4096, stackAddr := 0 }

/-! ## The tasks -/

/-- The call a task comes to next, with `loopCount` where it is in its loop. -/
inductive DemoPc
  | lowPend
  | lowCreateHigh
  | lowResumeHigh
  | lowCreateMid
  | lowResumeMid
  | lowPost (loopCount : Nat)
  | lowPendAgain (loopCount : Nat)
  | highPend (loopCount : Nat)
  | highPost (loopCount : Nat)
  | ret
  deriving DecidableEq, Repr

/-- `while (loopCount < MAX_LOOPS)` in `TaskLow`. -/
def lowLoop (loopCount : Nat) : DemoPc :=
  if loopCount < 2 then .lowPost (loopCount + 1) else .ret

/-- `while (loopCount < MAX_LOOPS)` in `TaskHigh`. -/
def highLoop (loopCount : Nat) : DemoPc :=
  if loopCount < 3 then .highPend (loopCount + 1) else .ret

/-- `TaskMid` only prints. -/
def DemoEntry.start : DemoEntry → DemoPc
  | .taskHigh => highLoop 0
  | .taskMid => .ret
  | .taskLow => .lowPend

/-- A call, and where the task goes on. Pends and posts name `g_sharedResource`, and their
codes are not looked at; a creation or a resumption has a branch for `OS_OK` and one for
errors. -/
inductive DemoStmt
  | pend (next : DemoPc)
  | post (next : DemoPc)
  | create (e : DemoEntry) (ok err : DemoPc)
  | resume (e : DemoEntry) (ok err : DemoPc)
  | ret

def DemoPc.stmt : DemoPc → DemoStmt
  | .lowPend => .pend .lowCreateHigh
  | .lowCreateHigh => .create .taskHigh .lowResumeHigh .ret
  | .lowResumeHigh => .resume .taskHigh .lowCreateMid .ret
  | .lowCreateMid => .create .taskMid .lowResumeMid (lowLoop 0)
  | .lowResumeMid => .resume .taskMid (lowLoop 0) (lowLoop 0)
  | .lowPost loopCount =>
    .post (if loopCount < 2 then .lowPendAgain loopCount else lowLoop loopCount)
  | .lowPendAgain loopCount => .pend (lowLoop loopCount)
  | .highPend loopCount => .pend (.highPost loopCount)
  | .highPost loopCount => .post (highLoop loopCount)
  | .ret => .ret

/-- A task. `handle` is what it has read from `g_sharedResource` for the call it comes to, and
`sem` the semaphore of its last pend, until it posts; the code keeps no variable for that. -/
structure DemoTask where
  pc : DemoPc
  handle : Option Nat := none
  sem : Option Nat := none
  deriving DecidableEq, Repr

/-! ## The system -/

/-- Where `CreatePriorityInversionDemo` is. -/
inductive DemoShell
  | semCreate
  | createLow
  | resumeLow
  deriving DecidableEq, Repr

/-- `taskPid` is `g_taskHighPid`, `g_taskMidPid` and the shell's `taskLowPid`; `tasks` has the
demo's tasks by pid, and `sems` every handle that `g_sharedResource` has had. -/
structure DemoSystem where
  kernel : Kernel
  sharedResource : Nat
  taskPid : DemoEntry → Nat
  tasks : Nat → Option DemoTask
  shell : DemoShell
  sems : List Nat

namespace DemoSystem

def setTask (x : DemoSystem) (p : Nat) (t : Option DemoTask) : DemoSystem :=
  { x with tasks := Function.update x.tasks p t }

section
variable (text : DemoEntry → UIntPtr) (x : DemoSystem)

def create (e : DemoEntry) : DemoSystem × Nat :=
  match prtTaskCreate x.kernel (e.initParam text) with
  | (k, .error ret) => ({ x with kernel := k }, ret)
  | (k, .ok pid) =>
    ({ x.setTask pid (some { pc := e.start }) with
        kernel := k
        taskPid := Function.update x.taskPid e pid }, osOk)

def resume (e : DemoEntry) : DemoSystem × Nat :=
  ({ x with kernel := (prtTaskResume x.kernel (x.taskPid e)).1 },
    (prtTaskResume x.kernel (x.taskPid e)).2)

/-- The next step of the running task, which is `t`. -/
def taskStep (t : DemoTask) : DemoSystem :=
  let p := x.kernel.runningTask
  match t.pc.stmt, t.handle with
  | .pend _, none | .post _, none => x.setTask p (some { t with handle := some x.sharedResource })
  | .pend next, some h =>
    { x.setTask p (some { pc := next, sem := some h }) with
      kernel := (prtSemPend x.kernel h osWaitForever).1 }
  | .post next, some h =>
    { x.setTask p (some { pc := next }) with kernel := (prtSemPost x.kernel h).1 }
  | .create e ok err, _ =>
    let (y, ret) := x.create text e
    y.setTask p (some { t with pc := if ret = osOk then ok else err })
  | .resume e ok err, _ =>
    let (y, ret) := x.resume e
    y.setTask p (some { t with pc := if ret = osOk then ok else err })
  | .ret, _ => { x.setTask p none with kernel := osTskEntryReturn x.kernel }

/-- The next call of `CreatePriorityInversionDemo`. -/
def createPriorityInversionDemo : DemoSystem :=
  match x.shell with
  | .semCreate =>
    match prtSemCreate x.kernel 1 false with
    | (k, .error _) => { x with kernel := k }
    | (k, .ok h) =>
      { x with kernel := k, sharedResource := h, shell := .createLow, sems := h :: x.sems }
  | .createLow =>
    let (y, ret) := x.create text .taskLow
    { y with shell := if ret = osOk then .resumeLow else .semCreate }
  | .resumeLow => { (x.resume .taskLow).1 with shell := .semCreate }

end

end DemoSystem

inductive DemoAct
  /-- The running task is one of the demo's and goes on. -/
  | task
  /-- The shell begins a `demo` command, or goes on with one. -/
  | shell
  /-- An interrupt, or a call of another task, or of the shell between `demo` commands. -/
  | other (op : Op)
  deriving DecidableEq, Repr

section
variable (text : DemoEntry → UIntPtr) (shell : Nat)

namespace DemoAct

def exec (x : DemoSystem) : DemoAct → DemoSystem
  | .task =>
    match x.tasks x.kernel.runningTask with
    | none => x
    | some t => x.taskStep text t
  | .shell => x.createPriorityInversionDemo text
  | .other op => { x with kernel := op.next x.kernel }

/-- The kernel has to run who takes the step. The semaphores of the demo are known to nobody
else. -/
def Allowed (x : DemoSystem) : DemoAct → Prop
  | .task => bgdActive x.kernel ∧ x.kernel.runningTask ≠ x.kernel.idleTaskId ∧
      (x.tasks x.kernel.runningTask).isSome
  | .shell => bgdActive x.kernel ∧ x.kernel.runningTask ≠ x.kernel.idleTaskId ∧
      x.tasks x.kernel.runningTask = none ∧ x.kernel.runningTask = shell
  | .other op => kernelMachine.Allowed x.kernel op ∧ (∀ h ∈ x.sems, op.Avoids h) ∧
      (op.isUartPost ∨ x.tasks x.kernel.runningTask = none ∧
        (x.kernel.runningTask = shell → x.shell = .semCreate))

end DemoAct

/-- The kernel has been initialised, and nobody has started the demo. -/
structure DemoStart (x : DemoSystem) : Prop where
  kernel : Initialised x.kernel
  sharedResource : x.sharedResource = 0
  taskPid : ∀ e, x.taskPid e = 0
  tasks : ∀ p, x.tasks p = none
  shell : x.shell = .semCreate
  sems : x.sems = []

/-- The kernel with the shell's `demo` command; `shell` is the pid of the shell. -/
def demoMachine : Machine DemoSystem DemoAct where
  Start := DemoStart
  Allowed := DemoAct.Allowed shell
  exec := DemoAct.exec text

instance (x : DemoSystem) (a : DemoAct) : Decidable ((demoMachine text shell).Allowed x a) :=
  match a with
  | .task => inferInstanceAs (Decidable (_ ∧ _ ∧ _))
  | .shell => inferInstanceAs (Decidable (_ ∧ _ ∧ _ ∧ _))
  | .other _ => inferInstanceAs (Decidable (_ ∧ _ ∧ _))

end

abbrev DemoHistory := List (DemoSystem × DemoAct)

/-! ## Mutual exclusion -/

/-- How far task `p` is with which semaphore. A semaphore has been granted when the task does
not wait for it, any more or at all. -/
def DemoTask.use (k : Kernel) (p : Nat) (t : DemoTask) : Option (Nat × Stage) :=
  match t.sem with
  | some h => some (h, if p ∈ k.semList h then .waiting else .granted)
  | none => t.handle.map (·, .loaded)

/-- The semaphores of the demo, seen as mutexes. -/
def DemoSystem.mutexes (x : DemoSystem) : MutexPool Nat Nat where
  current := x.sharedResource
  free h := h ∈ x.sems ∧ 0 < (x.kernel.allSem h).semCount
  use p := (x.tasks p).bind (·.use x.kernel p)

/-- At most one task is between the return of its pend and its post, and a task that comes to
a post names the semaphore it was granted, which the kernel has it own. -/
structure DemoSafe (x : DemoSystem) : Prop where
  exclusive : ∀ p q h h', x.mutexes.Granted p h → x.mutexes.Granted q h' → p = q
  posts : ∀ t next h, x.tasks x.kernel.runningTask = some t → t.pc.stmt = .post next →
    t.handle = some h → x.mutexes.Granted x.kernel.runningTask h ∧
      (x.kernel.allSem h).semOwner = x.kernel.runningTask

/-- When a `demo` command gets a new semaphore, no task is on its way to a semaphore it could
be granted, waits for one that could be posted, or holds one. -/
def RestartsIdle (x : DemoSystem) (a : DemoAct) : Prop :=
  a = .shell → x.shell = .semCreate → x.kernel.unusedSemList ≠ [] → x.mutexes.Idle

end MiniEuler
