import MiniEuler.Kernel.Pool
import MiniEuler.Bsp.Hwi
import MiniEuler.Ipc.RingDemo

/-! `IPC_RingDemoStart`: three semaphores and four tasks, created one after the other.
Between two of its calls interrupts arrive, and tasks more urgent than the caller run. -/

namespace MiniEuler
open Library

/-- Where `IPC_RingDemoStart` is: at a call, at the write of `g_demoStarted`, or back. -/
inductive StartPc
  | semCreate (s : RingSem)
  | taskCreate (t : IpcTask)
  | taskResume (t : IpcTask) (pid : Nat)
  | setStarted
  | returned (ret : Nat)
  deriving DecidableEq

def StartPc.isReturned : StartPc → Bool
  | .returned _ => true
  | _ => false

def RingSem.next : RingSem → StartPc
  | .empty => .semCreate .full
  | .full => .semCreate .mutex
  | .mutex => .taskCreate .tP1

def IpcTask.next : IpcTask → StartPc
  | .tP1 => .taskCreate .tP2
  | .tP2 => .taskCreate .tC1
  | .tC1 => .taskCreate .tC2
  | .tC2 => .setStarted

def IpcTask.taskPrio : IpcTask → Nat
  | .tP1 => 35
  | .tP2 => 36
  | .tC1 => 30
  | .tC2 => 31

/-- The `param` a task is created with; `entry` has the addresses of the task entries. -/
def IpcTask.param (entry : IpcTask → UIntPtr) (t : IpcTask) : TskInitParam :=
  { taskEntry := entry t, taskPrio := t.taskPrio, stackSize := 0x1000 }

/-- `handle` is `g_semEmpty`, `g_semFull` and `g_semMutex`. -/
structure StartState where
  kernel : Kernel
  handle : RingSem → Nat
  demoStarted : Bool
  pc : StartPc

/-- The call of `IPC_RingDemoStart`, up to its first creation. -/
def ipcRingDemoStart (x : StartState) : StartState :=
  if x.demoStarted then { x with pc := .returned osOk } else { x with pc := .semCreate .empty }

variable (entry : IpcTask → UIntPtr)

def ipcRingDemoStartStep (x : StartState) : StartState :=
  match x.pc with
  | .semCreate s =>
    match prtSemCreate x.kernel (s.units ipcRingBufSize) false with
    | (k, .error ret) => { x with kernel := k, pc := .returned ret }
    | (k, .ok h) => { x with kernel := k, handle := Function.update x.handle s h, pc := s.next }
  | .taskCreate t =>
    match prtTaskCreate x.kernel (t.param entry) with
    | (k, .error ret) => { x with kernel := k, pc := .returned ret }
    | (k, .ok pid) => { x with kernel := k, pc := .taskResume t pid }
  | .taskResume t pid => { x with kernel := (prtTaskResume x.kernel pid).1, pc := t.next }
  | .setStarted => { x with demoStarted := true, pc := .returned osOk }
  | .returned _ => x

inductive StartAct
  | start
  /-- A call made by another task, or by the handler of an interrupt. -/
  | other (op : Op)
  deriving DecidableEq

def StartAct.exec (x : StartState) : StartAct → StartState
  | .start => ipcRingDemoStartStep entry x
  | .other op => { x with kernel := op.next x.kernel }

/-- The caller goes on when it runs; others run when it does not, interrupts at any time. -/
def StartAct.Allowed (caller : Nat) (x : StartState) : StartAct → Prop
  | .start => x.kernel.runningTask = caller ∧ ¬ x.pc.isReturned
  | .other op => op.Callable x.kernel ∧ (x.kernel.runningTask ≠ caller ∨ op.isUartPost)

instance (caller : Nat) (x : StartState) (a : StartAct) : Decidable (a.Allowed caller x) :=
  match a with
  | .start => inferInstanceAs (Decidable (_ ∧ _))
  | .other _ => inferInstanceAs (Decidable (_ ∧ _))

/-- The rest of the call from `x₀` on. -/
def startMachine (caller : Nat) (x₀ : StartState) : Machine StartState StartAct where
  Start := fun x => x = x₀
  Allowed := StartAct.Allowed caller
  exec := StartAct.exec entry

abbrev StartHistory := List (StartState × StartAct)

/-! ## What the call has made -/

/-- The semaphore a step creates. -/
def StartAct.semCreated (x : StartState) : StartAct → Option Nat
  | .start =>
    match x.pc with
    | .semCreate s => (prtSemCreate x.kernel (s.units ipcRingBufSize) false).2.toOption
    | _ => none
  | .other _ => none

/-- The task a step creates. -/
def StartAct.taskCreated (x : StartState) : StartAct → Option (IpcTask × Nat)
  | .start =>
    match x.pc with
    | .taskCreate t => (prtTaskCreate x.kernel (t.param entry)).2.toOption.map (t, ·)
    | _ => none
  | .other _ => none

/-- The task a step resumes. -/
def StartAct.taskResumed (x : StartState) : StartAct → Option (IpcTask × Nat)
  | .start =>
    match x.pc with
    | .taskResume t pid => some (t, pid)
    | _ => none
  | .other _ => none

def semsCreated (hist : StartHistory) : List Nat := hist.filterMap fun e => e.2.semCreated e.1

def tasksCreated (hist : StartHistory) : List (IpcTask × Nat) :=
  hist.filterMap fun e => e.2.taskCreated entry e.1

def tasksResumed (hist : StartHistory) : List (IpcTask × Nat) :=
  hist.filterMap fun e => e.2.taskResumed e.1

/-- A call made in state `y` that fails leaves nothing behind, and one that succeeds has
made one set of semaphores and tasks. -/
structure AllOrNothing (y : StartState) (hist : StartHistory) (x : StartState) : Prop where
  nothing : ∀ ret, ret ≠ osOk → x.pc = .returned ret →
    tasksResumed hist = [] ∧
    (∀ s ∈ semsCreated hist, (x.kernel.allSem s).semStat = osSemUnused) ∧
    x.handle = y.handle
  oneSet : x.pc = .returned osOk → x.demoStarted = true ∧
    semsCreated hist = [x.handle .empty, x.handle .full, x.handle .mutex] ∧
    (tasksCreated entry hist).map Prod.fst = [.tP1, .tP2, .tC1, .tC2] ∧
    tasksResumed hist = tasksCreated entry hist

/-- The next creation of the call finds what it needs. -/
def HasRoom (x : StartState) : Prop :=
  match x.pc with
  | .semCreate _ => x.kernel.unusedSemList ≠ []
  | .taskCreate _ => x.kernel.tskCbFreeList ≠ [] ∧
      ∃ i, i < stackMemNum ∧ x.kernel.stackMemUsed i = false
  | _ => True

def AllRoom (hist : StartHistory) : Prop := ∀ e ∈ hist, e.2 = .start → HasRoom e.1

/-- The first creation of the call finds no semaphore. -/
def FirstRefused (hist : StartHistory) : Prop :=
  ∃ e ∈ hist, e.2 = .start ∧ e.1.pc = .semCreate .empty ∧ e.1.kernel.unusedSemList = []

/-! ## How far the call is -/

def RingSem.before : RingSem → List RingSem
  | .empty => []
  | .full => [.empty]
  | .mutex => [.empty, .full]

def IpcTask.before : IpcTask → List IpcTask
  | .tP1 => []
  | .tP2 => [.tP1]
  | .tC1 => [.tP1, .tP2]
  | .tC2 => [.tP1, .tP2, .tC1]

namespace StartPc

/-- The semaphores that have been created. -/
def sems : StartPc → List RingSem
  | semCreate s => s.before
  | _ => [.empty, .full, .mutex]

/-- The tasks that have been created. -/
def tasks : StartPc → List IpcTask
  | semCreate _ => []
  | taskCreate t => t.before
  | taskResume t _ => t.before ++ [t]
  | setStarted => [.tP1, .tP2, .tC1, .tC2]
  | returned _ => [.tP1, .tP2, .tC1, .tC2]

/-- The task that has been created and not yet resumed. -/
def created : StartPc → List (IpcTask × Nat)
  | taskResume t pid => [(t, pid)]
  | _ => []

end StartPc

theorem RingSem.next_sems (s : RingSem) : s.next.sems = s.before ++ [s] := by cases s <;> rfl

theorem RingSem.next_tasks (s : RingSem) : s.next.tasks = [] := by cases s <;> rfl

theorem RingSem.next_created (s : RingSem) : s.next.created = [] := by cases s <;> rfl

theorem IpcTask.next_sems (t : IpcTask) : t.next.sems = [.empty, .full, .mutex] := by
  cases t <;> rfl

theorem IpcTask.next_tasks (t : IpcTask) : t.next.tasks = t.before ++ [t] := by cases t <;> rfl

theorem IpcTask.next_created (t : IpcTask) : t.next.created = [] := by cases t <;> rfl

theorem RingSem.next_ne_returned (s : RingSem) (ret : Nat) : s.next ≠ .returned ret := by
  cases s <;> simp [RingSem.next]

theorem IpcTask.next_ne_returned (t : IpcTask) (ret : Nat) : t.next ≠ .returned ret := by
  cases t <;> simp [IpcTask.next]

theorem RingSem.not_mem_before (s : RingSem) : s ∉ s.before := by cases s <;> simp [RingSem.before]

theorem RingSem.next_ne_first (s : RingSem) : s.next ≠ .semCreate .empty := by
  cases s <;> simp [RingSem.next]

theorem IpcTask.next_ne_first (t : IpcTask) : t.next ≠ .semCreate .empty := by
  cases t <;> simp [IpcTask.next]

/-- Every creation so far has succeeded. -/
structure OnTrack (y : StartState) (hist : StartHistory) (x : StartState) : Prop where
  sems : semsCreated hist = x.pc.sems.map x.handle
  tasks : (tasksCreated entry hist).map Prod.fst = x.pc.tasks
  resumed : tasksCreated entry hist = tasksResumed hist ++ x.pc.created
  room : AllRoom hist
  handle : x.pc = .semCreate .empty → x.handle = y.handle
  ret : ∀ ret, x.pc = .returned ret → ret = osOk ∧ x.demoStarted = true

/-- The first creation has failed. -/
structure Refused (y : StartState) (hist : StartHistory) (x : StartState) : Prop where
  ret : ∃ ret, ret ≠ osOk ∧ x.pc = .returned ret
  sems : semsCreated hist = []
  resumed : tasksResumed hist = []
  handle : x.handle = y.handle
  first : FirstRefused hist

/-- A creation after the first has failed. -/
structure LeftOver (hist : StartHistory) (x : StartState) : Prop where
  ret : ∃ ret, ret ≠ osOk ∧ x.pc = .returned ret
  sems : semsCreated hist ≠ []
  room : ¬ AllRoom hist
  first : ¬ FirstRefused hist

structure StartInv (y : StartState) (hist : StartHistory) (x : StartState) : Prop where
  pool : Pool x.kernel
  used : ∀ s ∈ semsCreated hist, (x.kernel.allSem s).semStat = osSemUsed
  phase : OnTrack entry y hist x ∨ Refused y hist x ∨ LeftOver hist x

section
variable {entry} {y x : StartState} {hist : StartHistory}

theorem semsCreated_snoc (hist : StartHistory) (x : StartState) (a : StartAct) :
    semsCreated (hist ++ [(x, a)]) = semsCreated hist ++ (a.semCreated x).toList := by
  cases h : a.semCreated x <;> simp [semsCreated, h]

theorem tasksCreated_snoc (hist : StartHistory) (x : StartState) (a : StartAct) :
    tasksCreated entry (hist ++ [(x, a)]) =
      tasksCreated entry hist ++ (a.taskCreated entry x).toList := by
  cases h : a.taskCreated entry x <;> simp [tasksCreated, h]

theorem tasksResumed_snoc (hist : StartHistory) (x : StartState) (a : StartAct) :
    tasksResumed (hist ++ [(x, a)]) = tasksResumed hist ++ (a.taskResumed x).toList := by
  cases h : a.taskResumed x <;> simp [tasksResumed, h]

theorem allRoom_snoc (hist : StartHistory) (x : StartState) (a : StartAct) :
    AllRoom (hist ++ [(x, a)]) ↔ AllRoom hist ∧ (a = .start → HasRoom x) := by
  simp [AllRoom, or_imp, forall_and]

theorem firstRefused_snoc (hist : StartHistory) (x : StartState) (a : StartAct) :
    FirstRefused (hist ++ [(x, a)]) ↔ FirstRefused hist ∨
      (a = .start ∧ x.pc = .semCreate .empty ∧ x.kernel.unusedSemList = []) := by
  simp [FirstRefused, or_and_right, exists_or]

theorem AllRoom.not_firstRefused (h : AllRoom hist) : ¬ FirstRefused hist := by
  rintro ⟨e, he, ha, hpc, hl⟩
  have hroom := h e he ha
  rw [HasRoom, hpc] at hroom
  exact hroom hl

/-- What others do meanwhile leaves the call where it is. -/
theorem StartInv.other (I : StartInv entry y hist x) {op : Op} (hc : op.Callable x.kernel) :
    StartInv entry y (hist ++ [(x, .other op)]) { x with kernel := op.next x.kernel } := by
  have hs : semsCreated (hist ++ [(x, .other op)]) = semsCreated hist := by
    simp [semsCreated_snoc, StartAct.semCreated]
  have ht : tasksCreated entry (hist ++ [(x, .other op)]) = tasksCreated entry hist := by
    simp [tasksCreated_snoc, StartAct.taskCreated]
  have hr : tasksResumed (hist ++ [(x, .other op)]) = tasksResumed hist := by
    simp [tasksResumed_snoc, StartAct.taskResumed]
  have hroom : AllRoom (hist ++ [(x, .other op)]) ↔ AllRoom hist := by simp [allRoom_snoc]
  have hfirst : FirstRefused (hist ++ [(x, .other op)]) ↔ FirstRefused hist := by
    simp [firstRefused_snoc]
  refine ⟨I.pool.next hc, fun s hsem => ?_, ?_⟩
  · rw [hs] at hsem
    exact I.pool.semUsed_next hc (I.used s hsem)
  · rcases I.phase with h | h | h
    · exact Or.inl ⟨hs ▸ h.sems, ht ▸ h.tasks, by rw [ht, hr]; exact h.resumed, hroom.mpr h.room,
        h.handle, h.ret⟩
    · exact Or.inr (Or.inl ⟨h.ret, hs ▸ h.sems, hr ▸ h.resumed, h.handle, hfirst.mpr h.first⟩)
    · exact Or.inr (Or.inr ⟨h.ret, hs ▸ h.sems, fun hh => h.room (hroom.mp hh),
        fun hh => h.first (hfirst.mp hh)⟩)

theorem OnTrack.leftOver (O : OnTrack entry y hist x) (hsems : x.pc.sems ≠ [])
    (hfirst : x.pc ≠ .semCreate .empty) (hroom : ¬ HasRoom x)
    (hnone : StartAct.start.semCreated x = none) (k : Kernel) {ret : Nat} (hret : ret ≠ osOk) :
    LeftOver (hist ++ [(x, .start)]) { x with kernel := k, pc := .returned ret } := by
  refine ⟨⟨ret, hret, rfl⟩, ?_, fun h => hroom (((allRoom_snoc _ _ _).mp h).2 rfl), fun h => ?_⟩
  · rw [semsCreated_snoc, hnone, O.sems]
    simpa using hsems
  · rcases (firstRefused_snoc _ _ _).mp h with h | ⟨-, h, -⟩
    · exact O.room.not_firstRefused h
    · exact hfirst h

/-- A step that succeeds keeps the call on track. -/
theorem OnTrack.next (O : OnTrack entry y hist x) (hroom : HasRoom x) {x' : StartState}
    (hsems : x'.pc.sems.map x'.handle =
      x.pc.sems.map x.handle ++ (StartAct.start.semCreated x).toList)
    (htasks : x'.pc.tasks =
      x.pc.tasks ++ (StartAct.start.taskCreated entry x).toList.map Prod.fst)
    (hresumed : x.pc.created ++ (StartAct.start.taskCreated entry x).toList =
      (StartAct.start.taskResumed x).toList ++ x'.pc.created)
    (hhandle : x'.pc ≠ .semCreate .empty)
    (hret : ∀ ret, x'.pc = .returned ret → ret = osOk ∧ x'.demoStarted = true) :
    OnTrack entry y (hist ++ [(x, .start)]) x' := by
  refine ⟨?_, ?_, ?_, (allRoom_snoc _ _ _).mpr ⟨O.room, fun _ => hroom⟩,
    fun h => absurd h hhandle, hret⟩
  · rw [semsCreated_snoc, O.sems, hsems]
  · rw [tasksCreated_snoc, List.map_append, O.tasks, htasks]
  · rw [tasksCreated_snoc, tasksResumed_snoc, O.resumed, List.append_assoc, List.append_assoc,
      hresumed]

theorem StartInv.semCreate (I : StartInv entry y hist x) (O : OnTrack entry y hist x) {s : RingSem}
    (hx : x.pc = .semCreate s) :
    StartInv entry y (hist ++ [(x, .start)]) (ipcRingDemoStartStep entry x) := by
  have hcount : s.units ipcRingBufSize ≤ osSemCountMax := by cases s <;> decide
  have htask : StartAct.start.taskCreated entry x = none := by simp [StartAct.taskCreated, hx]
  have hres : StartAct.start.taskResumed x = none := by simp [StartAct.taskResumed, hx]
  rcases I.pool.prtSemCreate hcount with ⟨hl, hcr⟩ | ⟨k', h, hl, hcr, hk, hused⟩
  · have hstep : ipcRingDemoStartStep entry x =
        { x with kernel := x.kernel, pc := .returned osErrnoSemAllBusy } := by
      simp [ipcRingDemoStartStep, hx, hcr]
    have hnone : StartAct.start.semCreated x = none := by
      simp [StartAct.semCreated, hx, hcr, Except.toOption]
    rw [hstep]
    refine ⟨I.pool, fun s' hs' => I.used s' (by simpa [semsCreated_snoc, hnone] using hs'), ?_⟩
    right
    by_cases hs : s = .empty
    · subst hs
      refine Or.inl ⟨⟨_, by decide, rfl⟩, ?_, ?_, O.handle hx,
        (firstRefused_snoc _ _ _).mpr (Or.inr ⟨rfl, hx, hl⟩)⟩
      · rw [semsCreated_snoc, hnone, O.sems, hx]
        rfl
      · have hnothing := O.resumed
        have htasks := O.tasks
        rw [hx] at hnothing htasks
        have hnil : tasksCreated entry hist = [] := List.map_eq_nil_iff.mp htasks
        rw [hnil] at hnothing
        rw [tasksResumed_snoc, hres]
        simpa [StartPc.created] using hnothing.symm
    · refine Or.inr (O.leftOver ?_ (by simpa [hx] using hs) ?_ hnone _ (by decide))
      · rw [hx]
        cases s <;> simp [StartPc.sems, RingSem.before] at hs ⊢
      · rw [HasRoom, hx]
        exact not_not.mpr hl
  · have hstep : ipcRingDemoStartStep entry x =
        { x with kernel := k', handle := Function.update x.handle s h, pc := s.next } := by
      simp [ipcRingDemoStartStep, hx, hcr]
    have hsome : StartAct.start.semCreated x = some h := by
      simp [StartAct.semCreated, hx, hcr, Except.toOption]
    have hold : s.before.map (Function.update x.handle s h) = s.before.map x.handle := by
      refine List.map_congr_left fun s' hs' => Function.update_of_ne ?_ _ _
      rintro rfl
      exact s'.not_mem_before hs'
    rw [hstep]
    refine ⟨hk.pool, fun s' hs' => ?_, Or.inl (O.next ?_ ?_ ?_ ?_ s.next_ne_first
      fun ret hr => absurd hr (s.next_ne_returned ret))⟩
    · rw [semsCreated_snoc, hsome, List.mem_append] at hs'
      rcases hs' with hs' | hs'
      · exact (hk.frame.sem s').2 (I.used s' hs')
      · rw [show s' = h by simpa using hs']
        exact hused
    · rw [HasRoom, hx]
      exact hl
    · rw [hsome, hx, s.next_sems]
      simp [hold, StartPc.sems]
    · rw [htask, hx, s.next_tasks]
      rfl
    · rw [htask, hres, hx, s.next_created]
      rfl

theorem StartInv.taskCreate (I : StartInv entry y hist x) (O : OnTrack entry y hist x)
    {t : IpcTask} (hx : x.pc = .taskCreate t) :
    StartInv entry y (hist ++ [(x, .start)]) (ipcRingDemoStartStep entry x) := by
  have hnone : StartAct.start.semCreated x = none := by simp [StartAct.semCreated, hx]
  have hres : StartAct.start.taskResumed x = none := by simp [StartAct.taskResumed, hx]
  have hout := I.pool.prtTaskCreate (t.param entry)
  obtain ⟨k', r, hcr⟩ : ∃ k' r, prtTaskCreate x.kernel (t.param entry) = (k', r) := ⟨_, _, rfl⟩
  rw [hcr] at hout
  have hused : ∀ s ∈ semsCreated (hist ++ [(x, .start)]), (k'.allSem s).semStat = osSemUsed := by
    intro s hs
    rw [hout.allSem]
    exact I.used s (by simpa [semsCreated_snoc, hnone] using hs)
  have hsems : x.pc.sems ≠ [] := by simp [hx, StartPc.sems]
  have hfirst : x.pc ≠ .semCreate .empty := by simp [hx]
  have hfail : ∀ ret, ret ≠ osOk → r = .error ret → ¬ HasRoom x →
      StartInv entry y (hist ++ [(x, .start)]) (ipcRingDemoStartStep entry x) := by
    rintro ret hret rfl hroom
    have hstep : ipcRingDemoStartStep entry x = { x with kernel := k', pc := .returned ret } := by
      simp [ipcRingDemoStartStep, hx, hcr]
    rw [hstep]
    exact ⟨I.pool.outcome hout, hused,
      Or.inr (Or.inr (O.leftOver hsems hfirst hroom hnone _ hret))⟩
  have hP := I.pool.outcome hout
  cases hout with
  | noTcb hl =>
    refine hfail _ (by decide) rfl fun hroom => ?_
    rw [HasRoom, hx] at hroom
    exact hroom.1 hl
  | noStack _ hno =>
    refine hfail _ (by decide) rfl fun hroom => ?_
    rw [HasRoom, hx] at hroom
    obtain ⟨i, hi, hu⟩ := hroom.2
    rw [hno.2.resolve_left (not_not.mpr rfl) i hi] at hu
    cases hu
  | @created cb rest flg stack used hl hst =>
    have hroom : HasRoom x := by
      rw [HasRoom, hx]
      refine ⟨by simp [hl], ?_⟩
      cases hst with
      | user ha => exact absurd rfl ha
      | sys _ _ hi hu => exact ⟨_, hi, hu⟩
    have hstep : ipcRingDemoStartStep entry x =
        { x with
          kernel := createdKernel x.kernel cb
            (createdTcb (x.kernel.tskCbArray cb) (t.param entry) flg stack) used
          pc := .taskResume t cb } := by
      simp only [ipcRingDemoStartStep, hx, hcr]
    have hsome : StartAct.start.taskCreated entry x = some (t, cb) := by
      simp [StartAct.taskCreated, hx, hcr, Except.toOption]
    rw [hstep]
    refine ⟨hP, hused, Or.inl (O.next hroom ?_ ?_ ?_ (by simp) (by simp))⟩
    · rw [hnone, hx]
      simp [StartPc.sems]
    · rw [hsome, hx]
      rfl
    · rw [hsome, hres, hx]
      rfl

theorem StartInv.taskResume (I : StartInv entry y hist x) (O : OnTrack entry y hist x)
    {t : IpcTask} {pid : Nat} (hx : x.pc = .taskResume t pid) :
    StartInv entry y (hist ++ [(x, .start)]) (ipcRingDemoStartStep entry x) := by
  have hnone : StartAct.start.semCreated x = none := by simp [StartAct.semCreated, hx]
  have htask : StartAct.start.taskCreated entry x = none := by simp [StartAct.taskCreated, hx]
  have hres : StartAct.start.taskResumed x = some (t, pid) := by simp [StartAct.taskResumed, hx]
  have hk := I.pool.prtTaskResume pid
  have hstep : ipcRingDemoStartStep entry x =
      { x with kernel := (prtTaskResume x.kernel pid).1, pc := t.next } := by
    simp only [ipcRingDemoStartStep, hx]
  rw [hstep]
  refine ⟨hk.pool, fun s hs => (hk.frame.sem s).2 (I.used s ?_), Or.inl (O.next ?_ ?_ ?_ ?_
    t.next_ne_first fun ret hr => absurd hr (t.next_ne_returned ret))⟩
  · simpa [semsCreated_snoc, hnone] using hs
  · rw [HasRoom, hx]
    trivial
  · rw [hnone, hx, t.next_sems]
    simp [StartPc.sems]
  · rw [htask, hx, t.next_tasks]
    simp [StartPc.tasks]
  · rw [htask, hres, hx, t.next_created]
    rfl

theorem StartInv.setStarted (I : StartInv entry y hist x) (O : OnTrack entry y hist x)
    (hx : x.pc = .setStarted) :
    StartInv entry y (hist ++ [(x, .start)]) (ipcRingDemoStartStep entry x) := by
  have hnone : StartAct.start.semCreated x = none := by simp [StartAct.semCreated, hx]
  have htask : StartAct.start.taskCreated entry x = none := by simp [StartAct.taskCreated, hx]
  have hres : StartAct.start.taskResumed x = none := by simp [StartAct.taskResumed, hx]
  have hstep : ipcRingDemoStartStep entry x =
      { x with demoStarted := true, pc := .returned osOk } := by
    simp only [ipcRingDemoStartStep, hx]
  rw [hstep]
  refine ⟨I.pool, fun s hs => I.used s ?_, Or.inl (O.next ?_ ?_ ?_ ?_ (by simp) ?_)⟩
  · simpa [semsCreated_snoc, hnone] using hs
  · rw [HasRoom, hx]
    trivial
  · rw [hnone, hx]
    simp [StartPc.sems]
  · rw [htask, hx]
    rfl
  · rw [htask, hres, hx]
    rfl
  · intro ret hr
    exact ⟨(StartPc.returned.inj hr).symm, rfl⟩

/-- **Step lemma.** -/
theorem StartInv.step (I : StartInv entry y hist x) {caller : Nat} {a : StartAct}
    (ha : a.Allowed caller x) : StartInv entry y (hist ++ [(x, a)]) (a.exec entry x) := by
  cases a with
  | other op => exact I.other ha.1
  | start =>
    have O : OnTrack entry y hist x := by
      rcases I.phase with h | h | h
      · exact h
      · obtain ⟨ret, -, hr⟩ := h.ret
        exact absurd (by rw [hr]; rfl) ha.2
      · obtain ⟨ret, -, hr⟩ := h.ret
        exact absurd (by rw [hr]; rfl) ha.2
    cases hx : x.pc with
    | semCreate s => exact I.semCreate O hx
    | taskCreate t => exact I.taskCreate O hx
    | taskResume t pid => exact I.taskResume O hx
    | setStarted => exact I.setStarted O hx
    | returned ret => exact absurd (by rw [hx]; rfl) ha.2

theorem StartInv.called {khist : History} (hk : Run callMachine khist y.kernel)
    (hs : y.demoStarted = false) : StartInv entry y [] (ipcRingDemoStart y) := by
  have hcall : ipcRingDemoStart y = { y with pc := .semCreate .empty } := by
    simp [ipcRingDemoStart, hs]
  rw [hcall]
  exact ⟨Pool.of_run hk, fun s hs => by simp [semsCreated] at hs,
    Or.inl ⟨rfl, rfl, rfl, fun e he => by simp at he, fun _ => rfl, fun ret hr => by cases hr⟩⟩

end

/-- **A call of `IPC_RingDemoStart` is all-or-nothing exactly when it is refused its first
semaphore or finds everything it needs.** -/
theorem allOrNothing_iff {caller : Nat} {y x : StartState} {hist : StartHistory}
    {khist : History} (hk : Run callMachine khist y.kernel) (hs : y.demoStarted = false)
    (r : Run (startMachine entry caller (ipcRingDemoStart y)) hist x) :
    AllOrNothing entry y hist x ↔ FirstRefused hist ∨ AllRoom hist := by
  have I : StartInv entry y hist x := by
    refine r.invariant_hist (StartInv entry y) ?_ fun hist x a _ I ha => I.step ha
    rintro x rfl
    exact StartInv.called hk hs
  rcases I.phase with O | R | L
  · refine iff_of_true ⟨fun ret hne hr => absurd (O.ret ret hr).1 hne, fun hr => ?_⟩
      (Or.inr O.room)
    have hsems := O.sems
    have htasks := O.tasks
    have hres := O.resumed
    rw [hr] at hsems htasks hres
    exact ⟨(O.ret _ hr).2, hsems, htasks, by simpa [StartPc.created] using hres.symm⟩
  · obtain ⟨ret, hret, hpc⟩ := R.ret
    refine iff_of_true ⟨fun ret' _ _ => ⟨R.resumed, ?_, R.handle⟩, fun hr => ?_⟩ (Or.inl R.first)
    · rw [R.sems]
      simp
    · rw [hpc] at hr
      exact absurd (StartPc.returned.inj hr) hret
  · obtain ⟨ret, hret, hpc⟩ := L.ret
    refine iff_of_false (fun h => ?_) (fun h => h.elim L.first L.room)
    obtain ⟨s, hs⟩ := List.exists_mem_of_ne_nil _ L.sems
    have hunused := (h.nothing ret hret hpc).2.1 s hs
    rw [I.used s hs] at hunused
    cases hunused

instance (x : StartState) : Decidable (HasRoom x) :=
  match h : x.pc with
  | .semCreate _ => decidable_of_iff (x.kernel.unusedSemList ≠ []) (by rw [HasRoom, h])
  | .taskCreate _ => decidable_of_iff (x.kernel.tskCbFreeList ≠ [] ∧
      ∃ i, i < stackMemNum ∧ x.kernel.stackMemUsed i = false) (by rw [HasRoom, h])
  | .taskResume _ _ | .setStarted | .returned _ => .isTrue (by rw [HasRoom, h]; trivial)

instance (caller : Nat) (x₀ x : StartState) (a : StartAct) :
    Decidable ((startMachine entry caller x₀).Allowed x a) :=
  inferInstanceAs (Decidable (a.Allowed caller x))

/-- The shell runs, with `n` tasks besides it and the idle task. -/
def shellOps (n : Nat) : List Op :=
  [.taskCreate { taskPrio := 9 }, .taskResume 0, .activate 0] ++
    List.replicate n (.taskCreate { taskPrio := 50 })

def shellState (n : Nat) : StartState where
  kernel := (shellOps n).foldl Op.next bootKernel
  handle := fun _ => 0
  demoStarted := false
  pc := .returned osOk

theorem shellState_run (n : Nat)
    (h : ∀ e ∈ trace Op.next bootKernel (shellOps n), callMachine.Allowed e.1 e.2) :
    Run callMachine (trace Op.next bootKernel (shellOps n)) (shellState n).kernel :=
  Run.ofList (M := callMachine) bootKernel_initialised _ h

/-- The steps of the call when one stack is left. -/
def lastStackHistory : StartHistory :=
  trace (StartAct.exec fun _ => 0) (ipcRingDemoStart (shellState 15)) (List.replicate 6 .start)

def lastStackState : StartState :=
  (List.replicate 6 StartAct.start).foldl (StartAct.exec fun _ => 0)
    (ipcRingDemoStart (shellState 15))

/-- The second producer cannot be created; the first one is ready by then. -/
theorem lastStack_not_allOrNothing :
    Run callMachine (trace Op.next bootKernel (shellOps 15)) (shellState 15).kernel ∧
    Run (startMachine (fun _ => 0) 0 (ipcRingDemoStart (shellState 15)))
      lastStackHistory lastStackState ∧
    ¬ AllOrNothing (fun _ => 0) (shellState 15) lastStackHistory lastStackState := by
  refine ⟨shellState_run 15 (by decide +kernel), Run.ofList
    (M := startMachine (fun _ => 0) 0 (ipcRingDemoStart (shellState 15))) rfl _
    (by decide +kernel), fun h => ?_⟩
  have hres := (h.nothing osErrnoTskNoMemory (by decide) (by decide +kernel)).1
  exact absurd hres (by decide +kernel)

/-- With 16 stacks left the call makes one set. -/
theorem freshStart_allOrNothing : AllOrNothing (fun _ => 0) (shellState 0)
    (trace (StartAct.exec fun _ => 0) (ipcRingDemoStart (shellState 0)) (List.replicate 12 .start))
    ((List.replicate 12 StartAct.start).foldl (StartAct.exec fun _ => 0)
      (ipcRingDemoStart (shellState 0))) :=
  (allOrNothing_iff (fun _ => 0) (shellState_run 0 (by decide +kernel)) rfl
    (Run.ofList (M := startMachine (fun _ => 0) 0 (ipcRingDemoStart (shellState 0))) rfl _
      (by decide +kernel))).mpr (Or.inr (by unfold AllRoom; decide +kernel))

end MiniEuler
