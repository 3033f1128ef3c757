import MiniEuler.Kernel.Parked

/-! `PRT_TaskResume` for every 32-bit pid: which control blocks it reads and
writes, when it accepts the pid, and what it does then. -/

namespace MiniEuler
open Library

variable {k k' : Kernel} {hist : History}

/-! ## The blocks a resume touches -/

/-- A state with the control blocks that were read or written on the way to it. -/
abbrev Traced := Kernel × List Nat

def Traced.touch (t : Traced) (p : Nat) : Traced := (t.1, t.2 ++ [p])

def Traced.run (t : Traced) (f : Kernel → Kernel) : Traced := (f t.1, t.2)

/-- `LIST_FOR_EACH` reads every task of the run queue. -/
def Traced.highestSet (t : Traced) : Traced := (osTskHighestSet t.1, t.2 ++ t.1.runQueue)

/-- `ListTailAdd` writes the new node and the last one of the queue. -/
def Traced.readyAdd (t : Traced) (task : Nat) : Traced :=
  let t := (t.touch task).run fun k => tskStatusSet k task osTskReady
  let t : Traced := (osEnqueueTaskAmp t.1 task, t.2 ++ task :: t.1.runQueue.getLast?.toList)
  t.highestSet

def Traced.mainSchedule (t : Traced) : Traced :=
  if t.1.uniFlag &&& osFlgTskReq ≠ 0 then
    let t := t.run fun k => { k with uniFlag := k.uniFlag &&& ~~~osFlgTskReq }
    let t := (t.touch t.1.runningTask).run fun k => tskStatusClear k k.runningTask osTskRunning
    match t.1.highestTask with
    | none => t.run fun k => { k with fault := true }
    | some highest =>
      (t.touch highest).run fun k =>
        { tskStatusSet k highest osTskRunning with runningTask := highest }
  else t

/-- `OsTaskTrap` stores the stack pointer of the running task. -/
def Traced.taskTrap (t : Traced) : Traced := (t.touch t.1.runningTask).mainSchedule

def Traced.schedule (t : Traced) : Traced :=
  let t := t.highestSet
  if t.1.highestTask ≠ some t.1.runningTask ∧ t.1.uniTaskLock = 0 then
    let t := t.run fun k => { k with uniFlag := k.uniFlag ||| osFlgTskReq }
    if ¬ osIntActive t.1 then t.taskTrap else t
  else t

def Traced.moveTaskToReady (t : Traced) (taskCb : Nat) : Traced :=
  let t := t.touch taskCb
  let t :=
    if tskStatusTst t.1 taskCb osTskDelayInterruptible then
      let t := if tskStatusTst t.1 taskCb osTskTimeout then
        (t.touch taskCb).run fun k => osTskDelayLockedDetach k taskCb else t
      (t.touch taskCb).run fun k =>
        tskStatusClear k taskCb (osTskTimeout ||| osTskDelayInterruptible)
    else t
  if ¬ tskStatusTst t.1 taskCb osTskBlock then
    let t := t.readyAdd taskCb
    if bgdActive t.1 then t.schedule else t
  else t

/-- `PRT_TaskResume` with its trace and the code it returns. -/
def Traced.taskResume (t : Traced) (taskPid : Nat) : Traced × Nat :=
  let taskCb := getTcbHandle taskPid
  let t := t.touch taskCb
  if tskIsUnused t.1 taskCb then (t, osErrnoTskNotCreated)
  else if tskStatusTst t.1 taskCb osTskRunning ∧ t.1.uniTaskLock ≠ 0 then
    (t, osErrnoTskActiveFailed)
  else if ¬ tskStatusTst t.1 taskCb (osTskSuspend ||| osTskDelayInterruptible) then
    (t, osErrnoTskNotSuspended)
  else
    let t := t.run fun k => tskStatusClear k taskCb osTskSuspend
    (t.moveTaskToReady taskCb, osOk)

/-- The blocks that `PRT_TaskResume` reads or writes, in order. -/
def resumeTcbs (k : Kernel) (taskPid : Nat) : List Nat := (Traced.taskResume (k, []) taskPid).1.2

namespace Traced

variable (t : Traced) (p : Nat)

theorem ite_fst (c : Prop) [Decidable c] (t u : Traced) :
    (if c then t else u).1 = if c then t.1 else u.1 := by
  split <;> rfl

@[simp] theorem touch_fst : (t.touch p).1 = t.1 := rfl

@[simp] theorem run_fst (f : Kernel → Kernel) : (t.run f).1 = f t.1 := rfl

@[simp] theorem highestSet_fst : t.highestSet.1 = osTskHighestSet t.1 := rfl

@[simp] theorem readyAdd_fst : (t.readyAdd p).1 = osTskReadyAdd t.1 p := rfl

@[simp] theorem mainSchedule_fst : t.mainSchedule.1 = osMainSchedule t.1 := by
  unfold mainSchedule osMainSchedule
  split
  · cases hh : t.1.highestTask <;> simp [tskStatusClear, Kernel.setTcb, hh]
  · rfl

@[simp] theorem taskTrap_fst : t.taskTrap.1 = osTaskTrap t.1 := by
  rw [taskTrap, mainSchedule_fst, touch_fst, osTaskTrap]

@[simp] theorem schedule_fst : t.schedule.1 = osTskSchedule t.1 := by
  unfold schedule osTskSchedule
  simp only
  rw [ite_fst, ite_fst, taskTrap_fst]
  rfl

@[simp] theorem moveTaskToReady_fst :
    (t.moveTaskToReady p).1 = osMoveTaskToReady t.1 p := by
  unfold moveTaskToReady osMoveTaskToReady
  by_cases h : tskStatusTst t.1 p osTskDelayInterruptible
  · by_cases h' : tskStatusTst t.1 p osTskTimeout <;>
      simp only [touch_fst, run_fst, h, h', ↓reduceIte, osTskDelayLockedDetach] <;>
      rw [ite_fst, ite_fst, schedule_fst] <;> rfl
  · simp only [touch_fst, h, ↓reduceIte]
    rw [ite_fst, ite_fst, schedule_fst]
    rfl

/-- Either the block is looked at and nothing happens, or the task is moved. -/
theorem taskResume_cases :
    (∃ ret, t.taskResume p = (t.touch p, ret) ∧ prtTaskResume t.1 p = (t.1, ret)) ∨
    (tskStatusTst t.1 p (osTskSuspend ||| osTskDelayInterruptible) ∧
      t.taskResume p = (((t.touch p).run fun k =>
        tskStatusClear k p osTskSuspend).moveTaskToReady p, osOk) ∧
      prtTaskResume t.1 p = (osMoveTaskToReady (tskStatusClear t.1 p osTskSuspend) p, osOk)) := by
  by_cases hu : tskIsUnused t.1 p
  · exact Or.inl ⟨osErrnoTskNotCreated, if_pos hu, if_pos hu⟩
  by_cases hr : tskStatusTst t.1 p osTskRunning ∧ t.1.uniTaskLock ≠ 0
  · exact Or.inl ⟨osErrnoTskActiveFailed, (if_neg hu).trans (if_pos hr),
      (if_neg hu).trans (if_pos hr)⟩
  by_cases hs : tskStatusTst t.1 p (osTskSuspend ||| osTskDelayInterruptible)
  · exact Or.inr ⟨hs, (if_neg hu).trans ((if_neg hr).trans (if_neg (not_not.mpr hs))),
      (if_neg hu).trans ((if_neg hr).trans (if_neg (not_not.mpr hs)))⟩
  · exact Or.inl ⟨osErrnoTskNotSuspended, (if_neg hu).trans ((if_neg hr).trans (if_pos hs)),
      (if_neg hu).trans ((if_neg hr).trans (if_pos hs))⟩

/-- The trace changes nothing of what the call does. -/
theorem taskResume_fst : ((t.taskResume p).1.1, (t.taskResume p).2) = prtTaskResume t.1 p := by
  rcases taskResume_cases t p with ⟨ret, h₁, h₂⟩ | ⟨-, h₁, h₂⟩
  · rw [h₁, h₂, touch_fst]
  · rw [h₁, h₂, moveTaskToReady_fst, run_fst, touch_fst]

/-! ## Traces grow -/

theorem prefix_touch : t.2 <+: (t.touch p).2 := List.prefix_append _ _

theorem prefix_readyAdd : t.2 <+: (t.readyAdd p).2 :=
  (prefix_touch t p).trans ((List.prefix_append _ _).trans (List.prefix_append _ _))

theorem prefix_mainSchedule : t.2 <+: t.mainSchedule.2 := by
  unfold mainSchedule
  split
  · simp only
    split
    · exact prefix_touch t _
    · exact (prefix_touch t _).trans (prefix_touch _ _)
  · exact List.prefix_refl _

theorem prefix_taskTrap : t.2 <+: t.taskTrap.2 :=
  (prefix_touch t _).trans (prefix_mainSchedule _)

theorem prefix_schedule : t.2 <+: t.schedule.2 := by
  have h : t.2 <+: t.highestSet.2 := List.prefix_append _ _
  unfold schedule
  simp only
  split
  · split
    · exact h.trans (prefix_taskTrap (t.highestSet.run _))
    · exact h
  · exact h

theorem moveTaskToReady_prefix : t.2 <+: (t.moveTaskToReady p).2 := by
  have moved : ∀ u : Traced, t.2 <+: u.2 → t.2 <+:
      (if ¬ tskStatusTst u.1 p osTskBlock then
        if bgdActive (u.readyAdd p).1 then (u.readyAdd p).schedule else u.readyAdd p
      else u).2 := by
    intro u h
    have h₁ := h.trans (prefix_readyAdd u p)
    split
    · split
      · exact h₁.trans (prefix_schedule _)
      · exact h₁
    · exact h
  refine moved _ ?_
  split
  · refine List.IsPrefix.trans ?_ (prefix_touch _ p)
    split
    · exact (prefix_touch t p).trans (prefix_touch _ p)
    · exact prefix_touch t p
  · exact prefix_touch t p

/-! ## Only blocks of the array -/

/-- Every block of the trace is one of the array's `n`. -/
def Inside (n : Nat) (t : Traced) : Prop := ∀ q ∈ t.2, q < n

variable {t : Traced} {p : Nat} {n : Nat}

theorem Inside.touch (h : t.Inside n) (hp : p < n) : (t.touch p).Inside n := by
  intro q hq
  rcases List.mem_append.mp hq with hq | hq
  · exact h q hq
  · rw [List.mem_singleton.mp hq]
    exact hp

theorem Inside.highestSet (h : t.Inside n) (hq : ∀ q ∈ t.1.runQueue, q < n) :
    t.highestSet.Inside n := by
  intro q hm
  rcases List.mem_append.mp hm with hm | hm
  · exact h q hm
  · exact hq q hm

theorem Inside.readyAdd (h : t.Inside n) (hp : p < n) (hq : ∀ q ∈ t.1.runQueue, q < n) :
    (t.readyAdd p).Inside n := by
  refine Inside.highestSet (fun q hm => ?_) fun q hm => ?_
  · rcases List.mem_append.mp hm with hm | hm
    · exact h.touch hp q hm
    · rcases List.mem_cons.mp hm with rfl | hm
      · exact hp
      · exact hq q (List.mem_of_getLast? (Option.mem_toList.mp hm))
  · have hm : q ∈ t.1.lists.tailAdd p .runQueue .runQueue := hm
    rw [NodeLists.tailAdd_self, List.mem_append, List.mem_singleton] at hm
    rcases hm with hm | rfl
    · exact hq q hm
    · exact hp

theorem Inside.mainSchedule (h : t.Inside n) (hr : t.1.runningTask < n)
    (hh : ∀ q, t.1.highestTask = some q → q < n) : t.mainSchedule.Inside n := by
  unfold Traced.mainSchedule
  split
  · have h₁ : (t.touch t.1.runningTask).Inside n := h.touch hr
    simp only
    split
    · exact h₁
    · rename_i q hq
      exact h₁.touch (hh q hq)
  · exact h

theorem Inside.schedule (h : t.Inside n) (hr : t.1.runningTask < n)
    (hq : ∀ q ∈ t.1.runQueue, q < n) : t.schedule.Inside n := by
  have h₁ := h.highestSet hq
  have hh : ∀ q, (osTskHighestSet t.1).highestTask = some q → q < n := by
    intro q hs
    rw [osTskHighestSet_highestTask] at hs
    exact hq q (List.argmin_mem hs)
  unfold Traced.schedule
  simp only
  split
  · split
    · exact Inside.mainSchedule (h₁.touch hr) hr hh
    · exact h₁
  · exact h₁

theorem Inside.moveTaskToReady (h : t.Inside n) (hp : p < n) (hr : t.1.runningTask < n)
    (hq : ∀ q ∈ t.1.runQueue, q < n) (hdi : ¬ tskStatusTst t.1 p osTskDelayInterruptible) :
    (t.moveTaskToReady p).Inside n := by
  have h₁ := h.touch hp
  have h₂ := h₁.readyAdd hp hq
  have hrun : ((t.touch p).readyAdd p).1.runningTask < n := by
    rw [readyAdd_fst, osTskReadyAdd_eq]
    exact hr
  have hqueue : ∀ q ∈ ((t.touch p).readyAdd p).1.runQueue, q < n := by
    intro q hm
    rw [readyAdd_fst, osTskReadyAdd_eq] at hm
    have hm : q ∈ t.1.lists.tailAdd p .runQueue .runQueue := hm
    rw [NodeLists.tailAdd_self, List.mem_append, List.mem_singleton] at hm
    rcases hm with hm | rfl
    · exact hq q hm
    · exact hp
  unfold Traced.moveTaskToReady
  simp only [touch_fst, hdi, ↓reduceIte]
  split
  · split
    · exact h₂.schedule hrun hqueue
    · exact h₂
  · exact h₁

end Traced

theorem ParkInv.resume_inside (I : ParkInv k) {p : Nat} (hp : p < osMaxTcbNum k) :
    ∀ q ∈ resumeTcbs k p, q < osMaxTcbNum k := by
  have h : (Traced.touch (k, []) p).Inside (osMaxTcbNum k) :=
    Traced.Inside.touch (fun q hq => by cases hq) hp
  rcases Traced.taskResume_cases (k, []) p with ⟨ret, h₁, -⟩ | ⟨hpark, h₁, -⟩
  · rw [resumeTcbs, h₁]
    exact h
  · obtain ⟨I₁, hst, -, -⟩ := I.clearSuspend (p := p) hpark
    rw [resumeTcbs, h₁]
    refine Traced.Inside.moveTaskToReady h hp I.running (fun q hm => ?_)
      ((tst_of_status hst _).not.mpr (by decide))
    have hle := I.listed q .runQueue hm
    unfold osMaxTcbNum
    omega

/-! ## What a resume does -/

/-- `p` has been resumed: its bits are cleared, it is at the end of the run queue
once if nothing else blocks it, and the scheduler has run only if it was started. -/
structure Resumed (k : Kernel) (p : Nat) (k' : Kernel) : Prop where
  notQueued : p ∉ k.runQueue
  queued : ∃ k₁, ¬ tskStatusTst k₁ p (osTskSuspend ||| osTskDelayInterruptible) ∧
    k₁.runQueue = (if (k.tskCbArray p).taskStatus &&& ~~~(osTskSuspend ||| osTskDelayInterruptible)
      &&& osTskBlock = 0 then k.runQueue ++ [p] else k.runQueue) ∧
    (∀ h, h ≠ .runQueue → k₁.lists h = k.lists h) ∧
    (∀ q, q ≠ p → k₁.tskCbArray q = k.tskCbArray q) ∧
    k₁.runningTask = k.runningTask ∧ k₁.uniFlag = k.uniFlag ∧
    k' = if bgdActive k then osTskSchedule k₁ else k₁

/-- What a resume of `p` should do in `k`. -/
structure ResumeMeets (k : Kernel) (p : Nat) : Prop where
  inside : ∀ q ∈ resumeTcbs k p, q < osMaxTcbNum k
  accepted : (prtTaskResume k p).2 = osOk ↔
    IsTask k p ∧ tskStatusTst k p (osTskSuspend ||| osTskDelayInterruptible)
  resumed : (prtTaskResume k p).2 = osOk → Resumed k p (prtTaskResume k p).1
  refused : (prtTaskResume k p).2 ≠ osOk → (prtTaskResume k p).1 = k

theorem ParkInv.resumed (I : ParkInv k) {p : Nat} (hp : Parked k p) :
    Resumed k p (MiniEuler.prtTaskResume k p).1 := by
  have hst := (I.parked p hp).2
  have hblock : (k.tskCbArray p).taskStatus &&& ~~~(osTskSuspend ||| osTskDelayInterruptible) &&&
      osTskBlock = 0 := by
    rw [hst]
    decide
  have heq : MiniEuler.resumedKernel k p = _ :=
    osTskReadyAdd_eq (MiniEuler.tskStatusClear k p osTskSuspend) p
  refine ⟨(I.apart p hp).1 .runQueue, MiniEuler.resumedKernel k p, ?_, ?_, fun h hh => ?_,
    fun q hq => ?_, ?_, ?_, ?_⟩
  · have hat : ((MiniEuler.resumedKernel k p).tskCbArray p).taskStatus =
        osTskInuse ||| osTskReady := by
      rw [heq]
      simp only [Function.update_self]
      rw [(I.clearSuspend hp).2.1]
    exact (tst_of_status hat _).not.mpr (by decide)
  · rw [if_pos hblock, heq]
    exact NodeLists.tailAdd_self k.lists p .runQueue
  · rw [heq]
    exact NodeLists.tailAdd_other k.lists p hh
  · rw [heq]
    simp [MiniEuler.tskStatusClear, Kernel.setTcb, hq]
  · rw [heq]
    rfl
  · rw [heq]
    rfl
  · rw [I.resume_parked hp]

theorem ParkInv.resumeMeets (I : ParkInv k) {p : Nat} (hp : p < osMaxTcbNum k) :
    ResumeMeets k p := by
  by_cases hpark : Parked k p
  · have hret : (MiniEuler.prtTaskResume k p).2 = osOk := by rw [I.resume_parked hpark]
    obtain ⟨hle, hst⟩ := I.parked p hpark
    refine ⟨I.resume_inside hp, iff_of_true hret ⟨⟨hle, ?_⟩, hpark⟩, fun _ => I.resumed hpark,
      fun h => absurd hret h⟩
    exact (tst_of_status hst _).mpr (by decide)
  · obtain ⟨ret, hne, h⟩ := I.resume_refused hpark
    have hret : (MiniEuler.prtTaskResume k p).2 ≠ osOk := by rw [h]; exact hne
    refine ⟨I.resume_inside hp, iff_of_false hret fun h => hpark h.2, fun h => absurd h hret,
      fun _ => by rw [h]⟩

/-- The first statement reads the status of the block that the pid names. -/
theorem mem_resumeTcbs (k : Kernel) (p : Nat) : p ∈ resumeTcbs k p := by
  have h : p ∈ (Traced.touch (k, []) p).2 := by simp [Traced.touch]
  rcases Traced.taskResume_cases (k, []) p with ⟨ret, h₁, -⟩ | ⟨-, h₁, -⟩ <;> rw [resumeTcbs, h₁]
  · exact h
  · exact (Traced.moveTaskToReady_prefix _ _).subset h

/-- **In every reachable state a resume does what it should exactly for the pids
of the array.** -/
theorem resume_meets_iff (r : Run resumeMachine hist k) (taskPid : BitVec 32) :
    ResumeMeets k taskPid.toNat ↔ taskPid.toNat < osMaxTcbNum k := by
  obtain ⟨I, -⟩ := ParkInv.of_run r
  exact ⟨fun h => h.inside _ (mem_resumeTcbs k _), fun h => I.resumeMeets h⟩

/-- Beside a task that waits and one that has been lent its priority, task 3 is suspended and is
accepted; the zombie block is refused. -/
theorem resume_meets_boost : ResumeMeets boostKernel 3 ∧ ResumeMeets boostKernel 23 ∧
    (prtTaskResume boostKernel 3).2 = osOk ∧ (prtTaskResume boostKernel 23).2 ≠ osOk := by
  have r := Run.ofList (M := resumeMachine) bootKernel_initialised boostOps (by decide +kernel)
  exact ⟨(resume_meets_iff r 3#32).mpr (by decide +kernel),
    (resume_meets_iff r 23#32).mpr (by decide +kernel), by decide +kernel, by decide +kernel⟩

/-- The array has 24 blocks, and resuming pid 24 reads the one after them. -/
theorem resume_reads_beyond : Run resumeMachine [] bootKernel ∧
    24 ∈ resumeTcbs bootKernel (24#32).toNat ∧ ¬ ResumeMeets bootKernel (24#32).toNat :=
  ⟨.start bootKernel_initialised, mem_resumeTcbs bootKernel 24, fun h =>
    absurd (h.inside 24 (mem_resumeTcbs bootKernel 24)) (by decide +kernel)⟩

end MiniEuler
