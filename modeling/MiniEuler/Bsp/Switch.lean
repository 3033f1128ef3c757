import MiniEuler.Bsp.Hwi
import MiniEuler.Kernel.Preempt

/-! When does a post made by the UART handler switch tasks, with its interrupt
still active? `OS_INT_ACTIVE` is never set, so whenever the woken task outranks
the interrupted one. -/

namespace MiniEuler
open Library

variable {k : Kernel} {ph : Nat → TskPhase} {s : Nat}

/-! ## The task a post makes the most urgent one -/

/-- The owner of `s` is a task whose priority is not its own. -/
def BoostedOwner (k : Kernel) (s : Nat) : Prop :=
  (k.allSem s).semOwner ≠ osInvalidOwnerId ∧ ¬ tskIsUnused k (k.allSem s).semOwner ∧
    k.priority (k.allSem s).semOwner ≠ k.originalPriority (k.allSem s).semOwner

instance (k : Kernel) (s : Nat) : Decidable (BoostedOwner k s) :=
  inferInstanceAs (Decidable (_ ∧ _ ∧ _))

/-- Priorities once the owner of `s` has got back what it may keep. -/
def prioritiesAtPost (k : Kernel) (s : Nat) : Nat → Nat :=
  if BoostedOwner k s then
    Function.update k.priority (k.allSem s).semOwner (restoredPriority k s)
  else k.priority

/-- The run queue once the owner of `s` has been queued again, if it was boosted and
ready, and the first waiter `w` has followed. -/
def queueAtPost (k : Kernel) (s w : Nat) : List Nat :=
  (if BoostedOwner k s ∧ tskStatusTst k (k.allSem s).semOwner osTskReady then
    k.runQueue.erase (k.allSem s).semOwner ++ [(k.allSem s).semOwner]
  else k.runQueue) ++ [w]

/-- A post on `s` wakes a task, and then the first of the most urgent ready tasks is
not the running one. -/
def WakesOther (k : Kernel) (s : Nat) : Prop :=
  Posts k s ∧ ¬ osSemPostIsInvalid k s ∧ ∃ w ∈ (k.semList s).head?,
    (queueAtPost k s w).argmin (prioritiesAtPost k s) ≠ some k.runningTask

theorem WakesOther.semList_ne_nil (h : WakesOther k s) : k.semList s ≠ [] := by
  obtain ⟨-, -, w, hw, -⟩ := h
  intro hnil
  rw [hnil] at hw
  cases hw

theorem osPriorityRestore_priority (k : Kernel) (s : Nat) :
    (osPriorityRestore k s).priority = prioritiesAtPost k s ∧
    (osPriorityRestore k s).runQueue =
      if BoostedOwner k s ∧ tskStatusTst k (k.allSem s).semOwner osTskReady then
        k.runQueue.erase (k.allSem s).semOwner ++ [(k.allSem s).semOwner]
      else k.runQueue := by
  unfold prioritiesAtPost
  rcases osPriorityRestore_cases k s with ⟨h, hwhy⟩ | ⟨hv, hu, hne, h⟩
  · have hno : ¬ BoostedOwner k s := by
      rintro ⟨hv, hu, hne⟩
      rcases hwhy with h | h | h
      · exact hv h
      · exact hu h
      · exact hne h
    rw [if_neg hno, if_neg fun h' => hno h'.1, h]
    exact ⟨rfl, rfl⟩
  · have hb : BoostedOwner k s := ⟨hv, hu, hne⟩
    rw [if_pos hb, h]
    refine ⟨priority_osOwnerPrioritySet k _ _, ?_⟩
    rw [Kernel.runQueue, osOwnerPrioritySet_lists]
    by_cases hr : tskStatusTst k (k.allSem s).semOwner osTskReady
    · rw [if_pos hr, if_pos ⟨hb, hr⟩, NodeLists.tailAdd_self]
      rfl
    · rw [if_neg hr, if_neg fun h' => hr h'.2]

theorem osSemPostSchePre_highest (L : Linked k ph) {w : Nat} {rest : List Nat}
    (hs : (k.allSem s).semStat = osSemUsed) (hl : k.semList s = w :: rest) :
    (osSemPostSchePre k s).highestTask =
      (queueAtPost k s w).argmin (prioritiesAtPost k s) := by
  have LR := L.osPriorityRestore hs
  obtain ⟨hprio, hqueue⟩ := osPriorityRestore_priority k s
  have hw : ph w = .pending s := L.mem_semList.mp (by simp [hl])
  rw [osSemPostSchePre_woken L hs hl, queueAtPost, ← hqueue, ← hprio]
  change ((((osPriorityRestore k s).lists.delete w).tailAdd w .runQueue) .runQueue).argmin _ = _
  rw [NodeLists.tailAdd_self, LR.placed.delete_other (by simp [hw, TskPhase.home])]

/-- **A post leaves the running task running unless it wakes another one.** -/
theorem uartPost_running_iff (I : Inv k ph) (s : Nat) :
    ((Op.uartPost s).next k).runningTask = k.runningTask ↔ ¬ WakesOther k s := by
  rw [Op.next, Op.exec]
  rcases prtSemPost_cases k s with ⟨ret, -, hno, h⟩ | ⟨-, hi, h⟩ | ⟨hP, hi, hl, h⟩ | ⟨hP, hi, hl, h⟩
    <;> rw [h]
  · exact iff_of_true rfl fun hw => hno hw.1
  · exact iff_of_true rfl fun hw => hw.2.1 hi
  · obtain ⟨w, rest, hwr⟩ := List.exists_cons_of_ne_nil hl
    have R := I.osSemPostSchePre_reschedulable hP hwr
    have hused := I.sems.used hP.used
    obtain ⟨F, -⟩ := osSemPostSchePre_frame I.linked hused hwr
    obtain ⟨hi', hhi, -⟩ := exists_highestTask R.linked R.runQueue_ne_nil
    have hargmin := hhi
    rw [osSemPostSchePre_highest I.linked hused hwr] at hargmin
    have hrun : (osTskSchedule (osSemPostSchePre k s)).runningTask = hi' := by
      have hset := R.settled
      have hsched := osTskSchedule_eq R.linked hhi R.lock R.not_osIntActive
      rw [hsched]
      split
      · rename_i he
        exact he.symm
      · rfl
    have hiff : WakesOther k s ↔ hi' ≠ k.runningTask := by
      constructor
      · rintro ⟨-, -, w', hw', hne⟩ he
        rw [hwr] at hw'
        cases hw'
        exact hne (hargmin.trans (by rw [he]))
      · intro hne
        refine ⟨hP, hi, w, by rw [hwr]; rfl, ?_⟩
        rw [hargmin]
        exact fun he => hne (Option.some.inj he)
    rw [hrun, hiff]
    exact not_not.symm
  · exact iff_of_true (I.releasedKernel_frame hP hl).1 fun hw => hw.semList_ne_nil hl

/-! ## Runs with interrupts -/

/-- The next step of the running task is the post of `OsUartRxHandle`. -/
def AtUartPost (σ : System) : Prop := σ.current.map HwiDispatch.pc = some .post

instance (σ : System) : Decidable (AtUartPost σ) := inferInstanceAs (Decidable (_ = _))

/-- No step taken while an interrupt is active changes the running task. -/
def NoSwitchInHandler (hist : List (System × SysAct)) : Prop :=
  ∀ e ∈ hist, e.1.IrqActive →
    (SysAct.exec e.1 e.2).kernel.runningTask = e.1.kernel.runningTask

/-- No post of a handler wakes a task that then goes before the interrupted one. -/
def HandlersWakeNoOther (hist : List (System × SysAct)) : Prop :=
  ∀ e ∈ hist, e.2 = .hwi → AtUartPost e.1 → ¬ WakesOther e.1.kernel e.1.semUartRx

theorem osHwiDispatchStep_kernel (σ : System) : (osHwiDispatchStep σ).kernel =
    if AtUartPost σ then (Op.uartPost σ.semUartRx).next σ.kernel else σ.kernel := by
  rcases hc : σ.current with _ | ⟨irqNum, pc⟩
  · rw [if_neg (by simp [AtUartPost, hc]), osHwiDispatchStep, hc]
  · cases pc with
    | post => rw [if_pos (by simp [AtUartPost, hc]), osHwiDispatchStep, hc]
    | clear =>
      rw [if_neg (by simp [AtUartPost, hc]), osHwiDispatchStep, hc]
      rfl
    | handle =>
      rw [if_neg (by simp [AtUartPost, hc]), osHwiDispatchStep, hc]
      simp only
      split
      · rfl
      · split <;> rfl
      · rfl

/-- A handler step leaves the frames of the other tasks alone. -/
theorem osHwiDispatchStep_dispatch (σ : System) {t : Nat} (ht : t ≠ σ.kernel.runningTask) :
    (osHwiDispatchStep σ).dispatch t = σ.dispatch t := by
  unfold osHwiDispatchStep
  rcases σ.current with _ | ⟨irqNum, pc⟩
  · rfl
  · cases pc with
    | post => simp [System.setCurrent, ht]
    | clear => simp [osGicIntClear, System.setCurrent, ht]
    | handle =>
      simp only
      split
      · simp [osTickDispatcher, System.setCurrent, ht]
      · split <;> simp [System.setCurrent, ht]
      · simp [System.setCurrent, ht]

/-- **Step lemma.** -/
theorem SysAct.inv {σ : System} (h : ∃ ph, Inv σ.kernel ph) {a : SysAct}
    (ha : hwiMachine.Allowed σ a) : ∃ ph, Inv (hwiMachine.exec σ a).kernel ph := by
  obtain ⟨ph, I⟩ := h
  cases a with
  | call op =>
    obtain ⟨-, hc, htime, -⟩ := ha
    exact I.step hc (op.effect I.linked I.lock hc) htime.not_unsupported
  | rx c => exact ⟨ph, I⟩
  | irq irqNum => exact ⟨ph, I⟩
  | hwi =>
    change ∃ ph, Inv (osHwiDispatchStep σ).kernel ph
    rw [osHwiDispatchStep_kernel]
    split
    · have hc : (Op.uartPost σ.semUartRx).Callable σ.kernel := trivial
      exact I.step hc ((Op.uartPost σ.semUartRx).effect I.linked I.lock hc) id
    · exact ⟨ph, I⟩

/-- **Run lemma.** -/
theorem Inv.of_hwiRun {hist : List (System × SysAct)} {σ : System}
    (r : Run hwiMachine hist σ) :
    (∃ ph, Inv σ.kernel ph) ∧ ∀ e ∈ hist, ∃ ph, Inv e.1.kernel ph := by
  have hstart : ∀ σ, hwiMachine.Start σ → ∃ ph, Inv σ.kernel ph :=
    fun _ h => ⟨_, Inv.initialised h.1⟩
  have hstep : ∀ σ a, (∃ ph, Inv σ.kernel ph) → hwiMachine.Allowed σ a →
      ∃ ph, Inv (hwiMachine.exec σ a).kernel ph := fun _ _ h ha => SysAct.inv h ha
  exact ⟨r.invariant (fun σ => ∃ ph, Inv σ.kernel ph) hstart hstep,
    r.invariant_mem (fun σ => ∃ ph, Inv σ.kernel ph) hstart hstep⟩

/-- Only the running task has an interrupt on its stack. -/
def OnlyRunningDispatches (σ : System) : Prop :=
  ∀ t, σ.dispatch t ≠ none → t = σ.kernel.runningTask

theorem OnlyRunningDispatches.not_irqActive {σ : System} (h : OnlyRunningDispatches σ)
    (hc : σ.current = none) : ¬ σ.IrqActive := by
  rintro ⟨t, ht⟩
  rw [h t ht] at ht
  exact ht hc

/-- A step that neither a call nor a handler's post makes keeps the running task. -/
theorem SysAct.running {σ : System} {ph : Nat → TskPhase} (I : Inv σ.kernel ph) {a : SysAct}
    (hcall : ∀ op, a ≠ .call op)
    (hpost : a = .hwi → AtUartPost σ → ¬ WakesOther σ.kernel σ.semUartRx) :
    (SysAct.exec σ a).kernel.runningTask = σ.kernel.runningTask := by
  cases a with
  | call op => exact absurd rfl (hcall op)
  | rx c => rfl
  | irq irqNum => rfl
  | hwi =>
    change (osHwiDispatchStep σ).kernel.runningTask = _
    rw [osHwiDispatchStep_kernel]
    split
    · rename_i hp
      exact (uartPost_running_iff I σ.semUartRx).mpr (hpost rfl hp)
    · rfl

/-- As long as no handler has woken another task, interrupts stay on the stack of the
running task. -/
theorem OnlyRunningDispatches.step {σ : System} (h : OnlyRunningDispatches σ)
    {ph : Nat → TskPhase} (I : Inv σ.kernel ph) {a : SysAct} (ha : hwiMachine.Allowed σ a)
    (hpost : a = .hwi → AtUartPost σ → ¬ WakesOther σ.kernel σ.semUartRx) :
    OnlyRunningDispatches (SysAct.exec σ a) := by
  intro t ht
  cases a with
  | call op => exact absurd ⟨t, ht⟩ (h.not_irqActive ha.1)
  | rx c => exact h t ht
  | irq irqNum =>
    by_contra hne
    have hne' : t ≠ σ.kernel.runningTask := hne
    refine hne (h t ?_)
    simpa [SysAct.exec, osGicIntAcknowledge, System.setCurrent, hne'] using ht
  | hwi =>
    have hrun := SysAct.running I (a := .hwi) (by simp) hpost
    rw [hrun]
    by_contra hne
    refine hne (h t ?_)
    rwa [← osHwiDispatchStep_dispatch σ hne]

/-- **Exactly when no task switch happens inside an interrupt handler.** `OS_INT_ACTIVE`
does not help: it holds in no state. -/
theorem noSwitchInHandler_iff {hist : List (System × SysAct)} {σ : System}
    (r : Run hwiMachine hist σ) :
    (NoSwitchInHandler hist ↔ HandlersWakeNoOther hist) ∧
    ∀ e ∈ hist, ¬ osIntActive e.1.kernel := by
  have hinv := (Inv.of_hwiRun r).2
  refine ⟨⟨?_, ?_⟩, fun e he => ?_⟩
  · intro h e he hhwi hpost
    obtain ⟨ph, I⟩ := hinv e he
    have hact : e.1.IrqActive := by
      refine ⟨e.1.kernel.runningTask, fun hnone => ?_⟩
      rw [AtUartPost, System.current, hnone] at hpost
      cases hpost
    have hrun := h e he hact
    rw [hhwi] at hrun
    change (osHwiDispatchStep e.1).kernel.runningTask = _ at hrun
    rw [osHwiDispatchStep_kernel, if_pos hpost] at hrun
    exact (uartPost_running_iff I _).mp hrun
  · -- the frames stay with the running task, so a call is made with no interrupt active
    suffices hboth : HandlersWakeNoOther hist →
        OnlyRunningDispatches σ ∧ NoSwitchInHandler hist from fun hC => (hboth hC).2
    refine r.invariant_hist (fun hist σ => HandlersWakeNoOther hist →
      OnlyRunningDispatches σ ∧ NoSwitchInHandler hist) ?_ ?_
    · intro σ hs _
      exact ⟨fun t ht => absurd (hs.2 t) ht, fun e he => absurd he (by simp)⟩
    · intro hist σ a r ih ha hC
      obtain ⟨hD, hN⟩ := ih fun e he => hC e (List.mem_append_left _ he)
      obtain ⟨ph, I⟩ := (Inv.of_hwiRun r).1
      have hpost := hC (σ, a) (by simp)
      refine ⟨hD.step I ha hpost, fun e he hact => ?_⟩
      rcases List.mem_append.mp he with h | h
      · exact hN e h hact
      · rw [List.mem_singleton.mp h] at hact ⊢
        refine SysAct.running I (fun op hop => ?_) hpost
        subst hop
        exact hD.not_irqActive ha.1 hact
  · obtain ⟨ph, I⟩ := hinv e he
    exact I.not_osIntActive

/-- The system whose kernel is `bootKernel`, with `sem_uart_rx` the first semaphore
created. -/
def bootSystem : System :=
  { kernel := bootKernel, shell := ShellCB.init, uniTicks := 0, rxFifo := [], semUartRx := 0
    dispatch := fun _ => none }

theorem bootSystem_start : hwiMachine.Start bootSystem :=
  ⟨bootKernel_initialised, fun _ => rfl⟩

/-- Task 0 waits for a character, and the idle task is interrupted when one comes. -/
def rxActs : List SysAct :=
  [.call (.taskCreate { taskPrio := 10 }), .call (.taskResume 0), .call (.activate 0),
    .call (.semCreate 0 false), .call (.semPend 0 osWaitForever), .rx 97, .irq 33, .hwi, .hwi]

/-- The idle task and an interrupt that stores a character nobody waits for. -/
def strayRxActs : List SysAct :=
  [.call (.activate 0), .call (.semCreate 0 false), .rx 97, .irq 33, .hwi, .hwi, .hwi, .hwi,
    .irq 30, .hwi, .hwi]

/-- The run after `OsActivate` in which the post of the handler starts task 0. -/
theorem rx_switches_in_handler :
    Run hwiMachine (trace SysAct.exec bootSystem rxActs) (rxActs.foldl SysAct.exec bootSystem) ∧
    ¬ NoSwitchInHandler (trace SysAct.exec bootSystem rxActs) := by
  have r : Run hwiMachine (trace SysAct.exec bootSystem rxActs)
      (rxActs.foldl SysAct.exec bootSystem) :=
    Run.ofList (M := hwiMachine) bootSystem_start rxActs (by decide +kernel)
  refine ⟨r, fun h => ?_⟩
  have hlast : (trace SysAct.exec bootSystem rxActs)[8]? =
      some ((rxActs.take 8).foldl SysAct.exec bootSystem, .hwi) := rfl
  have hact : ((rxActs.take 8).foldl SysAct.exec bootSystem).current ≠ none := by decide +kernel
  have hrun := h _ (List.mem_of_getElem? hlast) ⟨_, hact⟩
  revert hrun
  decide +kernel

theorem noSwitchInHandler_of_strayRx :
    NoSwitchInHandler (trace SysAct.exec bootSystem strayRxActs) := by
  refine (noSwitchInHandler_iff (Run.ofList (M := hwiMachine) bootSystem_start strayRxActs
    (by decide +kernel))).1.mpr ?_
  have hnil : ∀ e ∈ trace SysAct.exec bootSystem strayRxActs,
      e.1.kernel.semList e.1.semUartRx = [] := by
    decide +kernel
  exact fun e he _ _ hw => hw.semList_ne_nil (hnil e he)

end MiniEuler
