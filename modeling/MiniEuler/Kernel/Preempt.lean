import MiniEuler.Kernel.Units

/-! Preemption: when does a ready task outrank the running one? -/

namespace MiniEuler
open Library

variable {k k' : Kernel} {ph : Nat → TskPhase} {s : Nat}

/-- No task of the run queue outranks the running task. -/
def Preemptive (k : Kernel) : Prop := ∀ q ∈ k.runQueue, k.priority k.runningTask ≤ k.priority q

instance (k : Kernel) : Decidable (Preemptive k) := inferInstanceAs (Decidable (∀ q ∈ _, _))

/-- A post without waiters that takes a boost away from the running task, while a
ready task is more urgent than the priority it falls back to. -/
def Demotes (k : Kernel) (op : Op) : Prop :=
  ∃ s, op.posts = some s ∧ Posts k s ∧ ¬ osSemPostIsInvalid k s ∧ k.semList s = [] ∧
    (k.allSem s).semOwner = k.runningTask ∧
    k.priority k.runningTask ≠ k.originalPriority k.runningTask ∧
    ∃ q ∈ k.runQueue, q ≠ k.runningTask ∧ k.priority q < k.originalPriority k.runningTask

theorem preemptive_of_settled (L : Linked k ph) (h : k.highestTask = some k.runningTask) :
    Preemptive k := by
  intro q hq
  rw [L.fresh] at h
  exact List.le_of_mem_argmin hq h

theorem Reschedulable.preemptive (R : Reschedulable k ph) : Preemptive (osTskSchedule k) :=
  preemptive_of_settled R.inv.linked R.settled

/-! ## Frames of priorities -/

theorem priority_osOwnerPrioritySet (k : Kernel) (p v : Nat) :
    (osOwnerPrioritySet k p v).priority = Function.update k.priority p v := by
  funext q
  rw [Kernel.priority, osOwnerPrioritySet_tskCbArray]
  by_cases h : q = p
  · subst h; simp
  · simp [h]

/-- A post without waiters changes one priority at most: a boosted owner gets back
its original one. -/
theorem priority_releasedKernel (L : Linked k ph) (hs : (k.allSem s).semStat = osSemUsed)
    (hl : k.semList s = []) :
    ((releasedKernel k s).priority = k.priority ∧ ((k.allSem s).semOwner = osInvalidOwnerId ∨
      k.priority (k.allSem s).semOwner = k.originalPriority (k.allSem s).semOwner)) ∨
    ((k.allSem s).semOwner ≤ k.tskMaxNum ∧
      k.priority (k.allSem s).semOwner ≠ k.originalPriority (k.allSem s).semOwner ∧
      (releasedKernel k s).priority = Function.update k.priority (k.allSem s).semOwner
        (k.originalPriority (k.allSem s).semOwner)) := by
  have hrel : (releasedKernel k s).priority = (osPriorityRestore k s).priority := by
    rw [releasedKernel_eq]
    rfl
  rw [hrel]
  rcases osPriorityRestore_cases k s with ⟨h, hwhy⟩ | ⟨hv, -, hne, h⟩
  · refine Or.inl ⟨by rw [h], ?_⟩
    rcases L.owner s hs with ho | ⟨hle, hnu⟩
    · exact Or.inl ho
    · rcases hwhy with ho | hu | heq
      · exact Or.inl ho
      · exact absurd hu (L.not_tskIsUnused hle hnu)
      · exact Or.inr heq
  · have hle := ((L.owner s hs).resolve_left hv).1
    refine Or.inr ⟨hle, hne, ?_⟩
    have hrest : restoredPriority k s = k.originalPriority (k.allSem s).semOwner := by
      have hfind : osSemFindHighestWaiterPriority k s = 255 := by
        rw [osSemFindHighestWaiterPriority, if_pos hl]
      have hb := (L.boost _ hle).2.resolve_left hne
      rw [restoredPriority, hfind, if_neg (by omega)]
    rw [h, priority_osOwnerPrioritySet, hrest]

theorem Inv.releasedKernel_frame (I : Inv k ph) (hP : Posts k s) (hl : k.semList s = []) :
    (releasedKernel k s).runningTask = k.runningTask ∧
    ∀ q, q ∈ (releasedKernel k s).runQueue ↔ q ∈ k.runQueue := by
  have F := osPriorityRestore_prioFrame I.linked (I.sems.used hP.used)
  refine ⟨?_, fun q => ?_⟩
  · rw [releasedKernel_eq]
    exact F.runningTask
  · rw [(I.released hP hl).linked.mem_runQueue, I.linked.mem_runQueue]

/-- A post without waiters keeps the order of priorities unless it demotes. -/
theorem preemptive_released_iff (I : Inv k ph) (hb : bgdActive k) {op : Op}
    (ho : op.posts = some s) (hP : Posts k s) (hi : ¬ osSemPostIsInvalid k s)
    (hl : k.semList s = []) (p : Preemptive k) :
    Preemptive (releasedKernel k s) ↔ ¬ Demotes k op := by
  have L := I.linked
  obtain ⟨hrun, hq⟩ := I.releasedKernel_frame hP hl
  have honly : Demotes k op ↔ (k.allSem s).semOwner = k.runningTask ∧
      k.priority k.runningTask ≠ k.originalPriority k.runningTask ∧
      ∃ q ∈ k.runQueue, q ≠ k.runningTask ∧
        k.priority q < k.originalPriority k.runningTask := by
    constructor
    · rintro ⟨s', hs', -, -, -, hrest⟩
      obtain rfl : s = s' := Option.some.inj (ho.symm.trans hs')
      exact hrest
    · exact fun h => ⟨s, ho, hP, hi, hl, h⟩
  rw [honly]
  unfold Preemptive
  rw [hrun]
  simp only [hq]
  rcases priority_releasedKernel L (I.sems.used hP.used) hl with ⟨hprio, hwhy⟩ | ⟨hle, hne, hprio⟩
  · -- nothing was restored, so the owner cannot be a boosted running task
    rw [hprio]
    refine iff_of_true p ?_
    rintro ⟨hown, hne, -⟩
    rw [hown] at hwhy
    rcases hwhy with h | h
    · have := I.running_le hb
      have := I.small
      omega
    · exact hne h
  · rw [hprio]
    by_cases hown : (k.allSem s).semOwner = k.runningTask
    · rw [hown] at hne ⊢
      simp only [Function.update_self]
      constructor
      · rintro h ⟨-, -, q, hqm, hqr, hlt⟩
        have := h q hqm
        rw [Function.update_of_ne hqr] at this
        omega
      · intro h q hqm
        by_cases hqr : q = k.runningTask
        · subst hqr
          simp
        · rw [Function.update_of_ne hqr]
          by_contra hlt
          exact h ⟨trivial, hne, q, hqm, hqr, by omega⟩
    · refine iff_of_true (fun q hqm => ?_) fun h => hown h.1
      rw [Function.update_of_ne (Ne.symm hown)]
      have hpq := p q hqm
      by_cases hqo : q = (k.allSem s).semOwner
      · have := (L.boost _ hle).1
        rw [hqo] at hpq ⊢
        rw [Function.update_self]
        omega
      · rw [Function.update_of_ne hqo]
        exact hpq

/-! ## All calls -/

theorem not_demotes {op : Op}
    (h : ∀ s, op.posts = some s → Posts k s → ¬ osSemPostIsInvalid k s → k.semList s ≠ []) :
    ¬ Demotes k op := by
  rintro ⟨s, ho, hP, hi, hl, -⟩
  exact h s ho hP hi hl

theorem preemptive_createdKernel (I : Inv k ph) {initParam : TskInitParam} {cb : Nat}
    {rest : List Nat} {t : TagTskCb} (used : Nat → Bool) (hl : k.tskCbFreeList = cb :: rest)
    (hc : Created k initParam cb t) (p : Preemptive k) :
    Preemptive (createdKernel k cb t used) := by
  have hu : ph cb = .unused := I.linked.mem_tskCbFreeList.mp (by simp [hl])
  have hne : k.runningTask ≠ cb := (I.ne_running (by simp [hu]) (by simp [hu])).symm
  intro q hq
  rw [(I.created used hl hc).linked.mem_runQueue] at hq
  have hqcb : q ≠ cb := by rintro rfl; simp at hq
  have hpq := p q (I.linked.mem_runQueue.mpr (by simpa [hqcb] using hq))
  simpa [Kernel.priority, createdKernel, hqcb, hne] using hpq

/-- **Step lemma.** After every call but a demoting post the running task is the
most urgent again. -/
theorem preemptive_step_iff (I : Inv k ph) {op : Op} {ret : Nat} (e : Effect k ph op k' ret)
    (hc : op.Callable k) (hsup : ¬ op.Unsupported k) (hb : bgdActive k) (p : Preemptive k) :
    Preemptive k' ↔ ¬ Demotes k op := by
  cases e with
  | failed _ hP => exact iff_of_true p (not_demotes fun s ho hp => absurd hp (hP s ho))
  | created hl hcr =>
    exact iff_of_true (preemptive_createdKernel I _ hl hcr p) (not_demotes fun s ho => by cases ho)
  | resumed hs =>
    rw [if_pos hb]
    exact iff_of_true (I.resumedKernel_reschedulable hs hb).preemptive
      (not_demotes fun s ho => by cases ho)
  | @semCreated op s _ _ _ _ ho hl =>
    have hno : op.posts = none := by cases op <;> simp [Op.posts, Op.creates] at ho ⊢
    refine iff_of_true ?_ (not_demotes fun s ho => by rw [hno] at ho; cases ho)
    unfold Preemptive
    rw [semCreatedKernel_runQueue]
    exact p
  | took _ hu hcount => exact iff_of_true p (not_demotes fun s ho => by cases ho)
  | blocked hB =>
    exact iff_of_true (I.osSemPendListPut_reschedulable hB hc.1 hc.2).preemptive
      (not_demotes fun s ho => by cases ho)
  | unsupported hB hf => exact absurd ⟨hB, hf⟩ hsup
  | @full _ s ho _ hi =>
    refine iff_of_true p (not_demotes fun s' ho' _ hi' => absurd hi ?_)
    rwa [Option.some.inj (ho.symm.trans ho')]
  | @woke _ s ho hP _ hl =>
    obtain ⟨w, rest, hwr⟩ := List.exists_cons_of_ne_nil hl
    refine iff_of_true (I.osSemPostSchePre_reschedulable hP hwr).preemptive
      (not_demotes fun s' ho' _ _ => ?_)
    rwa [← Option.some.inj (ho.symm.trans ho')]
  | released ho hP hi hl => exact preemptive_released_iff I hb ho hP hi hl p
  | exited =>
    rw [osTskEntryReturn_eq I.lock]
    exact iff_of_true (I.osTskReadyDel_reschedulable hc.1 hc.2).preemptive
      (not_demotes fun s ho => by cases ho)
  | activated h => exact absurd hb hc.1

/-! ## Runs -/

/-- The first task that `OsActivate` starts is the most urgent one. -/
theorem preemptive_of_first (I : Inv k ph) {op : Op} {ret : Nat} (e : Effect k ph op k' ret)
    (hc : op.Callable k) (hsup : ¬ op.Unsupported k) (hb : ¬ bgdActive k) (hb' : bgdActive k') :
    Preemptive k' := by
  cases e with
  | failed _ _ => exact absurd hb' hb
  | created _ _ => exact absurd hb' hb
  | resumed hs =>
    rw [if_neg hb, bgdActive, (resumedKernel_frame _).uniFlag] at hb'
    exact absurd hb' hb
  | semCreated _ _ => exact absurd hb' hb
  | took _ _ _ => exact absurd hb' hb
  | blocked _ => exact absurd hc.1 hb
  | unsupported hB hf => exact absurd ⟨hB, hf⟩ hsup
  | full _ _ _ => exact absurd hb' hb
  | woke _ hP _ hl =>
    obtain ⟨w, rest, hwr⟩ := List.exists_cons_of_ne_nil hl
    exact (I.osSemPostSchePre_reschedulable hP hwr).preemptive
  | released _ hP _ _ =>
    have F := osPriorityRestore_prioFrame I.linked (I.sems.used hP.used)
    rw [releasedKernel_eq, bgdActive] at hb'
    change osFlgBgdActive &&& (osPriorityRestore k _).uniFlag ≠ 0 at hb'
    rw [F.uniFlag] at hb'
    exact absurd hb' hb
  | exited => exact absurd hc.1 hb
  | activated h =>
    obtain ⟨ph', I'⟩ := I.activated hb h
    obtain ⟨cb, rest, t, used, hi, hl, hcr, -, hhi, rfl⟩ := osActivate_cases I hb h
    exact preemptive_of_settled I'.linked hhi

theorem active_of_history {hist : History} (r : Run supportedMachine hist k) :
    ∀ e ∈ hist, bgdActive e.1 → bgdActive k := by
  refine r.invariant_hist (fun hist k => ∀ e ∈ hist, bgdActive e.1 → bgdActive k) (by simp) ?_
  rintro hist k op r ih ⟨hc, hsup⟩ e he hb
  obtain ⟨ph, I⟩ := Inv.of_run r
  have hbk : bgdActive k := by
    rcases List.mem_append.mp he with h | h
    · exact ih e h hb
    · rw [List.mem_singleton.mp h] at hb
      exact hb
  exact I.step_active hc (op.effect I.linked I.lock hc) hsup hbk

/-- Every state since `OsActivate` has the most urgent task running. -/
def AlwaysPreemptive (hist : History) (k : Kernel) : Prop :=
  (∀ e ∈ hist, bgdActive e.1 → Preemptive e.1) ∧ (bgdActive k → Preemptive k)

theorem alwaysPreemptive_iff_supported {hist : History} (r : Run supportedMachine hist k) :
    AlwaysPreemptive hist k ↔ ∀ e ∈ hist, bgdActive e.1 → ¬ Demotes e.1 e.2 := by
  refine r.invariant_hist (fun hist k => AlwaysPreemptive hist k ↔
    ∀ e ∈ hist, bgdActive e.1 → ¬ Demotes e.1 e.2) ?_ ?_
  · intro k hk
    exact iff_of_true ⟨by simp, fun hb => absurd hb (not_bgdActive_initialised hk)⟩ (by simp)
  · rintro hist k op r ih ⟨hc, hsup⟩
    obtain ⟨ph, I⟩ := Inv.of_run r
    have e := op.effect I.linked I.lock hc
    unfold AlwaysPreemptive at ih ⊢
    simp only [List.forall_mem_append, List.forall_mem_singleton]
    by_cases hb : bgdActive k
    · have hb' : bgdActive (op.next k) := I.step_active hc e hsup hb
      have hstep := preemptive_step_iff I e hc hsup hb
      constructor
      · rintro ⟨⟨hh, hk⟩, hk'⟩
        exact ⟨ih.mp ⟨hh, hk⟩, fun _ => (hstep (hk hb)).mp (hk' hb')⟩
      · rintro ⟨hd, hdk⟩
        obtain ⟨hh, hk⟩ := ih.mpr hd
        exact ⟨⟨hh, hk⟩, fun _ => (hstep (hk hb)).mpr (hdk hb)⟩
    · -- nothing has run yet: only `OsActivate` can start the first task
      have hpast : ∀ e ∈ hist, ¬ bgdActive e.1 := fun e he h => hb (active_of_history r e he h)
      refine iff_of_true ⟨⟨fun e he h => absurd h (hpast e he), fun h => absurd h hb⟩, ?_⟩
        ⟨fun e he h => absurd h (hpast e he), fun h => absurd h hb⟩
      intro hb'
      exact preemptive_of_first I e hc hsup hb hb'

/-- **Preemption holds along a run exactly when no post of the run demotes.** -/
theorem alwaysPreemptive_iff {hist : History} (r : Run kernelMachine hist k) :
    AlwaysPreemptive hist k ↔ ∀ e ∈ hist, bgdActive e.1 → ¬ Demotes e.1 e.2 :=
  alwaysPreemptive_iff_supported (kernelMachine_supported r)

/-- Task 0 holds two semaphores and is boosted over the first by task 2; then it
posts the second, while task 3 is ready. -/
def demotionOps : List Op :=
  [.taskCreate { taskPrio := 15 }, .taskResume 0, .activate 0,
    .semCreate 1 false, .semCreate 1 false, .semPend 0 osWaitForever, .semPend 1 osWaitForever,
    .taskCreate { taskPrio := 5 }, .taskResume 2, .taskCreate { taskPrio := 10 }, .taskResume 3,
    .semPend 0 osWaitForever, .semPost 1]

theorem demotion_run : Run kernelMachine (trace Op.next bootKernel demotionOps)
    (demotionOps.foldl Op.next bootKernel) :=
  Run.ofList (M := kernelMachine) bootKernel_initialised demotionOps (by decide +kernel)

/-- After the post task 0 runs at priority 15, and task 3 of priority 10 is ready. -/
theorem demotion_not_preemptive : Run kernelMachine (trace Op.next bootKernel demotionOps)
      (demotionOps.foldl Op.next bootKernel) ∧
    ¬ AlwaysPreemptive (trace Op.next bootKernel demotionOps)
      (demotionOps.foldl Op.next bootKernel) := by
  refine ⟨demotion_run, fun h => ?_⟩
  have hp : ¬ Preemptive (demotionOps.foldl Op.next bootKernel) := by decide +kernel
  exact hp (h.2 (by decide +kernel))

/-- The same run without the last post. -/
theorem alwaysPreemptive_before_demotion :
    AlwaysPreemptive (trace Op.next bootKernel (demotionOps.take 12))
      ((demotionOps.take 12).foldl Op.next bootKernel) := by
  refine (alwaysPreemptive_iff (Run.ofList (M := kernelMachine) bootKernel_initialised
    (demotionOps.take 12) (by decide +kernel))).mpr ?_
  have hno : ∀ e ∈ trace Op.next bootKernel (demotionOps.take 12), e.2.posts = none := by
    decide +kernel
  intro e he _
  exact not_demotes fun s hs => by rw [hno e he] at hs; cases hs

end MiniEuler
