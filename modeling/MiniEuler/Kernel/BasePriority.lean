import MiniEuler.Kernel.Pool
import MiniEuler.Kernel.Inherit

/-! Where priorities come from: a task keeps the priority it was created with as
its base, and inheritance only lends it the base of another task. -/

namespace MiniEuler
open Library

variable {k k' : Kernel} {ph : Nat → TskPhase} {s : Nat} {hist : History}

/-- A task that has been created; the zombie block has the bit as well, but no pid. -/
def IsTask (k : Kernel) (p : Nat) : Prop := p ≤ k.tskMaxNum ∧ inUse k p

/-- The pid and the `taskPrio` of the task a call creates. -/
def Op.newTask (k : Kernel) (op : Op) : Option (Nat × Nat) :=
  match op.initParam with
  | none => none
  | some initParam =>
    match (prtTaskCreate k initParam).2 with
    | .ok taskPid => some (taskPid, initParam.taskPrio)
    | .error _ => none

/-- A call of `hist` has created task `p` with `taskPrio = prio`. -/
def CreatedIn (hist : History) (p prio : Nat) : Prop :=
  ∃ e ∈ hist, e.2.newTask e.1 = some (p, prio)

/-- Tasks are created with a priority that exists. -/
def Op.PrioOk : Op → Prop
  | .taskCreate initParam => initParam.taskPrio ≤ osTskPriorityLowest
  | _ => True

theorem isTask_of_phase (P : Pool k) (L : Linked k ph) {p : Nat} (hp : p ≤ k.tskMaxNum)
    (hu : ph p ≠ .unused) : IsTask k p := ⟨hp, P.not_unused.mp (L.not_tskIsUnused hp hu)⟩

theorem isTask_iff (P : Pool k) (h : PoolKept k k') (p : Nat) : IsTask k' p ↔ IsTask k p := by
  rw [IsTask, IsTask, h.inUse P, h.frame.tskMaxNum]

/-! ## Priority writes -/

/-- Bases are priorities that exist, and every priority is the base of some task. -/
structure PrioSound (k : Kernel) : Prop where
  base : ∀ p, IsTask k p → k.originalPriority p ≤ osTskPriorityLowest
  source : ∀ p, IsTask k p → ∃ q, IsTask k q ∧ k.priority p = k.originalPriority q

/-- No base is written, and a priority that is written is the task's own base or
what another task has. -/
structure PrioStep (k k' : Kernel) : Prop where
  base : k'.originalPriority = k.originalPriority
  source : ∀ p, k'.priority p = k.priority p ∨ k'.priority p = k.originalPriority p ∨
    ∃ q, IsTask k q ∧ k'.priority p = k.priority q

theorem PrioStep.of_eq (hb : k'.originalPriority = k.originalPriority)
    (hp : k'.priority = k.priority) : PrioStep k k' :=
  ⟨hb, fun p => Or.inl (congrFun hp p)⟩

theorem PrioStep.refl (k : Kernel) : PrioStep k k := PrioStep.of_eq rfl rfl

/-- A priority write and then a switch. -/
theorem PrioStep.trans_sched {k'' : Kernel} (h : PrioStep k k') (F : SchedFrame k' k'') :
    PrioStep k k'' :=
  ⟨F.originalPriority.trans h.base, fun p => by rw [F.priority]; exact h.source p⟩

theorem PrioStep.sound (h : PrioStep k k') (P : Pool k) (hk : PoolKept k k')
    (S : PrioSound k) : PrioSound k' := by
  refine ⟨fun p hp => ?_, fun p hp => ?_⟩
  · rw [h.base]
    exact S.base p ((isTask_iff P hk p).mp hp)
  · have hp := (isTask_iff P hk p).mp hp
    rw [h.base]
    rcases h.source p with he | he | ⟨q, hq, he⟩
    · obtain ⟨q, hq, hs⟩ := S.source p hp
      exact ⟨q, (isTask_iff P hk q).mpr hq, he.trans hs⟩
    · exact ⟨p, (isTask_iff P hk p).mpr hp, he⟩
    · obtain ⟨q', hq', hs⟩ := S.source q hq
      exact ⟨q', (isTask_iff P hk q').mpr hq', he.trans hs⟩

theorem PrioSound.priority_le (S : PrioSound k) (L : Linked k ph) {p : Nat} (hp : IsTask k p) :
    k.priority p ≤ osTskPriorityLowest := ((L.boost p hp.1).1).trans (S.base p hp)

theorem osOwnerPrioritySet_prioStep (L : Linked k ph) {p v : Nat} (hp : p ≤ k.tskMaxNum)
    (hv : v = k.originalPriority p ∨ ∃ q, IsTask k q ∧ v = k.priority q) :
    PrioStep k (osOwnerPrioritySet k p v) := by
  refine ⟨(osOwnerPrioritySet_prioFrame L hp v).originalPriority, fun r => ?_⟩
  rw [priority_osOwnerPrioritySet]
  by_cases hr : r = p
  · subst hr
    rw [Function.update_self]
    exact Or.inr hv
  · exact Or.inl (Function.update_of_ne hr _ _)

/-- The waiters of a semaphore are tasks. -/
theorem isTask_of_waiter (P : Pool k) (L : Linked k ph) {t : Nat} (ht : t ∈ k.semList s) :
    IsTask k t := by
  have hph := L.mem_semList.mp ht
  exact isTask_of_phase P L (L.le_of_ne_dormant (by rw [hph]; simp)) (by rw [hph]; simp)

/-- **Restore.** The sentinel 255 is never below the priority of a task. -/
theorem osPriorityRestore_prioStep (P : Pool k) (L : Linked k ph) (S : PrioSound k)
    (hs : (k.allSem s).semStat = osSemUsed) : PrioStep k (osPriorityRestore k s) := by
  rcases osPriorityRestore_cases k s with ⟨h, -⟩ | ⟨hv, hu, -, h⟩
  · rw [h]
    exact PrioStep.refl k
  · have howner := (L.owner s hs).resolve_left hv
    rw [h]
    refine osOwnerPrioritySet_prioStep L howner.1 ?_
    unfold restoredPriority
    split
    · rename_i hlt
      right
      rcases (osSemFindHighestWaiterPriority_spec k s).2.2 with he | ⟨t, ht, he⟩
      · have hle := S.priority_le L ⟨howner.1, P.not_unused.mp hu⟩
        unfold osTskPriorityLowest at hle
        omega
      · exact ⟨t, isTask_of_waiter P L ht, he⟩
    · exact Or.inl rfl

/-- **Inherit.** What the owner gets is the priority of a task that waits, the
one that blocks included. -/
theorem osSemPendListPut_prioStep (P : Pool k) (I : Inv k ph) (S : PrioSound k)
    (hb : bgdActive k) (hs : (k.allSem s).semStat = osSemUsed) :
    PrioStep k (osSemPendListPut k s) := by
  have hr := (I.active hb).1
  have L' := I.linked.semPendEnter hr s
  obtain ⟨hf, hsem⟩ := semPendEnter_frame (k := k) (s := s)
  have hprio := priority_semPendEnter k s
  have hbase : (semPendEnter k s).originalPriority = k.originalPriority := by
    funext p
    rw [Kernel.originalPriority, semPendEnter_eq]
    by_cases h : p = k.runningTask
    · subst h; simp [pendingTcb]
    · simp [h]
  have hrun : IsTask k k.runningTask :=
    isTask_of_phase P I.linked (I.running_le hb) (by rw [hr]; simp)
  have htask : ∀ t ∈ (semPendEnter k s).semList s, IsTask k t := by
    intro t ht
    have hph := L'.mem_semList.mp ht
    by_cases h : t = k.runningTask
    · rw [h]
      exact hrun
    · rw [Function.update_of_ne h] at hph
      exact isTask_of_waiter P I.linked (I.linked.mem_semList.mpr hph)
  rw [osSemPendListPut_eq]
  rcases osPriorityInherit_cases (semPendEnter k s) s k.runningTask with ⟨h, -⟩ | ⟨hv, -, -, h⟩
  · rw [h]
    exact PrioStep.of_eq hbase hprio
  · have hle : ((semPendEnter k s).allSem s).semOwner ≤ (semPendEnter k s).tskMaxNum := by
      rw [hsem] at hv ⊢
      rw [hf.tskMaxNum]
      exact ((I.linked.owner s hs).resolve_left hv).1
    have hsource : ∃ q, IsTask k q ∧
        inheritedPriority (semPendEnter k s) s k.runningTask = k.priority q := by
      unfold inheritedPriority
      split
      · exact ⟨k.runningTask, hrun, congrFun hprio _⟩
      · rename_i hnlt
        rcases (osSemFindHighestWaiterPriority_spec (semPendEnter k s) s).2.2 with he | ⟨t, ht, he⟩
        · have hlow := S.priority_le I.linked hrun
          rw [he, hprio] at hnlt
          unfold osTskPriorityLowest at hlow
          omega
        · exact ⟨t, htask t ht, he.trans (congrFun hprio t)⟩
    rw [h]
    refine ⟨(osOwnerPrioritySet_prioFrame L' hle _).originalPriority.trans hbase, fun p => ?_⟩
    rw [priority_osOwnerPrioritySet, hprio]
    by_cases hp : p = ((semPendEnter k s).allSem s).semOwner
    · subst hp
      rw [Function.update_self]
      exact Or.inr (Or.inr hsource)
    · exact Or.inl (Function.update_of_ne hp _ _)

/-! ## Calls -/

theorem resumedKernel_priority (k : Kernel) (p : Nat) :
    (resumedKernel k p).priority = k.priority ∧
    (resumedKernel k p).originalPriority = k.originalPriority := by
  rw [resumedKernel, osTskReadyAdd_eq]
  constructor <;> funext q <;> by_cases h : q = p <;>
    simp [Kernel.priority, Kernel.originalPriority, tskStatusClear, Kernel.setTcb, h]

/-- **Step lemma** for the calls that create no task. -/
theorem Effect.prioStep (P : Pool k) (I : Inv k ph) (S : PrioSound k) {op : Op} {ret : Nat}
    (e : Effect k ph op k' ret) (hc : op.Callable k) (hsup : ¬ op.Unsupported k)
    (hno : op.initParam = none) : PrioStep k k' := by
  have L := I.linked
  cases e with
  | failed _ _ => exact PrioStep.refl k
  | created _ _ => cases hno
  | @resumed p hph =>
    obtain ⟨hp, hb⟩ := resumedKernel_priority k p
    split
    · exact (PrioStep.of_eq hb hp).trans_sched (osTskSchedule_frame _)
    · exact PrioStep.of_eq hb hp
  | semCreated _ _ => exact PrioStep.of_eq rfl rfl
  | took _ _ _ => exact PrioStep.of_eq rfl rfl
  | blocked hB =>
    exact (osSemPendListPut_prioStep P I S hc.1 (I.sems.used hB.used)).trans_sched
      (osTskSchedule_frame _)
  | unsupported hB hf => exact absurd ⟨hB, hf⟩ hsup
  | full _ _ _ => exact PrioStep.refl k
  | @woke _ s _ hP _ hl =>
    have hused := I.sems.used hP.used
    have h := osPriorityRestore_prioStep P L S hused
    obtain ⟨w, rest, hwr⟩ := List.exists_cons_of_ne_nil hl
    obtain ⟨hp, hb⟩ := priority_osSemPostSchePre L hused hwr
    refine PrioStep.trans_sched ⟨hb.trans h.base, fun p => ?_⟩ (osTskSchedule_frame _)
    rw [hp]
    exact h.source p
  | released _ hP _ _ =>
    have h := osPriorityRestore_prioStep P L S (I.sems.used hP.used)
    rw [releasedKernel_eq]
    exact ⟨h.base, h.source⟩
  | exited =>
    have hp : (osTskReadyDel k k.runningTask).priority = k.priority ∧
        (osTskReadyDel k k.runningTask).originalPriority = k.originalPriority := by
      rw [osTskReadyDel_eq]
      constructor <;> funext q <;> by_cases h : q = k.runningTask <;>
        simp [Kernel.priority, Kernel.originalPriority, h]
    rw [osTskEntryReturn_eq I.lock]
    exact (PrioStep.of_eq hp.2 hp.1).trans_sched (osTskSchedule_frame _)
  | activated _ => cases hno

/-- The new task of a creation: its block was free, and nothing else has changed. -/
structure Fresh (k : Kernel) (cb prio : Nat) (k' : Kernel) : Prop where
  unused : ¬ IsTask k cb
  isTask : ∀ p, IsTask k' p ↔ IsTask k p ∨ p = cb
  priority : k'.priority = Function.update k.priority cb prio
  base : k'.originalPriority = Function.update k.originalPriority cb prio

theorem CreateOutcome.fresh (P : Pool k) {initParam : TskInitParam} {pid : Nat}
    (h : CreateOutcome k initParam (k', .ok pid)) : Fresh k pid initParam.taskPrio k' := by
  cases h with
  | @created _ rest flg stack used hl hst =>
    obtain ⟨hle, hu⟩ := P.free pid (by simp [hl])
    refine ⟨fun h => not_inUse_of_unused hu h.2, fun p => ?_, ?_, ?_⟩
    · by_cases hp : p = pid
      · subst hp
        exact iff_of_true ⟨hle, createdKernel_inUse_self⟩ (Or.inr rfl)
      · rw [IsTask, IsTask, inUse_iff, inUse_iff, createdKernel_tskCbArray hp]
        simp [hp, createdKernel]
    · funext p
      by_cases hp : p = pid
      · subst hp
        simp [Kernel.priority, createdKernel, createdTcb]
      · simp [Kernel.priority, createdKernel, hp]
    · funext p
      by_cases hp : p = pid
      · subst hp
        simp [Kernel.originalPriority, createdKernel, createdTcb]
      · simp [Kernel.originalPriority, createdKernel, hp]

theorem Fresh.sound {cb prio : Nat} (F : Fresh k cb prio k') (S : PrioSound k)
    (hprio : prio ≤ osTskPriorityLowest) : PrioSound k' := by
  refine ⟨fun p hp => ?_, fun p hp => ?_⟩
  · rw [F.base]
    by_cases h : p = cb
    · subst h
      simpa using hprio
    · rw [Function.update_of_ne h]
      exact S.base p (((F.isTask p).mp hp).resolve_right h)
  · rw [F.priority, F.base]
    by_cases h : p = cb
    · subst h
      exact ⟨p, hp, by simp⟩
    · obtain ⟨q, hq, hs⟩ := S.source p (((F.isTask p).mp hp).resolve_right h)
      have hqcb : q ≠ cb := by
        rintro rfl
        exact F.unused hq
      exact ⟨q, (F.isTask q).mpr (Or.inl hq), by
        rwa [Function.update_of_ne h, Function.update_of_ne hqcb]⟩

/-- **Step lemma.** A call creates a task or none, and then writes priorities. -/
theorem Op.prioStep (P : Pool k) (I : Inv k ph) (S : PrioSound k) {op : Op}
    (hc : op.Callable k) (hsup : ¬ op.Unsupported k) : ∃ k₁, Pool k₁ ∧
    (op.newTask k = none ∧ k₁ = k ∨
      ∃ pid initParam, op.initParam = some initParam ∧
        op.newTask k = some (pid, initParam.taskPrio) ∧ Fresh k pid initParam.taskPrio k₁) ∧
    PoolKept k₁ (op.next k) ∧ PrioStep k₁ (op.next k) := by
  have hpool := P.step hc
  have heff := op.effect I.linked I.lock hc
  cases hi : op.initParam with
  | none =>
    simp only [hi] at hpool
    exact ⟨k, P, Or.inl ⟨by simp only [Op.newTask, hi], rfl⟩, hpool,
      heff.prioStep P I S hc hsup hi⟩
  | some initParam =>
    simp only [hi] at hpool
    obtain ⟨k₁, r, hcr, hout, hkept⟩ := hpool
    refine ⟨k₁, P.outcome hout, ?_, hkept, ?_⟩
    · cases r with
      | error ret =>
        refine Or.inl ⟨by simp only [Op.newTask, hi, hcr], ?_⟩
        cases hout <;> rfl
      | ok pid =>
        exact Or.inr ⟨pid, initParam, rfl, by simp only [Op.newTask, hi, hcr], hout.fresh P⟩
    · cases op with
      | taskCreate prm =>
        obtain rfl : prm = initParam := Option.some.inj hi
        rw [Op.next, Op.exec, hcr]
        exact PrioStep.refl k₁
      | activate entry =>
        obtain rfl : idleParam entry = initParam := Option.some.inj hi
        cases hact : osActivate k entry with
        | error ret =>
          have := hc.2
          rw [hact] at this
          cases this
        | ok k₂ =>
          obtain ⟨cb, rest, t, used, hhi, -, -, hcr', -, rfl⟩ := osActivate_cases I hc.1 hact
          obtain rfl : createdKernel k cb t used = k₁ := congrArg Prod.fst (hcr'.symm.trans hcr)
          obtain ⟨hp, hb⟩ := resumedKernel_priority (createdKernel k cb t used) cb
          have F : SchedFrame (resumedKernel (createdKernel k cb t used) cb) _ :=
            setTcb_taskStatus_frame _ hhi
              (((resumedKernel (createdKernel k cb t used) cb).tskCbArray hhi).taskStatus |||
                osTskRunning)
          rw [Op.next, Op.exec, hact]
          exact PrioStep.of_eq (F.originalPriority.trans hb) (F.priority.trans hp)
      | _ => cases hi

/-! ## Runs -/

/-- The tasks are those that the history has created, with the bases they were given. -/
structure Based (hist : History) (k : Kernel) : Prop where
  sound : PrioSound k
  tasks : ∀ p, IsTask k p ↔ ∃ prio, CreatedIn hist p prio
  base : ∀ p prio, CreatedIn hist p prio → k.originalPriority p = prio

theorem createdIn_snoc {op : Op} {p prio : Nat} : CreatedIn (hist ++ [(k, op)]) p prio ↔
    CreatedIn hist p prio ∨ op.newTask k = some (p, prio) := by
  constructor
  · rintro ⟨e, he, h⟩
    rcases List.mem_append.mp he with he | he
    · exact Or.inl ⟨e, he, h⟩
    · rw [List.mem_singleton.mp he] at h
      exact Or.inr h
  · rintro (⟨e, he, h⟩ | h)
    · exact ⟨e, List.mem_append_left _ he, h⟩
    · exact ⟨(k, op), by simp, h⟩

theorem Based.initialised (h : Initialised k) : Based [] k := by
  have hno : ∀ p, ¬ IsTask k p := by
    rintro p ⟨hp, hu⟩
    rw [initialised_eq h] at hp hu
    have hp : p ≤ 22 := hp
    have hne : p ≠ 23 := by omega
    have hlt : p < 23 := by omega
    rw [inUse_iff] at hu
    simp [hne, hlt] at hu
  refine ⟨⟨fun p hp => absurd hp (hno p), fun p hp => absurd hp (hno p)⟩, fun p => ?_, ?_⟩
  · exact iff_of_false (hno p) (by rintro ⟨prio, e, he, -⟩; cases he)
  · rintro p prio ⟨e, he, -⟩
    cases he

theorem Based.step (B : Based hist k) (P : Pool k) (I : Inv k ph) {op : Op}
    (hc : op.Callable k) (hsup : ¬ op.Unsupported k) (hprio : op.PrioOk) :
    Based (hist ++ [(k, op)]) (op.next k) := by
  obtain ⟨k₁, P₁, hnew, hkept, hstep⟩ := Op.prioStep P I B.sound hc hsup
  -- first the creation, then what only writes priorities
  have B₁ : Based (hist ++ [(k, op)]) k₁ := by
    rcases hnew with ⟨hnone, rfl⟩ | ⟨pid, initParam, hi, hsome, F⟩
    · refine ⟨B.sound, fun p => ?_, fun p prio h => ?_⟩
      · rw [B.tasks p]
        exact exists_congr fun prio => by simp [createdIn_snoc, hnone]
      · refine B.base p prio ((createdIn_snoc.mp h).resolve_right fun h => ?_)
        rw [hnone] at h
        cases h
    · have hle : initParam.taskPrio ≤ osTskPriorityLowest := by
        cases op <;> cases hi
        · exact hprio
        · exact Nat.le_refl _
      refine ⟨F.sound B.sound hle, fun p => ?_, fun p prio h => ?_⟩
      · rw [F.isTask, B.tasks p]
        constructor
        · rintro (⟨prio, h⟩ | rfl)
          · exact ⟨prio, createdIn_snoc.mpr (Or.inl h)⟩
          · exact ⟨_, createdIn_snoc.mpr (Or.inr hsome)⟩
        · rintro ⟨prio, h⟩
          rcases createdIn_snoc.mp h with h | h
          · exact Or.inl ⟨prio, h⟩
          · rw [hsome] at h
            exact Or.inr (Prod.mk.inj (Option.some.inj h)).1.symm
      · rw [F.base]
        rcases createdIn_snoc.mp h with h | h
        · have hne : p ≠ pid := by
            rintro rfl
            exact F.unused ((B.tasks p).mpr ⟨prio, h⟩)
          rw [Function.update_of_ne hne]
          exact B.base p prio h
        · rw [hsome] at h
          obtain ⟨rfl, rfl⟩ := Prod.mk.inj (Option.some.inj h)
          simp
  exact ⟨hstep.sound P₁ hkept B₁.sound, fun p => (isTask_iff P₁ hkept p).trans (B₁.tasks p),
    fun p prio h => by rw [hstep.base]; exact B₁.base p prio h⟩

theorem Based.of_run (r : Run kernelMachine hist k) (hprio : ∀ e ∈ hist, e.2.PrioOk) :
    Based hist k := by
  refine r.invariant_hist (fun hist k => (∀ e ∈ hist, e.2.PrioOk) → Based hist k)
    (fun k h _ => Based.initialised h) ?_ hprio
  rintro hist k op r ih ⟨hc, ht⟩ hprio
  obtain ⟨ph, I⟩ := Inv.of_run (kernelMachine_supported r)
  have P : Pool k := Pool.of_run r.of_restrict
  exact (ih fun e he => hprio e (List.mem_append_left _ he)).step P I hc ht.not_unsupported
    (hprio (k, op) (by simp))

/-- **A task keeps its base, is never demoted below it, and runs at some task's base.** -/
theorem priority_from_bases (r : Run kernelMachine hist k) (hprio : ∀ e ∈ hist, e.2.PrioOk) :
    (∀ p, IsTask k p ↔ ∃ prio, CreatedIn hist p prio) ∧
    ∀ p prio, CreatedIn hist p prio →
      k.originalPriority p = prio ∧ k.priority p ≤ k.originalPriority p ∧
      ∃ q, IsTask k q ∧ k.priority p = k.originalPriority q := by
  have B := Based.of_run r hprio
  obtain ⟨ph, I⟩ := Inv.of_run (kernelMachine_supported r)
  refine ⟨B.tasks, fun p prio h => ?_⟩
  have hp := (B.tasks p).mpr ⟨prio, h⟩
  exact ⟨B.base p prio h, (I.linked.boost p hp.1).1, B.sound.source p hp⟩

instance (op : Op) : Decidable op.PrioOk :=
  match op with
  | .taskCreate _ => inferInstanceAs (Decidable (_ ≤ _))
  | .taskResume _ | .semCreate _ _ | .osSemCreate _ _ _ _ | .semPend _ _ | .semPost _
  | .uartPost _ | .taskExit | .activate _ => inferInstanceAs (Decidable True)

instance (hist : History) (p prio : Nat) : Decidable (CreatedIn hist p prio) :=
  inferInstanceAs (Decidable (∃ e ∈ hist, e.2.newTask e.1 = some (p, prio)))

/-- Task 0 of base 15 is boosted and still has its base. -/
theorem priority_from_bases_nested :
    nestedKernel.originalPriority 0 = 15 ∧ nestedKernel.priority 0 ≠ 15 ∧
    ∃ q, IsTask nestedKernel q ∧ nestedKernel.priority 0 = nestedKernel.originalPriority q := by
  obtain ⟨hbase, -, hsource⟩ := (priority_from_bases nested_run (by decide +kernel)).2 0 15
    (by decide +kernel)
  exact ⟨hbase, by decide +kernel, hsource⟩

end MiniEuler
