import MiniEuler.Kernel.Calls

/-! The invariant of the kernel: tasks are linked according to their phases, only
used semaphores without units are waited for, and after `OsActivate` the running
task and the idle task are ready. -/

namespace MiniEuler
open Library

/-- `k'` has the globals of `k`, except the cache and what the scheduler switches. -/
structure GlobalFrame (k k' : Kernel) : Prop where
  unusedSemList : k'.unusedSemList = k.unusedSemList
  runningTask : k'.runningTask = k.runningTask
  idleTaskId : k'.idleTaskId = k.idleTaskId
  uniFlag : k'.uniFlag = k.uniFlag
  uniTaskLock : k'.uniTaskLock = k.uniTaskLock
  tskMaxNum : k'.tskMaxNum = k.tskMaxNum
  maxSem : k'.maxSem = k.maxSem
  fault : k'.fault = k.fault

variable {k k' k'' : Kernel} {ph : Nat → TskPhase} {s : Nat}

theorem GlobalFrame.trans (h : GlobalFrame k k') (h' : GlobalFrame k' k'') :
    GlobalFrame k k'' :=
  ⟨h'.1.trans h.1, h'.2.trans h.2, h'.3.trans h.3, h'.4.trans h.4, h'.5.trans h.5,
    h'.6.trans h.6, h'.7.trans h.7, h'.8.trans h.8⟩

theorem PrioFrame.global (h : PrioFrame k k') : GlobalFrame k k' :=
  ⟨h.unusedSemList, h.runningTask, h.idleTaskId, h.uniFlag, h.uniTaskLock, h.tskMaxNum,
    h.maxSem, h.fault⟩

theorem resumedKernel_frame (p : Nat) : GlobalFrame k (resumedKernel k p) := by
  rw [resumedKernel, osTskReadyAdd_eq]
  constructor <;> rfl

theorem osTskReadyDel_globalFrame (p : Nat) : GlobalFrame k (osTskReadyDel k p) := by
  rw [osTskReadyDel_eq]
  constructor <;> rfl

theorem semPendEnter_frame : GlobalFrame k (semPendEnter k s) ∧
    (semPendEnter k s).allSem = k.allSem := by
  rw [semPendEnter_eq]
  exact ⟨by constructor <;> rfl, rfl⟩

theorem osSemPendListPut_frame (L : Linked k ph) (hr : ph k.runningTask = .ready)
    (hs : (k.allSem s).semStat = osSemUsed) :
    GlobalFrame k (osSemPendListPut k s) ∧ (osSemPendListPut k s).allSem = k.allSem := by
  obtain ⟨hf, hsem⟩ := semPendEnter_frame (k := k) (s := s)
  have F := osPriorityInherit_prioFrame (L.semPendEnter hr s) (s := s) (by rw [hsem]; exact hs)
    k.runningTask
  rw [osSemPendListPut_eq]
  exact ⟨hf.trans F.global, F.allSem.trans hsem⟩

theorem osSemPostSchePre_frame (L : Linked k ph) {w : Nat} {rest : List Nat}
    (hs : (k.allSem s).semStat = osSemUsed) (hl : k.semList s = w :: rest) :
    GlobalFrame k (osSemPostSchePre k s) ∧
    (osSemPostSchePre k s).allSem =
      Function.update k.allSem s { k.allSem s with semOwner := w } := by
  have F := osPriorityRestore_prioFrame L hs
  rw [osSemPostSchePre_woken L hs hl]
  refine ⟨F.global.trans (by constructor <;> rfl), ?_⟩
  simp [wokenKernel, F.allSem]

/-! ## Semaphores -/

structure SemsLinked (k : Kernel) (ph : Nat → TskPhase) : Prop where
  stat : ∀ s, (k.allSem s).semStat = osSemUnused ∨ (k.allSem s).semStat = osSemUsed
  unusedSem : ∀ s, s ∈ k.unusedSemList ↔ s < k.maxSem ∧ (k.allSem s).semStat = osSemUnused
  unusedNodup : k.unusedSemList.Nodup
  beyond : ∀ s, k.maxSem ≤ s → (k.allSem s).semStat = osSemUnused
  semId : ∀ s, s < k.maxSem → (k.allSem s).semId = s
  waiting : ∀ p s, ph p = .pending s →
    (k.allSem s).semStat = osSemUsed ∧ (k.allSem s).semCount = 0

namespace SemsLinked

theorem used (S : SemsLinked k ph) (h : (k.allSem s).semStat ≠ osSemUnused) :
    (k.allSem s).semStat = osSemUsed := (S.stat s).resolve_left h

/-- Changes of tasks keep the semaphores linked, if a new waiter finds no unit. -/
theorem congr (S : SemsLinked k ph) {ph' : Nat → TskPhase} (hsem : k'.allSem = k.allSem)
    (hun : k'.unusedSemList = k.unusedSemList) (hmax : k'.maxSem = k.maxSem)
    (hw : ∀ p s, ph' p = .pending s → ph p = .pending s ∨
      ((k.allSem s).semStat = osSemUsed ∧ (k.allSem s).semCount = 0)) :
    SemsLinked k' ph' := by
  refine ⟨?_, ?_, ?_, ?_, ?_, ?_⟩
  · rw [hsem]; exact S.stat
  · rw [hsem, hun, hmax]; exact S.unusedSem
  · rw [hun]; exact S.unusedNodup
  · rw [hsem, hmax]; exact S.beyond
  · rw [hsem, hmax]; exact S.semId
  · intro p s h
    rw [hsem]
    rcases hw p s h with h' | h'
    · exact S.waiting p s h'
    · exact h'

/-- Changes of a used semaphore that stays used. -/
theorem setSem (S : SemsLinked k ph) {c : TagSemCb} (hs : (k.allSem s).semStat = osSemUsed)
    (hc : c.semStat = osSemUsed) (hid : c.semId = (k.allSem s).semId)
    (hcount : c.semCount = 0 ∨ k.semList s = []) (L : Linked k ph) :
    SemsLinked (k.setSem s c) ph := by
  have hne : osSemUsed ≠ osSemUnused := by decide
  have hat : ∀ s', ((k.setSem s c).allSem s').semStat = (k.allSem s').semStat := by
    intro s'
    by_cases h : s' = s
    · subst h; simp [Kernel.setSem, hc, hs]
    · simp [Kernel.setSem, h]
  refine ⟨?_, ?_, S.unusedNodup, ?_, ?_, ?_⟩
  · intro s'
    rw [hat]
    exact S.stat s'
  · intro s'
    rw [hat]
    exact S.unusedSem s'
  · intro s' h
    rw [hat]
    exact S.beyond s' h
  · intro s' h
    by_cases hss : s' = s
    · subst hss
      simpa [Kernel.setSem, hid] using S.semId s' h
    · simpa [Kernel.setSem, hss] using S.semId s' h
  · intro p s' h
    rw [hat]
    refine ⟨(S.waiting p s' h).1, ?_⟩
    by_cases hss : s' = s
    · subst hss
      rcases hcount with h0 | h0
      · simpa [Kernel.setSem] using h0
      · have := L.mem_semList.mpr h
        rw [h0] at this
        cases this
    · simpa [Kernel.setSem, hss] using (S.waiting p s' h).2

end SemsLinked

/-! ## The invariant -/

structure Inv (k : Kernel) (ph : Nat → TskPhase) : Prop where
  linked : Linked k ph
  sems : SemsLinked k ph
  lock : k.uniTaskLock = 0
  fault : k.fault = false
  small : k.tskMaxNum < osInvalidOwnerId
  flag : k.uniFlag = 0 ∨ k.uniFlag = osFlgBgdActive ∨ k.uniFlag = osFlgBgdActive ||| osFlgTskReq
  boot : ¬ bgdActive k → k.tskMaxNum < k.runningTask ∧ ∀ p s, ph p ≠ .pending s
  active : bgdActive k → ph k.runningTask = .ready ∧ ph k.idleTaskId = .ready

namespace Inv

theorem not_osIntActive (I : Inv k ph) : ¬ osIntActive k := by
  rw [osIntActive]
  rcases I.flag with h | h | h <;> rw [h] <;> decide

theorem running_le (I : Inv k ph) (h : bgdActive k) : k.runningTask ≤ k.tskMaxNum :=
  I.linked.le_of_ne_dormant (by rw [(I.active h).1]; decide)

theorem runQueue_ne_nil (I : Inv k ph) (h : bgdActive k) : k.runQueue ≠ [] :=
  List.ne_nil_of_mem (I.linked.mem_runQueue.mpr (I.active h).2)

/-- A task that waits shows that multitasking has been started. -/
theorem active_of_pending (I : Inv k ph) {p : Nat} (h : ph p = .pending s) : bgdActive k := by
  by_contra hb
  exact (I.boot hb).2 p s h

end Inv

/-- A state in which `OsTskSchedule` may be called: only the running task need not
be ready. -/
structure Reschedulable (k : Kernel) (ph : Nat → TskPhase) : Prop where
  linked : Linked k ph
  sems : SemsLinked k ph
  lock : k.uniTaskLock = 0
  fault : k.fault = false
  small : k.tskMaxNum < osInvalidOwnerId
  flag : k.uniFlag = osFlgBgdActive ∨ k.uniFlag = osFlgBgdActive ||| osFlgTskReq
  idle : ph k.idleTaskId = .ready

namespace Reschedulable

variable (R : Reschedulable k ph)
include R

theorem not_osIntActive : ¬ osIntActive k := by
  rw [osIntActive]
  rcases R.flag with h | h <;> rw [h] <;> decide

theorem runQueue_ne_nil : k.runQueue ≠ [] :=
  List.ne_nil_of_mem (R.linked.mem_runQueue.mpr R.idle)

/-- After rescheduling the running task is the most urgent one. -/
theorem settled : (osTskSchedule k).highestTask = some (osTskSchedule k).runningTask :=
  (R.linked.osTskSchedule R.runQueue_ne_nil R.lock R.not_osIntActive).2.1

theorem flag_osTskSchedule : (osTskSchedule k).uniFlag = osFlgBgdActive ∨
    (osTskSchedule k).uniFlag = osFlgBgdActive ||| osFlgTskReq := by
  have hu := (R.linked.osTskSchedule R.runQueue_ne_nil R.lock R.not_osIntActive).2.2.2
  rcases hu with h | h <;> rcases R.flag with h' | h' <;> rw [h, h'] <;> decide

theorem active_osTskSchedule : bgdActive (osTskSchedule k) := by
  rw [bgdActive]
  rcases R.flag_osTskSchedule with h | h <;> rw [h] <;> decide

/-- **Rescheduling rule.** -/
theorem inv : Inv (osTskSchedule k) ph := by
  have F := osTskSchedule_frame k
  obtain ⟨L', hh, hf, -⟩ := R.linked.osTskSchedule R.runQueue_ne_nil R.lock R.not_osIntActive
  refine ⟨L', R.sems.congr F.allSem F.unusedSemList F.maxSem (fun _ _ h => Or.inl h),
    F.uniTaskLock.trans R.lock, hf.trans R.fault, by rw [F.tskMaxNum]; exact R.small,
    Or.inr R.flag_osTskSchedule, fun h => absurd R.active_osTskSchedule h,
    fun _ => ⟨?_, by rw [F.idleTaskId]; exact R.idle⟩⟩
  rw [L'.fresh] at hh
  exact L'.mem_runQueue.mp (List.argmin_mem hh)

end Reschedulable

theorem Inv.flag_of_active {k : Kernel} {ph : Nat → TskPhase} (I : Inv k ph) (h : bgdActive k) :
    k.uniFlag = osFlgBgdActive ∨ k.uniFlag = osFlgBgdActive ||| osFlgTskReq := by
  rcases I.flag with h' | h'
  · rw [bgdActive, h'] at h
    exact absurd rfl h
  · exact h'

/-- A task that changes its phase and is not made to wait leaves the waiting tasks alone. -/
theorem pending_of_update {p q s : Nat} {x : TskPhase} (hx : ∀ s, x ≠ .pending s)
    (h : Function.update ph p x q = .pending s) : ph q = .pending s := by
  by_cases hq : q = p
  · subst hq
    rw [Function.update_self] at h
    exact absurd h (hx s)
  · rwa [Function.update_of_ne hq] at h

/-- A task has changed its phase, and it is not the idle task unless it is ready. -/
theorem Inv.reschedulable {k : Kernel} {ph : Nat → TskPhase} (I : Inv k ph) (hb : bgdActive k)
    {k' : Kernel} (F : GlobalFrame k k') {p : Nat} {x : TskPhase}
    (L' : Linked k' (Function.update ph p x)) (S' : SemsLinked k' (Function.update ph p x))
    (hidle : k.idleTaskId = p → x = .ready) : Reschedulable k' (Function.update ph p x) := by
  refine ⟨L', S', F.uniTaskLock.trans I.lock, F.fault.trans I.fault,
    by rw [F.tskMaxNum]; exact I.small, by rw [F.uniFlag]; exact I.flag_of_active hb, ?_⟩
  rw [F.idleTaskId]
  by_cases hq : k.idleTaskId = p
  · rw [hq, Function.update_self]
    exact hidle hq
  · rw [Function.update_of_ne hq]
    exact (I.active hb).2

/-! ## One lemma for each outcome of a call -/

theorem osTskEntryReturn_eq (hlock : k.uniTaskLock = 0) :
    osTskEntryReturn k = osTskSchedule (osTskReadyDel k k.runningTask) := by
  have hself : { k with uniTaskLock := 0 } = k := by rw [← hlock]
  unfold osTskEntryReturn osTaskExit
  simp only [hself]

theorem releasedKernel_eq (k : Kernel) (s : Nat) :
    releasedKernel k s = (osPriorityRestore k s).setSem s
      { (osPriorityRestore k s).allSem s with
        semCount := (((osPriorityRestore k s).allSem s).semCount + 1) % 2 ^ 32
        semOwner := osInvalidOwnerId } := by
  simp [releasedKernel, Kernel.setSem]

section
variable (I : Inv k ph)
include I

theorem Inv.ne_running {p : Nat} (hu : ph p ≠ .ready) (hd : ph p ≠ .dormant) :
    p ≠ k.runningTask := by
  rintro rfl
  by_cases hb : bgdActive k
  · exact hu (I.active hb).1
  · exact hd (I.linked.beyond _ (I.boot hb).1)

theorem Inv.created {initParam : TskInitParam} {cb : Nat} {rest : List Nat} {t : TagTskCb}
    (used : Nat → Bool) (hl : k.tskCbFreeList = cb :: rest) (hc : Created k initParam cb t) :
    Inv (createdKernel k cb t used) (Function.update ph cb .suspended) := by
  have hu : ph cb = .unused := I.linked.mem_tskCbFreeList.mp (by simp [hl])
  have hne : cb ≠ k.runningTask := I.ne_running (by simp [hu]) (by simp [hu])
  have hready : ∀ p, ph p = .ready → Function.update ph cb .suspended p = .ready := by
    intro p h
    have hp : p ≠ cb := by rintro rfl; rw [hu] at h; cases h
    simpa [hp] using h
  refine ⟨I.linked.createdKernel hl hc hne used,
    I.sems.congr rfl rfl rfl (fun p s h => Or.inl (pending_of_update (by simp) h)),
    I.lock, I.fault, I.small, I.flag, fun hb => ⟨(I.boot hb).1, fun p s h => ?_⟩,
    fun hb => ⟨hready _ (I.active hb).1, hready _ (I.active hb).2⟩⟩
  exact (I.boot hb).2 p s (pending_of_update (by simp) h)

theorem Inv.resumedKernel_linked {p : Nat} (hs : ph p = .suspended) :
    Linked (resumedKernel k p) (Function.update ph p .ready) ∧
    SemsLinked (resumedKernel k p) (Function.update ph p .ready) := by
  have F := resumedKernel_frame (k := k) p
  have hsem : (resumedKernel k p).allSem = k.allSem := by
    rw [resumedKernel, osTskReadyAdd_eq]
    rfl
  exact ⟨I.linked.resumedKernel hs, I.sems.congr hsem F.unusedSemList F.maxSem
    fun q s h => Or.inl (pending_of_update (by simp) h)⟩

theorem Inv.resumedKernel_reschedulable {p : Nat} (hs : ph p = .suspended) (hb : bgdActive k) :
    Reschedulable (resumedKernel k p) (Function.update ph p .ready) := by
  obtain ⟨L', S'⟩ := I.resumedKernel_linked hs
  exact I.reschedulable hb (resumedKernel_frame p) L' S' fun _ => rfl

theorem Inv.resumed {p : Nat} (hs : ph p = .suspended) :
    Inv (if bgdActive k then osTskSchedule (resumedKernel k p) else resumedKernel k p)
      (Function.update ph p .ready) := by
  split
  · rename_i hb
    exact (I.resumedKernel_reschedulable hs hb).inv
  · rename_i hb
    have F := resumedKernel_frame (k := k) p
    obtain ⟨L', S'⟩ := I.resumedKernel_linked hs
    have hb' : ¬ bgdActive (resumedKernel k p) := by
      rw [bgdActive, F.uniFlag]
      exact hb
    refine ⟨L', S', F.uniTaskLock.trans I.lock, F.fault.trans I.fault,
      by rw [F.tskMaxNum]; exact I.small, by rw [F.uniFlag]; exact I.flag,
      fun _ => ⟨?_, fun q s h => (I.boot hb).2 q s (pending_of_update (by simp) h)⟩,
      fun h => absurd h hb'⟩
    rw [F.tskMaxNum, F.runningTask]
    exact (I.boot hb).1

theorem Inv.semCreated {rest : List Nat} {c : TagSemCb} (hl : k.unusedSemList = s :: rest)
    (hid : c.semId = (k.allSem s).semId) (hst : c.semStat = osSemUsed)
    (ho : c.semOwner = osInvalidOwnerId) : Inv (semCreatedKernel k s rest c) ph := by
  obtain ⟨hlt, hun⟩ := (I.sems.unusedSem s).mp (by simp [hl])
  have hnone : ∀ p, ph p ≠ .pending s := by
    intro p h
    have := (I.sems.waiting p s h).1
    rw [hun] at this
    cases this
  have hempty : k.lists (.semList s) = [] := by
    refine List.eq_nil_iff_forall_not_mem.mpr fun p hp => ?_
    exact hnone p (I.linked.mem_semList.mp hp)
  have hlists : Function.update k.lists (.semList s) [] = k.lists := by
    rw [← hempty, Function.update_eq_self]
  have heq : semCreatedKernel k s rest c = { k.setSem s c with unusedSemList := rest } := by
    rw [semCreatedKernel, hlists]
    rfl
  have L' := I.linked.setSem s (c := c) (fun _ => Or.inl ho)
  have hnd : s ∉ rest ∧ rest.Nodup := by
    have h := I.sems.unusedNodup
    rw [hl] at h
    exact List.nodup_cons.mp h
  rw [heq]
  refine ⟨⟨L'.1, L'.2, L'.3, L'.4, L'.5, L'.6, L'.7, L'.8⟩, ⟨?_, ?_, hnd.2, ?_, ?_, ?_⟩, I.lock,
    I.fault, I.small, I.flag, I.boot, I.active⟩
  · intro s'
    by_cases h : s' = s
    · subst h; simp [Kernel.setSem, hst]
    · simpa [Kernel.setSem, h] using I.sems.stat s'
  · intro s'
    have hiff := I.sems.unusedSem s'
    rw [hl] at hiff
    by_cases h : s' = s
    · subst h
      simp [Kernel.setSem, hst, hnd.1, osSemUsed, osSemUnused]
    · simpa [Kernel.setSem, h] using hiff
  · intro s' h
    have hne : s' ≠ s := by
      rintro rfl
      have : k.maxSem ≤ s' := h
      omega
    simpa [Kernel.setSem, hne] using I.sems.beyond s' h
  · intro s' h
    by_cases hs : s' = s
    · subst hs
      simpa [Kernel.setSem, hid] using I.sems.semId s' h
    · simpa [Kernel.setSem, hs] using I.sems.semId s' h
  · intro p s' h
    have hne : s' ≠ s := by rintro rfl; exact hnone p h
    simpa [Kernel.setSem, hne] using I.sems.waiting p s' h

/-- A used semaphore may be rewritten; it gets units only when nobody waits for it. -/
theorem Inv.setSem {c : TagSemCb} (hs : (k.allSem s).semStat = osSemUsed)
    (hc : c.semStat = osSemUsed) (hid : c.semId = (k.allSem s).semId)
    (hown : c.semOwner = osInvalidOwnerId ∨ (c.semOwner ≤ k.tskMaxNum ∧ ph c.semOwner ≠ .unused))
    (hcount : c.semCount = 0 ∨ k.semList s = []) : Inv (k.setSem s c) ph :=
  ⟨I.linked.setSem s (fun _ => hown), I.sems.setSem hs hc hid hcount I.linked,
    I.lock, I.fault, I.small, I.flag, I.boot, I.active⟩

/-- Priority writes keep the invariant when they keep the links. -/
theorem Inv.prioFrame (L' : Linked k' ph) (F : PrioFrame k k') : Inv k' ph := by
  refine ⟨L', I.sems.congr F.allSem F.unusedSemList F.maxSem fun _ _ h => Or.inl h,
    F.uniTaskLock.trans I.lock, F.fault.trans I.fault, ?_, ?_, ?_, ?_⟩
  · rw [F.tskMaxNum]
    exact I.small
  · rw [F.uniFlag]
    exact I.flag
  · rw [bgdActive, F.uniFlag, F.tskMaxNum, F.runningTask]
    exact I.boot
  · rw [bgdActive, F.uniFlag, F.runningTask, F.idleTaskId]
    exact I.active

theorem Inv.took (hu : (k.allSem s).semStat ≠ osSemUnused) (hcount : 0 < (k.allSem s).semCount)
    (hb : bgdActive k) : Inv (tookKernel k s) ph := by
  have hown : (k.tskCbArray k.runningTask).taskPid ≤ k.tskMaxNum ∧
      ph (k.tskCbArray k.runningTask).taskPid ≠ .unused := by
    rw [I.linked.pid _ (I.running_le hb), (I.active hb).1]
    exact ⟨I.running_le hb, by decide⟩
  have hempty : k.semList s = [] := by
    refine List.eq_nil_iff_forall_not_mem.mpr fun p hp => ?_
    have := (I.sems.waiting p s (I.linked.mem_semList.mp hp)).2
    omega
  have hused := I.sems.used hu
  exact I.setSem hused hused rfl (Or.inr hown) (Or.inr hempty)

theorem Inv.osSemPendListPut_reschedulable {timeout : Nat} (hB : Blocks k s timeout)
    (hb : bgdActive k) (hidle : k.runningTask ≠ k.idleTaskId) :
    Reschedulable (osSemPendListPut k s) (Function.update ph k.runningTask (.pending s)) := by
  have hused := I.sems.used hB.used
  obtain ⟨F, hsem⟩ := osSemPendListPut_frame I.linked (I.active hb).1 hused
  refine I.reschedulable hb F (I.linked.osSemPendListPut (I.active hb).1 hused)
    (I.sems.congr hsem F.unusedSemList F.maxSem fun q s' h => ?_) fun h => absurd h.symm hidle
  by_cases hq : q = k.runningTask
  · subst hq
    obtain rfl : s = s' := by simpa using h
    exact Or.inr ⟨hused, hB.empty⟩
  · exact Or.inl (by simpa [hq] using h)

theorem Inv.osSemPostSchePre_reschedulable {w : Nat} {rest : List Nat} (hP : Posts k s)
    (hl : k.semList s = w :: rest) :
    Reschedulable (osSemPostSchePre k s) (Function.update ph w .ready) := by
  have hused := I.sems.used hP.used
  have hw : ph w = .pending s := I.linked.mem_semList.mp (by simp [hl])
  have hb := I.active_of_pending hw
  obtain ⟨F, hsem⟩ := osSemPostSchePre_frame I.linked hused hl
  have S' : SemsLinked (osSemPostSchePre k s) (Function.update ph w .ready) := by
    have hcount := (I.sems.waiting w s hw).2
    have S₀ := I.sems.setSem (c := { k.allSem s with semOwner := w }) hused hused rfl
      (Or.inl hcount) I.linked
    exact S₀.congr hsem F.unusedSemList F.maxSem
      fun q s' h => Or.inl (pending_of_update (by simp) h)
  exact I.reschedulable hb F (osSemPostSchePre_linked I.linked hused hl) S' fun _ => rfl

theorem Inv.released (hP : Posts k s) (hl : k.semList s = []) : Inv (releasedKernel k s) ph := by
  have hused := I.sems.used hP.used
  have F := osPriorityRestore_prioFrame I.linked hused
  have husedR : ((osPriorityRestore k s).allSem s).semStat = osSemUsed := by
    rw [F.allSem]
    exact hused
  have hlR := (osPriorityRestore_semList I.linked hused s).trans hl
  rw [releasedKernel_eq]
  exact (I.prioFrame (I.linked.osPriorityRestore hused) F).setSem husedR husedR rfl
    (Or.inl rfl) (Or.inr hlR)

theorem Inv.osTskReadyDel_reschedulable (hb : bgdActive k)
    (hidle : k.runningTask ≠ k.idleTaskId) :
    Reschedulable (osTskReadyDel k k.runningTask) (Function.update ph k.runningTask .dormant) := by
  have F := osTskReadyDel_globalFrame (k := k) k.runningTask
  have hsem : (osTskReadyDel k k.runningTask).allSem = k.allSem := by
    rw [osTskReadyDel_eq]
  exact I.reschedulable hb F (I.linked.osTskReadyDel (I.active hb).1)
    (I.sems.congr hsem F.unusedSemList F.maxSem
      fun q s' h => Or.inl (pending_of_update (by simp) h)) fun h => absurd h.symm hidle

/-! ## Starting the first task -/

/-- `OsActivate` once the idle task is ready and `h` has been chosen. -/
def startedKernel (k : Kernel) (idle h : Nat) : Kernel :=
  tskStatusSet { k with
    idleTaskId := idle
    uniFlag := k.uniFlag ||| (osFlgBgdActive ||| osFlgTskReq)
    runningTask := h } h osTskRunning

theorem osActivate_cases (hb : ¬ bgdActive k) {entry : UIntPtr}
    (h : osActivate k entry = .ok k') :
    ∃ cb rest t used hi, k.tskCbFreeList = cb :: rest ∧
      Created k { taskEntry := entry, taskPrio := osTskPriorityLowest } cb t ∧
      prtTaskCreate k { taskEntry := entry, taskPrio := osTskPriorityLowest } =
        (createdKernel k cb t used, .ok cb) ∧
      (resumedKernel (createdKernel k cb t used) cb).highestTask = some hi ∧
      k' = startedKernel (resumedKernel (createdKernel k cb t used) cb) cb hi := by
  unfold osActivate osIdleTskAMPCreate at h
  rcases prtTaskCreate_cases I.linked
      { taskEntry := entry, taskPrio := osTskPriorityLowest } with
    ⟨ret, -, hcr⟩ | ⟨cb, rest, t, used, hl, hc, hcr⟩
  · rw [hcr] at h
    cases h
  have hu : ph cb = .unused := I.linked.mem_tskCbFreeList.mp (by simp [hl])
  have hcb : cb ≤ k.tskMaxNum := I.linked.le_of_ne_dormant (by rw [hu]; decide)
  have I₁ := I.created used hl hc
  rw [I.linked.pid cb hcb] at hcr
  rw [hcr] at h
  simp only at h
  rcases prtTaskResume_cases I₁.linked (p := cb) hcb I₁.lock with ⟨ret, hr, hres⟩ | ⟨hs, hres⟩
  · rw [hres] at h
    simp [hr] at h
  have hb₁ : ¬ bgdActive (createdKernel k cb t used) := hb
  have I₂ := I₁.resumed hs
  rw [if_neg hb₁] at hres I₂
  rw [hres] at h
  simp only [ne_eq, not_true_eq_false, ↓reduceIte, Except.ok.injEq] at h
  have hset : ∀ (idle : Nat) (flag : BitVec 32),
      osTskHighestSet { resumedKernel (createdKernel k cb t used) cb with
          idleTaskId := idle, uniFlag := flag } =
        { resumedKernel (createdKernel k cb t used) cb with
          idleTaskId := idle, uniFlag := flag } := by
    intro idle flag
    exact congrArg (fun k : Kernel => { k with idleTaskId := idle, uniFlag := flag })
      (osTskHighestSet_self I₂.linked)
  have hcbq : cb ∈ (resumedKernel (createdKernel k cb t used) cb).runQueue :=
    I₂.linked.mem_runQueue.mpr (by simp)
  obtain ⟨hi, hhi, -⟩ := exists_highestTask I₂.linked (List.ne_nil_of_mem hcbq)
  refine ⟨cb, rest, t, used, hi, hl, hc, hcr, hhi, ?_⟩
  have h₁ := hset cb (resumedKernel (createdKernel k cb t used) cb).uniFlag
  rw [h₁] at h
  rw [← h, osFirstTimeSwitch]
  simp only
  rw [hset]
  simp only [hhi, startedKernel]

theorem Inv.started (hb : ¬ bgdActive k) {idle hi : Nat} (hidle : ph idle = .ready)
    (hhi : k.highestTask = some hi) : Inv (startedKernel k idle hi) ph := by
  have L := I.linked
  have hfresh := L.fresh
  rw [hhi] at hfresh
  have hready : ph hi = .ready := L.mem_runQueue.mp (List.argmin_mem hfresh.symm)
  have hflag : k.uniFlag = 0 := by
    rcases I.flag with h | h | h
    · exact h
    · rw [bgdActive, h] at hb
      exact absurd (by decide) hb
    · rw [bgdActive, h] at hb
      exact absurd (by decide) hb
  have F : SchedFrame { k with idleTaskId := idle } (startedKernel k idle hi) :=
    (setTcb_taskStatus_frame { k with idleTaskId := idle } hi _).globals hi k.highestTask _ _
  have hbits : (0 : BitVec 32) ||| (osFlgBgdActive ||| osFlgTskReq) =
      osFlgBgdActive ||| osFlgTskReq := by decide
  refine ⟨⟨L.placed, L.beyond, ?_, ?_, ?_, ?_, ?_, L.owner⟩,
    I.sems.congr rfl rfl rfl fun _ _ h => Or.inl h, I.lock, I.fault, I.small, ?_, ?_,
    fun _ => ⟨hready, hidle⟩⟩
  · intro q hq
    have hq : q ≤ k.tskMaxNum := hq
    have hst := L.status q hq
    have hrun : runBit k q = 0 := if_neg (by rintro rfl; have := (I.boot hb).1; omega)
    rw [hrun] at hst
    simp only [startedKernel, tskStatusSet, Kernel.setTcb, runBit]
    by_cases hqh : q = hi
    · subst hqh
      simp [hst]
    · simp [hqh, hst]
  · intro q hq
    rw [F.taskPid]
    exact L.pid q hq
  · intro q s hs
    rw [F.taskSem]
    exact L.waits q s hs
  · intro q hq
    rw [F.priority, F.originalPriority]
    exact L.boost q hq
  · rw [F.priority]
    exact L.fresh
  · refine Or.inr (Or.inr ?_)
    simp only [startedKernel, tskStatusSet, Kernel.setTcb, hflag, hbits]
  · intro h
    refine absurd ?_ h
    simp only [bgdActive, startedKernel, tskStatusSet, Kernel.setTcb, hflag, hbits]
    decide

theorem Inv.activated (hb : ¬ bgdActive k) {entry : UIntPtr} (h : osActivate k entry = .ok k') :
    ∃ ph', Inv k' ph' := by
  obtain ⟨cb, rest, t, used, hi, hl, hc, -, hhi, rfl⟩ := osActivate_cases I hb h
  have I₂ := (I.created used hl hc).resumed (p := cb) (by simp)
  have hb₁ : ¬ bgdActive (createdKernel k cb t used) := hb
  rw [if_neg hb₁] at I₂
  have hb₂ : ¬ bgdActive (resumedKernel (createdKernel k cb t used) cb) := by
    rw [bgdActive, (resumedKernel_frame cb).uniFlag]
    exact hb
  exact ⟨_, I₂.started hb₂ (by simp) hhi⟩

/-- Multitasking is never stopped. -/
theorem Inv.step_active {op : Op} {ret : Nat} (hc : op.Callable k) (e : Effect k ph op k' ret)
    (hsup : ¬ op.Unsupported k) (hb : bgdActive k) : bgdActive k' := by
  cases e with
  | failed _ _ => exact hb
  | created _ _ => exact hb
  | resumed hs =>
    rw [if_pos hb]
    exact (I.resumedKernel_reschedulable hs hb).active_osTskSchedule
  | semCreated _ _ => exact hb
  | took _ _ _ => exact hb
  | blocked hB => exact (I.osSemPendListPut_reschedulable hB hc.1 hc.2).active_osTskSchedule
  | unsupported hB hf => exact absurd ⟨hB, hf⟩ hsup
  | full _ _ _ => exact hb
  | woke _ hP _ hl =>
    obtain ⟨w, rest, hwr⟩ := List.exists_cons_of_ne_nil hl
    exact (I.osSemPostSchePre_reschedulable hP hwr).active_osTskSchedule
  | released _ hP _ _ =>
    have F := osPriorityRestore_prioFrame I.linked (I.sems.used hP.used)
    rw [releasedKernel_eq, bgdActive]
    change osFlgBgdActive &&& (osPriorityRestore k _).uniFlag ≠ 0
    rw [F.uniFlag]
    exact hb
  | exited =>
    rw [osTskEntryReturn_eq I.lock]
    exact (I.osTskReadyDel_reschedulable hc.1 hc.2).active_osTskSchedule
  | activated _ => exact absurd hb hc.1

/-- **Step lemma.** Every call but an unsupported pend keeps the invariant. -/
theorem Inv.step {op : Op} {ret : Nat} (hc : op.Callable k) (e : Effect k ph op k' ret)
    (hsup : ¬ op.Unsupported k) : ∃ ph', Inv k' ph' := by
  cases e with
  | failed _ _ => exact ⟨ph, I⟩
  | created hl hcr => exact ⟨_, I.created _ hl hcr⟩
  | resumed hs => exact ⟨_, I.resumed hs⟩
  | semCreated _ hl => exact ⟨_, I.semCreated hl rfl rfl rfl⟩
  | took _ hu hcount => exact ⟨_, I.took hu hcount hc.1⟩
  | blocked hB => exact ⟨_, (I.osSemPendListPut_reschedulable hB hc.1 hc.2).inv⟩
  | unsupported hB hf => exact absurd ⟨hB, hf⟩ hsup
  | full _ _ _ => exact ⟨ph, I⟩
  | woke _ hP _ hl =>
    obtain ⟨w, rest, hwr⟩ := List.exists_cons_of_ne_nil hl
    exact ⟨_, (I.osSemPostSchePre_reschedulable hP hwr).inv⟩
  | released _ hP _ hl => exact ⟨ph, I.released hP hl⟩
  | exited =>
    rw [osTskEntryReturn_eq I.lock]
    exact ⟨_, (I.osTskReadyDel_reschedulable hc.1 hc.2).inv⟩
  | activated h => exact I.activated hc.1 h

end

end MiniEuler
