import MiniEuler.Kernel.HeapLists
import MiniEuler.Kernel.Runs

/-! Each function of the kernel in memory ends and does what the function over sequences does:
the run queue and the scheduler, priorities, and the calls for semaphores. -/

namespace MiniEuler
open Library Links

variable {A : KernelLayout} {x : HeapKernel} {k k' : Kernel} {p q s : Nat} {h : ListHead}

/-! ## Run queue and scheduler -/

section
variable {fuel : Nat} (hf : tskCbNum < fuel)
include hf

/-- The body of the loop of `OsTskHighestSet`. -/
def Kernel.higherTask (k : Kernel) (savedTaskCb : Option Nat) (taskCb : Nat) : Option Nat :=
  match savedTaskCb with
  | none => some taskCb
  | some saved => if k.priority taskCb < k.priority saved then some taskCb else some saved

theorem Represents.osTskHighestSet (R : Represents A x k) :
    Ends (HeapKernel.osTskHighestSet A fuel x) (Represents A · (osTskHighestSet k)) := by
  have hprio : x.data.priority = k.priority := R.data_eq Kernel.priority rfl
  unfold HeapKernel.osTskHighestSet
  rw [hprio]
  have hloop := R.forEach (h := .runQueue) trivial hf k.higherTask none
  exact Ends.bind ⟨_, hloop, rfl⟩ fun highest hh =>
      .pure (R.onData (by rw [← hh]; rfl) rfl rfl (fun _ => rfl) rfl rfl rfl)

theorem Represents.osTskReadyAdd (R : Represents A x k) (hp : p < tskCbNum)
    (hout : ∀ h, p ∉ k.lists h) :
    Ends (HeapKernel.osTskReadyAdd A fuel x p) (Represents A · (osTskReadyAdd k p)) :=
  ((R.status p osTskReady).1.tailAdd (h := .runQueue) trivial hp hout).osTskHighestSet hf

theorem Represents.osTskReadyDel (R : Represents A x k) (hlive : k.live (.tasks h))
    (hp : p ∈ k.lists h) (honly : ∀ h', h' ≠ h → p ∉ k.lists h') :
    Ends (HeapKernel.osTskReadyDel A fuel x p) (Represents A · (osTskReadyDel k p)) :=
  ((R.status p osTskReady).2.delete hlive hp honly).osTskHighestSet hf

omit hf in
theorem osMainSchedule_unlinked (k : Kernel) :
    osMainSchedule k.unlinked = (osMainSchedule k).unlinked := by
  by_cases h : k.uniFlag &&& osFlgTskReq ≠ 0
  · unfold osMainSchedule
    rw [if_pos h, if_pos (show k.unlinked.uniFlag &&& osFlgTskReq ≠ 0 from h)]
    simp only [tskStatusClear, Kernel.setTcb, Kernel.unlinked]
    cases k.highestTask <;> rfl
  · unfold osMainSchedule
    rw [if_neg h, if_neg (show ¬ k.unlinked.uniFlag &&& osFlgTskReq ≠ 0 from h)]

omit hf in
theorem Represents.osTaskTrap (R : Represents A x k) :
    Represents A (x.onData osTaskTrap) (osTaskTrap k) := by
  have F := osMainSchedule_frame k
  exact R.onData (osMainSchedule_unlinked k) F.lists F.unusedSemList
    (fun s => by rw [show (MiniEuler.osTaskTrap k).allSem = k.allSem from F.allSem])
    F.tskMaxNum F.maxSem F.stackMem

theorem Represents.osTskSchedule (R : Represents A x k) :
    Ends (HeapKernel.osTskSchedule A fuel x) (Represents A · (osTskSchedule k)) := by
  refine (R.osTskHighestSet hf).bind fun x' R' => ?_
  unfold MiniEuler.osTskSchedule
  simp only [R'.data_eq Kernel.highestTask rfl, R'.data_eq Kernel.runningTask rfl,
    R'.data_eq Kernel.uniTaskLock rfl]
  split
  · have R'' : Represents A (x'.onData fun k => { k with uniFlag := k.uniFlag ||| osFlgTskReq })
        { MiniEuler.osTskHighestSet k with
          uniFlag := (MiniEuler.osTskHighestSet k).uniFlag ||| osFlgTskReq } :=
      R'.onData rfl rfl rfl (fun _ => rfl) rfl rfl rfl
    simp only [R''.data_eq osIntActive rfl]
    refine .pure ?_
    split
    · exact R''.osTaskTrap
    · exact R''
  · exact .pure R'

/-! ## Priorities -/

omit hf in
theorem Linked.only {ph : Nat → TskPhase} (L : Linked k ph) (hp : p ∈ k.lists h) :
    ∀ h', h' ≠ h → p ∉ k.lists h' := fun _ hh hm => hh (L.placed.unique hm hp)

omit hf in
theorem Represents.lt_of_le (R : Represents A x k) (hp : p ≤ k.tskMaxNum) : p < tskCbNum := by
  have := R.max
  omega

theorem Represents.osOwnerPrioritySet (R : Represents A x k) {ph : Nat → TskPhase}
    (L : Linked k ph) (hp : p ≤ k.tskMaxNum) (v : Nat) :
    Ends (HeapKernel.osOwnerPrioritySet A fuel x p v)
      (Represents A · (osOwnerPrioritySet k p v)) := by
  have R₁ := R.setTcb p (fun k => { k.tskCbArray p with priority := v }) rfl
  have hready : tskStatusTst (k.setTcb p { k.tskCbArray p with priority := v }) p osTskReady ↔
      ph p = .ready := by
    rw [← L.tst_ready hp]
    simp [tskStatusTst, Kernel.setTcb]
  unfold HeapKernel.osOwnerPrioritySet MiniEuler.osOwnerPrioritySet
  simp only [R₁.data_eq (tskStatusTst · p osTskReady) rfl, hready]
  split
  · rename_i hr
    have hq : p ∈ k.runQueue := L.mem_runQueue.mpr hr
    refine (R₁.osTskReadyDel hf (h := .runQueue) trivial hq (L.only hq)).bind fun x₂ R₂ => ?_
    refine R₂.osTskReadyAdd hf (R.lt_of_le hp) fun h => ?_
    rw [osTskReadyDel_eq]
    exact (L.placed.delete p).not_mem (by simp)
  · exact .pure R₁

theorem Represents.osSemFindHighestWaiterPriority (R : Represents A x k)
    (hs : k.live (.tasks (.semList s))) :
    HeapKernel.osSemFindHighestWaiterPriority A fuel x s =
      some (osSemFindHighestWaiterPriority k s) := by
  have hprio : x.data.priority = k.priority := R.data_eq Kernel.priority rfl
  have hempty : listEmpty x.heap (A.semNode s) = true ↔ k.semList s = [] := R.empty_iff hs
  have hloop := R.forEach hs hf (fun highestPrio taskCb =>
    if k.priority taskCb < highestPrio then k.priority taskCb else highestPrio) 255
  unfold HeapKernel.osSemFindHighestWaiterPriority MiniEuler.osSemFindHighestWaiterPriority
  rw [hprio]
  by_cases h : k.semList s = []
  · rw [if_pos (hempty.mpr h), if_pos h]
  · rw [if_neg fun he => h (hempty.mp he), if_neg h]
    exact hloop

omit hf in
/-- Saving the original priority of a task that is not boosted changes nothing. -/
theorem save_originalPriority (k : Kernel) (p : Nat) :
    (if k.priority p = k.originalPriority p then
      k.setTcb p { k.tskCbArray p with originalPriority := k.priority p } else k) = k := by
  split
  · rename_i he
    rw [he]
    exact setTcb_self k p
  · rfl

theorem Represents.osPriorityInherit (R : Represents A x k) {ph : Nat → TskPhase}
    (L : Linked k ph) (hs : k.live (.tasks (.semList s))) (w : Nat) :
    Ends (HeapKernel.osPriorityInherit A fuel x s w)
      (Represents A · (osPriorityInherit k s w)) := by
  unfold HeapKernel.osPriorityInherit MiniEuler.osPriorityInherit
  rw [R.data_eq Kernel.priority rfl]
  simp only [R.data_eq Kernel.allSem rfl, R.data_eq tskIsUnused rfl,
    R.osSemFindHighestWaiterPriority hf hs, save_originalPriority, HeapKernel.onData]
  split
  · exact .pure R
  · rename_i hv
    have hle := ((L.owner s hs.2).resolve_left hv).1
    split
    · exact .pure R
    · refine Ends.bind (.pure rfl) fun highest hh => ?_
      rw [← hh]
      generalize (if k.priority w < MiniEuler.osSemFindHighestWaiterPriority k s then
        k.priority w else MiniEuler.osSemFindHighestWaiterPriority k s) = v
      split
      · exact R.osOwnerPrioritySet hf L hle v
      · exact .pure R

theorem Represents.osPriorityRestore (R : Represents A x k) {ph : Nat → TskPhase}
    (L : Linked k ph) (hs : k.live (.tasks (.semList s))) :
    Ends (HeapKernel.osPriorityRestore A fuel x s) (Represents A · (osPriorityRestore k s)) := by
  unfold HeapKernel.osPriorityRestore MiniEuler.osPriorityRestore
  rw [R.data_eq Kernel.priority rfl, R.data_eq Kernel.originalPriority rfl]
  simp only [R.data_eq Kernel.allSem rfl, R.data_eq tskIsUnused rfl,
    R.osSemFindHighestWaiterPriority hf hs]
  split
  · exact .pure R
  · rename_i hv
    have hle := ((L.owner s hs.2).resolve_left hv).1
    split
    · exact .pure R
    · split
      · exact .pure R
      · refine Ends.bind (.pure rfl) fun highest hh => ?_
        rw [← hh]
        split
        · exact R.osOwnerPrioritySet hf L hle _
        · exact R.osOwnerPrioritySet hf L hle _

/-! ## Pend and post -/

/-- The block that the loop of `OsSemPendListPut` stops at. -/
def Kernel.pendPosition (k : Kernel) (s runTsk : Nat) : Option Nat :=
  if (k.allSem s).semMode = .prior then
    (k.semList s).find? fun cur => k.priority cur > k.priority runTsk
  else none

theorem Represents.osSemPendListPos (R : Represents A x k)
    (hs : k.live (.tasks (.semList s))) (runTsk : Nat) :
    HeapKernel.osSemPendListPos A fuel x s runTsk =
      some ((k.pendPosition s runTsk).map fun q => listComponent (A.tcbNode q) offsetPendList) := by
  unfold HeapKernel.osSemPendListPos Kernel.pendPosition
  rw [R.data_eq Kernel.priority rfl]
  simp only [R.data_eq Kernel.allSem rfl]
  split
  · exact R.forEachStop hs hf fun cur => k.priority cur > k.priority runTsk
  · rfl

theorem Represents.osSemPendListPut (R : Represents A x k) {ph : Nat → TskPhase}
    (L : Linked k ph) (hr : ph k.runningTask = .ready) (hs : k.live (.tasks (.semList s))) :
    Ends (HeapKernel.osSemPendListPut A fuel x s) (Represents A · (osSemPendListPut k s)) := by
  have hq : k.runningTask ∈ k.runQueue := L.mem_runQueue.mpr hr
  have hp := R.tcbs .runQueue _ hq
  have L' := L.semPendEnter hr s
  have P := L.placed.delete k.runningTask
  rw [osSemPendListPut_eq]
  unfold HeapKernel.osSemPendListPut
  simp only [R.data_eq Kernel.runningTask rfl]
  refine (R.osTskReadyDel hf (h := .runQueue) trivial hq (L.only hq)).bind fun x₁ R₁ => ?_
  -- the caller is off the run queue, and its block says what it waits for
  have R₂ := ((R₁.setTcb k.runningTask (fun k' =>
    { k'.tskCbArray k.runningTask with taskSem := some s }) rfl).status k.runningTask osTskPend).1
  have hk₂ : (tskStatusSet ((MiniEuler.osTskReadyDel k k.runningTask).setTcb k.runningTask
      { (MiniEuler.osTskReadyDel k k.runningTask).tskCbArray k.runningTask with
        taskSem := some s }) k.runningTask osTskPend).lists = k.lists.delete k.runningTask ∧
      (tskStatusSet ((MiniEuler.osTskReadyDel k k.runningTask).setTcb k.runningTask
      { (MiniEuler.osTskReadyDel k k.runningTask).tskCbArray k.runningTask with
        taskSem := some s }) k.runningTask osTskPend).allSem = k.allSem := by
    rw [osTskReadyDel_eq]
    exact ⟨rfl, rfl⟩
  unfold semPendEnter at L' ⊢
  simp only at L' ⊢
  generalize tskStatusSet ((MiniEuler.osTskReadyDel k k.runningTask).setTcb k.runningTask
      { (MiniEuler.osTskReadyDel k k.runningTask).tskCbArray k.runningTask with
        taskSem := some s }) k.runningTask osTskPend = k₂ at R₂ hk₂ L' ⊢
  obtain ⟨hl₂, hsem₂⟩ := hk₂
  have hs₂ : k₂.live (.tasks (.semList s)) := by
    rw [Kernel.live, hsem₂]
    exact hs
  have hout : ∀ h, k.runningTask ∉ k₂.lists h := by
    intro h
    rw [hl₂]
    exact P.not_mem (by simp)
  refine Ends.bind ⟨_, R₂.osSemPendListPos hf hs₂ k.runningTask, rfl⟩ fun cur hcur => ?_
  subst hcur
  have hposition : (if (k₂.allSem s).semMode = .prior then
      (k₂.semList s).find? fun cur => k₂.priority cur > k₂.priority k.runningTask
    else none) = k₂.pendPosition s k.runningTask := rfl
  rw [hposition] at L' ⊢
  cases hpos : k₂.pendPosition s k.runningTask with
  | none =>
    rw [hpos] at L'
    exact (R₂.tailAdd hs₂ hp hout).osPriorityInherit hf L' hs₂ _
  | some cur =>
    rw [hpos] at L'
    have hc : cur ∈ k₂.semList s := by
      unfold Kernel.pendPosition at hpos
      split at hpos
      · exact List.mem_of_find?_eq_some hpos
      · cases hpos
    have hmem : ∀ h, cur ∈ k₂.lists h → cur ∈ k.lists h := by
      intro h hm
      rw [hl₂] at hm
      exact List.mem_of_mem_erase hm
    have honly : ∀ h', h' ≠ .semList s → cur ∉ k₂.lists h' :=
      fun h' hh hm => L.only (hmem _ hc) h' hh (hmem h' hm)
    have R₃ := (R₂.addBefore hs₂ hp hout hc honly).osPriorityInherit hf L' hs₂ k.runningTask
    simpa only [Option.map_some, component_add_field] using R₃

theorem Represents.osSemPendListGet (R : Represents A x k) {ph : Nat → TskPhase}
    (L : Linked k ph) (hs : k.live (.tasks (.semList s))) {w : Nat} {rest : List Nat}
    (hl : k.semList s = w :: rest) :
    Ends (HeapKernel.osSemPendListGet A fuel x s)
      fun r => r.2 = w ∧ Represents A r.1 (osSemPendListGet k s).1 := by
  have hw : w ∈ k.semList s := by simp [hl]
  obtain ⟨hnext, hfirst⟩ := R.first hs hl
  have R₁ := R.delete hs hw (L.only hw)
  have R₂ := (R₁.status w (osTskTimeout ||| osTskPend)).2.setTcb w
    (fun k => { k.tskCbArray w with taskSem := none }) rfl
  have hout : ∀ h, w ∉ k.lists.delete w h := fun h => (L.placed.delete w).not_mem (by simp)
  unfold HeapKernel.osSemPendListGet MiniEuler.osSemPendListGet
  change (x.heap (A.semNode s)).next = _ at hnext
  rw [show k.semList s = _ from hl]
  simp only [hfirst, hnext, osTskDelayLockedDetach, ite_self, HeapKernel.onData_id]
  have htst := R₂.data_eq (tskStatusTst · w osTskSuspend) rfl
  by_cases hsusp : tskStatusTst ((tskStatusClear { k with lists := k.lists.delete w } w
      (osTskTimeout ||| osTskPend)).setTcb w
      { (tskStatusClear { k with lists := k.lists.delete w } w
        (osTskTimeout ||| osTskPend)).tskCbArray w with taskSem := none }) w osTskSuspend
  · rw [if_neg (not_not.mpr (htst.mpr hsusp)), if_neg (not_not.mpr hsusp)]
    exact .pure ⟨rfl, R₂⟩
  · rw [if_pos fun h => hsusp (htst.mp h), if_pos hsusp]
    exact (R₂.osTskReadyAdd hf (R.tcbs _ w hw) hout).bind fun x' R' => .pure ⟨rfl, R'⟩

theorem Represents.osSemPostRestore (R : Represents A x k) {ph : Nat → TskPhase}
    (L : Linked k ph) (hs : k.live (.tasks (.semList s))) :
    Ends (HeapKernel.osSemPostRestore A fuel x s)
      (Represents A · (MiniEuler.osPriorityRestore k s)) := by
  have hsame : (k.allSem s).semOwner = osInvalidOwnerId ∨ tskIsUnused k (k.allSem s).semOwner →
      MiniEuler.osPriorityRestore k s = k := by
    rintro (h | h)
    · exact if_pos h
    · rcases osPriorityRestore_cases k s with ⟨he, -⟩ | ⟨-, hu, -⟩
      · exact he
      · exact absurd h hu
  unfold HeapKernel.osSemPostRestore
  simp only [R.data_eq Kernel.allSem rfl, R.data_eq tskIsUnused rfl]
  split
  · split
    · exact R.osPriorityRestore hf L hs
    · rename_i hu
      rw [hsame (Or.inr (not_not.mp hu))]
      exact .pure R
  · rename_i hv
    rw [hsame (Or.inl (not_not.mp hv))]
    exact .pure R

theorem Represents.osSemPostSchePre (R : Represents A x k) {ph : Nat → TskPhase}
    (L : Linked k ph) (hs : k.live (.tasks (.semList s))) {w : Nat} {rest : List Nat}
    (hl : k.semList s = w :: rest) :
    Ends (HeapKernel.osSemPostSchePre A fuel x s) (Represents A · (osSemPostSchePre k s)) := by
  have hlR := (osPriorityRestore_semList L hs.2 s).trans hl
  have F := osPriorityRestore_prioFrame L hs.2
  have LR := L.osPriorityRestore hs.2
  have hsR : (MiniEuler.osPriorityRestore k s).live (.tasks (.semList s)) := by
    rw [Kernel.live, F.allSem]
    exact hs
  refine (R.osSemPostRestore hf L hs).bind fun x₁ R₁ => ?_
  refine (R₁.osSemPendListGet hf LR hsR hlR).bind fun r hr => ?_
  obtain ⟨x₂, w'⟩ := r
  obtain ⟨rfl, R₂⟩ := hr
  have hsnd : (MiniEuler.osSemPendListGet (MiniEuler.osPriorityRestore k s) s).2 = w' := by
    rw [osSemPendListGet_eq LR hlR]
  rw [osSemPostSchePre_eq, hsnd]
  exact .pure (R₂.setSem s (fun k =>
    { k.allSem s with semOwner := (k.tskCbArray w').taskPid }) rfl rfl)

/-! ## Calls -/

/-- A call ends with what it leaves and returns over sequences. -/
def CallEnds {α : Type} (A : KernelLayout) (o : Option (HeapKernel × α)) (r : Kernel × α) : Prop :=
  Ends o fun y => y.2 = r.2 ∧ Represents A y.1 r.1

omit hf in
theorem Represents.live_sem (R : Represents A x k) {ph : Nat → TskPhase} (I : Inv k ph)
    (hb : ¬ s ≥ k.maxSem) (hu : (k.allSem s).semStat ≠ osSemUnused) :
    k.live (.tasks (.semList s)) := by
  have := R.maxSem
  exact ⟨by omega, I.sems.used hu⟩

omit hf in
theorem osSemPendNotNeedSche_unlinked (k : Kernel) (s p : Nat) :
    osSemPendNotNeedSche k.unlinked s p =
      (osSemPendNotNeedSche k s p).map Kernel.unlinked := by
  by_cases h : (k.allSem s).semCount > 0
  · simp [osSemPendNotNeedSche, Kernel.unlinked, Kernel.setSem, h]
  · simp [osSemPendNotNeedSche, Kernel.unlinked, h]

theorem Represents.prtSemPend (R : Represents A x k) {ph : Nat → TskPhase} (I : Inv k ph)
    (hb : bgdActive k) (timeout : Nat) :
    CallEnds A (HeapKernel.prtSemPend A fuel x s timeout) (prtSemPend k s timeout) := by
  unfold HeapKernel.prtSemPend MiniEuler.prtSemPend
  simp only [R.data_eq Kernel.maxSem rfl, R.data_eq Kernel.allSem rfl,
    R.data_eq osIntActive rfl, R.data_eq osSemPendParaCheck rfl]
  split
  · exact .pure ⟨rfl, R⟩
  rename_i hmax
  split
  · exact .pure ⟨rfl, R⟩
  rename_i hu
  split
  · exact .pure ⟨rfl, R⟩
  have hs := R.live_sem I hmax hu
  have htake : osSemPendNotNeedSche x.data s x.data.runningTask =
      (osSemPendNotNeedSche k s k.runningTask).map Kernel.unlinked := by
    rw [R.data]
    exact osSemPendNotNeedSche_unlinked k s k.runningTask
  rw [htake]
  cases hn : osSemPendNotNeedSche k s k.runningTask with
  | some k' =>
    have hk' : k' = k.setSem s { k.allSem s with
        semCount := ((k.allSem s).semCount + (2 ^ 32 - 1)) % 2 ^ 32
        semOwner := (k.tskCbArray k.runningTask).taskPid } := by
      by_cases h : (k.allSem s).semCount > 0
      · exact (Option.some.inj ((if_pos h).symm.trans hn)).symm
      · have hnone := (if_neg h).symm.trans hn
        cases hnone
    have R' := R.setSem s (fun k => { k.allSem s with
      semCount := ((k.allSem s).semCount + (2 ^ 32 - 1)) % 2 ^ 32
      semOwner := (k.tskCbArray k.runningTask).taskPid }) rfl rfl
    rw [← hk'] at R'
    exact .pure ⟨rfl, R'.onData (f := fun _ => _) rfl rfl rfl (fun _ => rfl) rfl rfl rfl⟩
  | none =>
    simp only [Option.map_none]
    split
    · exact .pure ⟨rfl, R⟩
    refine (R.osSemPendListPut hf I.linked (I.active hb).1 hs).bind fun x' R' => ?_
    split
    · exact .pure ⟨rfl, R'⟩
    · exact (R'.osTskSchedule hf).bind fun x'' R'' => .pure ⟨rfl, R''⟩

theorem Represents.prtSemPost (R : Represents A x k) {ph : Nat → TskPhase} (I : Inv k ph) :
    CallEnds A (HeapKernel.prtSemPost A fuel x s) (prtSemPost k s) := by
  unfold HeapKernel.prtSemPost MiniEuler.prtSemPost
  simp only [R.data_eq Kernel.maxSem rfl, R.data_eq osSemPostErrorCheck rfl,
    R.data_eq osSemPostIsInvalid rfl]
  split
  · exact .pure ⟨rfl, R⟩
  rename_i hmax
  split
  · exact .pure ⟨rfl, R⟩
  rename_i herr
  split
  · exact .pure ⟨rfl, R⟩
  have hu : (k.allSem s).semStat ≠ osSemUnused := by
    intro hu
    refine herr ?_
    rw [osSemPostErrorCheck, if_pos hu]
    decide
  have hs := R.live_sem I hmax hu
  have hempty : ¬ listEmpty x.heap (A.semNode s) = true ↔ k.semList s ≠ [] :=
    not_congr (R.empty_iff hs)
  simp only [hempty]
  split
  · rename_i hl
    obtain ⟨w, rest, hwr⟩ := List.exists_cons_of_ne_nil hl
    refine (R.osSemPostSchePre hf I.linked hs hwr).bind fun x₁ R₁ => ?_
    exact (R₁.osTskSchedule hf).bind fun x₂ R₂ => .pure ⟨rfl, R₂⟩
  · refine (R.osPriorityRestore hf I.linked hs).bind fun x₁ R₁ => .pure ⟨rfl, ?_⟩
    exact (R₁.setSem s (fun k => { k.allSem s with
      semCount := ((k.allSem s).semCount + 1) % 2 ^ 32 }) rfl rfl).setSem s
        (fun k => { k.allSem s with semOwner := osInvalidOwnerId }) rfl rfl

theorem Represents.osTskEntryReturn (R : Represents A x k) {ph : Nat → TskPhase} (I : Inv k ph)
    (hb : bgdActive k) :
    Ends (HeapKernel.osTskEntryReturn A fuel x) (Represents A · (osTskEntryReturn k)) := by
  have R₁ : Represents A (x.onData fun k => { k with uniTaskLock := 0 })
      { k with uniTaskLock := 0 } := R.onData rfl rfl rfl (fun _ => rfl) rfl rfl rfl
  have hq : k.runningTask ∈ k.runQueue := I.linked.mem_runQueue.mpr (I.active hb).1
  unfold HeapKernel.osTskEntryReturn
  simp only [R₁.data_eq Kernel.runningTask rfl]
  exact (R₁.osTskReadyDel hf (h := .runQueue) trivial hq (I.linked.only hq)).bind
    fun x₂ R₂ => R₂.osTskSchedule hf

end

end MiniEuler
