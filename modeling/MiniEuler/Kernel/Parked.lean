import MiniEuler.Kernel.BasePriority

/-! Tasks that have been created and not resumed: they are on no list, they do
not run, and no call but their own resume touches them. This holds under every
call, with every timeout, and also when a resume names the zombie block. -/

namespace MiniEuler
open Library

variable {k k' k'' : Kernel} {p : Nat}

/-- The bits that a resume looks for. -/
def osTskParked : BitVec 32 := osTskSuspend ||| osTskDelayInterruptible

abbrev Parked (k : Kernel) (p : Nat) : Prop := tskStatusTst k p osTskParked

/-- The calls that can be made when any block of the array may be resumed. -/
def Op.CallableAny (k : Kernel) : Op → Prop
  | .taskResume taskPid => taskPid < osMaxTcbNum k
  | op => op.Callable k

instance (k : Kernel) (op : Op) : Decidable (op.CallableAny k) :=
  match op with
  | .taskResume _ => inferInstanceAs (Decidable (_ < _))
  | .taskCreate _ | .semCreate _ _ | .osSemCreate _ _ _ _ | .semPost _ | .uartPost _ =>
    inferInstanceAs (Decidable True)
  | .semPend _ _ | .taskExit | .activate _ => inferInstanceAs (Decidable (_ ∧ _))

/-- The kernel under all calls, with every timeout and every block resumed. -/
def resumeMachine : Machine Kernel Op where
  Start := Initialised
  Allowed := fun k op => op.CallableAny k
  exec := Op.next

instance (k : Kernel) (op : Op) : Decidable (resumeMachine.Allowed k op) :=
  inferInstanceAs (Decidable (op.CallableAny k))

structure ParkInv (k : Kernel) : Prop where
  lock : k.uniTaskLock = 0
  parked : ∀ p, Parked k p → p ≤ k.tskMaxNum ∧
    (k.tskCbArray p).taskStatus = osTskSuspend ||| osTskInuse
  apart : ∀ p, Parked k p → (∀ h, p ∉ k.lists h) ∧ p ≠ k.runningTask
  listed : ∀ p h, p ∈ k.lists h → p ≤ k.tskMaxNum
  ready : ∀ p, tskStatusTst k p osTskReady → p ≤ k.tskMaxNum
  running : k.runningTask < osMaxTcbNum k
  active : bgdActive k → k.runningTask ≤ k.tskMaxNum

/-- A step that keeps the invariant, the parked tasks and the start flag. -/
structure ParkKept (k k' : Kernel) : Prop where
  inv : ParkInv k'
  parked : ∀ p, Parked k' p ↔ Parked k p
  tskMaxNum : k'.tskMaxNum = k.tskMaxNum

theorem ParkKept.refl (I : ParkInv k) : ParkKept k k := ⟨I, fun _ => Iff.rfl, rfl⟩

theorem ParkKept.trans (h : ParkKept k k') (h' : ParkKept k' k'') : ParkKept k k'' :=
  ⟨h'.inv, fun p => (h'.parked p).trans (h.parked p), h'.tskMaxNum.trans h.tskMaxNum⟩

theorem or_tst (a b m : BitVec 32) : (a ||| b) &&& m ≠ 0 ↔ a &&& m ≠ 0 ∨ b &&& m ≠ 0 := by
  have h := BitVec.or_eq_zero_iff (x := a &&& m) (y := b &&& m)
  rw [← BitVec.and_or_distrib_right] at h
  exact (not_congr h).trans not_and_or

theorem clear_tst {a b m : BitVec 32} (h : (a &&& ~~~b) &&& m ≠ 0) : a &&& m ≠ 0 := by
  intro ha
  refine h ?_
  rw [BitVec.and_assoc, BitVec.and_comm (~~~b), ← BitVec.and_assoc, ha]
  exact BitVec.zero_and

theorem tst_congr {q : Nat} (h : (k'.tskCbArray q).taskStatus = (k.tskCbArray q).taskStatus)
    (b : BitVec 32) : tskStatusTst k' q b ↔ tskStatusTst k q b := by
  rw [tskStatusTst, tskStatusTst, h]

theorem tst_of_status {a : BitVec 32} (h : (k.tskCbArray p).taskStatus = a) (b : BitVec 32) :
    tskStatusTst k p b ↔ a &&& b ≠ 0 := by
  rw [tskStatusTst, h]

/-! ## Writes -/

/-- A write to a block that is not parked and does not become so. -/
theorem ParkInv.setTcb (I : ParkInv k) (hp : ¬ Parked k p) {t : TagTskCb}
    (ht : t.taskStatus &&& osTskParked = 0)
    (hready : t.taskStatus &&& osTskReady ≠ 0 → p ≤ k.tskMaxNum) : ParkKept k (k.setTcb p t) := by
  have hsame : ∀ q, Parked (k.setTcb p t) q ↔ Parked k q := by
    intro q
    by_cases hq : q = p
    · subst hq
      exact iff_of_false (by simpa [tskStatusTst, Kernel.setTcb] using ht) hp
    · simp [tskStatusTst, Kernel.setTcb, hq]
  refine ⟨⟨I.lock, fun q hq => ?_, fun q hq => I.apart q ((hsame q).mp hq), I.listed,
    fun q hq => ?_, I.running, I.active⟩, hsame, rfl⟩
  · have hk := (hsame q).mp hq
    have hne : q ≠ p := fun e => hp (e ▸ hk)
    simpa [Kernel.setTcb, hne] using I.parked q hk
  · by_cases hqp : q = p
    · subst hqp
      exact hready (by simpa [tskStatusTst, Kernel.setTcb] using hq)
    · exact I.ready q (by simpa [tskStatusTst, Kernel.setTcb, hqp] using hq)

theorem ParkInv.tskStatusSet (I : ParkInv k) (hp : ¬ Parked k p) {b : BitVec 32}
    (hb : b &&& osTskParked = 0) (hready : b &&& osTskReady ≠ 0 → p ≤ k.tskMaxNum) :
    ParkKept k (tskStatusSet k p b) := by
  refine I.setTcb hp (not_not.mp fun h => ?_) fun h => ?_
  · exact ((or_tst _ _ _).mp h).elim hp fun h => h hb
  · exact ((or_tst _ _ _).mp h).elim (I.ready p) hready

theorem ParkInv.tskStatusClear (I : ParkInv k) (hp : ¬ Parked k p) (b : BitVec 32) :
    ParkKept k (tskStatusClear k p b) :=
  I.setTcb hp (not_not.mp fun h => hp (clear_tst h)) fun h => I.ready p (clear_tst h)

/-- A write that leaves the status word as it is. -/
theorem ParkInv.setTcb_same (I : ParkInv k) {t : TagTskCb}
    (ht : t.taskStatus = (k.tskCbArray p).taskStatus) : ParkKept k (k.setTcb p t) := by
  have hst : ∀ q, ((k.setTcb p t).tskCbArray q).taskStatus = (k.tskCbArray q).taskStatus := by
    intro q
    by_cases hq : q = p
    · subst hq; simp [Kernel.setTcb, ht]
    · simp [Kernel.setTcb, hq]
  have htst : ∀ q b, tskStatusTst (k.setTcb p t) q b ↔ tskStatusTst k q b :=
    fun q b => tst_congr (hst q) b
  refine ⟨⟨I.lock, fun q hq => ?_, fun q hq => I.apart q ((htst q _).mp hq), I.listed,
    fun q hq => I.ready q ((htst q _).mp hq), I.running, I.active⟩, fun q => htst q _, rfl⟩
  rw [hst]
  exact I.parked q ((htst q _).mp hq)

/-- A write to the lists, to semaphores and to globals. -/
theorem ParkInv.relink (I : ParkInv k) {ls : NodeLists ListHead Nat}
    (hls : ∀ q h, q ∈ ls h → q ≤ k.tskMaxNum ∧ ¬ Parked k q) {r : Nat}
    (hr : r < osMaxTcbNum k ∧ ¬ Parked k r) {flag : BitVec 32}
    (hact : osFlgBgdActive &&& flag ≠ 0 → r ≤ k.tskMaxNum) (sems : Nat → TagSemCb)
    (unusedSems : List Nat) (high : Option Nat) (idle : Nat) (fault : Bool) :
    ParkKept k { k with
      lists := ls, allSem := sems, unusedSemList := unusedSems, runningTask := r,
      highestTask := high, idleTaskId := idle, uniFlag := flag, fault := fault } :=
  ⟨⟨I.lock, I.parked, fun q hq => ⟨fun h hm => (hls q h hm).2 hq,
      fun e => hr.2 (by rw [← show q = r from e]; exact hq)⟩,
    fun q h hm => (hls q h hm).1, I.ready, hr.1, hact⟩, fun _ => Iff.rfl, rfl⟩

theorem ParkInv.member (I : ParkInv k) {h : ListHead} (hm : p ∈ k.lists h) :
    p ≤ k.tskMaxNum ∧ ¬ Parked k p := ⟨I.listed p h hm, fun hp => (I.apart p hp).1 h hm⟩

theorem ParkInv.running_ok (I : ParkInv k) :
    k.runningTask < osMaxTcbNum k ∧ ¬ Parked k k.runningTask :=
  ⟨I.running, fun hp => (I.apart _ hp).2 rfl⟩

theorem ParkInv.globals (I : ParkInv k) {flag : BitVec 32}
    (hact : osFlgBgdActive &&& flag ≠ 0 → k.runningTask ≤ k.tskMaxNum) (sems : Nat → TagSemCb)
    (unusedSems : List Nat) (high : Option Nat) (idle : Nat) (fault : Bool) :
    ParkKept k { k with
      allSem := sems, unusedSemList := unusedSems, highestTask := high, idleTaskId := idle,
      uniFlag := flag, fault := fault } :=
  I.relink (fun _ _ hm => I.member hm) I.running_ok hact _ _ _ _ _

theorem ParkInv.setSem (I : ParkInv k) (s : Nat) (c : TagSemCb) : ParkKept k (k.setSem s c) :=
  I.globals I.active _ _ _ _ _

theorem ParkInv.delete (I : ParkInv k) (p : Nat) (high : Option Nat) :
    ParkKept k { k with lists := k.lists.delete p, highestTask := high } :=
  I.relink (fun _ _ hm => I.member (List.mem_of_mem_erase hm)) I.running_ok I.active _ _ _ _ _

theorem ParkInv.tailAdd (I : ParkInv k) (hp : p ≤ k.tskMaxNum ∧ ¬ Parked k p) (h : ListHead)
    (high : Option Nat) :
    ParkKept k { k with lists := k.lists.tailAdd p h, highestTask := high } := by
  refine I.relink (fun q h' hm => ?_) I.running_ok I.active _ _ _ _ _
  by_cases he : h' = h
  · subst he
    rw [NodeLists.tailAdd_self, List.mem_append, List.mem_singleton] at hm
    rcases hm with hm | rfl
    · exact I.member hm
    · exact hp
  · rw [NodeLists.tailAdd_other _ _ he] at hm
    exact I.member hm

theorem ParkInv.addBefore (I : ParkInv k) (hp : p ≤ k.tskMaxNum ∧ ¬ Parked k p) (cur : Nat) :
    ParkKept k { k with lists := k.lists.addBefore p cur } := by
  refine I.relink (fun q h' hm => ?_) I.running_ok I.active _ _ _ _ _
  rcases mem_insertBefore hm with rfl | hm
  · exact hp
  · exact I.member hm

theorem ParkKept.ok (h : ParkKept k k') (hp : p ≤ k.tskMaxNum ∧ ¬ Parked k p) :
    p ≤ k'.tskMaxNum ∧ ¬ Parked k' p := by
  rw [h.tskMaxNum, h.parked]
  exact hp

/-! ## The helpers of the kernel -/

theorem ParkInv.osTskReadyAdd (I : ParkInv k) (hp : p ≤ k.tskMaxNum ∧ ¬ Parked k p) :
    ParkKept k (osTskReadyAdd k p) := by
  have h := I.tskStatusSet hp.2 (b := osTskReady) (by decide) fun _ => hp.1
  exact h.trans (h.inv.tailAdd (h.ok hp) .runQueue _)

theorem ParkInv.osTskReadyDel (I : ParkInv k) (hp : ¬ Parked k p) :
    ParkKept k (osTskReadyDel k p) := by
  have h := I.tskStatusClear hp osTskReady
  exact h.trans (h.inv.delete p _)

theorem ParkInv.osTskHighestSet (I : ParkInv k) : ParkKept k (osTskHighestSet k) :=
  I.globals I.active _ _ _ _ _

theorem ParkInv.highest (I : ParkInv k) {h : Nat}
    (hh : (MiniEuler.osTskHighestSet k).highestTask = some h) :
    h ≤ k.tskMaxNum ∧ ¬ Parked k h := by
  rw [osTskHighestSet_highestTask] at hh
  exact I.member (List.argmin_mem hh)

theorem bgdActive_clearReq (b : BitVec 32) :
    osFlgBgdActive &&& (b &&& ~~~osFlgTskReq) ≠ 0 → osFlgBgdActive &&& b ≠ 0 := by
  intro h hb
  rw [← BitVec.and_assoc, hb] at h
  exact h BitVec.zero_and

theorem bgdActive_setReq (b : BitVec 32) :
    osFlgBgdActive &&& (b ||| osFlgTskReq) ≠ 0 → osFlgBgdActive &&& b ≠ 0 := by
  intro h hb
  rw [BitVec.and_or_distrib_left, hb] at h
  exact h (by decide)

theorem ParkInv.osMainSchedule (I : ParkInv k)
    (hh : ∀ h, k.highestTask = some h → h ≤ k.tskMaxNum ∧ ¬ Parked k h) :
    ParkKept k (osMainSchedule k) := by
  unfold MiniEuler.osMainSchedule
  split
  · have h₁ : ParkKept k { k with uniFlag := k.uniFlag &&& ~~~osFlgTskReq } :=
      I.globals (fun h => I.active (bgdActive_clearReq _ h)) _ _ _ _ _
    have h₂ := h₁.trans (h₁.inv.tskStatusClear h₁.inv.running_ok.2 osTskRunning)
    simp only
    split
    · exact h₂.trans (h₂.inv.globals h₂.inv.active _ _ _ _ _)
    · rename_i h he
      have hok := hh h he
      have h₃ := h₂.trans (h₂.inv.tskStatusSet (h₂.ok hok).2 (b := osTskRunning) (by decide)
        fun hb => absurd (by decide) hb)
      have hok₃ := h₃.ok hok
      exact h₃.trans (h₃.inv.relink (fun _ _ hm => h₃.inv.member hm)
        ⟨Nat.lt_succ_of_le (Nat.le_succ_of_le hok₃.1), hok₃.2⟩ (fun _ => hok₃.1) _ _ _ _ _)
  · exact ParkKept.refl I

theorem ParkInv.osTskSchedule (I : ParkInv k) : ParkKept k (osTskSchedule k) := by
  have h₁ := I.osTskHighestSet
  have h₂ : ParkKept k { MiniEuler.osTskHighestSet k with
      uniFlag := k.uniFlag ||| osFlgTskReq } :=
    h₁.trans (h₁.inv.globals (fun h => I.active (bgdActive_setReq _ h)) _ _ _ _ _)
  unfold MiniEuler.osTskSchedule
  simp only
  split
  · split
    · exact h₂.trans (h₂.inv.osMainSchedule fun h hh => h₂.ok (I.highest hh))
    · exact h₂
  · exact h₁

theorem ParkInv.osOwnerPrioritySet (I : ParkInv k) (p v : Nat) :
    ParkKept k (osOwnerPrioritySet k p v) := by
  have h : ParkKept k (k.setTcb p { k.tskCbArray p with priority := v }) := I.setTcb_same rfl
  unfold MiniEuler.osOwnerPrioritySet
  simp only
  split
  · rename_i hr
    -- an owner that is ready is not parked
    have hle := h.inv.ready p hr
    have hp : ¬ Parked (k.setTcb p { k.tskCbArray p with priority := v }) p := by
      intro hp
      rw [tskStatusTst, (h.inv.parked p hp).2] at hr
      exact hr (by decide)
    have hd := h.trans (h.inv.osTskReadyDel hp)
    have hok : p ≤ k.tskMaxNum ∧ ¬ Parked k p := ⟨hle, fun hk => hp ((h.parked p).mpr hk)⟩
    exact hd.trans (hd.inv.osTskReadyAdd (hd.ok hok))
  · exact h

theorem ParkInv.osPriorityInherit (I : ParkInv k) (s w : Nat) :
    ParkKept k (osPriorityInherit k s w) :=
  osPriorityInherit_rule (M := ParkKept k) (ParkKept.refl I) (fun v _ _ =>
    I.osOwnerPrioritySet _ v) w

theorem ParkInv.osPriorityRestore (I : ParkInv k) (s : Nat) :
    ParkKept k (osPriorityRestore k s) :=
  osPriorityRestore_rule (M := ParkKept k) (ParkKept.refl I) fun v _ _ =>
    I.osOwnerPrioritySet _ v

theorem ParkInv.osSemPendListPut (I : ParkInv k) (hb : bgdActive k) (s : Nat) :
    ParkKept k (osSemPendListPut k s) := by
  have hrun : k.runningTask ≤ k.tskMaxNum ∧ ¬ Parked k k.runningTask :=
    ⟨I.active hb, I.running_ok.2⟩
  have h₁ := I.osTskReadyDel hrun.2
  have h₂ : ParkKept k ((MiniEuler.osTskReadyDel k k.runningTask).setTcb k.runningTask
      { (MiniEuler.osTskReadyDel k k.runningTask).tskCbArray k.runningTask with
        taskSem := some s }) := h₁.trans (h₁.inv.setTcb_same rfl)
  have h₃ := h₂.trans (h₂.inv.tskStatusSet (h₂.ok hrun).2 (b := osTskPend) (by decide)
    fun hb => absurd (by decide) hb)
  unfold MiniEuler.osSemPendListPut
  simp only
  split
  · rename_i cur _
    have h₄ := h₃.trans (h₃.inv.addBefore (h₃.ok hrun) cur)
    exact h₄.trans (h₄.inv.osPriorityInherit _ _)
  · have h₄ := h₃.trans (h₃.inv.tailAdd (h₃.ok hrun) (.semList s)
      (MiniEuler.osTskReadyDel k k.runningTask).highestTask)
    exact h₄.trans (h₄.inv.osPriorityInherit _ _)

theorem ParkInv.osSemPendListGet (I : ParkInv k) (s : Nat) :
    ParkKept k (osSemPendListGet k s).1 := by
  unfold MiniEuler.osSemPendListGet
  split
  · exact I.globals I.active _ _ _ _ _
  · rename_i w rest hl
    have hw : w ≤ k.tskMaxNum ∧ ¬ Parked k w := I.member (h := .semList s)
      (by rw [show k.lists (.semList s) = _ from hl]; simp)
    have h₁ := I.delete w k.highestTask
    have h₂ := h₁.trans (h₁.inv.tskStatusClear (h₁.ok hw).2 (osTskTimeout ||| osTskPend))
    have h₃ : ParkKept k _ := h₂.trans (h₂.inv.setTcb_same (p := w)
      (t := { (MiniEuler.tskStatusClear { k with lists := k.lists.delete w } w
        (osTskTimeout ||| osTskPend)).tskCbArray w with taskSem := none }) rfl)
    have h₄ := h₃.trans (h₃.inv.osTskReadyAdd (h₃.ok hw))
    simp only [osTskDelayLockedDetach, ite_self, osTskReadyAddBgd]
    split
    · exact h₄
    · exact h₃

theorem ParkInv.osSemPostSchePre (I : ParkInv k) (s : Nat) :
    ParkKept k (osSemPostSchePre k s) := by
  have h₁ := I.osPriorityRestore s
  have h₂ := h₁.trans (h₁.inv.osSemPendListGet s)
  rw [osSemPostSchePre_eq]
  exact h₂.trans (h₂.inv.setSem _ _)

/-! ## Resuming -/

/-- The state in which a resumed task is neither parked nor ready. -/
theorem ParkInv.clearSuspend (I : ParkInv k) (hp : Parked k p) :
    ParkInv (MiniEuler.tskStatusClear k p osTskSuspend) ∧
    ((MiniEuler.tskStatusClear k p osTskSuspend).tskCbArray p).taskStatus = osTskInuse ∧
    p ≤ k.tskMaxNum ∧ ¬ Parked (MiniEuler.tskStatusClear k p osTskSuspend) p := by
  obtain ⟨hle, hst⟩ := I.parked p hp
  have hat : ((MiniEuler.tskStatusClear k p osTskSuspend).tskCbArray p).taskStatus =
      osTskInuse := by
    have hbits : (osTskSuspend ||| osTskInuse) &&& ~~~osTskSuspend = osTskInuse := by decide
    simp [MiniEuler.tskStatusClear, Kernel.setTcb, hst, hbits]
  have hother : ∀ q, q ≠ p →
      (MiniEuler.tskStatusClear k p osTskSuspend).tskCbArray q = k.tskCbArray q := fun q hq => by
    simp [MiniEuler.tskStatusClear, Kernel.setTcb, hq]
  have hfree : ¬ Parked (MiniEuler.tskStatusClear k p osTskSuspend) p :=
    (tst_of_status hat _).not.mpr (by decide)
  have hback : ∀ q, Parked (MiniEuler.tskStatusClear k p osTskSuspend) q → q ≠ p ∧ Parked k q := by
    intro q hq
    have hne : q ≠ p := fun e => hfree (e ▸ hq)
    exact ⟨hne, (tst_congr (by rw [hother q hne]) _).mp hq⟩
  refine ⟨⟨I.lock, fun q hq => ?_, fun q hq => I.apart q (hback q hq).2, I.listed,
    fun q hq => ?_, I.running, I.active⟩, hat, hle, hfree⟩
  · rw [hother q (hback q hq).1]
    exact I.parked q (hback q hq).2
  · by_cases hqp : q = p
    · rw [hqp]
      exact hle
    · exact I.ready q ((tst_congr (by rw [hother q hqp]) _).mp hq)

/-- **A parked task is resumed.** -/
theorem ParkInv.resume_parked (I : ParkInv k) (hp : Parked k p) : prtTaskResume k p =
    (if bgdActive k then MiniEuler.osTskSchedule (resumedKernel k p) else resumedKernel k p,
      osOk) := by
  obtain ⟨-, hat, -, -⟩ := I.clearSuspend hp
  have hst := (I.parked p hp).2
  have hun : ¬ tskIsUnused k p := by
    rw [tskIsUnused, hst]
    decide
  have hbgd : bgdActive (MiniEuler.osTskReadyAdd (MiniEuler.tskStatusClear k p osTskSuspend) p) ↔
      bgdActive k := by
    rw [osTskReadyAdd_eq]
    rfl
  have hdi : ¬ tskStatusTst (MiniEuler.tskStatusClear k p osTskSuspend) p
      osTskDelayInterruptible := (tst_of_status hat _).not.mpr (by decide)
  have hblock : ¬ tskStatusTst (MiniEuler.tskStatusClear k p osTskSuspend) p osTskBlock :=
    (tst_of_status hat _).not.mpr (by decide)
  have hpark : tskStatusTst k p (osTskSuspend ||| osTskDelayInterruptible) := hp
  unfold prtTaskResume
  simp only [getTcbHandle_eq, hun, I.lock, hpark, ↓reduceIte, ne_eq, not_true_eq_false, and_false,
    osMoveTaskToReady, hdi, hblock, not_false_eq_true, hbgd, resumedKernel]

/-- **Any other block is refused.** -/
theorem ParkInv.resume_refused (I : ParkInv k) (hp : ¬ Parked k p) :
    ∃ ret, ret ≠ osOk ∧ prtTaskResume k p = (k, ret) := by
  have hpark : ¬ tskStatusTst k p (osTskSuspend ||| osTskDelayInterruptible) := hp
  unfold prtTaskResume
  by_cases hun : tskIsUnused k p
  · exact ⟨osErrnoTskNotCreated, by decide, by simp [hun]⟩
  · exact ⟨osErrnoTskNotSuspended, by decide, by simp [hun, I.lock, hpark]⟩

theorem ParkInv.resumedKernel (I : ParkInv k) (hp : Parked k p) :
    ParkInv (MiniEuler.resumedKernel k p) := by
  obtain ⟨I₁, -, hle, hfree⟩ := I.clearSuspend hp
  exact (I₁.osTskReadyAdd ⟨hle, hfree⟩).inv

theorem ParkInv.prtTaskResume (I : ParkInv k) (p : Nat) :
    ParkInv (prtTaskResume k p).1 := by
  by_cases hp : Parked k p
  · rw [I.resume_parked hp]
    split
    · exact (I.resumedKernel hp).osTskSchedule.inv
    · exact I.resumedKernel hp
  · obtain ⟨ret, -, h⟩ := I.resume_refused hp
    rw [h]
    exact I

/-! ## The calls -/

/-- The new task is parked. -/
theorem ParkInv.outcome (I : ParkInv k) (P : Pool k) {initParam : TskInitParam}
    {r : Except Nat Nat} (h : CreateOutcome k initParam (k', r)) :
    ParkInv k' ∧ ∀ pid, r = .ok pid → Parked k' pid := by
  cases h with
  | noTcb _ => exact ⟨I, fun _ h => by cases h⟩
  | noStack _ _ => exact ⟨I, fun _ h => by cases h⟩
  | @created cb rest flg stack used hl hst =>
    obtain ⟨hle, hu⟩ := P.free cb (by simp [hl])
    have hnu := not_inUse_of_unused hu
    have hself : Parked (createdKernel k cb (createdTcb (k.tskCbArray cb) initParam flg stack)
        used) cb := (tst_of_status (a := osTskSuspend ||| osTskInuse)
          (by simp [createdKernel, createdTcb]) _).mpr (by decide)
    have hother : ∀ q b, q ≠ cb → (tskStatusTst (createdKernel k cb
        (createdTcb (k.tskCbArray cb) initParam flg stack) used) q b ↔ tskStatusTst k q b) :=
      fun q b hq => tst_congr (by rw [createdKernel_tskCbArray hq]) b
    refine ⟨⟨I.lock, fun q hq => ?_, fun q hq => ?_,
      fun q h hm => I.listed q h (List.mem_of_mem_erase hm), fun q hq => ?_, I.running, I.active⟩,
      fun pid hpid => ?_⟩
    · by_cases hqc : q = cb
      · subst hqc
        exact ⟨hle, by simp [createdKernel, createdTcb]⟩
      · rw [createdKernel_tskCbArray hqc]
        exact I.parked q ((hother q _ hqc).mp hq)
    · by_cases hqc : q = cb
      · subst hqc
        refine ⟨fun h hm => ?_, fun e => hnu (e ▸ P.running)⟩
        by_cases hh : h = .tskCbFreeList
        · subst hh
          exact (P.nodup.not_mem_erase) hm
        · exact hnu (P.linked q h hh (List.mem_of_mem_erase hm))
      · obtain ⟨hlists, hrun⟩ := I.apart q ((hother q _ hqc).mp hq)
        exact ⟨fun h hm => hlists h (List.mem_of_mem_erase hm), hrun⟩
    · by_cases hqc : q = cb
      · rw [hqc]
        exact hle
      · exact I.ready q ((hother q _ hqc).mp hq)
    · obtain rfl := Except.ok.inj hpid
      exact hself

theorem ParkInv.osSemCreate (I : ParkInv k) (count semType : Nat) (semMode : SemMode)
    (null : Bool) : ParkInv (osSemCreate k count semType semMode null).1 := by
  rcases osSemCreate_cases k count semType semMode null with ⟨ret, -, h⟩ | ⟨s, rest, hl, h⟩
  · rw [h]
    exact I
  · rw [h]
    refine (I.relink (fun q h' hm => ?_) I.running_ok I.active _ _ _ _ _).inv
    by_cases he : h' = .semList s
    · subst he
      simp at hm
    · rw [Function.update_of_ne he] at hm
      exact I.member hm

theorem ParkInv.prtSemPend (I : ParkInv k) (hb : bgdActive k) (s timeout : Nat) :
    ParkInv (prtSemPend k s timeout).1 := by
  rcases prtSemPend_cases k s timeout with
    ⟨ret, -, -, h⟩ | ⟨-, -, -, h⟩ | ⟨-, -, h⟩ | ⟨-, -, h⟩ <;> rw [h]
  · exact I
  · exact (I.setSem _ _).inv
  · exact (I.osSemPendListPut hb s).inv.osTskSchedule.inv
  · exact (I.osSemPendListPut hb s).inv

theorem ParkInv.prtSemPost (I : ParkInv k) (s : Nat) : ParkInv (prtSemPost k s).1 := by
  rcases prtSemPost_cases k s with
    ⟨ret, -, -, h⟩ | ⟨-, -, h⟩ | ⟨-, -, -, h⟩ | ⟨-, -, -, h⟩ <;> rw [h]
  · exact I
  · exact I
  · exact (I.osSemPostSchePre s).inv.osTskSchedule.inv
  · rw [releasedKernel_eq]
    exact ((I.osPriorityRestore s).inv.setSem _ _).inv

theorem ParkInv.osTskEntryReturn (I : ParkInv k) : ParkInv (osTskEntryReturn k) := by
  rw [osTskEntryReturn_eq I.lock]
  exact (I.osTskReadyDel I.running_ok.2).inv.osTskSchedule.inv

/-- The first task is on the run queue, so it has a block of the array. -/
theorem ParkInv.osFirstTimeSwitch (I : ParkInv k) (hq : k.runQueue ≠ []) (flag : BitVec 32) :
    ParkInv (osFirstTimeSwitch { MiniEuler.osTskHighestSet k with uniFlag := flag }) := by
  obtain ⟨hi, hhi⟩ : ∃ hi, (MiniEuler.osTskHighestSet k).highestTask = some hi := by
    rw [osTskHighestSet_highestTask]
    exact Option.ne_none_iff_exists'.mp fun h => hq (List.argmin_eq_none.mp h)
  have hok := I.highest hhi
  have h₁ : ParkKept k { k with uniFlag := flag, runningTask := hi, highestTask := some hi } :=
    I.relink (fun _ _ hm => I.member hm) ⟨Nat.lt_succ_of_le (Nat.le_succ_of_le hok.1), hok.2⟩
      (fun _ => hok.1) _ _ _ _ _
  have hhi' : (MiniEuler.osTskHighestSet { MiniEuler.osTskHighestSet k with
      uniFlag := flag }).highestTask = some hi := hhi
  unfold MiniEuler.osFirstTimeSwitch
  simp only [hhi']
  exact (h₁.inv.tskStatusSet (h₁.ok hok).2 (b := osTskRunning) (by decide)
    fun hb => absurd (by decide) hb).inv

theorem ParkInv.osActivate (I : ParkInv k) (P : Pool k) (hb : ¬ bgdActive k) {entry : UIntPtr}
    (h : osActivate k entry = .ok k') : ParkInv k' := by
  have hout := P.prtTaskCreate (idleParam entry)
  cases hcr : MiniEuler.prtTaskCreate k (idleParam entry) with
  | mk k₁ r =>
    rw [hcr] at hout
    obtain ⟨I₁, hpark⟩ := I.outcome P hout
    have hb₁ : ¬ bgdActive k₁ := by cases hout <;> exact hb
    unfold MiniEuler.osActivate osIdleTskAMPCreate at h
    rw [show ({ taskEntry := entry, taskPrio := osTskPriorityLowest } : TskInitParam) =
      idleParam entry from rfl, hcr] at h
    cases r with
    | error ret => cases h
    | ok pid =>
      have hp := hpark pid rfl
      have I₂ := I₁.resumedKernel hp
      have hq : (MiniEuler.resumedKernel k₁ pid).runQueue ≠ [] := by
        rw [MiniEuler.resumedKernel, osTskReadyAdd_eq]
        simp [Kernel.runQueue]
      have I₃ : ParkInv { MiniEuler.resumedKernel k₁ pid with idleTaskId := pid } :=
        (I₂.globals I₂.active _ _ _ _ _).inv
      simp only [I₁.resume_parked hp, if_neg hb₁, ne_eq, not_true_eq_false, ↓reduceIte,
        Except.ok.injEq] at h
      rw [← h]
      exact I₃.osFirstTimeSwitch hq _

theorem Op.CallableAny.callable {op : Op} (hc : op.CallableAny k)
    (h : ∀ taskPid, op ≠ .taskResume taskPid) : op.Callable k := by
  cases op with
  | taskResume p => exact absurd rfl (h p)
  | _ => exact hc

/-- **Step lemma.** -/
theorem ParkInv.next (I : ParkInv k) (P : Pool k) {op : Op} (hc : op.CallableAny k) :
    ParkInv (op.next k) ∧ Pool (op.next k) := by
  by_cases hr : ∃ taskPid, op = .taskResume taskPid
  · obtain ⟨p, rfl⟩ := hr
    exact ⟨I.prtTaskResume p, (P.prtTaskResume p).pool⟩
  have hc := hc.callable fun p h => hr ⟨p, h⟩
  refine ⟨?_, P.next hc⟩
  cases op with
  | taskCreate initParam => exact (I.outcome P (P.prtTaskCreate initParam)).1
  | taskResume p => exact absurd ⟨p, rfl⟩ hr
  | semCreate count null =>
    simp only [Op.next, Op.exec, prtSemCreate]
    split
    · exact I
    · exact I.osSemCreate _ _ _ _
  | osSemCreate count semType semMode null => exact I.osSemCreate _ _ _ _
  | semPend s timeout => exact I.prtSemPend hc.1 s timeout
  | semPost s => exact I.prtSemPost s
  | uartPost s => exact I.prtSemPost s
  | taskExit => exact I.osTskEntryReturn
  | activate entry =>
    cases hact : MiniEuler.osActivate k entry with
    | error ret =>
      have := hc.2
      rw [hact] at this
      cases this
    | ok k' =>
      simp only [Op.next, Op.exec, hact]
      exact I.osActivate P hc.1 hact

theorem ParkInv.initialised (h : Initialised k) : ParkInv k := by
  have hno : ∀ p, ¬ Parked k p := by
    intro p
    rw [initialised_eq h]
    by_cases hp : p = 23
    · subst hp
      exact (tst_of_status (a := osTskInuse ||| osTskRunning) (by simp) _).not.mpr (by decide)
    · refine (tst_of_status (a := 0) ?_ _).not.mpr (by decide)
      by_cases hlt : p < 23 <;> simp [hp, hlt]
  have hready : ∀ p, ¬ tskStatusTst k p osTskReady := by
    intro p
    rw [initialised_eq h]
    by_cases hp : p = 23
    · subst hp
      exact (tst_of_status (a := osTskInuse ||| osTskRunning) (by simp) _).not.mpr (by decide)
    · refine (tst_of_status (a := 0) ?_ _).not.mpr (by decide)
      by_cases hlt : p < 23 <;> simp [hp, hlt]
  have hb := not_bgdActive_initialised h
  have heq := initialised_eq h
  refine ⟨?_, fun p hp => absurd hp (hno p), fun p hp => absurd hp (hno p), fun p l hm => ?_,
    fun p hp => absurd hp (hready p), ?_, fun h => absurd h hb⟩
  · rw [heq]
    rfl
  · rw [heq] at hm ⊢
    change p ≤ 22
    by_cases hl : l = .tskCbFreeList
    · subst hl
      have : p < 23 := by simpa using hm
      omega
    · simp [hl] at hm
  · rw [heq]
    exact Nat.lt_succ_self 23

/-- **Run lemma.** -/
theorem ParkInv.of_run {hist : History} (r : Run resumeMachine hist k) : ParkInv k ∧ Pool k :=
  r.invariant (fun k => ParkInv k ∧ Pool k)
    (fun _ h => ⟨ParkInv.initialised h, Pool.initialised h⟩) fun _ _ h hc => h.1.next h.2 hc

end MiniEuler
