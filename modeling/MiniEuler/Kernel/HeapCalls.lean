import MiniEuler.Kernel.HeapCreate

/-! The calls that start tasks and hand out semaphores, over the lists in memory: a resumed task's
link field goes to the run queue, and a new semaphore's list head is set up. -/

namespace MiniEuler
open Library Links

variable {A : KernelLayout} {x : HeapKernel} {k k' : Kernel} {ph : Nat → TskPhase} {p s : Nat}

/-! ## Resuming tasks -/

section
variable {fuel : Nat} (hf : tskCbNum < fuel)
include hf

theorem Represents.osMoveTaskToReady (R : Represents A x k) (hp : p < tskCbNum)
    (hout : ∀ h, p ∉ k.lists h) :
    Ends (HeapKernel.osMoveTaskToReady A fuel x p) (Represents A · (osMoveTaskToReady k p)) := by
  unfold HeapKernel.osMoveTaskToReady MiniEuler.osMoveTaskToReady
  simp only [osTskDelayLockedDetach, ite_self]
  have hl : (if tskStatusTst k p osTskDelayInterruptible then
      tskStatusClear k p (osTskTimeout ||| osTskDelayInterruptible) else k).lists = k.lists := by
    split <;> rfl
  have R₁ : Represents A (x.onData fun k => if tskStatusTst k p osTskDelayInterruptible then
        tskStatusClear k p (osTskTimeout ||| osTskDelayInterruptible) else k)
      (if tskStatusTst k p osTskDelayInterruptible then
        tskStatusClear k p (osTskTimeout ||| osTskDelayInterruptible) else k) := by
    by_cases h : tskStatusTst k p osTskDelayInterruptible
    · rw [if_pos h]
      refine R.onData ?_ rfl rfl (fun _ => rfl) rfl rfl rfl
      rw [if_pos (show tskStatusTst k.unlinked p osTskDelayInterruptible from h)]
      rfl
    · rw [if_neg h]
      refine R.onData ?_ rfl rfl (fun _ => rfl) rfl rfl rfl
      rw [if_neg (show ¬ tskStatusTst k.unlinked p osTskDelayInterruptible from h)]
  generalize (if tskStatusTst k p osTskDelayInterruptible then
    tskStatusClear k p (osTskTimeout ||| osTskDelayInterruptible) else k) = k₁ at R₁ hl ⊢
  simp only [R₁.data_eq (tskStatusTst · p osTskBlock) rfl]
  split
  · refine (R₁.osTskReadyAdd hf hp (by rw [hl]; exact hout)).bind fun x₂ R₂ => ?_
    simp only [R₂.data_eq bgdActive rfl]
    split
    · exact R₂.osTskSchedule hf
    · exact .pure R₂
  · exact .pure R₁

theorem Represents.prtTaskResume (R : Represents A x k) (L : Linked k ph)
    (hp : p ≤ k.tskMaxNum) :
    CallEnds A (HeapKernel.prtTaskResume A fuel x p) (prtTaskResume k p) := by
  unfold HeapKernel.prtTaskResume MiniEuler.prtTaskResume
  rw [getTcbHandle_eq]
  simp only [R.data_eq tskIsUnused rfl, R.data_eq tskStatusTst rfl,
    R.data_eq Kernel.uniTaskLock rfl]
  split
  · exact .pure ⟨rfl, R⟩
  split
  · exact .pure ⟨rfl, R⟩
  split
  · exact .pure ⟨rfl, R⟩
  rename_i hsusp
  have hs : ph p = .suspended := (L.tst_suspend hp).mp (not_not.mp hsusp)
  have hout : ∀ h, p ∉ k.lists h := fun h hm => by
    have := L.mem_lists.mp hm
    rw [hs] at this
    cases this
  exact ((R.status p osTskSuspend).2.osMoveTaskToReady hf (R.lt_of_le hp) hout).bind
    fun x' R' => .pure ⟨rfl, R'⟩

end

/-! ## Creating semaphores -/

theorem Represents.unusedSems_empty (R : Represents A x k) :
    listEmpty x.heap (A.head .unusedSems) = true ↔ k.unusedSemList = [] := by
  rw [listEmpty_iff R.rings (h := ⟨.unusedSems, trivial⟩)]
  exact List.map_eq_nil_iff

theorem Represents.unusedSems_first (R : Represents A x k) {rest : List Nat}
    (hl : k.unusedSemList = s :: rest) :
    (x.heap A.unusedSemList).next = A.semNode s ∧ A.getSemList (A.semNode s) = s := by
  have hring := (R.rings.ring ⟨.unusedSems, trivial⟩).path
  simp only [KernelLayout.nodes, hl, List.map_cons, List.cons_append] at hring
  exact ⟨(List.isChain_cons_cons.mp hring).1.1, A.semIndex_node (R.sems s (by simp [hl]))⟩

/-- The block taken off the list of unused semaphores; its `semList` becomes a list head. -/
theorem Represents.semCreated (R : Represents A x k) (S : SemsLinked k ph) {rest : List Nat}
    (hl : k.unusedSemList = s :: rest) {c : TagSemCb} (hc : c.semStat = osSemUsed) :
    Represents A
      { data := (semCreatedKernel k s rest c).unlinked
        heap := MiniEuler.initListObject (listDelete x.heap (A.semNode s)) (A.semNode s) }
      (semCreatedKernel k s rest c) := by
  obtain ⟨hs, hun⟩ := (S.unusedSem s).mp (by simp [hl])
  have hlt := R.sems s (by simp [hl])
  have hnot : ¬ k.live (.tasks (.semList s)) := by
    rintro ⟨-, hu⟩
    rw [hun] at hu
    cases hu
  have hnodes : A.nodes k .unusedSems = A.semNode s :: rest.map A.semNode := by
    simp only [KernelLayout.nodes, hl, List.map_cons]
  obtain ⟨hr, hout⟩ := listDelete_ringsOn R.rings (h := .unusedSems) trivial
    (n := A.semNode s) (by rw [hnodes]; exact List.mem_cons_self)
  rw [hnodes, List.erase_cons_head] at hr hout
  have hr' := RingsOn.extend (h := HeapHead.tasks (.semList s)) (initListObject_rings hr hout)
    (joined_initListObject _ _) hout
  have hlive : (semCreatedKernel k s rest c).live =
      fun h => k.live h ∨ h = .tasks (.semList s) := by
    funext h
    rcases h with (_ | _ | s') | _
    case tasks.semList =>
      by_cases he : s' = s
      · subst he
        simp [Kernel.live, semCreatedKernel, hc, hlt]
      · simp [Kernel.live, semCreatedKernel, he]
    all_goals simp [Kernel.live]
  have hnodes' : A.nodes (semCreatedKernel k s rest c) =
      Function.update (Function.update (A.nodes k) .unusedSems (rest.map A.semNode))
        (.tasks (.semList s)) [] := by
    funext h
    rcases h with (_ | _ | s') | _
    case tasks.semList =>
      by_cases he : s' = s
      · subst he
        simp [KernelLayout.nodes, semCreatedKernel]
      · simp [KernelLayout.nodes, semCreatedKernel, he]
    all_goals simp [KernelLayout.nodes, semCreatedKernel]
  refine ⟨rfl, ?_, fun h p hp => ?_, fun s' h => ?_, R.max, R.maxSem, R.stackMem⟩
  · rw [hlive, hnodes']
    exact hr'
  · by_cases he : h = .semList s
    · subst he
      simp [semCreatedKernel] at hp
    · exact R.tcbs h p (by simpa [semCreatedKernel, he] using hp)
  · exact R.sems s' (hl ▸ List.mem_cons_of_mem s h)

theorem Represents.osSemCreate (R : Represents A x k) (S : SemsLinked k ph)
    (count semType : Nat) (semMode : SemMode) (null : Bool) :
    (HeapKernel.osSemCreate A x count semType semMode null).2 =
      (osSemCreate k count semType semMode null).2 ∧
    Represents A (HeapKernel.osSemCreate A x count semType semMode null).1
      (osSemCreate k count semType semMode null).1 := by
  unfold HeapKernel.osSemCreate MiniEuler.osSemCreate
  cases null with
  | true => exact ⟨rfl, R⟩
  | false =>
    cases hl : k.unusedSemList with
    | nil =>
      have hempty : listEmpty x.heap A.unusedSemList = true := R.unusedSems_empty.mpr hl
      simp only [hempty, Bool.false_eq_true, ↓reduceIte]
      exact ⟨trivial, R⟩
    | cons s rest =>
      have hne : ¬ listEmpty x.heap A.unusedSemList = true := fun h => by
        simpa [hl] using R.unusedSems_empty.mp h
      obtain ⟨hnext, hfirst⟩ := R.unusedSems_first hl
      simp only [Bool.false_eq_true, hne, ↓reduceIte, hnext, hfirst, HeapKernel.onData, R.data]
      exact ⟨rfl, R.semCreated S hl rfl⟩

theorem Represents.prtSemCreate (R : Represents A x k) (S : SemsLinked k ph)
    (count : Nat) (null : Bool) :
    (HeapKernel.prtSemCreate A x count null).2 = (prtSemCreate k count null).2 ∧
    Represents A (HeapKernel.prtSemCreate A x count null).1 (prtSemCreate k count null).1 := by
  unfold HeapKernel.prtSemCreate MiniEuler.prtSemCreate
  split
  · exact ⟨rfl, R⟩
  · exact R.osSemCreate S count semTypeCount .fifo null

/-! ## Starting the first task -/

/-- The start ends as it does over sequences. -/
def StartEnds (A : KernelLayout) (o : Option (Except Nat HeapKernel)) :
    Except Nat Kernel → Prop
  | .ok k => Ends o fun r => ∃ x, r = .ok x ∧ Represents A x k
  | .error ret => Ends o (· = .error ret)

section
variable {fuel : Nat} (hf : tskCbNum < fuel)
include hf

theorem Represents.osIdleTskAMPCreate (R : Represents A x k) (I : Inv k ph) (P : Pool k)
    (hused : ∀ i, i < 2 → k.stackMemUsed i = true) (osTskIdleBgd : UIntPtr) :
    StartEnds A (HeapKernel.osIdleTskAMPCreate A fuel x osTskIdleBgd)
      (osIdleTskAMPCreate k osTskIdleBgd) := by
  unfold HeapKernel.osIdleTskAMPCreate MiniEuler.osIdleTskAMPCreate
  have hidle : A.StackApart { taskEntry := osTskIdleBgd, taskPrio := osTskPriorityLowest } :=
    fun h => absurd rfl h
  obtain ⟨⟨x₁, e⟩, hx, hret, R₁⟩ := R.prtTaskCreate P hused hidle
  rw [hx]
  rcases MiniEuler.prtTaskCreate_cases I.linked
      { taskEntry := osTskIdleBgd, taskPrio := osTskPriorityLowest } with
    ⟨ret, -, hcr⟩ | ⟨cb, rest, t, used, hl, hc, hcr⟩
  · rw [hcr] at hret ⊢
    obtain rfl : e = .error ret := hret
    exact .pure rfl
  have hcb : cb ≤ k.tskMaxNum := I.linked.le_of_ne_dormant (by
    rw [I.linked.mem_tskCbFreeList.mp (by simp [hl])]
    decide)
  rw [I.linked.pid cb hcb] at hcr
  rw [hcr] at hret R₁ ⊢
  obtain rfl : e = .ok cb := hret
  have hres := R₁.prtTaskResume hf (I.created used hl hc).linked (p := cb) hcb
  simp only at hres ⊢
  generalize MiniEuler.prtTaskResume (createdKernel k cb t used) cb = r at hres ⊢
  obtain ⟨k₂, ret⟩ := r
  by_cases h : ret ≠ osOk
  · rw [if_pos h]
    refine Ends.bind (o := HeapKernel.prtTaskResume A fuel x₁ cb) hres fun y hy => ?_
    obtain ⟨x₂, ret'⟩ := y
    obtain rfl : ret' = ret := hy.1
    exact .pure (if_pos h)
  · rw [if_neg h]
    refine Ends.bind (o := HeapKernel.prtTaskResume A fuel x₁ cb) hres fun y hy => ?_
    obtain ⟨x₂, ret'⟩ := y
    obtain rfl : ret' = ret := hy.1
    exact .pure ⟨_, if_neg h, hy.2.onData rfl rfl rfl (fun _ => rfl) rfl rfl rfl⟩

theorem Represents.osFirstTimeSwitch (R : Represents A x k) :
    Ends (HeapKernel.osFirstTimeSwitch A fuel x) (Represents A · (osFirstTimeSwitch k)) := by
  refine (R.osTskHighestSet hf).bind fun x' R' => .pure ?_
  unfold MiniEuler.osFirstTimeSwitch
  simp only
  cases h : (MiniEuler.osTskHighestSet k).highestTask with
  | none =>
    refine R'.onData ?_ rfl rfl (fun _ => rfl) rfl rfl rfl
    simp only [Kernel.unlinked, h]
  | some highest =>
    refine R'.onData ?_ rfl rfl (fun _ => rfl) rfl rfl rfl
    simp only [Kernel.unlinked, h, tskStatusSet, Kernel.setTcb]

theorem Represents.osActivate (R : Represents A x k) (I : Inv k ph) (P : Pool k)
    (hused : ∀ i, i < 2 → k.stackMemUsed i = true) (osTskIdleBgd : UIntPtr) :
    StartEnds A (HeapKernel.osActivate A fuel x osTskIdleBgd) (osActivate k osTskIdleBgd) := by
  have hidle := R.osIdleTskAMPCreate hf I P hused osTskIdleBgd
  unfold HeapKernel.osActivate MiniEuler.osActivate
  generalize MiniEuler.osIdleTskAMPCreate k osTskIdleBgd = r at hidle ⊢
  cases r with
  | error ret => exact Ends.bind hidle fun r hr => by rw [hr]; exact .pure rfl
  | ok k₁ =>
    refine Ends.bind hidle fun r hr => ?_
    obtain ⟨x₁, rfl, R₁⟩ := hr
    refine (R₁.osTskHighestSet hf).bind fun x₂ R₂ => ?_
    have hl : ({ MiniEuler.osTskHighestSet k₁ with
        uniFlag := (MiniEuler.osTskHighestSet k₁).uniFlag |||
          (osFlgBgdActive ||| osFlgTskReq) } : Kernel).lists =
      (MiniEuler.osTskHighestSet k₁).lists := rfl
    have R₃ := R₂.onData (f := fun k =>
        { k with uniFlag := k.uniFlag ||| (osFlgBgdActive ||| osFlgTskReq) })
      (by rfl) hl rfl (fun _ => rfl) rfl rfl rfl
    exact (R₃.osFirstTimeSwitch hf).bind fun x₄ R₄ => .pure ⟨x₄, rfl, R₄⟩

end

end MiniEuler
