import MiniEuler.Kernel.Runs

/-! The two pools that creating a task draws from, control blocks and stack areas,
over every run of every call, pends with any timeout among them. -/

namespace MiniEuler
open Library

variable {k k' k'' : Kernel} {p : Nat}

/-- The block has been handed out by a creation. -/
abbrev inUse (k : Kernel) (p : Nat) : Prop := tskStatusTst k p osTskInuse

/-- The free list holds exactly blocks that are unused, and no other list does. -/
structure Pool (k : Kernel) : Prop where
  nodup : k.tskCbFreeList.Nodup
  free : ∀ p ∈ k.tskCbFreeList, p ≤ k.tskMaxNum ∧ tskIsUnused k p
  status : ∀ p, tskIsUnused k p ∨ inUse k p
  linked : ∀ p h, h ≠ .tskCbFreeList → p ∈ k.lists h → inUse k p
  running : inUse k k.runningTask
  pid : ∀ p, p ≤ k.tskMaxNum → (k.tskCbArray p).taskPid = p
  semId : ∀ s ∈ k.unusedSemList, (k.allSem s).semId = s

theorem inUse_iff : inUse k p ↔ (k.tskCbArray p).taskStatus.getLsbD 0 = true := by
  have hb : osTskInuse = BitVec.twoPow 32 0 := by decide
  rw [inUse, hb]
  exact tskStatusTst_twoPow k p (by decide)

theorem not_inUse_of_unused (h : tskIsUnused k p) : ¬ inUse k p := by
  rw [inUse_iff, show (k.tskCbArray p).taskStatus = osTskUnused from h]
  decide

theorem Pool.not_unused (P : Pool k) : ¬ tskIsUnused k p ↔ inUse k p :=
  ⟨fun h => (P.status p).resolve_left h, fun h hu => not_inUse_of_unused hu h⟩

/-- A block on the free list is on no other. -/
theorem Pool.free_only (P : Pool k) (hp : p ∈ k.tskCbFreeList) {h : ListHead}
    (hh : h ≠ .tskCbFreeList) : p ∉ k.lists h :=
  fun hm => not_inUse_of_unused (P.free p hp).2 (P.linked p h hh hm)

theorem Pool.not_free (P : Pool k) (h : inUse k p) : p ∉ k.tskCbFreeList :=
  fun hm => not_inUse_of_unused (P.free p hm).2 h

/-! ## Calls that leave the pools alone -/

/-- `k'` differs from `k` in nothing that only the creation of a task writes. -/
structure PoolFrame (k k' : Kernel) : Prop where
  free : k'.tskCbFreeList = k.tskCbFreeList
  stackMem : k'.stackMem = k.stackMem
  stackMemUsed : k'.stackMemUsed = k.stackMemUsed
  tskMaxNum : k'.tskMaxNum = k.tskMaxNum
  tcb : ∀ p, ∃ b v o s, k'.tskCbArray p = { k.tskCbArray p with
    taskStatus := b, priority := v, originalPriority := o, taskSem := s }
  unused : ∀ p, tskIsUnused k' p ↔ tskIsUnused k p
  unusedSem : ∀ s ∈ k'.unusedSemList, s ∈ k.unusedSemList
  sem : ∀ s, (k'.allSem s).semId = (k.allSem s).semId ∧
    ((k.allSem s).semStat = osSemUsed → (k'.allSem s).semStat = osSemUsed)

/-- A step that leaves the pools alone and keeps them sound. -/
structure PoolKept (k k' : Kernel) : Prop where
  frame : PoolFrame k k'
  pool : Pool k'

theorem PoolFrame.refl (k : Kernel) : PoolFrame k k :=
  ⟨rfl, rfl, rfl, rfl, fun _ => ⟨_, _, _, _, rfl⟩, fun _ => Iff.rfl, fun _ h => h,
    fun _ => ⟨rfl, id⟩⟩

theorem PoolFrame.trans (h : PoolFrame k k') (h' : PoolFrame k' k'') : PoolFrame k k'' := by
  refine ⟨h'.free.trans h.free, h'.stackMem.trans h.stackMem,
    h'.stackMemUsed.trans h.stackMemUsed, h'.tskMaxNum.trans h.tskMaxNum, fun p => ?_,
    fun p => (h'.unused p).trans (h.unused p), fun s hs => h.unusedSem s (h'.unusedSem s hs),
    fun s => ⟨(h'.sem s).1.trans (h.sem s).1, fun hs => (h'.sem s).2 ((h.sem s).2 hs)⟩⟩
  obtain ⟨b, v, o, s, hp⟩ := h.tcb p
  obtain ⟨b', v', o', s', hp'⟩ := h'.tcb p
  exact ⟨b', v', o', s', by rw [hp', hp]⟩

theorem PoolKept.refl (P : Pool k) : PoolKept k k := ⟨PoolFrame.refl k, P⟩

theorem PoolKept.trans (h : PoolKept k k') (h' : PoolKept k' k'') : PoolKept k k'' :=
  ⟨h.frame.trans h'.frame, h'.pool⟩

theorem PoolKept.inUse (h : PoolKept k k') (P : Pool k) : inUse k' p ↔ inUse k p := by
  rw [← h.pool.not_unused, ← P.not_unused, h.frame.unused]

/-- A write to one block that keeps its `OS_TSK_INUSE` bit. -/
theorem Pool.setTcb (P : Pool k) (hp : inUse k p) {b : BitVec 32} (hb : b.getLsbD 0 = true)
    (v o : Nat) (s : Option Nat) : PoolKept k (k.setTcb p { k.tskCbArray p with
      taskStatus := b, priority := v, originalPriority := o, taskSem := s }) := by
  have htcb : ∀ q, ∃ b' v' o' s', (k.setTcb p { k.tskCbArray p with
      taskStatus := b, priority := v, originalPriority := o, taskSem := s }).tskCbArray q =
      { k.tskCbArray q with
        taskStatus := b', priority := v', originalPriority := o', taskSem := s' } := by
    intro q
    by_cases hq : q = p
    · subst hq
      exact ⟨b, v, o, s, by simp [Kernel.setTcb]⟩
    · exact ⟨_, _, _, _, Function.update_of_ne hq _ _⟩
  have huse : ∀ q, MiniEuler.inUse (k.setTcb p { k.tskCbArray p with
      taskStatus := b, priority := v, originalPriority := o, taskSem := s }) q ↔
      MiniEuler.inUse k q := by
    intro q
    by_cases hq : q = p
    · subst hq
      rw [inUse_iff]
      exact iff_of_true (by simpa [Kernel.setTcb] using hb) hp
    · simp [inUse_iff, Kernel.setTcb, hq]
  have hun : ∀ q, tskIsUnused (k.setTcb p { k.tskCbArray p with
      taskStatus := b, priority := v, originalPriority := o, taskSem := s }) q ↔
      tskIsUnused k q := by
    intro q
    by_cases hq : q = p
    · subst hq
      exact iff_of_false (fun h => not_inUse_of_unused h ((huse q).mpr hp))
        (fun h => not_inUse_of_unused h hp)
    · simp [tskIsUnused, Kernel.setTcb, hq]
  refine ⟨⟨rfl, rfl, rfl, rfl, htcb, hun, fun _ h => h, fun _ => ⟨rfl, id⟩⟩, P.nodup,
    fun q hq => ?_, fun q => ?_, fun q h hh hq => (huse q).mpr (P.linked q h hh hq),
    (huse _).mpr P.running, fun q hq => ?_, P.semId⟩
  · exact ⟨(P.free q hq).1, (hun q).mpr (P.free q hq).2⟩
  · rw [hun, huse]
    exact P.status q
  · obtain ⟨b', v', o', s', h⟩ := htcb q
    rw [h]
    exact P.pid q hq

theorem Pool.tskStatusSet (P : Pool k) (hp : inUse k p) (b : BitVec 32) :
    PoolKept k (tskStatusSet k p b) :=
  P.setTcb hp (by rw [BitVec.getLsbD_or, inUse_iff.mp hp, Bool.true_or]) _ _ _

theorem Pool.tskStatusClear (P : Pool k) (hp : inUse k p) {b : BitVec 32}
    (hb : b.getLsbD 0 = false) : PoolKept k (tskStatusClear k p b) :=
  P.setTcb hp (by simpa [inUse_iff.mp hp] using hb) _ _ _

theorem Pool.setTaskSem (P : Pool k) (hp : inUse k p) (s : Option Nat) :
    PoolKept k (k.setTcb p { k.tskCbArray p with taskSem := s }) :=
  P.setTcb hp (inUse_iff.mp hp) _ _ s

/-- A write to the lists, to semaphore blocks and to globals that the pools do not
mention. -/
theorem Pool.relinkSems (P : Pool k) {ls : NodeLists ListHead Nat}
    (hfree : ls .tskCbFreeList = k.tskCbFreeList)
    (hls : ∀ q h, h ≠ .tskCbFreeList → q ∈ ls h → inUse k q)
    {r : Nat} (hr : inUse k r) {sems : Nat → TagSemCb} {unusedSems : List Nat}
    (hsub : ∀ s ∈ unusedSems, s ∈ k.unusedSemList)
    (hsem : ∀ s, (sems s).semId = (k.allSem s).semId ∧
      ((k.allSem s).semStat = osSemUsed → (sems s).semStat = osSemUsed))
    (high : Option Nat) (idle : Nat) (flag : BitVec 32) (lock : Nat) (fault : Bool) :
    PoolKept k { k with
      lists := ls, allSem := sems, unusedSemList := unusedSems, runningTask := r,
      highestTask := high, idleTaskId := idle, uniFlag := flag, uniTaskLock := lock,
      fault := fault } := by
  refine ⟨⟨hfree, rfl, rfl, rfl, fun _ => ⟨_, _, _, _, rfl⟩, fun _ => Iff.rfl, hsub, hsem⟩, ?_,
    ?_, P.status, hls, hr, P.pid, fun s hs => (hsem s).1.trans (P.semId s (hsub s hs))⟩
  · rw [show Kernel.tskCbFreeList _ = _ from hfree]
    exact P.nodup
  · intro q hq
    rw [show Kernel.tskCbFreeList _ = _ from hfree] at hq
    exact P.free q hq

theorem Pool.relink (P : Pool k) {ls : NodeLists ListHead Nat}
    (hfree : ls .tskCbFreeList = k.tskCbFreeList)
    (hls : ∀ q h, h ≠ .tskCbFreeList → q ∈ ls h → inUse k q)
    {r : Nat} (hr : inUse k r) (high : Option Nat) (idle : Nat) (flag : BitVec 32) (lock : Nat)
    (fault : Bool) :
    PoolKept k { k with
      lists := ls, runningTask := r, highestTask := high, idleTaskId := idle, uniFlag := flag,
      uniTaskLock := lock, fault := fault } :=
  P.relinkSems hfree hls hr (fun _ h => h) (fun _ => ⟨rfl, id⟩) _ _ _ _ _

theorem Pool.setSem (P : Pool k) (s count owner : Nat) :
    PoolKept k (k.setSem s { k.allSem s with semCount := count, semOwner := owner }) := by
  refine P.relinkSems rfl P.linked P.running (fun _ h => h) (fun s' => ?_) _ _ _ _ _
  by_cases hs : s' = s
  · subst hs
    simp
  · simp [hs]

theorem Pool.delete (P : Pool k) (hp : inUse k p) (high : Option Nat) :
    PoolKept k { k with lists := k.lists.delete p, highestTask := high } := by
  refine P.relink ?_ (fun q h hh hq => P.linked q h hh (List.mem_of_mem_erase hq)) P.running
    _ _ _ _ _
  exact List.erase_of_not_mem (P.not_free hp)

theorem Pool.tailAdd (P : Pool k) (hp : inUse k p) {h : ListHead} (hh : h ≠ .tskCbFreeList)
    (high : Option Nat) :
    PoolKept k { k with lists := k.lists.tailAdd p h, highestTask := high } := by
  refine P.relink (NodeLists.tailAdd_other _ _ (Ne.symm hh)) (fun q h' hh' hq => ?_) P.running
    _ _ _ _ _
  by_cases he : h' = h
  · subst he
    rw [NodeLists.tailAdd_self, List.mem_append, List.mem_singleton] at hq
    rcases hq with hq | rfl
    · exact P.linked q h' hh hq
    · exact hp
  · rw [NodeLists.tailAdd_other _ _ he] at hq
    exact P.linked q h' hh' hq

theorem mem_insertBefore {α : Type} [DecidableEq α] {n cur x : α} {l : List α}
    (hx : x ∈ NodeLists.insertBefore n cur l) : x = n ∨ x ∈ l := by
  by_cases hc : cur ∈ l
  · exact List.mem_cons.mp ((NodeLists.insertBefore_perm n cur l hc).mem_iff.mp hx)
  · rw [NodeLists.insertBefore_of_not_mem n cur l hc] at hx
    exact Or.inr hx

theorem Pool.addBefore (P : Pool k) (hp : inUse k p) {cur : Nat} (hc : inUse k cur) :
    PoolKept k { k with lists := k.lists.addBefore p cur } := by
  refine P.relink ?_ (fun q h hh hq => ?_) P.running _ _ _ _ _
  · exact NodeLists.insertBefore_of_not_mem _ _ _ (P.not_free hc)
  · rcases mem_insertBefore hq with rfl | hq
    · exact hp
    · exact P.linked q h hh hq

theorem Pool.osTskReadyAdd (P : Pool k) (hp : inUse k p) : PoolKept k (osTskReadyAdd k p) := by
  have h := P.tskStatusSet hp osTskReady
  exact h.trans (h.pool.tailAdd ((h.inUse P).mpr hp) (by simp) _)

theorem Pool.osTskReadyDel (P : Pool k) (hp : inUse k p) : PoolKept k (osTskReadyDel k p) := by
  have h := P.tskStatusClear hp (b := osTskReady) (by decide)
  exact h.trans (h.pool.delete ((h.inUse P).mpr hp) _)

theorem Pool.highest_inUse (P : Pool k) {h : Nat}
    (hh : (osTskHighestSet k).highestTask = some h) : inUse k h := by
  rw [osTskHighestSet_highestTask] at hh
  exact P.linked h .runQueue (by simp) (List.argmin_mem hh)

theorem Pool.osTskHighestSet (P : Pool k) : PoolKept k (osTskHighestSet k) :=
  P.relink rfl P.linked P.running _ _ _ _ _

theorem Pool.osMainSchedule (P : Pool k) (hh : ∀ h, k.highestTask = some h → inUse k h) :
    PoolKept k (osMainSchedule k) := by
  unfold MiniEuler.osMainSchedule
  split
  · have h₁ : PoolKept k { k with uniFlag := k.uniFlag &&& ~~~osFlgTskReq } :=
      P.relink rfl P.linked P.running _ _ _ _ _
    have h₂ := h₁.trans (h₁.pool.tskStatusClear (b := osTskRunning) h₁.pool.running (by decide))
    simp only
    split
    · exact h₂.trans (h₂.pool.relink rfl h₂.pool.linked h₂.pool.running _ _ _ _ _)
    · rename_i h he
      have hu := (h₂.inUse P).mpr (hh h he)
      have h₃ := h₂.trans (h₂.pool.tskStatusSet hu osTskRunning)
      exact h₃.trans (h₃.pool.relink rfl h₃.pool.linked ((h₃.inUse P).mpr (hh h he))
        _ _ _ _ _)
  · exact PoolKept.refl P

theorem Pool.osTskSchedule (P : Pool k) : PoolKept k (osTskSchedule k) := by
  have h₁ := P.osTskHighestSet
  have h₂ : PoolKept k { MiniEuler.osTskHighestSet k with
      uniFlag := k.uniFlag ||| osFlgTskReq } :=
    h₁.trans (h₁.pool.relink rfl h₁.pool.linked h₁.pool.running _ _ _ _ _)
  unfold MiniEuler.osTskSchedule
  simp only
  split
  · split
    · exact h₂.trans (h₂.pool.osMainSchedule fun h hh => P.highest_inUse hh)
    · exact h₂
  · exact h₁

theorem Pool.osFirstTimeSwitch (P : Pool k) : PoolKept k (osFirstTimeSwitch k) := by
  have h₁ := P.osTskHighestSet
  unfold MiniEuler.osFirstTimeSwitch
  simp only
  split
  · exact h₁.trans (h₁.pool.relink rfl h₁.pool.linked h₁.pool.running _ _ _ _ _)
  · rename_i hi hhi
    have hu := P.highest_inUse hhi
    have h₂ : PoolKept k { MiniEuler.osTskHighestSet k with runningTask := hi } :=
      h₁.trans (h₁.pool.relink rfl h₁.pool.linked ((h₁.inUse P).mpr hu) _ _ _ _ _)
    exact h₂.trans (h₂.pool.tskStatusSet ((h₂.inUse P).mpr hu) osTskRunning)

theorem Pool.osOwnerPrioritySet (P : Pool k) (hp : inUse k p) (v : Nat) :
    PoolKept k (osOwnerPrioritySet k p v) := by
  have h := P.setTcb hp (inUse_iff.mp hp) v (k.tskCbArray p).originalPriority
    (k.tskCbArray p).taskSem
  have hp' := (h.inUse P).mpr hp
  unfold MiniEuler.osOwnerPrioritySet
  simp only
  split
  · have hd := h.trans (h.pool.osTskReadyDel hp')
    exact hd.trans (hd.pool.osTskReadyAdd ((hd.inUse P).mpr hp))
  · exact h

theorem Pool.osPriorityInherit (P : Pool k) (s w : Nat) :
    PoolKept k (osPriorityInherit k s w) :=
  osPriorityInherit_rule (M := PoolKept k) (PoolKept.refl P) (fun v _ hun =>
    P.osOwnerPrioritySet (P.not_unused.mp hun) v) w

theorem Pool.osPriorityRestore (P : Pool k) (s : Nat) : PoolKept k (osPriorityRestore k s) :=
  osPriorityRestore_rule (M := PoolKept k) (PoolKept.refl P) fun v _ hun =>
    P.osOwnerPrioritySet (P.not_unused.mp hun) v

theorem Pool.osSemPendListPut (P : Pool k) (s : Nat) : PoolKept k (osSemPendListPut k s) := by
  have h₁ := P.osTskReadyDel P.running
  have h₂ := h₁.trans (h₁.pool.setTaskSem ((h₁.inUse P).mpr P.running) (some s))
  have h₃ := h₂.trans (h₂.pool.tskStatusSet ((h₂.inUse P).mpr P.running) osTskPend)
  have hr₃ := (h₃.inUse P).mpr P.running
  unfold MiniEuler.osSemPendListPut
  simp only
  split
  · rename_i cur hcur
    have hmem : cur ∈ k.lists.delete k.runningTask (.semList s) := by
      split at hcur
      · exact List.mem_of_find?_eq_some hcur
      · cases hcur
    have h₄ := h₃.trans (h₃.pool.addBefore hr₃ (h₃.pool.linked cur (.semList s) (by simp) hmem))
    exact h₄.trans (h₄.pool.osPriorityInherit _ _)
  · have h₄ := h₃.trans (h₃.pool.tailAdd hr₃ (h := .semList s) (by simp)
      (MiniEuler.osTskReadyDel k k.runningTask).highestTask)
    exact h₄.trans (h₄.pool.osPriorityInherit _ _)

theorem Pool.osSemPendListGet (P : Pool k) (s : Nat) : PoolKept k (osSemPendListGet k s).1 := by
  unfold MiniEuler.osSemPendListGet
  split
  · exact P.relink rfl P.linked P.running _ _ _ _ _
  · rename_i w rest hl
    have hw : inUse k w := P.linked w (.semList s) (by simp)
      (by rw [show k.lists (.semList s) = _ from hl]; simp)
    have h₁ := P.delete hw k.highestTask
    have h₂ := h₁.trans (h₁.pool.tskStatusClear ((h₁.inUse P).mpr hw)
      (b := osTskTimeout ||| osTskPend) (by decide))
    have h₃ := h₂.trans (h₂.pool.setTaskSem ((h₂.inUse P).mpr hw) none)
    have h₄ := h₃.trans (h₃.pool.osTskReadyAdd ((h₃.inUse P).mpr hw))
    simp only [osTskDelayLockedDetach, ite_self, osTskReadyAddBgd]
    split
    · exact h₄
    · exact h₃

theorem Pool.osSemPostSchePre (P : Pool k) (s : Nat) : PoolKept k (osSemPostSchePre k s) := by
  have h₁ := P.osPriorityRestore s
  have h₂ := h₁.trans (h₁.pool.osSemPendListGet s)
  rw [osSemPostSchePre_eq]
  exact h₂.trans (h₂.pool.setSem _ _ _)

/-! ## The calls -/

theorem Pool.osMoveTaskToReady (P : Pool k) (hp : inUse k p) :
    PoolKept k (osMoveTaskToReady k p) := by
  have moved : ∀ {k'}, PoolKept k k' → PoolKept k
      (if ¬ tskStatusTst k' p osTskBlock then
        if bgdActive (MiniEuler.osTskReadyAdd k' p) then
          MiniEuler.osTskSchedule (MiniEuler.osTskReadyAdd k' p)
        else MiniEuler.osTskReadyAdd k' p
      else k') := by
    intro k' h
    have hadd := h.trans (h.pool.osTskReadyAdd ((h.inUse P).mpr hp))
    split
    · split
      · exact hadd.trans hadd.pool.osTskSchedule
      · exact hadd
    · exact h
  simp only [MiniEuler.osMoveTaskToReady, osTskDelayLockedDetach, ite_self]
  split
  · exact moved (P.tskStatusClear hp (b := osTskTimeout ||| osTskDelayInterruptible) (by decide))
  · exact moved (PoolKept.refl P)

theorem Pool.prtTaskResume (P : Pool k) (p : Nat) : PoolKept k (prtTaskResume k p).1 := by
  unfold MiniEuler.prtTaskResume
  generalize getTcbHandle p = q
  simp only
  split
  · exact PoolKept.refl P
  · rename_i hun
    have hp := P.not_unused.mp hun
    split
    · exact PoolKept.refl P
    · split
      · exact PoolKept.refl P
      · have h := P.tskStatusClear hp (b := osTskSuspend) (by decide)
        exact h.trans (h.pool.osMoveTaskToReady ((h.inUse P).mpr hp))

theorem Pool.osSemCreate (P : Pool k) (count semType : Nat) (semMode : SemMode) (null : Bool) :
    PoolKept k (osSemCreate k count semType semMode null).1 := by
  rcases osSemCreate_cases k count semType semMode null with ⟨ret, -, h⟩ | ⟨s, rest, hl, h⟩
  · rw [h]
    exact PoolKept.refl P
  · rw [h]
    refine P.relinkSems (Function.update_of_ne (by simp) _ _) (fun q h' hh hq => ?_) P.running
      (fun s' hs' => by rw [hl]; exact List.mem_cons_of_mem _ hs') (fun s' => ?_) _ _ _ _ _
    · by_cases he : h' = .semList s
      · subst he
        simp at hq
      · rw [Function.update_of_ne he] at hq
        exact P.linked q h' hh hq
    · by_cases hs' : s' = s
      · subst hs'
        simp [createdSem]
      · simp [hs']

/-- Creating a semaphore fails only when none is left. -/
theorem Pool.prtSemCreate (P : Pool k) {count : Nat} (hc : count ≤ osSemCountMax) :
    (k.unusedSemList = [] ∧ prtSemCreate k count false = (k, .error osErrnoSemAllBusy)) ∨
    ∃ k' s, k.unusedSemList ≠ [] ∧ prtSemCreate k count false = (k', .ok s) ∧ PoolKept k k' ∧
      (k'.allSem s).semStat = osSemUsed := by
  have hkept := P.osSemCreate count semTypeCount .fifo false
  unfold MiniEuler.prtSemCreate
  rw [if_neg (by omega)]
  rcases osSemCreate_cases k count semTypeCount .fifo false with ⟨ret, -, h⟩ | ⟨s, rest, hl, h⟩
  · left
    unfold MiniEuler.osSemCreate at h ⊢
    cases hl : k.unusedSemList with
    | nil => exact ⟨rfl, by simp⟩
    | cons s rest =>
      rw [hl] at h
      simp at h
  · right
    rw [h] at hkept ⊢
    rw [P.semId s (by simp [hl])]
    exact ⟨_, s, by simp [hl], rfl, hkept, by simp [semCreatedKernel, createdSem]⟩

theorem Pool.prtSemPend (P : Pool k) (s timeout : Nat) : PoolKept k (prtSemPend k s timeout).1 := by
  rcases prtSemPend_cases k s timeout with
    ⟨ret, -, -, h⟩ | ⟨-, -, -, h⟩ | ⟨-, -, h⟩ | ⟨-, -, h⟩ <;> rw [h]
  · exact PoolKept.refl P
  · exact P.setSem _ _ _
  · have h := P.osSemPendListPut s
    exact h.trans h.pool.osTskSchedule
  · exact P.osSemPendListPut s

theorem Pool.prtSemPost (P : Pool k) (s : Nat) : PoolKept k (prtSemPost k s).1 := by
  rcases prtSemPost_cases k s with
    ⟨ret, -, -, h⟩ | ⟨-, -, h⟩ | ⟨-, -, -, h⟩ | ⟨-, -, -, h⟩ <;> rw [h]
  · exact PoolKept.refl P
  · exact PoolKept.refl P
  · have h := P.osSemPostSchePre s
    exact h.trans h.pool.osTskSchedule
  · have h := P.osPriorityRestore s
    rw [releasedKernel_eq]
    exact h.trans (h.pool.setSem _ _ _)

theorem Pool.osTskEntryReturn (P : Pool k) : PoolKept k (osTskEntryReturn k) := by
  have h₁ : PoolKept k { k with uniTaskLock := 0 } :=
    P.relink rfl P.linked P.running _ _ _ _ _
  have h₂ := h₁.trans (h₁.pool.osTskReadyDel h₁.pool.running)
  exact h₂.trans h₂.pool.osTskSchedule

/-! ## Creating a task -/

/-- No stack can be had for the parameters. -/
def NoStack (k : Kernel) (initParam : TskInitParam) : Prop :=
  initParam.stackAddr = 0 ∧
    (initParam.stackSize ≠ 4096 ∨ ∀ i, i < stackMemNum → k.stackMemUsed i = true)

/-- The stack a task gets: its configuration flag, its place, and the areas in use
afterwards. -/
inductive StackTaken (k : Kernel) (initParam : TskInitParam) :
    Nat → UIntPtr × BitVec 32 → (Nat → Bool) → Prop
  | user : initParam.stackAddr ≠ 0 →
      StackTaken k initParam osTskStackCfgByUser (initParam.stackAddr, initParam.stackSize)
        k.stackMemUsed
  | sys {i : Nat} : initParam.stackAddr = 0 → initParam.stackSize = 4096 → i < stackMemNum →
      k.stackMemUsed i = false →
      StackTaken k initParam osTskStackCfgBySys
        (k.stackMem + BitVec.ofNat 64 (4096 * i), initParam.stackSize)
        (Function.update k.stackMemUsed i true)

/-- The outcomes of a creation. -/
inductive CreateOutcome (k : Kernel) (initParam : TskInitParam) :
    Kernel × Except Nat Nat → Prop
  | noTcb : k.tskCbFreeList = [] →
      CreateOutcome k initParam (k, .error osErrnoTskTcbUnavailable)
  | noStack : k.tskCbFreeList ≠ [] → NoStack k initParam →
      CreateOutcome k initParam (k, .error osErrnoTskNoMemory)
  | created {cb rest flg stack used} : k.tskCbFreeList = cb :: rest →
      StackTaken k initParam flg stack used →
      CreateOutcome k initParam
        (createdKernel k cb (createdTcb (k.tskCbArray cb) initParam flg stack) used, .ok cb)

theorem osTskMemAlloc_spec (k : Kernel) (size : BitVec 32) :
    (osTskMemAlloc k size = (k, none) ∧
      (size ≠ 4096 ∨ ∀ i, i < stackMemNum → k.stackMemUsed i = true)) ∨
    ∃ i, size = 4096 ∧ i < stackMemNum ∧ k.stackMemUsed i = false ∧
      osTskMemAlloc k size =
        ({ k with stackMemUsed := Function.update k.stackMemUsed i true },
          some (k.stackMem + BitVec.ofNat 64 (4096 * i))) := by
  unfold osTskMemAlloc osMemAllocAlign
  rw [if_neg (by decide)]
  by_cases hs : size = 4096
  · rw [if_neg (not_not.mpr hs)]
    cases hf : (List.range stackMemNum).find? (fun i => !k.stackMemUsed i) with
    | none =>
      left
      refine ⟨rfl, Or.inr fun i hi => ?_⟩
      have := List.find?_eq_none.mp hf i (List.mem_range.mpr hi)
      simpa using this
    | some i =>
      right
      have hu := List.find?_some hf
      exact ⟨i, hs, List.mem_range.mp (List.mem_of_find?_eq_some hf), by simpa using hu, rfl⟩
  · rw [if_pos hs]
    exact Or.inl ⟨rfl, Or.inl hs⟩

theorem osTaskCreateRsrcInit_spec (k : Kernel) (initParam : TskInitParam) (cb : Nat) :
    (osTaskCreateRsrcInit k initParam cb = (k, .error osErrnoTskNoMemory) ∧
      NoStack k initParam) ∨
    ∃ flg stack used, StackTaken k initParam flg stack used ∧
      osTaskCreateRsrcInit k initParam cb = ({ k with stackMemUsed := used }.setTcb cb
        { k.tskCbArray cb with stackCfgFlg := flg }, .ok stack) := by
  unfold osTaskCreateRsrcInit
  by_cases ha : initParam.stackAddr = 0
  · rw [if_neg (not_not.mpr ha)]
    rcases osTskMemAlloc_spec k initParam.stackSize with ⟨h, hno⟩ | ⟨i, hs, hi, hu, h⟩
    · rw [h]
      exact Or.inl ⟨rfl, ha, hno⟩
    · rw [h]
      exact Or.inr ⟨_, _, _, .sys ha hs hi hu, rfl⟩
  · rw [if_pos ha]
    exact Or.inr ⟨_, _, _, .user ha, rfl⟩

/-- **Inversion of a creation.** On failure the block is back at the head of the
free list. -/
theorem Pool.prtTaskCreate (P : Pool k) (initParam : TskInitParam) :
    CreateOutcome k initParam (prtTaskCreate k initParam) := by
  cases hl : k.tskCbFreeList with
  | nil =>
    rw [prtTaskCreate_of_noTcb hl]
    exact .noTcb hl
  | cons cb rest =>
    have hcb : cb ∈ k.tskCbFreeList := by simp [hl]
    have hpid := P.pid cb (P.free cb hcb).1
    rcases osTaskCreateRsrcInit_spec { k with lists := k.lists.delete cb } initParam cb with
      ⟨h, hno⟩ | ⟨flg, stack, used, hst, h⟩
    · rw [prtTaskCreate_of_noStack hl (fun _ => P.free_only hcb) h]
      exact .noStack (by simp [hl]) hno
    · have hst' : StackTaken k initParam flg stack used := by
        cases hst with
        | user ha => exact .user ha
        | sys ha hs hi hu => exact .sys ha hs hi hu
      rw [prtTaskCreate_of_stack hl h, hpid]
      exact .created hl hst'

section
variable {cb : Nat} {rest : List Nat} {initParam : TskInitParam} {flg : Nat}
  {stack : UIntPtr × BitVec 32} {used : Nat → Bool}

theorem createdKernel_tskCbArray {q : Nat} (hq : q ≠ cb) :
    (createdKernel k cb (createdTcb (k.tskCbArray cb) initParam flg stack) used).tskCbArray q =
      k.tskCbArray q := Function.update_of_ne hq _ _

theorem createdKernel_inUse_self :
    inUse (createdKernel k cb (createdTcb (k.tskCbArray cb) initParam flg stack) used) cb := by
  rw [inUse_iff]
  simp [createdKernel, createdTcb]
  decide

theorem createdKernel_inUse {q : Nat} (hq : inUse k q) :
    inUse (createdKernel k cb (createdTcb (k.tskCbArray cb) initParam flg stack) used) q := by
  by_cases hqcb : q = cb
  · subst hqcb
    exact createdKernel_inUse_self
  · rw [inUse_iff, createdKernel_tskCbArray hqcb]
    exact inUse_iff.mp hq

theorem createdKernel_free (hl : k.tskCbFreeList = cb :: rest) :
    (createdKernel k cb (createdTcb (k.tskCbArray cb) initParam flg stack) used).tskCbFreeList =
      rest := by
  change (k.lists .tskCbFreeList).erase cb = rest
  rw [show k.lists .tskCbFreeList = _ from hl]
  simp

theorem Pool.createdKernel (P : Pool k) (hl : k.tskCbFreeList = cb :: rest) :
    Pool (createdKernel k cb (createdTcb (k.tskCbArray cb) initParam flg stack) used) := by
  have hnd : cb ∉ rest ∧ rest.Nodup := List.nodup_cons.mp (hl ▸ P.nodup)
  refine ⟨?_, fun q hq => ?_, fun q => ?_,
    fun q h hh hq => createdKernel_inUse (P.linked q h hh (List.mem_of_mem_erase hq)),
    createdKernel_inUse P.running, fun q hq => ?_, P.semId⟩
  · rw [createdKernel_free hl]
    exact hnd.2
  · rw [createdKernel_free hl] at hq
    have hne : q ≠ cb := fun h => hnd.1 (h ▸ hq)
    rw [tskIsUnused, createdKernel_tskCbArray hne]
    exact P.free q (by rw [hl]; exact List.mem_cons_of_mem _ hq)
  · by_cases hq : q = cb
    · subst hq
      exact Or.inr createdKernel_inUse_self
    · rw [tskIsUnused, inUse_iff, createdKernel_tskCbArray hq, ← inUse_iff]
      exact P.status q
  · by_cases hqcb : q = cb
    · subst hqcb
      simpa [MiniEuler.createdKernel, createdTcb] using P.pid q hq
    · rw [createdKernel_tskCbArray hqcb]
      exact P.pid q hq

theorem Pool.outcome (P : Pool k) {r : Except Nat Nat}
    (h : CreateOutcome k initParam (k', r)) : Pool k' := by
  cases h with
  | noTcb _ => exact P
  | noStack _ _ => exact P
  | created hl _ => exact P.createdKernel hl

theorem CreateOutcome.allSem {r : Except Nat Nat} (h : CreateOutcome k initParam (k', r)) :
    k'.allSem = k.allSem := by
  cases h <;> rfl

theorem CreateOutcome.keeps_inUse {r : Except Nat Nat} (h : CreateOutcome k initParam (k', r))
    {q : Nat} (hq : inUse k q) : inUse k' q := by
  cases h with
  | noTcb _ => exact hq
  | noStack _ _ => exact hq
  | created _ _ => exact createdKernel_inUse hq

theorem CreateOutcome.ok_of_ret {r : Except Nat Nat} (h : CreateOutcome k initParam (k', r))
    (hr : retOf r = osOk) : ∃ pid, r = .ok pid := by
  cases h with
  | noTcb _ => exact absurd hr (by decide)
  | noStack _ _ => exact absurd hr (by decide)
  | created _ _ => exact ⟨_, rfl⟩

theorem CreateOutcome.inUse_new {pid : Nat} (h : CreateOutcome k initParam (k', .ok pid)) :
    inUse k' pid := by
  cases h with
  | created _ _ => exact createdKernel_inUse_self

end

/-! ## Every run -/

/-- What the idle task is created with. -/
def idleParam (osTskIdleBgd : UIntPtr) : TskInitParam :=
  { taskEntry := osTskIdleBgd, taskPrio := osTskPriorityLowest }

/-- The parameters of the creation a call makes. -/
def Op.initParam : Op → Option TskInitParam
  | .taskCreate initParam => some initParam
  | .activate osTskIdleBgd => some (idleParam osTskIdleBgd)
  | _ => none

theorem osIdleTskAMPCreate_pool {osTskIdleBgd : UIntPtr}
    (h : osIdleTskAMPCreate k osTskIdleBgd = .ok k') :
    ∃ k₁ pid, prtTaskCreate k (idleParam osTskIdleBgd) = (k₁, .ok pid) ∧
      (Pool k₁ → PoolKept k₁ k') := by
  obtain ⟨k₁, r, hcr⟩ : ∃ k₁ r, prtTaskCreate k (idleParam osTskIdleBgd) = (k₁, r) :=
    ⟨_, _, rfl⟩
  have h' := h
  rw [osIdleTskAMPCreate, show ({ taskEntry := osTskIdleBgd, taskPrio := osTskPriorityLowest } :
    TskInitParam) = idleParam osTskIdleBgd from rfl, hcr] at h'
  cases r with
  | error ret => cases h'
  | ok pid =>
    refine ⟨k₁, pid, hcr, fun P₁ => ?_⟩
    have h₁ := P₁.prtTaskResume pid
    simp only at h'
    split at h'
    · cases h'
    · obtain rfl := Except.ok.inj h'
      exact h₁.trans (h₁.pool.relink rfl h₁.pool.linked h₁.pool.running _ _ _ _ _)

theorem osActivate_pool {osTskIdleBgd : UIntPtr} (h : osActivate k osTskIdleBgd = .ok k') :
    ∃ k₁ pid, prtTaskCreate k (idleParam osTskIdleBgd) = (k₁, .ok pid) ∧
      (Pool k₁ → PoolKept k₁ k') := by
  unfold osActivate at h
  cases hidle : osIdleTskAMPCreate k osTskIdleBgd with
  | error ret =>
    rw [hidle] at h
    cases h
  | ok k₂ =>
    obtain ⟨k₁, pid, hcr, hk⟩ := osIdleTskAMPCreate_pool hidle
    rw [hidle] at h
    refine ⟨k₁, pid, hcr, fun P₁ => ?_⟩
    have h₂ := hk P₁
    have h₃ := h₂.trans h₂.pool.osTskHighestSet
    have h₄ : PoolKept k₁ { osTskHighestSet k₂ with
        uniFlag := k₂.uniFlag ||| (osFlgBgdActive ||| osFlgTskReq) } :=
      h₃.trans (h₃.pool.relink rfl h₃.pool.linked h₃.pool.running _ _ _ _ _)
    obtain rfl := Except.ok.inj h
    exact h₄.trans h₄.pool.osFirstTimeSwitch

/-- **Step lemma.** A call creates a task at most, and otherwise leaves the pools alone. -/
theorem Pool.step (P : Pool k) {op : Op} (hc : op.Callable k) :
    match op.initParam with
    | none => PoolKept k (op.next k)
    | some initParam => ∃ k₁ r, MiniEuler.prtTaskCreate k initParam = (k₁, r) ∧
        CreateOutcome k initParam (k₁, r) ∧ PoolKept k₁ (op.next k) := by
  cases op with
  | taskCreate initParam =>
    have hout := P.prtTaskCreate initParam
    exact ⟨_, _, rfl, hout, PoolKept.refl (P.outcome hout)⟩
  | taskResume p => exact P.prtTaskResume p
  | semCreate count null =>
    simp only [Op.initParam, Op.next, Op.exec, MiniEuler.prtSemCreate]
    split
    · exact PoolKept.refl P
    · exact P.osSemCreate _ _ _ _
  | osSemCreate count semType semMode null => exact P.osSemCreate _ _ _ _
  | semPend s timeout => exact P.prtSemPend s timeout
  | semPost s => exact P.prtSemPost s
  | uartPost s => exact P.prtSemPost s
  | taskExit => exact P.osTskEntryReturn
  | activate entry =>
    obtain ⟨k', hact⟩ : ∃ k', osActivate k entry = .ok k' := by
      have := hc.2
      cases h : osActivate k entry with
      | error ret => rw [h] at this; cases this
      | ok k' => exact ⟨k', rfl⟩
    obtain ⟨k₁, pid, hcr, hk⟩ := osActivate_pool hact
    have hout := P.prtTaskCreate (idleParam entry)
    rw [hcr] at hout
    refine ⟨k₁, _, hcr, hout, ?_⟩
    simp only [Op.next, Op.exec, hact]
    exact hk (P.outcome hout)

theorem osSemInit_stackMemUsed (h : osSemInit k = .ok k')
    (hused : k.stackMemUsed = Function.update (fun _ => false) 0 true) :
    k'.stackMemUsed = fun i => decide (i < 2) := by
  have hfind : (List.range stackMemNum).find? (fun i => !k.stackMemUsed i) = some 1 := by
    rw [hused]
    decide
  have halloc : osMemAllocAlign k 4096 osSemAddrAllocAlign =
      ({ k with stackMemUsed := Function.update k.stackMemUsed 1 true },
        some (k.stackMem + BitVec.ofNat 64 (4096 * 1))) := by
    rw [osMemAllocAlign, if_neg (by decide), if_neg (by decide), hfind]
  rw [osSemInit, halloc] at h
  simp only [osSemInitNode_foldl, Except.ok.injEq] at h
  rw [← h, hused]
  funext i
  rcases i with _ | _ | i <;> simp [Function.update]

/-- The state after initialisation: the two arrays have taken the first two areas. -/
theorem initialised_eq (h : Initialised k) : k =
    { kernelReset k.stackMem k.osTskEntry k.mem with
      tskMaxNum := 22
      runningTask := 23
      tskCbArray := Function.update (fun p => if p < 23 then { taskPid := p } else {}) 23
        { taskPid := 23, taskStatus := osTskInuse ||| osTskRunning, priority := 64 }
      lists := Function.update (fun _ => []) .tskCbFreeList (List.range 23)
      maxSem := 73
      allSem := fun s => if s < 73 then { semId := s } else {}
      unusedSemList := List.range 73
      stackMemUsed := fun i => decide (i < 2) } := by
  obtain ⟨stackMem, osTskEntry, mem, k₁, h₁, h₂⟩ := h
  rw [osTskInit_eq] at h₁
  obtain rfl := Except.ok.inj h₁
  have hused := osSemInit_stackMemUsed h₂ rfl
  obtain ⟨used, rfl⟩ := osSemInit_eq _ _ h₂
  obtain rfl : used = fun i => decide (i < 2) := hused
  rfl

theorem Pool.initialised (h : Initialised k) : Pool k := by
  have hzombie : (osTskInuse ||| osTskRunning).getLsbD 0 = true := by decide
  rw [initialised_eq h]
  refine ⟨?_, fun p hp => ?_, fun p => ?_, fun p h hh hp => ?_, ?_, fun p hp => ?_,
    fun s hs => ?_⟩
  · simpa [Kernel.tskCbFreeList] using List.nodup_range
  · have hp : p < 23 := by simpa [Kernel.tskCbFreeList] using hp
    have hne : p ≠ 23 := by omega
    exact ⟨Nat.le_of_lt_succ hp, by simp [tskIsUnused, hne, hp, osTskUnused]⟩
  · by_cases hp : p = 23
    · subst hp
      exact Or.inr (by rw [inUse_iff]; exact hzombie)
    · left
      by_cases hlt : p < 23 <;> simp [tskIsUnused, hp, hlt, osTskUnused]
  · simp [hh] at hp
  · rw [inUse_iff]
    exact hzombie
  · have hp : p ≤ 22 := hp
    have hne : p ≠ 23 := by omega
    have hlt : p < 23 := by omega
    simp [hne, hlt]
  · have hs : s < 73 := by simpa using hs
    simp [hs]

theorem Pool.next (P : Pool k) {op : Op} (hc : op.Callable k) : Pool (op.next k) := by
  have h := P.step hc
  split at h
  · exact h.pool
  · obtain ⟨k₁, ret, -, -, hk⟩ := h
    exact hk.pool

/-- A semaphore that has been created stays so. -/
theorem Pool.semUsed_next (P : Pool k) {op : Op} (hc : op.Callable k) {s : Nat}
    (hs : (k.allSem s).semStat = osSemUsed) : ((op.next k).allSem s).semStat = osSemUsed := by
  have h := P.step hc
  split at h
  · exact (h.frame.sem s).2 hs
  · obtain ⟨k₁, ret, -, hout, hk⟩ := h
    refine (hk.frame.sem s).2 ?_
    rw [hout.allSem]
    exact hs

/-- A task that has been created stays so: its block is never given back. -/
theorem Pool.inUse_next (P : Pool k) {op : Op} (hc : op.Callable k) (hp : inUse k p) :
    inUse (op.next k) p := by
  have h := P.step hc
  split at h
  · exact (h.inUse P).mpr hp
  · obtain ⟨k₁, ret, -, hout, hk⟩ := h
    exact (hk.inUse (P.outcome hout)).mpr (hout.keeps_inUse hp)

theorem Pool.tskMaxNum_next (P : Pool k) {op : Op} (hc : op.Callable k) :
    (op.next k).tskMaxNum = k.tskMaxNum := by
  have h := P.step hc
  split at h
  · exact h.frame.tskMaxNum
  · obtain ⟨k₁, ret, -, hout, hk⟩ := h
    rw [hk.frame.tskMaxNum]
    cases hout <;> rfl

/-- **Run lemma.** -/
theorem Pool.of_run {hist : History} (r : Run callMachine hist k) : Pool k :=
  r.invariant Pool (fun _ h => Pool.initialised h) fun _ _ P hc => P.next hc

theorem Pool.of_run_mem {hist : History} (r : Run callMachine hist k) : ∀ e ∈ hist, Pool e.1 :=
  r.invariant_mem Pool (fun _ h => Pool.initialised h) fun _ _ P hc => P.next hc

end MiniEuler
