import MiniEuler.Kernel.Invariant

/-! Runs of the kernel: the state they start from, the invariant along them, and
what it says about the lists and status words of the tasks. -/

namespace MiniEuler
open Library

variable {k : Kernel}

/-! ## The initial state -/

theorem osTskAMPInitTcb_foldl (k : Kernel) (n : Nat) :
    (List.range n).foldl osTskAMPInitTcb k = { k with
      tskCbArray := fun p => if p < n then
        { k.tskCbArray p with taskStatus := osTskUnused, taskPid := p } else k.tskCbArray p
      lists := Function.update k.lists .tskCbFreeList (k.tskCbFreeList ++ List.range n) } := by
  induction n with
  | zero => simp
  | succ n ih =>
    rw [List.range_succ, List.foldl_append, ih]
    simp only [List.foldl_cons, List.foldl_nil, osTskAMPInitTcb, Kernel.setTcb]
    congr 1
    · funext p
      by_cases hp : p = n
      · subst hp; simp [tskBaseId]
      · have hlt : p < n + 1 ↔ p < n := by omega
        simp [hp, hlt]
    · rw [NodeLists.tailAdd]
      simp

theorem osSemInitNode_foldl (k : Kernel) (n : Nat) :
    (List.range n).foldl osSemInitNode k = { k with
      allSem := fun s => if s < n then { k.allSem s with semId := s } else k.allSem s
      unusedSemList := k.unusedSemList ++ List.range n } := by
  induction n with
  | zero => simp
  | succ n ih =>
    rw [List.range_succ, List.foldl_append, ih]
    simp only [List.foldl_cons, List.foldl_nil, osSemInitNode, Kernel.setSem]
    congr 1
    · funext s
      by_cases hs : s = n
      · subst hs; simp
      · have hlt : s < n + 1 ↔ s < n := by omega
        simp [hs, hlt]
    · simp

/-- The phases after `OsTskInit`: every control block but the last is unused. -/
def initialPhase (n : Nat) (p : Nat) : TskPhase := if p ≤ n then .unused else .dormant

theorem osTskInit_eq (stackMem osTskEntry : UIntPtr) (mem : ByteMem) :
    osTskInit (kernelReset stackMem osTskEntry mem) = .ok
    { kernelReset stackMem osTskEntry mem with
      tskMaxNum := 22
      runningTask := 23
      tskCbArray := Function.update (fun p => if p < 23 then { taskPid := p } else {}) 23
        { taskPid := 23, taskStatus := osTskInuse ||| osTskRunning, priority := 64 }
      lists := Function.update (fun _ => []) .tskCbFreeList (List.range 23)
      stackMemUsed := Function.update (fun _ => false) 0 true } := by
  have hlists : Function.update (Function.update (fun _ : ListHead => ([] : List Nat))
      .tskCbFreeList (List.range 23)) .runQueue [] =
      Function.update (fun _ => []) .tskCbFreeList (List.range 23) :=
    Function.update_eq_self_iff.mpr (by simp)
  have halloc : osMemAllocAlign (kernelReset stackMem osTskEntry mem) 4096
      osTskStackSizeAllocAlign = ({ kernelReset stackMem osTskEntry mem with
        stackMemUsed := Function.update (fun _ => false) 0 true },
        some (stackMem + BitVec.ofNat 64 (4096 * 0))) := rfl
  rw [osTskInit, osTskAMPInit, halloc]
  simp only [osTskAMPInitTcb_foldl, Kernel.setTcb, kernelReset, Kernel.tskCbFreeList,
    Function.update_self, Function.update_idem, List.nil_append]
  rw [← hlists]
  rfl

theorem osSemInit_eq (k k' : Kernel) (h : osSemInit k = .ok k') : ∃ used, k' = { k with
      maxSem := 73
      allSem := fun s => if s < 73 then { semId := s } else {}
      unusedSemList := List.range 73
      stackMemUsed := used } := by
  unfold osSemInit at h
  rcases osMemAllocAlign_cases k 4096 osSemAddrAllocAlign with h' | ⟨used, a, h'⟩
  · rw [h'] at h
    cases h
  · rw [h'] at h
    simp only [osSemInitNode_foldl, Except.ok.injEq] at h
    exact ⟨used, h.symm⟩

theorem Inv.initialised (h : Initialised k) : Inv k (initialPhase 22) := by
  obtain ⟨stackMem, osTskEntry, mem, k₁, h₁, h₂⟩ := h
  rw [osTskInit_eq] at h₁
  obtain rfl := Except.ok.inj h₁
  obtain ⟨used, rfl⟩ := osSemInit_eq _ _ h₂
  have hph : ∀ p s, initialPhase 22 p ≠ .pending s := by
    intro p s
    unfold initialPhase
    split <;> simp
  have hsmall : 22 < osInvalidOwnerId := by decide
  refine ⟨⟨⟨?_, ?_⟩, ?_, ?_, ?_, ?_, ?_, rfl, ?_⟩, ⟨?_, ?_, List.nodup_range, ?_, ?_, ?_⟩,
    rfl, rfl, hsmall, Or.inl rfl, fun _ => ⟨Nat.lt_succ_self 22, hph⟩,
    fun h => absurd (by decide) (show osFlgBgdActive &&& (0 : BitVec 32) ≠ 0 from h)⟩
  · intro l p
    by_cases hl : l = .tskCbFreeList
    · subst hl
      unfold initialPhase
      split <;> simp [TskPhase.home] <;> omega
    · unfold initialPhase
      split <;> simp [TskPhase.home, hl, Ne.symm hl]
  · intro l
    by_cases hl : l = .tskCbFreeList
    · subst hl
      simpa using List.nodup_range
    · simp [hl]
  · intro p hp
    exact if_neg (Nat.not_le.mpr hp)
  · intro p hp
    have hp : p ≤ 22 := hp
    have hne : p ≠ 23 := by omega
    have hlt : p < 23 := by omega
    simp [initialPhase, runBit, TskPhase.bits, hp, hne, hlt]
    rfl
  · intro p hp
    have hp : p ≤ 22 := hp
    have hne : p ≠ 23 := by omega
    have hlt : p < 23 := by omega
    simp [hne, hlt]
  · intro p s h
    exact absurd h (hph p s)
  · intro p hp
    have hp : p ≤ 22 := hp
    have hne : p ≠ 23 := by omega
    have hlt : p < 23 := by omega
    simp [Kernel.priority, Kernel.originalPriority, hne, hlt]
  · intro s hs
    by_cases h : s < 73 <;> simp [h, osSemUsed] at hs
  · intro s
    by_cases h : s < 73 <;> simp [h, osSemUnused]
  · intro s
    by_cases h : s < 73 <;> simp [h, osSemUnused]
  · intro s h
    have hs : ¬ s < 73 := Nat.not_lt.mpr h
    simp [hs, osSemUnused]
  · intro s h
    have hs : s < 73 := h
    simp [hs]
  · intro p s h
    exact absurd h (hph p s)

theorem not_bgdActive_initialised (h : Initialised k) : ¬ bgdActive k := by
  intro hb
  have hr := ((Inv.initialised h).active hb).1
  unfold initialPhase at hr
  split at hr <;> cases hr

/-! ## Runs -/

/-- The kernel under calls of which none is an unsupported pend. -/
def supportedMachine : Machine Kernel Op :=
  callMachine.restrict fun k op => ¬ op.Unsupported k

theorem Op.TimeoutOk.not_unsupported {op : Op} (h : op.TimeoutOk) : ¬ op.Unsupported k := by
  cases op <;> try exact fun h => h
  rintro ⟨hB, hf⟩
  exact h.elim hB.wait hf

theorem kernelMachine_supported {hist : History} (r : Run kernelMachine hist k) :
    Run supportedMachine hist k :=
  Run.mono (M := kernelMachine) (N := supportedMachine) (fun _ h => h)
    (fun _ _ h => ⟨h.1, Op.TimeoutOk.not_unsupported h.2⟩) rfl r

/-- **Run lemma.** -/
theorem Inv.of_run {hist : History} (r : Run supportedMachine hist k) : ∃ ph, Inv k ph := by
  refine r.invariant (fun k => ∃ ph, Inv k ph) (fun _ h => ⟨_, Inv.initialised h⟩) ?_
  rintro k op ⟨ph, I⟩ ⟨hc, hs⟩
  exact I.step hc (op.effect I.linked I.lock hc) hs

/-! ## Tasks -/

/-- Lists and status words of the tasks tell the same story. -/
structure TasksLinked (k : Kernel) : Prop where
  nodup : ∀ h, (k.lists h).Nodup
  oneList : ∀ p h h', p ∈ k.lists h → p ∈ k.lists h' → h = h'
  known : ∀ p h, p ∈ k.lists h → p ≤ k.tskMaxNum
  free : ∀ p, p ≤ k.tskMaxNum → (p ∈ k.tskCbFreeList ↔ tskIsUnused k p)
  ready : ∀ p, p ≤ k.tskMaxNum → (p ∈ k.runQueue ↔ tskStatusTst k p osTskReady)
  pending : ∀ p s, p ≤ k.tskMaxNum →
    (p ∈ k.semList s ↔ tskStatusTst k p osTskPend ∧ (k.tskCbArray p).taskSem = some s)
  running : ∀ p, p ≤ k.tskMaxNum → (tskStatusTst k p osTskRunning ↔ p = k.runningTask)
  running_le : k.runningTask ≤ k.tskMaxNum
  running_ready : k.runningTask ∈ k.runQueue
  idle_ready : k.idleTaskId ∈ k.runQueue
  highest : k.highestTask ≠ none
  noFault : k.fault = false

theorem Inv.tasksLinked {ph : Nat → TskPhase} (I : Inv k ph) (hb : bgdActive k) :
    TasksLinked k := by
  have L := I.linked
  have hrun := I.running_le hb
  refine
    { nodup := L.placed.nodup
      oneList := fun p h h' hm hm' => L.placed.unique hm hm'
      known := fun p h hm => ?_
      free := fun p hp => ?_
      ready := fun p hp => by rw [L.mem_runQueue, L.tst_ready hp]
      pending := fun p s hp => ?_
      running := fun p hp => L.tst_running hp
      running_le := hrun
      running_ready := L.mem_runQueue.mpr (I.active hb).1
      idle_ready := L.mem_runQueue.mpr (I.active hb).2
      highest := ?_
      noFault := I.fault }
  · refine L.le_of_ne_dormant fun hd => ?_
    have := L.mem_lists.mp hm
    rw [hd] at this
    cases this
  · rw [L.mem_tskCbFreeList, L.tskIsUnused_iff hp]
    refine ⟨fun h => ⟨h, I.ne_running (by simp [h]) (by simp [h])⟩, fun h => h.1⟩
  · rw [L.mem_semList, L.tst_pend hp]
    constructor
    · intro h
      exact ⟨⟨s, h⟩, L.waits p s h⟩
    · rintro ⟨⟨s', h⟩, hs⟩
      rw [L.waits p s' h] at hs
      rw [h, Option.some.inj hs]
  · obtain ⟨h, hh, -⟩ := exists_highestTask L (I.runQueue_ne_nil hb)
    simp [hh]

/-- **After `OsActivate` the lists and the status words agree in every state.** -/
theorem tasksLinked_of_run {hist : History} (r : Run kernelMachine hist k) (hb : bgdActive k) :
    TasksLinked k := by
  obtain ⟨ph, I⟩ := Inv.of_run (kernelMachine_supported r)
  exact I.tasksLinked hb

/-- Everything at address 0, and memory full of zeros. -/
def zeroKernel : Kernel := kernelReset 0 0 fun _ => 0

/-- The state after `OsTskInit` and `OsSemInit`, for stacks at address 0. -/
def bootKernel : Kernel :=
  match osTskInit zeroKernel with
  | .error _ => zeroKernel
  | .ok k =>
    match osSemInit k with
    | .error _ => zeroKernel
    | .ok k => k

theorem bootKernel_initialised : Initialised bootKernel := ⟨0, 0, fun _ => 0, _, rfl, rfl⟩

/-- Task 0 of priority 15 holds semaphore 0. Task 2 of priority 5 waits for it, and task 3 has
been created. -/
def boostOps : List Op :=
  [.semCreate 1 false, .taskCreate { taskPrio := 15 }, .taskResume 0, .activate 0,
    .semPend 0 osWaitForever, .taskCreate { taskPrio := 5 }, .taskResume 2,
    .semPend 0 osWaitForever, .taskCreate { taskPrio := 10 }]

def boostKernel : Kernel := boostOps.foldl Op.next bootKernel

/-- Task 0 runs, with the priority of the task that waits. -/
theorem tasksLinked_of_boost : TasksLinked boostKernel ∧ boostKernel.semList 0 = [2] ∧
    boostKernel.runningTask = 0 ∧ boostKernel.priority 0 = 5 := by
  refine ⟨tasksLinked_of_run (Run.ofList (M := kernelMachine) bootKernel_initialised boostOps
    (by decide +kernel)) ?_, ?_⟩ <;> decide +kernel

end MiniEuler
