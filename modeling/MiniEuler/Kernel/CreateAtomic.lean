import MiniEuler.Kernel.HeapRuns

/-! Creating a task in memory, where its first context may be stored over what the kernel keeps:
a caller that lays a stack over control blocks changes them, and for every other the creation has
either done everything or nothing. -/

namespace MiniEuler
open Library

variable {A : KernelLayout} {x : HeapKernel} {k : Kernel}

/-- A creation has either done everything or nothing, where `x` is the state `k` in memory. -/
structure HeapCreateAtomic (A : KernelLayout) (hist : History) (k : Kernel) (x : HeapKernel)
    (initParam : TskInitParam) (taskPid : Nat) : Prop where
  ends : ∃ x' ret, HeapKernel.prtTaskCreate A x initParam = some (x', ret)
  failed : ∀ x' ret, HeapKernel.prtTaskCreate A x initParam = some (x', .error ret) →
    x' = x ∧ taskPidOut taskPid (.error ret) = taskPid ∧
    (k.tskCbFreeList = [] ∨ NoStack k initParam)
  created : ∀ x' pid, HeapKernel.prtTaskCreate A x initParam = some (x', .ok pid) →
    taskPidOut taskPid (.ok pid) = pid ∧
    ∃ k', Represents A x' k' ∧ TaskCreated hist k k' initParam pid

/-- **In every state of every run the creation of a task is atomic**, unless it stores the first
context over what the kernel keeps. -/
theorem taskCreate_atomic_of_run {hist : History} (r : Run callMachine hist k)
    (R : Represents A x k) {initParam : TskInitParam}
    (ha : k.tskCbFreeList ≠ [] → A.StackApart initParam) (taskPid : Nat) :
    HeapCreateAtomic A hist k x initParam taskPid := by
  have P := Pool.of_run r
  have hatomic := createAtomic_of_run r initParam taskPid
  rcases R.prtTaskCreate_cases P initParam with
    ⟨ret, hx, hk⟩ | ⟨cb, rest, flg, stack, used, x₁, hl, hst, hk, -, -⟩
  · have hfailed := hatomic.failed ret (by rw [hk])
    refine ⟨⟨x, _, hx⟩, fun x' ret' he => ?_, fun x' pid he => ?_⟩
    · rw [hx] at he
      cases he
      exact ⟨rfl, rfl, hfailed.2.2⟩
    · rw [hx] at he
      cases he
  · have hcreated := hatomic.created cb (by rw [hk])
    obtain ⟨⟨x', ret⟩, hx, hret, R'⟩ :=
      R.prtTaskCreate P (stackMemUsed_of_run r) (ha (by simp [hl]))
    obtain rfl : ret = .ok cb := hret.trans (by rw [hk])
    refine ⟨⟨x', _, hx⟩, fun x'' ret' he => ?_, fun x'' pid he => ?_⟩
    · rw [hx] at he
      cases he
    · rw [hx] at he
      cases he
      exact ⟨rfl, _, R', hcreated.1⟩

/-- A task with a caller's stack is created where two tasks are, one of them on such a stack. -/
theorem taskCreate_atomic_twoStacks : ∃ x,
    twoStackOps.foldl (apartMachine ramLayout 24).exec (some ramHeap) = some x ∧
    HeapCreateAtomic ramLayout (trace Op.next ramKernel twoStackOps)
      (twoStackOps.foldl Op.next ramKernel) x { taskPrio := 30, stackAddr := 0x50002000 } 7 := by
  obtain ⟨x, hx, R, -⟩ := Same.foldl (show tskCbNum < 24 by decide) ramHeap_same
    twoStackOps (by decide +kernel) (by decide +kernel)
  exact ⟨x, hx, taskCreate_atomic_of_run (Run.ofList (M := callMachine) ramKernel_initialised
    twoStackOps (by decide +kernel)) R (fun _ => by decide +kernel) 7⟩

/-- A stack over the task blocks: the context ends where they do. -/
def arrayStack : TskInitParam where
  taskPrio := 10
  stackSize := 4096
  stackAddr := ramLayout.tskCbArray

/-- The block behind the tasks' own, after that context has been stored. -/
def coveredTcb : TagTskCb :=
  blockAfter (tskContextAddr arrayStack.stackSize arrayStack.stackAddr)
    (tskContextInit ramLayout.osTskEntry).words ramLayout.tcbFields (ramLayout.tcb 23)
    (ramKernel.tskCbArray 23)

theorem coveredTcb_ne : coveredTcb ≠ ramKernel.tskCbArray 23 := by
  intro h
  exact absurd (congrArg TagTskCb.priority h) (by decide +kernel)

/-- A context that is apart from the variables is stored over the blocks that it covers. -/
theorem osTskContextInit_tcb (A : KernelLayout) (x : HeapKernel) {stackSize : BitVec 32}
    {topStack stack : UIntPtr} (funcTskEntry : UIntPtr)
    (hstack : tskContextAddr stackSize topStack = stack)
    (hvars : ∀ v ∈ A.vars, SpansApart v.1 v.2 stack sizeofTskContext) :
    ∃ x', HeapKernel.osTskContextInit A x stackSize topStack funcTskEntry = some (x', stack) ∧
      ∀ p, p ≤ tskCbNum → x'.data.tskCbArray p = blockAfter stack
        (tskContextInit funcTskEntry).words A.tcbFields (A.tcb p) (x.data.tskCbArray p) := by
  unfold HeapKernel.osTskContextInit
  simp only [osTskContextInit_snd, hstack]
  rw [if_pos hvars]
  exact ⟨_, rfl, fun p hp => if_pos hp⟩

/-- The creation of a task with that stack succeeds, and the block is no longer what it was. -/
theorem prtTaskCreate_arrayStack : ∃ x',
    HeapKernel.prtTaskCreate ramLayout ramHeap arrayStack = some (x', .ok 0) ∧
    x'.data.tskCbArray 23 = coveredTcb := by
  have hok : (prtTaskCreate ramKernel arrayStack).2 = .ok 0 := by decide +kernel
  have P := Pool.of_run (.start ramKernel_initialised)
  rcases ramHeap_initialised.2.prtTaskCreate_cases P arrayStack with
    ⟨ret, -, hk⟩ | ⟨cb, rest, flg, stack, used, x₁, -, hst, hk, R₁, hx⟩
  · rw [hk] at hok
    cases hok
  rw [hk] at hok
  obtain rfl : cb = 0 := Except.ok.inj hok
  have hstack : stack = (arrayStack.stackAddr, arrayStack.stackSize) := by
    cases hst with
    | user _ => rfl
    | sys h0 _ _ _ => exact absurd h0 (by decide)
  have hvars : ∀ v ∈ ramLayout.vars, SpansApart v.1 v.2
      (tskContextAddr arrayStack.stackSize arrayStack.stackAddr) sizeofTskContext := by decide
  obtain ⟨x₂, hcontext, htcb⟩ := osTskContextInit_tcb ramLayout x₁ ramLayout.osTskEntry rfl hvars
  have hentry : ramKernel.osTskEntry = ramLayout.osTskEntry := by decide +kernel
  rw [hstack, hentry, hcontext] at hx
  have hblock : x₁.data.tskCbArray 23 = ramKernel.tskCbArray 23 := by
    rw [R₁.data]
    simp [Kernel.unlinked, Kernel.setTcb]
  refine ⟨_, hx, ?_⟩
  rw [coveredTcb, ← hblock, ← htcb 23 (by decide)]
  simp [HeapKernel.osTskCreateTcbInit, MiniEuler.osTskCreateTcbInit, HeapKernel.onData,
    Kernel.setTcb]

/-- **A stack over the task blocks is accepted, and the first context changes them.** -/
theorem taskCreate_not_atomic : Run callMachine [] ramKernel ∧
    Represents ramLayout ramHeap ramKernel ∧
    ¬ HeapCreateAtomic ramLayout [] ramKernel ramHeap arrayStack 7 := by
  refine ⟨.start ramKernel_initialised, ramHeap_initialised.2, fun h => ?_⟩
  obtain ⟨x', hx', hblock⟩ := prtTaskCreate_arrayStack
  obtain ⟨-, k', R', C⟩ := h.created x' 0 hx'
  obtain ⟨cb, hl, hpid, -, hother⟩ := C.head
  have hcb : cb = 0 := by
    have hfirst : ramKernel.tskCbFreeList.head? = some 0 := by decide +kernel
    rw [hl] at hfirst
    exact Option.some.inj hfirst
  refine coveredTcb_ne ?_
  rw [← hother 23 (by omega), ← hblock, R'.data]
  rfl

end MiniEuler
