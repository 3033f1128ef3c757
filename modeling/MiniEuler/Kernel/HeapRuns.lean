import MiniEuler.Kernel.HeapCalls

/-! The kernel in memory as a machine, from memory that holds anything. Its runs are those of the
kernel over sequences: no loop over a list goes on for ever, and every call returns the same
code. -/

namespace MiniEuler
open Library Links

variable {A : KernelLayout} {x : HeapKernel} {k k' : Kernel}

/-! ## The initial state -/

section
variable {S : HeapHead → Prop} {ls : NodeLists HeapHead UIntPtr} {m : ListHeap} {h : HeapHead}

/-- The loops of `OsTskAMPInit` and `OsSemInit` link their blocks in order. -/
theorem listTailAdd_ringsOn_foldl (R : RingsOn m.links S A.head ls) (hS : S h)
    {nodes : List UIntPtr} (hnd : nodes.Nodup)
    (hout : ∀ n ∈ nodes, UnlinkedOn S A.head ls n) :
    RingsOn (nodes.foldl (fun m n => listTailAdd m n (A.head h)) m).links S A.head
      (Function.update ls h (ls h ++ nodes)) := by
  induction nodes generalizing m ls with
  | nil => simpa using R
  | cons n nodes ih =>
    obtain ⟨hn, hnd⟩ := List.nodup_cons.mp hnd
    have R' := listTailAdd_ringsOn R hS (hout n (by simp))
    have h' := ih R' hnd fun n' hn' h' hS' => ?_
    · simpa using h'
    · have hne : n' ≠ n := fun e => hn (e ▸ hn')
      have ho := hout n' (by simp [hn']) h' hS'
      by_cases hh : h' = h
      · subst hh
        simpa [hne] using ho
      · simpa [hh] using ho

theorem ringsOn_none (m : ListHeap) : RingsOn m.links (fun _ => False) A.head ls :=
  ⟨fun h => h.2.elim, fun h => h.2.elim⟩

end

theorem osTskAMPInitTcb_heap (x : HeapKernel) (n : Nat) :
    (List.range n).foldl (HeapKernel.osTskAMPInitTcb A) x =
      { data := { x.data with tskCbArray := fun p => if p < n then
          { x.data.tskCbArray p with taskStatus := osTskUnused, taskPid := p }
          else x.data.tskCbArray p }
        heap := ((List.range n).map A.tcbNode).foldl
          (fun m a => listTailAdd m a (A.head (.tasks .tskCbFreeList))) x.heap } := by
  induction n with
  | zero => simp
  | succ n ih =>
    rw [List.range_succ, List.foldl_append, ih]
    simp only [List.foldl_cons, List.foldl_nil, HeapKernel.osTskAMPInitTcb, Kernel.setTcb,
      List.map_append, List.map_cons, List.map_nil, List.foldl_append]
    congr 2
    funext p
    by_cases hp : p = n
    · subst hp; simp [tskBaseId]
    · have hlt : p < n + 1 ↔ p < n := by omega
      simp [hp, hlt]

theorem osSemInitNode_heap (x : HeapKernel) (n : Nat) :
    (List.range n).foldl (HeapKernel.osSemInitNode A) x =
      { data := { x.data with allSem := fun s => if s < n then
          { x.data.allSem s with semId := s } else x.data.allSem s }
        heap := ((List.range n).map A.semNode).foldl
          (fun m a => listTailAdd m a (A.head .unusedSems)) x.heap } := by
  induction n with
  | zero => simp
  | succ n ih =>
    rw [List.range_succ, List.foldl_append, ih]
    simp only [List.foldl_cons, List.foldl_nil, HeapKernel.osSemInitNode, Kernel.setSem,
      List.map_append, List.map_cons, List.map_nil, List.foldl_append]
    congr 2
    funext s
    by_cases hs : s = n
    · subst hs; simp
    · have hlt : s < n + 1 ↔ s < n := by omega
      simp [hs, hlt]

/-- The heads that `OsTskInit` sets up. -/
def tskHeads (h : HeapHead) : Prop :=
  (False ∨ h = .tasks .tskCbFreeList) ∨ h = .tasks .runQueue

/-- The kernel over sequences after `OsTskInit`. -/
def tskInitKernel (A : KernelLayout) (mem : ByteMem) : Kernel :=
  { kernelReset A.stackMem A.osTskEntry mem with
    tskMaxNum := 22
    runningTask := 23
    tskCbArray := Function.update (fun p => if p < 23 then { taskPid := p } else {}) 23
      { taskPid := 23, taskStatus := osTskInuse ||| osTskRunning, priority := 64 }
    lists := Function.update (fun _ => []) .tskCbFreeList (List.range 23)
    stackMemUsed := Function.update (fun _ => false) 0 true }

theorem tcbNodes_nodup : ((List.range 23).map A.tcbNode).Nodup :=
  List.Nodup.map_on (fun _ hp _ hq h =>
    A.tcbNode_inj (List.mem_range.mp hp) (List.mem_range.mp hq) h) List.nodup_range

theorem semNodes_nodup : ((List.range 73).map A.semNode).Nodup :=
  List.Nodup.map_on (fun _ hs _ hs' h =>
    A.semNode_inj (List.mem_range.mp hs) (List.mem_range.mp hs') h) List.nodup_range

theorem osTskInit_heap (A : KernelLayout) (mem : ByteMem) (heap : ListHeap) :
    ∃ m, HeapKernel.osTskInit A (.reset A mem heap) = .ok ⟨(tskInitKernel A mem).unlinked, m⟩ ∧
      RingsOn m.links tskHeads A.head (A.nodes (tskInitKernel A mem)) := by
  have halloc : osMemAllocAlign (HeapKernel.reset A mem heap).data 4096
      osTskStackSizeAllocAlign = ({ kernelReset A.stackMem A.osTskEntry mem with
        stackMemUsed := Function.update (fun _ => false) 0 true },
        some (A.stackMem + BitVec.ofNat 64 (4096 * 0))) := rfl
  unfold HeapKernel.osTskInit HeapKernel.osTskAMPInit
  rw [halloc]
  simp only [osTskAMPInitTcb_heap]
  refine ⟨_, rfl, ?_⟩
  have hnil : Function.update (fun _ : HeapHead => ([] : List UIntPtr)) (.tasks .tskCbFreeList) [] =
      fun _ => [] := Function.update_eq_self (.tasks .tskCbFreeList) fun _ : HeapHead => []
  have R₁ : RingsOn (initListObject (clearArea heap A.tskCbArray) A.tskCbFreeList).links
      (fun h => False ∨ h = .tasks .tskCbFreeList) A.head (fun _ => []) := by
    rw [← hnil]
    exact RingsOn.extend (initListObject_rings (ringsOn_none _) fun _ h => h.elim)
      (joined_initListObject _ _) fun _ h => h.elim
  have R₂ := listTailAdd_ringsOn_foldl R₁ (Or.inr rfl) (tcbNodes_nodup (A := A)) fun n hn h hS => by
    obtain ⟨p, hp, rfl⟩ := List.mem_map.mp hn
    obtain rfl := hS.resolve_left not_false
    simpa using (A.head_ne_tcbNode (h := .tasks .tskCbFreeList) trivial (List.mem_range.mp hp)).symm
  have hout : UnlinkedOn (fun h => False ∨ h = .tasks .tskCbFreeList) A.head
      (Function.update (fun _ => []) (.tasks .tskCbFreeList)
        ([] ++ (List.range 23).map A.tcbNode)) A.runQueue := by
    rintro h hS hm
    obtain rfl := hS.resolve_left not_false
    rcases List.mem_cons.mp hm with he | hm
    · exact nomatch @KernelLayout.head_inj A (.tasks .runQueue) (.tasks .tskCbFreeList) trivial
        trivial he
    · simp only [Function.update_self, List.nil_append] at hm
      obtain ⟨p, hp, he⟩ := List.mem_map.mp hm
      exact A.head_ne_tcbNode (h := .tasks .runQueue) trivial (List.mem_range.mp hp) he.symm
  have R₃ := RingsOn.extend (h := HeapHead.tasks .runQueue) (initListObject_rings R₂ hout)
    (joined_initListObject _ _) hout
  have hnodes : A.nodes (tskInitKernel A mem) = Function.update
      (Function.update (fun _ => []) (.tasks .tskCbFreeList)
        ([] ++ (List.range 23).map A.tcbNode)) (.tasks .runQueue) [] := by
    funext h
    match h with
    | .tasks .tskCbFreeList | .tasks .runQueue | .tasks (.semList _) | .unusedSems =>
      simp [KernelLayout.nodes, tskInitKernel, kernelReset]
  rw [hnodes]
  exact R₃

/-- What is outside an area is not cleared with it. -/
theorem clearArea_outside (m : ListHeap) {base a : UIntPtr} (h : 4096 ≤ (a - base).toNat) :
    clearArea m base a = m a := if_neg (by omega)

/-- The lists of tasks are outside the area of the semaphore blocks. -/
theorem tskHeads_outside {h : HeapHead} (hS : tskHeads h)
    (hk : ∀ h, ∀ p ∈ k.lists h, p < tskCbNum) {a : UIntPtr} (ha : a ∈ A.head h :: A.nodes k h) :
    4096 ≤ (a - A.allSem).toNat := by
  have hin := A.inside
  simp only [stackMemNum] at hin
  have hbase : A.allSem.toNat = A.stackMem.toNat + 4096 := by
    simp only [KernelLayout.allSem]
    bv_omega
  have hglobal : ∀ a ∈ [A.tskCbFreeList, A.runQueue, A.unusedSemList],
      4096 ≤ (a - A.allSem).toNat := by
    intro a ha
    have ho := A.outside a ha
    simp only [stackMemNum] at ho
    rw [BitVec.toNat_sub, hbase]
    omega
  have hnode : ∀ p < tskCbNum, 4096 ≤ (A.tcbNode p - A.allSem).toNat := by
    intro p hp
    have hn := A.toNat_tcbNode hp
    have hp : p < 23 := hp
    rw [BitVec.toNat_sub, hbase, hn, Nat.mod_eq_of_lt (by omega)]
    omega
  rcases hS with (hf | rfl) | rfl
  · exact hf.elim
  all_goals
    rcases List.mem_cons.mp ha with rfl | ha
    · exact hglobal _ (by simp [KernelLayout.head])
    · obtain ⟨p, hp, rfl⟩ := List.mem_map.mp ha
      exact hnode p (hk _ p hp)

theorem tskHeads_ok {h : HeapHead} (hS : tskHeads h) : KernelLayout.HeadOk h := by
  rcases hS with (hf | rfl) | rfl
  · exact hf.elim
  · trivial
  · trivial

theorem osSemInit_heap {m : ListHeap} (h : osSemInit k = .ok k')
    (R : RingsOn m.links tskHeads A.head (A.nodes k))
    (hk : ∀ h, ∀ p ∈ k.lists h, p < tskCbNum) :
    ∃ m', HeapKernel.osSemInit A ⟨k.unlinked, m⟩ = .ok ⟨k'.unlinked, m'⟩ ∧
      RingsOn m'.links (fun h => tskHeads h ∨ h = .unusedSems) A.head (A.nodes k') := by
  have hclear : RingsOn (clearArea m A.allSem).links tskHeads A.head (A.nodes k) := by
    refine RingsOn.congr R fun h hS a ha => ?_
    have hsame := clearArea_outside m (tskHeads_outside hS hk ha)
    exact ⟨congrArg TagListObject.next hsame, congrArg TagListObject.prev hsame⟩
  obtain ⟨used, hk'⟩ := osSemInit_eq k k' h
  have hheap : HeapKernel.osSemInit A ⟨k.unlinked, m⟩ = .ok ⟨k'.unlinked,
      ((List.range 73).map A.semNode).foldl (fun m a => listTailAdd m a (A.head .unusedSems))
        (initListObject (clearArea m A.allSem) A.unusedSemList)⟩ := by
    unfold osSemInit at h
    unfold HeapKernel.osSemInit
    rw [osMemAllocAlign_unlinked]
    rcases osMemAllocAlign_cases k 4096 osSemAddrAllocAlign with h' | ⟨used, a, h'⟩
    · rw [h'] at h
      cases h
    · rw [h'] at h ⊢
      simp only [osSemInitNode_foldl, osSemInitNode_heap, Except.ok.injEq] at h ⊢
      rw [← h]
      rfl
  refine ⟨_, hheap, ?_⟩
  -- the heads that are set up now are on no list of tasks
  have hout : ∀ h', KernelLayout.HeadOk h' → ¬ tskHeads h' →
      UnlinkedOn tskHeads A.head (A.nodes k) (A.head h') := by
    intro h' hok hne h hS hm
    rcases List.mem_cons.mp hm with he | hm
    · exact hne (A.head_inj hok (tskHeads_ok hS) he ▸ hS)
    · rcases hS with (hf | rfl) | rfl
      · exact hf.elim
      all_goals
        obtain ⟨p, hp, he⟩ := List.mem_map.mp hm
        exact A.head_ne_tcbNode hok (hk _ p hp) he.symm
  have hne : ¬ tskHeads .unusedSems := by simp [tskHeads]
  have R₁ := RingsOn.extend (h := HeapHead.unusedSems)
    (initListObject_rings hclear (hout .unusedSems trivial hne)) (joined_initListObject _ _)
    (hout .unusedSems trivial hne)
  have R₂ := listTailAdd_ringsOn_foldl R₁ (Or.inr rfl) (semNodes_nodup (A := A)) fun n hn h hS => by
    obtain ⟨s, hs, rfl⟩ := List.mem_map.mp hn
    have hs : s < semCbNum := List.mem_range.mp hs
    rcases hS with hS | rfl
    · have hh : h ≠ .unusedSems := fun e => hne (e ▸ hS)
      have ho : A.semNode s ∉ A.head h :: A.nodes k h :=
        hout (.tasks (.semList s)) hs (by simp [tskHeads]) h hS
      simpa [hh] using ho
    · simpa using fun he : A.semNode s = A.head .unusedSems =>
        nomatch @KernelLayout.head_inj A (.tasks (.semList s)) .unusedSems hs trivial he
  have hnodes : A.nodes k' = Function.update (Function.update (A.nodes k) .unusedSems [])
      .unusedSems (Function.update (A.nodes k) .unusedSems [] .unusedSems ++
        (List.range 73).map A.semNode) := by
    rw [hk']
    funext h
    cases h <;> simp [KernelLayout.nodes]
  rw [hnodes]
  exact R₂

/-! ## The machine -/

/-- The kernel in memory after `OsTskInit` and `OsSemInit`, whatever the memory held before. -/
def HeapInitialised (A : KernelLayout) (x : HeapKernel) : Prop :=
  ∃ mem heap x₁, HeapKernel.osTskInit A (.reset A mem heap) = .ok x₁ ∧
    HeapKernel.osSemInit A x₁ = .ok x

theorem tskInitKernel_lists (A : KernelLayout) (mem : ByteMem) :
    ∀ h, ∀ p ∈ (tskInitKernel A mem).lists h, p < tskCbNum := by
  intro h p hp
  match h with
  | .tskCbFreeList =>
    have hm : p ∈ List.range 23 := hp
    exact List.mem_range.mp hm
  | .runQueue | .semList _ => simp [tskInitKernel] at hp

/-- The initialisation ends well from any memory. -/
theorem HeapInitialised.of_memory (A : KernelLayout) (mem : ByteMem) (heap : ListHeap) :
    ∃ x₁ x, HeapKernel.osTskInit A (.reset A mem heap) = .ok x₁ ∧
      HeapKernel.osSemInit A x₁ = .ok x := by
  obtain ⟨m, hm, R⟩ := osTskInit_heap A mem heap
  cases hk : osSemInit (tskInitKernel A mem) with
  | error ret => exact nomatch hk
  | ok k =>
    obtain ⟨m', hm', -⟩ := osSemInit_heap hk R (tskInitKernel_lists A mem)
    exact ⟨_, _, hm, hm'⟩

/-- Both start in states of which one represents the other. -/
theorem represents_initialised {mem : ByteMem} {heap : ListHeap} {x₁ : HeapKernel}
    (h₁ : HeapKernel.osTskInit A (.reset A mem heap) = .ok x₁)
    (h₂ : HeapKernel.osSemInit A x₁ = .ok x) :
    ∃ k, osSemInit (tskInitKernel A mem) = .ok k ∧ Represents A x k := by
  obtain ⟨m, hm, R⟩ := osTskInit_heap A mem heap
  obtain rfl := Except.ok.inj (hm.symm.trans h₁)
  have hlists := tskInitKernel_lists A mem
  cases hk : osSemInit (tskInitKernel A mem) with
  | error ret => exact nomatch hk
  | ok k =>
    obtain ⟨m', hm', R'⟩ := osSemInit_heap hk R hlists
    obtain rfl := Except.ok.inj (hm'.symm.trans h₂)
    obtain ⟨used, rfl⟩ := osSemInit_eq _ _ hk
    refine ⟨_, rfl, rfl, ?_, hlists, fun s hs => ?_, rfl, rfl, rfl⟩
    · have hlive : ∀ k : Kernel, (∀ s, (k.allSem s).semStat ≠ osSemUsed) →
          k.live = fun h => tskHeads h ∨ h = .unusedSems := by
        intro k hk
        funext h
        match h with
        | .tasks .tskCbFreeList | .tasks .runQueue | .unusedSems => simp [Kernel.live, tskHeads]
        | .tasks (.semList s) => simp [Kernel.live, tskHeads, hk s]
      rw [hlive]
      · exact R'
      · intro s
        by_cases h : s < 73 <;> simp [h, osSemUsed]
    · exact List.mem_range.mp hs

namespace HeapKernel

/-- What can be called when, as for `Op.Callable`. -/
def Callable (A : KernelLayout) (fuel : Nat) (x : HeapKernel) : Op → Prop
  | .activate osTskIdleBgd =>
    ¬ bgdActive x.data ∧ ∃ x', osActivate A fuel x osTskIdleBgd = some (.ok x')
  | op => op.Callable x.data

end HeapKernel

/-- The kernel in memory under the calls of `kernelMachine`; a state is lost when a loop does not
end, or when a context is stored over the kernel's variables. -/
def heapMachine (A : KernelLayout) (fuel : Nat) : Machine (Option HeapKernel) Op where
  Start := fun o => ∃ x, o = some x ∧ HeapInitialised A x
  Allowed := fun o op => ∃ x, o = some x ∧ x.Callable A fuel op ∧ op.TimeoutOk
  exec := fun o op => do return (← (← o).exec A fuel op).1

/-- The stack that a call brings along has its first context apart from what the kernel keeps. -/
def Op.StackApart (A : KernelLayout) : Op → Prop
  | .taskCreate initParam => A.StackApart initParam
  | _ => True

instance (A : KernelLayout) (op : Op) : Decidable (op.StackApart A) :=
  match op with
  | .taskCreate initParam => inferInstanceAs (Decidable (A.StackApart initParam))
  | .taskResume _ | .semCreate _ _ | .osSemCreate _ _ _ _ | .semPend _ _ | .semPost _
  | .uartPost _ | .taskExit | .activate _ => inferInstanceAs (Decidable True)

/-- The kernel in memory, as long as no caller lays a stack over what the kernel keeps. -/
def apartMachine (A : KernelLayout) (fuel : Nat) : Machine (Option HeapKernel) Op :=
  (heapMachine A fuel).restrict fun _ op => op.StackApart A

section
variable {fuel : Nat} (hf : tskCbNum < fuel)
include hf

theorem Represents.callable (R : Represents A x k) {ph : Nat → TskPhase} (I : Inv k ph)
    (P : Pool k) (hused : ∀ i, i < 2 → k.stackMemUsed i = true) (op : Op) :
    x.Callable A fuel op ↔ op.Callable k := by
  cases op with
  | activate osTskIdleBgd =>
    simp only [HeapKernel.Callable, Op.Callable, R.data_eq bgdActive rfl]
    refine and_congr_right fun _ => ?_
    have h := R.osActivate hf I P hused osTskIdleBgd
    cases hk : MiniEuler.osActivate k osTskIdleBgd with
    | ok k' =>
      rw [hk] at h
      obtain ⟨_, ho, x', rfl, -⟩ := h
      exact iff_of_true ⟨x', ho⟩ rfl
    | error ret =>
      rw [hk] at h
      obtain ⟨_, ho, rfl⟩ := h
      exact iff_of_false (by simp [ho]) (by simp [Except.isOk, Except.toBool])
  | taskResume taskPid =>
    simp only [HeapKernel.Callable, Op.Callable, R.data_eq Kernel.tskMaxNum rfl]
  | semPend _ _ | taskExit =>
    simp only [HeapKernel.Callable, Op.Callable, R.data_eq bgdActive rfl,
      R.data_eq Kernel.runningTask rfl, R.data_eq Kernel.idleTaskId rfl]
  | taskCreate _ | semCreate _ _ | osSemCreate _ _ _ _ | semPost _ | uartPost _ => exact Iff.rfl

/-- **Step lemma.** -/
theorem Represents.exec (R : Represents A x k) {ph : Nat → TskPhase} (I : Inv k ph) (P : Pool k)
    (hused : ∀ i, i < 2 → k.stackMemUsed i = true) {op : Op} (hc : op.Callable k)
    (ha : op.StackApart A) : CallEnds A (x.exec A fuel op) (op.exec k) := by
  cases op with
  | taskCreate initParam =>
    exact (R.prtTaskCreate P hused ha).bind fun y hy => .pure ⟨congrArg retOf hy.1, hy.2⟩
  | taskResume taskPid => exact R.prtTaskResume hf I.linked hc
  | semCreate count null =>
    obtain ⟨hret, R'⟩ := R.prtSemCreate I.sems count null
    exact .pure ⟨congrArg retOf hret, R'⟩
  | osSemCreate count semType semMode null =>
    obtain ⟨hret, R'⟩ := R.osSemCreate I.sems count semType semMode null
    exact .pure ⟨congrArg retOf hret, R'⟩
  | semPend s timeout => exact R.prtSemPend hf I hc.1 timeout
  | semPost s | uartPost s => exact R.prtSemPost hf I
  | taskExit =>
    exact (R.osTskEntryReturn hf I hc.1).bind fun x' R' => .pure ⟨rfl, R'⟩
  | activate osTskIdleBgd =>
    have h := R.osActivate hf I P hused osTskIdleBgd
    cases hk : MiniEuler.osActivate k osTskIdleBgd with
    | ok k' =>
      have hexec : (Op.activate osTskIdleBgd).exec k = (k', osOk) := by simp only [Op.exec, hk]
      rw [hk] at h
      rw [hexec]
      refine Ends.bind h fun r hr => ?_
      obtain ⟨x', rfl, R'⟩ := hr
      exact .pure ⟨rfl, R'⟩
    | error ret =>
      have := hc.2
      simp [hk, Except.isOk, Except.toBool] at this

/-- A state in memory represents a state that the kernel over sequences can reach. -/
def Same (A : KernelLayout) (o : Option HeapKernel) (k : Kernel) : Prop :=
  ∃ x, o = some x ∧ Represents A x k ∧ ∃ hist, Run kernelMachine hist k

omit hf in
theorem stackMemUsed_of_run {hist : History} (r : Run callMachine hist k) :
    ∀ i, i < 2 → k.stackMemUsed i = true := by
  obtain ⟨slot, S⟩ := StackSlots.of_run r
  exact S.used

theorem Same.allowed {o : Option HeapKernel} (S : Same A o k) (op : Op) :
    (heapMachine A fuel).Allowed o op ↔ kernelMachine.Allowed k op := by
  obtain ⟨x, rfl, R, hist, r⟩ := S
  obtain ⟨ph, I⟩ := Inv.of_run (kernelMachine_supported r)
  have hc := R.callable hf I (Pool.of_run r.of_restrict) (stackMemUsed_of_run r.of_restrict) op
  refine ⟨?_, fun h => ⟨x, rfl, hc.mpr h.1, h.2⟩⟩
  rintro ⟨x', he, hcall, ht⟩
  obtain rfl := Option.some.inj he
  exact ⟨hc.mp hcall, ht⟩

/-- A call that is allowed ends, returns the same code and leaves the same state. -/
theorem Same.step {o : Option HeapKernel} (S : Same A o k) {op : Op}
    (ha : kernelMachine.Allowed k op) (hstack : op.StackApart A) :
    Same A ((heapMachine A fuel).exec o op) (op.next k) ∧
    ∃ x x', o = some x ∧ x.exec A fuel op = some (x', op.ret k) := by
  obtain ⟨x, rfl, R, hist, r⟩ := S
  obtain ⟨ph, I⟩ := Inv.of_run (kernelMachine_supported r)
  obtain ⟨⟨x', ret⟩, he, hret, R'⟩ := R.exec hf I (Pool.of_run r.of_restrict)
    (stackMemUsed_of_run r.of_restrict) ha.1 hstack
  obtain rfl : ret = op.ret k := hret
  refine ⟨⟨x', ?_, R', _, r.step ha⟩, x, x', rfl, he⟩
  simp only [heapMachine, Option.bind_eq_bind, Option.bind_some, he, Option.pure_def]

omit hf in
theorem Same.start {o : Option HeapKernel} (h : (heapMachine A fuel).Start o) :
    ∃ k, kernelMachine.Start k ∧ Same A o k := by
  obtain ⟨x, rfl, mem, heap, x₁, h₁, h₂⟩ := h
  obtain ⟨k, hk, R⟩ := represents_initialised h₁ h₂
  have hinit : Initialised k :=
    ⟨A.stackMem, A.osTskEntry, mem, _, osTskInit_eq A.stackMem A.osTskEntry mem, hk⟩
  exact ⟨k, hinit, x, rfl, R, _, .start hinit⟩

/-- The kernel over sequences simulates the kernel in memory, which can do as much. -/
theorem apartMachine_simulation :
    Simulation (apartMachine A fuel) kernelMachine (fun op => some op) (Same A) where
  start := fun o (h : (heapMachine A fuel).Start o) => Same.start h
  hidden := fun _ _ _ _ _ h => nomatch h
  visible := fun o k op op' S ha he => by
    obtain rfl := Option.some.inj he
    have ha' := (S.allowed hf op).mp ha.1
    exact ⟨ha', (S.step hf ha' ha.2).1⟩

/-- **The kernel in memory refines the kernel over sequences.** Its runs are runs of the kernel
over sequences with the same calls and return codes: the loops over the lists end, the first
contexts cover nothing but stacks, the link fields are always those of the lists, and the same
calls are allowed next. -/
theorem heapKernel_refines {hist : List (Option HeapKernel × Op)} {o : Option HeapKernel}
    (r : Run (apartMachine A fuel) hist o) :
    ∃ x k hist', o = some x ∧ Run kernelMachine hist' k ∧ Represents A x k ∧
      (∀ op, (heapMachine A fuel).Allowed o op ↔ kernelMachine.Allowed k op) ∧
      List.Forall₂ (fun e e' => e.2 = e'.2 ∧ ∃ x x', e.1 = some x ∧ Represents A x e'.1 ∧
        x.exec A fuel e.2 = some (x', e'.2.ret e'.1)) hist hist' := by
  obtain ⟨hist', k, r', S, hseen⟩ := (apartMachine_simulation hf).run r
  have hall : seen (fun op => some op) hist = hist := by simp [seen]
  rw [hall] at hseen
  obtain ⟨x, rfl, R, -⟩ := id S
  refine ⟨x, k, hist', rfl, r', R, S.allowed hf, ?_⟩
  obtain ⟨hlen, hzip⟩ := List.forall₂_iff_zip.mp hseen
  refine List.forall₂_iff_zip.mpr ⟨hlen, fun {e e'} hm => ?_⟩
  obtain ⟨Se, hop⟩ := hzip hm
  obtain ⟨x₁, he, R₁, hI⟩ := Se
  have hmem := List.of_mem_zip hm
  have hstack : e'.2.StackApart A := hop ▸ (r.allowed_mem e hmem.1).2
  obtain ⟨-, x₂, x₃, he', hexec⟩ :=
    Same.step hf ⟨x₁, he, R₁, hI⟩ (r'.allowed_mem e' hmem.2) hstack
  obtain rfl := Option.some.inj (he.symm.trans he')
  exact ⟨hop, x₁, x₃, he, R₁, by rw [hop]; exact hexec⟩

/-- Calls that are allowed over sequences are allowed in memory. -/
theorem Same.trace_allowed {o : Option HeapKernel} (S : Same A o k) (ops : List Op)
    (hstack : ∀ op ∈ ops, op.StackApart A)
    (ha : ∀ e ∈ trace kernelMachine.exec k ops, kernelMachine.Allowed e.1 e.2) :
    ∀ e ∈ trace (apartMachine A fuel).exec o ops, (apartMachine A fuel).Allowed e.1 e.2 := by
  induction ops generalizing o k with
  | nil => exact fun e he => nomatch he
  | cons op ops ih =>
    have hop := ha (k, op) (by simp [trace])
    have hs := hstack op List.mem_cons_self
    intro e he
    rcases List.mem_cons.mp he with rfl | he
    · exact ⟨(S.allowed hf op).mpr hop, hs⟩
    · exact ih (S.step hf hop hs).1 (fun op' h => hstack op' (List.mem_cons_of_mem _ h))
        (fun e he => ha e (List.mem_cons_of_mem _ he)) e he

/-- Such calls lead to states of which one represents the other. -/
theorem Same.foldl {o : Option HeapKernel} (S : Same A o k) (ops : List Op)
    (hstack : ∀ op ∈ ops, op.StackApart A)
    (ha : ∀ e ∈ trace kernelMachine.exec k ops, kernelMachine.Allowed e.1 e.2) :
    Same A (ops.foldl (apartMachine A fuel).exec o) (ops.foldl Op.next k) := by
  induction ops generalizing o k with
  | nil => exact S
  | cons op ops ih =>
    have hop := ha (k, op) (by simp [trace])
    exact ih (S.step hf hop (hstack op List.mem_cons_self)).1
      (fun op' h => hstack op' (List.mem_cons_of_mem _ h))
      (fun e he => ha e (List.mem_cons_of_mem _ he))

end

/-- Stacks in the RAM of the board, the heads of the lists and the other variables behind them. -/
def ramLayout : KernelLayout where
  osTskEntry := 0x40002000
  stackMem := 0x40020000
  tskCbFreeList := 0x40040000
  runQueue := 0x40040010
  unusedSemList := 0x40040020
  vars := [(0x40040030, 0x1000)]
  inside := by simp [stackMemNum]
  outside := by simp [stackMemNum]
  distinct := by simp
  varsOutside := by decide

/-- The kernel in memory after `OsTskInit` and `OsSemInit`, from memory full of zeros. -/
def ramHeap : HeapKernel :=
  match HeapKernel.osTskInit ramLayout (.reset ramLayout (fun _ => 0) fun _ => ⟨0, 0⟩) with
  | .error _ => .reset ramLayout (fun _ => 0) fun _ => ⟨0, 0⟩
  | .ok x =>
    match HeapKernel.osSemInit ramLayout x with
    | .error _ => x
    | .ok x => x

/-- The same over sequences. -/
def ramKernel : Kernel :=
  match osSemInit (tskInitKernel ramLayout fun _ => 0) with
  | .error _ => tskInitKernel ramLayout fun _ => 0
  | .ok k => k

theorem ramHeap_initialised : HeapInitialised ramLayout ramHeap ∧
    Represents ramLayout ramHeap ramKernel := by
  obtain ⟨x₁, x, h₁, h₂⟩ := HeapInitialised.of_memory ramLayout (fun _ => 0) fun _ => ⟨0, 0⟩
  obtain ⟨k, hk, R⟩ := represents_initialised h₁ h₂
  have hx : ramHeap = x := by simp only [ramHeap, h₁, h₂]
  have hk : ramKernel = k := by simp only [ramKernel, hk]
  exact ⟨⟨_, _, x₁, h₁, hx ▸ h₂⟩, hx ▸ hk ▸ R⟩

theorem ramKernel_initialised : Initialised ramKernel :=
  ⟨_, _, fun _ => 0, _, osTskInit_eq ramLayout.stackMem ramLayout.osTskEntry fun _ => 0, rfl⟩

/-- Two tasks, the second on a stack of its caller, of which the more urgent waits for a semaphore
that an interrupt posts. -/
def twoStackOps : List Op :=
  [.taskCreate { taskPrio := 10 }, .taskResume 0, .semCreate 0 false, .activate 0,
    .taskCreate { taskPrio := 20, stackAddr := 0x50000000 }, .taskResume 2,
    .semPend 0 osWaitForever, .uartPost 0]

theorem ramHeap_same : Same ramLayout (some ramHeap) ramKernel :=
  ⟨ramHeap, rfl, ramHeap_initialised.2, _, .start ramKernel_initialised⟩

theorem heapKernel_refines_twoStacks :
    ∃ x k hist', twoStackOps.foldl (apartMachine ramLayout 24).exec (some ramHeap) = some x ∧
      Run kernelMachine hist' k ∧ Represents ramLayout x k ∧
      (∀ op, (heapMachine ramLayout 24).Allowed
        (twoStackOps.foldl (apartMachine ramLayout 24).exec (some ramHeap)) op ↔
          kernelMachine.Allowed k op) ∧
      List.Forall₂ (fun e e' => e.2 = e'.2 ∧ ∃ x x', e.1 = some x ∧ Represents ramLayout x e'.1 ∧
        x.exec ramLayout 24 e.2 = some (x', e'.2.ret e'.1))
        (trace (apartMachine ramLayout 24).exec (some ramHeap) twoStackOps) hist' :=
  heapKernel_refines (by decide) (Run.ofList (M := apartMachine ramLayout 24)
    ⟨ramHeap, rfl, ramHeap_initialised.1⟩ twoStackOps
    (ramHeap_same.trace_allowed (by decide) twoStackOps (by decide +kernel) (by decide +kernel)))

end MiniEuler
