import MiniEuler.Kernel.HeapRefine
import MiniEuler.Kernel.Stacks

/-! The creation of tasks in memory: a block is taken off the free list through its link fields,
and the first context is stored at its address. As long as that covers nothing the kernel keeps,
the creation does what it does over sequences. -/

namespace MiniEuler
open Library Links

variable {A : KernelLayout} {x : HeapKernel} {k k' : Kernel} {p s : Nat}

/-! ## `INIT_LIST_OBJECT` -/

theorem links_initListObject (m : ListHeap) (object : UIntPtr) : (initListObject m object).links =
    { next := Function.update m.links.next object object
      prev := Function.update m.links.prev object object } := by
  simp only [initListObject, ListHeap.links_setNext, ListHeap.links_setPrev]

theorem joined_initListObject (m : ListHeap) (object : UIntPtr) :
    (initListObject m object).links.Joined object object := by
  simp [Links.Joined, links_initListObject]

/-- The node of a ring is not written when the object is on none. -/
theorem initListObject_rings {S : HeapHead → Prop} {head : HeapHead → UIntPtr}
    {ls : NodeLists HeapHead UIntPtr} {m : ListHeap} {object : UIntPtr}
    (R : RingsOn m.links S head ls) (hout : UnlinkedOn S head ls object) :
    RingsOn (initListObject m object).links S head ls := by
  refine Links.RingsOn.congr R fun h hS a ha => ?_
  have hne : a ≠ object := fun e => hout h hS (e ▸ ha)
  simp [links_initListObject, hne]

/-! ## The first context of a task -/

namespace KernelLayout

variable (A : KernelLayout)

/-- What the kernel keeps in memory: blocks, list heads and variables, with their sizes. -/
def kernelData : List (UIntPtr × Nat) :=
  [(A.tskCbArray, sizeofTagTskCb * (tskCbNum + 1)), (A.allSem, sizeofTagSemCb * semCbNum),
    (A.tskCbFreeList, sizeofTagListObject), (A.runQueue, sizeofTagListObject),
    (A.unusedSemList, sizeofTagListObject)] ++ A.vars

/-- A context at `stack` covers nothing of that. -/
def ContextApart (stack : UIntPtr) : Prop :=
  ∀ d ∈ A.kernelData, SpansApart d.1 d.2 stack sizeofTskContext

instance (stack : UIntPtr) : Decidable (A.ContextApart stack) :=
  inferInstanceAs (Decidable (∀ d ∈ _, _))

/-- On a stack that the caller brings along, the first context covers nothing of that. -/
def StackApart (initParam : TskInitParam) : Prop :=
  initParam.stackAddr ≠ 0 →
    A.ContextApart (tskContextAddr initParam.stackSize initParam.stackAddr)

instance (initParam : TskInitParam) : Decidable (A.StackApart initParam) :=
  inferInstanceAs (Decidable (_ → _))

variable {A}

/-- The stacks out of `stackMem` are behind the two arrays. -/
theorem contextApart_sys {i : Nat} (hi : 2 ≤ i) (hi' : i < stackMemNum) :
    A.ContextApart (tskContextAddr 4096 (A.stackMem + BitVec.ofNat 64 (4096 * i))) := by
  have hin := A.inside
  have hout := A.outside
  simp only [stackMemNum] at hi' hin hout
  have haddr : tskContextAddr 4096 (A.stackMem + BitVec.ofNat 64 (4096 * i)) =
      A.stackMem + BitVec.ofNat 64 (4096 * i + 3808) := by
    rw [tskContextAddr, show BitVec.ofNat 64 sizeofTskContext = 288 from rfl,
      show (4096 : BitVec 32).setWidth 64 = 4096 from rfl]
    bv_omega
  have hhead : ∀ a ∈ [A.tskCbFreeList, A.runQueue, A.unusedSemList],
      SpansApart a 16 (A.stackMem + BitVec.ofNat 64 (4096 * i + 3808)) 288 := fun a ha => by
    have := hout a ha
    constructor <;> bv_omega
  rw [haddr]
  intro d hd
  rcases List.mem_append.mp hd with hd | hd
  · simp only [List.mem_cons, List.not_mem_nil, or_false] at hd
    rcases hd with rfl | rfl | rfl | rfl | rfl
    · change SpansApart (A.stackMem + BitVec.ofNat 64 (4096 * 0)) 4032 _ 288
      constructor <;> bv_omega
    · change SpansApart (A.stackMem + BitVec.ofNat 64 (4096 * 1)) 4088 _ 288
      constructor <;> bv_omega
    all_goals exact hhead _ (by simp)
  · refine ((A.varsOutside d hd).symm.part (by decide) ?_).symm
    simp only [sizeofTskContext, stackMemNum]
    omega

theorem ContextApart.tcb {stack : UIntPtr} (h : A.ContextApart stack) (hp : p ≤ tskCbNum) :
    SpansApart (A.tcb p) sizeofTagTskCb stack sizeofTskContext := by
  have hp : p ≤ 23 := hp
  have harray := h (A.tskCbArray, sizeofTagTskCb * (tskCbNum + 1)) (by simp [kernelData])
  refine harray.part (by decide) ?_
  simp only [sizeofTagTskCb, tskCbNum]
  omega

theorem ContextApart.sem {stack : UIntPtr} (h : A.ContextApart stack) (hs : s < semCbNum) :
    SpansApart (A.sem s) sizeofTagSemCb stack sizeofTskContext := by
  have hs : s < 73 := hs
  have harray := h (A.allSem, sizeofTagSemCb * semCbNum) (by simp [kernelData])
  refine harray.part (by decide) ?_
  simp only [sizeofTagSemCb, semCbNum]
  omega

/-- The link fields of all lists are outside the context. -/
theorem ContextApart.links {stack a : UIntPtr} {h : HeapHead} (hc : A.ContextApart stack)
    (R : Represents A x k) (hlive : k.live h) (ha : a ∈ A.head h :: A.nodes k h) :
    SpansApart a sizeofTagListObject stack sizeofTskContext := by
  have htcb : ∀ p, p < tskCbNum → SpansApart (A.tcbNode p) 16 stack 288 := fun p hp =>
    (hc.tcb (Nat.le_of_lt hp)).part (by decide) (show 88 + 16 ≤ sizeofTagTskCb by decide)
  have hsem : ∀ s, s < semCbNum → SpansApart (A.semNode s) 16 stack 288 := fun s hs =>
    (hc.sem hs).part (by decide) (show 8 + 16 ≤ sizeofTagSemCb by decide)
  rcases List.mem_cons.mp ha with rfl | ha
  · match h, hlive with
    | .tasks .tskCbFreeList, _ =>
      exact hc (A.tskCbFreeList, sizeofTagListObject) (by simp [kernelData])
    | .tasks .runQueue, _ => exact hc (A.runQueue, sizeofTagListObject) (by simp [kernelData])
    | .tasks (.semList s), hlive => exact hsem s hlive.1
    | .unusedSems, _ => exact hc (A.unusedSemList, sizeofTagListObject) (by simp [kernelData])
  · cases h with
    | tasks h =>
      obtain ⟨p, hp, rfl⟩ := List.mem_map.mp ha
      exact htcb p (R.tcbs h p hp)
    | unusedSems =>
      obtain ⟨s, hs, rfl⟩ := List.mem_map.mp ha
      exact hsem s (R.sems s hs)

end KernelLayout

theorem tcbFields_fit (A : KernelLayout) :
    ∀ f ∈ A.tcbFields, 0 < f.size ∧ f.offset + f.size ≤ sizeofTagTskCb := by
  simp only [KernelLayout.tcbFields, List.forall_mem_append, List.forall_mem_cons,
    List.forall_mem_map, sizeofTagTskCb]
  refine ⟨by decide, fun i _ => ⟨by decide, ?_⟩⟩
  omega

theorem semFields_fit : ∀ f ∈ semFields, 0 < f.size ∧ f.offset + f.size ≤ sizeofTagSemCb := by
  decide

/-- A context that is apart from the kernel's data only fills the stack. -/
theorem Represents.osTskContextInit (R : Represents A x k) {stackSize : BitVec 32}
    {topStack : UIntPtr} (funcTskEntry : UIntPtr)
    (hc : A.ContextApart (tskContextAddr stackSize topStack)) :
    Ends (HeapKernel.osTskContextInit A x stackSize topStack funcTskEntry) fun r =>
      r.2 = tskContextAddr stackSize topStack ∧ Represents A r.1
        { k with mem := (osTskContextInit k.mem stackSize topStack funcTskEntry).1 } := by
  obtain ⟨stack, hstack⟩ : ∃ a, tskContextAddr stackSize topStack = a := ⟨_, rfl⟩
  rw [hstack] at hc
  unfold HeapKernel.osTskContextInit
  simp only [osTskContextInit_snd, hstack]
  rw [if_pos fun v hv => hc v (List.mem_append_right _ hv)]
  refine .pure ⟨rfl, ?_, ?_, R.tcbs, R.sems, R.max, R.maxSem, R.stackMem⟩
  · have htcb : ∀ p, p ≤ tskCbNum → ∀ t, blockAfter stack (tskContextInit funcTskEntry).words
        A.tcbFields (A.tcb p) t = t := fun p hp =>
      blockAfter_of_apart (hc.tcb hp) (tcbFields_fit A)
    have hsem : ∀ s, s < semCbNum → ∀ c, blockAfter stack (tskContextInit funcTskEntry).words
        semFields (A.sem s) c = c := fun s hs => blockAfter_of_apart (hc.sem hs) semFields_fit
    have htcbs : (fun p => if p ≤ tskCbNum then blockAfter stack
        (tskContextInit funcTskEntry).words A.tcbFields (A.tcb p) (x.data.tskCbArray p)
        else x.data.tskCbArray p) = x.data.tskCbArray := by
      funext p
      split
      · exact htcb p ‹_› _
      · rfl
    have hsems : (fun s => if s < semCbNum then blockAfter stack
        (tskContextInit funcTskEntry).words semFields (A.sem s) (x.data.allSem s)
        else x.data.allSem s) = x.data.allSem := by
      funext s
      split
      · exact hsem s ‹_› _
      · rfl
    rw [htcbs, hsems, R.data]
    rfl
  · refine RingsOn.congr R.rings fun h hS a ha => ?_
    have hapart := hc.links R hS ha
    have hlen : 8 * (tskContextInit funcTskEntry).words.length ≤ 2 ^ 64 :=
      show 8 * 36 ≤ 2 ^ 64 by decide
    have hprev : SpansApart a 8 stack sizeofTskContext := by
      simpa using hapart.part (show 0 < 8 by decide) (show 0 + 8 ≤ sizeofTagListObject by decide)
    have hnext : SpansApart (a + 8) 8 stack sizeofTskContext :=
      hapart.part (show 0 < 8 by decide) (show 8 + 8 ≤ sizeofTagListObject by decide)
    exact ⟨wordAfter_of_apart hnext hlen _, wordAfter_of_apart hprev hlen _⟩

/-! ## Creating tasks -/

theorem Represents.osTaskCreateChkAndGetTcb (R : Represents A x k) (P : Pool k) :
    (k.tskCbFreeList = [] ∧
      HeapKernel.osTaskCreateChkAndGetTcb A x = .error osErrnoTskTcbUnavailable) ∨
    ∃ cb rest, k.tskCbFreeList = cb :: rest ∧
      HeapKernel.osTaskCreateChkAndGetTcb A x =
        .ok ({ x with heap := listDelete x.heap (A.tcbNode cb) }, cb) ∧
      Represents A { x with heap := listDelete x.heap (A.tcbNode cb) }
        { k with lists := k.lists.delete cb } := by
  have hempty : listEmpty x.heap A.tskCbFreeList = true ↔ k.tskCbFreeList = [] :=
    R.empty_iff (h := .tskCbFreeList) trivial
  unfold HeapKernel.osTaskCreateChkAndGetTcb
  cases hl : k.tskCbFreeList with
  | nil => exact Or.inl ⟨rfl, if_pos (hempty.mpr hl)⟩
  | cons cb rest =>
    have hcb : cb ∈ k.tskCbFreeList := by simp [hl]
    obtain ⟨hnext, hfirst⟩ := R.first (h := .tskCbFreeList) trivial hl
    change (x.heap A.tskCbFreeList).next = _ at hnext
    refine Or.inr ⟨cb, rest, rfl, ?_, R.delete (h := .tskCbFreeList) trivial hcb
      fun _ => P.free_only hcb⟩
    rw [if_neg fun h => by simp [hl] at hempty; simp [hempty] at h, hnext, hfirst]

theorem osMemAllocAlign_unlinked (k : Kernel) (size : BitVec 32) (alignPow : Nat) :
    osMemAllocAlign k.unlinked size alignPow =
      ((osMemAllocAlign k size alignPow).1.unlinked, (osMemAllocAlign k size alignPow).2) := by
  have hfind : (List.range stackMemNum).find? (fun i => !k.unlinked.stackMemUsed i) =
      (List.range stackMemNum).find? (fun i => !k.stackMemUsed i) := rfl
  unfold osMemAllocAlign
  rw [hfind]
  split
  · rfl
  · split
    · rfl
    · split <;> rfl

theorem osTaskCreateRsrcInit_unlinked (k : Kernel) (initParam : TskInitParam) (cb : Nat) :
    osTaskCreateRsrcInit k.unlinked initParam cb =
      ((osTaskCreateRsrcInit k initParam cb).1.unlinked,
        (osTaskCreateRsrcInit k initParam cb).2) := by
  unfold osTaskCreateRsrcInit osTskMemAlloc
  rw [osMemAllocAlign_unlinked]
  split
  · rfl
  · generalize osMemAllocAlign k initParam.stackSize osTskStackSizeAllocAlign = r
    obtain ⟨k', _ | topStack⟩ := r <;> rfl

/-- The task's own link field may be joined to itself as long as it is on no list. -/
theorem Represents.initListObject (R : Represents A x k) (hp : p < tskCbNum)
    (hout : ∀ h, p ∉ k.lists h) :
    Represents A { x with heap := initListObject x.heap (A.tcbNode p) } k :=
  ⟨R.data, initListObject_rings R.rings (R.unlinked hp hout), R.tcbs, R.sems, R.max, R.maxSem,
    R.stackMem⟩

/-- A block that has been taken off the free list goes back to its place. -/
theorem Represents.free_back (R : Represents A x k) {cb : Nat} {rest : List Nat}
    (hl : k.tskCbFreeList = cb :: rest) :
    listAdd (listDelete x.heap (A.tcbNode cb)) (A.tcbNode cb) A.tskCbFreeList = x.heap := by
  have hring := R.rings.ring ⟨.tasks .tskCbFreeList, trivial⟩
  have hnodes : A.nodes k (.tasks .tskCbFreeList) = A.tcbNode cb :: rest.map A.tcbNode := by
    rw [KernelLayout.nodes, show k.lists .tskCbFreeList = _ from hl, List.map_cons]
  obtain ⟨hpath, hnodup⟩ := hring
  simp only [hnodes] at hpath hnodup
  obtain ⟨hfirst, hpath⟩ := List.isChain_cons_cons.mp hpath
  obtain ⟨hhead, hrest⟩ := List.nodup_cons.mp hnodup
  obtain ⟨after, tail, htail⟩ : ∃ after tail, rest.map A.tcbNode ++ [A.tskCbFreeList] =
      after :: tail := List.exists_cons_of_ne_nil (by simp)
  have hne : A.tcbNode cb ≠ A.tskCbFreeList := fun h => hhead (by simp [← h, KernelLayout.head])
  have hpath : x.heap.links.Path (A.tcbNode cb :: after :: tail) := htail ▸ hpath
  obtain ⟨hjoined, -⟩ := List.isChain_cons_cons.mp hpath
  have hafter : (x.heap (A.tcbNode cb)).next = after := hjoined.1
  have hmem : after ∈ rest.map A.tcbNode ++ [A.tskCbFreeList] := by simp [htail]
  refine listAdd_listDelete hne ?_ hfirst (by rw [hafter]; exact hjoined)
  rw [hafter]
  rintro rfl
  rcases List.mem_append.mp hmem with hm | hm
  · exact (List.nodup_cons.mp hrest).1 hm
  · exact hne (List.mem_singleton.mp hm)

/-- **What a creation does in memory**, wherever the stack is. -/
theorem Represents.prtTaskCreate_cases (R : Represents A x k) (P : Pool k)
    (initParam : TskInitParam) :
    (∃ ret, HeapKernel.prtTaskCreate A x initParam = some (x, .error ret) ∧
      prtTaskCreate k initParam = (k, .error ret)) ∨
    ∃ cb rest flg stack used x₁, k.tskCbFreeList = cb :: rest ∧
      StackTaken k initParam flg stack used ∧
      prtTaskCreate k initParam =
        (createdKernel k cb (createdTcb (k.tskCbArray cb) initParam flg stack) used, .ok cb) ∧
      Represents A x₁ ({ k with lists := k.lists.delete cb, stackMemUsed := used }.setTcb cb
        { k.tskCbArray cb with stackCfgFlg := flg }) ∧
      HeapKernel.prtTaskCreate A x initParam = do
        let r ← HeapKernel.osTskContextInit A x₁ stack.2 stack.1 k.osTskEntry
        let x₂ := HeapKernel.osTskCreateTcbInit A r.1 r.2 initParam stack.1 stack.2 cb
        return (x₂.onData fun k =>
          k.setTcb cb { k.tskCbArray cb with taskStatus := osTskSuspend ||| osTskInuse },
          .ok cb) := by
  unfold HeapKernel.prtTaskCreate HeapKernel.osTaskCreateOnly
  rcases R.osTaskCreateChkAndGetTcb P with ⟨hl, hget⟩ | ⟨cb, rest, hl, hget, R₁⟩
  · rw [hget]
    exact Or.inl ⟨_, rfl, prtTaskCreate_of_noTcb hl⟩
  have hcb : cb ∈ k.tskCbFreeList := by simp [hl]
  have hpid := P.pid cb (P.free cb hcb).1
  have hdata : x.data = ({ k with lists := k.lists.delete cb } : Kernel).unlinked := R₁.data
  rcases osTaskCreateRsrcInit_spec { k with lists := k.lists.delete cb } initParam cb with
    ⟨hr, hno⟩ | ⟨flg, stack, used, hst, hr⟩
  · refine Or.inl ⟨_, ?_, prtTaskCreate_of_noStack hl (fun _ => P.free_only hcb) hr⟩
    simp only [hget, hdata, osTaskCreateRsrcInit_unlinked, hr, R.free_back hl]
    rw [← hdata]
  · have hst' : StackTaken k initParam flg stack used := by
      cases hst with
      | user ha => exact .user ha
      | sys ha hs hi hu => exact .sys ha hs hi hu
    have hcreate := prtTaskCreate_of_stack hl hr
    rw [hpid] at hcreate
    have R₂ : Represents A _ ({ k with lists := k.lists.delete cb, stackMemUsed := used }.setTcb cb
        { k.tskCbArray cb with stackCfgFlg := flg }) :=
      R₁.ofData rfl rfl (fun _ => rfl) rfl rfl rfl
    refine Or.inr ⟨cb, rest, flg, stack, used, _, hl, hst', hcreate, R₂, ?_⟩
    have hpid' : (({ k with lists := k.lists.delete cb } : Kernel).unlinked.tskCbArray cb).taskPid =
      cb := hpid
    simp only [hget, hdata, osTaskCreateRsrcInit_unlinked, hr, hpid']
    rfl

/-- A creation whose stack is apart from the kernel's data does what it does over sequences. -/
theorem Represents.prtTaskCreate (R : Represents A x k) (P : Pool k)
    (hused : ∀ i, i < 2 → k.stackMemUsed i = true) {initParam : TskInitParam}
    (ha : A.StackApart initParam) :
    CallEnds A (HeapKernel.prtTaskCreate A x initParam) (prtTaskCreate k initParam) := by
  rcases R.prtTaskCreate_cases P initParam with
    ⟨ret, hx, hk⟩ | ⟨cb, rest, flg, stack, used, x₁, hl, hst, hk, R₁, hx⟩
  · rw [hx, hk]
    exact .pure ⟨rfl, R⟩
  have hc : A.ContextApart (tskContextAddr stack.2 stack.1) := by
    cases hst with
    | user hne => exact ha hne
    | @sys i _ hsize hi hfree =>
      have hi2 : 2 ≤ i := by
        by_contra h
        rw [hused i (by omega)] at hfree
        cases hfree
      rw [hsize, R.stackMem]
      exact KernelLayout.contextApart_sys hi2 hi
  have hcb : cb ∈ k.lists .tskCbFreeList := by simp [show k.lists .tskCbFreeList = _ from hl]
  have hout : ∀ h, cb ∉ k.lists.delete cb h := fun h hm => by
    by_cases hh : h = .tskCbFreeList
    · subst hh
      exact (List.Nodup.mem_erase_iff P.nodup).mp hm |>.1 rfl
    · exact P.free_only hcb hh (List.mem_of_mem_erase hm)
  rw [hx, hk]
  obtain ⟨⟨x₂, stackPtr⟩, hcontext, hptr, R₂⟩ := R₁.osTskContextInit k.osTskEntry hc
  obtain rfl : stackPtr = tskContextAddr stack.2 stack.1 := hptr
  rw [hcontext]
  refine .pure ⟨rfl, ?_⟩
  have R₃ := (R₂.initListObject (R.tcbs _ cb hcb) hout).setTcb cb (fun k =>
    { k.tskCbArray cb with
      stackPointer := tskContextAddr stack.2 stack.1
      args := initParam.args
      topOfStack := stack.1
      stackSize := stack.2
      taskSem := none
      priority := initParam.taskPrio
      originalPriority := initParam.taskPrio
      taskEntry := initParam.taskEntry
      lastErr := 0 }) rfl
  have R₄ := R₃.setTcb cb (fun k =>
    { k.tskCbArray cb with taskStatus := osTskSuspend ||| osTskInuse }) rfl
  convert R₄ using 1
  · rfl
  · simp [createdKernel, createdTcb, Kernel.setTcb]

end MiniEuler
