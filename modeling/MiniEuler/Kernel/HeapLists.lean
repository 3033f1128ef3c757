import Mathlib.Data.List.Find
import MiniEuler.Kernel.HeapKernel

/-! The link fields of the kernel in memory are those of the lists of the kernel over sequences:
what the list functions and the loops over lists do then. -/

namespace MiniEuler
open Library Links

/-! ## Programs that end -/

/-- The program ends, in a state that `P` holds of. -/
def Ends {α : Type} (o : Option α) (P : α → Prop) : Prop := ∃ a, o = some a ∧ P a

namespace Ends

variable {α β : Type} {o : Option α} {P Q : α → Prop} {R : β → Prop} {f : α → Option β}

theorem pure {a : α} (h : P a) : Ends (some a) P := ⟨a, rfl, h⟩

theorem mono (h : Ends o P) (hPQ : ∀ a, P a → Q a) : Ends o Q := by
  obtain ⟨a, ha, hP⟩ := h
  exact ⟨a, ha, hPQ a hP⟩

theorem bind (h : Ends o P) (hf : ∀ a, P a → Ends (f a) R) : Ends (o >>= f) R := by
  obtain ⟨a, rfl, hP⟩ := h
  exact hf a hP

end Ends

/-! ## Addresses -/

namespace KernelLayout

variable (A : KernelLayout) {p q s : Nat}

theorem tcbIndex_node (hp : p < tskCbNum) :
    A.tcbIndex (listComponent (A.tcbNode p) offsetPendList) = p := by
  have hp : p < 23 := hp
  simp only [tcbIndex, listComponent, tcbNode, tcb, tskCbArray, offsetPendList, sizeofTagTskCb]
  have : (A.stackMem + BitVec.ofNat 64 (4096 * 0) + BitVec.ofNat 64 (168 * p) + 88 - 88 -
      (A.stackMem + BitVec.ofNat 64 (4096 * 0))).toNat = 168 * p := by bv_omega
  rw [this]
  omega

theorem semIndex_node (hs : s < semCbNum) :
    A.semIndex (listComponent (A.semNode s) offsetSemList) = s := by
  have hs : s < 73 := hs
  simp only [semIndex, listComponent, semNode, sem, allSem, offsetSemList, sizeofTagSemCb]
  have : (A.stackMem + BitVec.ofNat 64 (4096 * 1) + BitVec.ofNat 64 (56 * s) + 8 - 8 -
      (A.stackMem + BitVec.ofNat 64 (4096 * 1))).toNat = 56 * s := by bv_omega
  rw [this]
  omega

theorem tcbNode_inj (hp : p < tskCbNum) (hq : q < tskCbNum) (h : A.tcbNode p = A.tcbNode q) :
    p = q := by
  rw [← A.tcbIndex_node hp, h, A.tcbIndex_node hq]

theorem semNode_inj {s s' : Nat} (hs : s < semCbNum) (hs' : s' < semCbNum)
    (h : A.semNode s = A.semNode s') : s = s' := by
  rw [← A.semIndex_node hs, h, A.semIndex_node hs']

theorem toNat_tcbNode (hp : p < tskCbNum) :
    (A.tcbNode p).toNat = A.stackMem.toNat + 168 * p + 88 := by
  have hp : p < 23 := hp
  have := A.inside
  simp only [stackMemNum] at this
  simp only [tcbNode, tcb, tskCbArray, offsetPendList, sizeofTagTskCb]
  bv_omega

theorem toNat_semNode (hs : s < semCbNum) :
    (A.semNode s).toNat = A.stackMem.toNat + 4096 + 56 * s + 8 := by
  have hs : s < 73 := hs
  have := A.inside
  simp only [stackMemNum] at this
  simp only [semNode, sem, allSem, offsetSemList, sizeofTagSemCb]
  bv_omega

theorem tcbNode_ne_semNode (hp : p < tskCbNum) (hs : s < semCbNum) :
    A.tcbNode p ≠ A.semNode s := by
  intro h
  have h := congrArg BitVec.toNat h
  rw [A.toNat_tcbNode hp, A.toNat_semNode hs] at h
  have hp : p < 23 := hp
  omega

/-- The three heads that are globals lie outside the blocks. -/
theorem global_ne {a b : UIntPtr} (ha : a ∈ [A.tskCbFreeList, A.runQueue, A.unusedSemList])
    (hb : A.stackMem.toNat ≤ b.toNat ∧ b.toNat < A.stackMem.toNat + 8192) : a ≠ b := by
  rintro rfl
  have := A.outside a ha
  simp only [stackMemNum] at this
  omega

theorem tcbNode_inside (hp : p < tskCbNum) :
    A.stackMem.toNat ≤ (A.tcbNode p).toNat ∧
      (A.tcbNode p).toNat < A.stackMem.toNat + 8192 := by
  have hp' : p < 23 := hp
  rw [A.toNat_tcbNode hp]
  omega

theorem semNode_inside (hs : s < semCbNum) :
    A.stackMem.toNat ≤ (A.semNode s).toNat ∧
      (A.semNode s).toNat < A.stackMem.toNat + 8192 := by
  have hs' : s < 73 := hs
  rw [A.toNat_semNode hs]
  omega

/-- The head is one of the three globals or of a block of the semaphore array. -/
def HeadOk : HeapHead → Prop
  | .tasks (.semList s) => s < semCbNum
  | _ => True

theorem head_ne_tcbNode {h : HeapHead} (hh : HeadOk h) (hp : p < tskCbNum) :
    A.head h ≠ A.tcbNode p := by
  have hin := A.tcbNode_inside hp
  match h, hh with
  | .tasks .tskCbFreeList, _ => exact A.global_ne (by simp [head]) hin
  | .tasks .runQueue, _ => exact A.global_ne (by simp [head]) hin
  | .tasks (.semList s), hs => exact (A.tcbNode_ne_semNode hp hs).symm
  | .unusedSems, _ => exact A.global_ne (by simp [head]) hin

/-- Different heads have different addresses. -/
theorem head_inj {h h' : HeapHead} (hh : HeadOk h) (hh' : HeadOk h')
    (he : A.head h = A.head h') : h = h' := by
  have hd : A.tskCbFreeList ≠ A.runQueue ∧ A.tskCbFreeList ≠ A.unusedSemList ∧
      A.runQueue ≠ A.unusedSemList := by simpa [and_assoc] using A.distinct
  have hg : ∀ {s}, s < semCbNum → A.tskCbFreeList ≠ A.semNode s ∧ A.runQueue ≠ A.semNode s ∧
      A.unusedSemList ≠ A.semNode s := fun hs =>
    ⟨A.global_ne (by simp) (A.semNode_inside hs), A.global_ne (by simp) (A.semNode_inside hs),
      A.global_ne (by simp) (A.semNode_inside hs)⟩
  match h, h', hh, hh' with
  | .tasks (.semList s), .tasks (.semList s'), hs, hs' => rw [A.semNode_inj hs hs' he]
  | .tasks .tskCbFreeList, .tasks .tskCbFreeList, _, _ | .tasks .runQueue, .tasks .runQueue, _, _
  | .unusedSems, .unusedSems, _, _ => rfl
  | .tasks .tskCbFreeList, .tasks .runQueue, _, _ => exact absurd he hd.1
  | .tasks .tskCbFreeList, .unusedSems, _, _ => exact absurd he hd.2.1
  | .tasks .runQueue, .unusedSems, _, _ => exact absurd he hd.2.2
  | .tasks .runQueue, .tasks .tskCbFreeList, _, _ => exact absurd he.symm hd.1
  | .unusedSems, .tasks .tskCbFreeList, _, _ => exact absurd he.symm hd.2.1
  | .unusedSems, .tasks .runQueue, _, _ => exact absurd he.symm hd.2.2
  | .tasks .tskCbFreeList, .tasks (.semList s), _, hs => exact absurd he (hg hs).1
  | .tasks .runQueue, .tasks (.semList s), _, hs => exact absurd he (hg hs).2.1
  | .unusedSems, .tasks (.semList s), _, hs => exact absurd he (hg hs).2.2
  | .tasks (.semList s), .tasks .tskCbFreeList, hs, _ => exact absurd he.symm (hg hs).1
  | .tasks (.semList s), .tasks .runQueue, hs, _ => exact absurd he.symm (hg hs).2.1
  | .tasks (.semList s), .unusedSems, hs, _ => exact absurd he.symm (hg hs).2.2

end KernelLayout

/-! ## What the memory stands for -/

/-- The kernel without its lists. -/
def Kernel.unlinked (k : Kernel) : Kernel := { k with lists := fun _ => [], unusedSemList := [] }

/-- The list heads that have been set up: a semaphore has one as long as it is used. -/
def Kernel.live (k : Kernel) : HeapHead → Prop
  | .tasks (.semList s) => s < semCbNum ∧ (k.allSem s).semStat = osSemUsed
  | _ => True

theorem Kernel.live_ok {k : Kernel} {h : HeapHead} (hh : k.live h) :
    KernelLayout.HeadOk h := by
  match h, hh with
  | .tasks .tskCbFreeList, _ => trivial
  | .tasks .runQueue, _ => trivial
  | .tasks (.semList _), hs => exact hs.1
  | .unusedSems, _ => trivial

/-- The link fields that the lists of `k` are made of. -/
def KernelLayout.nodes (A : KernelLayout) (k : Kernel) : NodeLists HeapHead UIntPtr
  | .tasks h => (k.lists h).map A.tcbNode
  | .unusedSems => k.unusedSemList.map A.semNode

structure Represents (A : KernelLayout) (x : HeapKernel) (k : Kernel) : Prop where
  data : x.data = k.unlinked
  rings : RingsOn x.heap.links k.live A.head (A.nodes k)
  tcbs : ∀ h, ∀ p ∈ k.lists h, p < tskCbNum
  sems : ∀ s ∈ k.unusedSemList, s < semCbNum
  max : k.tskMaxNum + 1 = tskCbNum
  maxSem : k.maxSem = semCbNum
  stackMem : k.stackMem = A.stackMem

variable {A : KernelLayout} {x : HeapKernel} {k k' : Kernel} {p q s : Nat} {h : ListHead}

/-- The pure part of the state is that of the sequences. -/
theorem Represents.data_eq (R : Represents A x k) {α : Type} (f : Kernel → α)
    (hf : f k.unlinked = f k) : f x.data = f k := by rw [R.data, hf]

/-- **Frame.** What writes no link field and no semaphore's status. -/
theorem Represents.ofData (R : Represents A x k) (hl : k'.lists = k.lists)
    (hu : k'.unusedSemList = k.unusedSemList)
    (hs : ∀ s, (k'.allSem s).semStat = (k.allSem s).semStat)
    (hm : k'.tskMaxNum = k.tskMaxNum) (hm' : k'.maxSem = k.maxSem)
    (hstack : k'.stackMem = k.stackMem) : Represents A { x with data := k'.unlinked } k' := by
  have hlive : k'.live = k.live := by
    funext h
    match h with
    | .tasks (.semList s) => simp only [Kernel.live, hs]
    | .tasks .tskCbFreeList | .tasks .runQueue | .unusedSems => rfl
  have hnodes : A.nodes k' = A.nodes k := by
    funext h
    cases h with
    | tasks h => simp only [KernelLayout.nodes, hl]
    | unusedSems => simp only [KernelLayout.nodes, hu]
  refine ⟨rfl, ?_, by rw [hl]; exact R.tcbs, by rw [hu]; exact R.sems, by rw [hm]; exact R.max,
    by rw [hm']; exact R.maxSem, hstack.trans R.stackMem⟩
  rw [hlive, hnodes]
  exact R.rings

theorem Represents.onData (R : Represents A x k) {f : Kernel → Kernel}
    (hf : f k.unlinked = k'.unlinked) (hl : k'.lists = k.lists)
    (hu : k'.unusedSemList = k.unusedSemList)
    (hs : ∀ s, (k'.allSem s).semStat = (k.allSem s).semStat)
    (hm : k'.tskMaxNum = k.tskMaxNum) (hm' : k'.maxSem = k.maxSem)
    (hstack : k'.stackMem = k.stackMem) : Represents A (x.onData f) k' := by
  have hdata : x.onData f = { x with data := k'.unlinked } := by rw [HeapKernel.onData, R.data, hf]
  rw [hdata]
  exact R.ofData hl hu hs hm hm' hstack

theorem Represents.setTcb (R : Represents A x k) (p : Nat) (t : Kernel → TagTskCb)
    (ht : t k.unlinked = t k) :
    Represents A (x.onData fun k => k.setTcb p (t k)) (k.setTcb p (t k)) := by
  refine R.onData ?_ rfl rfl (fun _ => rfl) rfl rfl rfl
  rw [ht]
  rfl

theorem Represents.setSem (R : Represents A x k) (s : Nat) (c : Kernel → TagSemCb)
    (hc : c k.unlinked = c k) (hs : (c k).semStat = (k.allSem s).semStat) :
    Represents A (x.onData fun k => k.setSem s (c k)) (k.setSem s (c k)) := by
  refine R.onData ?_ rfl rfl (fun s' => ?_) rfl rfl rfl
  · rw [hc]
    rfl
  · by_cases h : s' = s
    · subst h
      simpa [Kernel.setSem] using hs
    · simp [Kernel.setSem, h]

theorem Represents.status (R : Represents A x k) (p : Nat) (b : BitVec 32) :
    Represents A (x.onData (tskStatusSet · p b)) (tskStatusSet k p b) ∧
    Represents A (x.onData (tskStatusClear · p b)) (tskStatusClear k p b) :=
  ⟨R.onData rfl rfl rfl (fun _ => rfl) rfl rfl rfl,
    R.onData rfl rfl rfl (fun _ => rfl) rfl rfl rfl⟩

/-! ## List functions -/

section
variable {S : HeapHead → Prop} {head : HeapHead → UIntPtr} {ls : NodeLists HeapHead UIntPtr}
  {m : ListHeap} {h : HeapHead} {n : UIntPtr}

/-- `ListTailAdd` with only some of the heads set up. -/
theorem listTailAdd_ringsOn (R : RingsOn m.links S head ls) (hS : S h)
    (hout : UnlinkedOn S head ls n) :
    RingsOn (listTailAdd m n (head h)).links S head (Function.update ls h (ls h ++ [n])) := by
  have hr := listTailAdd_rings R ⟨h, hS⟩ fun h' => hout h' h'.2
  rw [RingsOn, RingsOn.update_eq hS]
  exact hr

theorem listDelete_ringsOn (R : RingsOn m.links S head ls) (hS : S h) (hm : n ∈ ls h) :
    RingsOn (listDelete m n).links S head (Function.update ls h ((ls h).erase n)) ∧
    UnlinkedOn S head (Function.update ls h ((ls h).erase n)) n := by
  obtain ⟨hr, hout⟩ := listDelete_rings R (h := ⟨h, hS⟩) hm
  rw [delete_eq_update R (h := ⟨h, hS⟩) hm, ← RingsOn.update_eq hS] at hr hout
  exact ⟨hr, fun h' hS' => hout ⟨h', hS'⟩⟩

end

namespace Represents

variable (R : Represents A x k)
include R

/-- A task on no list has its link field on no ring. -/
theorem unlinked (hp : p < tskCbNum) (hout : ∀ h, p ∉ k.lists h) :
    UnlinkedOn k.live A.head (A.nodes k) (A.tcbNode p) := by
  intro h hh hmem
  rcases List.mem_cons.mp hmem with he | hm
  · exact A.head_ne_tcbNode (Kernel.live_ok hh) hp he.symm
  · cases h with
    | tasks h =>
      obtain ⟨q, hq, he⟩ := List.mem_map.mp hm
      rw [A.tcbNode_inj (R.tcbs h q hq) hp he] at hq
      exact hout h hq
    | unusedSems =>
      obtain ⟨s, hs, he⟩ := List.mem_map.mp hm
      exact A.tcbNode_ne_semNode hp (R.sems s hs) he.symm

/-- A ring of tasks has been written so that it is that of the list `l`. -/
theorem relist {l : List Nat} {m : ListHeap}
    (hm : RingsOn m.links k.live A.head
      (Function.update (A.nodes k) (.tasks h) (l.map A.tcbNode)))
    (hl : ∀ p ∈ l, p < tskCbNum) :
    Represents A { x with heap := m } { k with lists := Function.update k.lists h l } := by
  refine ⟨R.data, ?_, fun h' p hp => ?_, R.sems, R.max, R.maxSem, R.stackMem⟩
  · have hnodes : A.nodes { k with lists := Function.update k.lists h l } =
        Function.update (A.nodes k) (.tasks h) (l.map A.tcbNode) := by
      funext h'
      by_cases hh : h' = .tasks h
      · subst hh
        simp [KernelLayout.nodes]
      · rw [Function.update_of_ne hh]
        cases h' with
        | tasks h' =>
          have hne : h' ≠ h := fun e => hh (by rw [e])
          simp only [KernelLayout.nodes, Function.update_of_ne hne]
        | unusedSems => rfl
    rw [hnodes]
    exact hm
  · by_cases hh : h' = h
    · subst hh
      exact hl p (by simpa using hp)
    · exact R.tcbs h' p (by simpa [hh] using hp)

theorem tailAdd (hlive : k.live (.tasks h)) (hp : p < tskCbNum) (hout : ∀ h, p ∉ k.lists h) :
    Represents A { x with heap := listTailAdd x.heap (A.tcbNode p) (A.head (.tasks h)) }
      { k with lists := k.lists.tailAdd p h } := by
  refine R.relist ?_ fun q hq => ?_
  · rw [List.map_append]
    exact listTailAdd_ringsOn R.rings hlive (R.unlinked hp hout)
  · rcases List.mem_append.mp hq with hq | hq
    · exact R.tcbs h q hq
    · rw [List.mem_singleton.mp hq]
      exact hp

theorem headAdd (hlive : k.live (.tasks h)) (hp : p < tskCbNum) (hout : ∀ h, p ∉ k.lists h) :
    Represents A { x with heap := listAdd x.heap (A.tcbNode p) (A.head (.tasks h)) }
      { k with lists := k.lists.headAdd p h } := by
  refine R.relist ?_ fun q hq => ?_
  · have hr := listAdd_rings R.rings ⟨.tasks h, hlive⟩ fun h' => R.unlinked hp hout h' h'.2
    rw [List.map_cons]
    rw [RingsOn, RingsOn.update_eq hlive]
    exact hr
  · rcases List.mem_cons.mp hq with rfl | hq
    · exact hp
    · exact R.tcbs h q hq

omit R in
theorem map_insertBefore {f : Nat → UIntPtr} {cur : Nat} {l : List Nat}
    (hf : ∀ q ∈ l, f q = f cur → q = cur) : (NodeLists.insertBefore p cur l).map f =
      NodeLists.insertBefore (f p) (f cur) (l.map f) := by
  induction l with
  | nil => rfl
  | cons a l ih =>
    have hl := ih fun q hq => hf q (List.mem_cons_of_mem a hq)
    by_cases ha : a = cur
    · simp [NodeLists.insertBefore, ha]
    · have hne : f a ≠ f cur := fun e => ha (hf a (by simp) e)
      simp [NodeLists.insertBefore, ha, hne, hl]

omit R in
theorem map_erase {f : Nat → UIntPtr} {l : List Nat} (hf : ∀ q ∈ l, f q = f p → q = p) :
    (l.erase p).map f = (l.map f).erase (f p) := by
  induction l with
  | nil => rfl
  | cons a l ih =>
    have hl := ih fun q hq => hf q (List.mem_cons_of_mem a hq)
    by_cases ha : a = p
    · simp [ha]
    · have hne : f a ≠ f p := fun e => ha (hf a (by simp) e)
      simp [List.erase_cons_tail, ha, hne, hl]

/-- Different tasks on a list have different link fields. -/
theorem node_inj (hp : p ∈ k.lists h) : ∀ q ∈ k.lists h, A.tcbNode q = A.tcbNode p → q = p :=
  fun q hq he => A.tcbNode_inj (R.tcbs h q hq) (R.tcbs h p hp) he

theorem addBefore {cur : Nat} (hlive : k.live (.tasks h)) (hp : p < tskCbNum)
    (hout : ∀ h, p ∉ k.lists h) (hc : cur ∈ k.lists h)
    (honly : ∀ h', h' ≠ h → cur ∉ k.lists h') :
    Represents A { x with heap := listTailAdd x.heap (A.tcbNode p) (A.tcbNode cur) }
      { k with lists := k.lists.addBefore p cur } := by
  have hls : k.lists.addBefore p cur =
      Function.update k.lists h (NodeLists.insertBefore p cur (k.lists h)) := by
    funext h'
    by_cases hh : h' = h
    · subst hh
      simp [NodeLists.addBefore]
    · rw [Function.update_of_ne hh]
      exact NodeLists.insertBefore_of_not_mem p cur _ (honly h' hh)
  rw [hls]
  refine R.relist ?_ fun q hq => ?_
  · have hr := listTailAdd_member_rings R.rings (h := ⟨.tasks h, hlive⟩)
      (List.mem_map_of_mem hc) fun h' => R.unlinked hp hout h' h'.2
    rw [map_insertBefore (R.node_inj hc), RingsOn, RingsOn.update_eq hlive]
    exact hr
  · rcases List.mem_cons.mp ((NodeLists.insertBefore_perm p cur _ hc).mem_iff.mp hq) with rfl | hq
    · exact hp
    · exact R.tcbs h q hq

theorem delete (hlive : k.live (.tasks h)) (hp : p ∈ k.lists h)
    (honly : ∀ h', h' ≠ h → p ∉ k.lists h') :
    Represents A { x with heap := listDelete x.heap (A.tcbNode p) }
      { k with lists := k.lists.delete p } := by
  have hls : k.lists.delete p = Function.update k.lists h ((k.lists h).erase p) := by
    funext h'
    by_cases hh : h' = h
    · subst hh
      simp
    · rw [Function.update_of_ne hh]
      exact List.erase_of_not_mem (honly h' hh)
  rw [hls]
  refine R.relist ?_ fun q hq => R.tcbs h q (List.mem_of_mem_erase hq)
  have hmem : A.tcbNode p ∈ A.nodes k (.tasks h) := List.mem_map_of_mem hp
  rw [map_erase (R.node_inj hp)]
  exact (listDelete_ringsOn R.rings hlive hmem).1

/-! ## Reading a list -/

theorem nodup (hlive : k.live (.tasks h)) : (k.lists h).Nodup :=
  ((List.nodup_cons.mp (R.rings.ring ⟨.tasks h, hlive⟩).nodup).2).of_map _

theorem length_le (hlive : k.live (.tasks h)) : (k.lists h).length ≤ tskCbNum := by
  have hsub : k.lists h ⊆ List.range tskCbNum := fun q hq =>
    List.mem_range.mpr (R.tcbs h q hq)
  simpa using (List.subperm_of_subset (R.nodup hlive) hsub).length_le

theorem empty_iff (hlive : k.live (.tasks h)) :
    listEmpty x.heap (A.head (.tasks h)) = true ↔ k.lists h = [] := by
  rw [listEmpty_iff R.rings (h := ⟨.tasks h, hlive⟩)]
  exact List.map_eq_nil_iff

/-- `LIST_FIRST` of a list that is not empty is the link field of its first task. -/
theorem first (hlive : k.live (.tasks h)) {rest : List Nat} (hl : k.lists h = p :: rest) :
    (x.heap (A.head (.tasks h))).next = A.tcbNode p ∧
      A.getTcbPend (A.tcbNode p) = p := by
  have hring := (R.rings.ring ⟨.tasks h, hlive⟩).path
  simp only [KernelLayout.nodes, hl, List.map_cons, List.cons_append] at hring
  have hnext : (x.heap (A.head (.tasks h))).next = A.tcbNode p :=
    (List.isChain_cons_cons.mp hring).1.1
  exact ⟨hnext, A.tcbIndex_node (R.tcbs h p (by simp [hl]))⟩

/-- **Loops.** `LIST_FOR_EACH` runs its body on the tasks of the list. -/
theorem forEach {σ : Type} (hlive : k.live (.tasks h)) {fuel : Nat} (hf : tskCbNum < fuel)
    (body : σ → Nat → σ) (s : σ) :
    listForEach x.heap (A.head (.tasks h)) offsetPendList (fun s a => body s (A.tcbIndex a))
      fuel s = some ((k.lists h).foldl body s) := by
  have hlen := R.length_le hlive
  have hfuel : (A.nodes k (.tasks h)).length < fuel := by
    simp only [KernelLayout.nodes, List.length_map]
    omega
  have hr := listForEach_eq_foldl R.rings (h := ⟨.tasks h, hlive⟩) offsetPendList
    (fun s a => body s (A.tcbIndex a)) hfuel s
  rw [hr]
  simp only [KernelLayout.nodes, List.foldl_map]
  congr 1
  refine List.foldl_ext _ _ _ fun s q hq => ?_
  rw [A.tcbIndex_node (R.tcbs h q hq)]

omit R in
theorem listForEachStop_eq_seek {m : ListHeap} (listObject field : UIntPtr) (p : UIntPtr → Bool)
    (fuel : Nat) (a : UIntPtr) :
    listForEachStop m listObject field p fuel (listComponent a field) =
      (m.links.seek listObject (fun n => p (listComponent n field)) fuel a).map
        (Option.map (listComponent · field)) := by
  induction fuel generalizing a with
  | zero => rfl
  | succ fuel ih =>
    rw [listForEachStop, Links.seek, component_add_field]
    by_cases h : a = listObject
    · simp [h]
    · by_cases hp : p (listComponent a field) = true
      · simp [h, hp]
      · simp only [ne_eq, h, not_false_eq_true, ↓reduceIte, hp, Bool.false_eq_true]
        exact ih (m a).next

theorem forEachStop (hlive : k.live (.tasks h)) {fuel : Nat} (hf : tskCbNum < fuel)
    (p : Nat → Bool) :
    listForEachStop x.heap (A.head (.tasks h)) offsetPendList (fun a => p (A.tcbIndex a)) fuel
        (listComponent (x.heap (A.head (.tasks h))).next offsetPendList) =
      some (((k.lists h).find? p).map fun q => listComponent (A.tcbNode q) offsetPendList) := by
  have hlen := R.length_le hlive
  have hring := R.rings.ring ⟨.tasks h, hlive⟩
  have hfuel : (A.nodes k (.tasks h)).length < fuel := by
    simp only [KernelLayout.nodes, List.length_map]
    omega
  have hr := hring.path.seek (fun n => p (A.tcbIndex (listComponent n offsetPendList)))
    (List.nodup_cons.mp hring.nodup).1 hfuel
  rw [listForEachStop_eq_seek]
  refine (congrArg _ hr).trans ?_
  simp only [KernelLayout.nodes, List.find?_map, Option.map_some, Option.map_map]
  have hp : (k.lists h).find? ((fun n => p (A.tcbIndex (listComponent n offsetPendList))) ∘
      A.tcbNode) = (k.lists h).find? p := by
    refine List.find?_congr fun q hq => ?_
    simp only [Function.comp_apply, A.tcbIndex_node (R.tcbs h q hq)]
  rw [hp]
  rfl

end Represents

end MiniEuler
