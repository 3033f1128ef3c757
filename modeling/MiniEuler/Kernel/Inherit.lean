import Mathlib.Order.Bounds.Basic
import MiniEuler.Kernel.Mutex

/-! Priority inheritance between tasks that use semaphores as mutexes: what a
task that blocks does to the owner, what a task that posts falls back to, and
what the next owner has. -/

namespace MiniEuler
open Library

variable {k k' : Kernel} {ph : Nat → TskPhase} {s : Nat} {hist : History}

/-! ## Priorities after a pend and after a post -/

theorem priority_semPendEnter (k : Kernel) (s : Nat) :
    (semPendEnter k s).priority = k.priority := by
  funext p
  rw [Kernel.priority, semPendEnter_eq]
  by_cases h : p = k.runningTask
  · subst h; simp [pendingTcb]
  · simp [h]

/-- **Inheritance.** The owner becomes at least as urgent as the task that blocks,
and nobody else's priority changes. -/
theorem priority_osSemPendListPut (L : Linked k ph) (hr : ph k.runningTask = .ready)
    (hs : (k.allSem s).semStat = osSemUsed) (hv : (k.allSem s).semOwner ≠ osInvalidOwnerId) :
    (osSemPendListPut k s).priority (k.allSem s).semOwner ≤ k.priority k.runningTask ∧
    ∀ p, p ≠ (k.allSem s).semOwner → (osSemPendListPut k s).priority p = k.priority p := by
  have L' := L.semPendEnter hr s
  obtain ⟨hf, hsem⟩ := semPendEnter_frame (k := k) (s := s)
  have hprio := priority_semPendEnter k s
  have hinh := (inheritedPriority_le (semPendEnter k s) s k.runningTask).1
  rw [hprio] at hinh
  rw [osSemPendListPut_eq]
  rcases osPriorityInherit_cases (semPendEnter k s) s k.runningTask with ⟨h, hwhy⟩ | ⟨-, -, -, h⟩
  · rw [hsem] at hwhy
    rw [h, hprio]
    refine ⟨?_, fun p _ => rfl⟩
    obtain ⟨hle, hnu⟩ := (L.owner s hs).resolve_left hv
    rcases hwhy with ho | hu | hge
    · exact absurd ho hv
    · refine absurd hu (L'.not_tskIsUnused (by rw [hf.tskMaxNum]; exact hle) ?_)
      by_cases ho : (k.allSem s).semOwner = k.runningTask
      · rw [ho]; simp
      · simpa [ho] using hnu
    · rw [hprio] at hge
      omega
  · rw [hsem] at h
    rw [h, priority_osOwnerPrioritySet, hprio]
    refine ⟨by simpa using hinh, fun p hp => by simp [hp]⟩

theorem priority_osSemPostSchePre (L : Linked k ph) {w : Nat} {rest : List Nat}
    (hs : (k.allSem s).semStat = osSemUsed) (hl : k.semList s = w :: rest) :
    (osSemPostSchePre k s).priority = (osPriorityRestore k s).priority ∧
    (osSemPostSchePre k s).originalPriority = (osPriorityRestore k s).originalPriority := by
  rw [osSemPostSchePre_woken L hs hl]
  exact ⟨wokenKernel_priority _ s w, wokenKernel_originalPriority _ s w⟩

/-- What any accepted post does to priorities and to the other semaphores. -/
structure PostFrame (s : Nat) (k k' : Kernel) : Prop where
  priority : k'.priority = (osPriorityRestore k s).priority
  originalPriority : k'.originalPriority = k.originalPriority
  others : ∀ s', s' ≠ s → SemSame s' k k'

theorem Effect.postFrame (I : Inv k ph) {op : Op} {ret : Nat} (e : Effect k ph op k' ret)
    (ho : op.posts = some s) (hP : Posts k s) (hi : ¬ osSemPostIsInvalid k s) :
    PostFrame s k k' := by
  have L := I.linked
  have hused := I.sems.used hP.used
  have F := osPriorityRestore_prioFrame L hused
  cases e with
  | failed _ hno => exact absurd hP (hno s ho)
  | @full _ s' ho' _ hi' =>
    obtain rfl : s = s' := Option.some.inj (ho.symm.trans ho')
    exact absurd hi' hi
  | @woke _ s' ho' _ _ hl =>
    obtain rfl : s = s' := Option.some.inj (ho.symm.trans ho')
    obtain ⟨w, rest, hwr⟩ := List.exists_cons_of_ne_nil hl
    obtain ⟨hp, hop⟩ := priority_osSemPostSchePre L hused hwr
    have S := osTskSchedule_frame (osSemPostSchePre k s)
    exact ⟨S.priority.trans hp, (S.originalPriority.trans hop).trans F.originalPriority,
      fun s' hs' => (osSemPostSchePre_semSame L hused hwr hs').trans S.semSame⟩
  | @released _ s' ho' _ _ _ =>
    obtain rfl : s = s' := Option.some.inj (ho.symm.trans ho')
    refine ⟨?_, ?_, fun s' hs' => releasedKernel_semSame L hused hs'⟩ <;> rw [releasedKernel_eq]
    · rfl
    · exact F.originalPriority
  | created _ _ => cases ho
  | resumed _ => cases ho
  | semCreated hcr _ => cases op <;> simp [Op.posts, Op.creates] at ho hcr
  | took _ _ _ => cases ho
  | blocked _ => cases ho
  | unsupported _ _ => cases ho
  | exited => cases ho
  | activated _ => cases ho

/-! ## Blocking -/

/-- The tasks a waiter of `s` depends on: the owner of `s`, the owner of the
semaphore that one waits for, and so on. -/
inductive Chain (k : Kernel) (s : Nat) : Nat → Prop
  | owner : Chain k s (k.allSem s).semOwner
  | next {t s' : Nat} : Chain k s t → t ∈ k.semList s' → Chain k s (k.allSem s').semOwner

/-- A waiter that joins `s` itself adds nothing to the chain. -/
theorem chain_iff (hsem : k'.allSem = k.allSem)
    (hother : ∀ s', s' ≠ s → k'.semList s' = k.semList s')
    (hself : ∀ t ∈ k.semList s, t ∈ k'.semList s) (t : Nat) : Chain k' s t ↔ Chain k s t := by
  constructor
  · intro h
    induction h with
    | owner =>
      rw [hsem]
      exact .owner
    | @next t s' _ hm ih =>
      rw [hsem]
      by_cases hs : s' = s
      · subst hs
        exact .owner
      · rw [hother s' hs] at hm
        exact .next ih hm
  · intro h
    induction h with
    | owner =>
      rw [← hsem]
      exact .owner
    | @next t s' _ hm ih =>
      rw [← hsem]
      refine .next ih ?_
      by_cases hs : s' = s
      · subst hs
        exact hself t hm
      · rw [hother s' hs]
        exact hm

/-- The state after the running task has blocked on `s`. -/
def afterPend (k : Kernel) (s : Nat) : Kernel := (Op.semPend s osWaitForever).next k

theorem afterPend_eq (hB : Blocks k s osWaitForever) :
    afterPend k s = osTskSchedule (osSemPendListPut k s) := by
  rw [afterPend, Op.next, Op.exec]
  rcases prtSemPend_cases k s osWaitForever with
    ⟨_, _, hno, _⟩ | ⟨_, _, hpos, _⟩ | ⟨_, _, h⟩ | ⟨_, hf, _⟩
  · exact absurd hB hno
  · have := hB.empty
    omega
  · rw [h]
  · exact absurd rfl hf

/-- What a pend that blocks on a mutex does to priorities and chains. -/
theorem afterPend_spec (I : Inv k ph) (hb : bgdActive k) {evs : List (HandOff.Event Nat)}
    (M : MutexSem s evs k) (hB : Blocks k s osWaitForever) :
    (k.allSem s).semOwner ≤ k.tskMaxNum ∧
    ((afterPend k s).allSem s).semOwner = (k.allSem s).semOwner ∧
    (afterPend k s).priority (k.allSem s).semOwner ≤ k.priority k.runningTask ∧
    (∀ p, p ≠ (k.allSem s).semOwner → (afterPend k s).priority p = k.priority p) ∧
    ∀ t, Chain (afterPend k s) s t ↔ Chain k s t := by
  have L := I.linked
  have hr := (I.active hb).1
  have hused := M.refines.used
  have hv := (M.taken hB.empty).2
  have S := osTskSchedule_frame (osSemPendListPut k s)
  obtain ⟨hinh, hkeep⟩ := priority_osSemPendListPut L hr hused hv
  obtain ⟨-, hlist⟩ := blocked_semList I hb hused (by rw [M.refines.fifo]; decide)
  have hsem := (osSemPendListPut_frame L hr hused).2
  rw [afterPend_eq hB, S.priority, S.allSem, hsem]
  refine ⟨((L.owner s hused).resolve_left hv).1, rfl, hinh, hkeep, chain_iff ?_ ?_ ?_⟩
  · rw [S.allSem, hsem]
  · intro s' hs'
    exact ((osSemPendListPut_semSame L hr hused hs').trans S.semSame).list
  · intro t ht
    rw [S.semSame.list, hlist]
    exact List.mem_append_left _ ht

/-- **Inheritance reaches the owner and nobody else.** When the running task blocks
on a mutex, the owner is at least as urgent afterwards; the rest of the chain is
as urgent as the waiter exactly when it was before. -/
theorem inherit_chain_iff (r : Run kernelMachine hist k) (hm : Always MutexUse hist)
    (hw : (Op.semPend s osWaitForever).Callable k) (hB : Blocks k s osWaitForever)
    (hacyc : ¬ Chain k s k.runningTask) :
    (k.allSem s).semOwner ≤ k.tskMaxNum ∧
    ((afterPend k s).allSem s).semOwner = (k.allSem s).semOwner ∧
    (afterPend k s).priority (k.allSem s).semOwner ≤ (afterPend k s).priority k.runningTask ∧
    (∀ p, p ≠ (k.allSem s).semOwner → (afterPend k s).priority p = k.priority p) ∧
    ((∀ t, Chain (afterPend k s) s t →
        (afterPend k s).priority t ≤ (afterPend k s).priority k.runningTask) ↔
      ∀ t, Chain k s t → t ≠ (k.allSem s).semOwner →
        k.priority t ≤ k.priority k.runningTask) := by
  have rs := kernelMachine_supported r
  obtain ⟨ph, I⟩ := Inv.of_run rs
  have M : MutexSem s (semHistory s hist) k := by
    rcases AllMutex.of_run rs hm s with ⟨-, M⟩ | ⟨hun, -⟩
    · exact M
    · exact absurd hun hB.used
  obtain ⟨hle, hown, hinh, hkeep, hchain⟩ := afterPend_spec I hw.1 M hB
  have hne : k.runningTask ≠ (k.allSem s).semOwner := by
    intro h
    exact hacyc (h ▸ Chain.owner)
  rw [hkeep _ hne]
  refine ⟨hle, hown, hinh, hkeep, fun h t ht hto => ?_, fun h t ht => ?_⟩
  · rw [← hkeep t hto]
    exact h t ((hchain t).mpr ht)
  · by_cases hto : t = (k.allSem s).semOwner
    · rw [hto]
      exact hinh
    · rw [hkeep t hto]
      exact h t ((hchain t).mp ht) hto

/-- Task 0 holds semaphore 1, task 2 holds semaphore 0 and waits for 1, and task 3
is about to wait for 0. -/
def chainOps : List Op :=
  [.taskCreate { taskPrio := 30 }, .taskResume 0, .activate 0,
    .semCreate 1 false, .semCreate 1 false, .semPend 1 osWaitForever,
    .taskCreate { taskPrio := 20 }, .taskResume 2, .semPend 0 osWaitForever,
    .semPend 1 osWaitForever, .taskCreate { taskPrio := 10 }, .taskResume 3]

def chainKernel : Kernel := chainOps.foldl Op.next bootKernel

theorem chain_run : Run kernelMachine (trace Op.next bootKernel chainOps) chainKernel :=
  Run.ofList (M := kernelMachine) bootKernel_initialised chainOps (by decide +kernel)

theorem chain_blocks : Blocks chainKernel 0 osWaitForever := by
  constructor <;> decide +kernel

/-- The chain of semaphore 0 is task 2, then task 0. -/
theorem chain_members {t : Nat} (h : Chain chainKernel 0 t) : t = 2 ∨ t = 0 := by
  obtain ⟨ph, I⟩ := Inv.of_run (kernelMachine_supported chain_run)
  have P := I.linked.placed
  have h2 : 2 ∈ chainKernel.lists (.semList 1) := by decide +kernel
  have h0 : 0 ∈ chainKernel.lists .runQueue := by decide +kernel
  induction h with
  | owner => exact Or.inl (by decide +kernel)
  | @next t s' _ hm ih =>
    rcases ih with rfl | rfl
    · cases P.unique h2 hm
      exact Or.inr (by decide +kernel)
    · cases P.unique h0 hm

theorem chain_acyclic : ¬ Chain chainKernel 0 chainKernel.runningTask := by
  intro h
  rcases chain_members h with h | h <;> revert h <;> decide +kernel

/-- After task 3 has blocked, task 0 still runs at priority 20, and a task of
priority 15 would keep it, and so task 3, from running. -/
theorem chain_not_inherited :
    Run kernelMachine (trace Op.next bootKernel chainOps) chainKernel ∧
    Always MutexUse (trace Op.next bootKernel chainOps) ∧
    Blocks chainKernel 0 osWaitForever ∧ ¬ Chain chainKernel 0 chainKernel.runningTask ∧
    ¬ ∀ t, Chain (afterPend chainKernel 0) 0 t →
      (afterPend chainKernel 0).priority t ≤ chainKernel.priority chainKernel.runningTask := by
  refine ⟨chain_run, by decide +kernel, chain_blocks, chain_acyclic, fun h => ?_⟩
  have hchain : Chain (afterPend chainKernel 0) 0 ((afterPend chainKernel 0).allSem 1).semOwner :=
    .next .owner (by decide +kernel)
  exact absurd (h _ hchain) (by decide +kernel)

theorem inherit_chain_owner :
    (afterPend chainKernel 0).priority (chainKernel.allSem 0).semOwner ≤
      (afterPend chainKernel 0).priority chainKernel.runningTask :=
  (inherit_chain_iff chain_run (by decide +kernel) (by decide +kernel) chain_blocks
    chain_acyclic).2.2.1

/-! ## Posting -/

/-- The priorities of the tasks that wait for another semaphore of `t`. -/
def othersWaiting (k : Kernel) (s t : Nat) : Set Nat :=
  {x | ∃ s' w, s' ≠ s ∧ (k.allSem s').semStat = osSemUsed ∧ (k.allSem s').semOwner = t ∧
    w ∈ k.semList s' ∧ k.priority w = x}

/-- Nobody waits for another semaphore when all waiters wait for `s`. -/
theorem othersWaiting_eq_empty (L : Linked k ph) (t : Nat)
    (h : ∀ w ≤ k.tskMaxNum, (k.tskCbArray w).taskSem = none ∨
      (k.tskCbArray w).taskSem = some s) : othersWaiting k s t = ∅ := by
  refine Set.eq_empty_iff_forall_notMem.mpr ?_
  rintro x ⟨s', w, hne, -, -, hw, -⟩
  have hp := L.mem_semList.mp hw
  have hsem := L.waits w s' hp
  rcases h w (L.le_of_ne_dormant (by rw [hp]; simp)) with h' | h' <;> rw [hsem] at h'
  · cases h'
  · exact hne (Option.some.inj h')

/-- The state after the running task has posted `s`. -/
def afterPost (k : Kernel) (s : Nat) : Kernel := (Op.semPost s).next k

/-- The poster is boosted, and less urgent than some task that waits for `s`. -/
def Outranked (k : Kernel) (s : Nat) : Prop :=
  k.priority k.runningTask ≠ k.originalPriority k.runningTask ∧
    osSemFindHighestWaiterPriority k s < k.priority k.runningTask

instance (k : Kernel) (s : Nat) : Decidable (Outranked k s) :=
  inferInstanceAs (Decidable (_ ∧ _))

/-- No task that waits for another semaphore of the poster is more urgent than the
poster's own priority. A poster that is outranked takes over the priority of the
waiters of `s`, so these have to be as urgent as those others. -/
def KeepsBoost (k : Kernel) (s : Nat) : Prop :=
  (¬ Outranked k s → ∀ x ∈ othersWaiting k s k.runningTask,
    k.originalPriority k.runningTask ≤ x) ∧
  (Outranked k s → IsLeast (othersWaiting k s k.runningTask)
    (osSemFindHighestWaiterPriority k s))

/-- What the holder of a mutex finds when it posts. -/
theorem MutexSem.posts {evs : List (HandOff.Event Nat)} (I : Inv k ph) (M : MutexSem s evs k)
    (ht : HandOff.Holds k.runningTask evs) :
    Posts k s ∧ ¬ osSemPostIsInvalid k s ∧ (k.allSem s).semOwner = k.runningTask ∧
    bgdActive k := by
  obtain ⟨hzero, hown⟩ := M.owner_of_holds ht
  have hused := M.refines.used
  refine ⟨⟨?_, by rw [hused]; decide, by rw [hzero]; decide⟩,
    not_postIsInvalid M.refines.counting, hown, ?_⟩
  · by_contra hge
    have := I.sems.beyond s (by omega)
    rw [hused] at this
    cases this
  · by_contra hb
    have hle := ((I.linked.owner s hused).resolve_left (M.taken hzero).2).1
    have := (I.boot hb).1
    omega

/-- The state before a post of a mutex that the running task holds. -/
theorem holder_posts (r : Run kernelMachine hist k)
    (hm : Always MutexUse (hist ++ [(k, .semPost s)])) :
    ∃ ph, Inv k ph ∧ MutexSem s (semHistory s hist) k ∧ Posts k s ∧ ¬ osSemPostIsInvalid k s ∧
      (k.allSem s).semOwner = k.runningTask ∧ bgdActive k := by
  obtain ⟨hpast, huse⟩ := (always_snoc MutexUse hist (k, .semPost s)).mp hm
  have ht : HandOff.Holds k.runningTask (semHistory s hist) := huse
  have rs := kernelMachine_supported r
  obtain ⟨ph, I⟩ := Inv.of_run rs
  rcases AllMutex.of_run rs hpast s with ⟨-, M⟩ | ⟨-, hnil⟩
  · exact ⟨ph, I, M, M.posts I ht⟩
  · rw [hnil] at ht
    cases ht

/-- A post changes no priority but the poster's. -/
theorem priority_osPriorityRestore (I : Inv k ph) (hb : bgdActive k)
    (hown : (k.allSem s).semOwner = k.runningTask) :
    (osPriorityRestore k s).priority = Function.update k.priority k.runningTask
      (if k.priority k.runningTask = k.originalPriority k.runningTask then
        k.originalPriority k.runningTask
      else if osSemFindHighestWaiterPriority k s < k.priority k.runningTask then
        osSemFindHighestWaiterPriority k s
      else k.originalPriority k.runningTask) := by
  have hle := I.running_le hb
  have hsmall := I.small
  have hcases := osPriorityRestore_cases k s
  simp only [hown] at hcases
  rcases hcases with ⟨h, hv | hu | heq⟩ | ⟨-, -, hne, h⟩
  · omega
  · exact absurd hu (I.linked.not_tskIsUnused hle (by rw [(I.active hb).1]; decide))
  · rw [h, if_pos heq, ← heq]
    exact (Function.update_eq_self _ _).symm
  · rw [h, priority_osOwnerPrioritySet, if_neg hne, restoredPriority, hown]

theorem priority_afterPost_waiter (I : Inv k ph) (hb : bgdActive k) (F : PostFrame s k k')
    (hown : (k.allSem s).semOwner = k.runningTask) {w s' : Nat} (hw : w ∈ k.semList s') :
    k'.priority w = k.priority w := by
  have hne : w ≠ k.runningTask := by
    rintro rfl
    have := I.linked.mem_semList.mp hw
    rw [(I.active hb).1] at this
    cases this
  rw [F.priority, priority_osPriorityRestore I hb hown, Function.update_of_ne hne]

theorem othersWaiting_afterPost (I : Inv k ph) (hb : bgdActive k) (F : PostFrame s k k')
    (hown : (k.allSem s).semOwner = k.runningTask) :
    othersWaiting k' s k.runningTask = othersWaiting k s k.runningTask := by
  have hwait := fun w s' (hw : w ∈ k.semList s') => priority_afterPost_waiter I hb F hown hw
  ext x
  constructor
  · rintro ⟨s', w, hne, hu, ho, hw, hx⟩
    have O := F.others s' hne
    rw [O.sem] at hu ho
    rw [O.list] at hw
    exact ⟨s', w, hne, hu, ho, hw, by rw [← hwait w s' hw, hx]⟩
  · rintro ⟨s', w, hne, hu, ho, hw, hx⟩
    have O := F.others s' hne
    exact ⟨s', w, hne, by rw [O.sem, hu], by rw [O.sem, ho], by rw [O.list]; exact hw,
      by rw [hwait w s' hw, hx]⟩

/-- **The poster falls back to the right priority exactly when `KeepsBoost` holds.** -/
theorem restore_exact_iff (r : Run kernelMachine hist k)
    (hm : Always MutexUse (hist ++ [(k, .semPost s)])) :
    IsLeast (insert ((afterPost k s).originalPriority k.runningTask)
        (othersWaiting (afterPost k s) s k.runningTask))
      ((afterPost k s).priority k.runningTask) ↔ KeepsBoost k s := by
  obtain ⟨ph, I, -, hP, hi, hown, hb⟩ := holder_posts r hm
  have F := ((Op.semPost s).effect I.linked I.lock trivial).postFrame I rfl hP hi
  change PostFrame s k (afterPost k s) at F
  have hboost := (I.linked.boost _ (I.running_le hb)).1
  rw [F.originalPriority, othersWaiting_afterPost I hb F hown,
    F.priority.trans (priority_osPriorityRestore I hb hown), Function.update_self, KeepsBoost]
  have hself : IsLeast (insert (k.originalPriority k.runningTask)
        (othersWaiting k s k.runningTask)) (k.originalPriority k.runningTask) ↔
      ∀ x ∈ othersWaiting k s k.runningTask, k.originalPriority k.runningTask ≤ x := by
    constructor
    · exact fun h x hx => h.2 (Set.mem_insert_of_mem _ hx)
    · intro h
      refine ⟨Set.mem_insert _ _, ?_⟩
      rintro x (rfl | hx)
      · exact Nat.le_refl _
      · exact h x hx
  by_cases heq : k.priority k.runningTask = k.originalPriority k.runningTask
  · have hout : ¬ Outranked k s := fun h => h.1 heq
    rw [if_pos heq, hself]
    exact ⟨fun h => ⟨fun _ => h, fun h' => absurd h' hout⟩, fun h => h.1 hout⟩
  by_cases hlt : osSemFindHighestWaiterPriority k s < k.priority k.runningTask
  · have hout : Outranked k s := ⟨heq, hlt⟩
    rw [if_neg heq, if_pos hlt]
    constructor
    · rintro ⟨hmem, hlow⟩
      refine ⟨fun h => absurd hout h, fun _ => ⟨?_, fun x hx => hlow (Set.mem_insert_of_mem _ hx)⟩⟩
      rcases hmem with h | h
      · omega
      · exact h
    · intro h
      obtain ⟨hmem, hlow⟩ := h.2 hout
      refine ⟨Set.mem_insert_of_mem _ hmem, ?_⟩
      rintro x (rfl | hx)
      · omega
      · exact hlow hx
  · have hout : ¬ Outranked k s := fun h => hlt h.2
    rw [if_neg heq, if_neg hlt, hself]
    exact ⟨fun h => ⟨fun _ => h, fun h' => absurd h' hout⟩, fun h => h.1 hout⟩

/-- Task 0 holds both semaphores, and task 2 of priority 5 waits for semaphore 0. -/
def nestedOps : List Op := demotionOps.take 12

def nestedKernel : Kernel := nestedOps.foldl Op.next bootKernel

theorem nested_run :
    Run kernelMachine (trace Op.next bootKernel nestedOps) nestedKernel :=
  Run.ofList (M := kernelMachine) bootKernel_initialised nestedOps (by decide +kernel)

/-- When task 0 posts semaphore 1 its boost is gone, and task 2 still waits. -/
theorem nested_boost_lost : Run kernelMachine (trace Op.next bootKernel nestedOps)
      nestedKernel ∧
    Always MutexUse (trace Op.next bootKernel nestedOps ++
      [(nestedKernel, .semPost 1)]) ∧
    ¬ IsLeast (insert ((afterPost nestedKernel 1).originalPriority nestedKernel.runningTask)
        (othersWaiting (afterPost nestedKernel 1) 1 nestedKernel.runningTask))
      ((afterPost nestedKernel 1).priority nestedKernel.runningTask) := by
  refine ⟨nested_run, by decide +kernel, fun h => ?_⟩
  have hmem : 5 ∈ othersWaiting (afterPost nestedKernel 1) 1 nestedKernel.runningTask := by
    refine ⟨0, 2, ?_⟩
    decide +kernel
  exact absurd (h.2 (Set.mem_insert_of_mem _ hmem)) (by decide +kernel)

theorem nested_keepsBoost : KeepsBoost nestedKernel 0 := by
  obtain ⟨ph, I⟩ := Inv.of_run (kernelMachine_supported nested_run)
  have hkept : ¬ Outranked nestedKernel 0 := by decide +kernel
  refine ⟨fun _ => ?_, fun h => absurd h hkept⟩
  rw [othersWaiting_eq_empty I.linked _ (by decide +kernel)]
  simp

/-- When it posts semaphore 0 instead, priority 15 is right. -/
theorem nested_restored :
    IsLeast (insert ((afterPost nestedKernel 0).originalPriority nestedKernel.runningTask)
        (othersWaiting (afterPost nestedKernel 0) 0 nestedKernel.runningTask))
      ((afterPost nestedKernel 0).priority nestedKernel.runningTask) :=
  (restore_exact_iff nested_run (by decide +kernel)).mpr nested_keepsBoost

/-! ## Handing over -/

/-- **The next owner is urgent enough for those still waiting exactly when the first
waiter is the most urgent one.** -/
theorem handover_iff (r : Run kernelMachine hist k)
    (hm : Always MutexUse (hist ++ [(k, .semPost s)])) {w : Nat} {rest : List Nat}
    (hl : k.semList s = w :: rest) :
    ((afterPost k s).allSem s).semOwner = w ∧ (afterPost k s).semList s = rest ∧
    ((∀ x ∈ (afterPost k s).semList s,
        (afterPost k s).priority ((afterPost k s).allSem s).semOwner ≤
          (afterPost k s).priority x) ↔
      ∀ x ∈ rest, k.priority w ≤ k.priority x) := by
  obtain ⟨ph, I, M, hP, hi, hown, hb⟩ := holder_posts r hm
  have e := (Op.semPost s).effect I.linked I.lock trivial
  have F := e.postFrame I rfl hP hi
  change PostFrame s k (afterPost k s) at F
  have hprio : ∀ x ∈ k.semList s, (afterPost k s).priority x = k.priority x :=
    fun x hx => priority_afterPost_waiter I hb F hown hx
  have hafter : ((afterPost k s).allSem s).semOwner = w ∧ (afterPost k s).semList s = rest := by
    cases M.refines.semEffect I e trivial (fun h => h) with
    | same _ _ hno => exact absurd (prtSemPost_ret hP) (hno rfl)
    | took ho _ _ _ _ _ => cases ho
    | blocked ho _ _ _ _ => cases ho
    | woke _ _ hwr _ hsem hlist _ _ =>
      obtain ⟨rfl, rfl⟩ := List.cons.inj (hl.symm.trans hwr)
      exact ⟨by rw [afterPost, hsem], hlist⟩
    | released _ _ _ hnil _ _ _ =>
      rw [hl] at hnil
      cases hnil
  obtain ⟨how, hlist⟩ := hafter
  refine ⟨how, hlist, ?_⟩
  rw [how, hlist, hprio w (by simp [hl])]
  have hrest : ∀ x ∈ rest, (afterPost k s).priority x = k.priority x :=
    fun x hx => hprio x (by simp [hl, hx])
  constructor
  · intro h x hx
    rw [← hrest x hx]
    exact h x hx
  · intro h x hx
    rw [hrest x hx]
    exact h x hx

/-- Task 0 holds a semaphore for which task 2 of priority 20 waits, and then task 3
of priority 10. -/
def handoverOps : List Op :=
  [.taskCreate { taskPrio := 30 }, .taskResume 0, .activate 0, .semCreate 1 false,
    .semPend 0 osWaitForever, .taskCreate { taskPrio := 20 }, .taskResume 2,
    .semPend 0 osWaitForever, .taskCreate { taskPrio := 10 }, .taskResume 3,
    .semPend 0 osWaitForever]

def handoverKernel : Kernel := handoverOps.foldl Op.next bootKernel

theorem handover_run : Run kernelMachine (trace Op.next bootKernel handoverOps) handoverKernel :=
  Run.ofList (M := kernelMachine) bootKernel_initialised handoverOps (by decide +kernel)

/-- Task 2 gets the semaphore and keeps priority 20, with task 3 still waiting. -/
theorem handover_inverts :
    Run kernelMachine (trace Op.next bootKernel handoverOps) handoverKernel ∧
    Always MutexUse (trace Op.next bootKernel handoverOps ++ [(handoverKernel, .semPost 0)]) ∧
    handoverKernel.semList 0 = [2, 3] ∧
    ¬ ∀ x ∈ (afterPost handoverKernel 0).semList 0,
      (afterPost handoverKernel 0).priority ((afterPost handoverKernel 0).allSem 0).semOwner ≤
        (afterPost handoverKernel 0).priority x :=
  ⟨handover_run, by decide +kernel, by decide +kernel, by decide +kernel⟩

theorem handover_owner : ((afterPost handoverKernel 0).allSem 0).semOwner = 2 :=
  (handover_iff handover_run (by decide +kernel)
    (show handoverKernel.semList 0 = [2, 3] by decide +kernel)).1

end MiniEuler
