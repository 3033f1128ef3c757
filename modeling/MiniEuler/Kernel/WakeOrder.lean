import Mathlib.Data.Prod.Lex
import MiniEuler.Library.KeyOrder
import MiniEuler.Kernel.Inherit

/-! The wait list of a semaphore of mode `.prior`. A task enters it where its priority
belongs; a priority written later may put it out of place. -/

namespace MiniEuler
open Library

variable {k k' : Kernel} {ph : Nat → TskPhase} {s : Nat} {hist : History}

/-- A semaphore made by `OsSemCreate` with `SEM_MODE_PRIOR`. -/
structure PriorSem (k : Kernel) (s : Nat) : Prop where
  used : (k.allSem s).semStat = osSemUsed
  prior : (k.allSem s).semMode = .prior

/-! ## What a call does to waiters -/

instance (k : Kernel) (s timeout : Nat) : Decidable (Blocks k s timeout) :=
  decidable_of_iff
    (s < k.maxSem ∧ (k.allSem s).semStat ≠ osSemUnused ∧ ¬ osIntActive k ∧
      (k.allSem s).semCount = 0 ∧ timeout ≠ osNoWait ∧ k.uniTaskLock = 0)
    ⟨fun ⟨h₁, h₂, h₃, h₄, h₅, h₆⟩ => ⟨h₁, h₂, h₃, h₄, h₅, h₆⟩,
      fun ⟨h₁, h₂, h₃, h₄, h₅, h₆⟩ => ⟨h₁, h₂, h₃, h₄, h₅, h₆⟩⟩

instance (k : Kernel) (s : Nat) : Decidable (Posts k s) :=
  decidable_of_iff
    (s < k.maxSem ∧ (k.allSem s).semStat ≠ osSemUnused ∧ (k.allSem s).semCount < osSemCountMax)
    ⟨fun ⟨h₁, h₂, h₃⟩ => ⟨h₁, h₂, h₃⟩, fun ⟨h₁, h₂, h₃⟩ => ⟨h₁, h₂, h₃⟩⟩

/-- The priorities after `OsPriorityInherit`, when the running task blocks on `s`. -/
def inheritPriority (k : Kernel) (s : Nat) : Nat → Nat :=
  let owner := (k.allSem s).semOwner
  let highestWaiterPrio := min (k.priority k.runningTask) (osSemFindHighestWaiterPriority k s)
  if owner = osInvalidOwnerId ∨ tskIsUnused k owner ∨ k.priority owner ≤ highestWaiterPrio then
    k.priority
  else Function.update k.priority owner highestWaiterPrio

/-- The priorities after `OsPriorityRestore`, when `s` is posted. -/
def restorePriority (k : Kernel) (s : Nat) : Nat → Nat :=
  let owner := (k.allSem s).semOwner
  if owner = osInvalidOwnerId ∨ tskIsUnused k owner ∨
      k.priority owner = k.originalPriority owner then k.priority
  else Function.update k.priority owner (restoredPriority k s)

/-- The priorities of the waiting tasks after a call. -/
def Op.newPriority (k : Kernel) : Op → Nat → Nat
  | .semPend s timeout => if Blocks k s timeout then inheritPriority k s else k.priority
  | .semPost s | .uartPost s =>
    if Posts k s ∧ ¬ osSemPostIsInvalid k s then restorePriority k s else k.priority
  | _ => k.priority

/-- The running task blocks on `s`. -/
def Op.BlocksOn (k : Kernel) (s : Nat) : Op → Prop
  | .semPend s' timeout => s' = s ∧ Blocks k s' timeout
  | _ => False

instance (k : Kernel) (s : Nat) (op : Op) : Decidable (op.BlocksOn k s) :=
  match op with
  | .semPend _ _ => inferInstanceAs (Decidable (_ ∧ _))
  | .taskCreate _ | .taskResume _ | .semCreate _ _ | .osSemCreate _ _ _ _ | .semPost _
  | .uartPost _ | .taskExit | .activate _ => inferInstanceAs (Decidable False)

/-- The call is a post that takes task `p` off the wait list of `s`. -/
def Op.Wakes (k : Kernel) (s p : Nat) (op : Op) : Prop :=
  op.posts = some s ∧ Posts k s ∧ ¬ osSemPostIsInvalid k s ∧ (k.semList s).head? = some p

instance (k : Kernel) (s p : Nat) (op : Op) : Decidable (op.Wakes k s p) :=
  inferInstanceAs (Decidable (_ ∧ _))

/-- Task `p` waits for `s` after the call. -/
def Op.WaitsAfter (k : Kernel) (s p : Nat) (op : Op) : Prop :=
  (p ∈ k.semList s ∧ ¬ op.Wakes k s p) ∨ (op.BlocksOn k s ∧ p = k.runningTask)

instance (k : Kernel) (s p : Nat) (op : Op) : Decidable (op.WaitsAfter k s p) :=
  inferInstanceAs (Decidable (_ ∨ _))

/-! ## The order of waiting -/

/-- The number of calls so far, and that of the call with which each task last blocked
on `s`. -/
def stamps (s : Nat) (hist : History) : Nat × (Nat → Nat) :=
  hist.foldl (fun t e => (t.1 + 1,
    if e.2.BlocksOn e.1 s then Function.update t.2 e.1.runningTask (t.1 + 1) else t.2))
    (0, fun _ => 0)

def blockedAt (s : Nat) (hist : History) : Nat → Nat := (stamps s hist).2

/-- The rank of a waiter: its priority first, then the time at which it blocked. -/
def waitKey (prio time : Nat → Nat) (p : Nat) : Nat ×ₗ Nat := toLex (prio p, time p)

/-- The wait list of `s` stands in the order of priority, tasks of equal priority in the
order in which they blocked. -/
def WaitOrdered (s : Nat) (hist : History) (k : Kernel) : Prop :=
  KeyOrdered (waitKey k.priority (blockedAt s hist)) (k.semList s)

/-- A priority that the call writes makes a waiter of `s` pass another. -/
def Overtakes (s : Nat) (hist : History) (k : Kernel) (op : Op) : Prop :=
  ∃ a b, op.WaitsAfter k s a ∧ op.WaitsAfter k s b ∧
    waitKey k.priority (blockedAt s (hist ++ [(k, op)])) a <
      waitKey k.priority (blockedAt s (hist ++ [(k, op)])) b ∧
    ¬ waitKey (op.newPriority k) (blockedAt s (hist ++ [(k, op)])) a <
      waitKey (op.newPriority k) (blockedAt s (hist ++ [(k, op)])) b

theorem stamps_snoc (s : Nat) (hist : History) (k : Kernel) (op : Op) :
    stamps s (hist ++ [(k, op)]) = ((stamps s hist).1 + 1,
      if op.BlocksOn k s then
        Function.update (stamps s hist).2 k.runningTask ((stamps s hist).1 + 1)
      else (stamps s hist).2) := by
  simp [stamps, List.foldl_append]

theorem stamps_le (s : Nat) (hist : History) (p : Nat) :
    (stamps s hist).2 p ≤ (stamps s hist).1 := by
  induction hist using List.reverseRecOn with
  | nil => simp [stamps]
  | append_singleton hist e ih =>
    obtain ⟨k, op⟩ := e
    rw [stamps_snoc]
    dsimp only
    split
    · by_cases hp : p = k.runningTask
      · subst hp
        simp
      · rw [Function.update_of_ne hp]
        omega
    · omega

theorem blockedAt_other {op : Op} (h : ¬ op.BlocksOn k s) :
    blockedAt s (hist ++ [(k, op)]) = blockedAt s hist := by
  rw [blockedAt, stamps_snoc, if_neg h]
  rfl

/-- The task that blocks now has waited for less time than any other. -/
theorem blockedAt_blocks (hist : History) {op : Op} (h : op.BlocksOn k s) :
    (∀ p, p ≠ k.runningTask → blockedAt s (hist ++ [(k, op)]) p = blockedAt s hist p) ∧
    ∀ p, p ≠ k.runningTask → blockedAt s (hist ++ [(k, op)]) p <
      blockedAt s (hist ++ [(k, op)]) k.runningTask := by
  have hold : ∀ p, p ≠ k.runningTask →
      blockedAt s (hist ++ [(k, op)]) p = blockedAt s hist p := by
    intro p hp
    rw [blockedAt, stamps_snoc, if_pos h]
    exact Function.update_of_ne hp _ _
  refine ⟨hold, fun p hp => ?_⟩
  rw [hold p hp, blockedAt, blockedAt, stamps_snoc, if_pos h]
  simp only [Function.update_self]
  have := stamps_le s hist p
  omega

/-! ## Priorities after a call -/

/-- The caller is on the list when `OsPriorityInherit` searches it. -/
theorem inheritedPriority_semPendEnter (L : Linked k ph) (hr : ph k.runningTask = .ready)
    (s : Nat) : inheritedPriority (semPendEnter k s) s k.runningTask =
      min (k.priority k.runningTask) (osSemFindHighestWaiterPriority k s) := by
  have L' := L.semPendEnter hr s
  have hmem : ∀ t, t ∈ (semPendEnter k s).semList s ↔ t ∈ k.semList s ∨ t = k.runningTask := by
    intro t
    rw [L'.mem_semList, L.mem_semList]
    by_cases ht : t = k.runningTask
    · simp [ht]
    · simp [ht]
  obtain ⟨hle, hall, hone⟩ := osSemFindHighestWaiterPriority_spec k s
  obtain ⟨hle', hall', hone'⟩ := osSemFindHighestWaiterPriority_spec (semPendEnter k s) s
  rw [priority_semPendEnter] at hall' hone'
  have hrun := hall' _ ((hmem _).mpr (Or.inr rfl))
  have hdown : osSemFindHighestWaiterPriority (semPendEnter k s) s ≤
      osSemFindHighestWaiterPriority k s := by
    rcases hone with h | ⟨t, ht, h⟩
    · rw [h]
      exact hle'
    · rw [h]
      exact hall' t ((hmem t).mpr (Or.inl ht))
  have hup : min (k.priority k.runningTask) (osSemFindHighestWaiterPriority k s) ≤
      osSemFindHighestWaiterPriority (semPendEnter k s) s := by
    rcases hone' with h | ⟨t, ht, h⟩
    · omega
    · rw [h]
      rcases (hmem t).mp ht with ht | rfl
      · have := hall t ht
        omega
      · omega
  rw [inheritedPriority, priority_semPendEnter]
  split <;> omega

theorem priority_blocked (L : Linked k ph) (hr : ph k.runningTask = .ready)
    (hs : (k.allSem s).semStat = osSemUsed) :
    (osSemPendListPut k s).priority = inheritPriority k s := by
  obtain ⟨hf, hsem⟩ := semPendEnter_frame (k := k) (s := s)
  have hcases := osPriorityInherit_cases (semPendEnter k s) s k.runningTask
  rw [hsem, priority_semPendEnter, inheritedPriority_semPendEnter L hr] at hcases
  rw [osSemPendListPut_eq, inheritPriority]
  by_cases hv : (k.allSem s).semOwner = osInvalidOwnerId
  · rcases hcases with ⟨h, -⟩ | ⟨h, -⟩
    · rw [h, priority_semPendEnter, if_pos (Or.inl hv)]
    · exact absurd hv h
  obtain ⟨hle, hnu⟩ := (L.owner s hs).resolve_left hv
  have hu : ¬ tskIsUnused k (k.allSem s).semOwner := L.not_tskIsUnused hle hnu
  have hu' : ¬ tskIsUnused (semPendEnter k s) (k.allSem s).semOwner := by
    refine (L.semPendEnter hr s).not_tskIsUnused (by rw [hf.tskMaxNum]; exact hle) ?_
    by_cases ho : (k.allSem s).semOwner = k.runningTask
    · rw [ho]
      simp
    · simpa [ho] using hnu
  rcases hcases with ⟨h, hwhy⟩ | ⟨-, -, hlt, h⟩
  · have hge := (hwhy.resolve_left hv).resolve_left hu'
    rw [h, priority_semPendEnter, if_pos (Or.inr (Or.inr hge))]
  · rw [h, priority_osOwnerPrioritySet, priority_semPendEnter, if_neg]
    rintro (h | h | h)
    · exact hv h
    · exact hu h
    · omega

theorem priority_restored (k : Kernel) (s : Nat) :
    (osPriorityRestore k s).priority = restorePriority k s := by
  rw [restorePriority]
  rcases osPriorityRestore_cases k s with ⟨h, hwhy⟩ | ⟨hv, hu, hne, h⟩
  · rw [h]
    exact (if_pos hwhy).symm
  · rw [h, priority_osOwnerPrioritySet]
    refine (if_neg ?_).symm
    rintro (h | h | h)
    · exact hv h
    · exact hu h
    · exact hne h

theorem priority_resumedKernel (k : Kernel) (p : Nat) :
    (resumedKernel k p).priority = k.priority := by
  have h : (resumedKernel k p).tskCbArray = Function.update k.tskCbArray p
      ((resumedKernel k p).tskCbArray p) := by
    rw [resumedKernel, osTskReadyAdd_eq]
    simp [tskStatusClear, Kernel.setTcb]
  funext q
  rw [Kernel.priority, h]
  by_cases hq : q = p
  · subst hq
    rw [Function.update_self, resumedKernel, osTskReadyAdd_eq]
    simp [tskStatusClear, Kernel.setTcb]
  · rw [Function.update_of_ne hq]

theorem priority_osTskReadyDel (k : Kernel) (p : Nat) :
    (osTskReadyDel k p).priority = k.priority := by
  funext q
  rw [Kernel.priority, osTskReadyDel_eq]
  by_cases hq : q = p
  · subst hq
    simp
  · simp [hq]

theorem Op.newPriority_post {op : Op} {s' : Nat} (h : op.posts = some s') :
    op.newPriority k =
      if Posts k s' ∧ ¬ osSemPostIsInvalid k s' then restorePriority k s' else k.priority := by
  cases op <;> cases h <;> rfl

theorem Op.newPriority_other {op : Op} (hpost : op.posts = none)
    (hpend : ∀ s' timeout, op ≠ .semPend s' timeout) : op.newPriority k = k.priority := by
  cases op with
  | semPend s' timeout => exact absurd rfl (hpend s' timeout)
  | semPost s' => cases hpost
  | uartPost s' => cases hpost
  | _ => rfl

/-- Calls other than pends write the priorities that `Op.newPriority` says. -/
theorem Effect.priority_waiter (I : Inv k ph) {op : Op} {ret : Nat} (e : Effect k ph op k' ret)
    (hc : op.Callable k) (hpend : ∀ s' timeout, op ≠ .semPend s' timeout) {p : Nat}
    (hp : p ∈ k.semList s) : k'.priority p = op.newPriority k p := by
  have hph := I.linked.mem_semList.mp hp
  cases hpost : op.posts with
  | some s' =>
    rw [Op.newPriority_post hpost]
    by_cases hP : Posts k s' ∧ ¬ osSemPostIsInvalid k s'
    · rw [if_pos hP, (e.postFrame I hpost hP.1 hP.2).priority, priority_restored]
    rw [if_neg hP]
    cases e with
    | failed _ _ => rfl
    | full _ _ _ => rfl
    | woke ho hP' hi _ => exact absurd (Option.some.inj (hpost.symm.trans ho) ▸ ⟨hP', hi⟩) hP
    | released ho hP' hi _ => exact absurd (Option.some.inj (hpost.symm.trans ho) ▸ ⟨hP', hi⟩) hP
    | semCreated ho _ => cases op <;> simp [Op.posts, Op.creates] at ho hpost
    | created _ _ => cases hpost
    | resumed _ => cases hpost
    | took _ _ _ => cases hpost
    | blocked _ => cases hpost
    | unsupported _ _ => cases hpost
    | exited => cases hpost
    | activated _ => cases hpost
  | none =>
    rw [Op.newPriority_other hpost hpend]
    cases e with
    | failed _ _ => rfl
    | @created _ cb rest t used hl hcr =>
      have hu : ph cb = .unused := I.linked.mem_tskCbFreeList.mp (by simp [hl])
      have hne : p ≠ cb := by
        rintro rfl
        rw [hu] at hph
        cases hph
      simp [Kernel.priority, createdKernel, hne]
    | resumed _ =>
      split
      · rw [(osTskSchedule_frame _).priority, priority_resumedKernel]
      · rw [priority_resumedKernel]
    | semCreated _ _ => rfl
    | took _ _ _ => exact absurd rfl (hpend _ _)
    | blocked _ => exact absurd rfl (hpend _ _)
    | unsupported _ _ => exact absurd rfl (hpend _ _)
    | full _ _ _ => rfl
    | woke ho _ _ _ => rw [hpost] at ho; cases ho
    | released ho _ _ _ => rw [hpost] at ho; cases ho
    | exited =>
      rw [osTskEntryReturn_eq I.lock, (osTskSchedule_frame _).priority, priority_osTskReadyDel]
    | activated _ => exact absurd hph ((I.boot hc.1).2 p s)

/-! ## The list after a call -/

theorem waitKey_lt {prio time : Nat → Nat} {a b : Nat} :
    waitKey prio time a < waitKey prio time b ↔
      prio a < prio b ∨ prio a = prio b ∧ time a < time b := by
  simp [waitKey, Prod.Lex.toLex_lt_toLex]

/-- What `semPendEnter` has done when it searches the list. -/
def leftRunQueue (k : Kernel) (s : Nat) : Kernel :=
  let k₁ := osTskReadyDel k k.runningTask
  let k₂ := k₁.setTcb k.runningTask { k₁.tskCbArray k.runningTask with taskSem := some s }
  tskStatusSet k₂ k.runningTask osTskPend

theorem priority_leftRunQueue (k : Kernel) (s : Nat) :
    (leftRunQueue k s).priority = k.priority := by
  rw [leftRunQueue, tskStatusSet, priority_setTcb_taskStatus]
  funext q
  rw [← priority_osTskReadyDel k k.runningTask]
  by_cases hq : q = k.runningTask
  · subst hq
    simp [Kernel.priority, Kernel.setTcb]
  · simp [Kernel.priority, Kernel.setTcb, hq]

/-- Where `OsSemPendListPut` links the running task. -/
theorem semPendEnter_semList_prior (L : Linked k ph) (hr : ph k.runningTask = .ready)
    (hm : (k.allSem s).semMode = .prior) :
    (semPendEnter k s).semList s =
      match (k.semList s).find? (fun cur => k.priority cur > k.priority k.runningTask) with
      | some cur => NodeLists.insertBefore k.runningTask cur (k.semList s)
      | none => k.semList s ++ [k.runningTask] := by
  have hlists : (leftRunQueue k s).lists = k.lists.delete k.runningTask := by
    simp only [leftRunQueue, osTskReadyDel_eq]
    rfl
  have hdel : (leftRunQueue k s).lists (.semList s) = k.semList s := by
    rw [hlists]
    exact L.placed.delete_other (by simp [hr, TskPhase.home])
  have hmode : ((leftRunQueue k s).allSem s).semMode = .prior := by
    rw [← hm]
    simp only [leftRunQueue, osTskReadyDel_eq]
    rfl
  change { leftRunQueue k s with lists :=
    match if ((leftRunQueue k s).allSem s).semMode = SemMode.prior then
        ((leftRunQueue k s).semList s).find? (fun cur =>
          (leftRunQueue k s).priority cur > (leftRunQueue k s).priority k.runningTask)
      else none with
    | some cur => (leftRunQueue k s).lists.addBefore k.runningTask cur
    | none => (leftRunQueue k s).lists.tailAdd k.runningTask (.semList s) }.semList s = _
  rw [if_pos hmode, priority_leftRunQueue, Kernel.semList, Kernel.semList, hdel]
  cases (k.semList s).find? (fun cur => k.priority cur > k.priority k.runningTask) with
  | some cur =>
    simp only [NodeLists.addBefore]
    rw [hdel]
  | none =>
    simp only [NodeLists.tailAdd_self]
    rw [hdel]

/-- What a call does to the wait list of `s`. -/
structure WaitStep (s : Nat) (hist : History) (k : Kernel) (op : Op) (k' : Kernel) : Prop where
  mem : ∀ p, p ∈ k'.semList s ↔ op.WaitsAfter k s p
  priority : ∀ p ∈ k'.semList s, k'.priority p = op.newPriority k p
  order : WaitOrdered s hist k →
    KeyOrdered (waitKey k.priority (blockedAt s (hist ++ [(k, op)]))) (k'.semList s)

/-- A list in order stays so exactly when no waiter overtakes another. -/
theorem WaitStep.stays_ordered_iff {op : Op} (W : WaitStep s hist k op k')
    (h : WaitOrdered s hist k) :
    WaitOrdered s (hist ++ [(k, op)]) k' ↔ ¬ Overtakes s hist k op := by
  have hkey : ∀ p ∈ k'.semList s, waitKey k'.priority (blockedAt s (hist ++ [(k, op)])) p =
      waitKey (op.newPriority k) (blockedAt s (hist ++ [(k, op)])) p := by
    intro p hp
    rw [waitKey, waitKey, W.priority p hp]
  have hnew : WaitOrdered s (hist ++ [(k, op)]) k' ↔
      KeyOrdered (waitKey (op.newPriority k) (blockedAt s (hist ++ [(k, op)])))
        (k'.semList s) :=
    ⟨fun h => h.congr fun p hp => (hkey p hp).symm, fun h => h.congr hkey⟩
  rw [hnew, (W.order h).rekey_iff]
  constructor
  · rintro hall ⟨a, b, ha, hb, hold, hpass⟩
    exact hpass (hall a ((W.mem a).mpr ha) b ((W.mem b).mpr hb) hold)
  · intro hno a ha b hb hold
    by_contra hpass
    exact hno ⟨a, b, (W.mem a).mp ha, (W.mem b).mp hb, hold, hpass⟩

/-- A call that neither adds nor removes a waiter. -/
theorem WaitStep.same {op : Op} (hl : k'.semList s = k.semList s)
    (hp : ∀ p ∈ k.semList s, k'.priority p = op.newPriority k p)
    (hb : ¬ op.BlocksOn k s) (hw : ∀ p, ¬ op.Wakes k s p) : WaitStep s hist k op k' := by
  refine ⟨fun p => ?_, fun p hm => hp p (hl ▸ hm), fun h => ?_⟩
  · rw [hl]
    constructor
    · exact fun h => Or.inl ⟨h, hw p⟩
    · rintro (h | h)
      · exact h.1
      · exact absurd h.1 hb
  · rw [hl, blockedAt_other hb]
    exact h

/-- A post takes the first waiter off the list. -/
theorem WaitStep.woke {op : Op} {w : Nat} {rest : List Nat} (hl : k.semList s = w :: rest)
    (hnd : (k.semList s).Nodup) (hl' : k'.semList s = rest)
    (hp : ∀ p ∈ k.semList s, k'.priority p = op.newPriority k p)
    (hb : ¬ op.BlocksOn k s) (hw : op.Wakes k s w) : WaitStep s hist k op k' := by
  rw [hl] at hnd hp
  have hone : ∀ p, op.Wakes k s p ↔ p = w := by
    intro p
    constructor
    · intro h
      have := h.2.2.2
      rw [hl] at this
      exact (Option.some.inj this).symm
    · rintro rfl
      exact hw
  refine ⟨fun p => ?_, fun p hm => hp p (List.mem_cons_of_mem _ (hl' ▸ hm)), fun h => ?_⟩
  · rw [hl', Op.WaitsAfter, hone, hl, List.mem_cons]
    constructor
    · intro h
      exact Or.inl ⟨Or.inr h, fun he => (List.nodup_cons.mp hnd).1 (he ▸ h)⟩
    · rintro (⟨h, hne⟩ | h)
      · exact h.resolve_left hne
      · exact absurd h.1 hb
  · rw [WaitOrdered, hl] at h
    rw [hl', blockedAt_other hb]
    exact h.tail

/-- **Insertion.** The running task enters the list where its priority belongs. -/
theorem WaitStep.blocked (I : Inv k ph) (hb : bgdActive k) (hm : (k.allSem s).semMode = .prior)
    (hB : Blocks k s osWaitForever) :
    WaitStep s hist k (.semPend s osWaitForever) (osTskSchedule (osSemPendListPut k s)) := by
  have L := I.linked
  have hr := (I.active hb).1
  have hs := I.sems.used hB.used
  have hon : (Op.semPend s osWaitForever).BlocksOn k s := ⟨rfl, hB⟩
  have hnr : k.runningTask ∉ k.semList s := by
    rw [L.mem_semList, hr]
    simp
  have hsched := osTskSchedule_frame (osSemPendListPut k s)
  have hF := osPriorityInherit_prioFrame (L.semPendEnter hr s) (s := s)
    (by rw [semPendEnter_frame.2]; exact hs) k.runningTask
  have hlist : (osTskSchedule (osSemPendListPut k s)).semList s = (semPendEnter k s).semList s := by
    rw [hsched.semSame.list, osSemPendListPut_eq]
    exact hF.lists _ (by simp)
  obtain ⟨hold, hlast⟩ := blockedAt_blocks hist hon
  refine ⟨fun p => ?_, fun p _ => ?_, fun h => ?_⟩
  · rw [hlist, (L.semPendEnter hr s).mem_semList, Op.WaitsAfter, L.mem_semList]
    by_cases hp : p = k.runningTask
    · subst hp
      simp [hon]
    · have hw : ¬ (Op.semPend s osWaitForever).Wakes k s p := fun h => by cases h.1
      simp [hp, hw]
  · rw [hsched.priority, priority_blocked L hr hs]
    exact (congrFun (if_pos hB) p).symm
  · rw [hlist, semPendEnter_semList_prior L hr hm]
    have hne : ∀ a ∈ k.semList s, a ≠ k.runningTask := fun a ha he => hnr (he ▸ ha)
    have hord : KeyOrdered (waitKey k.priority
        (blockedAt s (hist ++ [(k, .semPend s osWaitForever)]))) (k.semList s) :=
      KeyOrdered.congr h fun a ha => by rw [waitKey, waitKey, hold a (hne a ha)]
    cases hfind : (k.semList s).find? (fun cur => k.priority cur > k.priority k.runningTask) with
    | some cur =>
      refine hord.insertBefore (fun a ha => ?_) (fun a ha he => ?_) hfind
      · have := hlast a (hne a ha)
        rw [waitKey_lt, decide_eq_true_iff]
        omega
      · have := hlast a (hne a ha)
        have := congrArg (fun x => (ofLex x).2) he
        simp only [waitKey, ofLex_toLex] at this
        omega
    | none =>
      refine hord.concat fun a ha => ?_
      have hle := List.find?_eq_none.mp hfind a ha
      have := hlast a (hne a ha)
      rw [decide_eq_true_iff] at hle
      rw [waitKey_lt]
      omega

/-- A pend, of this semaphore or another. -/
theorem WaitStep.pend (I : Inv k ph) {s' timeout : Nat} (hc : (Op.semPend s' timeout).Callable k)
    (ht : (Op.semPend s' timeout).TimeoutOk) (hm : (k.allSem s).semMode = .prior) :
    WaitStep s hist k (.semPend s' timeout) ((Op.semPend s' timeout).next k) := by
  have hw : ∀ p, ¬ (Op.semPend s' timeout).Wakes k s p := fun p h => by cases h.1
  rw [Op.next, Op.exec]
  rcases prtSemPend_cases k s' timeout with
    ⟨ret, -, hno, h⟩ | ⟨-, -, hpos, h⟩ | ⟨hB, hf, h⟩ | ⟨hB, hf, -⟩
  · rw [h]
    exact .same rfl (fun p _ => (congrFun (if_neg hno) p).symm) (fun hb => hno hb.2) hw
  · have hno : ¬ Blocks k s' timeout := fun hB => by
      have := hB.empty
      omega
    rw [h]
    exact .same rfl (fun p _ => (congrFun (if_neg hno) p).symm) (fun hb => hno hb.2) hw
  · rw [h]
    subst hf
    by_cases hs : s' = s
    · subst hs
      exact WaitStep.blocked I hc.1 hm hB
    · have hr := (I.active hc.1).1
      have hused := I.sems.used hB.used
      have F := osTskSchedule_frame (osSemPendListPut k s')
      refine .same ?_ (fun p _ => ?_) (fun hb => hs hb.1) hw
      · exact ((osSemPendListPut_semSame I.linked hr hused (Ne.symm hs)).trans F.semSame).list
      · rw [F.priority, priority_blocked I.linked hr hused]
        exact (congrFun (if_pos hB) p).symm
  · exact absurd (ht.resolve_left hB.wait) hf

/-- A post, of this semaphore or another. -/
theorem WaitStep.post (I : Inv k ph) {op : Op} {ret : Nat} (e : Effect k ph op k' ret)
    (hc : op.Callable k) {s' : Nat} (hpost : op.posts = some s')
    (hs : (k.allSem s).semStat = osSemUsed) : WaitStep s hist k op k' := by
  have hpend : ∀ s' timeout, op ≠ .semPend s' timeout := by
    rintro _ _ rfl
    cases hpost
  have hprio : ∀ p ∈ k.semList s, k'.priority p = op.newPriority k p :=
    fun p hp => e.priority_waiter I hc hpend hp
  have hb : ¬ op.BlocksOn k s := by
    cases op <;> first | exact fun h => h | cases hpost
  by_cases hs' : s' = s
  · subst hs'
    cases e with
    | failed _ hno => exact .same rfl hprio hb fun p h => hno s' hpost h.2.1
    | @full _ s ho _ hi =>
      obtain rfl : s' = s := Option.some.inj (hpost.symm.trans ho)
      exact .same rfl hprio hb fun p h => h.2.2.1 hi
    | @woke _ s ho hP hi hl =>
      obtain rfl : s' = s := Option.some.inj (hpost.symm.trans ho)
      obtain ⟨w, rest, hwr⟩ := List.exists_cons_of_ne_nil hl
      have F := osTskSchedule_frame (osSemPostSchePre k s')
      exact .woke hwr (I.linked.placed.nodup _)
        (F.semSame.list.trans (woke_semList I hs hwr).2) hprio hb ⟨hpost, hP, hi, by rw [hwr]; rfl⟩
    | @released _ s ho _ _ hl =>
      obtain rfl : s' = s := Option.some.inj (hpost.symm.trans ho)
      refine .same (released_semList I.linked hs).2 hprio hb fun p h => ?_
      have := h.2.2.2
      rw [hl] at this
      cases this
    | semCreated hcr _ => cases op <;> simp [Op.posts, Op.creates] at hpost hcr
    | created _ _ => cases hpost
    | resumed _ => cases hpost
    | took _ _ _ => cases hpost
    | blocked _ => cases hpost
    | unsupported _ _ => cases hpost
    | exited => cases hpost
    | activated _ => cases hpost
  · have hw : ∀ p, ¬ op.Wakes k s p :=
      fun p h => hs' (Option.some.inj (hpost.symm.trans h.1))
    exact .same (e.semSame I hc (Or.inr hs) (hpend s) (by rw [hpost]; simpa using hs')).list
      hprio hb hw

/-- **Step lemma.** -/
theorem Inv.waitStep (I : Inv k ph) (hist : History) {op : Op} (hc : op.Callable k)
    (ht : op.TimeoutOk)
    (hm : (k.allSem s).semStat = osSemUsed → (k.allSem s).semMode = .prior) :
    WaitStep s hist k op (op.next k) := by
  have e := op.effect I.linked I.lock hc
  rcases I.sems.stat s with hun | hs
  · -- nobody waits for a semaphore that has not been created
    have hnil : k.semList s = [] := by
      rw [List.eq_nil_iff_forall_not_mem]
      intro p hp
      have := (I.sems.waiting p s (I.linked.mem_semList.mp hp)).1
      rw [hun] at this
      cases this
    have hlist : (op.next k).semList s = k.semList s := by
      rcases e.unused I hc hun with h | ⟨rest, count, semType, semMode, -, h⟩
      · exact h.list
      · rw [h, hnil]
        simp [semCreatedKernel, Kernel.semList]
    refine .same hlist (by simp [hnil]) (fun hb => ?_) fun p hw => hw.2.1.used hun
    cases op <;> first | exact hb | exact (hb.1 ▸ hb.2).used hun
  by_cases hpend : ∃ s' timeout, op = .semPend s' timeout
  · obtain ⟨s', timeout, rfl⟩ := hpend
    exact WaitStep.pend I hc ht (hm hs)
  cases hpost : op.posts with
  | some s' => exact WaitStep.post I e hc hpost hs
  | none =>
    have hpend' : ∀ s' timeout, op ≠ .semPend s' timeout := fun s' t h => hpend ⟨s', t, h⟩
    refine .same (e.semSame I hc (Or.inr hs) (hpend' s) (by simp [hpost])).list
      (fun p hp => e.priority_waiter I hc hpend' hp) (fun hb => ?_) fun p hw => ?_
    · cases op <;> first | exact hb | exact hpend' _ _ rfl
    · rw [hw.1] at hpost
      cases hpost

/-- A semaphore that is used stays so, in the mode it was created with. -/
theorem Effect.semMode (I : Inv k ph) {op : Op} {ret : Nat} (e : Effect k ph op k' ret)
    (hc : op.Callable k) (hs : (k.allSem s).semStat = osSemUsed) :
    (k'.allSem s).semStat = osSemUsed ∧ (k'.allSem s).semMode = (k.allSem s).semMode := by
  have hsame : SemSame s k k' → (k'.allSem s).semStat = osSemUsed ∧
      (k'.allSem s).semMode = (k.allSem s).semMode := fun h => by rw [h.sem]; exact ⟨hs, rfl⟩
  by_cases hpend : ∃ timeout, op = .semPend s timeout
  · obtain ⟨timeout, rfl⟩ := hpend
    have hput := (osSemPendListPut_frame I.linked (I.active hc.1).1 hs).2
    cases e with
    | failed _ _ => exact ⟨hs, rfl⟩
    | took _ _ _ => simp [tookKernel, Kernel.setSem, hs]
    | blocked _ => rw [(osTskSchedule_frame _).allSem, hput]; exact ⟨hs, rfl⟩
    | unsupported _ _ => rw [hput]; exact ⟨hs, rfl⟩
    | semCreated ho _ => cases ho
    | full ho _ _ => cases ho
    | woke ho _ _ _ => cases ho
    | released ho _ _ _ => cases ho
  by_cases hpost : op.posts = some s
  · cases e with
    | failed _ _ => exact ⟨hs, rfl⟩
    | full _ _ _ => exact ⟨hs, rfl⟩
    | @woke _ s' ho _ _ hl =>
      obtain rfl : s = s' := Option.some.inj (hpost.symm.trans ho)
      obtain ⟨w, rest, hwr⟩ := List.exists_cons_of_ne_nil hl
      rw [(osTskSchedule_frame _).allSem, (woke_semList I hs hwr).1]
      exact ⟨hs, rfl⟩
    | @released _ s' ho _ _ _ =>
      obtain rfl : s = s' := Option.some.inj (hpost.symm.trans ho)
      rw [(released_semList I.linked hs).1]
      exact ⟨hs, rfl⟩
    | semCreated hcr _ => cases op <;> simp [Op.posts, Op.creates] at hpost hcr
    | created _ _ => cases hpost
    | resumed _ => cases hpost
    | took _ _ _ => cases hpost
    | blocked _ => cases hpost
    | unsupported _ _ => cases hpost
    | exited => cases hpost
    | activated _ => cases hpost
  · exact hsame (e.semSame I hc (Or.inr hs) (fun t h => hpend ⟨t, h⟩) hpost)

/-! ## Runs -/

/-- A post on `s` while tasks wait makes one of the most urgent of them ready. -/
def WakesHighest (s : Nat) (k : Kernel) (op : Op) : Prop :=
  op.posts = some s → k.semList s ≠ [] →
    ∃ w ∈ k.semList s, (∀ q ∈ k.semList s, k.priority w ≤ k.priority q) ∧
      (op.next k).semList s = (k.semList s).erase w ∧ w ∈ (op.next k).runQueue

/-- The order of the list is what makes a post wake the right task. -/
theorem Inv.wakesHighest (I : Inv k ph) {op : Op} (hc : op.Callable k)
    (h : WaitOrdered s hist k) : WakesHighest s k op := by
  intro hpost hne
  obtain ⟨w, rest, hl⟩ := List.exists_cons_of_ne_nil hne
  obtain ⟨hs, hzero⟩ := I.sems.waiting w s (I.linked.mem_semList.mp (by simp [hl]))
  have hP : Posts k s := ⟨I.lt_maxSem hs, by rw [hs]; decide, by rw [hzero]; decide⟩
  have hi : ¬ osSemPostIsInvalid k s := by
    rw [osSemPostIsInvalid, hzero]
    split <;> decide
  have hfirst : ∀ q ∈ k.semList s, k.priority w ≤ k.priority q := by
    intro q hq
    rw [WaitOrdered, hl] at h
    rw [hl] at hq
    rcases List.mem_cons.mp hq with rfl | hq
    · exact Nat.le_refl _
    · have := waitKey_lt.mp (h.head_lt q hq)
      omega
  have e := op.effect I.linked I.lock hc
  refine ⟨w, by simp [hl], hfirst, ?_⟩
  rw [hl, List.erase_cons_head]
  generalize op.next k = k', op.ret k = ret at e ⊢
  cases e with
  | failed _ hno => exact absurd hP (hno s hpost)
  | @full _ s' ho _ hi' =>
    obtain rfl : s = s' := Option.some.inj (hpost.symm.trans ho)
    exact absurd hi' hi
  | @woke _ s' ho _ _ _ =>
    obtain rfl : s = s' := Option.some.inj (hpost.symm.trans ho)
    have F := osTskSchedule_frame (osSemPostSchePre k s)
    refine ⟨F.semSame.list.trans (woke_semList I hs hl).2, ?_⟩
    rw [Kernel.runQueue, F.lists]
    exact (osSemPostSchePre_linked I.linked hs hl).mem_runQueue.mpr (by simp)
  | @released _ s' ho _ _ hnil =>
    obtain rfl : s = s' := Option.some.inj (hpost.symm.trans ho)
    exact absurd hnil hne
  | semCreated hcr _ => cases op <;> simp [Op.posts, Op.creates] at hpost hcr
  | created _ _ => cases hpost
  | resumed _ => cases hpost
  | took _ _ _ => cases hpost
  | blocked _ => cases hpost
  | unsupported _ _ => cases hpost
  | exited => cases hpost
  | activated _ => cases hpost

/-- Before each call the list of `s` is in order, and a post wakes as it should. -/
def ServesInOrder (s : Nat) (pre : History) (e : Kernel × Op) : Prop :=
  WaitOrdered s pre e.1 ∧ WakesHighest s e.1 e.2

/-- **Run lemma.** -/
theorem waitOrdered_run_iff (r : Run kernelMachine hist k)
    (hm : (k.allSem s).semStat = osSemUsed → (k.allSem s).semMode = .prior) :
    (Always (ServesInOrder s) hist ∧ WaitOrdered s hist k) ↔
      Always (fun pre e => ¬ Overtakes s pre e.1 e.2) hist := by
  induction r with
  | @start k h =>
    have I := Inv.initialised h
    have hnil : k.semList s = [] := by
      rw [List.eq_nil_iff_forall_not_mem]
      intro p hp
      exact (I.boot (not_bgdActive_initialised h)).2 p s (I.linked.mem_semList.mp hp)
    simp [always_nil, WaitOrdered, hnil, KeyOrdered.nil]
  | @step hist k op r ha ih =>
    obtain ⟨ph, I⟩ := Inv.of_run (kernelMachine_supported r)
    have e := op.effect I.linked I.lock ha.1
    have hm' : (k.allSem s).semStat = osSemUsed → (k.allSem s).semMode = .prior := by
      intro hs
      obtain ⟨hs', hmode⟩ := e.semMode I ha.1 hs
      rw [← hmode]
      exact hm hs'
    have W := I.waitStep hist ha.1 ha.2 hm'
    rw [always_snoc, always_snoc, ← ih hm']
    constructor
    · rintro ⟨⟨hpast, hord, -⟩, hord'⟩
      exact ⟨⟨hpast, hord⟩, (W.stays_ordered_iff hord).mp hord'⟩
    · rintro ⟨⟨hpast, hord⟩, hno⟩
      exact ⟨⟨hpast, hord, I.wakesHighest ha.1 hord⟩, (W.stays_ordered_iff hord).mpr hno⟩

instance (s : Nat) (hist : History) (k : Kernel) : Decidable (WaitOrdered s hist k) :=
  inferInstanceAs (Decidable (List.Pairwise _ _))

/-- Only the running task and the waiters can wait after a call. -/
instance (s : Nat) (hist : History) (k : Kernel) (op : Op) :
    Decidable (Overtakes s hist k op) :=
  decidable_of_iff (∃ a ∈ k.runningTask :: k.semList s, ∃ b ∈ k.runningTask :: k.semList s,
    op.WaitsAfter k s a ∧ op.WaitsAfter k s b ∧
      waitKey k.priority (blockedAt s (hist ++ [(k, op)])) a <
        waitKey k.priority (blockedAt s (hist ++ [(k, op)])) b ∧
      ¬ waitKey (op.newPriority k) (blockedAt s (hist ++ [(k, op)])) a <
        waitKey (op.newPriority k) (blockedAt s (hist ++ [(k, op)])) b) <| by
    have hmem : ∀ p, op.WaitsAfter k s p → p ∈ k.runningTask :: k.semList s := by
      rintro p (h | h)
      · exact List.mem_cons_of_mem _ h.1
      · exact h.2 ▸ List.mem_cons_self
    constructor
    · rintro ⟨a, -, b, -, h⟩
      exact ⟨a, b, h⟩
    · rintro ⟨a, b, ha, hb, h⟩
      exact ⟨a, hmem a ha, b, hmem b hb, ha, hb, h⟩

/-- **Waiters are served by priority exactly in the runs in which no write of a priority
makes a waiter pass another.** -/
theorem waitOrdered_iff (r : Run kernelMachine hist k) (hs : PriorSem k s) :
    (Always (ServesInOrder s) hist ∧ WaitOrdered s hist k) ↔
      Always (fun pre e => ¬ Overtakes s pre e.1 e.2) hist :=
  waitOrdered_run_iff r fun _ => hs.prior

/-- Semaphore 0 is of mode `.prior`; task 2 of priority 20 waits for it, and task 0 of
priority 30, which holds semaphore 1, waits behind it. -/
def twoWaitersOps : List Op :=
  [.taskCreate { taskPrio := 30 }, .taskResume 0, .activate 0,
    .osSemCreate 0 semTypeCount .prior false, .semCreate 1 false, .semPend 1 osWaitForever,
    .taskCreate { taskPrio := 20 }, .taskResume 2, .semPend 0 osWaitForever,
    .taskCreate { taskPrio := 10 }, .taskCreate { taskPrio := 40 }, .taskResume 4,
    .semPend 0 osWaitForever, .taskResume 3]

def twoWaitersKernel : Kernel := twoWaitersOps.foldl Op.next bootKernel

theorem waitOrdered_of_twoWaiters :
    Always (ServesInOrder 0) (trace Op.next bootKernel twoWaitersOps) ∧
      WaitOrdered 0 (trace Op.next bootKernel twoWaitersOps) twoWaitersKernel :=
  (waitOrdered_iff (Run.ofList (M := kernelMachine) bootKernel_initialised twoWaitersOps
    (by decide +kernel)) ⟨by decide +kernel, by decide +kernel⟩).mpr (by decide +kernel)

/-- Task 3 of priority 10 then waits for semaphore 1. -/
def boostedWaiterOps : List Op := twoWaitersOps ++ [.semPend 1 osWaitForever]

def boostedWaiterKernel : Kernel := boostedWaiterOps.foldl Op.next bootKernel

/-- Task 0 has priority 10 now and still waits behind task 2, which a post wakes. -/
theorem boostedWaiter_not_ordered :
    Run kernelMachine (trace Op.next bootKernel boostedWaiterOps) boostedWaiterKernel ∧
    PriorSem boostedWaiterKernel 0 ∧
    ¬ WaitOrdered 0 (trace Op.next bootKernel boostedWaiterOps) boostedWaiterKernel ∧
    ¬ WakesHighest 0 boostedWaiterKernel (.semPost 0) := by
  refine ⟨Run.ofList (M := kernelMachine) bootKernel_initialised boostedWaiterOps
    (by decide +kernel), ⟨by decide +kernel, by decide +kernel⟩, by decide +kernel, fun h => ?_⟩
  obtain ⟨w, hw, hleast, hlist, -⟩ := h rfl (by decide +kernel)
  revert w
  decide +kernel

end MiniEuler
