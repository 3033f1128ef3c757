import MiniEuler.Kernel.Lending

/-! Runs in which tasks take mutexes one at a time: inheritance is exact while every mutex goes
to the most urgent task that waits for it, and then no task of lower priority runs while one
waits. -/

namespace MiniEuler
open Library

variable {server : Nat → Option Nat} {k k' : Kernel} {ph : Nat → TskPhase} {s : Nat}
variable {hist : History} {op : Op} {ret : Nat}

/-! ## What calls keep -/

theorem Effect.sizes (I : Inv k ph) (e : Effect k ph op k' ret) (hc : op.Callable k) :
    k'.tskMaxNum = k.tskMaxNum ∧ k'.maxSem = k.maxSem := by
  have L := I.linked
  cases e with
  | failed _ _ => exact ⟨rfl, rfl⟩
  | created _ _ => exact ⟨rfl, rfl⟩
  | @resumed p _ =>
    have G := resumedKernel_frame (k := k) p
    have F := osTskSchedule_frame (resumedKernel k p)
    split
    · exact ⟨F.tskMaxNum.trans G.tskMaxNum, F.maxSem.trans G.maxSem⟩
    · exact ⟨G.tskMaxNum, G.maxSem⟩
  | semCreated _ _ => exact ⟨rfl, rfl⟩
  | took _ _ _ => exact ⟨rfl, rfl⟩
  | @blocked s hB =>
    have G := (osSemPendListPut_frame L (I.active hc.1).1 (I.sems.used hB.used)).1
    have F := osTskSchedule_frame (osSemPendListPut k s)
    exact ⟨F.tskMaxNum.trans G.tskMaxNum, F.maxSem.trans G.maxSem⟩
  | unsupported hB _ =>
    have G := (osSemPendListPut_frame L (I.active hc.1).1 (I.sems.used hB.used)).1
    exact ⟨G.tskMaxNum, G.maxSem⟩
  | full _ _ _ => exact ⟨rfl, rfl⟩
  | @woke _ s _ hP _ hl =>
    obtain ⟨w, rest, hwr⟩ := List.exists_cons_of_ne_nil hl
    have G := (osSemPostSchePre_frame L (I.sems.used hP.used) hwr).1
    have F := osTskSchedule_frame (osSemPostSchePre k s)
    exact ⟨F.tskMaxNum.trans G.tskMaxNum, F.maxSem.trans G.maxSem⟩
  | released _ hP _ _ =>
    have G := osPriorityRestore_prioFrame L (I.sems.used hP.used)
    rw [releasedKernel_eq]
    exact ⟨G.tskMaxNum, G.maxSem⟩
  | exited =>
    have G := osTskReadyDel_globalFrame (k := k) k.runningTask
    have F := osTskSchedule_frame (osTskReadyDel k k.runningTask)
    rw [osTskEntryReturn_eq I.lock]
    exact ⟨F.tskMaxNum.trans G.tskMaxNum, F.maxSem.trans G.maxSem⟩
  | activated h =>
    obtain ⟨cb, rest, t, used, hi, -, -, -, -, rfl⟩ := osActivate_cases I hc.1 h
    have G := resumedKernel_frame (k := createdKernel k cb t used) cb
    exact ⟨G.tskMaxNum, G.maxSem⟩

/-- A ready task stays ready, unless it runs, and blocks or ends. -/
theorem Effect.stays_ready (I : Inv k ph) (e : Effect k ph op k' ret) (hc : op.Callable k)
    (hsup : ¬ op.Unsupported k) {p : Nat} (hp : p ∈ k.runQueue)
    (hne : p = k.runningTask → op ≠ .taskExit ∧
      ∀ s timeout, op = .semPend s timeout → ¬ Blocks k s timeout) :
    p ∈ k'.runQueue := by
  have hr := I.linked.mem_runQueue.mp hp
  cases e with
  | failed _ _ => exact hp
  | @created _ cb rest t used hl hcr =>
    have hu : ph cb = .unused := I.linked.mem_tskCbFreeList.mp (by simp [hl])
    have hpc : p ≠ cb := by
      rintro rfl
      rw [hr] at hu
      cases hu
    exact (I.created used hl hcr).linked.mem_runQueue.mpr (by rwa [Function.update_of_ne hpc])
  | @resumed q hs =>
    refine (I.resumed hs).linked.mem_runQueue.mpr ?_
    by_cases hpq : p = q
    · rw [hpq, Function.update_self]
    · rwa [Function.update_of_ne hpq]
  | semCreated _ _ =>
    rw [semCreatedKernel_runQueue]
    exact hp
  | took _ _ _ => exact hp
  | blocked hB =>
    have hpr : p ≠ k.runningTask := fun h => (hne h).2 _ _ rfl hB
    exact (I.osSemPendListPut_reschedulable hB hc.1 hc.2).inv.linked.mem_runQueue.mpr
      (by rwa [Function.update_of_ne hpr])
  | unsupported hB hf => exact absurd ⟨hB, hf⟩ hsup
  | full _ _ _ => exact hp
  | woke _ hP _ hl =>
    obtain ⟨w, rest, hwr⟩ := List.exists_cons_of_ne_nil hl
    refine (I.osSemPostSchePre_reschedulable hP hwr).inv.linked.mem_runQueue.mpr ?_
    by_cases hpw : p = w
    · rw [hpw, Function.update_self]
    · rwa [Function.update_of_ne hpw]
  | released _ hP _ hl => exact (I.released hP hl).linked.mem_runQueue.mpr hr
  | exited =>
    have hpr : p ≠ k.runningTask := fun h => (hne h).1 rfl
    rw [osTskEntryReturn_eq I.lock]
    exact (I.osTskReadyDel_reschedulable hc.1 hc.2).inv.linked.mem_runQueue.mpr
      (by rwa [Function.update_of_ne hpr])
  | activated h =>
    obtain ⟨cb, rest, t, used, hi, hl, hcr, -, hhi, rfl⟩ := osActivate_cases I hc.1 h
    have I₂ := (I.created used hl hcr).resumed (p := cb) (by simp)
    rw [if_neg (show ¬ bgdActive (createdKernel k cb t used) from hc.1)] at I₂
    refine I₂.linked.mem_runQueue.mpr ?_
    by_cases hpc : p = cb
    · rw [hpc, Function.update_self]
    · rwa [Function.update_of_ne hpc, Function.update_of_ne hpc]

/-- A task that a post wakes is ready. -/
theorem Effect.woken_ready (I : Inv k ph) (e : Effect k ph op k' ret) (ho : op.posts = some s)
    (hret : ret = osOk) (hi : ¬ osSemPostIsInvalid k s) {w : Nat} {rest : List Nat}
    (hwr : k.semList s = w :: rest) : w ∈ k'.runQueue := by
  cases e with
  | failed hr _ => exact absurd hret hr
  | full ho' _ hi' => exact absurd (Option.some.inj (ho.symm.trans ho') ▸ hi') hi
  | @woke _ s' ho' hP _ _ =>
    obtain rfl : s = s' := Option.some.inj (ho.symm.trans ho')
    exact (I.osSemPostSchePre_reschedulable hP hwr).inv.linked.mem_runQueue.mpr (by simp)
  | @released _ s' ho' _ _ hl =>
    obtain rfl : s = s' := Option.some.inj (ho.symm.trans ho')
    rw [hl] at hwr
    cases hwr
  | semCreated hcr _ => cases op <;> simp [Op.posts, Op.creates] at ho hcr
  | created _ _ => cases ho
  | resumed _ => cases ho
  | took _ _ _ => cases ho
  | blocked _ => cases ho
  | unsupported _ _ => cases ho
  | exited => cases ho
  | activated _ => cases ho

/-- An unused semaphore stays unused, or the call is the `PRT_SemCreate` that creates it. -/
theorem OneAtATime.unused (hu : OneAtATime server k op) (I : Inv k ph) (hc : op.Callable k)
    (hun : (k.allSem s).semStat = osSemUnused) : SemSame s k (op.next k) ∨
      ∃ c null, op = .semCreate c null ∧ (prtSemCreate k c null).2 = .ok s := by
  have e := op.effect I.linked I.lock hc
  rcases e.unused I hc hun with h | ⟨rest, count, semType, mode, hcr, h⟩
  · exact Or.inl h
  · cases op with
    | semCreate c null =>
      rcases prtSemCreate_cases k c null with ⟨ret, -, hk⟩ | ⟨s', rest', hl, -, hk⟩
      · left
        rw [Op.next, Op.exec, hk]
        exact SemSame.refl k
      · by_cases hs : s = s'
        · subst hs
          have hlt := ((I.sems.unusedSem s).mp (by simp [hl])).1
          exact Or.inr ⟨c, null, rfl, by rw [hk, I.sems.semId s hlt]⟩
        · left
          rw [Op.next, Op.exec, hk]
          exact semCreatedKernel_semSame _ _ hs
    | osSemCreate _ _ _ _ => exact absurd hu id
    | _ => cases hcr

/-! ## The step lemma -/

theorem pend_of_events {ev : HandOff.Event Nat} (ho : op.posts = none)
    (hev : semEvents s k op k' ret = [ev]) : ∃ timeout, op = .semPend s timeout := by
  by_contra h
  rw [semEvents_other (fun timeout h' => h ⟨timeout, h'⟩) (by simp [ho])] at hev
  cases hev

/-- A pend that finds a unit leaves the caller ready. -/
theorem Effect.took_ready {timeout : Nat} (e : Effect k ph (.semPend s timeout) k' ret)
    (hpos : 0 < (k.allSem s).semCount) (hr : k.runningTask ∈ k.runQueue) :
    k.runningTask ∈ k'.runQueue := by
  cases e with
  | failed _ _ => exact hr
  | took _ _ _ => exact hr
  | blocked hB =>
    have := hB.empty
    omega
  | unsupported hB _ =>
    have := hB.empty
    omega
  | semCreated hcr _ => cases hcr
  | full ho _ _ => cases ho
  | woke ho _ _ _ => cases ho
  | released ho _ _ _ => cases ho

/-- A mutex that is posted has no unit. -/
theorem OneAtATime.posted_empty (hu : OneAtATime server k op) (hs : server s = none)
    (ho : op.posts = some s) : (k.allSem s).semCount = 0 :=
  (mutexHolder_eq_some.mp (hu.posts ho hs)).2.2.1

/-- A task that holds a mutex neither blocks nor ends. -/
theorem Lends.holder_goes_on (S : Lends server k) (I : Inv k ph) (hu : OneAtATime server k op)
    (hh : mutexHolder server k s = some k.runningTask) :
    op ≠ .taskExit ∧ ∀ s' timeout, op = .semPend s' timeout → ¬ Blocks k s' timeout := by
  have hs := I.holder_lt hh
  refine ⟨?_, ?_⟩
  · rintro rfl
    exact hu s hs hh
  · rintro s' timeout rfl hB
    rcases hu with hserver | ⟨-, hfree⟩
    · exact (S.client s' _ hserver hB.bound).holder s hh
    · exact (hfree s hs).2 hh

namespace Lends

variable (S : Lends server k) (I : Inv k ph) (hc : op.Callable k) (hsup : ¬ op.Unsupported k)
  (hu : OneAtATime server k op)
include S I hc hsup hu

/-- What a call is to a semaphore. -/
theorem semCases (s : Nat) : SemSame s k (op.next k) ∨
    (∃ c null rest, op = .semCreate c null ∧ (prtSemCreate k c null).2 = .ok s ∧
      op.next k = semCreatedKernel k s rest (createdSem k s c semTypeCount .fifo) ∧
      (server s = none → c = 1)) ∨
    (∃ c evs, Refines s c evs k) ∧ SemEffect s k op (op.next k) (op.ret k) := by
  rcases S.refines s with hun | ⟨c, evs, R⟩
  · rcases hu.unused I hc hun with h | ⟨c, null, rfl, hok⟩
    · exact Or.inl h
    · obtain ⟨rest, hl, -, hnext⟩ := I.semCreate_eq hok
      exact Or.inr (Or.inl ⟨c, null, rest, rfl, hok, hnext, fun hs => hu s (by simp [hl]) hs⟩)
  · exact Or.inr (Or.inr ⟨⟨c, evs, R⟩,
      R.semEffect I (op.effect I.linked I.lock hc) hc hsup⟩)

theorem mutex_next (hs : server s = none) (hused : ((op.next k).allSem s).semStat = osSemUsed) :
    ((op.next k).allSem s).semCount ≤ 1 ∧ (((op.next k).allSem s).semCount = 0 ↔
      ((op.next k).allSem s).semOwner ≠ osInvalidOwnerId) := by
  have hsmall := I.small
  rcases S.semCases I hc hsup hu s with h | ⟨c, null, rest, -, -, hnext, hone⟩ | ⟨⟨c, evs, R⟩, e⟩
  · rw [h.sem] at hused ⊢
    exact S.mutex s hs hused
  · rw [hnext, hone hs]
    simp [semCreatedKernel, createdSem]
  · obtain ⟨hle, hown⟩ := S.mutex s hs R.used
    cases e with
    | same h _ _ =>
      rw [h.sem]
      exact ⟨hle, hown⟩
    | took _ hrun hpos hsem _ _ =>
      rw [hsem]
      exact ⟨by simp only; omega, iff_of_true (by simp only; omega) (by simp only; omega)⟩
    | blocked _ _ hsem _ _ =>
      rw [hsem]
      exact ⟨hle, hown⟩
    | woke ho _ _ hw hsem _ _ _ =>
      have hzero := hu.posted_empty hs ho
      rw [hsem]
      exact ⟨hle, iff_of_true hzero (by simp only; omega)⟩
    | released ho _ _ _ hsem _ _ =>
      have hzero := hu.posted_empty hs ho
      rw [hsem]
      simp only [hzero]
      exact ⟨le_refl _, by simp⟩

theorem signal_next {p : Nat} (hs : server s = some p)
    (hused : ((op.next k).allSem s).semStat = osSemUsed) :
    (((op.next k).allSem s).semOwner = osInvalidOwnerId ∨ ((op.next k).allSem s).semOwner = p) ∧
      ∀ q ∈ (op.next k).semList s, q = p := by
  rcases S.semCases I hc hsup hu s with h | ⟨c, null, rest, -, -, hnext, -⟩ | ⟨⟨c, evs, R⟩, e⟩
  · rw [h.sem] at hused
    rw [h.sem, h.list]
    exact S.signal s p hs hused
  · rw [hnext]
    simp [semCreatedKernel, createdSem, Kernel.semList]
  · obtain ⟨hown, hwait⟩ := S.signal s p hs R.used
    have hrun : ∀ ev, op.posts = none → semEvents s k op (op.next k) (op.ret k) = [ev] →
        k.runningTask = p := by
      intro ev ho hev
      obtain ⟨timeout, rfl⟩ := pend_of_events ho hev
      rcases hu with h | ⟨h, -⟩ <;> rw [hs] at h
      · exact (Option.some.inj h).symm
      · cases h
    cases e with
    | same h _ _ =>
      rw [h.sem, h.list]
      exact ⟨hown, hwait⟩
    | took ho _ _ hsem hlist hev =>
      rw [hsem, hlist]
      exact ⟨Or.inr (hrun _ ho hev), hwait⟩
    | blocked ho _ hsem hlist hev =>
      rw [hsem, hlist]
      refine ⟨hown, fun q hq => ?_⟩
      rcases List.mem_append.mp hq with hq | hq
      · exact hwait q hq
      · rw [List.mem_singleton.mp hq]
        exact hrun _ ho hev
    | woke _ _ hwr _ hsem hlist _ _ =>
      rw [hsem, hlist]
      rw [hwr] at hwait
      exact ⟨Or.inr (hwait _ (by simp)), fun q hq => hwait q (List.mem_cons_of_mem _ hq)⟩
    | released _ _ _ _ hsem hlist _ =>
      rw [hsem, hlist]
      exact ⟨Or.inl rfl, by simp⟩

/-- The next holder of a mutex has held it, has waited for it, or is the caller, which pends
and is no server. -/
theorem holder_next {p : Nat} (hh : mutexHolder server (op.next k) s = some p) :
    mutexHolder server k s = some p ∨
    (∃ rest, k.semList s = p :: rest ∧ p ∈ (op.next k).runQueue) ∨
    p = k.runningTask ∧ (∃ timeout, op = .semPend s timeout) ∧
      k.runningTask ∈ (op.next k).runQueue := by
  obtain ⟨hs, -, hzero, rfl⟩ := mutexHolder_eq_some.mp hh
  have eff := op.effect I.linked I.lock hc
  rcases S.semCases I hc hsup hu s with h | ⟨c, null, rest, -, -, hnext, hone⟩ | ⟨⟨c, evs, R⟩, e⟩
  · rw [mutexHolder_congr h] at hh
    exact Or.inl hh
  · rw [hnext, hone hs] at hzero
    simp [semCreatedKernel, createdSem] at hzero
  · cases e with
    | same h _ _ =>
      rw [mutexHolder_congr h] at hh
      exact Or.inl hh
    | took ho hrun hpos hsem _ hev =>
      obtain ⟨timeout, rfl⟩ := pend_of_events ho hev
      have hready := I.linked.mem_runQueue.mpr (I.active hc.1).1
      rw [hsem]
      exact Or.inr (Or.inr ⟨rfl, ⟨timeout, rfl⟩, eff.took_ready hpos hready⟩)
    | blocked _ hempty hsem _ _ =>
      rw [hsem]
      exact Or.inl (mutexHolder_eq_some.mpr ⟨hs, R.used, hempty, rfl⟩)
    | woke ho hret hwr _ hsem _ _ _ =>
      rw [hsem]
      exact Or.inr (Or.inl ⟨_, hwr,
        eff.woken_ready I ho hret (not_postIsInvalid R.counting) hwr⟩)
    | released _ _ _ _ hsem _ _ =>
      rw [hsem] at hzero
      simp at hzero

/-- The next waiters of a mutex have waited for it, or are the caller, which pends. -/
theorem waiter_next {p : Nat} (hp : p ∈ (op.next k).semList s) : p ∈ k.semList s ∨
    p = k.runningTask ∧ ∃ timeout, op = .semPend s timeout := by
  rcases S.semCases I hc hsup hu s with h | ⟨c, null, rest, -, -, hnext, -⟩ | ⟨⟨c, evs, R⟩, e⟩
  · rw [h.list] at hp
    exact Or.inl hp
  · rw [hnext] at hp
    simp [semCreatedKernel, Kernel.semList] at hp
  · cases e with
    | same h _ _ =>
      rw [h.list] at hp
      exact Or.inl hp
    | took _ _ _ _ hlist _ =>
      rw [hlist] at hp
      exact Or.inl hp
    | blocked ho _ _ hlist hev =>
      rw [hlist] at hp
      rcases List.mem_append.mp hp with hp | hp
      · exact Or.inl hp
      · exact Or.inr ⟨List.mem_singleton.mp hp, pend_of_events ho hev⟩
    | woke _ _ hwr _ _ hlist _ _ =>
      rw [hlist] at hp
      rw [hwr]
      exact Or.inl (List.mem_cons_of_mem _ hp)
    | released _ _ _ _ _ hlist _ =>
      rw [hlist] at hp
      cases hp

/-- The next users of a mutex have used it, or are the caller, which pends. -/
theorem uses_next {p : Nat} (h : Uses server (op.next k) s p) : Uses server k s p ∨
    p = k.runningTask ∧ ∃ timeout, op = .semPend s timeout := by
  rcases h with hh | ⟨hs, hm⟩
  · have hs := (mutexHolder_eq_some.mp hh).1
    rcases S.holder_next I hc hsup hu hh with h | ⟨rest, hwr, -⟩ | ⟨hp, hop, -⟩
    · exact Or.inl (Or.inl h)
    · exact Or.inl (Or.inr ⟨hs, by simp [hwr]⟩)
    · exact Or.inr ⟨hp, hop⟩
  · exact (S.waiter_next I hc hsup hu hm).imp_left fun h => Or.inr ⟨hs, h⟩

/-- A server keeps away from mutexes. -/
theorem client_next {p s₀ : Nat} (hs₀ : server s₀ = some p) (hlt : s₀ < k.maxSem) :
    (lending server (op.next k)).Apart p := by
  have A := S.client s₀ p hs₀ hlt
  have hrun : ∀ s, server s = none → p = k.runningTask → ∀ timeout, op ≠ .semPend s timeout := by
    rintro s hs rfl timeout rfl
    rcases hu with h | ⟨-, hfree⟩
    · rw [hs] at h
      cases h
    · exact (hfree s₀ hlt).1 hs₀
  refine ⟨fun s hh => ?_, fun s hm => ?_⟩
  · have hs := (mutexHolder_eq_some.mp hh).1
    rcases S.holder_next I hc hsup hu hh with h | ⟨rest, hwr, -⟩ | ⟨hp, ⟨timeout, hop⟩, -⟩
    · exact A.holder s h
    · exact A.queue s (by rw [lending_queue hs, hwr]; simp)
    · exact hrun s hs hp timeout hop
  · cases hs : server s with
    | some q =>
      rw [lending_queue_signal hs] at hm
      cases hm
    | none =>
      rw [lending_queue hs] at hm
      rcases S.waiter_next I hc hsup hu hm with h | ⟨hp, timeout, hop⟩
      · exact A.queue s (by rw [lending_queue hs]; exact h)
      · exact hrun s hs hp timeout hop

/-- **Step lemma.** -/
theorem next : Lends server (op.next k) := by
  have eff := op.effect I.linked I.lock hc
  have hstep := S.lendStep I eff hc hsup hu
  obtain ⟨htsk, hsem⟩ := eff.sizes I hc
  refine { refines := fun s => ?_, mutex := fun s => S.mutex_next I hc hsup hu
           signal := fun s p => S.signal_next I hc hsup hu
           client := fun s p hs hlt => S.client_next I hc hsup hu hs (hsem ▸ hlt)
           ready := fun s p hh => ?_, base := fun p hp => ?_, oneEach := ?_ }
  · rcases S.semCases I hc hsup hu s with h | ⟨c, null, rest, hop, hok, -, -⟩ | ⟨⟨c, evs, R⟩, e⟩
    · rcases S.refines s with hun | ⟨c, evs, R⟩
      · left
        rw [h.sem]
        exact hun
      · exact Or.inr ⟨c, evs, R.same h⟩
    · subst hop
      exact Or.inr ⟨c, [], Refines.created I hok⟩
    · exact Or.inr ⟨c, _, R.step e⟩
  · rcases S.holder_next I hc hsup hu hh with h | ⟨rest, -, hr⟩ | ⟨rfl, -, hr⟩
    · refine eff.stays_ready I hc hsup (S.ready s p h) fun hp => ?_
      rw [hp] at h
      exact S.holder_goes_on I hu h
    · exact hr
    · exact hr
  · rw [htsk] at hp
    rcases hstep.base p with h | h
    · rw [h]
      exact S.base p hp
    · exact h
  · rw [htsk]
    rcases hstep.step with h | ⟨s, -, h⟩
    · exact S.oneEach.step h
    · exact S.oneEach.handOver h

/-- A call that posts a mutex with waiters hands it over. -/
theorem handOver_of_post (hs : server s = none) (ho : op.posts = some s)
    (hl : k.semList s ≠ []) :
    Lending.HandOver s (lending server k) (lending server (op.next k)) := by
  have hh := hu.posts ho hs
  obtain ⟨-, hused, hzero, -⟩ := mutexHolder_eq_some.mp hh
  obtain ⟨c, evs, R⟩ := (S.refines s).resolve_left (by rw [hused]; decide)
  have hP : Posts k s := ⟨I.lt_maxSem hused, by rw [hused]; decide, by rw [hzero]; decide⟩
  have hwoke := S.handOver_woke I hP hs (by rw [hh]; simp) hl
  generalize hk : op.next k = k', hr : op.ret k = ret
  have e := op.effect I.linked I.lock hc
  rw [hk, hr] at e
  cases e with
  | failed _ hno => exact absurd hP (hno s ho)
  | full ho' _ hi =>
    exact absurd (Option.some.inj (ho.symm.trans ho') ▸ hi) (not_postIsInvalid R.counting)
  | @woke _ s' ho' _ _ _ =>
    obtain rfl : s = s' := Option.some.inj (ho.symm.trans ho')
    exact hwoke
  | released ho' _ _ hl' => exact absurd (Option.some.inj (ho.symm.trans ho') ▸ hl') hl
  | semCreated hcr _ => cases op <;> simp [Op.posts, Op.creates] at ho hcr
  | created _ _ => cases ho
  | resumed _ => cases ho
  | took _ _ _ => cases ho
  | blocked _ => cases ho
  | unsupported _ _ => cases ho
  | exited => cases ho
  | activated _ => cases ho

/-- What holds of one mutex stays so unless that one goes to a task that a waiter outranks. -/
theorem inheritsAt_next (E : InheritsAt server k s)
    (hf : op.posts = some s → (lending server k).Fair s) : InheritsAt server (op.next k) s := by
  rw [inheritsAt_iff_exact] at E ⊢
  rcases (S.lendStep I (op.effect I.linked I.lock hc) hc hsup hu).step with h | ⟨s', ho, h⟩
  · exact S.oneEach.exactAt_step E h
  · by_cases hs : s = s'
    · subst hs
      exact (S.oneEach.exactAt_handOver_iff h).mpr (hf ho)
    · exact S.oneEach.exactAt_handOver_other E hs h

/-- **Inheritance stays exact unless a mutex goes to a task that a waiter outranks.** -/
theorem inherits_next_iff (E : Inherits server k) :
    Inherits server (op.next k) ↔ FairPost server k op := by
  rw [inherits_iff_exact] at E ⊢
  rcases (S.lendStep I (op.effect I.linked I.lock hc) hc hsup hu).step with h | ⟨s, ho, h⟩
  · have E' := S.oneEach.exact_step E h
    refine iff_of_true E' fun s ho hs w rest hwr => ?_
    have hover := S.handOver_of_post I hc hsup hu hs ho (by simp [hwr])
    exact (fair_iff hs).mp ((S.oneEach.exact_handOver_iff E hover).mp E') w rest hwr
  · rw [S.oneEach.exact_handOver_iff E h]
    cases hs : server s with
    | some p =>
      refine iff_of_true (fun w rest hq => ?_) fun s' ho' hs' => ?_
      · rw [lending_queue_signal hs] at hq
        cases hq
      · obtain rfl : s = s' := Option.some.inj (ho.symm.trans ho')
        rw [hs] at hs'
        cases hs'
    | none =>
      rw [fair_iff hs]
      constructor
      · intro hf s' ho' _
        obtain rfl : s = s' := Option.some.inj (ho.symm.trans ho')
        exact hf
      · exact fun hf => hf s ho hs

omit hsup hu hc in
/-- A post takes no boost from the running task. -/
theorem not_demotes (hb : bgdActive k) : ¬ Demotes k op := by
  rintro ⟨s, -, hP, -, hl, hown, hne, -⟩
  have hrun := I.running_le hb
  have hused := I.sems.used hP.used
  cases hs : server s with
  | some p =>
    rcases (S.signal s p hs hused).1 with ho | ho
    · have := I.small
      omega
    · have A := S.client s p hs hP.bound
      rw [← ho, hown] at A
      exact hne (S.oneEach.prio_of_apart hrun A)
  | none =>
    have hv : (k.allSem s).semOwner ≠ osInvalidOwnerId := by
      have := I.small
      omega
    have hh : mutexHolder server k s = some k.runningTask :=
      mutexHolder_eq_some.mpr ⟨hs, hused, (S.mutex s hs hused).2.mpr hv, hown⟩
    refine hne (S.oneEach.alone hrun fun s' hh' => ?_)
    obtain rfl := S.oneEach.single hh' hh
    rw [lending_queue hs]
    exact hl

omit hsup hu hc in
/-- What runs while `w` waits is as urgent as `w`. -/
theorem running_le_waiter (E : InheritsAt server k s) (hp : Preemptive k) {w : Nat}
    (hs : server s = none) (hw : w ∈ k.semList s) :
    k.priority k.runningTask ≤ k.originalPriority w := by
  obtain ⟨hused, hzero⟩ := I.sems.waiting w s (I.linked.mem_semList.mp hw)
  have hold : mutexHolder server k s = some (k.allSem s).semOwner :=
    mutexHolder_eq_some.mpr ⟨hs, hused, hzero, rfl⟩
  -- the holder is ready, and as urgent as `w`
  have hrun := hp _ (S.ready s _ hold)
  exact hrun.trans ((E _ hold).2 (Set.mem_insert_of_mem _ ⟨w, hw, rfl⟩))

omit hsup hu hc in
/-- A task that runs and holds no mutex has its own priority. -/
theorem running_base (hb : bgdActive k)
    (h : ∀ s, mutexHolder server k s ≠ some k.runningTask) :
    k.priority k.runningTask = k.originalPriority k.runningTask :=
  S.oneEach.alone (I.running_le hb) fun s hh => absurd hh (h s)

omit hsup hu hc in
/-- It is lent the priority of a task as urgent as `w` if it has none itself. -/
theorem urgent (E : Inherits server k) (hp : Preemptive k) {w : Nat} (hs : server s = none)
    (hw : w ∈ k.semList s) : k.priority k.runningTask ≤ k.originalPriority w ∧
    (k.originalPriority w < k.originalPriority k.runningTask → ∃ s' v,
      mutexHolder server k s' = some k.runningTask ∧ v ∈ k.semList s' ∧
        k.originalPriority v ≤ k.originalPriority w) := by
  have hb := I.active_of_pending (I.linked.mem_semList.mp hw)
  have hle := S.running_le_waiter I (E s) hp hs hw
  refine ⟨hle, fun hlt => ?_⟩
  by_cases hany : ∃ s', mutexHolder server k s' = some k.runningTask
  · obtain ⟨s', hh⟩ := hany
    rcases (E s' _ hh).1 with h | ⟨v, hv, h⟩
    · omega
    · exact ⟨s', v, hh, hv, by omega⟩
  · have hbase := S.running_base I hb fun s' hh => hany ⟨s', hh⟩
    omega

/-- Who posts a mutex does not hold it any more. -/
theorem not_holder_after (ho : op.posts = some s) (hs : server s = none) :
    mutexHolder server (op.next k) s ≠ some k.runningTask := by
  intro hh
  have hold := hu.posts ho hs
  obtain ⟨-, hused, hzero, -⟩ := mutexHolder_eq_some.mp hold
  obtain ⟨-, -, hzero', hown⟩ := mutexHolder_eq_some.mp hh
  obtain ⟨c, evs, R⟩ := (S.refines s).resolve_left (by rw [hused]; decide)
  have hP : Posts k s := ⟨I.lt_maxSem hused, by rw [hused]; decide, by rw [hzero]; decide⟩
  cases R.semEffect I (op.effect I.linked I.lock hc) hc hsup with
  | same _ _ hno =>
    refine hno ho ?_
    cases op with
    | semPost s' =>
      obtain rfl := Option.some.inj ho
      exact prtSemPost_ret hP
    | uartPost s' =>
      obtain rfl := Option.some.inj ho
      exact prtSemPost_ret hP
    | _ => cases ho
  | took h _ _ _ _ _ => rw [ho] at h; cases h
  | blocked h _ _ _ _ => rw [ho] at h; cases h
  | @woke w rest _ _ hwr _ hsem _ _ _ =>
    rw [hsem] at hown
    have hw : w ∈ (lending server k).queue s := by rw [lending_queue hs, hwr]; simp
    exact S.oneEach.apart hw (hown ▸ hold)
  | released _ _ _ _ hsem _ _ =>
    rw [hsem] at hzero'
    simp at hzero'

end Lends

/-! ## Runs -/

theorem Lends.start (h : Initialised k) : Lends server k := by
  have I := Inv.initialised h
  have hun : ∀ s, (k.allSem s).semStat = osSemUnused := by
    intro s
    obtain ⟨_, _, _, k₁, -, h₂⟩ := h
    obtain ⟨used, rfl⟩ := osSemInit_eq _ _ h₂
    by_cases hs : s < 73 <;> simp [hs, osSemUnused]
  have hempty : ∀ s, k.semList s = [] := by
    intro s
    refine List.eq_nil_iff_forall_not_mem.mpr fun p hp => ?_
    have hw := (I.sems.waiting p s (I.linked.mem_semList.mp hp)).1
    rw [hun] at hw
    cases hw
  have hfree : ∀ s, mutexHolder server k s = none := by
    intro s
    rw [mutexHolder, hun, if_neg]
    exact fun h => absurd h.2.1 (by decide)
  have hqueue : ∀ s, (lending server k).queue s = [] := by
    intro s
    simp only [lending, hempty, ite_self]
  have hbase : ∀ p ≤ k.tskMaxNum, k.priority p = 0 ∧ k.originalPriority p = 0 := by
    intro p hp
    rw [initialised_eq h] at hp ⊢
    have hp : p ≤ 22 := hp
    have hne : p ≠ 23 := by omega
    have hlt : p < 23 := by omega
    simp [Kernel.priority, Kernel.originalPriority, hne, hlt]
  have hnone : ∀ {s p}, (lending server k).holder s ≠ some p := by
    intro s p hh
    rw [show (lending server k).holder s = none from hfree s] at hh
    cases hh
  refine { refines := fun s => Or.inl (hun s), mutex := fun s _ hu => ?_
           signal := fun s p _ hu => ?_, client := fun _ p _ _ => ⟨fun s => hnone, fun s => ?_⟩
           ready := fun s p hh => absurd hh hnone, base := fun p hp => ?_, oneEach := ?_ }
  · rw [hun] at hu
    cases hu
  · rw [hun] at hu
    cases hu
  · rw [hqueue]
    simp
  · rw [(hbase p hp).2]
    exact Nat.zero_le _
  · exact
      { holds := fun hh => absurd hh hnone, single := fun hh => absurd hh hnone
        lent := fun hh => absurd hh hnone, apart := fun _ => hnone
        waits := fun hm => by rw [hqueue] at hm; cases hm
        once := fun hm => by rw [hqueue] at hm; cases hm
        nodup := fun s => by rw [hqueue]; exact List.nodup_nil
        alone := fun {p} hp _ => (hbase p hp).1.trans (hbase p hp).2.symm }

/-- **Run lemma.** -/
theorem Lends.of_run (r : Run supportedMachine hist k)
    (hu : ∀ e ∈ hist, OneAtATime server e.1 e.2) : Lends server k := by
  refine r.invariant_hist (fun hist k => (∀ e ∈ hist, OneAtATime server e.1 e.2) →
    Lends server k) (fun _ h _ => Lends.start h) ?_ hu
  rintro hist k op r ih ⟨hc, hsup⟩ hu
  obtain ⟨ph, I⟩ := Inv.of_run r
  exact (ih fun e he => hu e (List.mem_append_left _ he)).next I hc hsup (hu (k, op) (by simp))

theorem Inherits.start (h : Initialised k) : Inherits server k := by
  intro s p hh
  obtain ⟨-, hused, -⟩ := mutexHolder_eq_some.mp hh
  obtain ⟨_, _, _, k₁, -, h₂⟩ := h
  obtain ⟨used, rfl⟩ := osSemInit_eq _ _ h₂
  by_cases hs : s < 73 <;> simp [hs, osSemUsed] at hused

theorem inherits_iff_fair (r : Run supportedMachine hist k)
    (hu : ∀ e ∈ hist, OneAtATime server e.1 e.2) :
    ((∀ e ∈ hist, Inherits server e.1) ∧ Inherits server k) ↔
      ∀ e ∈ hist, FairPost server e.1 e.2 := by
  refine r.invariant_hist (fun hist k => (∀ e ∈ hist, OneAtATime server e.1 e.2) →
    (((∀ e ∈ hist, Inherits server e.1) ∧ Inherits server k) ↔
      ∀ e ∈ hist, FairPost server e.1 e.2)) ?_ ?_ hu
  · intro k h _
    exact iff_of_true ⟨by simp, Inherits.start h⟩ (by simp)
  · rintro hist k op r ih ⟨hc, hsup⟩ hu
    have hpast := fun e he => hu e (List.mem_append_left _ he)
    obtain ⟨ph, I⟩ := Inv.of_run r
    have hnext := (Lends.of_run r hpast).inherits_next_iff I hc hsup (hu (k, op) (by simp))
    simp only [List.forall_mem_append, List.forall_mem_singleton]
    constructor
    · rintro ⟨⟨hh, E⟩, E'⟩
      exact ⟨(ih hpast).mp ⟨hh, E⟩, (hnext E).mp E'⟩
    · rintro ⟨hf, hfk⟩
      obtain ⟨hh, E⟩ := (ih hpast).mpr hf
      exact ⟨⟨hh, E⟩, (hnext E).mpr hfk⟩

theorem alwaysPreemptive_oneAtATime (r : Run supportedMachine hist k)
    (hu : ∀ e ∈ hist, OneAtATime server e.1 e.2) : AlwaysPreemptive hist k := by
  refine (alwaysPreemptive_iff_supported r).mpr ?_
  refine r.invariant_hist (fun hist _ => (∀ e ∈ hist, OneAtATime server e.1 e.2) →
    ∀ e ∈ hist, bgdActive e.1 → ¬ Demotes e.1 e.2) (by simp) ?_ hu
  rintro hist k op r ih - hu
  have hpast := fun e he => hu e (List.mem_append_left _ he)
  obtain ⟨ph, I⟩ := Inv.of_run r
  simp only [List.forall_mem_append, List.forall_mem_singleton]
  exact ⟨ih hpast, (Lends.of_run r hpast).not_demotes I⟩

/-! ## What tasks can rely on -/

/-- **Inheritance is exact along a run exactly when every mutex that is posted goes to the most
urgent task that waits for it**, and the running task is the most urgent one in any case. -/
theorem oneAtATime_inherits (r : Run kernelMachine hist k)
    (hu : ∀ e ∈ hist, OneAtATime server e.1 e.2) : AlwaysPreemptive hist k ∧
    (((∀ e ∈ hist, Inherits server e.1) ∧ Inherits server k) ↔
      ∀ e ∈ hist, FairPost server e.1 e.2) :=
  ⟨alwaysPreemptive_oneAtATime (kernelMachine_supported r) hu,
    inherits_iff_fair (kernelMachine_supported r) hu⟩

/-- **No priority inversion.** While a task waits for a mutex, no task of lower priority runs
but one that holds a mutex, for which a task at least as urgent as the first one waits. -/
theorem no_inversion (r : Run kernelMachine hist k)
    (hu : ∀ e ∈ hist, OneAtATime server e.1 e.2) (hf : ∀ e ∈ hist, FairPost server e.1 e.2)
    {w : Nat} (hs : server s = none) (hw : w ∈ k.semList s) :
    k.priority k.runningTask ≤ k.originalPriority w ∧
    (k.originalPriority w < k.originalPriority k.runningTask → ∃ s' v,
      mutexHolder server k s' = some k.runningTask ∧ v ∈ k.semList s' ∧
        k.originalPriority v ≤ k.originalPriority w) := by
  have rs := kernelMachine_supported r
  obtain ⟨ph, I⟩ := Inv.of_run rs
  have hb := I.active_of_pending (I.linked.mem_semList.mp hw)
  exact (Lends.of_run rs hu).urgent I ((inherits_iff_fair rs hu).mpr hf).2
    ((alwaysPreemptive_oneAtATime rs hu).2 hb) hs hw

/-! ## A server and three tasks -/

instance (server : Nat → Option Nat) (k : Kernel) (op : Op) :
    Decidable (OneAtATime server k op) :=
  match op with
  | .taskCreate _ => inferInstanceAs (Decidable (_ ≤ _))
  | .semCreate _ _ => inferInstanceAs (Decidable (∀ s ∈ _, _))
  | .osSemCreate _ _ _ _ => inferInstanceAs (Decidable False)
  | .semPend _ _ => inferInstanceAs (Decidable (_ ∨ _ ∧ ∀ s' < _, _ ∧ _))
  | .semPost _ => inferInstanceAs (Decidable (_ → _))
  | .uartPost _ => inferInstanceAs (Decidable (_ ≠ _))
  | .taskExit => inferInstanceAs (Decidable (∀ s' < _, _))
  | .taskResume _ | .activate _ => inferInstanceAs (Decidable True)

/-- The UART semaphore is semaphore 0, and the shell, with pid 0, its server. -/
def uartServer (s : Nat) : Option Nat := if s = 0 then some 0 else none

/-- Task 2 of priority 15 holds mutex 1. Task 3 of priority 5 waits for it, then task 4 of
priority 10 and the shell become ready. -/
def lendingOps : List Op :=
  [.semCreate 0 false, .taskCreate { taskPrio := 9 }, .taskResume 0, .activate 0,
    .semCreate 1 false, .taskCreate { taskPrio := 15 }, .taskResume 2, .semPend 0 osWaitForever,
    .semPend 1 osWaitForever, .taskCreate { taskPrio := 5 }, .taskResume 3,
    .semPend 1 osWaitForever, .taskCreate { taskPrio := 10 }, .taskResume 4, .uartPost 0]

def lendingKernel : Kernel := lendingOps.foldl Op.next bootKernel

theorem lending_run : Run kernelMachine (trace Op.next bootKernel lendingOps) lendingKernel :=
  Run.ofList (M := kernelMachine) bootKernel_initialised lendingOps (by decide +kernel)

theorem lending_oneAtATime : ∀ e ∈ trace Op.next bootKernel lendingOps,
    OneAtATime uartServer e.1 e.2 := by
  decide +kernel

/-- The only post is that of the signal. -/
theorem lending_fair : ∀ e ∈ trace Op.next bootKernel lendingOps, FairPost uartServer e.1 e.2 := by
  have hpost : ∀ e ∈ trace Op.next bootKernel lendingOps, ∀ s ∈ e.2.posts,
      uartServer s ≠ none := by decide +kernel
  exact fun e he s ho hs => absurd hs (hpost e he s ho)

theorem oneAtATime_inherits_lending : AlwaysPreemptive (trace Op.next bootKernel lendingOps)
    lendingKernel ∧ Inherits uartServer lendingKernel :=
  ⟨(oneAtATime_inherits lending_run lending_oneAtATime).1,
    ((oneAtATime_inherits lending_run lending_oneAtATime).2.mpr lending_fair).2⟩

/-- Task 2 runs, at the priority of task 3. -/
theorem no_inversion_lending : lendingKernel.runningTask = 2 ∧ lendingKernel.priority 2 ≤ 5 := by
  have hrun : lendingKernel.runningTask = 2 := by decide +kernel
  have hbase : lendingKernel.originalPriority 3 = 5 := by decide +kernel
  have h := (no_inversion lending_run lending_oneAtATime lending_fair
    (s := 1) (w := 3) (by decide) (by decide +kernel)).1
  rw [hrun, hbase] at h
  exact ⟨hrun, h⟩

end MiniEuler
