import MiniEuler.Library.HandOff
import MiniEuler.Kernel.Frame

/-! A semaphore of the kernel is a hand-off semaphore. What happens at it is read
off a run step by step: who takes a unit, who blocks, who is woken by whom. -/

namespace MiniEuler
open Library

/-- The tasks a step takes off the wait list of `s`. -/
def leaving (s : Nat) (k k' : Kernel) : List Nat :=
  (k.semList s).filter fun p => p ∉ k'.semList s

/-- What the call `op`, from `k` to `k'` with code `ret`, is to semaphore `s`. -/
def semEvents (s : Nat) (k : Kernel) (op : Op) (k' : Kernel) (ret : Nat) :
    List (HandOff.Event Nat) :=
  match op with
  | .semPend s' _ =>
    if s' = s ∧ ret = osOk then
      if k.runningTask ∈ k'.semList s then [.blocked k.runningTask] else [.took k.runningTask]
    else []
  | .semPost s' =>
    if s' = s ∧ ret = osOk then [.posted (some k.runningTask) (leaving s k k')] else []
  | .uartPost s' => if s' = s ∧ ret = osOk then [.posted none (leaving s k k')] else []
  | _ => []

/-- The events at `s` along a history. -/
def semHistory (s : Nat) (hist : History) : List (HandOff.Event Nat) :=
  hist.flatMap fun e => semEvents s e.1 e.2 (e.2.next e.1) (e.2.ret e.1)

theorem semHistory_snoc (s : Nat) (hist : History) (k : Kernel) (op : Op) :
    semHistory s (hist ++ [(k, op)]) =
      semHistory s hist ++ semEvents s k op (op.next k) (op.ret k) := by
  simp [semHistory]

/-- Semaphore `s` of `k` is a hand-off semaphore with the given history. -/
structure Refines (s c : Nat) (evs : List (HandOff.Event Nat)) (k : Kernel) : Prop where
  used : (k.allSem s).semStat = osSemUsed
  fifo : (k.allSem s).semMode = .fifo
  counting : (k.allSem s).semType = semTypeCount
  count_le : (k.allSem s).semCount ≤ osSemCountMax
  hist : ∃ h : HandOff Nat, HandOff.Hist c evs h ∧ h.count = (k.allSem s).semCount ∧
    h.queue = k.semList s

variable {k k' : Kernel} {ph : Nat → TskPhase} {s c : Nat} {evs : List (HandOff.Event Nat)}

theorem Refines.same (R : Refines s c evs k) (h : SemSame s k k') : Refines s c evs k' := by
  obtain ⟨hused, hfifo, hcnt, hle, hh⟩ := R
  constructor <;> rw [h.sem] <;> try assumption
  rwa [h.list]

/-- The poster of a call, if it is a task. -/
def posterOf (k : Kernel) : Op → Option Nat
  | .semPost _ => some k.runningTask
  | _ => none

theorem semEvents_post {op : Op} (h : op.posts = some s) :
    semEvents s k op k' osOk = [.posted (posterOf k op) (leaving s k k')] := by
  cases op <;> simp only [Op.posts, Option.some.injEq, reduceCtorEq] at h <;>
    simp [semEvents, posterOf, h]

theorem semEvents_other {op : Op} {ret : Nat} (hpend : ∀ timeout, op ≠ .semPend s timeout)
    (hpost : op.posts ≠ some s) : semEvents s k op k' ret = [] := by
  cases op with
  | semPend s' timeout =>
    have : s' ≠ s := by rintro rfl; exact hpend timeout rfl
    simp [semEvents, this]
  | semPost s' =>
    have : s' ≠ s := by rintro rfl; exact hpost rfl
    simp [semEvents, this]
  | uartPost s' =>
    have : s' ≠ s := by rintro rfl; exact hpost rfl
    simp [semEvents, this]
  | _ => rfl

theorem semEvents_failed {op : Op} {ret : Nat} (hr : ret ≠ osOk) :
    semEvents s k op k' ret = [] := by
  cases op <;> simp [semEvents, hr]

theorem leaving_self (h : k'.semList s = k.semList s) : leaving s k k' = [] := by
  simp [leaving, h]

theorem leaving_head (L : Linked k ph) {w : Nat} {rest : List Nat}
    (hl : k.semList s = w :: rest) (hl' : k'.semList s = rest) : leaving s k k' = [w] := by
  have hnd : (w :: rest).Nodup := hl ▸ L.placed.nodup (.semList s)
  obtain ⟨hw, -⟩ := List.nodup_cons.mp hnd
  unfold leaving
  rw [hl, hl', List.filter_cons_of_pos (by simpa using hw), List.filter_eq_nil_iff.mpr]
  intro p hp
  simpa using hp

theorem not_postIsInvalid (h : (k.allSem s).semType = semTypeCount) : ¬ osSemPostIsInvalid k s := by
  rw [osSemPostIsInvalid, h]
  simp [getSemType, semTypeCount, semTypeBin]

/-- What a call is to a counting semaphore served in order of arrival. -/
inductive SemEffect (s : Nat) (k : Kernel) (op : Op) (k' : Kernel) (ret : Nat) : Prop
  | same : SemSame s k k' → semEvents s k op k' ret = [] →
      (op.posts = some s → ret ≠ osOk) → SemEffect s k op k' ret
  | took : op.posts = none → k.runningTask ≤ k.tskMaxNum → 0 < (k.allSem s).semCount →
      k'.allSem s = { k.allSem s with
        semCount := (k.allSem s).semCount - 1
        semOwner := k.runningTask } →
      k'.semList s = k.semList s →
      semEvents s k op k' ret = [.took k.runningTask] → SemEffect s k op k' ret
  | blocked : op.posts = none → (k.allSem s).semCount = 0 → k'.allSem s = k.allSem s →
      k'.semList s = k.semList s ++ [k.runningTask] →
      semEvents s k op k' ret = [.blocked k.runningTask] → SemEffect s k op k' ret
  | woke {w rest} : op.posts = some s → ret = osOk → k.semList s = w :: rest →
      w ≤ k.tskMaxNum → k'.allSem s = { k.allSem s with semOwner := w } → k'.semList s = rest →
      leaving s k k' = [w] → semEvents s k op k' ret = [.posted (posterOf k op) [w]] →
      SemEffect s k op k' ret
  | released : op.posts = some s → ret = osOk → (k.allSem s).semCount < osSemCountMax →
      k.semList s = [] →
      k'.allSem s = { k.allSem s with
        semCount := (k.allSem s).semCount + 1
        semOwner := osInvalidOwnerId } →
      k'.semList s = [] →
      semEvents s k op k' ret = [.posted (posterOf k op) []] → SemEffect s k op k' ret

theorem took_semEffect (I : Inv k ph) {timeout : Nat} (hb : bgdActive k)
    (hpos : 0 < (k.allSem s).semCount) (hle : (k.allSem s).semCount ≤ osSemCountMax) :
    SemEffect s k (.semPend s timeout) (tookKernel k s) osOk := by
  have hne : k.runningTask ∉ (tookKernel k s).semList s := by
    intro hm
    have := I.linked.mem_semList.mp (show k.runningTask ∈ k.semList s from hm)
    rw [(I.active hb).1] at this
    cases this
  have hnew : ((k.allSem s).semCount + (2 ^ 32 - 1)) % 2 ^ 32 = (k.allSem s).semCount - 1 := by
    unfold osSemCountMax at hle
    omega
  have hpid := I.linked.pid _ (I.running_le hb)
  refine .took rfl (I.running_le hb) hpos ?_ rfl (by simp [semEvents, hne])
  rw [← hnew]
  simp [tookKernel, Kernel.setSem, hpid]

/-- **Inversion of a call, seen from one semaphore.** -/
theorem Refines.semEffect (I : Inv k ph) {op : Op} {ret : Nat} (e : Effect k ph op k' ret)
    (hc : op.Callable k) (hsup : ¬ op.Unsupported k) (R : Refines s c evs k) :
    SemEffect s k op k' ret := by
  by_cases hpend : ∃ timeout, op = .semPend s timeout
  · obtain ⟨timeout, rfl⟩ := hpend
    cases e with
    | failed hr _ => exact .same (SemSame.refl k) (semEvents_failed hr) (fun _ => hr)
    | took hb hu hpos => exact took_semEffect I hc.1 hpos R.count_le
    | blocked hB =>
      obtain ⟨hsem, hlist⟩ := blocked_semList I hc.1 R.used (by rw [R.fifo]; decide)
      have F := (osTskSchedule_frame (osSemPendListPut k s)).semSame (s := s)
      rw [← F.sem] at hsem
      rw [← F.list] at hlist
      refine .blocked rfl hB.empty hsem hlist ?_
      simp only [semEvents, and_self, ↓reduceIte, hlist]
      simp
    | unsupported hB hf => exact absurd ⟨hB, hf⟩ hsup
    | semCreated hcr _ => simp [Op.creates] at hcr
    | full hp _ _ => simp [Op.posts] at hp
    | woke hp _ _ _ => simp [Op.posts] at hp
    | released hp _ _ _ => simp [Op.posts] at hp
  by_cases hpost : op.posts = some s
  · cases e with
    | failed hr _ => exact .same (SemSame.refl k) (semEvents_failed hr) (fun _ => hr)
    | @full _ s' hp hP hi =>
      obtain rfl : s = s' := Option.some.inj (hpost.symm.trans hp)
      exact absurd hi (not_postIsInvalid R.counting)
    | @woke _ s' hp hP _ hl =>
      obtain rfl : s = s' := Option.some.inj (hpost.symm.trans hp)
      obtain ⟨w, rest, hwr⟩ := List.exists_cons_of_ne_nil hl
      obtain ⟨hsem, hlist⟩ := woke_semList I R.used hwr
      have F := (osTskSchedule_frame (osSemPostSchePre k s)).semSame (s := s)
      rw [← F.sem] at hsem
      rw [← F.list] at hlist
      have hleave := leaving_head I.linked hwr hlist
      have hw : ph w = .pending s := I.linked.mem_semList.mp (by simp [hwr])
      have hle := I.linked.le_of_ne_dormant (p := w) (by rw [hw]; simp)
      exact .woke hpost rfl hwr hle hsem hlist hleave (by rw [semEvents_post hpost, hleave])
    | @released _ s' hp hP _ hl =>
      obtain rfl : s = s' := Option.some.inj (hpost.symm.trans hp)
      obtain ⟨hsem, hlist⟩ := released_semList I.linked R.used
      have hroom := hP.room
      have hnew : ((k.allSem s).semCount + 1) % 2 ^ 32 = (k.allSem s).semCount + 1 := by
        unfold osSemCountMax at hroom
        omega
      rw [hnew] at hsem
      exact .released hpost rfl hroom hl hsem (hlist.trans hl)
        (by rw [semEvents_post hpost, leaving_self hlist])
    | created _ _ => simp [Op.posts] at hpost
    | resumed _ => simp [Op.posts] at hpost
    | semCreated hcr _ => cases op <;> simp [Op.posts, Op.creates] at hpost hcr
    | took _ _ _ => simp [Op.posts] at hpost
    | blocked _ => simp [Op.posts] at hpost
    | unsupported _ _ => simp [Op.posts] at hpost
    | exited => simp [Op.posts] at hpost
    | activated _ => simp [Op.posts] at hpost
  · have hp : ∀ timeout, op ≠ .semPend s timeout := fun t h => hpend ⟨t, h⟩
    exact .same (e.semSame I hc (Or.inr R.used) hp hpost) (semEvents_other hp hpost)
      (fun h => absurd h hpost)

/-- **Step lemma.** Each call extends the history by the events it is. -/
theorem Refines.step {op : Op} {ret : Nat} (e : SemEffect s k op k' ret) (R : Refines s c evs k) :
    Refines s c (evs ++ semEvents s k op k' ret) k' := by
  obtain ⟨h, H, hcount, hqueue⟩ := R.hist
  cases e with
  | same hs hev _ =>
    rw [hev, List.append_nil]
    exact R.same hs
  | took _ _ hpos hsem hlist hev =>
    obtain ⟨hc', hq'⟩ := HandOff.pend_of_pos (h := h) k.runningTask (by omega)
    rw [hev]
    constructor <;> rw [hsem]
    · exact R.used
    · exact R.fifo
    · exact R.counting
    · exact (Nat.sub_le _ _).trans R.count_le
    · exact ⟨_, .took k.runningTask H (by omega), by rw [hc', hcount], by rw [hq', hqueue, hlist]⟩
  | blocked _ hzero hsem hlist hev =>
    obtain ⟨hc', hq'⟩ := HandOff.pend_of_zero (h := h) k.runningTask (by omega)
    rw [hev]
    constructor <;> rw [hsem]
    · exact R.used
    · exact R.fifo
    · exact R.counting
    · exact R.count_le
    · exact ⟨_, .blocked k.runningTask H (by omega), by rw [hc', hzero],
        by rw [hq', hqueue, hlist]⟩
  | @woke w rest _ _ hwr _ hsem hlist _ hev =>
    obtain ⟨hc', hq'⟩ := HandOff.post_of_cons (hqueue.trans hwr)
    have hwoken : h.queue.head?.toList = [w] := by rw [hqueue, hwr]; rfl
    rw [hev, ← hwoken]
    constructor <;> rw [hsem]
    · exact R.used
    · exact R.fifo
    · exact R.counting
    · exact R.count_le
    · exact ⟨_, .posted _ H, hc'.trans hcount, hq'.trans hlist.symm⟩
  | released _ _ hroom hl hsem hlist hev =>
    obtain ⟨hc', hq'⟩ := HandOff.post_of_nil (hqueue.trans hl)
    have hwoken : h.queue.head?.toList = [] := by rw [hqueue, hl]; rfl
    rw [hev, ← hwoken]
    constructor <;> rw [hsem]
    · exact R.used
    · exact R.fifo
    · exact R.counting
    · exact hroom
    · exact ⟨_, .posted _ H, by rw [hc', hcount], by rw [hq', hlist]⟩

/-! ## A pend and a post that succeed -/

/-- Semaphore `s` has the units and the waiters of `h`. -/
structure SemIs (k : Kernel) (s : Nat) (h : HandOff Nat) : Prop where
  count : (k.allSem s).semCount = h.count
  list : k.semList s = h.queue

theorem SemIs.same {h : HandOff Nat} (H : SemIs k s h) (S : SemSame s k k') : SemIs k' s h :=
  ⟨by rw [S.sem, H.count], by rw [S.list, H.list]⟩

theorem Inv.lt_maxSem (I : Inv k ph) (hs : (k.allSem s).semStat = osSemUsed) : s < k.maxSem := by
  by_contra hle
  have hun := I.sems.beyond s (by omega)
  rw [hs] at hun
  cases hun

/-- A pend that may wait does not fail. -/
theorem prtSemPend_ret (I : Inv k ph) (hs : (k.allSem s).semStat = osSemUsed) :
    (prtSemPend k s osWaitForever).2 = osOk := by
  have hbound := I.lt_maxSem hs
  unfold prtSemPend
  rw [if_neg (by omega), if_neg (by rw [hs]; decide), if_neg I.not_osIntActive]
  cases osSemPendNotNeedSche k s k.runningTask with
  | some k' => rfl
  | none => simp [osSemPendParaCheck, I.lock, osWaitForever, osNoWait]

/-- A pend that may wait takes a unit, or joins the waiters when there is none. -/
theorem Refines.pend_cases (R : Refines s c evs k) (I : Inv k ph)
    (hc : (Op.semPend s osWaitForever).Callable k)
    (hk : (Op.semPend s osWaitForever).next k = k') :
    (0 < (k.allSem s).semCount ∧
      k'.allSem s = { k.allSem s with
        semCount := (k.allSem s).semCount - 1
        semOwner := k.runningTask } ∧
      k'.semList s = k.semList s) ∨
    ((k.allSem s).semCount = 0 ∧ k'.allSem s = k.allSem s ∧
      k'.semList s = k.semList s ++ [k.runningTask]) := by
  have hsup : ¬ (Op.semPend s osWaitForever).Unsupported k := fun hu => hu.2 rfl
  have hret : (Op.semPend s osWaitForever).ret k = osOk := prtSemPend_ret I R.used
  have es := R.semEffect I ((Op.semPend s osWaitForever).effect I.linked I.lock hc) hc hsup
  have hevs : semEvents s k (.semPend s osWaitForever) ((Op.semPend s osWaitForever).next k)
      ((Op.semPend s osWaitForever).ret k) ≠ [] := by
    simp only [semEvents, hret, and_self, ↓reduceIte]
    split <;> simp
  subst hk
  cases es with
  | same _ hev _ => exact absurd hev hevs
  | took _ _ hpos hsem hlist _ => exact Or.inl ⟨hpos, hsem, hlist⟩
  | blocked _ hzero hsem hlist _ => exact Or.inr ⟨hzero, hsem, hlist⟩
  | woke hp _ _ _ _ _ _ _ => cases hp
  | released hp _ _ _ _ _ _ => cases hp

/-- A post that finds room wakes the first waiter, or adds a unit when nobody waits. -/
theorem Refines.post_cases (R : Refines s c evs k) (I : Inv k ph)
    (hroom : (k.allSem s).semCount < osSemCountMax) (hk : (Op.semPost s).next k = k') :
    (∃ w rest, k.semList s = w :: rest ∧ k'.allSem s = { k.allSem s with semOwner := w } ∧
      k'.semList s = rest) ∨
    (k.semList s = [] ∧
      k'.allSem s = { k.allSem s with
        semCount := (k.allSem s).semCount + 1
        semOwner := osInvalidOwnerId } ∧
      k'.semList s = []) := by
  have hP : Posts k s := ⟨I.lt_maxSem R.used, by rw [R.used]; decide, hroom⟩
  have hret : (Op.semPost s).ret k = osOk := prtSemPost_ret hP
  have es := R.semEffect I ((Op.semPost s).effect I.linked I.lock trivial) trivial id
  subst hk
  cases es with
  | same _ _ hno => exact absurd hret (hno rfl)
  | took hp _ _ _ _ _ => cases hp
  | blocked hp _ _ _ _ => cases hp
  | woke _ _ hwr _ hsem hlist _ _ => exact Or.inl ⟨_, _, hwr, hsem, hlist⟩
  | released _ _ _ hl hsem hlist _ => exact Or.inr ⟨hl, hsem, hlist⟩

/-- `PRT_SemPend` with `OS_WAIT_FOREVER` is the pend of a hand-off semaphore. -/
theorem Refines.pend (R : Refines s c evs k) (I : Inv k ph) {h : HandOff Nat} (H : SemIs k s h)
    (hc : (Op.semPend s osWaitForever).Callable k) :
    SemIs ((Op.semPend s osWaitForever).next k) s (h.pend k.runningTask) := by
  rcases R.pend_cases I hc rfl with ⟨hpos, hsem, hlist⟩ | ⟨hzero, hsem, hlist⟩
  · obtain ⟨hcount, hqueue⟩ :=
      HandOff.pend_of_pos (h := h) k.runningTask (by rw [← H.count]; exact hpos)
    exact ⟨by rw [hsem, hcount, ← H.count], by rw [hlist, hqueue, H.list]⟩
  · obtain ⟨hcount, hqueue⟩ :=
      HandOff.pend_of_zero (h := h) k.runningTask (by rw [← H.count]; exact hzero)
    exact ⟨by rw [hsem, hcount, hzero], by rw [hlist, hqueue, H.list]⟩

/-- `PRT_SemPost` is the post of a hand-off semaphore, if there is room. -/
theorem Refines.post (R : Refines s c evs k) (I : Inv k ph) {h : HandOff Nat} (H : SemIs k s h)
    (hroom : h.count < osSemCountMax) :
    SemIs ((Op.semPost s).next k) s h.post := by
  rcases R.post_cases I (by rw [H.count]; exact hroom) rfl with
    ⟨w, rest, hwr, hsem, hlist⟩ | ⟨hl, hsem, hlist⟩
  · obtain ⟨hcount, hqueue⟩ := HandOff.post_of_cons (H.list.symm.trans hwr)
    exact ⟨by rw [hsem, hcount, ← H.count], by rw [hlist, hqueue]⟩
  · obtain ⟨hcount, hqueue⟩ := HandOff.post_of_nil (H.list.symm.trans hl)
    exact ⟨by rw [hsem, hcount, ← H.count], by rw [hlist, hqueue]⟩

/-! ## What one call does to the waiters -/

/-- Waiters leave only by a post on their semaphore, which takes the first one and
puts nothing into the count. -/
structure WakesFirst (s : Nat) (k : Kernel) (op : Op) (k' : Kernel) (ret : Nat) : Prop where
  byPost : leaving s k k' ≠ [] → op.posts = some s ∧ ret = osOk
  first : op.posts = some s → ret = osOk → ∀ w rest, k.semList s = w :: rest →
    leaving s k k' = [w] ∧ (k'.allSem s).semCount = (k.allSem s).semCount

theorem SemEffect.wakesFirst {op : Op} {ret : Nat} (e : SemEffect s k op k' ret) :
    WakesFirst s k op k' ret := by
  cases e with
  | same hs _ hno =>
    exact ⟨fun h => absurd (leaving_self hs.list) h, fun ho hr => absurd hr (hno ho)⟩
  | took ho _ _ _ hlist _ =>
    refine ⟨fun h => absurd (leaving_self hlist) h, fun ho' => ?_⟩
    rw [ho] at ho'
    cases ho'
  | blocked ho _ _ hlist _ =>
    refine ⟨fun h => absurd ?_ h, fun ho' => ?_⟩
    · rw [leaving, hlist]
      exact List.filter_eq_nil_iff.mpr fun p hp => by simp [hp]
    · rw [ho] at ho'
      cases ho'
  | woke ho hr hwr _ hsem _ hleave _ =>
    refine ⟨fun _ => ⟨ho, hr⟩, fun _ _ w' rest' hwr' => ?_⟩
    obtain ⟨rfl, -⟩ := List.cons.inj (hwr.symm.trans hwr')
    exact ⟨hleave, by rw [hsem]⟩
  | released ho hr _ hl _ _ _ =>
    refine ⟨fun _ => ⟨ho, hr⟩, fun _ _ w rest hwr => ?_⟩
    rw [hl] at hwr
    cases hwr

/-! ## Runs -/

/-- The handle that `PRT_SemCreate` gives is that of the first semaphore not in use. -/
theorem Inv.semCreate_eq (I : Inv k ph) {null : Bool} (hs : (prtSemCreate k c null).2 = .ok s) :
    ∃ rest, k.unusedSemList = s :: rest ∧ c ≤ osSemCountMax ∧
      (Op.semCreate c null).next k =
        semCreatedKernel k s rest (createdSem k s c semTypeCount .fifo) := by
  rcases prtSemCreate_cases k c null with ⟨ret, -, h⟩ | ⟨s', rest, hl, hle, h⟩
  · rw [h] at hs
    cases hs
  · obtain ⟨hlt, -⟩ := (I.sems.unusedSem s').mp (by simp [hl])
    rw [h, I.sems.semId s' hlt] at hs
    obtain rfl := Except.ok.inj hs
    exact ⟨rest, hl, hle, by rw [Op.next, Op.exec, h]⟩

theorem Refines.created (I : Inv k ph) {null : Bool} (hs : (prtSemCreate k c null).2 = .ok s) :
    Refines s c [] ((Op.semCreate c null).next k) := by
  obtain ⟨rest, -, hle, hnext⟩ := I.semCreate_eq hs
  rw [hnext]
  refine ⟨?_, ?_, ?_, ?_, HandOff.new c, .new, ?_, ?_⟩ <;>
    simp [semCreatedKernel, createdSem, Kernel.semList, hle]

/-- **Run lemma.** From the call that creates it on, a semaphore is a hand-off
semaphore, and every call wakes as `WakesFirst` says. -/
theorem Refines.of_run {hist : History} (r : Run supportedMachine hist k) :
    ∀ pre k₀ c null post s, hist = pre ++ (k₀, .semCreate c null) :: post →
      (prtSemCreate k₀ c null).2 = .ok s → Refines s c (semHistory s post) k ∧
      ∀ e ∈ post, WakesFirst s e.1 e.2 (e.2.next e.1) (e.2.ret e.1) := by
  refine r.invariant_hist (fun hist k => ∀ pre k₀ c null post s,
    hist = pre ++ (k₀, .semCreate c null) :: post → (prtSemCreate k₀ c null).2 = .ok s →
    Refines s c (semHistory s post) k ∧
      ∀ e ∈ post, WakesFirst s e.1 e.2 (e.2.next e.1) (e.2.ret e.1)) ?_ ?_
  · intro _ _ pre _ _ _ post _ he
    simp at he
  · rintro hist k op r ih ⟨hc, hsup⟩ pre k₀ c null post s he hs
    obtain ⟨ph, I⟩ := Inv.of_run r
    have e := op.effect I.linked I.lock hc
    rcases List.eq_nil_or_concat post with rfl | ⟨post', last, rfl⟩
    · obtain ⟨-, h2⟩ := List.append_inj' he rfl
      obtain ⟨rfl, rfl⟩ := Prod.mk.inj (List.cons.inj h2).1
      exact ⟨Refines.created I hs, by simp⟩
    · have he' : hist ++ [(k, op)] = (pre ++ (k₀, .semCreate c null) :: post') ++ [last] := by
        simp [he]
      obtain ⟨h1, h2⟩ := List.append_inj' he' rfl
      obtain rfl := (List.cons.inj h2).1
      obtain ⟨R, hw⟩ := ih pre k₀ c null post' s h1 hs
      have es := R.semEffect I e hc hsup
      rw [List.concat_eq_append, semHistory_snoc]
      refine ⟨R.step es, fun x hx => ?_⟩
      rcases List.mem_append.mp hx with hx | hx
      · exact hw x hx
      · rw [List.mem_singleton.mp hx]
        exact es.wakesFirst

/-- What a semaphore created with count `c` keeps to, `evs` being the steps since. -/
structure SemContract (s c : Nat) (evs : History) (k : Kernel) : Prop where
  conserved : (k.allSem s).semCount + (HandOff.grants (semHistory s evs)).length =
    c + HandOff.posts (semHistory s evs)
  noWaste : k.semList s ≠ [] → (k.allSem s).semCount = 0
  count_le : (k.allSem s).semCount ≤ osSemCountMax
  fifo : (semHistory s evs).filterMap HandOff.Event.blockedTask =
    (semHistory s evs).flatMap HandOff.Event.wokenTasks ++ k.semList s
  wakes : ∀ e ∈ evs, WakesFirst s e.1 e.2 (e.2.next e.1) (e.2.ret e.1)
  exclusive : c = 1 → HandOff.Disciplined (semHistory s evs) → ∀ t t',
    HandOff.Holds t (semHistory s evs) → HandOff.Holds t' (semHistory s evs) →
    t = t' ∧ HandOff.grantsTo t (semHistory s evs) = HandOff.postsBy t (semHistory s evs) + 1

/-- **No unit is lost, doubled or stolen**, in any order of calls. -/
theorem semContract_of_run {hist post : History} (r : Run kernelMachine hist k)
    (pre : History) (k₀ : Kernel) (null : Bool) (hh : hist = pre ++ (k₀, .semCreate c null) :: post)
    (hs : (prtSemCreate k₀ c null).2 = .ok s) : SemContract s c post k := by
  obtain ⟨R, hw⟩ := Refines.of_run (kernelMachine_supported r) pre k₀ c null post s hh hs
  obtain ⟨h, H, hcount, hqueue⟩ := R.hist
  refine ⟨?_, ?_, R.count_le, ?_, hw, ?_⟩
  · rw [← hcount]
    exact H.conservation
  · rw [← hcount, ← hqueue]
    exact fun hne => h.noWaste.resolve_left hne
  · rw [← hqueue]
    exact H.fifo
  · rintro rfl d t t' ht ht'
    exact H.exclusive d ht ht'

/-- One semaphore of one unit, pended by the two tasks of a run and posted once. -/
def twoPendsOps : List Op :=
  [.activate 0, .semCreate 1 false, .taskCreate { taskPrio := 20 }, .taskResume 1,
    .semPend 0 osWaitForever, .taskCreate { taskPrio := 10 }, .taskResume 2,
    .semPend 0 osWaitForever, .semPost 0]

theorem semContract_of_twoPends :
    SemContract 0 1 ((trace Op.next bootKernel twoPendsOps).drop 2)
      (twoPendsOps.foldl Op.next bootKernel) :=
  semContract_of_run
    (Run.ofList (M := kernelMachine) bootKernel_initialised twoPendsOps (by decide +kernel))
    ((trace Op.next bootKernel twoPendsOps).take 1) ((Op.activate 0).next bootKernel) false rfl
    (by decide +kernel)

end MiniEuler
