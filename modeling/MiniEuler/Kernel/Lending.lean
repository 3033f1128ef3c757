import MiniEuler.Library.Lending
import MiniEuler.Kernel.WakeOrder
import MiniEuler.Kernel.BasePriority

/-! Tasks that take mutexes one at a time, beside servers that wait for signals of their own:
what the inheritance code does then is priority lending. -/

namespace MiniEuler
open Library

section
variable (server : Nat → Option Nat)

/-- The task that holds semaphore `s`, if that is a mutex. A semaphore that has a server is a
signal: that task alone waits for it, and anybody posts it. -/
def mutexHolder (k : Kernel) (s : Nat) : Option Nat :=
  if server s = none ∧ (k.allSem s).semStat = osSemUsed ∧ (k.allSem s).semCount = 0 then
    some (k.allSem s).semOwner
  else none

/-- Task `p` holds mutex `s`, or waits for it. -/
def Uses (k : Kernel) (s p : Nat) : Prop :=
  mutexHolder server k s = some p ∨ server s = none ∧ p ∈ k.semList s

/-- Mutexes have one unit, are taken by tasks that hold none and are no servers, and are posted
by those who hold them. Tasks have a priority of 63 at most, as `prt_task.h` asks for, and
`OsSemCreate` is called by `PRT_SemCreate` alone. -/
def OneAtATime (k : Kernel) : Op → Prop
  | .taskCreate initParam => initParam.taskPrio ≤ osTskPriorityLowest
  | .semCreate count _ => ∀ s ∈ k.unusedSemList.head?, server s = none → count = 1
  | .osSemCreate _ _ _ _ => False
  | .semPend s _ => server s = some k.runningTask ∨ server s = none ∧
      ∀ s' < k.maxSem, server s' ≠ some k.runningTask ∧
        mutexHolder server k s' ≠ some k.runningTask
  | .semPost s => server s = none → mutexHolder server k s = some k.runningTask
  | .uartPost s => server s ≠ none
  | .taskExit => ∀ s' < k.maxSem, mutexHolder server k s' ≠ some k.runningTask
  | _ => True

def lending (k : Kernel) : Lending Nat Nat Nat where
  base := k.originalPriority
  prio := k.priority
  holder := mutexHolder server k
  queue s := if server s = none then k.semList s else []

/-- The task that holds mutex `s` is as urgent as the tasks that wait for it need, and not more. -/
def InheritsAt (k : Kernel) (s : Nat) : Prop :=
  ∀ p, mutexHolder server k s = some p → IsLeast
    (insert (k.originalPriority p) (k.originalPriority '' {w | w ∈ k.semList s})) (k.priority p)

def Inherits (k : Kernel) : Prop := ∀ s, InheritsAt server k s

/-- The mutex that the call posts goes to the most urgent of its waiters. -/
def FairPost (k : Kernel) (op : Op) : Prop :=
  ∀ s ∈ op.posts, server s = none → ∀ w rest, k.semList s = w :: rest →
    ∀ q ∈ rest, k.originalPriority w ≤ k.originalPriority q

/-- The semaphores are mutexes and signals, as `server` says. -/
structure SemKinds (k : Kernel) : Prop where
  refines : ∀ s, (k.allSem s).semStat = osSemUnused ∨ ∃ c evs, Refines s c evs k
  mutex : ∀ s, server s = none → (k.allSem s).semStat = osSemUsed →
    (k.allSem s).semCount ≤ 1 ∧
      ((k.allSem s).semCount = 0 ↔ (k.allSem s).semOwner ≠ osInvalidOwnerId)
  signal : ∀ s p, server s = some p → (k.allSem s).semStat = osSemUsed →
    ((k.allSem s).semOwner = osInvalidOwnerId ∨ (k.allSem s).semOwner = p) ∧
      ∀ q ∈ k.semList s, q = p
  client : ∀ s p, server s = some p → s < k.maxSem → (lending server k).Apart p
  ready : ∀ s p, mutexHolder server k s = some p → p ∈ k.runQueue
  base : ∀ p ≤ k.tskMaxNum, k.originalPriority p ≤ osTskPriorityLowest

/-- The kernel lends priorities. -/
structure Lends (k : Kernel) : Prop extends SemKinds server k where
  oneEach : Lending.OneEach {p | p ≤ k.tskMaxNum} (lending server k)

end

variable {server : Nat → Option Nat} {k k' : Kernel} {ph : Nat → TskPhase} {s : Nat}
variable {hist : History}

/-! ## Reading the mutexes -/

theorem mutexHolder_eq_some {p : Nat} : mutexHolder server k s = some p ↔ server s = none ∧
    (k.allSem s).semStat = osSemUsed ∧ (k.allSem s).semCount = 0 ∧
      (k.allSem s).semOwner = p := by
  unfold mutexHolder
  split
  · rename_i h
    simp [h]
  · rename_i h
    simp only [reduceCtorEq, false_iff]
    exact fun h' => h ⟨h'.1, h'.2.1, h'.2.2.1⟩

theorem mutexHolder_signal {p : Nat} (h : server s = some p) : mutexHolder server k s = none := by
  rw [mutexHolder, if_neg]
  rw [h]
  simp

theorem mutexHolder_congr (h : SemSame s k k') :
    mutexHolder server k' s = mutexHolder server k s := by
  rw [mutexHolder, mutexHolder, h.sem]

theorem lending_queue (hs : server s = none) : (lending server k).queue s = k.semList s :=
  if_pos hs

theorem lending_queue_signal {p : Nat} (hs : server s = some p) :
    (lending server k).queue s = [] := by
  rw [lending]
  exact if_neg (by simp [hs])

theorem lending_queue_congr (h : SemSame s k k') :
    (lending server k').queue s = (lending server k).queue s := by
  simp only [lending, h.list]

theorem inheritsAt_iff_exact : InheritsAt server k s ↔ (lending server k).ExactAt s := by
  refine forall_congr' fun p => forall_congr' fun hh => ?_
  rw [Lending.claims, lending_queue (mutexHolder_eq_some.mp hh).1]
  rfl

theorem inherits_iff_exact : Inherits server k ↔ (lending server k).Exact :=
  forall_congr' fun _ => inheritsAt_iff_exact

/-- A mutex that has a unit is held by nobody. -/
theorem inheritsAt_of_count (h : 0 < (k.allSem s).semCount) : InheritsAt server k s := by
  intro p hh
  have hzero := (mutexHolder_eq_some.mp hh).2.2.1
  omega

theorem fair_iff (hs : server s = none) : (lending server k).Fair s ↔
    ∀ w rest, k.semList s = w :: rest →
      ∀ q ∈ rest, k.originalPriority w ≤ k.originalPriority q := by
  rw [Lending.Fair, lending_queue hs]
  rfl

/-- A call that leaves the mutexes alone writes priorities at most. -/
theorem lending_same (h : ∀ s, server s = none → SemSame s k k') : lending server k' =
    { lending server k with base := k'.originalPriority, prio := k'.priority } := by
  have hholder : mutexHolder server k' = mutexHolder server k := by
    funext s
    cases hs : server s with
    | none => exact mutexHolder_congr (h s hs)
    | some p => rw [mutexHolder_signal hs, mutexHolder_signal hs]
  have hqueue : (lending server k').queue = (lending server k).queue := by
    funext s
    cases hs : server s with
    | none => exact lending_queue_congr (h s hs)
    | some p => rw [lending_queue_signal hs, lending_queue_signal hs]
  calc lending server k' = { lending server k' with
        holder := mutexHolder server k', queue := (lending server k').queue } := rfl
    _ = _ := by rw [hholder, hqueue]; rfl

theorem lending_quiet (h : ∀ s, server s = none → SemSame s k k')
    (hb : k'.originalPriority = k.originalPriority) (hp : k'.priority = k.priority) :
    lending server k' = lending server k := by
  rw [lending_same h, hb, hp]
  rfl

/-- What a call about mutex `s` changes of it. -/
theorem lending_update (hs : server s = none) (h : ∀ s', s' ≠ s → SemSame s' k k') :
    lending server k' =
      { base := k'.originalPriority
        prio := k'.priority
        holder := Function.update (lending server k).holder s (mutexHolder server k' s)
        queue := Function.update (lending server k).queue s (k'.semList s) } := by
  unfold lending
  congr 1
  · funext s'
    by_cases hne : s' = s
    · subst hne
      rw [Function.update_self]
    · rw [Function.update_of_ne hne]
      exact mutexHolder_congr (h s' hne)
  · funext s'
    by_cases hne : s' = s
    · subst hne
      rw [Function.update_self, if_pos hs]
    · rw [Function.update_of_ne hne, (h s' hne).list]

/-- Only the holder posts a mutex. -/
theorem OneAtATime.posts {op : Op} (hu : OneAtATime server k op) (ho : op.posts = some s)
    (hs : server s = none) : mutexHolder server k s = some k.runningTask := by
  cases op with
  | semPost s' =>
    obtain rfl := Option.some.inj ho
    exact hu hs
  | uartPost s' =>
    obtain rfl := Option.some.inj ho
    exact absurd hs hu
  | _ => cases ho

/-! ## Who is apart -/

theorem Inv.holder_lt (I : Inv k ph) {p : Nat} (h : mutexHolder server k s = some p) :
    s < k.maxSem := I.lt_maxSem (mutexHolder_eq_some.mp h).2.1

/-- A task that runs waits for nothing. -/
theorem Inv.running_apart (I : Inv k ph) (hb : bgdActive k)
    (h : ∀ s' < k.maxSem, mutexHolder server k s' ≠ some k.runningTask) :
    (lending server k).Apart k.runningTask := by
  refine ⟨fun s hs => h s (I.holder_lt hs) hs, fun s hm => ?_⟩
  have hm : k.runningTask ∈ k.semList s := by
    simp only [lending] at hm
    split at hm
    · exact hm
    · cases hm
  have hp := I.linked.mem_semList.mp hm
  rw [(I.active hb).1] at hp
  cases hp

/-- A block that no task has is apart. -/
theorem Lends.unused_apart (S : Lends server k) (I : Inv k ph) {p : Nat} (hu : ph p = .unused) :
    (lending server k).Apart p := by
  refine ⟨fun s hs => ?_, fun s hm => ?_⟩
  · obtain ⟨hserver, hused, hzero, rfl⟩ := mutexHolder_eq_some.mp hs
    have hvalid := (S.mutex s hserver hused).2.mp hzero
    exact ((I.linked.owner s hused).resolve_left hvalid).2 hu
  · simp only [lending] at hm
    split at hm
    · have hp := I.linked.mem_semList.mp hm
      rw [hu] at hp
      cases hp
    · cases hm

/-! ## Priorities after a call -/

theorem originalPriority_osSemPendListPut (L : Linked k ph) (hr : ph k.runningTask = .ready)
    (hs : (k.allSem s).semStat = osSemUsed) :
    (osSemPendListPut k s).originalPriority = k.originalPriority := by
  obtain ⟨-, hsem⟩ := semPendEnter_frame (k := k) (s := s)
  have F := osPriorityInherit_prioFrame (L.semPendEnter hr s) (s := s) (by rw [hsem]; exact hs)
    k.runningTask
  rw [osSemPendListPut_eq, F.originalPriority]
  funext p
  rw [Kernel.originalPriority, semPendEnter_eq]
  by_cases h : p = k.runningTask
  · subst h; simp [pendingTcb]
  · simp [h]

theorem originalPriority_osTskReadyDel (k : Kernel) (p : Nat) :
    (osTskReadyDel k p).originalPriority = k.originalPriority := by
  funext q
  rw [Kernel.originalPriority, osTskReadyDel_eq]
  by_cases hq : q = p
  · subst hq
    simp
  · simp [hq]

theorem createdKernel_priority (k : Kernel) (cb : Nat) (t : TagTskCb) (used : Nat → Bool) :
    (createdKernel k cb t used).priority = Function.update k.priority cb t.priority ∧
    (createdKernel k cb t used).originalPriority =
      Function.update k.originalPriority cb t.originalPriority := by
  constructor <;> funext q <;> by_cases h : q = cb
  · subst h; simp [Kernel.priority, createdKernel]
  · simp [Kernel.priority, createdKernel, h]
  · subst h; simp [Kernel.originalPriority, createdKernel]
  · simp [Kernel.originalPriority, createdKernel, h]

/-- The priority of a task of base at most 63. -/
theorem SemKinds.priority_lt (S : SemKinds server k) (L : Linked k ph) {p : Nat}
    (hp : p ≤ k.tskMaxNum) : k.priority p < 255 := by
  have hle := (L.boost p hp).1
  have hbase := S.base p hp
  unfold osTskPriorityLowest at hbase
  omega

/-- The most urgent of the tasks that wait for `s`, the running one among them. -/
theorem SemKinds.least_waiter (S : SemKinds server k) (L : Linked k ph)
    (hp : k.runningTask ≤ k.tskMaxNum) :
    IsLeast (k.priority '' {w | w ∈ k.semList s ++ [k.runningTask]})
      (min (k.priority k.runningTask) (osSemFindHighestWaiterPriority k s)) := by
  obtain ⟨-, hall, hone⟩ := osSemFindHighestWaiterPriority_spec k s
  have hlt := S.priority_lt L hp
  constructor
  · by_cases hle : k.priority k.runningTask ≤ osSemFindHighestWaiterPriority k s
    · exact ⟨k.runningTask, by simp, (min_eq_left hle).symm⟩
    · rcases hone with h | ⟨t, ht, h⟩
      · omega
      · exact ⟨t, by simp [ht], by rw [min_eq_right (by omega), h]⟩
  · rintro p ⟨w, hw, rfl⟩
    rcases List.mem_append.mp hw with hw | hw
    · exact (min_le_right _ _).trans (hall w hw)
    · rw [List.mem_singleton.mp hw]
      exact min_le_left _ _

/-- A pend that blocks lends the owner what it needs. -/
theorem priority_blocked_owner (L : Linked k ph) (hr : ph k.runningTask = .ready)
    (hs : (k.allSem s).semStat = osSemUsed) (hv : (k.allSem s).semOwner ≠ osInvalidOwnerId) :
    (osSemPendListPut k s).priority = Function.update k.priority (k.allSem s).semOwner
      (min (k.priority (k.allSem s).semOwner)
        (min (k.priority k.runningTask) (osSemFindHighestWaiterPriority k s))) := by
  obtain ⟨hle, hnu⟩ := (L.owner s hs).resolve_left hv
  have hu := L.not_tskIsUnused hle hnu
  rw [priority_blocked L hr hs, inheritPriority]
  simp only [hv, hu, false_or]
  split
  · rename_i hge
    rw [min_eq_left hge, Function.update_eq_self]
  · rename_i hlt
    rw [min_eq_right (le_of_not_ge hlt)]

/-- What a post gives the owner back. -/
theorem SemKinds.restored (S : SemKinds server k) (L : Linked k ph) (hs : server s = none)
    (hused : (k.allSem s).semStat = osSemUsed) (hv : (k.allSem s).semOwner ≠ osInvalidOwnerId) :
    ∃ p, (osPriorityRestore k s).priority = Function.update k.priority (k.allSem s).semOwner p ∧
      (lending server k).Restored s (k.allSem s).semOwner p := by
  obtain ⟨hle, hnu⟩ := (L.owner s hused).resolve_left hv
  have hu := L.not_tskIsUnused hle hnu
  rw [priority_restored, restorePriority]
  simp only [hv, hu, false_or]
  split
  · rename_i heq
    exact ⟨_, (Function.update_eq_self _ _).symm, Or.inl heq⟩
  · rename_i hne
    refine ⟨_, rfl, ?_⟩
    unfold restoredPriority
    split
    · rename_i hlt
      obtain ⟨-, -, h | ⟨t, ht, h⟩⟩ := osSemFindHighestWaiterPriority_spec k s
      · have := S.priority_lt L hle
        omega
      · exact Or.inr ⟨hne, hlt, t, by rw [lending_queue hs]; exact ht, h⟩
    · exact Or.inl rfl

/-! ## What calls lend -/

/-- A step of the lending, or a hand-over of the mutex that the call posts. -/
structure LendStep (server : Nat → Option Nat) (k : Kernel) (op : Op) (k' : Kernel) : Prop where
  step : Lending.Step {p | p ≤ k.tskMaxNum} (lending server k) (lending server k') ∨
    ∃ s, op.posts = some s ∧ Lending.HandOver s (lending server k) (lending server k')
  base : ∀ p, k'.originalPriority p = k.originalPriority p ∨
    k'.originalPriority p ≤ osTskPriorityLowest

namespace LendStep

variable {op : Op}

theorem of_base (hb : k'.originalPriority = k.originalPriority)
    (h : Lending.Step {p | p ≤ k.tskMaxNum} (lending server k) (lending server k') ∨
      ∃ s, op.posts = some s ∧ Lending.HandOver s (lending server k) (lending server k')) :
    LendStep server k op k' := ⟨h, fun p => Or.inl (congrFun hb p)⟩

theorem quiet (h : ∀ s, server s = none → SemSame s k k')
    (hb : k'.originalPriority = k.originalPriority) (hp : k'.priority = k.priority) :
    LendStep server k op k' := by
  refine of_base hb ?_
  rw [lending_quiet h hb hp]
  exact Or.inl .stay

/-- A block that nobody has is given a base. -/
theorem adopt {cb v : Nat} (hv : v ≤ osTskPriorityLowest)
    (h : ∀ s, server s = none → SemSame s k k')
    (hb : k'.originalPriority = Function.update k.originalPriority cb v)
    (hp : k'.priority = Function.update k.priority cb v) (ha : (lending server k).Apart cb) :
    LendStep server k op k' := by
  constructor
  · rw [lending_same h, hb, hp]
    exact Or.inl (.adopt v ha)
  · intro p
    rw [hb]
    by_cases hpc : p = cb
    · subst hpc
      rw [Function.update_self]
      exact Or.inr hv
    · exact Or.inl (Function.update_of_ne hpc _ _)

end LendStep

section
variable (S : Lends server k) (I : Inv k ph)
include S I

theorem Lends.lend_created {initParam : TskInitParam} {cb : Nat} {rest : List Nat} {t : TagTskCb}
    (used : Nat → Bool) (hl : k.tskCbFreeList = cb :: rest) (hcr : Created k initParam cb t)
    (hprio : initParam.taskPrio ≤ osTskPriorityLowest) {op : Op} :
    LendStep server k op (createdKernel k cb t used) := by
  have hu : ph cb = .unused := I.linked.mem_tskCbFreeList.mp (by simp [hl])
  obtain ⟨hp, hb⟩ := createdKernel_priority k cb t used
  rw [hcr.priority] at hp
  rw [hcr.originalPriority] at hb
  exact .adopt hprio (fun _ _ => createdKernel_semSame I.linked hu t used) hb hp
    (S.unused_apart I hu)

omit S in
theorem Inv.lend_semCreated {rest : List Nat} {c : TagSemCb} {op : Op}
    (hl : k.unusedSemList = s :: rest) (hc : server s = none → c.semCount = 1) :
    LendStep server k op (semCreatedKernel k s rest c) := by
  have hother : ∀ s', s' ≠ s → SemSame s' k (semCreatedKernel k s rest c) :=
    fun s' hne => semCreatedKernel_semSame _ _ hne
  cases hs : server s with
  | some p =>
    refine .quiet (fun s' hs' => hother s' ?_) rfl rfl
    rintro rfl
    rw [hs] at hs'
    cases hs'
  | none =>
    have hun := ((I.sems.unusedSem s).mp (by simp [hl])).2
    have hempty : k.semList s = [] := by
      refine List.eq_nil_iff_forall_not_mem.mpr fun p hp => ?_
      have hw := (I.sems.waiting p s (I.linked.mem_semList.mp hp)).1
      rw [hun] at hw
      cases hw
    have hnone : (lending server k).holder s = none := by
      refine if_neg fun h => ?_
      rw [hun] at h
      exact absurd h.2.1 (by decide)
    have hholder : mutexHolder server (semCreatedKernel k s rest c) s = none := by
      rw [mutexHolder, if_neg]
      simp [semCreatedKernel, hc hs]
    have hqueue : (semCreatedKernel k s rest c).semList s = (lending server k).queue s := by
      rw [lending_queue hs, hempty]
      simp [semCreatedKernel, Kernel.semList]
    refine .of_base rfl ?_
    rw [lending_update hs hother, hqueue, hholder, ← hnone, Function.update_eq_self,
      Function.update_eq_self]
    exact Or.inl .stay

theorem Lends.lend_took {timeout : Nat} (hb : bgdActive k)
    (hu : OneAtATime server k (.semPend s timeout)) (hused : (k.allSem s).semStat ≠ osSemUnused)
    (hpos : 0 < (k.allSem s).semCount) :
    LendStep server k (.semPend s timeout) (tookKernel k s) := by
  have hother : ∀ s', s' ≠ s → SemSame s' k (tookKernel k s) :=
    fun s' hne => setSem_semSame _ hne
  rcases hu with hs | ⟨hs, hfree⟩
  · refine .quiet (fun s' hs' => hother s' ?_) rfl rfl
    rintro rfl
    rw [hs] at hs'
    cases hs'
  · have hused := I.sems.used hused
    have hone := (S.mutex s hs hused).1
    have hcount : ((k.allSem s).semCount + (2 ^ 32 - 1)) % 2 ^ 32 = 0 := by omega
    have hempty : (lending server k).queue s = [] := by
      rw [lending_queue hs]
      refine List.eq_nil_iff_forall_not_mem.mpr fun p hp => ?_
      have hw := (I.sems.waiting p s (I.linked.mem_semList.mp hp)).2
      omega
    have hholder : mutexHolder server (tookKernel k s) s = some k.runningTask := by
      rw [mutexHolder_eq_some]
      simp only [tookKernel, Kernel.setSem, Function.update_self]
      exact ⟨hs, hused, hcount, I.linked.pid _ (I.running_le hb)⟩
    have hqueue : (tookKernel k s).semList s = (lending server k).queue s :=
      (lending_queue hs).symm
    refine .of_base rfl ?_
    rw [lending_update hs hother, hqueue, hholder, Function.update_eq_self]
    exact Or.inl (.take (I.running_le hb) (I.running_apart hb fun s' h => (hfree s' h).2) hempty)

/-- A signal: its server waits for it alone, and is lent nothing. -/
theorem Lends.priority_blocked_signal {p : Nat} (hb : bgdActive k) (hs : server s = some p)
    (hrun : p = k.runningTask) (hused : (k.allSem s).semStat = osSemUsed) :
    (osSemPendListPut k s).priority = k.priority := by
  obtain ⟨hown, hwait⟩ := S.signal s p hs hused
  rw [priority_blocked I.linked (I.active hb).1 hused, inheritPriority]
  refine if_pos (hown.imp id fun ho => Or.inr ?_)
  have hempty : k.semList s = [] := by
    refine List.eq_nil_iff_forall_not_mem.mpr fun q hq => ?_
    have hph := I.linked.mem_semList.mp hq
    rw [hwait q hq, hrun, (I.active hb).1] at hph
    cases hph
  have hlt := S.priority_lt I.linked (I.running_le hb)
  rw [osSemFindHighestWaiterPriority, if_pos hempty, ho, hrun]
  omega

theorem Lends.lend_blocked (hb : bgdActive k)
    (hu : OneAtATime server k (.semPend s osWaitForever)) (hB : Blocks k s osWaitForever) :
    LendStep server k (.semPend s osWaitForever) (osTskSchedule (osSemPendListPut k s)) := by
  have L := I.linked
  have hr := (I.active hb).1
  have hused := I.sems.used hB.used
  have F := osTskSchedule_frame (osSemPendListPut k s)
  have hother : ∀ s', s' ≠ s → SemSame s' k (osTskSchedule (osSemPendListPut k s)) :=
    fun s' hne => (osSemPendListPut_semSame L hr hused hne).trans F.semSame
  have hbase : (osTskSchedule (osSemPendListPut k s)).originalPriority = k.originalPriority :=
    F.originalPriority.trans (originalPriority_osSemPendListPut L hr hused)
  rcases hu with hs | ⟨hs, hfree⟩
  · refine .quiet (fun s' hs' => hother s' ?_) hbase
      (F.priority.trans (S.priority_blocked_signal I hb hs rfl hused))
    rintro rfl
    rw [hs] at hs'
    cases hs'
  · obtain ⟨c, evs, R⟩ := (S.refines s).resolve_left hB.used
    have hv := (S.mutex s hs hused).2.mp hB.empty
    obtain ⟨hsem, hlist⟩ := blocked_semList I hb hused (by rw [R.fifo]; decide)
    rw [← F.semSame.sem] at hsem
    rw [← F.semSame.list] at hlist
    have hold : (lending server k).holder s = some (k.allSem s).semOwner :=
      mutexHolder_eq_some.mpr ⟨hs, hused, hB.empty, rfl⟩
    have hnew : mutexHolder server (osTskSchedule (osSemPendListPut k s)) s =
        (lending server k).holder s := by
      rw [lending, mutexHolder, hsem]
      rfl
    have hprio := F.priority.trans (priority_blocked_owner L hr hused hv)
    have hleast := S.least_waiter L (I.running_le hb) (s := s)
    rw [← lending_queue (k := k) hs] at hlist hleast
    refine .of_base hbase ?_
    rw [lending_update hs hother, hbase, hprio, hlist, hnew, Function.update_eq_self]
    exact Or.inl (.wait (I.running_le hb) (I.running_apart hb fun s' h => (hfree s' h).2) hold
      hleast)

/-- A post of a signal gives nothing back. -/
theorem Lends.priority_restored_signal {p : Nat} (hs : server s = some p)
    (hused : (k.allSem s).semStat = osSemUsed) :
    (osPriorityRestore k s).priority = k.priority := by
  rw [priority_restored, restorePriority]
  rcases (S.signal s p hs hused).1 with ho | ho
  · exact if_pos (Or.inl ho)
  by_cases hv : (k.allSem s).semOwner = osInvalidOwnerId
  · exact if_pos (Or.inl hv)
  · have hle := ((I.linked.owner s hused).resolve_left hv).1
    have ha := S.client s p hs (I.lt_maxSem hused)
    rw [← ho] at ha
    exact if_pos (Or.inr (Or.inr (S.oneEach.prio_of_apart hle ha)))

/-- A post that wakes a task hands the mutex over. -/
theorem Lends.handOver_woke (hP : Posts k s) (hs : server s = none)
    (hu : mutexHolder server k s ≠ none) (hl : k.semList s ≠ []) :
    Lending.HandOver s (lending server k)
      (lending server (osTskSchedule (osSemPostSchePre k s))) := by
  have L := I.linked
  have hused := I.sems.used hP.used
  obtain ⟨w, rest, hwr⟩ := List.exists_cons_of_ne_nil hl
  have F := osTskSchedule_frame (osSemPostSchePre k s)
  obtain ⟨hprio, hbase⟩ := priority_osSemPostSchePre L hused hwr
  obtain ⟨o, hold⟩ := Option.ne_none_iff_exists'.mp hu
  obtain ⟨-, -, hzero, rfl⟩ := mutexHolder_eq_some.mp hold
  have hv := (S.mutex s hs hused).2.mp hzero
  obtain ⟨p, hp, hback⟩ := S.restored L hs hused hv
  obtain ⟨hsem, hlist⟩ := woke_semList I hused hwr
  rw [← F.semSame.sem] at hsem
  rw [← F.semSame.list] at hlist
  have hnew : mutexHolder server (osTskSchedule (osSemPostSchePre k s)) s = some w := by
    rw [mutexHolder_eq_some, hsem]
    exact ⟨hs, hused, hzero, rfl⟩
  rw [lending_update hs fun s' hne => (osSemPostSchePre_semSame L hused hwr hne).trans F.semSame,
    F.originalPriority.trans hbase, (osPriorityRestore_prioFrame L hused).originalPriority,
    F.priority.trans hprio, hp, hlist, hnew]
  exact .intro hold (by rw [lending_queue hs, hwr]) hback

theorem Lends.lend_woke {op : Op} (ho : op.posts = some s) (hP : Posts k s)
    (hu : server s = none → mutexHolder server k s ≠ none) (hl : k.semList s ≠ []) :
    LendStep server k op (osTskSchedule (osSemPostSchePre k s)) := by
  have L := I.linked
  have hused := I.sems.used hP.used
  obtain ⟨w, rest, hwr⟩ := List.exists_cons_of_ne_nil hl
  have F := osTskSchedule_frame (osSemPostSchePre k s)
  obtain ⟨hprio, hbase⟩ := priority_osSemPostSchePre L hused hwr
  have hbase := (F.originalPriority.trans hbase).trans
    (osPriorityRestore_prioFrame L hused).originalPriority
  cases hs : server s with
  | some p =>
    refine .quiet (fun s' hs' => ?_) hbase
      ((F.priority.trans hprio).trans (S.priority_restored_signal I hs hused))
    have hne : s' ≠ s := by
      rintro rfl
      rw [hs] at hs'
      cases hs'
    exact (osSemPostSchePre_semSame L hused hwr hne).trans F.semSame
  | none => exact .of_base hbase (Or.inr ⟨s, ho, S.handOver_woke I hP hs (hu hs) hl⟩)

theorem Lends.lend_released {op : Op} (hP : Posts k s)
    (hu : server s = none → mutexHolder server k s ≠ none) (hl : k.semList s = []) :
    LendStep server k op (releasedKernel k s) := by
  have L := I.linked
  have hused := I.sems.used hP.used
  have hother : ∀ s', s' ≠ s → SemSame s' k (releasedKernel k s) :=
    fun s' hne => releasedKernel_semSame L hused hne
  have hprio : (releasedKernel k s).priority = (osPriorityRestore k s).priority := by
    rw [releasedKernel_eq]
    rfl
  have hbase : (releasedKernel k s).originalPriority = k.originalPriority := by
    rw [← (osPriorityRestore_prioFrame L hused).originalPriority, releasedKernel_eq]
    rfl
  cases hs : server s with
  | some p =>
    refine .quiet (fun s' hs' => hother s' ?_) hbase
      (hprio.trans (S.priority_restored_signal I hs hused))
    rintro rfl
    rw [hs] at hs'
    cases hs'
  | none =>
    obtain ⟨o, hold⟩ := Option.ne_none_iff_exists'.mp (hu hs)
    obtain ⟨-, -, hzero, rfl⟩ := mutexHolder_eq_some.mp hold
    have hv := (S.mutex s hs hused).2.mp hzero
    obtain ⟨p, hp, hback⟩ := S.restored L hs hused hv
    obtain ⟨hsem, hlist⟩ := released_semList L hused
    have hnew : mutexHolder server (releasedKernel k s) s = none := by
      rw [mutexHolder, hsem, hzero, if_neg]
      simp
    have hempty : (lending server k).queue s = [] := (lending_queue hs).trans hl
    rw [← lending_queue (k := k) hs] at hlist
    refine .of_base hbase ?_
    rw [lending_update hs hother, hbase, hprio, hp, hlist, hnew,
      Function.update_eq_self]
    exact Or.inl (.release hold hempty hback)

theorem Lends.lend_activated (hb : ¬ bgdActive k) {entry : UIntPtr}
    (h : osActivate k entry = .ok k') {op : Op} : LendStep server k op k' := by
  have hsame : ∀ s, SemSame s k k' := fun s => osActivate_semSame I hb h
  obtain ⟨cb, rest, t, used, hi, hl, hcr, -, -, rfl⟩ := osActivate_cases I hb h
  have hu : ph cb = .unused := I.linked.mem_tskCbFreeList.mp (by simp [hl])
  obtain ⟨hp, hb⟩ := createdKernel_priority k cb t used
  obtain ⟨hp', hb'⟩ := resumedKernel_priority (createdKernel k cb t used) cb
  have F : SchedFrame (resumedKernel (createdKernel k cb t used) cb) _ :=
    setTcb_taskStatus_frame _ hi
      (((resumedKernel (createdKernel k cb t used) cb).tskCbArray hi).taskStatus |||
        osTskRunning)
  rw [hcr.priority] at hp
  rw [hcr.originalPriority] at hb
  exact .adopt (Nat.le_refl _) (fun s _ => hsame s) ((F.originalPriority.trans hb').trans hb)
    ((F.priority.trans hp').trans hp) (S.unused_apart I hu)

/-- **What a call lends.** -/
theorem Lends.lendStep {op : Op} {ret : Nat} (e : Effect k ph op k' ret) (hc : op.Callable k)
    (hsup : ¬ op.Unsupported k) (hu : OneAtATime server k op) : LendStep server k op k' := by
  have hpost : ∀ s, op.posts = some s → server s = none → mutexHolder server k s ≠ none := by
    intro s ho hs
    rw [hu.posts ho hs]
    simp
  cases e with
  | failed _ _ => exact .quiet (fun _ _ => SemSame.refl k) rfl rfl
  | created hl hcr => exact S.lend_created I _ hl hcr hu
  | @resumed p hs =>
    obtain ⟨hp, hb⟩ := resumedKernel_priority k p
    have F := osTskSchedule_frame (resumedKernel k p)
    split
    · exact .quiet (fun _ _ => (resumedKernel_semSame p).trans F.semSame)
        (F.originalPriority.trans hb) (F.priority.trans hp)
    · exact .quiet (fun _ _ => resumedKernel_semSame p) hb hp
  | @semCreated op s rest count semType semMode hcr hl =>
    refine I.lend_semCreated hl fun hs => ?_
    cases op with
    | semCreate c null =>
      obtain ⟨rfl, -⟩ := Prod.mk.inj (Option.some.inj hcr)
      exact hu s (by simp [hl]) hs
    | osSemCreate _ _ _ _ => exact absurd hu id
    | _ => cases hcr
  | took _ hused hpos => exact S.lend_took I hc.1 hu hused hpos
  | blocked hB => exact S.lend_blocked I hc.1 hu hB
  | unsupported hB hf => exact absurd ⟨hB, hf⟩ hsup
  | full _ _ _ => exact .quiet (fun _ _ => SemSame.refl k) rfl rfl
  | woke ho hP _ hl => exact S.lend_woke I ho hP (hpost _ ho) hl
  | released ho hP _ hl => exact S.lend_released I hP (hpost _ ho) hl
  | exited =>
    have F := osTskSchedule_frame (osTskReadyDel k k.runningTask)
    rw [osTskEntryReturn_eq I.lock]
    exact .quiet
      (fun _ _ => (osTskReadyDel_semSame I.linked (I.active hc.1).1).trans F.semSame)
      (F.originalPriority.trans (originalPriority_osTskReadyDel k _))
      (F.priority.trans (priority_osTskReadyDel k _))
  | activated h => exact S.lend_activated I hc.1 h

end

end MiniEuler
