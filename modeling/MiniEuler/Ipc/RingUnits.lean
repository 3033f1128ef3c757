import MiniEuler.Library.Tally
import MiniEuler.Ipc.RingDemo

/-! Where the units of the three semaphores are: in a count, or with the tasks that
have taken them and not posted them on. -/

namespace MiniEuler
open Library

variable {N : Nat} {T O : Type}

/-! ## What each task accounts for -/

/-- The task is behind the first pend of its round. -/
def LoopPc.taken : LoopPc N → Nat
  | .pendSlot => 0
  | _ => 1

/-- The task is behind its pend of the mutex and before its post. -/
def LoopPc.holds : LoopPc N → Nat
  | .inside _ | .postMutex => 1
  | _ => 0

def StatsPc.holds : StatsPc N → Nat
  | .copy _ => 1
  | _ => 0

/-- The slot of the round has been written or read. -/
def SectionPc.accessed : SectionPc N → Nat
  | .loadIndex | .item _ => 0
  | _ => 1

def LoopPc.accessed : LoopPc N → Nat
  | .pendSlot | .pendMutex => 0
  | .inside p => p.accessed
  | .postMutex | .postSlot => 1

def Loop.taken (l : Loop N) : Nat := l.pc.taken

def Loop.holds (l : Loop N) : Nat := l.pc.holds

/-- The slots written or read so far. -/
def Loop.accessed (l : Loop N) : Nat := l.i + l.pc.accessed

theorem LoopPc.accessed_le_taken (pc : LoopPc N) : pc.accessed ≤ pc.taken := by
  cases pc with
  | inside p => cases p <;> simp [LoopPc.accessed, LoopPc.taken, SectionPc.accessed]
  | _ => simp [LoopPc.accessed, LoopPc.taken]

theorem RingTasks.lt_perTask {D : RingDemo T} {x : RingTasks N T O} {t : T} {i : Nat}
    (h : ¬ x.Finished D t) (hl : x.loops t = ⟨i, .pendSlot⟩) : i < (D.task t).perTask := by
  by_contra hge
  refine h ⟨by rw [hl], ?_⟩
  rw [hl]
  exact Nat.not_lt.mp hge

namespace Ring

variable {σ : Ring N T O}

/-- What `x` counts for in the tally of the mutex. -/
def holds (σ : Ring N T O) : T ⊕ O → Nat :=
  Sum.elim (fun t => (σ.loops t).holds) (fun o => (σ.stats o).holds)

/-- `x` is behind its pend of the mutex, and not waiting in it. -/
def HoldsMutex (σ : Ring N T O) (x : T ⊕ O) : Prop := σ.holds x = 1 ∧ x ∉ (σ.sem .mutex).queue

/-- A post puts nobody in a queue. -/
theorem mem_post {x : T ⊕ O} {s s' : RingSem}
    (hx : x ∈ (Function.update σ.sem s (σ.sem s).post s').queue) : x ∈ (σ.sem s').queue := by
  by_cases hs : s' = s
  · subst hs
    rw [Function.update_self, HandOff.post_queue] at hx
    exact List.mem_of_mem_tail hx
  · rwa [Function.update_of_ne hs] at hx

/-- A pend puts only the caller in the queue. -/
theorem mem_pend {x y : T ⊕ O} {s s' : RingSem}
    (hx : x ∈ (Function.update σ.sem s ((σ.sem s).pend y) s').queue) :
    x ∈ (σ.sem s').queue ∨ (x = y ∧ s' = s) := by
  by_cases hs : s' = s
  · subst hs
    rw [Function.update_self] at hx
    exact (HandOff.mem_pend_queue hx).imp id fun h => ⟨h, rfl⟩
  · rw [Function.update_of_ne hs] at hx
    exact Or.inl hx

end Ring

section
variable [Fintype T] [Fintype O]

/-- The tasks of one side. -/
def RingDemo.tasks (D : RingDemo T) (d : Side) : Finset T := {t | (D.task t).side = d}

/-- Each unit is in the count or taken; a task in a queue has taken none yet. A round moves
a unit from one slot semaphore to the other. -/
structure RingUnits (D : RingDemo T) (σ : Ring N T O) : Prop where
  slots : ∀ d, (σ.sem d.sem).count + tally (D.tasks d) Loop.taken σ.loops +
      tally (D.tasks d) Loop.i σ.loops =
    d.sem.units N + tally (D.tasks d.other) Loop.i σ.loops + (σ.sem d.sem).queue.length
  mutex : (σ.sem .mutex).count + tally Finset.univ Loop.holds σ.loops +
      tally Finset.univ StatsPc.holds σ.stats = 1 + (σ.sem .mutex).queue.length
  nodup : ∀ s, (σ.sem s).queue.Nodup
  slotWaits : ∀ d, ∀ x ∈ (σ.sem d.sem).queue, ∃ t, x = .inl t ∧ (D.task t).side = d ∧
    (σ.loops t).pc = .pendMutex
  mutexLoops : ∀ t, .inl t ∈ (σ.sem .mutex).queue → (σ.loops t).pc = .inside .loadIndex
  mutexStats : ∀ o, .inr o ∈ (σ.sem .mutex).queue → σ.stats o = .copy (D.statsFields N)
  rounds : ∀ t, (σ.loops t).i ≤ (D.task t).perTask ∧
    ((σ.loops t).pc ≠ .pendSlot → (σ.loops t).i < (D.task t).perTask)

variable {D : RingDemo T} {σ : Ring N T O} {t : T} {o : O}

theorem RingDemo.mem_tasks {d : Side} : t ∈ D.tasks d ↔ (D.task t).side = d := by
  simp [RingDemo.tasks]

theorem RingDemo.self_mem_tasks (D : RingDemo T) (t : T) : t ∈ D.tasks (D.task t).side :=
  RingDemo.mem_tasks.mpr rfl

theorem RingDemo.not_mem_tasks_other (D : RingDemo T) (t : T) :
    t ∉ D.tasks (D.task t).side.other :=
  fun h => Side.other_ne _ (RingDemo.mem_tasks.mp h).symm

theorem RingStart.units (h : RingStart σ) : RingUnits D σ := by
  have hzero : ∀ (S : Finset T) (f : Loop N → Nat), f ⟨0, .pendSlot⟩ = 0 →
      tally S f σ.loops = 0 :=
    fun S f hf => tally_eq_zero fun t _ => by rw [h.loops t]; exact hf
  have hstats : tally Finset.univ StatsPc.holds σ.stats = 0 :=
    tally_eq_zero fun o _ => by rw [h.stats o]; rfl
  refine
    { slots := fun d => ?_
      mutex := ?_
      nodup := fun s => by simp [h.sem]
      slotWaits := fun d x hx => by simp [h.sem] at hx
      mutexLoops := fun t ht => by simp [h.sem] at ht
      mutexStats := fun o ho => by simp [h.sem] at ho
      rounds := fun t => by simp [h.loops t] }
  · rw [h.sem, hzero _ Loop.taken rfl, hzero _ Loop.i rfl, hzero _ Loop.i rfl]
    rfl
  · rw [h.sem, hzero _ Loop.holds rfl, hstats]
    rfl

/-! ## What the units say -/

theorem Ring.length_le_holds {l : List (T ⊕ O)} (hl : l.Nodup) (h : ∀ x ∈ l, σ.holds x = 1) :
    l.length ≤ tally Finset.univ Loop.holds σ.loops + tally Finset.univ StatsPc.holds σ.stats := by
  have hle := length_le_tally Finset.univ id σ.holds hl
    fun x hx => ⟨Finset.mem_univ x, (h x hx).ge⟩
  rwa [tally, Fintype.sum_sum_type] at hle

namespace RingUnits

variable (U : RingUnits D σ)
include U

theorem holds_of_waits {x : T ⊕ O} (hx : x ∈ (σ.sem .mutex).queue) : σ.holds x = 1 := by
  cases x with
  | inl t => simp [Ring.holds, Loop.holds, U.mutexLoops t hx, LoopPc.holds]
  | inr o => simp [Ring.holds, U.mutexStats o hx, StatsPc.holds]

/-- **At most one task is between its pend and its post of the mutex.** -/
theorem exclusive {x y : T ⊕ O} (hx : σ.HoldsMutex x) (hy : σ.HoldsMutex y) : x = y := by
  by_contra hne
  have hnodup : (x :: y :: (σ.sem .mutex).queue).Nodup := by
    refine List.nodup_cons.mpr ⟨?_, List.nodup_cons.mpr ⟨hy.2, U.nodup _⟩⟩
    simpa using ⟨hne, hx.2⟩
  have hle := Ring.length_le_holds hnodup (by
    intro z hz
    rcases List.mem_cons.mp hz with rfl | hz
    · exact hx.1
    · rcases List.mem_cons.mp hz with rfl | hz
      · exact hy.1
      · exact U.holds_of_waits hz)
  have hmutex := U.mutex
  simp only [List.length_cons] at hle
  omega

theorem nodup_pend {x : T ⊕ O} (hb : ¬ σ.Blocked x) (s s' : RingSem) :
    (Function.update σ.sem s ((σ.sem s).pend x) s').queue.Nodup := by
  by_cases hs : s' = s
  · subst hs
    rw [Function.update_self]
    exact HandOff.pend_nodup (U.nodup _) fun h => hb ⟨_, h⟩
  · rw [Function.update_of_ne hs]
    exact U.nodup s'

theorem nodup_post (s s' : RingSem) :
    (Function.update σ.sem s (σ.sem s).post s').queue.Nodup := by
  by_cases hs : s' = s
  · subst hs
    rw [Function.update_self, HandOff.post_queue]
    exact (U.nodup _).tail
  · rw [Function.update_of_ne hs]
    exact U.nodup s'

/-- The tasks that wait for a slot. -/
theorem exists_slotQueue (d : Side) : ∃ l : List T, (σ.sem d.sem).queue = l.map .inl ∧
    l.Nodup ∧ ∀ t ∈ l, (D.task t).side = d ∧ (σ.loops t).pc = .pendMutex := by
  have hrange : (σ.sem d.sem).queue ∈ Set.range (List.map (Sum.inl : T → T ⊕ O)) := by
    rw [Set.range_list_map]
    intro x hx
    obtain ⟨t, rfl, -⟩ := U.slotWaits d x hx
    exact ⟨t, rfl⟩
  obtain ⟨l, hl⟩ := hrange
  refine ⟨l, hl.symm, List.Nodup.of_map _ (hl ▸ U.nodup _), fun t ht => ?_⟩
  obtain ⟨u, hu, hside, hpc⟩ := U.slotWaits d (.inl t) (hl ▸ List.mem_map_of_mem ht)
  obtain rfl := Sum.inl.inj hu
  exact ⟨hside, hpc⟩

/-- Not counting `t` there is room for the rounds of its side. -/
theorem rounds_lt (htaken : (σ.loops t).taken = 1) (hacc : (σ.loops t).pc.accessed = 0)
    (hb : .inl t ∉ (σ.sem (D.task t).side.sem).queue) :
    tally (D.tasks (D.task t).side) Loop.accessed σ.loops <
      (D.task t).side.sem.units N + tally (D.tasks (D.task t).side.other) Loop.i σ.loops := by
  obtain ⟨l, hq, hl, hwaits⟩ := U.exists_slotQueue (D.task t).side
  have hfresh : t ∉ l := fun ht => hb (hq ▸ List.mem_map_of_mem ht)
  have hle := length_add_tally_le (D.tasks (D.task t).side) Loop.taken (fun l => l.pc.accessed)
    σ.loops (List.nodup_cons.mpr ⟨hfresh, hl⟩)
    (fun u _ => (σ.loops u).pc.accessed_le_taken) (by
      intro u hu
      rcases List.mem_cons.mp hu with rfl | hu
      · exact ⟨D.self_mem_tasks u, by omega⟩
      · obtain ⟨hside, hpc⟩ := hwaits u hu
        exact ⟨D.mem_tasks.mpr hside, by simp [Loop.taken, hpc, LoopPc.taken, LoopPc.accessed]⟩)
  have hslots := U.slots (D.task t).side
  have hadd := tally_add (D.tasks (D.task t).side) Loop.i (fun l => l.pc.accessed) σ.loops
  rw [hq, List.length_map] at hslots
  rw [List.length_cons] at hle
  change tally _ (fun l : Loop N => l.i + l.pc.accessed) σ.loops < _
  omega

end RingUnits

/-! ## Steps -/

section
variable [DecidableEq T] (U : RingUnits D σ)
include U

theorem RingUnits.waits_update (hb : ¬ σ.Blocked (.inl t)) (l : Loop N) (d : Side) (x : T ⊕ O)
    (hx : x ∈ (σ.sem d.sem).queue) : ∃ u, x = .inl u ∧ (D.task u).side = d ∧
      (Function.update σ.loops t l u).pc = .pendMutex := by
  obtain ⟨u, rfl, hside, hpc⟩ := U.slotWaits d x hx
  have hne : u ≠ t := by
    rintro rfl
    exact hb ⟨_, hx⟩
  exact ⟨u, rfl, hside, by rw [Function.update_of_ne hne]; exact hpc⟩

theorem RingUnits.mutexLoops_update (hb : ¬ σ.Blocked (.inl t)) (l : Loop N) (u : T)
    (hu : .inl u ∈ (σ.sem .mutex).queue) :
    (Function.update σ.loops t l u).pc = .inside .loadIndex := by
  have hne : u ≠ t := by
    rintro rfl
    exact hb ⟨_, hu⟩
  rw [Function.update_of_ne hne]
  exact U.mutexLoops u hu

theorem RingUnits.rounds_update {l : Loop N} (hle : l.i ≤ (D.task t).perTask)
    (hlt : l.pc ≠ .pendSlot → l.i < (D.task t).perTask) (u : T) :
    (Function.update σ.loops t l u).i ≤ (D.task u).perTask ∧
    ((Function.update σ.loops t l u).pc ≠ .pendSlot →
      (Function.update σ.loops t l u).i < (D.task u).perTask) := by
  by_cases hu : u = t
  · subst hu
    rw [Function.update_self]
    exact ⟨hle, hlt⟩
  · rw [Function.update_of_ne hu]
    exact U.rounds u

/-- `i < IPC_PRODUCE_PER_TASK`, and the pend of the side's own slot semaphore. -/
theorem RingUnits.pendSlot {i : Nat} (hl : σ.loops t = ⟨i, .pendSlot⟩)
    (hb : ¬ σ.Blocked (.inl t)) (hi : i < (D.task t).perTask) :
    RingUnits D { σ with
      loops := Function.update σ.loops t ⟨i, .pendMutex⟩
      sem := Function.update σ.sem (D.task t).side.sem
        ((σ.sem (D.task t).side.sem).pend (.inl t)) } := by
  have hsame : (⟨i, .pendMutex⟩ : Loop N).i = (σ.loops t).i := by rw [hl]
  have hholds : (⟨i, .pendMutex⟩ : Loop N).holds = (σ.loops t).holds := by rw [hl]; rfl
  refine
    { slots := fun d => ?_
      mutex := ?_
      nodup := U.nodup_pend hb _
      slotWaits := fun d x hx => ?_
      mutexLoops := fun u hu => ?_
      mutexStats := fun o ho => ?_
      rounds := U.rounds_update hi.le fun _ => hi }
  · have hslots := U.slots d
    simp only [tally_update_eq hsame]
    rcases Side.eq_or_other (D.task t).side d with rfl | rfl
    · have htally := tally_update Loop.taken σ.loops ⟨i, .pendMutex⟩
        (D.self_mem_tasks t)
      rw [hl] at htally
      have hbal := (σ.sem (D.task t).side.sem).pend_balance (.inl t)
      simp only [Function.update_self, Loop.taken, LoopPc.taken] at htally ⊢
      omega
    · have hout := D.not_mem_tasks_other t
      simp only [tally_update_other hout, Function.update_of_ne (Side.sem_other_ne _)]
      exact hslots
  · simp only [tally_update_eq hholds, Function.update_of_ne (Side.sem_ne_mutex _).symm]
    exact U.mutex
  · rcases Ring.mem_pend hx with hx | ⟨rfl, hs⟩
    · exact U.waits_update hb _ d x hx
    · have hd : d = (D.task t).side := by
        cases d <;> cases h : (D.task t).side <;> simp_all [Side.sem]
      exact ⟨t, rfl, hd.symm, by simp⟩
  · rcases Ring.mem_pend hu with hu | ⟨-, hs⟩
    · exact U.mutexLoops_update hb _ u hu
    · exact absurd hs.symm (Side.sem_ne_mutex _)
  · rcases Ring.mem_pend ho with ho | ⟨-, hs⟩
    · exact U.mutexStats o ho
    · exact absurd hs.symm (Side.sem_ne_mutex _)

theorem RingUnits.pendMutex {i : Nat} (hl : σ.loops t = ⟨i, .pendMutex⟩)
    (hb : ¬ σ.Blocked (.inl t)) :
    RingUnits D { σ with
      loops := Function.update σ.loops t ⟨i, .inside .loadIndex⟩
      sem := Function.update σ.sem .mutex ((σ.sem .mutex).pend (.inl t)) } := by
  have hsame : (⟨i, .inside .loadIndex⟩ : Loop N).i = (σ.loops t).i := by rw [hl]
  have htaken : (⟨i, .inside .loadIndex⟩ : Loop N).taken = (σ.loops t).taken := by rw [hl]; rfl
  have hround := (U.rounds t).2
  rw [hl] at hround
  have hi := hround (by simp)
  refine
    { slots := fun d => ?_
      mutex := ?_
      nodup := U.nodup_pend hb _
      slotWaits := fun d x hx => ?_
      mutexLoops := fun u hu => ?_
      mutexStats := fun o ho => ?_
      rounds := U.rounds_update hi.le fun _ => hi }
  · simp only [tally_update_eq hsame, tally_update_eq htaken,
      Function.update_of_ne (Side.sem_ne_mutex d)]
    exact U.slots d
  · have htally := tally_update Loop.holds σ.loops ⟨i, .inside .loadIndex⟩ (Finset.mem_univ t)
    rw [hl] at htally
    have hbal := (σ.sem .mutex).pend_balance (.inl t)
    have hmutex := U.mutex
    simp only [Loop.holds, LoopPc.holds, Function.update_self] at htally hmutex ⊢
    omega
  · rcases Ring.mem_pend hx with hx | ⟨-, hs⟩
    · exact U.waits_update hb _ d x hx
    · exact absurd hs (Side.sem_ne_mutex d)
  · rcases Ring.mem_pend hu with hu | ⟨hu, -⟩
    · exact U.mutexLoops_update hb _ u hu
    · simp only [Sum.inl.inj hu, Function.update_self]
  · rcases Ring.mem_pend ho with ho | ⟨ho, -⟩
    · exact U.mutexStats o ho
    · cases ho

/-- An access under the mutex. -/
theorem RingUnits.inside {ring : RingBuf N} {i : Nat} {p : SectionPc N} {pc : LoopPc N}
    (hl : σ.loops t = ⟨i, .inside p⟩) (hb : ¬ σ.Blocked (.inl t)) (hpc : pc.taken = 1)
    (hpc' : pc.holds = 1) :
    RingUnits D { σ with ring := ring, loops := Function.update σ.loops t ⟨i, pc⟩ } := by
  have hsame : (⟨i, pc⟩ : Loop N).i = (σ.loops t).i := by rw [hl]
  have htaken : (⟨i, pc⟩ : Loop N).taken = (σ.loops t).taken := by rw [hl]; exact hpc
  have hholds : (⟨i, pc⟩ : Loop N).holds = (σ.loops t).holds := by rw [hl]; exact hpc'
  have hround := (U.rounds t).2
  rw [hl] at hround
  have hi := hround (by simp)
  refine
    { slots := fun d => ?_
      mutex := ?_
      nodup := U.nodup
      slotWaits := U.waits_update hb _
      mutexLoops := U.mutexLoops_update hb _
      mutexStats := U.mutexStats
      rounds := U.rounds_update hi.le fun _ => hi }
  · simp only [tally_update_eq htaken, tally_update_eq hsame]
    exact U.slots d
  · simp only [tally_update_eq hholds]
    exact U.mutex

theorem RingUnits.postMutex {i : Nat} (hl : σ.loops t = ⟨i, .postMutex⟩)
    (hb : ¬ σ.Blocked (.inl t)) :
    RingUnits D { σ with
      loops := Function.update σ.loops t ⟨i, .postSlot⟩
      sem := Function.update σ.sem .mutex (σ.sem .mutex).post } := by
  have hsame : (⟨i, .postSlot⟩ : Loop N).i = (σ.loops t).i := by rw [hl]
  have htaken : (⟨i, .postSlot⟩ : Loop N).taken = (σ.loops t).taken := by rw [hl]; rfl
  have hround := (U.rounds t).2
  rw [hl] at hround
  have hi := hround (by simp)
  refine
    { slots := fun d => ?_
      mutex := ?_
      nodup := U.nodup_post _
      slotWaits := fun d x hx => U.waits_update hb _ d x (Ring.mem_post hx)
      mutexLoops := fun u hu => U.mutexLoops_update hb _ u (Ring.mem_post hu)
      mutexStats := fun o ho => U.mutexStats o (Ring.mem_post ho)
      rounds := U.rounds_update hi.le fun _ => hi }
  · simp only [tally_update_eq htaken, tally_update_eq hsame,
      Function.update_of_ne (Side.sem_ne_mutex d)]
    exact U.slots d
  · have htally := tally_update Loop.holds σ.loops ⟨i, .postSlot⟩
      (Finset.mem_univ t)
    rw [hl] at htally
    have hbal := (σ.sem .mutex).post_balance
    have hmutex := U.mutex
    simp only [Loop.holds, LoopPc.holds, Function.update_self] at htally hmutex ⊢
    omega

/-- The post of the other side's slot semaphore, and `i++`. -/
theorem RingUnits.postSlot {i : Nat} (hl : σ.loops t = ⟨i, .postSlot⟩)
    (hb : ¬ σ.Blocked (.inl t)) :
    RingUnits D { σ with
      loops := Function.update σ.loops t ⟨i + 1, .pendSlot⟩
      sem := Function.update σ.sem (D.task t).side.other.sem
        (σ.sem (D.task t).side.other.sem).post } := by
  have hholds : (⟨i + 1, .pendSlot⟩ : Loop N).holds = (σ.loops t).holds := by rw [hl]; rfl
  have hround := (U.rounds t).2
  rw [hl] at hround
  have hi := hround (by simp)
  have hout := D.not_mem_tasks_other t
  have hiTally := tally_update Loop.i σ.loops ⟨i + 1, .pendSlot⟩
    (D.self_mem_tasks t)
  rw [hl] at hiTally
  refine
    { slots := fun d => ?_
      mutex := ?_
      nodup := U.nodup_post _
      slotWaits := fun d x hx => U.waits_update hb _ d x (Ring.mem_post hx)
      mutexLoops := fun u hu => U.mutexLoops_update hb _ u (Ring.mem_post hu)
      mutexStats := fun o ho => U.mutexStats o (Ring.mem_post ho)
      rounds := U.rounds_update hi fun h => absurd rfl h }
  · have hslots := U.slots d
    rcases Side.eq_or_other (D.task t).side d with rfl | rfl
    · have htally := tally_update Loop.taken σ.loops ⟨i + 1, .pendSlot⟩
        (D.self_mem_tasks t)
      rw [hl] at htally
      simp only [Function.update_of_ne (Side.sem_other_ne (D.task t).side).symm,
        tally_update_other hout]
      simp only [Loop.taken, LoopPc.taken] at htally hslots hiTally ⊢
      omega
    · have hbal := (σ.sem (D.task t).side.other.sem).post_balance
      simp only [Function.update_self, tally_update_other hout, Side.other_other] at hslots ⊢
      simp only at hiTally
      omega
  · simp only [tally_update_eq hholds, Function.update_of_ne (Side.sem_ne_mutex _).symm]
    exact U.mutex

end

section
variable [DecidableEq O] (U : RingUnits D σ)
include U

theorem RingUnits.mutexStats_update (hb : ¬ σ.Blocked (.inr o)) (s : StatsPc N) (o' : O)
    (ho : .inr o' ∈ (σ.sem .mutex).queue) :
    Function.update σ.stats o s o' = .copy (D.statsFields N) := by
  have hne : o' ≠ o := by
    rintro rfl
    exact hb ⟨_, ho⟩
  rw [Function.update_of_ne hne]
  exact U.mutexStats o' ho

/-- A step outside the mutex, or a copy under it. -/
theorem RingUnits.statsSame {s : StatsPc N} (hb : ¬ σ.Blocked (.inr o))
    (hholds : s.holds = (σ.stats o).holds) (out : O → RingBufStats N) :
    RingUnits D { σ with out := out, stats := Function.update σ.stats o s } := by
  refine
    { slots := U.slots
      mutex := ?_
      nodup := U.nodup
      slotWaits := U.slotWaits
      mutexLoops := U.mutexLoops
      mutexStats := U.mutexStats_update hb _
      rounds := U.rounds }
  simp only [tally_update_eq hholds]
  exact U.mutex

theorem RingUnits.statsPend (hs : σ.stats o = .pendMutex)
    (hb : ¬ σ.Blocked (.inr o)) :
    RingUnits D { σ with
      stats := Function.update σ.stats o (.copy (D.statsFields N))
      sem := Function.update σ.sem .mutex ((σ.sem .mutex).pend (.inr o)) } := by
  refine
    { slots := fun d => ?_
      mutex := ?_
      nodup := U.nodup_pend hb _
      slotWaits := fun d x hx => ?_
      mutexLoops := fun u hu => ?_
      mutexStats := fun o' ho => ?_
      rounds := U.rounds }
  · simp only [Function.update_of_ne (Side.sem_ne_mutex d)]
    exact U.slots d
  · have htally := tally_update StatsPc.holds σ.stats (.copy (D.statsFields N)) (Finset.mem_univ o)
    rw [hs] at htally
    have hbal := (σ.sem .mutex).pend_balance (.inr o)
    have hmutex := U.mutex
    simp only [StatsPc.holds, Function.update_self] at htally ⊢
    omega
  · rcases Ring.mem_pend hx with hx | ⟨-, hs⟩
    · exact U.slotWaits d x hx
    · exact absurd hs (Side.sem_ne_mutex d)
  · rcases Ring.mem_pend hu with hu | ⟨hu, -⟩
    · exact U.mutexLoops u hu
    · cases hu
  · rcases Ring.mem_pend ho with ho | ⟨ho, -⟩
    · exact U.mutexStats_update hb _ o' ho
    · simp only [Sum.inr.inj ho, Function.update_self]

theorem RingUnits.statsPost (hs : σ.stats o = .copy [])
    (hb : ¬ σ.Blocked (.inr o)) :
    RingUnits D { σ with
      stats := Function.update σ.stats o .outside
      sem := Function.update σ.sem .mutex (σ.sem .mutex).post } := by
  refine
    { slots := fun d => ?_
      mutex := ?_
      nodup := U.nodup_post _
      slotWaits := fun d x hx => U.slotWaits d x (Ring.mem_post hx)
      mutexLoops := fun u hu => U.mutexLoops u (Ring.mem_post hu)
      mutexStats := fun o' ho => U.mutexStats_update hb _ o' (Ring.mem_post ho)
      rounds := U.rounds }
  · simp only [Function.update_of_ne (Side.sem_ne_mutex d)]
    exact U.slots d
  · have htally := tally_update StatsPc.holds σ.stats (.outside)
      (Finset.mem_univ o)
    rw [hs] at htally
    have hbal := (σ.sem .mutex).post_balance
    have hmutex := U.mutex
    simp only [StatsPc.holds, Function.update_self] at htally ⊢
    omega

end

theorem RingTask.sectionStep_pc (a : RingTask) (i : Nat) (r : RingBuf N) (p : SectionPc N) :
    (a.sectionStep i r p).2.taken = 1 ∧ (a.sectionStep i r p).2.holds = 1 := by
  cases p with
  | item slot => cases hs : a.side <;> simp [RingTask.sectionStep, hs, LoopPc.taken, LoopPc.holds]
  | _ => exact ⟨rfl, rfl⟩

variable [DecidableEq T] [DecidableEq O]

/-- **Step lemma.** -/
theorem RingUnits.step (U : RingUnits D σ) {a : RingAct T O} (ha : a.Allowed D σ) :
    RingUnits D (a.exec D σ) := by
  obtain ⟨hready, hfree⟩ := ha
  cases a with
  | loop t =>
    have hb : ¬ σ.Blocked (.inl t) := hfree _ rfl
    rcases hl : σ.loops t with ⟨i, pc⟩
    cases pc with
    | pendSlot =>
      have hi := RingTasks.lt_perTask hready hl
      simp only [RingAct.exec, RingAct.step, loopStep, hl, if_pos hi]
      exact U.pendSlot hl hb hi
    | pendMutex =>
      simp only [RingAct.exec, RingAct.step, loopStep, hl]
      exact U.pendMutex hl hb
    | inside p =>
      obtain ⟨htaken, hholds⟩ := (D.task t).sectionStep_pc i σ.ring p
      simp only [RingAct.exec, RingAct.step, loopStep, hl]
      exact U.inside hl hb htaken hholds
    | postMutex =>
      simp only [RingAct.exec, RingAct.step, loopStep, hl]
      exact U.postMutex hl hb
    | postSlot =>
      simp only [RingAct.exec, RingAct.step, loopStep, hl]
      exact U.postSlot hl hb
  | getStats o null =>
    have hs : σ.stats o = .outside := hready
    have hb : ¬ σ.Blocked (.inr o) := hfree _ rfl
    simp only [RingAct.exec, RingAct.step, ipcRingDemoGetStats, Ring.call]
    split
    · exact U
    · split
      · have := U.statsSame hb (s := .outside) (by rw [hs]) (Function.update σ.out o (.zero N))
        rwa [← hs, Function.update_eq_self] at this
      · exact U.statsSame hb (by rw [hs]; rfl) σ.out
  | stats o =>
    have hb : ¬ σ.Blocked (.inr o) := hfree _ rfl
    rcases hs : σ.stats o with _ | _ | todo
    · exact absurd hs hready
    · simp only [RingAct.exec, RingAct.step, statsStep, hs]
      exact U.statsPend hs hb
    · cases todo with
      | nil =>
        simp only [RingAct.exec, RingAct.step, statsStep, hs]
        exact U.statsPost hs hb
      | cons f todo =>
        simp only [RingAct.exec, RingAct.step, statsStep, hs]
        exact U.statsSame hb (by rw [hs]; rfl) _
  | started =>
    exact
      { slots := U.slots
        mutex := U.mutex
        nodup := U.nodup
        slotWaits := U.slotWaits
        mutexLoops := U.mutexLoops
        mutexStats := U.mutexStats
        rounds := U.rounds }

abbrev RingHistory (N : Nat) (T O : Type) := List (Ring N T O × RingAct T O)

/-- **Run lemma.** -/
theorem RingUnits.of_run {hist : RingHistory N T O} (r : Run (ringMachine D N O) hist σ) :
    RingUnits D σ :=
  r.invariant (RingUnits D) (fun _ h => RingStart.units h) fun _ _ U ha => U.step ha

end

end MiniEuler
