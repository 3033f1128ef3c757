import MiniEuler.Ipc.RingSnapshot
import MiniEuler.Ipc.RingKernel

/-! How the demo ends. A round is twelve steps, so no schedule of the loops goes on for ever;
when they are over, each item of each producer has been consumed once, the ring is empty and the
semaphores have the units they were created with. -/

namespace MiniEuler
open Library

variable {N : Nat} {T O : Type}

/-! ## The steps of a round -/

/-- The steps of the round that have been taken. -/
def SectionPc.done : SectionPc N → Nat
  | .loadIndex => 2
  | .item _ => 3
  | .loadNext => 4
  | .storeIndex _ => 5
  | .loadTotal => 6
  | .storeTotal _ => 7
  | .loadPer => 8
  | .storePer _ => 9

def LoopPc.done : LoopPc N → Nat
  | .pendSlot => 0
  | .pendMutex => 1
  | .inside p => p.done
  | .postMutex => 10
  | .postSlot => 11

/-- The steps a loop has taken. -/
def Loop.steps (l : Loop N) : Nat := 12 * l.i + l.pc.done

theorem LoopPc.done_le (pc : LoopPc N) : pc.done ≤ 11 := by
  cases pc with
  | inside p => cases p <;> simp [LoopPc.done, SectionPc.done]
  | _ => simp [LoopPc.done]

/-- The steps a call of `IPC_RingDemoGetStats` has still to take. -/
def RingDemo.statsLeft (D : RingDemo T) : StatsPc N → Nat
  | .outside => 0
  | .pendMutex => (D.statsFields N).length + 2
  | .copy todo => todo.length + 1

/-- A step that goes on with what has been begun. -/
def RingAct.isWork : RingAct T O → Bool
  | .loop _ | .stats _ => true
  | .getStats _ _ | .started => false

def RingAct.isLoop : RingAct T O → Bool
  | .loop _ => true
  | _ => false

section
variable [DecidableEq T] {D : RingDemo T} {x : RingTasks N T O} {t : T}

/-- **A step of a loop is one of the twelve of its round.** -/
theorem loopStep_steps (ht : ¬ x.Finished D t) : ∃ l : Loop N,
    (loopStep D x t).1.loops = Function.update x.loops t l ∧
    (loopStep D x t).1.stats = x.stats ∧ l.steps = (x.loops t).steps + 1 := by
  rcases hl : x.loops t with ⟨i, pc⟩
  cases pc with
  | pendSlot =>
    have hi := RingTasks.lt_perTask ht hl
    simp only [loopStep, hl, if_pos hi]
    exact ⟨_, rfl, trivial, rfl⟩
  | inside p =>
    simp only [loopStep, hl]
    refine ⟨_, rfl, trivial, ?_⟩
    cases p with
    | item slot => cases hs : (D.task t).side <;> simp only [RingTask.sectionStep, hs] <;> rfl
    | _ => rfl
  | pendMutex | postMutex =>
    simp only [loopStep, hl]
    exact ⟨_, rfl, trivial, rfl⟩
  | postSlot =>
    simp only [loopStep, hl]
    refine ⟨_, rfl, trivial, ?_⟩
    simp only [Loop.steps, LoopPc.done]
    omega

omit [DecidableEq T] in
theorem statsStep_left [DecidableEq O] {o : O} (ho : x.stats o ≠ .outside) :
    ∃ s : StatsPc N, (statsStep D x o).1.stats = Function.update x.stats o s ∧
      (statsStep D x o).1.loops = x.loops ∧ D.statsLeft s + 1 = D.statsLeft (x.stats o) := by
  rcases hs : x.stats o with _ | _ | _ | ⟨f, todo⟩
  · exact absurd hs ho
  all_goals
    simp only [statsStep, hs]
    exact ⟨_, rfl, trivial, rfl⟩

end

section
variable [Fintype T] {D : RingDemo T}

/-- The steps of all loops from the first to the last. -/
def RingDemo.work (D : RingDemo T) : Nat := ∑ t, 12 * (D.task t).perTask

variable [Fintype O] {σ : Ring N T O} (U : RingUnits D σ)
include U

theorem RingUnits.steps_le (t : T) : (σ.loops t).steps ≤ 12 * (D.task t).perTask := by
  obtain ⟨hle, hlt⟩ := U.rounds t
  have hdone := (σ.loops t).pc.done_le
  unfold Loop.steps
  by_cases hpc : (σ.loops t).pc = .pendSlot
  · rw [hpc, LoopPc.done]
    omega
  · have := hlt hpc
    omega

/-- A loop is over when it has taken all its steps. -/
theorem RingUnits.finished_iff (t : T) :
    σ.Finished D t ↔ (σ.loops t).steps = 12 * (D.task t).perTask := by
  obtain ⟨hle, hlt⟩ := U.rounds t
  have hdone := (σ.loops t).pc.done_le
  unfold RingTasks.Finished Loop.steps
  constructor
  · rintro ⟨hpc, hi⟩
    rw [hpc, LoopPc.done]
    omega
  · intro h
    by_cases hpc : (σ.loops t).pc = .pendSlot
    · rw [hpc, LoopPc.done] at h
      exact ⟨hpc, by omega⟩
    · have := hlt hpc
      omega

theorem RingUnits.tally_steps_le : tally Finset.univ Loop.steps σ.loops ≤ D.work :=
  Finset.sum_le_sum fun t _ => U.steps_le t

theorem RingUnits.all_finished_iff :
    (∀ t, σ.Finished D t) ↔ tally Finset.univ Loop.steps σ.loops = D.work := by
  rw [RingDemo.work, tally, Finset.sum_eq_sum_iff_of_le fun t _ => U.steps_le t]
  simp only [U.finished_iff, Finset.mem_univ, true_implies]

end

/-! ## No schedule goes on for ever -/

section
variable [Fintype T] [Fintype O] {D : RingDemo T}

/-- The steps that are left until the loops are over and the calls have returned. -/
def Ring.left (D : RingDemo T) (σ : Ring N T O) : Nat :=
  D.work - tally Finset.univ Loop.steps σ.loops + tally Finset.univ D.statsLeft σ.stats

variable [DecidableEq T] [DecidableEq O] {σ : Ring N T O}

/-- **Step lemma.** Going on brings the end one step nearer. -/
theorem RingUnits.left_exec (U : RingUnits D σ) {a : RingAct T O} (ha : a.Allowed D σ)
    (hw : a.isWork = true) : (a.exec D σ).left D + 1 = σ.left D := by
  cases a with
  | loop t =>
    obtain ⟨l, hloops, hstats, hsteps⟩ := loopStep_steps ha.1
    have htally := tally_update Loop.steps σ.loops l (Finset.mem_univ t)
    have hle : tally Finset.univ Loop.steps (Function.update σ.loops t l) ≤ D.work := by
      rw [← hloops]
      exact (U.step ha).tally_steps_le
    simp only [Ring.left, RingAct.exec, RingAct.step, hloops, hstats]
    omega
  | stats o =>
    obtain ⟨s, hstats, hloops, hleft⟩ := statsStep_left (D := D) ha.1
    have htally := tally_update D.statsLeft σ.stats s (Finset.mem_univ o)
    simp only [Ring.left, RingAct.exec, RingAct.step, hloops, hstats]
    omega
  | getStats o null => cases hw
  | started => cases hw

omit [DecidableEq T] [DecidableEq O] in
theorem RingUnits.left_eq_zero (U : RingUnits D σ) :
    σ.left D = 0 ↔ (∀ t, σ.Finished D t) ∧ ∀ o, σ.stats o = .outside := by
  have hle := U.tally_steps_le
  have hstats : tally Finset.univ D.statsLeft σ.stats = 0 ↔ ∀ o, σ.stats o = .outside := by
    rw [tally, Finset.sum_eq_zero_iff]
    simp only [Finset.mem_univ, true_implies]
    refine forall_congr' fun o => ?_
    cases σ.stats o <;> simp [RingDemo.statsLeft]
  rw [U.all_finished_iff, ← hstats, Ring.left]
  omega

omit [Fintype T] [Fintype O] [DecidableEq T] [DecidableEq O] in
/-- Someone who is not done and not blocked goes on. -/
theorem Ring.allowed_of_free {x : T ⊕ O} (hun : σ.Unfinished D x) (hfree : ¬ σ.Blocked x) :
    ∃ a : RingAct T O, a.isWork = true ∧ a.Allowed D σ := by
  cases x with
  | inl t =>
    refine ⟨.loop t, rfl, hun, fun y hy => ?_⟩
    obtain rfl := Option.some.inj hy
    exact hfree
  | inr o =>
    refine ⟨.stats o, rfl, hun, fun y hy => ?_⟩
    obtain rfl := Option.some.inj hy
    exact hfree

omit [DecidableEq T] [DecidableEq O] in
/-- **Only the end stops the demo.** -/
theorem RingUnits.stuck_iff (U : RingUnits D σ)
    (htotal : D.rounds .producer = D.rounds .consumer) :
    (∀ a : RingAct T O, a.isWork = true → ¬ a.Allowed D σ) ↔ σ.left D = 0 := by
  rw [U.left_eq_zero]
  constructor
  · intro hstuck
    have hdone : ∀ x : T ⊕ O, σ.Unfinished D x → σ.Blocked x := by
      intro x hun
      by_contra hfree
      obtain ⟨a, hw, ha⟩ := Ring.allowed_of_free hun hfree
      exact hstuck a hw ha
    refine ⟨?_, fun o => ?_⟩
    · by_contra hun
      obtain ⟨x, hx, hfree, -⟩ := U.not_stuck htotal (not_forall.mp hun)
      exact hfree (hdone x hx)
    · by_contra ho
      -- nobody holds the mutex, so nobody waits for it
      have hnil := U.mutex_queue_nil fun x hx => (U.not_blocked hx).2 (hdone x (U.not_blocked hx).1)
      obtain ⟨s, hs⟩ := hdone (.inr o) ho
      rcases s.cases .producer with rfl | rfl | rfl
      · rw [hnil] at hs
        cases hs
      all_goals
        obtain ⟨u, hu, -⟩ := U.slotWaits _ _ hs
        cases hu
  · rintro ⟨hloops, hstats⟩ a hw ha
    cases a with
    | loop t => exact ha.1 (hloops t)
    | stats o => exact ha.1 (hstats o)
    | getStats o null => cases hw
    | started => cases hw

theorem RingUnits.left_trace (U : RingUnits D σ) (acts : List (RingAct T O))
    (hwork : ∀ a ∈ acts, a.isWork = true)
    (ha : ∀ e ∈ trace (RingAct.exec D) σ acts, e.2.Allowed D e.1) :
    RingUnits D (acts.foldl (RingAct.exec D) σ) ∧
      acts.length + (acts.foldl (RingAct.exec D) σ).left D = σ.left D := by
  induction acts generalizing σ with
  | nil => exact ⟨U, Nat.zero_add _⟩
  | cons a acts ih =>
    have hfirst := ha (σ, a) List.mem_cons_self
    have hleft := U.left_exec hfirst (hwork a List.mem_cons_self)
    obtain ⟨U', hrest⟩ := ih (U.step hfirst) (fun b hb => hwork b (List.mem_cons_of_mem a hb))
      fun e he => ha e (List.mem_cons_of_mem _ he)
    rw [List.foldl_cons, List.length_cons]
    refine ⟨U', ?_⟩
    change _ + (acts.foldl (RingAct.exec D) (a.exec D σ)).left D = _ at hrest
    omega

/-- **The demo ends.** However its loops and the calls of `IPC_RingDemoGetStats` go on, they take
the steps that are left and no more, and nothing but the end stops them. -/
theorem ring_terminates {hist : RingHistory N T O} (r : Run (ringMachine D N O) hist σ)
    (htotal : D.rounds .producer = D.rounds .consumer) (acts : List (RingAct T O))
    (hwork : ∀ a ∈ acts, a.isWork = true)
    (ha : ∀ e ∈ trace (RingAct.exec D) σ acts, e.2.Allowed D e.1) :
    acts.length ≤ σ.left D ∧
    ((∀ a : RingAct T O, a.isWork = true → ¬ a.Allowed D (acts.foldl (RingAct.exec D) σ)) ↔
      acts.length = σ.left D) ∧
    (acts.length = σ.left D → (∀ t, (acts.foldl (RingAct.exec D) σ).Finished D t) ∧
      ∀ o, (acts.foldl (RingAct.exec D) σ).stats o = .outside) := by
  obtain ⟨U', hleft⟩ := (RingUnits.of_run r).left_trace acts hwork ha
  refine ⟨by omega, ?_, fun hlen => U'.left_eq_zero.mp (by omega)⟩
  rw [U'.stuck_iff htotal]
  omega

end

/-! ## What has been produced -/

section
variable [Fintype T] {D : RingDemo T} {acc : List (Access (BitVec 32) N)}

/-- The items of the rounds in which `t` has accessed its slot. -/
def RingDemo.itemsOf (D : RingDemo T) (loops : T → Loop N) (t : T) : Multiset (BitVec 32) :=
  ((List.range (loops t).accessed).map (D.task t).item : List (BitVec 32))

/-- Each producer has written the items of its rounds, each of them once. -/
def RingProduced (D : RingDemo T) (acc : List (Access (BitVec 32) N)) (x : RingTasks N T O) :
    Prop :=
  (itemsWritten acc : Multiset (BitVec 32)) = ∑ t ∈ D.tasks .producer, D.itemsOf x.loops t

theorem RingProduced.congr {acc' : List (Access (BitVec 32) N)} {x x' : RingTasks N T O}
    (P : RingProduced D acc x) (hacc : itemsWritten acc' = itemsWritten acc)
    (h : ∀ t ∈ D.tasks .producer, (x'.loops t).accessed = (x.loops t).accessed) :
    RingProduced D acc' x' := by
  unfold RingProduced at P ⊢
  rw [hacc, P]
  refine Finset.sum_congr rfl fun t ht => ?_
  rw [RingDemo.itemsOf, RingDemo.itemsOf, h t ht]

theorem RingStart.produced {σ : Ring N T O} (h : RingStart σ) :
    RingProduced D [] σ.toRingTasks := by
  unfold RingProduced
  rw [Finset.sum_eq_zero fun t _ => ?_]
  · rfl
  · rw [RingDemo.itemsOf, h.loops t]
    rfl

variable [DecidableEq T]

/-- A producer writes the item of its round. -/
theorem RingProduced.write {x x' : RingTasks N T O} (P : RingProduced D acc x) {t : T} {i : Nat}
    {slot : Fin N} (hside : (D.task t).side = .producer)
    (hl : x.loops t = ⟨i, .inside (.item slot)⟩)
    (hloops : x'.loops = Function.update x.loops t ⟨i, .inside .loadNext⟩) :
    RingProduced D (acc ++ [.write slot ((D.task t).item i)]) x' := by
  have ht : t ∈ D.tasks .producer := RingDemo.mem_tasks.mpr hside
  have hsame : ∑ u ∈ (D.tasks .producer).erase t, D.itemsOf x'.loops u =
      ∑ u ∈ (D.tasks .producer).erase t, D.itemsOf x.loops u :=
    Finset.sum_congr rfl fun u hu => by
      rw [RingDemo.itemsOf, RingDemo.itemsOf, hloops,
        Function.update_of_ne (Finset.ne_of_mem_erase hu)]
  have hown : D.itemsOf x'.loops t = D.itemsOf x.loops t + {(D.task t).item i} := by
    have hold : (x.loops t).accessed = i := by rw [hl]; rfl
    have hnew : (x'.loops t).accessed = i + 1 := by rw [hloops, Function.update_self]; rfl
    rw [RingDemo.itemsOf, RingDemo.itemsOf, hold, hnew, List.range_succ, List.map_append]
    rfl
  have hold := Finset.add_sum_erase (D.tasks .producer) (D.itemsOf x.loops) ht
  have hnew := Finset.add_sum_erase (D.tasks .producer) (D.itemsOf x'.loops) ht
  unfold RingProduced at P ⊢
  rw [itemsWritten_write, ← Multiset.coe_add, P, ← hnew, ← hold, hsame, hown, add_right_comm]
  rfl

/-- A step of `t` that accesses no slot. -/
theorem RingProduced.goOn {x x' : RingTasks N T O} (P : RingProduced D acc x) {t : T}
    {l : Loop N} (hloops : x'.loops = Function.update x.loops t l)
    (hl : l.accessed = (x.loops t).accessed) : RingProduced D (acc ++ []) x' := by
  rw [List.append_nil]
  refine P.congr rfl fun u _ => ?_
  rw [hloops]
  by_cases hu : u = t
  · rw [hu, Function.update_self, hl]
  · rw [Function.update_of_ne hu]

theorem RingProduced.loop {x : RingTasks N T O} (P : RingProduced D acc x) {t : T}
    (ht : ¬ x.Finished D t) :
    RingProduced D (acc ++ (ringAccess D x (.loop t : RingAct T O)).toList) (loopStep D x t).1 := by
  rcases hl : x.loops t with ⟨i, pc⟩
  cases pc with
  | pendSlot =>
    simp only [loopStep, ringAccess, hl, if_pos (RingTasks.lt_perTask ht hl), Option.toList_none]
    exact P.goOn rfl (by rw [hl]; rfl)
  | pendMutex | postMutex | postSlot =>
    simp only [loopStep, ringAccess, hl, Option.toList_none]
    exact P.goOn rfl (by rw [hl]; rfl)
  | inside p =>
    cases p with
    | item slot =>
      cases hside : (D.task t).side with
      | producer =>
        simp only [loopStep, ringAccess, hl, hside, Option.toList_some, RingTask.sectionStep]
        exact P.write hside hl rfl
      | consumer =>
        simp only [loopStep, ringAccess, hl, hside, Option.toList_some, RingTask.sectionStep]
        refine P.congr (itemsWritten_read ..) fun u hu => ?_
        have hne : u ≠ t := by
          rintro rfl
          rw [RingDemo.mem_tasks, hside] at hu
          cases hu
        simp only [Function.update_of_ne hne]
    | loadIndex | loadNext | storeIndex h | loadTotal | storeTotal n | loadPer | storePer n =>
      simp only [loopStep, ringAccess, hl, Option.toList_none]
      exact P.goOn rfl (by rw [hl]; rfl)

/-- **Step lemma.** -/
theorem RingProduced.step [DecidableEq O] {σ : Ring N T O} (P : RingProduced D acc σ.toRingTasks)
    {a : RingAct T O} (ha : a.Allowed D σ) :
    RingProduced D (acc ++ (ringAccess D σ.toRingTasks a).toList) (a.exec D σ).toRingTasks := by
  cases a with
  | loop t => exact P.loop ha.1
  | getStats o null =>
    simp only [ringAccess, Option.toList_none, List.append_nil, RingAct.exec, RingAct.step,
      ipcRingDemoGetStats]
    split
    · exact P
    · split <;> exact P.congr rfl fun _ _ => rfl
  | stats o =>
    simp only [ringAccess, Option.toList_none, List.append_nil, RingAct.exec, RingAct.step,
      statsStep]
    split <;> exact P.congr rfl fun _ _ => rfl
  | started =>
    simp only [ringAccess, Option.toList_none, List.append_nil]
    exact P.congr rfl fun _ _ => rfl

theorem RingProduced.of_run [DecidableEq O] {σ : Ring N T O} {hist : RingHistory N T O}
    (r : Run (ringMachine D N O) hist σ) :
    RingProduced D (ringAccesses D hist) σ.toRingTasks := by
  refine r.invariant_hist (fun hist σ => RingProduced D (ringAccesses D hist) σ.toRingTasks)
    (fun _ h => RingStart.produced h) fun hist σ a r P ha => ?_
  have hsnoc : ringAccesses D (hist ++ [(σ, a)]) =
      ringAccesses D hist ++ (ringAccess D σ.toRingTasks a).toList := by
    cases hacc : ringAccess D σ.toRingTasks a <;> simp [ringAccesses, hacc]
  rw [hsnoc]
  exact P.step ha

end

/-! ## The end -/

section
variable [Fintype T] [Fintype O] {D : RingDemo T}

/-- The steps of the loops in a run. -/
def loopSteps {ε : Type} (hist : List (ε × RingAct T O)) : Nat := hist.countP fun e => e.2.isLoop

/-- What the demo leaves when its loops are over: each item of each producer was consumed once
and in the order of production, and the ring has been emptied. -/
structure RingEmptied (D : RingDemo T) (acc : List (Access (BitVec 32) N))
    (x : RingTasks N T O) : Prop where
  consumed : itemsRead acc = itemsWritten acc
  produced : (itemsWritten acc : Multiset (BitVec 32)) = ∑ t ∈ D.tasks .producer,
    (((List.range (D.task t).perTask).map (D.task t).item : List (BitVec 32)) :
      Multiset (BitVec 32))
  index : ∀ d, (x.ring.index d).val = D.rounds d % N
  total : ∀ d, x.ring.total d = BitVec.ofNat 32 (D.rounds d)
  per : ∀ d num,
    x.ring.per d num = BitVec.ofNat 32 (∑ t ∈ D.tasksAt d num, (D.task t).perTask)

variable [DecidableEq T] [DecidableEq O] {σ : Ring N T O} {hist : RingHistory N T O}

omit [Fintype T] [Fintype O] in
theorem RingAct.loops_of_not_isLoop {a : RingAct T O} (ha : a.isLoop = false) :
    (a.exec D σ).loops = σ.loops := by
  cases a with
  | loop t => cases ha
  | getStats o null =>
    simp only [RingAct.exec, RingAct.step, ipcRingDemoGetStats]
    split
    · rfl
    · split <;> rfl
  | stats o =>
    simp only [RingAct.exec, RingAct.step, statsStep]
    split <;> rfl
  | started => rfl

omit [Fintype O] in
theorem loopSteps_of_run (r : Run (ringMachine D N O) hist σ) :
    loopSteps hist = tally Finset.univ Loop.steps σ.loops := by
  refine r.invariant_hist (fun hist σ => loopSteps hist = tally Finset.univ Loop.steps σ.loops)
    (fun σ h => ?_) fun hist σ a _ ih ha => ?_
  · exact (tally_eq_zero fun t _ => by rw [RingTasksStart.loops h.toRingTasksStart t]; rfl).symm
  · rw [loopSteps, List.countP_append, ← loopSteps, ih]
    cases hloop : a.isLoop with
    | true =>
      cases a with
      | loop t =>
        obtain ⟨l, hloops, -, hsteps⟩ := loopStep_steps ha.1
        have htally := tally_update Loop.steps σ.loops l (Finset.mem_univ t)
        change _ + 1 = tally Finset.univ Loop.steps (loopStep D σ.toRingTasks t).1.loops
        rw [hloops]
        omega
      | getStats o null => cases hloop
      | stats o => cases hloop
      | started => cases hloop
    | false =>
      change _ = tally Finset.univ Loop.steps (a.exec D σ).loops
      rw [RingAct.loops_of_not_isLoop hloop]
      simp [hloop]

omit [DecidableEq T] [DecidableEq O] in
theorem RingUnits.loops_of_finished (U : RingUnits D σ) (hfin : ∀ t, σ.Finished D t) (t : T) :
    σ.loops t = ⟨(D.task t).perTask, .pendSlot⟩ := by
  obtain ⟨hpc, hi⟩ := hfin t
  have hle := (U.rounds t).1
  rcases hl : σ.loops t with ⟨i, pc⟩
  rw [hl] at hpc hi hle
  obtain rfl : pc = .pendSlot := hpc
  rw [show i = (D.task t).perTask from Nat.le_antisymm hle hi]

theorem ringEmptied_of_run (r : Run (ringMachine D N O) hist σ)
    (htotal : D.rounds .producer = D.rounds .consumer) (hfin : ∀ t, σ.Finished D t) :
    RingEmptied D (ringAccesses D hist) σ.toRingTasks := by
  have S := RingStored.of_run r
  have P := RingProduced.of_run r
  have C := RingCounted.of_run r
  have hloops := (RingUnits.of_run r).loops_of_finished hfin
  have hsum : ∀ (S : Finset T) (f : Loop N → Nat), (∀ n, f ⟨n, .pendSlot⟩ = n) →
      tally S f σ.loops = ∑ t ∈ S, (D.task t).perTask :=
    fun S f hf => Finset.sum_congr rfl fun t _ => by rw [hloops t, hf]
  have hlen : ∀ d, (sideItems (ringAccesses D hist) d).length = D.rounds d := fun d => by
    rw [S.accessed d, hsum _ _ fun _ => rfl, RingDemo.rounds]
  refine ⟨?_, ?_, fun d => ?_, fun d => ?_, fun d num => ?_⟩
  · refine S.cyclic.inv.ordered.eq_of_length ?_
    exact (hlen .consumer).trans (htotal.symm.trans (hlen .producer).symm)
  · rw [show (itemsWritten (ringAccesses D hist) : Multiset (BitVec 32)) = _ from P]
    refine Finset.sum_congr rfl fun t _ => ?_
    rw [RingDemo.itemsOf, hloops t]
    rfl
  · have hindex := S.index d
    have hstale : tally (D.tasks d) Loop.stale σ.loops = 0 :=
      tally_eq_zero fun t _ => by rw [hloops t]; rfl
    rw [hlen, hstale, Nat.add_zero, Nat.mod_eq_of_lt (σ.ring.index d).isLt] at hindex
    exact hindex.symm
  · rw [C.total d, hsum _ _ fun _ => rfl, RingDemo.rounds]
  · rw [C.per d num, hsum _ _ fun _ => rfl]

omit [DecidableEq T] [DecidableEq O] in
/-- The semaphores have the units they were created with. -/
theorem RingUnits.settled_sems (U : RingUnits D σ)
    (htotal : D.rounds .producer = D.rounds .consumer) (hfin : ∀ t, σ.Finished D t) :
    (∀ d : Side, (σ.sem d.sem).queue = [] ∧ (σ.sem d.sem).count = d.sem.units N) ∧
    ((∀ o, σ.stats o = .outside) → (σ.sem .mutex).queue = [] ∧ (σ.sem .mutex).count = 1) := by
  have hloops := U.loops_of_finished hfin
  have hzero : ∀ (S : Finset T) (f : Loop N → Nat), (∀ n, f ⟨n, .pendSlot⟩ = 0) →
      tally S f σ.loops = 0 :=
    fun S f hf => tally_eq_zero fun t _ => by rw [hloops t, hf]
  have hi : ∀ d, tally (D.tasks d) Loop.i σ.loops = D.rounds d :=
    fun d => Finset.sum_congr rfl fun t _ => by rw [hloops t]
  refine ⟨fun d => ?_, fun hout => ?_⟩
  · have hnil : (σ.sem d.sem).queue = [] := by
      refine List.eq_nil_iff_forall_not_mem.mpr fun x hx => ?_
      obtain ⟨t, -, -, hpc⟩ := U.slotWaits d x hx
      rw [hloops t] at hpc
      cases hpc
    have hslots := U.slots d
    rw [hzero _ _ fun _ => rfl, hi, hi, hnil, List.length_nil] at hslots
    refine ⟨hnil, ?_⟩
    cases d <;> simp only [Side.other] at hslots <;> omega
  · have hnil : (σ.sem .mutex).queue = [] := by
      refine List.eq_nil_iff_forall_not_mem.mpr fun x hx => ?_
      cases x with
      | inl t =>
        have hpc := U.mutexLoops t hx
        rw [hloops t] at hpc
        cases hpc
      | inr o =>
        have hpc := U.mutexStats o hx
        rw [hout o] at hpc
        cases hpc
    have hmutex := U.mutex
    have hstats : tally Finset.univ StatsPc.holds σ.stats = 0 :=
      tally_eq_zero fun o _ => by rw [hout o]; rfl
    rw [hzero _ _ fun _ => rfl, hstats, hnil, List.length_nil] at hmutex
    exact ⟨hnil, by omega⟩

end

/-! ## On the kernel -/

section
variable [Fintype T] [Fintype O] [DecidableEq T] [DecidableEq O] {D : RingDemo T}
  {P : RingPlace T O} {x : RingSystem N T O}

omit [DecidableEq T] [DecidableEq O] in
theorem RingRefines.loopSteps_eq {l : List (RingSystem N T O × RingAct T O)}
    {hist : RingHistory N T O}
    (h : List.Forall₂ (fun e e' => RingRefines D P e.1 e'.1 ∧ e.2 = e'.2) l hist) :
    loopSteps l = loopSteps hist := by
  induction h with
  | nil => rfl
  | cons he _ ih =>
    unfold loopSteps at ih ⊢
    rw [List.countP_cons, List.countP_cons, ih, he.2]

/-- The demo on the kernel has ended. A call of `IPC_RingDemoGetStats` that is under way may still
hold the mutex or wait for it. -/
structure RingSystemDone (D : RingDemo T) (P : RingPlace T O)
    (hist : List (RingSystem N T O × RingSysAct T O)) (x : RingSystem N T O) : Prop
    extends RingEmptied D (ringSysAccesses D hist) x.toRingTasks where
  slots : ∀ d : Side, x.kernel.semList (P.handle d.sem) = [] ∧
    (x.kernel.allSem (P.handle d.sem)).semCount = d.sem.units N
  mutex : (∀ o, x.stats o = .outside) → x.kernel.semList (P.handle .mutex) = [] ∧
    (x.kernel.allSem (P.handle .mutex)).semCount = 1

/-- **The demo on the kernel completes.** Whatever else runs, the loops take at most twelve steps
a round; when they have taken them all they are over, and only then; each item of each producer
has then been consumed once, in the order of production, the indices and counters say so, and
`g_semEmpty` and `g_semFull` have the units they were created with. So has `g_semMutex` when no call
of `IPC_RingDemoGetStats` is under way. -/
theorem ringSystem_completes {hist : List (RingSystem N T O × RingSysAct T O)}
    (r : Run (ringSystemMachine D P N) hist x)
    (htotal : D.rounds .producer = D.rounds .consumer) :
    loopSteps (seen RingSysAct.demo? hist) ≤ D.work ∧
    ((∀ t, x.Finished D t) ↔ loopSteps (seen RingSysAct.demo? hist) = D.work) ∧
    ((∀ t, x.Finished D t) → RingSystemDone D P hist x) := by
  obtain ⟨hist', σ, r', R, hseen⟩ := ringSystem_simulation.run r
  have U := RingUnits.of_run r'
  rw [RingRefines.loopSteps_eq hseen, loopSteps_of_run r', ← R.tasks]
  refine ⟨U.tally_steps_le, U.all_finished_iff, fun hfin => ?_⟩
  have E := ringEmptied_of_run r' htotal hfin
  rw [RingRefines.accesses_eq hseen] at E
  obtain ⟨hslots, hmutex⟩ := U.settled_sems htotal hfin
  have hsem : ∀ s c, (σ.sem s).queue = [] ∧ (σ.sem s).count = c →
      x.kernel.semList (P.handle s) = [] ∧ (x.kernel.allSem (P.handle s)).semCount = c := by
    rintro s c ⟨hq, rfl⟩
    have hlist := (R.semIs s).list
    rw [HandOff.map_queue, hq, List.map_nil] at hlist
    exact ⟨hlist, (R.semIs s).count⟩
  refine { toRingEmptied := ?_, slots := fun d => hsem _ _ (hslots d), mutex := fun hout => ?_ }
  · rw [← R.tasks]
    exact E
  · rw [← R.tasks] at hout
    exact hsem _ _ (hmutex hout)

end

/-! ## Two producers and two consumers -/

/-- The producers make two items each, and the consumers take three and one. -/
def shortDemo : RingDemo IpcTask where
  task
    | .tP1 => ⟨.producer, 0, 2, 0⟩
    | .tP2 => ⟨.producer, 1, 2, 100⟩
    | .tC1 => ⟨.consumer, 0, 3, 0⟩
    | .tC2 => ⟨.consumer, 1, 1, 0⟩
  num := ipcRingDemo.num

/-- Four items go through two slots, the producers coming to the mutex together, and between them a
call copies the ring. -/
def shortActs : List (RingAct IpcTask Unit) :=
  .loop .tC1 :: pairRound .tP1 .tP2 ++ List.replicate 11 (.loop .tC1) ++
    List.replicate 13 (.stats ()) ++ List.replicate 12 (.loop .tC2) ++ pairRound .tP2 .tP1 ++
    List.replicate 24 (.loop .tC1)

/-- The demo has started, and the call has begun. -/
def shortHistory : RingHistory 2 IpcTask Unit :=
  trace (RingAct.exec shortDemo) (ringInit (by decide)) [.started, .getStats () false]

def shortRing : Ring 2 IpcTask Unit :=
  [.started, .getStats () false].foldl (RingAct.exec shortDemo) (ringInit (by decide))

/-- These are all steps that were left, those of the call among them. -/
theorem ring_terminates_short : shortActs.length = shortRing.left shortDemo ∧
    (∀ a : RingAct IpcTask Unit, a.isWork = true →
      ¬ a.Allowed shortDemo (shortActs.foldl (RingAct.exec shortDemo) shortRing)) ∧
    ∀ t, (shortActs.foldl (RingAct.exec shortDemo) shortRing).Finished shortDemo t := by
  have r : Run (ringMachine shortDemo 2 Unit) shortHistory shortRing :=
    Run.ofList (M := ringMachine shortDemo 2 Unit) (ringInit_start _) _ (by decide +kernel)
  have hlen : shortActs.length = shortRing.left shortDemo := by decide +kernel
  obtain ⟨-, hstuck, hend⟩ := ring_terminates r (by decide) shortActs (by decide)
    (show ∀ e ∈ trace (ringMachine shortDemo 2 Unit).exec shortRing shortActs,
      (ringMachine shortDemo 2 Unit).Allowed e.1 e.2 by decide +kernel)
  exact ⟨hlen, hstuck.mpr hlen, (hend hlen).1⟩

/-- The three handles say what the call returns. -/
theorem ipcRingSemCreate_of_handles {k : Kernel} {handle : RingSem → Nat}
    (h : (ipcRingSemCreate k N).2.toOption.map (fun f => (f .empty, f .full, f .mutex)) =
      some (handle .empty, handle .full, handle .mutex)) :
    ipcRingSemCreate k N = ((ipcRingSemCreate k N).1, .ok handle) := by
  generalize ipcRingSemCreate k N = r at h ⊢
  obtain ⟨k', ret | f⟩ := r
  · cases h
  · simp only [Except.toOption, Option.map_some, Option.some.injEq, Prod.mk.injEq] at h
    obtain ⟨hempty, hfull, hmutex⟩ := h
    have hf : f = handle := by
      funext s
      cases s
      · exact hempty
      · exact hfull
      · exact hmutex
    rw [hf]

/-- The pids and handles that the kernel gives to the four tasks and the semaphores. -/
def shortPlace : RingPlace IpcTask Empty where
  pid
    | .inl .tC1 => 0
    | .inl .tP1 => 1
    | .inl .tP2 => 2
    | .inl .tC2 => 3
    | .inr o => o.elim
  handle
    | .empty => 0
    | .full => 1
    | .mutex => 2
  pid_injective := by
    rintro (t | o) (t' | o') h
    · cases t <;> cases t' <;> simp_all
    all_goals first | exact o.elim | exact o'.elim
  handle_injective := by
    intro s s' h
    cases s <;> cases s' <;> simp_all

/-- The first consumer is the most urgent task, and the second producer is not resumed yet. -/
def shortOps : List Op :=
  [.taskCreate { taskPrio := 5 }, .taskResume 0, .taskCreate { taskPrio := 12 }, .taskResume 1,
    .taskCreate { taskPrio := 10 }, .taskCreate { taskPrio := 20 }, .taskResume 3, .activate 0]

def shortKernel : Kernel := (ipcRingSemCreate (shortOps.foldl Op.next bootKernel) 2).1

def shortStart : RingSystem 2 IpcTask Empty := ⟨ringTasksInit (by decide), shortKernel⟩

theorem shortStart_create : ipcRingSemCreate (shortOps.foldl Op.next bootKernel) 2 =
    (shortKernel, .ok shortPlace.handle) :=
  ipcRingSemCreate_of_handles (by decide +kernel)

theorem shortStart_start : RingSystemStart shortPlace shortStart :=
  ringSystemStart_of_create (kernelMachine_supported
    (Run.ofList (M := kernelMachine) bootKernel_initialised shortOps (by decide +kernel)))
    shortStart_create (RingStart.toRingTasksStart (ringInit_start (by decide)))

/-- A call about tasks. -/
def Op.isTaskCall : Op → Bool
  | .taskCreate _ | .taskResume _ | .taskExit => true
  | _ => false

theorem Op.foreign_of_isTaskCall {op : Op} (h : op.isTaskCall = true) (handle : RingSem → Nat) :
    op.Foreign handle := by
  intro s
  cases op with
  | taskCreate | taskResume | taskExit => exact ⟨fun _ => by simp, by simp [Op.posts]⟩
  | _ => cases h

namespace RingSysAct
variable [DecidableEq T] [DecidableEq O] (D : RingDemo T) (P : RingPlace T O)

/-- The calls that are not the demo's are about tasks. -/
def BesideTasks (x : RingSystem N T O) : RingSysAct T O → Prop
  | .demo a => RingSysAct.Allowed D P x (.demo a)
  | .other op => kernelMachine.Allowed x.kernel op ∧ op.isTaskCall = true

instance (x : RingSystem N T O) (a : RingSysAct T O) : Decidable (a.BesideTasks D P x) :=
  match a with
  | .demo a => inferInstanceAs (Decidable (a.Ready D x.toRingTasks ∧ ∀ y ∈ a.task, _ ∧ _ ∧ _))
  | .other _ => inferInstanceAs (Decidable (_ ∧ _))

variable {D P}

omit [DecidableEq T] [DecidableEq O] in
theorem BesideTasks.allowed {x : RingSystem N T O} {a : RingSysAct T O}
    (h : a.BesideTasks D P x) : a.Allowed D P x := by
  cases a with
  | demo a => exact h
  | other op =>
    obtain ⟨⟨hcall, htimeout⟩, htask⟩ := h
    exact ⟨⟨hcall, htimeout.not_unsupported⟩, Op.foreign_of_isTaskCall htask P.handle⟩

end RingSysAct

def loopActs (t : IpcTask) (n : Nat) : List (RingSysAct IpcTask Empty) :=
  List.replicate n (.demo (.loop t))

/-- The first producer resumes the second inside its section, so the second comes to the mutex and
waits. A task whose loop is over leaves. -/
def shortSysActs : List (RingSysAct IpcTask Empty) :=
  loopActs .tC1 1 ++ loopActs .tP1 5 ++ .other (.taskResume 2) :: loopActs .tP2 2 ++
    loopActs .tP1 6 ++ loopActs .tP2 10 ++ loopActs .tC1 12 ++ loopActs .tP2 12 ++
    loopActs .tC1 12 ++ .other .taskExit :: loopActs .tP1 1 ++ loopActs .tC1 11 ++
    .other .taskExit :: loopActs .tP1 12 ++ .other .taskExit :: loopActs .tC2 12

def shortSysEnd : RingSystem 2 IpcTask Empty :=
  shortSysActs.foldl (RingSysAct.exec shortDemo shortPlace) shortStart

theorem ringSystem_completes_short :
    RingSystemDone shortDemo shortPlace
      (trace (RingSysAct.exec shortDemo shortPlace) shortStart shortSysActs) shortSysEnd ∧
    shortSysEnd.ring.ringBuf.toList = [102, 2] := by
  have hbeside : ∀ e ∈ trace (RingSysAct.exec shortDemo shortPlace) shortStart shortSysActs,
      e.2.BesideTasks shortDemo shortPlace e.1 := by decide +kernel
  exact ⟨(ringSystem_completes (Run.ofList (M := ringSystemMachine shortDemo shortPlace 2)
    shortStart_start shortSysActs fun e he => (hbeside e he).allowed) (by decide)).2.2
    (by decide +kernel), by decide +kernel⟩

end MiniEuler
