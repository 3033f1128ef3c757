import MiniEuler.Ipc.RingOrder

/-! Deadlock freedom of the demo: as long as some loop is not over, some task that
is not done is on no wait list. -/

namespace MiniEuler
open Library

variable {N : Nat} {T O : Type}

theorem Ring.holds_le_one (σ : Ring N T O) (x : T ⊕ O) : σ.holds x ≤ 1 := by
  rcases x with t | o
  · change (σ.loops t).pc.holds ≤ 1
    cases (σ.loops t).pc <;> simp [LoopPc.holds]
  · change (σ.stats o).holds ≤ 1
    cases σ.stats o <;> simp [StatsPc.holds]

/-- Every task whose loop is not over waits for a slot. -/
def Ring.AllWait (D : RingDemo T) (σ : Ring N T O) : Prop :=
  ∀ t, ¬ σ.Finished D t → .inl t ∈ (σ.sem (D.task t).side.sem).queue

variable [Fintype T] {D : RingDemo T} {σ : Ring N T O}

/-- The rounds the tasks of one side make in all. -/
def RingDemo.rounds (D : RingDemo T) (d : Side) : Nat := ∑ t ∈ D.tasks d, (D.task t).perTask

/-- When everyone waits and there is a unit for a side, its tasks are done. -/
theorem Ring.AllWait.rounds_of_count (hwait : σ.AllWait D) {d : Side}
    (hpos : 0 < (σ.sem d.sem).count) : D.rounds d ≤ tally (D.tasks d) Loop.i σ.loops := by
  have hnil : (σ.sem d.sem).queue = [] := (σ.sem d.sem).noWaste.resolve_right (by omega)
  refine Finset.sum_le_sum fun t ht => ?_
  by_contra hlt
  have hmem := hwait t fun hf => hlt hf.2
  rw [RingDemo.mem_tasks.mp ht, hnil] at hmem
  cases hmem

variable [Fintype O]

namespace RingUnits

variable (U : RingUnits D σ)
include U

/-- Who holds the mutex is not done and not blocked. -/
theorem not_blocked {x : T ⊕ O} (hx : σ.HoldsMutex x) : σ.Unfinished D x ∧ ¬ σ.Blocked x := by
  obtain ⟨hholds, hq⟩ := hx
  cases x with
  | inl t =>
    have hpc : ∀ pc, (σ.loops t).pc = pc → pc.holds = 1 := by
      rintro pc rfl
      exact hholds
    refine ⟨fun hf => ?_, ?_⟩
    · have := hpc _ hf.1
      cases this
    · rintro ⟨s, hs⟩
      rcases s.cases .producer with rfl | rfl | rfl
      · exact hq hs
      all_goals
        obtain ⟨u, hu, -, hpend⟩ := U.slotWaits _ _ hs
        obtain rfl := Sum.inl.inj hu
        have := hpc _ hpend
        cases this
  | inr o =>
    refine ⟨fun ho => ?_, ?_⟩
    · simp [Ring.holds, ho, StatsPc.holds] at hholds
    · rintro ⟨s, hs⟩
      rcases s.cases .producer with rfl | rfl | rfl
      · exact hq hs
      all_goals
        obtain ⟨u, hu, -⟩ := U.slotWaits _ _ hs
        cases hu

/-- When nobody holds the mutex nobody waits for it. -/
theorem mutex_queue_nil (hfree : ∀ x, ¬ σ.HoldsMutex x) : (σ.sem .mutex).queue = [] := by
  have hwaits : ∀ x : T ⊕ O, σ.holds x ≠ 0 → x ∈ (σ.sem .mutex).queue := by
    intro x hx
    by_contra hq
    have := σ.holds_le_one x
    exact hfree x ⟨by omega, hq⟩
  have hle := tally_le_length Finset.univ id σ.holds
    (l := (σ.sem .mutex).queue) (fun x _ => σ.holds_le_one x) fun x _ hx => hwaits x hx
  rw [tally, Fintype.sum_sum_type] at hle
  have hmutex := U.mutex
  change tally _ Loop.holds σ.loops + tally _ StatsPc.holds σ.stats ≤ _ at hle
  exact (σ.sem .mutex).noWaste.resolve_right (by omega)

/-- Who is blocked with nobody at the mutex waits for a slot. -/
theorem waits_slot (hnil : (σ.sem .mutex).queue = []) {t : T} (hb : σ.Blocked (.inl t)) :
    .inl t ∈ (σ.sem (D.task t).side.sem).queue := by
  obtain ⟨s, hs⟩ := hb
  rcases s.cases .producer with rfl | rfl | rfl
  · rw [hnil] at hs
    cases hs
  all_goals
    obtain ⟨u, hu, hside, -⟩ := U.slotWaits _ _ hs
    obtain rfl := Sum.inl.inj hu
    rwa [hside]

theorem i_lt_rounds {t : T} (hi : (σ.loops t).i < (D.task t).perTask) :
    tally (D.tasks (D.task t).side) Loop.i σ.loops < D.rounds (D.task t).side :=
  Finset.sum_lt_sum (fun u _ => (U.rounds u).1) ⟨t, D.self_mem_tasks t, hi⟩

/-- When everyone waits, no unit is with a task. -/
theorem slots_le (hwait : σ.AllWait D) (d : Side) :
    d.sem.units N + tally (D.tasks d.other) Loop.i σ.loops ≤
      (σ.sem d.sem).count + tally (D.tasks d) Loop.i σ.loops := by
  obtain ⟨l, hq, -, -⟩ := U.exists_slotQueue d
  have hle : tally (D.tasks d) Loop.taken σ.loops ≤ l.length := by
    refine tally_le_length _ _ _ (fun t _ => ?_) fun t ht htaken => ?_
    · cases h : (σ.loops t).pc <;> simp [Loop.taken, h, LoopPc.taken]
    · have hmem : .inl t ∈ (σ.sem (D.task t).side.sem).queue := by
        refine hwait t fun hf => htaken ?_
        rw [Loop.taken, hf.1]
        rfl
      rw [RingDemo.mem_tasks.mp ht, hq] at hmem
      simpa using hmem
  have hslots := U.slots d
  rw [hq, List.length_map] at hslots
  omega

/-- Not everyone waits for a slot. -/
theorem not_allWait (htotal : D.rounds .producer = D.rounds .consumer) (hN : 0 < N) {t : T}
    (ht : ¬ σ.Finished D t) : ¬ σ.AllWait D := by
  intro hwait
  have hmem := hwait t ht
  have hP := U.slots_le hwait .producer
  have hC := U.slots_le hwait .consumer
  have hzero : (σ.sem (D.task t).side.sem).count = 0 :=
    (σ.sem _).noWaste.resolve_left (List.ne_nil_of_mem hmem)
  have hlt : tally (D.tasks (D.task t).side) Loop.i σ.loops < D.rounds (D.task t).side := by
    obtain ⟨u, hu, -, hpc⟩ := U.slotWaits _ _ hmem
    obtain rfl := Sum.inl.inj hu
    exact U.i_lt_rounds ((U.rounds t).2 (by rw [hpc]; simp))
  simp only [Side.sem, RingSem.units, Side.other] at hP hC
  -- the other side has a unit, so it is done, and has gone round as often as this one may
  cases hside : (D.task t).side with
  | producer =>
    rw [hside, Side.sem] at hzero
    rw [hside] at hlt
    have := hwait.rounds_of_count (d := .consumer) (by rw [Side.sem]; omega)
    omega
  | consumer =>
    rw [hside, Side.sem] at hzero
    rw [hside] at hlt
    have := hwait.rounds_of_count (d := .producer) (by rw [Side.sem]; omega)
    omega

theorem not_stuck (htotal : D.rounds .producer = D.rounds .consumer)
    (hun : ∃ t, ¬ σ.Finished D t) :
    ∃ x, σ.Unfinished D x ∧ ¬ σ.Blocked x ∧ ∀ o, x = .inr o → σ.HoldsMutex x := by
  by_contra hno
  have hstuck : ∀ x, σ.Unfinished D x → ¬ σ.Blocked x → ∃ o, x = .inr o ∧ ¬ σ.HoldsMutex x := by
    intro x hx hb
    by_contra hall
    exact hno ⟨x, hx, hb, fun o ho => by_contra fun hm => hall ⟨o, ho, hm⟩⟩
  have hfree : ∀ x, ¬ σ.HoldsMutex x := by
    intro x hx
    obtain ⟨hun, hb⟩ := U.not_blocked hx
    obtain ⟨o, -, hm⟩ := hstuck x hun hb
    exact hm hx
  have hnil := U.mutex_queue_nil hfree
  obtain ⟨t, ht⟩ := hun
  refine U.not_allWait htotal (σ.ring.index .producer).pos ht fun u hu => ?_
  by_contra hq
  obtain ⟨o, ho, -⟩ := hstuck (.inl u) hu fun hb => hq (U.waits_slot hnil hb)
  cases ho

end RingUnits

/-- **Deadlock freedom.** If some loop is not over, a task that is not done is on no wait
list: a task with such a loop, or a call of `IPC_RingDemoGetStats` that holds the mutex. -/
theorem ring_not_stuck [DecidableEq T] [DecidableEq O] {hist : RingHistory N T O}
    (r : Run (ringMachine D N O) hist σ) (htotal : D.rounds .producer = D.rounds .consumer)
    (hun : ∃ t, ¬ σ.Finished D t) :
    ∃ x, σ.Unfinished D x ∧ ¬ σ.Blocked x ∧ ∀ o, x = .inr o → σ.HoldsMutex x :=
  (RingUnits.of_run r).not_stuck htotal hun

/-- Both consumers wait for an item, and the producers have not begun. -/
def consumersWaitActs : List (RingAct IpcTask Unit) := [.loop .tC1, .loop .tC2]

def consumersWait : Ring ipcRingBufSize IpcTask Unit :=
  consumersWaitActs.foldl (RingAct.exec ipcRingDemo) (ringInit (by decide))

theorem ring_not_stuck_consumersWait :
    ∃ x, consumersWait.Unfinished ipcRingDemo x ∧ ¬ consumersWait.Blocked x ∧
      ∀ o, x = .inr o → consumersWait.HoldsMutex x :=
  ring_not_stuck (Run.ofList (M := ringMachine ipcRingDemo ipcRingBufSize Unit)
    (ringInit_start _) consumersWaitActs (by decide +kernel)) (by decide +kernel)
    ⟨.tP1, by decide +kernel⟩

end MiniEuler
