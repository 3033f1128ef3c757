import MiniEuler.Ipc.RingOrder

/-! `IPC_RingDemoGetStats` while the demo runs. The fields are copied one by one under the
mutex, and together they are the ring of one moment. -/

namespace MiniEuler
open Library

variable {N : Nat} {T O : Type}

/-! ## The counters -/

/-- `g_producedTotal` or `g_consumedTotal` has counted the round. -/
def SectionPc.totalled : SectionPc N → Nat
  | .loadPer | .storePer _ => 1
  | _ => 0

def LoopPc.totalled : LoopPc N → Nat
  | .pendSlot | .pendMutex => 0
  | .inside p => p.totalled
  | .postMutex | .postSlot => 1

/-- The task's own count has counted the round. -/
def LoopPc.counted : LoopPc N → Nat
  | .postMutex | .postSlot => 1
  | _ => 0

def Loop.totalled (l : Loop N) : Nat := l.i + l.pc.totalled

def Loop.counted (l : Loop N) : Nat := l.i + l.pc.counted

section
variable [Fintype T]

/-- The tasks of one side that count in the same place. -/
def RingDemo.tasksAt (D : RingDemo T) (d : Side) (num : Nat) : Finset T :=
  {t ∈ D.tasks d | (D.task t).num = num}

/-- The counters and the loops tell of the same rounds. -/
structure RingCounted (D : RingDemo T) (x : RingTasks N T O) : Prop where
  total : ∀ d, x.ring.total d = BitVec.ofNat 32 (tally (D.tasks d) Loop.totalled x.loops)
  per : ∀ d num,
    x.ring.per d num = BitVec.ofNat 32 (tally (D.tasksAt d num) Loop.counted x.loops)
  loadedTotal : ∀ t n, (x.loops t).pc = .inside (.storeTotal n) → n = x.ring.total (D.task t).side
  loadedPer : ∀ t n, (x.loops t).pc = .inside (.storePer n) →
    n = x.ring.per (D.task t).side (D.task t).num

variable {D : RingDemo T} {σ : Ring N T O} {x' : RingTasks N T O} {t : T}

theorem RingDemo.mem_tasksAt {d : Side} {num : Nat} :
    t ∈ D.tasksAt d num ↔ (D.task t).side = d ∧ (D.task t).num = num := by
  simp [RingDemo.tasksAt, RingDemo.mem_tasks]

theorem RingStart.counted (h : RingStart σ) : RingCounted D σ.toRingTasks := by
  have hzero : ∀ (S : Finset T) (f : Loop N → Nat), f ⟨0, .pendSlot⟩ = 0 →
      tally S f σ.loops = 0 :=
    fun S f hf => tally_eq_zero fun t _ => by rw [h.loops t]; exact hf
  refine ⟨fun d => ?_, fun d num => ?_, fun t n hs => ?_, fun t n hs => ?_⟩
  · rw [h.total, hzero _ _ rfl]
    rfl
  · rw [h.per, hzero _ _ rfl]
    rfl
  · rw [h.loops t] at hs
    cases hs
  · rw [h.loops t] at hs
    cases hs

theorem RingCounted.congr (C : RingCounted D σ.toRingTasks) (htotal : x'.ring.total = σ.ring.total)
    (hper : x'.ring.per = σ.ring.per) (hloops : x'.loops = σ.loops) : RingCounted D x' := by
  obtain ⟨h1, h2, h3, h4⟩ := C
  constructor
  · rw [htotal, hloops]; exact h1
  · rw [hper, hloops]; exact h2
  · rw [htotal, hloops]; exact h3
  · rw [hper, hloops]; exact h4

section
variable [DecidableEq T]

/-- A step of `t` that leaves the counters alone. -/
theorem RingCounted.goOn (C : RingCounted D σ.toRingTasks) {l : Loop N}
    (htotal : x'.ring.total = σ.ring.total) (hper : x'.ring.per = σ.ring.per)
    (hloops : x'.loops = Function.update σ.loops t l)
    (htotalled : l.totalled = (σ.loops t).totalled) (hcounted : l.counted = (σ.loops t).counted)
    (hloadTotal : ∀ n, l.pc = .inside (.storeTotal n) → n = σ.ring.total (D.task t).side)
    (hloadPer : ∀ n, l.pc = .inside (.storePer n) →
      n = σ.ring.per (D.task t).side (D.task t).num) : RingCounted D x' := by
  refine ⟨fun d => ?_, fun d num => ?_, fun u n hs => ?_, fun u n hs => ?_⟩
  · rw [htotal, hloops, tally_update_eq htotalled]
    exact C.total d
  · rw [hper, hloops, tally_update_eq hcounted]
    exact C.per d num
  · rw [htotal]
    rw [hloops] at hs
    by_cases hu : u = t
    · subst hu
      rw [Function.update_self] at hs
      exact hloadTotal n hs
    · rw [Function.update_of_ne hu] at hs
      exact C.loadedTotal u n hs
  · rw [hper]
    rw [hloops] at hs
    by_cases hu : u = t
    · subst hu
      rw [Function.update_self] at hs
      exact hloadPer n hs
    · rw [Function.update_of_ne hu] at hs
      exact C.loadedPer u n hs

variable [Fintype O]

/-- The total of the side of `t` counts the round. -/
theorem RingCounted.storeTotal (C : RingCounted D σ.toRingTasks) (U : RingUnits D σ) {i : Nat}
    {n : BitVec 32} (hl : σ.loops t = ⟨i, .inside (.storeTotal n)⟩) (hb : ¬ σ.Blocked (.inl t))
    (htotal : x'.ring.total = Function.update σ.ring.total (D.task t).side (n + 1))
    (hper : x'.ring.per = σ.ring.per)
    (hloops : x'.loops = Function.update σ.loops t ⟨i, .inside .loadPer⟩) :
    RingCounted D x' := by
  have hm := Ring.holdsMutex_of_pc hl rfl fun h => hb ⟨_, h⟩
  have hnow : n = σ.ring.total (D.task t).side := C.loadedTotal t n (by rw [hl])
  have hcounted : (⟨i, .inside .loadPer⟩ : Loop N).counted = (σ.loops t).counted := by rw [hl]; rfl
  have htally := tally_update Loop.totalled σ.loops ⟨i, .inside .loadPer⟩ (D.self_mem_tasks t)
  rw [hl] at htally
  simp only [Loop.totalled, LoopPc.totalled, SectionPc.totalled] at htally
  refine ⟨fun d => ?_, fun d num => ?_, fun u n' hs => ?_, fun u n' hs => ?_⟩
  · rw [htotal, hloops]
    rcases Side.eq_or_other (D.task t).side d with rfl | rfl
    · have hsucc : tally (D.tasks (D.task t).side) Loop.totalled
          (Function.update σ.loops t ⟨i, .inside .loadPer⟩) =
          tally (D.tasks (D.task t).side) Loop.totalled σ.loops + 1 := by
        change _ + (i + 0) = _ + (i + 1) at htally
        omega
      rw [Function.update_self, hnow, C.total, hsucc, BitVec.ofNat_add]
      rfl
    · rw [Function.update_of_ne (Side.other_ne _), tally_update_other (D.not_mem_tasks_other t)]
      exact C.total _
  · rw [hper, hloops, tally_update_eq hcounted]
    exact C.per d num
  · rw [hloops] at hs
    exact absurd hs (U.update_pc_ne hm (by simp) (by simp) u)
  · rw [hloops] at hs
    exact absurd hs (U.update_pc_ne hm (by simp) (by simp) u)

/-- The count of `t` counts the round. -/
theorem RingCounted.storePer (C : RingCounted D σ.toRingTasks) (U : RingUnits D σ) {i : Nat}
    {n : BitVec 32} (hl : σ.loops t = ⟨i, .inside (.storePer n)⟩) (hb : ¬ σ.Blocked (.inl t))
    (htotal : x'.ring.total = σ.ring.total)
    (hper : x'.ring.per = Function.update σ.ring.per (D.task t).side
      (Function.update (σ.ring.per (D.task t).side) (D.task t).num (n + 1)))
    (hloops : x'.loops = Function.update σ.loops t ⟨i, .postMutex⟩) : RingCounted D x' := by
  have hm := Ring.holdsMutex_of_pc hl rfl fun h => hb ⟨_, h⟩
  have hnow : n = σ.ring.per (D.task t).side (D.task t).num := C.loadedPer t n (by rw [hl])
  have htotalled : (⟨i, .postMutex⟩ : Loop N).totalled = (σ.loops t).totalled := by rw [hl]; rfl
  have hself : t ∈ D.tasksAt (D.task t).side (D.task t).num := D.mem_tasksAt.mpr ⟨rfl, rfl⟩
  have htally := tally_update Loop.counted σ.loops ⟨i, .postMutex⟩ hself
  rw [hl] at htally
  simp only [Loop.counted, LoopPc.counted] at htally
  refine ⟨fun d => ?_, fun d num => ?_, fun u n' hs => ?_, fun u n' hs => ?_⟩
  · rw [htotal, hloops, tally_update_eq htotalled]
    exact C.total d
  · rw [hper, hloops]
    by_cases hat : t ∈ D.tasksAt d num
    · obtain ⟨rfl, rfl⟩ := D.mem_tasksAt.mp hat
      have hsucc : tally (D.tasksAt (D.task t).side (D.task t).num) Loop.counted
          (Function.update σ.loops t ⟨i, .postMutex⟩) =
          tally (D.tasksAt (D.task t).side (D.task t).num) Loop.counted σ.loops + 1 := by
        change _ + (i + 0) = _ + (i + 1) at htally
        omega
      rw [Function.update_self, Function.update_self, hnow, C.per, hsucc, BitVec.ofNat_add]
      rfl
    · rw [tally_update_other hat, ← C.per d num]
      by_cases hd : d = (D.task t).side
      · subst hd
        have hnum : num ≠ (D.task t).num := fun h => hat (D.mem_tasksAt.mpr ⟨rfl, h.symm⟩)
        rw [Function.update_self, Function.update_of_ne hnum]
      · rw [Function.update_of_ne hd]
  · rw [hloops] at hs
    exact absurd hs (U.update_pc_ne hm (by simp) (by simp) u)
  · rw [hloops] at hs
    exact absurd hs (U.update_pc_ne hm (by simp) (by simp) u)

/-- An access under the mutex. -/
theorem RingCounted.inside (C : RingCounted D σ.toRingTasks) (U : RingUnits D σ) {i : Nat}
    {p : SectionPc N} (hl : σ.loops t = ⟨i, .inside p⟩) (hb : ¬ σ.Blocked (.inl t)) :
    RingCounted D (loopStep D σ.toRingTasks t).1 := by
  simp only [loopStep, hl]
  cases p with
  | storeTotal n => exact C.storeTotal U hl hb rfl rfl rfl
  | storePer n => exact C.storePer U hl hb rfl rfl rfl
  | loadTotal =>
    refine C.goOn rfl rfl rfl (by rw [hl]; rfl) (by rw [hl]; rfl) (fun n h => ?_)
      (by simp [RingTask.sectionStep])
    obtain rfl := SectionPc.storeTotal.inj (LoopPc.inside.inj h)
    rfl
  | loadPer =>
    refine C.goOn rfl rfl rfl (by rw [hl]; rfl) (by rw [hl]; rfl)
      (by simp [RingTask.sectionStep]) fun n h => ?_
    obtain rfl := SectionPc.storePer.inj (LoopPc.inside.inj h)
    rfl
  | item slot =>
    cases hside : (D.task t).side <;> simp only [RingTask.sectionStep, hside] <;>
      exact C.goOn rfl rfl rfl (by rw [hl]; rfl) (by rw [hl]; rfl) (by simp) (by simp)
  | loadIndex | loadNext | storeIndex h =>
    exact C.goOn rfl rfl rfl (by rw [hl]; rfl) (by rw [hl]; rfl)
      (by simp [RingTask.sectionStep]) (by simp [RingTask.sectionStep])

variable [DecidableEq O]

/-- **Step lemma.** -/
theorem RingCounted.step (C : RingCounted D σ.toRingTasks) (U : RingUnits D σ)
    {a : RingAct T O} (ha : a.Allowed D σ) : RingCounted D (a.exec D σ).toRingTasks := by
  obtain ⟨hready, hfree⟩ := ha
  cases a with
  | loop t =>
    have hb : ¬ σ.Blocked (.inl t) := hfree _ rfl
    simp only [RingAct.exec, RingAct.step]
    rcases hl : σ.loops t with ⟨i, pc⟩
    cases pc with
    | inside p => exact C.inside U hl hb
    | pendSlot =>
      simp only [loopStep, hl, if_pos (RingTasks.lt_perTask hready hl)]
      exact C.goOn rfl rfl rfl (by rw [hl]; rfl) (by rw [hl]; rfl) (by simp) (by simp)
    | pendMutex | postMutex | postSlot =>
      simp only [loopStep, hl]
      exact C.goOn rfl rfl rfl (by rw [hl]; rfl) (by rw [hl]; rfl) (by simp) (by simp)
  | getStats o null =>
    simp only [RingAct.exec, RingAct.step, ipcRingDemoGetStats]
    split
    · exact C
    · split <;> exact C.congr rfl rfl rfl
  | stats o =>
    simp only [RingAct.exec, RingAct.step, statsStep]
    split <;> exact C.congr rfl rfl rfl
  | started => exact C.congr rfl rfl rfl

/-- **Run lemma.** -/
theorem RingCounted.of_run {hist : RingHistory N T O} (r : Run (ringMachine D N O) hist σ) :
    RingCounted D σ.toRingTasks := by
  refine r.invariant_hist (fun _ σ => RingCounted D σ.toRingTasks)
    (fun _ h => RingStart.counted h) fun hist σ a r C ha => ?_
  exact C.step (RingUnits.of_run r) ha

end

end

/-! ## The copy -/

theorem RingBufStats.agrees_copy (out : RingBufStats N) (r : RingBuf N) (f : StatsField N) :
    (out.copy r f).Agrees r f := by
  cases f <;> simp [RingBufStats.copy, RingBufStats.Agrees]

/-- The copy of one field leaves the others alone. -/
theorem RingBufStats.Agrees.copy {out : RingBufStats N} {r : RingBuf N} {f g : StatsField N}
    (h : out.Agrees r g) : (out.copy r f).Agrees r g := by
  by_cases hfg : f = g
  · subst hfg
    exact out.agrees_copy r f
  cases f with
  | ringSize => cases g <;> first | exact h | exact absurd rfl hfg
  | index d =>
    cases g with
    | index d' =>
      have hd : d' ≠ d := by
        rintro rfl
        exact hfg rfl
      simpa [RingBufStats.copy, RingBufStats.Agrees, hd] using h
    | _ => exact h
  | total d =>
    cases g with
    | total d' =>
      have hd : d' ≠ d := by
        rintro rfl
        exact hfg rfl
      simpa [RingBufStats.copy, RingBufStats.Agrees, hd] using h
    | _ => exact h
  | per d num =>
    cases g with
    | per d' num' =>
      by_cases hd : d' = d
      · subst hd
        have hnum : num' ≠ num := by
          rintro rfl
          exact hfg rfl
        simpa [RingBufStats.copy, RingBufStats.Agrees, hnum] using h
      · simpa [RingBufStats.copy, RingBufStats.Agrees, hd] using h
    | _ => exact h
  | buffer j =>
    cases g with
    | buffer j' =>
      have hj : j' ≠ j := by
        rintro rfl
        exact hfg rfl
      simpa [RingBufStats.copy, RingBufStats.Agrees, hj] using h
    | _ => exact h

/-- What has been copied is what the ring has. -/
def CopiedSoFar (D : RingDemo T) (x : RingTasks N T O) : Prop :=
  ∀ o todo, x.stats o = .copy todo →
    ∃ done, D.statsFields N = done ++ todo ∧ ∀ f ∈ done, (x.out o).Agrees x.ring f

/-- A step of one call concerns that call only. -/
theorem CopiedSoFar.ofCall {D : RingDemo T} {o : O} {x x' : RingTasks N T O}
    (K : CopiedSoFar D x) (hring : x'.ring = x.ring)
    (hother : ∀ o', o' ≠ o → x'.stats o' = x.stats o' ∧ x'.out o' = x.out o')
    (hown : ∀ todo, x'.stats o = .copy todo →
      ∃ done, D.statsFields N = done ++ todo ∧ ∀ f ∈ done, (x'.out o).Agrees x.ring f) :
    CopiedSoFar D x' := by
  intro o' todo ho
  rw [hring]
  by_cases hne : o' = o
  · subst hne
    exact hown todo ho
  · obtain ⟨hstats, hout⟩ := hother o' hne
    rw [hout]
    exact K o' todo (hstats.symm.trans ho)

/-- The copy of the next field. -/
theorem CopiedSoFar.copied {D : RingDemo T} {o : O} {x : RingTasks N T O}
    (K : CopiedSoFar D x) {f : StatsField N} {todo : List (StatsField N)}
    (ho : x.stats o = .copy (f :: todo)) :
    ∃ done, D.statsFields N = done ++ todo ∧
      ∀ g ∈ done, ((x.out o).copy x.ring f).Agrees x.ring g := by
  obtain ⟨done, hfields, hdone⟩ := K o (f :: todo) ho
  refine ⟨done ++ [f], by simpa using hfields, fun g hg => ?_⟩
  rcases List.mem_append.mp hg with hg | hg
  · exact (hdone g hg).copy
  · rw [List.mem_singleton.mp hg]
    exact RingBufStats.agrees_copy _ _ f

section
variable [Fintype T] [Fintype O] {D : RingDemo T} {σ : Ring N T O} {o : O}

/-- A call that is not waiting in its pend keeps every loop out of the mutex. -/
theorem RingUnits.no_loop_inside (U : RingUnits D σ) {t : T} (ht : σ.HoldsMutex (.inl t)) {o : O}
    {todo : List (StatsField N)} (ho : σ.stats o = .copy todo) : todo = D.statsFields N := by
  by_contra hne
  have hq : .inr o ∉ (σ.sem .mutex).queue := by
    intro hq
    have := U.mutexStats o hq
    rw [ho] at this
    exact hne (StatsPc.copy.inj this)
  have hm : σ.HoldsMutex (.inr o) := ⟨by simp [Ring.holds, ho, StatsPc.holds], hq⟩
  cases U.exclusive hm ht

variable [DecidableEq T] [DecidableEq O]

/-- **Step lemma.** -/
theorem CopiedSoFar.step (K : CopiedSoFar D σ.toRingTasks) (U : RingUnits D σ)
    {a : RingAct T O} (ha : a.Allowed D σ) : CopiedSoFar D (a.exec D σ).toRingTasks := by
  obtain ⟨hready, hfree⟩ := ha
  cases a with
  | loop t =>
    have hb : ¬ σ.Blocked (.inl t) := hfree _ rfl
    simp only [RingAct.exec, RingAct.step]
    rcases hl : σ.loops t with ⟨i, pc⟩
    cases pc with
    | inside p =>
      -- the ring may change, but no call has copied anything of it
      have hm := Ring.holdsMutex_of_pc hl rfl fun h => hb ⟨_, h⟩
      simp only [loopStep, hl]
      intro o todo ho
      exact ⟨[], (U.no_loop_inside hm ho).symm, by simp⟩
    | pendSlot =>
      simp only [loopStep, hl, if_pos (RingTasks.lt_perTask hready hl)]
      exact K
    | pendMutex | postMutex | postSlot =>
      simp only [loopStep, hl]
      exact K
  | getStats o null =>
    simp only [RingAct.exec, RingAct.step, ipcRingDemoGetStats]
    split
    · exact K
    split
    · refine K.ofCall (o := o) rfl (fun o' hne => ⟨rfl, by simp [hne]⟩) fun todo ho => ?_
      cases (show σ.stats o = .outside from hready).symm.trans ho
    · refine K.ofCall (o := o) rfl (fun o' hne => ⟨by simp [hne], rfl⟩) fun todo ho => ?_
      simp at ho
  | stats o =>
    simp only [RingAct.exec, RingAct.step]
    rcases hs : σ.stats o with _ | _ | todo
    · exact absurd hs hready
    · simp only [statsStep, hs]
      refine K.ofCall (o := o) rfl (fun o' hne => ⟨by simp [hne], rfl⟩) fun todo ho => ?_
      simp only [Function.update_self] at ho
      exact ⟨[], StatsPc.copy.inj ho, by simp⟩
    · cases todo with
      | nil =>
        simp only [statsStep, hs]
        refine K.ofCall (o := o) rfl (fun o' hne => ⟨by simp [hne], rfl⟩) fun todo ho => ?_
        simp at ho
      | cons f todo =>
        simp only [statsStep, hs]
        refine K.ofCall (o := o) rfl (fun o' hne => ⟨by simp [hne], by simp [hne]⟩)
          fun todo' ho => ?_
        simp only [Function.update_self] at ho ⊢
        obtain rfl := StatsPc.copy.inj ho
        exact K.copied hs
  | started =>
    intro o todo ho
    obtain ⟨done, hfields, hdone⟩ := K o todo ho
    refine ⟨done, hfields, fun f hf => ?_⟩
    have := hdone f hf
    cases f <;> exact this

/-- **Run lemma.** -/
theorem CopiedSoFar.of_run {hist : RingHistory N T O} (r : Run (ringMachine D N O) hist σ) :
    CopiedSoFar D σ.toRingTasks := by
  refine r.invariant_hist (fun _ σ => CopiedSoFar D σ.toRingTasks) (fun σ h o todo ho => ?_)
    fun hist σ a r K ha => K.step (RingUnits.of_run r) ha
  rw [h.stats o] at ho
  cases ho

end

/-! ## The snapshot -/

/-- Each task counts in an entry of the array of its side. -/
def RingDemo.Numbered (D : RingDemo T) : Prop := ∀ t, (D.task t).num < D.num (D.task t).side

/-- `out` is the ring after the accesses `acc`. -/
structure Snapshot (D : RingDemo T) (acc : List (Access (BitVec 32) N)) (out : RingBufStats N) :
    Prop where
  ringSize : out.ringSize = N
  sum : ∀ d, (∑ num ∈ Finset.range (D.num d), (out.per d num).toNat) % 2 ^ 32 = (out.total d).toNat
  total : ∀ d, (out.total d).toNat = (sideItems acc d).length % 2 ^ 32
  consumed_le : (sideItems acc .consumer).length ≤ (sideItems acc .producer).length
  room : (sideItems acc .producer).length ≤ (sideItems acc .consumer).length + N
  inside : (out.total .producer - out.total .consumer).toNat ≤ N
  index : ∀ d, out.index d = (sideItems acc d).length % N
  buffer : ∀ (j : Fin N) k, (sideItems acc .consumer).length ≤ k → j.val = k % N →
    ∀ item, (sideItems acc .producer)[k]? = some item → out.buffer j = item.toInt

section
variable [Fintype T] [Fintype O] {D : RingDemo T} {acc : List (Access (BitVec 32) N)}
  {σ : Ring N T O} {o : O}

/-- While a call copies, every loop has counted what it has accessed. -/
theorem RingUnits.settled (U : RingUnits D σ) (ho : σ.HoldsMutex (.inr o)) (t : T) :
    (σ.loops t).totalled = (σ.loops t).accessed ∧ (σ.loops t).counted = (σ.loops t).accessed ∧
      (σ.loops t).stale = 0 := by
  have hpc : (σ.loops t).pc.holds = 1 → (σ.loops t).pc = .inside .loadIndex := by
    intro hholds
    by_contra hne
    have hq : .inl t ∉ (σ.sem .mutex).queue := fun h => hne (U.mutexLoops t h)
    cases U.exclusive (Ring.holdsMutex_of_pc rfl hholds hq) ho
  rcases hl : σ.loops t with ⟨i, pc⟩
  rw [hl] at hpc
  cases pc with
  | inside p =>
    obtain rfl := LoopPc.inside.inj (hpc rfl)
    exact ⟨rfl, rfl, rfl⟩
  | postMutex => cases hpc rfl
  | pendSlot | pendMutex | postSlot => exact ⟨rfl, rfl, rfl⟩

theorem RingDemo.sum_tasksAt (hD : D.Numbered) (d : Side) (f : Loop N → Nat) (loc : T → Loop N) :
    ∑ num ∈ Finset.range (D.num d), tally (D.tasksAt d num) f loc = tally (D.tasks d) f loc := by
  refine Finset.sum_fiberwise_of_maps_to (fun t ht => ?_) fun t => f (loc t)
  rw [Finset.mem_range, ← D.mem_tasks.mp ht]
  exact hD t

omit [Fintype T] in
theorem RingDemo.mem_statsFields (D : RingDemo T) :
    (.ringSize ∈ D.statsFields N) ∧ (∀ d, .index d ∈ D.statsFields N) ∧
    (∀ d, .total d ∈ D.statsFields N) ∧
    (∀ d num, num < D.num d → .per d num ∈ D.statsFields N) ∧
    ∀ j : Fin N, .buffer j ∈ D.statsFields N := by
  refine ⟨by simp [RingDemo.statsFields], fun d => ?_, fun d => ?_, fun d num h => ?_, fun j => ?_⟩
  · cases d <;> simp [RingDemo.statsFields]
  · cases d <;> simp [RingDemo.statsFields]
  · cases d <;> simp [RingDemo.statsFields, h]
  · simp [RingDemo.statsFields]

/-- **When a call is about to post the mutex, it has the ring of that moment.** -/
theorem snapshot_of_copied (hD : D.Numbered) (S : RingStored D acc σ.toRingTasks)
    (C : RingCounted D σ.toRingTasks) (U : RingUnits D σ) (K : CopiedSoFar D σ.toRingTasks)
    (hs : σ.stats o = .copy []) (hb : ¬ σ.Blocked (.inr o)) : Snapshot D acc (σ.out o) := by
  have hm : σ.HoldsMutex (.inr o) :=
    ⟨by simp [Ring.holds, hs, StatsPc.holds], fun hq => hb ⟨_, hq⟩⟩
  obtain ⟨done, hfields, hdone⟩ := K o [] hs
  rw [List.append_nil] at hfields
  rw [← hfields] at hdone
  obtain ⟨hsize, hindex, htotal, hper, hbuffer⟩ := D.mem_statsFields (N := N)
  have hlen : ∀ d, tally (D.tasks d) Loop.totalled σ.loops = (sideItems acc d).length := by
    intro d
    rw [S.accessed]
    exact Finset.sum_congr rfl fun t _ => (U.settled hm t).1
  have hout : ∀ d, (σ.out o).total d = BitVec.ofNat 32 (sideItems acc d).length := by
    intro d
    rw [← hlen, ← C.total]
    exact hdone _ (htotal d)
  have I := S.cyclic.inv
  have hle : (sideItems acc .consumer).length ≤ (sideItems acc .producer).length := I.le
  have hroom : (sideItems acc .producer).length ≤ (sideItems acc .consumer).length + N := I.room
  refine ⟨hdone _ hsize, fun d => ?_, fun d => by rw [hout, BitVec.toNat_ofNat], hle, hroom, ?_,
    fun d => ?_, fun j k hk hj item hitem => ?_⟩
  · have heach : ∀ num ∈ Finset.range (D.num d), ((σ.out o).per d num).toNat =
        tally (D.tasksAt d num) Loop.counted σ.loops % 2 ^ 32 := by
      intro num hnum
      have hagree := hdone _ (hper d num (Finset.mem_range.mp hnum))
      rw [show (σ.out o).per d num = σ.ring.per d num from hagree, C.per, BitVec.toNat_ofNat]
    have hcounted : tally (D.tasks d) Loop.counted σ.loops = (sideItems acc d).length := by
      rw [S.accessed]
      exact Finset.sum_congr rfl fun t _ => (U.settled hm t).2.1
    rw [Finset.sum_congr rfl heach, ← Finset.sum_nat_mod, D.sum_tasksAt hD, hcounted, hout,
      BitVec.toNat_ofNat]
  · have hsub : (σ.out o).total .producer - (σ.out o).total .consumer =
        BitVec.ofNat 32 ((sideItems acc .producer).length - (sideItems acc .consumer).length) := by
      rw [hout, hout, BitVec.sub_eq_iff_eq_add, ← BitVec.ofNat_add, Nat.sub_add_cancel hle]
    rw [hsub, BitVec.toNat_ofNat]
    exact (Nat.mod_le _ _).trans (by omega)
  · have hstale : tally (D.tasks d) Loop.stale σ.loops = 0 :=
      tally_eq_zero fun t _ => (U.settled hm t).2.2
    rw [S.index, hstale, Nat.add_zero, Nat.mod_eq_of_lt (σ.ring.index d).isLt]
    exact hdone _ (hindex d)
  · have hlive : Live acc j item := ⟨k, hk, hitem, hj.symm⟩
    have hagree : (σ.out o).buffer j = (σ.ring.ringBuf[j]).toInt := hdone _ (hbuffer j)
    rw [hagree, I.stored j item hlive]

variable [DecidableEq T] [DecidableEq O]

/-- The call of `o` that took the mutex returns. -/
def Returns (D : RingDemo T) (o : O) (e : Ring N T O × RingAct T O) : Prop :=
  e.1.stats o ≠ .outside ∧ (e.2.exec D e.1).stats o = .outside

/-- A call of `IPC_RingDemoGetStats`, or a step in one. -/
def RingAct.isStats : RingAct T O → Bool
  | .getStats _ _ | .stats _ => true
  | _ => false

/-- What the calls of a run do: once the demo has started a call takes the mutex, what it
returns is the ring of that moment, and its steps leave the ring alone. -/
structure SnapshotsConsistent (D : RingDemo T) (hist : RingHistory N T O) : Prop where
  takesMutex : ∀ e ∈ hist, ∀ o, e.2 = .getStats o false → e.1.ring.demoStarted = true →
    (e.2.exec D e.1).stats o = .pendMutex
  consistent : Always (fun pre e => ∀ o, Returns D o e →
    Snapshot D (ringAccesses D pre) ((e.2.exec D e.1).out o)) hist
  readOnly : ∀ e ∈ hist, e.2.isStats = true → (e.2.exec D e.1).ring = e.1.ring

omit [Fintype T] [Fintype O] in
/-- A call returns with the post of the mutex. -/
theorem Returns.eq {a : RingAct T O} (ha : a.Allowed D σ) (h : Returns D o (σ, a)) :
    a = .stats o ∧ σ.stats o = .copy [] ∧ (a.exec D σ).out o = σ.out o := by
  obtain ⟨hready, -⟩ := ha
  obtain ⟨hne, hnew⟩ := h
  dsimp only at hne hnew
  cases a with
  | loop t =>
    have hstats : (loopStep D σ.toRingTasks t).1.stats = σ.stats := by
      unfold loopStep
      simp only
      split <;> first | rfl | (split <;> rfl)
    exact absurd ((congrFun hstats o).symm.trans hnew) hne
  | getStats o' null =>
    have hstats : (ipcRingDemoGetStats σ.toRingTasks o' null).stats o = .outside := hnew
    unfold ipcRingDemoGetStats at hstats
    split at hstats
    · exact absurd hstats hne
    · split at hstats
      · exact absurd hstats hne
      · by_cases ho : o = o'
        · subst ho
          exact absurd hready hne
        · simp only [Function.update_of_ne ho] at hstats
          exact absurd hstats hne
  | stats o' =>
    by_cases ho : o = o'
    · subst ho
      simp only [RingAct.exec, RingAct.step] at hnew ⊢
      rcases hs : σ.stats o with _ | _ | _ | _
      · exact absurd hs hne
      · simp [statsStep, hs] at hnew
      · simp [statsStep, hs]
      · simp [statsStep, hs] at hnew
    · have hstats : (statsStep D σ.toRingTasks o').1.stats o = σ.stats o := by
        unfold statsStep
        simp only
        split <;> simp [Function.update_of_ne ho]
      exact absurd (hstats.symm.trans hnew) hne
  | started => exact absurd hnew hne

omit [Fintype T] [Fintype O] in
theorem RingAct.ring_of_isStats {a : RingAct T O} (ha : a.isStats = true) :
    (a.exec D σ).ring = σ.ring := by
  cases a with
  | loop t => cases ha
  | getStats o null =>
    simp only [RingAct.exec, RingAct.step, ipcRingDemoGetStats]
    split
    · rfl
    · split <;> rfl
  | stats o =>
    simp only [RingAct.exec, RingAct.step, statsStep]
    split <;> rfl
  | started => cases ha

/-- **Every snapshot is the ring of one moment.** -/
theorem snapshots_of_run (hD : D.Numbered) {hist : RingHistory N T O}
    (r : Run (ringMachine D N O) hist σ) : SnapshotsConsistent D hist := by
  refine ⟨?_, ?_, fun e _ he => RingAct.ring_of_isStats he⟩
  · rintro ⟨σ', a⟩ - o rfl hstarted
    have hstarted : σ'.ring.demoStarted = true := hstarted
    simp [RingAct.exec, RingAct.step, ipcRingDemoGetStats, hstarted]
  · refine r.invariant_hist (fun hist _ => Always (fun pre e => ∀ o, Returns D o e →
      Snapshot D (ringAccesses D pre) ((e.2.exec D e.1).out o)) hist)
      (fun _ _ => always_nil _) fun hist σ a r ih ha => ?_
    refine (always_snoc _ _ _).mpr ⟨ih, fun o ho => ?_⟩
    obtain ⟨rfl, hs, hout⟩ := ho.eq ha
    rw [hout]
    exact snapshot_of_copied hD (RingStored.of_run r) (RingCounted.of_run r) (RingUnits.of_run r)
      (CopiedSoFar.of_run r) hs (ha.2 _ rfl)

theorem ipcRingDemo_numbered : ipcRingDemo.Numbered := by
  intro t
  cases t <;> decide

/-- The ring has wrapped when a call comes to the mutex between the two producers, and it copies
the ring before the second of them goes on. -/
def snapshotActs : List (RingAct IpcTask Unit) :=
  wrapActs ++ [.loop .tP1, .loop .tP2, .loop .tP1, .stats (), .loop .tP2] ++
    List.replicate 9 (.loop .tP1) ++ List.replicate 14 (.stats ()) ++
    List.replicate 9 (.loop .tP2) ++ [.loop .tP2, .loop .tP1]

/-- The copy has the first producer's item and not the second's. -/
theorem snapshots_of_wrap :
    SnapshotsConsistent ipcRingDemo
      (trace (RingAct.exec ipcRingDemo) (ringInit (by decide : 0 < ipcRingBufSize))
        snapshotActs) ∧
    let σ := snapshotActs.foldl (RingAct.exec ipcRingDemo)
      (ringInit (by decide : 0 < ipcRingBufSize) : Ring _ _ Unit)
    (σ.out ()).total .producer = 7 ∧ σ.ring.total .producer = 8 :=
  ⟨snapshots_of_run ipcRingDemo_numbered
    (Run.ofList (M := ringMachine ipcRingDemo ipcRingBufSize Unit)
      (ringInit_start _) snapshotActs (by decide +kernel)), by decide +kernel⟩

end

end MiniEuler
