import MiniEuler.Kernel.Units
import MiniEuler.Ipc.RingProgress

/-! The demo on the kernel. Its tasks run under pids of the kernel and its semaphores are
semaphores of the kernel; what they do is a run of the demo over hand-off semaphores. -/

namespace MiniEuler
open Library

/-- The three `PRT_SemCreate` of `IPC_RingDemoStart`, for a ring of `N` slots. -/
def ipcRingSemCreate (k : Kernel) (N : Nat) : Kernel × Except Nat (RingSem → Nat) :=
  match prtSemCreate k N false with
  | (k, .error ret) => (k, .error ret)
  | (k, .ok semEmpty) =>
    match prtSemCreate k 0 false with
    | (k, .error ret) => (k, .error ret)
    | (k, .ok semFull) =>
      match prtSemCreate k 1 false with
      | (k, .error ret) => (k, .error ret)
      | (k, .ok semMutex) =>
        (k, .ok fun
          | .empty => semEmpty
          | .full => semFull
          | .mutex => semMutex)

/-- The pids and the semaphore handles of a demo. -/
structure RingPlace (T O : Type) where
  pid : T ⊕ O → Nat
  handle : RingSem → Nat
  pid_injective : pid.Injective
  handle_injective : handle.Injective

/-- The tasks of the demo and the kernel they run on. -/
structure RingSystem (N : Nat) (T O : Type) extends RingTasks N T O where
  kernel : Kernel

/-- A step of the running task in the demo, or any other call of the kernel. -/
inductive RingSysAct (T O : Type)
  | demo (a : RingAct T O)
  | other (op : Op)
  deriving DecidableEq

def RingCall.op (handle : RingSem → Nat) : RingCall → Op
  | .pend s => .semPend (handle s) osWaitForever
  | .post s => .semPost (handle s)

/-- The call acts on none of the semaphores. -/
def Op.Foreign (handle : RingSem → Nat) (op : Op) : Prop :=
  ∀ s, (∀ timeout, op ≠ .semPend (handle s) timeout) ∧ op.posts ≠ some (handle s)

section
variable {N : Nat} {T O : Type} [DecidableEq T] [DecidableEq O] (D : RingDemo T) (P : RingPlace T O)

namespace RingSysAct

def exec (x : RingSystem N T O) : RingSysAct T O → RingSystem N T O
  | .demo a =>
    { toRingTasks := (a.step D x.toRingTasks).1
      kernel :=
        match (a.step D x.toRingTasks).2 with
        | none => x.kernel
        | some (_, call) => (call.op P.handle).next x.kernel }
  | .other op => { x with kernel := op.next x.kernel }

/-- The demo's steps are made by the task that the kernel runs. -/
def Allowed (x : RingSystem N T O) : RingSysAct T O → Prop
  | .demo a => a.Ready D x.toRingTasks ∧ ∀ y ∈ a.task, bgdActive x.kernel ∧
      x.kernel.runningTask ≠ x.kernel.idleTaskId ∧ x.kernel.runningTask = P.pid y
  | .other op => supportedMachine.Allowed x.kernel op ∧ op.Foreign P.handle

def demo? : RingSysAct T O → Option (RingAct T O)
  | .demo a => some a
  | .other _ => none

end RingSysAct

/-- The semaphores have been created and not used yet. -/
structure RingSystemStart (x : RingSystem N T O) : Prop extends RingTasksStart x.toRingTasks where
  kernel : ∃ hist, Run supportedMachine hist x.kernel
  sems : ∀ s, Refines (P.handle s) (s.units N) [] x.kernel

def ringSystemMachine (N : Nat) : Machine (RingSystem N T O) (RingSysAct T O) where
  Start := RingSystemStart P
  Allowed := RingSysAct.Allowed D P
  exec := RingSysAct.exec D P

end

/-! ## Creating the semaphores -/

section
variable {k k' : Kernel} {hist : History}

/-- `PRT_SemCreate` gives a handle that is not in use, and leaves the semaphores that are in
use alone. -/
theorem prtSemCreate_ok (r : Run supportedMachine hist k) {count s : Nat}
    (h : prtSemCreate k count false = (k', .ok s)) :
    (∃ hist', Run supportedMachine hist' k') ∧ Refines s count [] k' ∧
      ∀ s' c, Refines s' c [] k → Refines s' c [] k' ∧ s' ≠ s := by
  obtain ⟨ph, I⟩ := Inv.of_run r
  have hnext : (Op.semCreate count false).next k = k' := by rw [Op.next, Op.exec, h]
  have hc : (Op.semCreate count false).Callable k := trivial
  have e := (Op.semCreate count false).effect I.linked I.lock hc
  have hs : (prtSemCreate k count false).2 = .ok s := by rw [h]
  obtain ⟨rest, hl, -, -⟩ := I.semCreate_eq hs
  have hun := ((I.sems.unusedSem s).mp (by simp [hl])).2
  rw [← hnext]
  refine ⟨⟨_, r.step (a := Op.semCreate count false) ⟨hc, id⟩⟩, Refines.created I hs,
    fun s' c R => ⟨?_, ?_⟩⟩
  · simpa [semEvents] using R.step (R.semEffect I e hc id)
  · rintro rfl
    rw [R.used] at hun
    cases hun

/-- **The semaphores of the demo.** Once `IPC_RingDemoStart` has created them they are three
hand-off semaphores of `N`, 0 and 1 units. -/
theorem ipcRingSemCreate_ok (r : Run supportedMachine hist k) {N : Nat} {handle : RingSem → Nat}
    (h : ipcRingSemCreate k N = (k', .ok handle)) :
    handle.Injective ∧ (∃ hist', Run supportedMachine hist' k') ∧
      ∀ s, Refines (handle s) (s.units N) [] k' := by
  unfold ipcRingSemCreate at h
  rcases hempty : prtSemCreate k N false with ⟨k₁, _ | semEmpty⟩ <;> simp only [hempty] at h
  · cases h
  rcases hfull : prtSemCreate k₁ 0 false with ⟨k₂, _ | semFull⟩ <;> simp only [hfull] at h
  · cases h
  rcases hmutex : prtSemCreate k₂ 1 false with ⟨k₃, _ | semMutex⟩ <;> simp only [hmutex] at h
  · cases h
  obtain ⟨rfl, hhandle⟩ := Prod.mk.inj h
  obtain rfl := Except.ok.inj hhandle
  obtain ⟨⟨_, r₁⟩, RE₁, -⟩ := prtSemCreate_ok r hempty
  obtain ⟨⟨_, r₂⟩, RF₂, keep₂⟩ := prtSemCreate_ok r₁ hfull
  obtain ⟨hrun, RM₃, keep₃⟩ := prtSemCreate_ok r₂ hmutex
  obtain ⟨RE₂, hEF⟩ := keep₂ _ _ RE₁
  obtain ⟨RE₃, hEM⟩ := keep₃ _ _ RE₂
  obtain ⟨RF₃, hFM⟩ := keep₃ _ _ RF₂
  refine ⟨fun a b hab => ?_, hrun, fun s => ?_⟩
  · cases a <;> cases b <;> simp_all
  · cases s with
    | empty => exact RE₃
    | full => exact RF₃
    | mutex => exact RM₃

/-- The handles of the demo's semaphores, when nothing else has created any. -/
example : (ipcRingSemCreate ((Op.activate 0).next bootKernel) ipcRingBufSize).2.toOption.map
    (fun handle => (handle .empty, handle .full, handle .mutex)) = some (0, 1, 2) := by
  decide +kernel

/-- The demo starts where the semaphores have been created. -/
theorem ringSystemStart_of_create {N : Nat} {T O : Type} {P : RingPlace T O}
    (r : Run supportedMachine hist k) (h : ipcRingSemCreate k N = (k', .ok P.handle))
    {x : RingTasks N T O} (hx : RingTasksStart x) : RingSystemStart P ⟨x, k'⟩ := by
  obtain ⟨-, hrun, hsems⟩ := ipcRingSemCreate_ok r h
  exact { hx with kernel := hrun, sems := hsems }

end

/-! ## Every post finds room -/

section
variable {N : Nat} {T O : Type} {D : RingDemo T}

/-- A call is made by the task that takes the step. -/
theorem RingAct.task_of_call [DecidableEq T] [DecidableEq O] {x : RingTasks N T O}
    {a : RingAct T O} {y : T ⊕ O} {call : RingCall} (h : (a.step D x).2 = some (y, call)) :
    a.task = some y := by
  cases a with
  | loop t =>
    obtain ⟨_, -, heq⟩ := Option.map_eq_some_iff.mp h
    rw [← (Prod.mk.inj heq).1]
    rfl
  | stats o =>
    obtain ⟨_, -, heq⟩ := Option.map_eq_some_iff.mp h
    rw [← (Prod.mk.inj heq).1]
    rfl
  | getStats o null => cases h
  | started => cases h

variable [Fintype T] [Fintype O] {σ : Ring N T O}

/-- When a task holds the mutex its unit is taken. -/
theorem RingUnits.mutex_count (U : RingUnits D σ) {x : T ⊕ O} (hx : σ.HoldsMutex x) :
    (σ.sem .mutex).count = 0 := by
  have hle := Ring.length_le_holds (List.nodup_cons.mpr ⟨hx.2, U.nodup .mutex⟩) (by
    intro y hy
    rcases List.mem_cons.mp hy with rfl | hy
    · exact hx.1
    · exact U.holds_of_waits hy)
  have hmutex := U.mutex
  rw [List.length_cons] at hle
  omega

/-- A task that has filled or emptied a slot finds the other side short of one unit. -/
theorem RingUnits.slot_count_lt (U : RingUnits D σ) {t : T} (hpc : (σ.loops t).pc = .postSlot) :
    (σ.sem (D.task t).side.other.sem).count < N := by
  obtain ⟨l, hq, hl, hwaits⟩ := U.exists_slotQueue (D.task t).side
  have hfresh : t ∉ l := by
    intro ht
    have hpend := (hwaits t ht).2
    rw [hpc] at hpend
    cases hpend
  have hle := length_le_tally (D.tasks (D.task t).side) Loop.taken σ.loops
    (List.nodup_cons.mpr ⟨hfresh, hl⟩) (by
      intro u hu
      rcases List.mem_cons.mp hu with rfl | hu
      · exact ⟨D.self_mem_tasks u, by simp [Loop.taken, hpc, LoopPc.taken]⟩
      · obtain ⟨hside, hpend⟩ := hwaits u hu
        exact ⟨D.mem_tasks.mpr hside, by simp [Loop.taken, hpend, LoopPc.taken]⟩)
  have hown := U.slots (D.task t).side
  have hother := U.slots (D.task t).side.other
  rw [hq, List.length_map] at hown
  rw [Side.other_other] at hother
  rw [List.length_cons] at hle
  have hunits : (D.task t).side.sem.units N + (D.task t).side.other.sem.units N = N := by
    cases (D.task t).side <;> simp [Side.other, Side.sem, RingSem.units]
  have hpos : 0 < N := (σ.ring.index .producer).pos
  rcases (σ.sem (D.task t).side.other.sem).noWaste with hnil | hzero
  · rw [hnil, List.length_nil] at hother
    omega
  · omega

variable [DecidableEq T] [DecidableEq O]

/-- **No post overflows.** -/
theorem RingUnits.room (U : RingUnits D σ) {a : RingAct T O} (ha : a.Allowed D σ) {y : T ⊕ O}
    {s : RingSem} (h : (a.step D σ.toRingTasks).2 = some (y, .post s)) :
    (σ.sem s).count < N := by
  have hpos : 0 < N := (σ.ring.index .producer).pos
  have hfree : ¬ σ.Blocked y := ha.2 y (RingAct.task_of_call h)
  cases a with
  | loop t =>
    obtain ⟨call, hcall, heq⟩ := Option.map_eq_some_iff.mp h
    obtain ⟨rfl, rfl⟩ := Prod.mk.inj heq
    rcases hl : σ.loops t with ⟨i, pc⟩
    cases pc with
    | pendSlot =>
      simp only [loopStep, hl] at hcall
      split at hcall <;> simp at hcall
    | pendMutex => simp [loopStep, hl] at hcall
    | inside p => simp [loopStep, hl] at hcall
    | postMutex =>
      simp only [loopStep, hl, Option.some.injEq, RingCall.post.injEq] at hcall
      subst hcall
      rw [U.mutex_count (Ring.holdsMutex_of_pc hl rfl fun hq => hfree ⟨_, hq⟩)]
      exact hpos
    | postSlot =>
      simp only [loopStep, hl, Option.some.injEq, RingCall.post.injEq] at hcall
      subst hcall
      exact U.slot_count_lt (by rw [hl])
  | stats o =>
    obtain ⟨call, hcall, heq⟩ := Option.map_eq_some_iff.mp h
    obtain ⟨rfl, rfl⟩ := Prod.mk.inj heq
    rcases hs : σ.stats o with _ | _ | _ | _
    · simp [statsStep, hs] at hcall
    · simp [statsStep, hs] at hcall
    · simp only [statsStep, hs, Option.some.injEq, RingCall.post.injEq] at hcall
      subst hcall
      have hx : σ.HoldsMutex (.inr o) :=
        ⟨by simp [Ring.holds, hs, StatsPc.holds], fun hq => hfree ⟨_, hq⟩⟩
      rw [U.mutex_count hx]
      exact hpos
    · simp [statsStep, hs] at hcall
  | getStats o null => cases h
  | started => cases h

end

/-! ## The simulation -/

section
variable {N : Nat} {T O : Type} [Fintype T] [Fintype O]

/-- The kernel under the demo is in the state `σ` that the demo has over hand-off semaphores. -/
structure RingRefines (D : RingDemo T) (P : RingPlace T O) (x : RingSystem N T O)
    (σ : Ring N T O) : Prop where
  tasks : σ.toRingTasks = x.toRingTasks
  units : RingUnits D σ
  size : N ≤ osSemCountMax
  kernel : ∃ ph, Inv x.kernel ph
  sems : ∀ s, ∃ evs, Refines (P.handle s) (s.units N) evs x.kernel
  semIs : ∀ s, SemIs x.kernel (P.handle s) ((σ.sem s).map P.pid)

variable {D : RingDemo T} {P : RingPlace T O} {x : RingSystem N T O} {σ : Ring N T O}

theorem RingSystemStart.refines (h : RingSystemStart P x) :
    ∃ σ, RingStart σ ∧ RingRefines D P x σ := by
  obtain ⟨hist, r⟩ := h.kernel
  have hsem : ∀ s, SemIs x.kernel (P.handle s) (HandOff.new (s.units N)) := by
    intro s
    obtain ⟨h, H, hcount, hqueue⟩ := (h.sems s).hist
    have hnew : h = HandOff.new (s.units N) := by
      generalize hevs : ([] : List (HandOff.Event Nat)) = evs at H
      cases H with
      | new => rfl
      | _ => simp at hevs
    rw [hnew] at hcount hqueue
    exact ⟨hcount.symm, hqueue.symm⟩
  have hstart : RingStart (⟨x.toRingTasks, fun s => HandOff.new (s.units N)⟩ : Ring N T O) :=
    { h.toRingTasksStart with sem := fun _ => rfl }
  refine ⟨_, hstart, ⟨rfl, hstart.units, ?_, Inv.of_run r, fun s => ⟨[], h.sems s⟩, fun s => ?_⟩⟩
  · have hle := (h.sems .empty).count_le
    rwa [(hsem .empty).count] at hle
  · exact hsem s

namespace RingRefines

/-- The running task is not on a wait list. -/
theorem allowed (R : RingRefines D P x σ) {a : RingAct T O}
    (ha : RingSysAct.Allowed D P x (.demo a)) : a.Allowed D σ := by
  obtain ⟨ph, I⟩ := R.kernel
  refine ⟨by rw [R.tasks]; exact ha.1, ?_⟩
  rintro y hy ⟨s, hs⟩
  obtain ⟨hb, -, hrun⟩ := ha.2 y hy
  have hmem : x.kernel.runningTask ∈ x.kernel.semList (P.handle s) := by
    rw [(R.semIs s).list, hrun]
    exact List.mem_map_of_mem hs
  have hpend := I.linked.mem_semList.mp hmem
  rw [(I.active hb).1] at hpend
  cases hpend

/-- A call that is not about a semaphore of the demo leaves it alone. -/
theorem semSame (R : RingRefines D P x σ) {op : Op} (hc : op.Callable x.kernel) {s : RingSem}
    (hpend : ∀ timeout, op ≠ .semPend (P.handle s) timeout)
    (hpost : op.posts ≠ some (P.handle s)) :
    SemIs (op.next x.kernel) (P.handle s) ((σ.sem s).map P.pid) := by
  obtain ⟨ph, I⟩ := R.kernel
  obtain ⟨evs, hR⟩ := R.sems s
  have e := op.effect I.linked I.lock hc
  exact (R.semIs s).same (e.semSame I hc (Or.inr hR.used) hpend hpost)

/-- After a call of the kernel the semaphores are still hand-off semaphores. -/
theorem next (R : RingRefines D P x σ) {op : Op} (hop : supportedMachine.Allowed x.kernel op)
    {σ' : Ring N T O} (U : RingUnits D σ')
    (hsem : ∀ s, SemIs (op.next x.kernel) (P.handle s) ((σ'.sem s).map P.pid)) :
    RingRefines D P ⟨σ'.toRingTasks, op.next x.kernel⟩ σ' := by
  obtain ⟨ph, I⟩ := R.kernel
  obtain ⟨hc, hsup⟩ := hop
  have e := op.effect I.linked I.lock hc
  refine ⟨rfl, U, R.size, I.step hc e hsup, fun s => ?_, hsem⟩
  obtain ⟨evs, hR⟩ := R.sems s
  exact ⟨_, hR.step (hR.semEffect I e hc hsup)⟩

/-- What else happens on the kernel is not seen by the demo. -/
theorem other (R : RingRefines D P x σ) {op : Op} (hop : supportedMachine.Allowed x.kernel op)
    (hforeign : op.Foreign P.handle) : RingRefines D P { x with kernel := op.next x.kernel } σ := by
  have hnext := R.next hop R.units fun s => R.semSame hop.1 (hforeign s).1 (hforeign s).2
  rwa [R.tasks] at hnext

/-- The running task makes a call of the demo. -/
theorem call (R : RingRefines D P x σ) (hb : bgdActive x.kernel)
    (hidle : x.kernel.runningTask ≠ x.kernel.idleTaskId) {y : T ⊕ O}
    (hrun : x.kernel.runningTask = P.pid y) {call : RingCall}
    (hroom : ∀ s, call = .post s → (σ.sem s).count < N) :
    supportedMachine.Allowed x.kernel (call.op P.handle) ∧
    ∀ s', SemIs ((call.op P.handle).next x.kernel) (P.handle s')
      ((σ.call (some (y, call)) s').map P.pid) := by
  obtain ⟨ph, I⟩ := R.kernel
  cases call with
  | pend s =>
    have hc : (Op.semPend (P.handle s) osWaitForever).Callable x.kernel := ⟨hb, hidle⟩
    refine ⟨⟨hc, fun hu => hu.2 rfl⟩, fun s' => ?_⟩
    by_cases hs : s' = s
    · subst hs
      obtain ⟨evs, hR⟩ := R.sems s'
      rw [Ring.call, Function.update_self, HandOff.map_pend, ← hrun]
      exact hR.pend I (R.semIs s') hc
    · rw [Ring.call, Function.update_of_ne hs]
      refine R.semSame hc (fun timeout heq => ?_) (by simp [Op.posts])
      exact hs (P.handle_injective (Op.semPend.inj heq).1).symm
  | post s =>
    have hc : (Op.semPost (P.handle s)).Callable x.kernel := trivial
    refine ⟨⟨hc, id⟩, fun s' => ?_⟩
    by_cases hs : s' = s
    · subst hs
      obtain ⟨evs, hR⟩ := R.sems s'
      rw [Ring.call, Function.update_self, HandOff.map_post]
      exact hR.post I (R.semIs s') ((hroom s' rfl).trans_le R.size)
    · rw [Ring.call, Function.update_of_ne hs]
      refine R.semSame hc (by simp) fun heq => ?_
      exact hs (P.handle_injective (Option.some.inj heq)).symm

variable [DecidableEq T] [DecidableEq O]

/-- **Step lemma.** A step of the running task is a step of the demo. -/
theorem demo (R : RingRefines D P x σ) {a : RingAct T O}
    (ha : RingSysAct.Allowed D P x (.demo a)) :
    RingRefines D P (RingSysAct.exec D P x (.demo a)) (a.exec D σ) := by
  have hallowed := R.allowed ha
  have U := R.units.step hallowed
  simp only [RingAct.exec, RingSysAct.exec, ← R.tasks] at U ⊢
  rcases hcall : (a.step D σ.toRingTasks).2 with _ | ⟨y, call⟩ <;> rw [hcall] at U
  · exact ⟨rfl, U, R.size, R.kernel, R.sems, R.semIs⟩
  · obtain ⟨hb, hidle, hrun⟩ := ha.2 y (RingAct.task_of_call hcall)
    have hroom : ∀ s, call = .post s → (σ.sem s).count < N := by
      rintro s rfl
      exact R.units.room hallowed hcall
    obtain ⟨hop, hsem⟩ := R.call hb hidle hrun hroom
    exact R.next hop U hsem

end RingRefines

/-- The two machines have made the same accesses. -/
theorem RingRefines.accesses_eq {l : List (RingSystem N T O × RingAct T O)}
    {hist : RingHistory N T O}
    (h : List.Forall₂ (fun e e' => RingRefines D P e.1 e'.1 ∧ e.2 = e'.2) l hist) :
    ringAccesses D hist = l.filterMap fun e => ringAccess D e.1.toRingTasks e.2 := by
  induction h with
  | nil => rfl
  | cons he _ ih =>
    obtain ⟨R, heq⟩ := he
    rw [ringAccesses, List.filterMap_cons, List.filterMap_cons, R.tasks, heq, ← ih]
    rfl

variable [DecidableEq T] [DecidableEq O]

/-- **The demo on the kernel is the demo over hand-off semaphores.** -/
theorem ringSystem_simulation : Simulation (ringSystemMachine D P N) (ringMachine D N O)
    RingSysAct.demo? (RingRefines D P) where
  start _ h := h.refines
  hidden x σ a R ha hvis := by
    cases a with
    | demo a => cases hvis
    | other op => exact R.other ha.1 ha.2
  visible x σ a b R ha hvis := by
    cases a with
    | demo a =>
      obtain rfl := Option.some.inj hvis
      exact ⟨R.allowed ha, R.demo ha⟩
    | other op => cases hvis

/-! ## On the kernel -/

/-- The accesses to `g_ringBuf` in a run on the kernel. -/
def ringSysAccesses (D : RingDemo T) (hist : List (RingSystem N T O × RingSysAct T O)) :
    List (Access (BitVec 32) N) :=
  (seen RingSysAct.demo? hist).filterMap fun e => ringAccess D e.1.toRingTasks e.2

/-- **The ring delivers on the kernel**, whatever else runs on it. -/
theorem ringSystem_delivers {hist : List (RingSystem N T O × RingSysAct T O)}
    (r : Run (ringSystemMachine D P N) hist x) :
    WritesFree (ringSysAccesses D hist) ∧ ReadsWritten (ringSysAccesses D hist) ∧
    itemsRead (ringSysAccesses D hist) <+: itemsWritten (ringSysAccesses D hist) := by
  obtain ⟨hist', σ, r', -, hseen⟩ := ringSystem_simulation.run r
  have hdel := (RingStored.of_run r').cyclic.inv
  rw [RingRefines.accesses_eq hseen] at hdel
  exact ⟨hdel.writesFree, hdel.readsWritten, hdel.ordered⟩

/-- **The demo does not get stuck on the kernel.** -/
theorem ringSystem_not_stuck {hist : List (RingSystem N T O × RingSysAct T O)}
    (r : Run (ringSystemMachine D P N) hist x)
    (htotal : D.rounds .producer = D.rounds .consumer) (hun : ∃ t, ¬ x.Finished D t) :
    ∃ y, x.Unfinished D y ∧ ∀ s, P.pid y ∉ x.kernel.semList (P.handle s) := by
  obtain ⟨hist', σ, r', R, -⟩ := ringSystem_simulation.run r
  rw [← R.tasks] at hun ⊢
  obtain ⟨y, hy, hfree, -⟩ := (RingUnits.of_run r').not_stuck htotal hun
  refine ⟨y, hy, fun s hmem => hfree ⟨s, ?_⟩⟩
  rw [(R.semIs s).list, HandOff.map_queue] at hmem
  exact (List.mem_map_of_injective P.pid_injective).mp hmem

end

end MiniEuler
