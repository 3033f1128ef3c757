import MiniEuler.Demo.Inversion

/-! The demo on the kernel, as far as it does not matter who holds a semaphore: the tasks have
blocks of their own, and the semaphores are semaphores of one unit. -/

namespace MiniEuler
open Library

/-- `p` is the pid of a task that has been created. -/
def HasTcb (k : Kernel) (p : Nat) : Prop := p ≤ k.tskMaxNum ∧ inUse k p

theorem HasTcb.next {k : Kernel} {p : Nat} (h : HasTcb k p) (P : Pool k) (op : Op)
    (hc : op.Callable k) : HasTcb (op.next k) p :=
  ⟨h.1.trans (P.tskMaxNum_next hc).ge, P.inUse_next hc h.2⟩

/-- What every call of the kernel keeps. -/
structure DemoBase (x : DemoSystem) : Prop where
  kernel : ∃ ph, Inv x.kernel ph
  pool : Pool x.kernel
  refines : ∀ h ∈ x.sems, ∃ evs, Refines h 1 evs x.kernel
  pids : ∀ e, x.taskPid e ≤ x.kernel.tskMaxNum
  live : ∀ p t, x.tasks p = some t → HasTcb x.kernel p

variable {text : DemoEntry → UIntPtr} {shell : Nat}
variable {x : DemoSystem} {k : Kernel} {p q h : Nat} {t : DemoTask}

/-! ## Calls -/

theorem DemoBase.next (B : DemoBase x) (op : Op) (hop : kernelMachine.Allowed x.kernel op) :
    DemoBase { x with kernel := op.next x.kernel } := by
  obtain ⟨ph, I⟩ := B.kernel
  obtain ⟨hc, ht⟩ := hop
  have hsup := ht.not_unsupported (k := x.kernel)
  have e := op.effect I.linked I.lock hc
  refine ⟨I.step hc e hsup, B.pool.next hc, fun h hh => ?_, fun e => ?_, fun p t hp => ?_⟩
  · obtain ⟨evs, R⟩ := B.refines h hh
    exact ⟨_, R.step (R.semEffect I e hc hsup)⟩
  · exact (B.pids e).trans (B.pool.tskMaxNum_next hc).ge
  · exact (B.live p t hp).next B.pool op hc

theorem DemoBase.setTask (B : DemoBase x) {u : Option DemoTask}
    (hlive : ∀ t, u = some t → HasTcb x.kernel p) : DemoBase (x.setTask p u) := by
  refine { B with live := fun q t hq => ?_ }
  by_cases hqp : q = p
  · subst hqp
    exact hlive t (by simpa [DemoSystem.setTask] using hq)
  · exact B.live q t (by simpa [DemoSystem.setTask, hqp] using hq)

theorem DemoBase.semSame (B : DemoBase x) {op : Op} (hc : op.Callable x.kernel)
    (hh : h ∈ x.sems) (ha : op.Avoids h) : SemSame h x.kernel (op.next x.kernel) := by
  obtain ⟨ph, I⟩ := B.kernel
  obtain ⟨evs, R⟩ := B.refines h hh
  exact (op.effect I.linked I.lock hc).semSame I hc (Or.inr R.used) ha.frame.1 ha.frame.2

/-- A new pid has a block, and has had none before. -/
theorem CreateOutcome.pid (P : Pool k) {k' : Kernel} {initParam : TskInitParam}
    (h : CreateOutcome k initParam (k', .ok p)) : ¬ inUse k p ∧ HasTcb k' p := by
  have hin := h.inUse_new
  cases h with
  | created hl _ =>
    obtain ⟨hle, hu⟩ := P.free p (by simp [hl])
    exact ⟨not_inUse_of_unused hu, hle, hin⟩

theorem create_kernel (text : DemoEntry → UIntPtr) (x : DemoSystem) (e : DemoEntry) :
    (x.create text e).1.kernel = (Op.taskCreate (e.initParam text)).next x.kernel := by
  rw [Op.next, Op.exec, DemoSystem.create]
  split <;> rename_i hr <;> rw [hr]

theorem DemoBase.create (B : DemoBase x) (text : DemoEntry → UIntPtr) (e : DemoEntry) :
    DemoBase (x.create text e).1 := by
  have hout := B.pool.prtTaskCreate (e.initParam text)
  have B' := B.next (.taskCreate (e.initParam text)) ⟨trivial, trivial⟩
  simp only [Op.next, Op.exec] at B'
  unfold DemoSystem.create
  rcases hr : prtTaskCreate x.kernel (e.initParam text) with ⟨k, ret | pid⟩ <;>
    rw [hr] at hout B'
  · exact B'
  · have htcb := (hout.pid B.pool).2
    refine { B'.setTask (p := pid) (u := some { pc := e.start }) fun _ _ => htcb with
      pids := fun e' => ?_ }
    by_cases he : e' = e
    · subst he
      simpa using htcb.1
    · simpa [he] using B'.pids e'

theorem DemoBase.resume (B : DemoBase x) (e : DemoEntry) : DemoBase (x.resume e).1 :=
  B.next (.taskResume (x.taskPid e)) ⟨B.pids e, trivial⟩

/-- A `demo` command has stored the handle of a new semaphore. -/
def DemoSystem.restarted (x : DemoSystem) (k : Kernel) (h : Nat) : DemoSystem :=
  { x with kernel := k, sharedResource := h, shell := .createLow, sems := h :: x.sems }

/-- The handle of a new semaphore has not been used before. -/
theorem DemoBase.fresh (B : DemoBase x) (hr : prtSemCreate x.kernel 1 false = (k, .ok h)) :
    h ∉ x.sems := by
  intro hh
  obtain ⟨ph, I⟩ := B.kernel
  obtain ⟨evs, R⟩ := B.refines h hh
  have hs : (prtSemCreate x.kernel 1 false).2 = .ok h := by rw [hr]
  obtain ⟨rest, hl, -⟩ := I.semCreate_eq hs
  have hun := ((I.sems.unusedSem h).mp (by simp [hl])).2
  rw [R.used] at hun
  cases hun

theorem DemoBase.restarted (B : DemoBase x) (hr : prtSemCreate x.kernel 1 false = (k, .ok h)) :
    DemoBase (x.restarted k h) := by
  have hs : (prtSemCreate x.kernel 1 false).2 = .ok h := by rw [hr]
  have hk : (Op.semCreate 1 false).next x.kernel = k := by rw [Op.next, Op.exec, hr]
  obtain ⟨ph, I⟩ := B.kernel
  have B' := B.next (.semCreate 1 false) ⟨trivial, trivial⟩
  rw [hk] at B'
  refine { B' with refines := fun h' hh => ?_ }
  rcases List.mem_cons.mp hh with rfl | hh
  · exact ⟨[], hk ▸ Refines.created I hs⟩
  · exact B'.refines h' hh

/-- A task goes on after a call. -/
theorem DemoBase.after (B : DemoBase x) (ht : x.tasks p = some t) (op : Op)
    (hop : kernelMachine.Allowed x.kernel op) (u : Option DemoTask) :
    DemoBase { x.setTask p u with kernel := op.next x.kernel } :=
  (B.next op hop).setTask fun _ _ => (B.live p t ht).next B.pool op hop.1

theorem DemoBase.taskStep (B : DemoBase x) (hb : bgdActive x.kernel)
    (hidle : x.kernel.runningTask ≠ x.kernel.idleTaskId)
    (ht : x.tasks x.kernel.runningTask = some t) : DemoBase (x.taskStep text t) := by
  unfold DemoSystem.taskStep
  split
  · exact B.setTask fun _ _ => B.live _ t ht
  · exact B.setTask fun _ _ => B.live _ t ht
  · exact B.after ht (.semPend _ osWaitForever) ⟨⟨hb, hidle⟩, Or.inr rfl⟩ _
  · exact B.after ht (.semPost _) ⟨trivial, trivial⟩ _
  · rename_i e _ _ _
    have hlive := (B.live _ t ht).next B.pool (.taskCreate (e.initParam text)) trivial
    refine (B.create text e).setTask fun _ _ => ?_
    rwa [create_kernel]
  · exact (B.resume _).setTask fun _ _ =>
      (B.live _ t ht).next B.pool (.taskResume (x.taskPid _)) (B.pids _)
  · exact B.after ht .taskExit ⟨⟨hb, hidle⟩, trivial⟩ _

theorem DemoBase.shellStep (B : DemoBase x) : DemoBase (x.createPriorityInversionDemo text) := by
  unfold DemoSystem.createPriorityInversionDemo
  split
  · split
    · rename_i k ret hr
      have hk : (Op.semCreate 1 false).next x.kernel = k := by rw [Op.next, Op.exec, hr]
      exact hk ▸ B.next (.semCreate 1 false) ⟨trivial, trivial⟩
    · rename_i k h hr
      exact B.restarted hr
  · exact { B.create text .taskLow with }
  · exact { B.resume .taskLow with }

theorem DemoBase.step (B : DemoBase x) {a : DemoAct}
    (ha : (demoMachine text shell).Allowed x a) :
    DemoBase ((demoMachine text shell).exec x a) := by
  cases a with
  | task =>
    obtain ⟨hb, hne, hsome⟩ := ha
    obtain ⟨t, ht⟩ := Option.isSome_iff_exists.mp hsome
    change DemoBase (DemoAct.exec text x .task)
    simp only [DemoAct.exec, ht]
    exact B.taskStep hb hne ht
  | shell => exact B.shellStep
  | other op => exact B.next op ha.1

theorem DemoBase.start (h : DemoStart x) : DemoBase x := by
  refine ⟨⟨_, Inv.initialised h.kernel⟩, Pool.initialised h.kernel, ?_, fun e => ?_,
    fun p t ht => ?_⟩
  · simp [h.sems]
  · rw [h.taskPid]
    exact Nat.zero_le _
  · rw [h.tasks] at ht
    cases ht

/-- **Run lemma**, for all runs. -/
theorem DemoBase.of_run {hist : DemoHistory} (r : Run (demoMachine text shell) hist x) :
    DemoBase x :=
  r.invariant DemoBase (fun _ h => DemoBase.start h) fun _ _ B ha => B.step ha

/-- The task that runs waits for nothing. -/
theorem DemoBase.running_free (B : DemoBase x) (hb : bgdActive x.kernel) (h : Nat) :
    x.kernel.runningTask ∉ x.kernel.semList h := by
  intro hm
  obtain ⟨ph, I⟩ := B.kernel
  have hp := I.linked.mem_semList.mp hm
  rw [(I.active hb).1] at hp
  cases hp

end MiniEuler
