import MiniEuler.Kernel.LendingRuns
import MiniEuler.Demo.InversionRuns

/-! The demo, started once: its calls are a run of the kernel in which tasks take mutexes one
at a time, and so Mid does not run while High waits. -/

namespace MiniEuler
open Library

section
variable (text : DemoEntry → UIntPtr)

/-! ## The calls of a run -/

/-- The call that task `t` comes to. Where it reads `g_sharedResource` first, it makes none. -/
def DemoTask.call (x : DemoSystem) (t : DemoTask) : Option Op :=
  match t.pc.stmt, t.handle with
  | .pend _, none | .post _, none => none
  | .pend _, some h => some (.semPend h osWaitForever)
  | .post _, some h => some (.semPost h)
  | .create e _ _, _ => some (.taskCreate (e.initParam text))
  | .resume e _ _, _ => some (.taskResume (x.taskPid e))
  | .ret, _ => some .taskExit

/-- The call that the shell comes to in `CreatePriorityInversionDemo`. -/
def DemoSystem.shellCall (x : DemoSystem) : Op :=
  match x.shell with
  | .semCreate => .semCreate 1 false
  | .createLow => .taskCreate (DemoEntry.taskLow.initParam text)
  | .resumeLow => .taskResume (x.taskPid .taskLow)

def DemoAct.call (x : DemoSystem) : DemoAct → Option Op
  | .task => (x.tasks x.kernel.runningTask).bind (·.call text x)
  | .shell => some (x.shellCall text)
  | .other op => some op

def kernelHistory (hist : DemoHistory) : History :=
  hist.filterMap fun e => (e.2.call text e.1).map (e.1.kernel, ·)

variable {text} {x : DemoSystem} {shell : Nat} {t : DemoTask} {op : Op}

theorem kernelHistory_snoc (hist : DemoHistory) (x : DemoSystem) (a : DemoAct) :
    kernelHistory text (hist ++ [(x, a)]) =
      kernelHistory text hist ++ ((a.call text x).map (x.kernel, ·)).toList := by
  cases h : a.call text x <;> simp [kernelHistory, h]

theorem DemoTask.call_kernel (x : DemoSystem) (t : DemoTask) :
    (x.taskStep text t).kernel = (t.call text x).elim x.kernel (·.next x.kernel) := by
  unfold DemoSystem.taskStep DemoTask.call
  cases t.pc.stmt with
  | pend next => cases t.handle <;> rfl
  | post next => cases t.handle <;> rfl
  | create e ok err => exact create_kernel text x e
  | resume e ok err => rfl
  | ret => rfl

theorem DemoSystem.shellCall_kernel (x : DemoSystem) :
    (x.createPriorityInversionDemo text).kernel = (x.shellCall text).next x.kernel := by
  unfold createPriorityInversionDemo shellCall
  cases x.shell with
  | semCreate =>
    rw [Op.next, Op.exec]
    simp only
    split <;> rename_i hr <;> rw [hr]
  | createLow => exact create_kernel text x _
  | resumeLow => rfl

theorem DemoAct.call_kernel (x : DemoSystem) (a : DemoAct) :
    ((demoMachine text shell).exec x a).kernel =
      (a.call text x).elim x.kernel (·.next x.kernel) := by
  cases a with
  | task =>
    change (DemoAct.exec text x .task).kernel = _
    cases ht : x.tasks x.kernel.runningTask with
    | none => simp [DemoAct.exec, DemoAct.call, ht]
    | some t =>
      simp only [DemoAct.exec, DemoAct.call, ht, Option.bind_some]
      exact t.call_kernel x
  | shell => exact x.shellCall_kernel
  | other op => rfl

/-- The kernel allows the call. -/
theorem DemoBase.call_allowed (B : DemoBase x) {a : DemoAct}
    (ha : (demoMachine text shell).Allowed x a) (hop : a.call text x = some op) :
    kernelMachine.Allowed x.kernel op := by
  cases a with
  | task =>
    obtain ⟨hb, hidle, -⟩ := ha
    obtain ⟨t, -, hop⟩ := Option.bind_eq_some_iff.mp hop
    unfold DemoTask.call at hop
    split at hop <;> cases hop
    · exact ⟨⟨hb, hidle⟩, Or.inr rfl⟩
    · exact ⟨trivial, trivial⟩
    · exact ⟨trivial, trivial⟩
    · exact ⟨B.pids _, trivial⟩
    · exact ⟨⟨hb, hidle⟩, trivial⟩
  | shell =>
    obtain rfl := Option.some.inj hop
    unfold DemoSystem.shellCall
    split
    · exact ⟨trivial, trivial⟩
    · exact ⟨trivial, trivial⟩
    · exact ⟨B.pids _, trivial⟩
  | other op' =>
    obtain rfl := Option.some.inj hop
    exact ha.1

/-- **The calls of a run of the demo are a run of the kernel.** -/
theorem kernelHistory_run {hist : DemoHistory} (r : Run (demoMachine text shell) hist x) :
    Run kernelMachine (kernelHistory text hist) x.kernel := by
  refine r.invariant_hist (fun hist x => Run kernelMachine (kernelHistory text hist) x.kernel)
    (fun x h => .start (DemoStart.kernel h)) ?_
  intro hist x a r ih ha
  rw [kernelHistory_snoc, DemoAct.call_kernel]
  cases hop : a.call text x with
  | none => simpa using ih
  | some op => exact ih.step ((DemoBase.of_run r).call_allowed ha hop)

end

/-! ## One start -/

/-- Where Low has not created High yet. -/
def DemoPc.Early (pc : DemoPc) : Prop := pc = .lowPend ∨ pc = .lowCreateHigh

/-- Of the tasks of one start there is one Low and one High, and Low is the first. -/
structure Solo (khist : History) (role : Nat → DemoEntry) (x : DemoSystem) : Prop where
  created : ∀ p t, x.tasks p = some t → CreatedIn khist p (role p).taskPrio
  mid : ∀ p t, x.tasks p = some t → role p = .taskMid → t.pc = .ret ∧ t.sem = none
  one : ∀ p q t u, x.tasks p = some t → x.tasks q = some u → role p = role q →
    role p ≠ .taskMid → p = q
  early : ∀ p t, x.tasks p = some t → t.pc.Early →
    role p = .taskLow ∧ ∀ q u, x.tasks q = some u → q = p

/-- What a step may be: the demo is started once, none of its tasks ends with the semaphore,
and the rest of the system takes mutexes one at a time, in any order. -/
structure OneStart (server : Nat → Option Nat) (x : DemoSystem) (a : DemoAct) : Prop where
  once : a = .shell → x.shell = .semCreate → x.sems = []
  ends : a = .task → ∀ t, x.tasks x.kernel.runningTask = some t → t.pc = .ret → t.sem = none
  others : ∀ op, a = .other op → OneAtATime server x.kernel op
  mutexes : ∀ h ∈ x.sems, server h = none
  clients : ∀ s p, server s = some p → x.tasks p = none

variable {text : DemoEntry → UIntPtr} {shell : Nat} {server : Nat → Option Nat}
variable {khist : History} {role : Nat → DemoEntry} {x y : DemoSystem} {op : Op}
variable {p : Nat} {t t' : DemoTask}

theorem CreatedIn.append {prio : Nat} (h : CreatedIn khist p prio) (l : History) :
    CreatedIn (khist ++ l) p prio := by
  obtain ⟨e, he, h⟩ := h
  exact ⟨e, List.mem_append_left _ he, h⟩

theorem DemoPc.stmt_ret {pc : DemoPc} : pc.stmt = .ret ↔ pc = .ret := by
  cases pc <;> simp [stmt]

theorem DemoEntry.taskPrio_le (e : DemoEntry) : e.taskPrio ≤ osTskPriorityLowest := by
  cases e <;> decide

theorem DemoEntry.not_early_start {e : DemoEntry} (h : e.start.Early) : e = .taskLow := by
  cases e with
  | taskHigh => exact absurd h (by simp [DemoPc.Early, start, highLoop])
  | taskMid => exact absurd h (by simp [DemoPc.Early, start])
  | taskLow => rfl

theorem not_early_lowLoop (loopCount : Nat) : ¬ (lowLoop loopCount).Early := by
  unfold lowLoop DemoPc.Early
  split <;> simp

theorem not_early_highLoop (loopCount : Nat) : ¬ (highLoop loopCount).Early := by
  unfold highLoop DemoPc.Early
  split <;> simp

theorem DemoPc.early_pend {pc next : DemoPc} (h : pc.stmt = .pend next) (hn : next.Early) :
    pc.Early := by
  cases pc <;> simp only [stmt, DemoStmt.pend.injEq, reduceCtorEq] at h <;> subst h
  · exact Or.inl rfl
  · exact absurd hn (not_early_lowLoop _)
  · exact absurd hn (by simp [Early])

theorem DemoPc.not_early_post {pc next : DemoPc} (h : pc.stmt = .post next) : ¬ next.Early := by
  cases pc <;> simp only [stmt, DemoStmt.post.injEq, reduceCtorEq] at h <;> subst h
  · split
    · simp [Early]
    · exact not_early_lowLoop _
  · exact not_early_highLoop _

theorem DemoPc.not_early_create {pc ok err : DemoPc} {e : DemoEntry}
    (h : pc.stmt = .create e ok err ∨ pc.stmt = .resume e ok err) : ¬ ok.Early ∧ ¬ err.Early := by
  cases pc <;> simp only [stmt, DemoStmt.create.injEq, DemoStmt.resume.injEq, reduceCtorEq,
    or_false, false_or] at h <;> obtain ⟨-, rfl, rfl⟩ := h
  · simp [Early]
  · simp [Early]
  · exact ⟨by simp [Early], not_early_lowLoop 0⟩
  · exact ⟨not_early_lowLoop 0, not_early_lowLoop 0⟩

/-- A task that creates High is Low, for the first time. -/
theorem DemoPc.create_cases {pc ok err : DemoPc} {e : DemoEntry} (h : pc.stmt = .create e ok err) :
    e = .taskHigh ∧ pc.Early ∨ e = .taskMid := by
  cases pc <;> simp only [stmt, DemoStmt.create.injEq, reduceCtorEq] at h <;>
    obtain ⟨rfl, -, -⟩ := h
  · exact Or.inl ⟨rfl, Or.inr rfl⟩
  · exact Or.inr rfl

namespace Solo

theorem append (S : Solo khist role x) (l : History) : Solo (khist ++ l) role x :=
  { S with created := fun p t ht => (S.created p t ht).append l }

theorem of_none (h : ∀ p, x.tasks p = none) : Solo khist role x := by
  have hno : ∀ p t, x.tasks p ≠ some t := fun p t ht => by
    rw [h] at ht
    cases ht
  exact ⟨fun p t ht => absurd ht (hno p t), fun p t ht => absurd ht (hno p t),
    fun p _ t _ ht => absurd ht (hno p t), fun p t ht => absurd ht (hno p t)⟩

theorem drop (S : Solo khist role x) (p : Nat) : Solo khist role (x.setTask p none) := by
  have hold : ∀ q u, (x.setTask p none).tasks q = some u → x.tasks q = some u := by
    intro q u hq
    rcases MutexPool.update_eq_some.mp hq with ⟨-, hu⟩ | ⟨-, hq⟩
    · cases hu
    · exact hq
  exact ⟨fun q u hq => S.created q u (hold q u hq), fun q u hq => S.mid q u (hold q u hq),
    fun q r u v hq hr => S.one q r u v (hold q u hq) (hold r v hr),
    fun q u hq he => (S.early q u (hold q u hq) he).imp_right
      fun h r v hr => h r v (hold r v hr)⟩

theorem congr (S : Solo khist role x) (h : y.tasks = x.tasks) : Solo khist role y := by
  constructor
  · rw [h]
    exact S.created
  · rw [h]
    exact S.mid
  · rw [h]
    exact S.one
  · rw [h]
    exact S.early

/-- A task that is not at its end goes on. -/
theorem goOn (S : Solo khist role x) (ht : x.tasks p = some t) (hpc : t.pc ≠ .ret)
    (he : t'.pc.Early → t.pc.Early) : Solo khist role (x.setTask p (some t')) := by
  have hold : ∀ q u, (x.setTask p (some t')).tasks q = some u →
      ∃ v, x.tasks q = some v ∧ (u.pc.Early → v.pc.Early) ∧ (v.pc = .ret → u = v) := by
    intro q u hq
    rcases MutexPool.update_eq_some.mp hq with ⟨rfl, hu⟩ | ⟨-, hq⟩
    · obtain rfl := Option.some.inj hu
      exact ⟨t, ht, he, fun h => absurd h hpc⟩
    · exact ⟨u, hq, id, fun _ => rfl⟩
  constructor
  · intro q u hq
    obtain ⟨v, hv, -⟩ := hold q u hq
    exact S.created q v hv
  · intro q u hq hr
    obtain ⟨v, hv, -, hend⟩ := hold q u hq
    obtain ⟨hret, hsem⟩ := S.mid q v hv hr
    rw [hend hret]
    exact ⟨hret, hsem⟩
  · intro q r u w hq hr
    obtain ⟨v, hv, -⟩ := hold q u hq
    obtain ⟨z, hz, -⟩ := hold r w hr
    exact S.one q r v z hv hz
  · intro q u hq hearly
    obtain ⟨v, hv, hback, -⟩ := hold q u hq
    refine (S.early q v hv (hback hearly)).imp_right fun h r w hr => ?_
    obtain ⟨z, hz, -⟩ := hold r w hr
    exact h r z hz

/-- A new task has a role that nobody has, unless it is a Mid. -/
theorem newTask (S : Solo khist role x) (hnew : x.tasks p = none) {e : DemoEntry}
    (hcr : CreatedIn khist p e.taskPrio)
    (hone : ∀ q u, x.tasks q = some u → role q = e → e = .taskMid)
    (hlate : ∀ q u, x.tasks q = some u → ¬ u.pc.Early)
    (hfirst : e = .taskLow → ∀ q, x.tasks q = none) :
    Solo khist (Function.update role p e) (x.setTask p (some { pc := e.start })) := by
  have hold : ∀ q u, (x.setTask p (some { pc := e.start })).tasks q = some u →
      q = p ∧ u = { pc := e.start } ∧ Function.update role p e q = e ∨
      q ≠ p ∧ x.tasks q = some u ∧ Function.update role p e q = role q := by
    intro q u hq
    rcases MutexPool.update_eq_some.mp hq with ⟨rfl, hu⟩ | ⟨hqp, hq⟩
    · exact Or.inl ⟨rfl, (Option.some.inj hu).symm, by simp⟩
    · exact Or.inr ⟨hqp, hq, by simp [hqp]⟩
  constructor
  · intro q u hq
    rcases hold q u hq with ⟨rfl, -, hr⟩ | ⟨-, hq, hr⟩ <;> rw [hr]
    · exact hcr
    · exact S.created q u hq
  · intro q u hq hmid
    rcases hold q u hq with ⟨rfl, rfl, hr⟩ | ⟨-, hq, hr⟩ <;> rw [hr] at hmid
    · subst hmid
      exact ⟨rfl, rfl⟩
    · exact S.mid q u hq hmid
  · intro q r u v hq hr heq hmid
    rcases hold q u hq with ⟨rfl, -, hrole⟩ | ⟨-, hq', hrole⟩ <;> rw [hrole] at heq hmid
    · rcases hold r v hr with ⟨rfl, -⟩ | ⟨-, hr', hrole'⟩
      · rfl
      · exact absurd (hone r v hr' (hrole' ▸ heq.symm)) hmid
    · rcases hold r v hr with ⟨rfl, -, hrole'⟩ | ⟨-, hr', hrole'⟩ <;> rw [hrole'] at heq
      · exact absurd (heq.trans (hone q u hq' heq)) hmid
      · exact S.one q r u v hq' hr' heq hmid
  · intro q u hq hearly
    rcases hold q u hq with ⟨rfl, rfl, hr⟩ | ⟨-, hq, -⟩
    · obtain rfl := DemoEntry.not_early_start hearly
      refine ⟨hr, fun r v hv => ?_⟩
      rcases hold r v hv with ⟨rfl, -⟩ | ⟨-, hv, -⟩
      · rfl
      · rw [hfirst rfl r] at hv
        cases hv
    · exact absurd hearly (hlate q u hq)

end Solo

/-- Who uses a mutex has been created. -/
theorem Lends.uses_inUse {k : Kernel} {ph : Nat → TskPhase} {s : Nat} (S : Lends server k)
    (P : Pool k) (I : Inv k ph) (h : Uses server k s p) : inUse k p := by
  rcases h with hh | ⟨-, hm⟩
  · have hr := I.linked.mem_runQueue.mp (S.ready s p hh)
    exact (isTask_of_phase P I.linked (I.linked.le_of_ne_dormant (by rw [hr]; simp))
      (by rw [hr]; simp)).2
  · exact (isTask_of_waiter P I.linked hm).2

/-- What a creation does to the demo. -/
theorem DemoBase.create_cases (B : DemoBase x) (text : DemoEntry → UIntPtr) (e : DemoEntry) :
    (x.create text e).1.tasks = x.tasks ∨
    ∃ pid, (x.create text e).1.tasks = (x.setTask pid (some { pc := e.start })).tasks ∧
      (Op.taskCreate (e.initParam text)).newTask x.kernel = some (pid, e.taskPrio) ∧
      ¬ inUse x.kernel pid := by
  have hout := B.pool.prtTaskCreate (e.initParam text)
  unfold DemoSystem.create
  rcases hr : prtTaskCreate x.kernel (e.initParam text) with ⟨k, ret | pid⟩ <;> rw [hr] at hout
  · exact Or.inl rfl
  · refine Or.inr ⟨pid, rfl, ?_, (hout.pid B.pool).1⟩
    simp only [Op.newTask, Op.initParam, hr]
    rfl

/-! ## What one start keeps -/

/-- The calls have kept to the rules, the holder of a semaphore of the demo is as urgent as it has
to be, and a task that uses a mutex was granted it last. -/
structure DemoLends (server : Nat → Option Nat) (khist : History) (x : DemoSystem) : Prop where
  inv : DemoInv x
  run : Run kernelMachine khist x.kernel
  oneAtATime : ∀ e ∈ khist, OneAtATime server e.1 e.2
  inherits : ∀ h ∈ x.sems, InheritsAt server x.kernel h
  uses : ∀ p t s, x.tasks p = some t → Uses server x.kernel s p → t.sem = some s
  solo : ∃ role, Solo khist role x
  before : x.sems = [] ∨ x.shell = .createLow → ∀ p, x.tasks p = none

namespace DemoLends

theorem lends (M : DemoLends server khist x) : Lends server x.kernel :=
  Lends.of_run (kernelMachine_supported M.run) M.oneAtATime

/-- A call of the kernel that keeps to the rules. -/
theorem call (M : DemoLends server khist x) (hop : kernelMachine.Allowed x.kernel op)
    (hu : OneAtATime server x.kernel op)
    (hf : ∀ h ∈ x.sems, op.posts = some h → (lending server x.kernel).Fair h)
    (hk : y.kernel = op.next x.kernel) (D : DemoInv y)
    (hsems : ∀ h ∈ y.sems, h ∈ x.sems ∨ 0 < (y.kernel.allSem h).semCount)
    (huses : ∀ p t s, y.tasks p = some t → Uses server y.kernel s p → Uses server x.kernel s p ∨
      p = x.kernel.runningTask ∧ (∃ timeout, op = .semPend s timeout) → t.sem = some s)
    (hsolo : ∃ role, Solo (khist ++ [(x.kernel, op)]) role y)
    (hbefore : y.sems = [] ∨ y.shell = .createLow → ∀ p, y.tasks p = none) :
    DemoLends server (khist ++ [(x.kernel, op)]) y := by
  obtain ⟨ph, I⟩ := M.inv.kernel
  obtain ⟨hc, ht⟩ := hop
  refine ⟨D, hk ▸ M.run.step ⟨hc, ht⟩, ?_, fun h hh => ?_, fun p t s hp hus => ?_, hsolo, hbefore⟩
  · simpa only [List.forall_mem_append, List.forall_mem_singleton] using ⟨M.oneAtATime, hu⟩
  · rcases hsems h hh with hold | hfree
    · rw [hk]
      exact M.lends.inheritsAt_next I hc ht.not_unsupported hu (M.inherits h hold) (hf h hold)
    · exact inheritsAt_of_count hfree
  · exact huses p t s hp hus (M.lends.uses_next I hc ht.not_unsupported hu (hk ▸ hus))

/-- A call that is no pend and posts no semaphore of the demo, after which no task has another
semaphore. -/
theorem quiet (M : DemoLends server khist x) (hop : kernelMachine.Allowed x.kernel op)
    (hu : OneAtATime server x.kernel op) (hpost : ∀ h ∈ x.sems, op.posts ≠ some h)
    (hk : y.kernel = op.next x.kernel) (D : DemoInv y)
    (hsems : ∀ h ∈ y.sems, h ∈ x.sems ∨ 0 < (y.kernel.allSem h).semCount)
    (hpend : ∀ s timeout, op = .semPend s timeout → x.tasks x.kernel.runningTask = none)
    (hkept : ∀ p t', y.tasks p = some t' →
      (∃ t, x.tasks p = some t ∧ t.sem = t'.sem) ∨ ¬ inUse x.kernel p)
    (hsolo : ∃ role, Solo (khist ++ [(x.kernel, op)]) role y)
    (hbefore : y.sems = [] ∨ y.shell = .createLow → ∀ p, y.tasks p = none) :
    DemoLends server (khist ++ [(x.kernel, op)]) y := by
  obtain ⟨ph, I⟩ := M.inv.kernel
  refine M.call hop hu (fun h hh ho => absurd ho (hpost h hh)) hk D hsems
    (fun p t' s hp _ hor => ?_) hsolo hbefore
  rcases hkept p t' hp with ⟨t, ht, hsem⟩ | hno
  · rcases hor with h | ⟨rfl, timeout, hpe⟩
    · exact hsem ▸ M.uses p t s ht h
    · rw [hpend s timeout hpe] at ht
      cases ht
  · rcases hor with h | ⟨rfl, -⟩
    · exact absurd (M.lends.uses_inUse M.inv.pool I h) hno
    · exact absurd M.inv.pool.running hno

/-- Two tasks at most use the semaphore, so a post finds one waiter at most. -/
theorem one_waiter (M : DemoLends server khist x) {h w : Nat} {rest : List Nat} (hh : h ∈ x.sems)
    (ht : x.tasks p = some t) (hsem : t.sem = some h) (hp : p ∉ x.kernel.semList h)
    (hl : x.kernel.semList h = w :: rest) : rest = [] := by
  obtain ⟨role, S⟩ := M.solo
  obtain ⟨ph, I⟩ := M.inv.kernel
  have hnd : (x.kernel.semList h).Nodup := I.linked.placed.nodup (.semList h)
  rw [hl] at hnd
  refine List.eq_nil_iff_forall_not_mem.mpr fun q hq => ?_
  have hqm : q ∈ x.kernel.semList h := by simp [hl, hq]
  have hwm : w ∈ x.kernel.semList h := by simp [hl]
  obtain ⟨tw, htw, hsw⟩ := M.inv.waits h hh w hwm
  obtain ⟨tq, htq, hsq⟩ := M.inv.waits h hh q hqm
  have hmid : ∀ r u, x.tasks r = some u → u.sem = some h → role r ≠ .taskMid := by
    intro r u hr hs hmid
    rw [(S.mid r u hr hmid).2] at hs
    cases hs
  have hpw : role p ≠ role w := fun he =>
    hp (S.one p w t tw ht htw he (hmid p t ht hsem) ▸ hwm)
  have hpq : role p ≠ role q := fun he =>
    hp (S.one p q t tq ht htq he (hmid p t ht hsem) ▸ hqm)
  have hwq : role w ≠ role q := fun he =>
    (List.nodup_cons.mp hnd).1 (S.one w q tw tq htw htq he (hmid w tw htw hsw) ▸ hq)
  have hpm := hmid p t ht hsem
  have hwmid := hmid w tw htw hsw
  have hqmid := hmid q tq htq hsq
  revert hpw hpq hwq hpm hwmid hqmid
  cases role p <;> cases role w <;> cases role q <;> simp

theorem busy (M : DemoLends server khist x) (ht : x.tasks p = some t) :
    ¬ (x.sems = [] ∨ x.shell = .createLow) := by
  intro h
  rw [M.before h p] at ht
  cases ht

/-- Nobody has been here: the running task uses no mutex. -/
theorem not_uses (M : DemoLends server khist x) (ht : x.tasks p = some t) (hsem : t.sem = none)
    (s : Nat) : ¬ Uses server x.kernel s p := by
  intro h
  rw [M.uses p t s ht h] at hsem
  cases hsem

theorem load (M : DemoLends server khist x) (ht : x.tasks p = some t) (hpc : t.pc ≠ .ret)
    (D : DemoInv (x.setTask p (some { t with handle := some x.sharedResource }))) :
    DemoLends server khist (x.setTask p (some { t with handle := some x.sharedResource })) := by
  obtain ⟨role, S⟩ := M.solo
  refine ⟨D, M.run, M.oneAtATime, M.inherits, fun q u s hq hus => ?_, ⟨role, S.goOn ht hpc id⟩,
    fun h => absurd h (M.busy ht)⟩
  rcases MutexPool.update_eq_some.mp hq with ⟨rfl, hu⟩ | ⟨-, hq⟩
  · obtain rfl := Option.some.inj hu
    exact M.uses q t s ht hus
  · exact M.uses q u s hq hus

theorem pend (M : DemoLends server khist x) (ho : OneStart server x .task)
    (hb : bgdActive x.kernel) (hidle : x.kernel.runningTask ≠ x.kernel.idleTaskId)
    (ht : x.tasks x.kernel.runningTask = some t) {next : DemoPc} (hpc : t.pc.stmt = .pend next)
    {h : Nat} (hh : t.handle = some h) :
    DemoLends server (khist ++ [(x.kernel, .semPend h osWaitForever)])
      (x.after x.kernel.runningTask (some { pc := next, sem := some h })
        (.semPend h osWaitForever)) := by
  have ok := M.inv.task _ t ht
  have hsem : t.sem = none := by
    have hfits := ok.fits
    rwa [hpc] at hfits
  obtain ⟨role, S⟩ := M.solo
  have hne : t.pc ≠ .ret := fun he => by
    rw [he] at hpc
    cases hpc
  refine M.call ⟨⟨hb, hidle⟩, Or.inr rfl⟩ (Or.inr ⟨ho.mutexes h (ok.sems h (Or.inr hh)), ?_⟩)
    (fun _ _ he => by cases he) rfl (M.inv.pend hb hidle rfl ht hpc hh) (fun _ => Or.inl)
    (fun q u s hq _ hor => ?_)
    ⟨role, { (S.append _).goOn ht hne (DemoPc.early_pend hpc) with }⟩
    fun h => absurd h (M.busy ht)
  · refine fun s' _ => ⟨fun hs => ?_, fun hs => M.not_uses ht hsem s' (Or.inl hs)⟩
    rw [ho.clients s' _ hs] at ht
    cases ht
  · rcases MutexPool.update_eq_some.mp hq with ⟨rfl, hu⟩ | ⟨hqp, hq⟩
    · obtain rfl := Option.some.inj hu
      rcases hor with hus | ⟨-, timeout, he⟩
      · exact absurd hus (M.not_uses ht hsem s)
      · cases he
        rfl
    · exact M.uses q u s hq (hor.resolve_right fun h => hqp h.1)

theorem post (M : DemoLends server khist x) (ho : OneStart server x .task)
    (hb : bgdActive x.kernel) (ht : x.tasks x.kernel.runningTask = some t) {next : DemoPc}
    (hpc : t.pc.stmt = .post next) {h : Nat} (hh : t.handle = some h) :
    DemoLends server (khist ++ [(x.kernel, .semPost h)])
      (x.after x.kernel.runningTask (some { pc := next }) (.semPost h)) := by
  have hw := M.inv.running_free hb
  have hsems : h ∈ x.sems := (M.inv.task _ t ht).sems h (Or.inr hh)
  have hs := ho.mutexes h hsems
  have hsem : t.sem = some h := by
    have hfits := (M.inv.task _ t ht).fits
    rw [hpc] at hfits
    obtain ⟨h', hsem, hall⟩ := hfits
    rwa [hall h hh]
  obtain ⟨hgr, hown⟩ := M.inv.safe.posts t next h ht hpc hh
  have hzero : (x.kernel.allSem h).semCount = 0 := by
    by_contra hne
    exact M.inv.sound.taken hgr ⟨hsems, by omega⟩
  obtain ⟨evs, R⟩ := M.inv.refines h hsems
  have hhold : mutexHolder server x.kernel h = some x.kernel.runningTask :=
    mutexHolder_eq_some.mpr ⟨hs, R.used, hzero, hown⟩
  obtain ⟨ph, I⟩ := M.inv.kernel
  obtain ⟨role, S⟩ := M.solo
  have hne : t.pc ≠ .ret := fun he => by
    rw [he] at hpc
    cases hpc
  have hu : OneAtATime server x.kernel (.semPost h) := fun _ => hhold
  refine M.call ⟨trivial, trivial⟩ hu (fun s _ he => ?_) rfl
    (M.inv.post hw ht hpc hh) (fun _ => Or.inl) (fun q u s hq hnext hor => ?_)
    ⟨role, { (S.append _).goOn ht hne fun he => absurd he (DemoPc.not_early_post hpc) with }⟩
    fun h => absurd h (M.busy ht)
  · obtain rfl := Option.some.inj he
    refine (fair_iff hs).mpr fun w rest hl q hq => ?_
    rw [M.one_waiter hsems ht hsem (hw h) hl] at hq
    cases hq
  · have hold := hor.resolve_right fun ⟨_, timeout, he⟩ => by cases he
    rcases MutexPool.update_eq_some.mp hq with ⟨rfl, -⟩ | ⟨-, hq⟩
    · -- it has used `h` alone, which it has posted
      obtain rfl : h = s := Option.some.inj (hsem.symm.trans (M.uses _ t s ht hold))
      rcases hnext with hn | ⟨-, hm⟩
      · exact absurd hn (M.lends.not_holder_after I trivial (fun h => h) hu rfl hs)
      · have hc : (Op.semPost h).Callable x.kernel := trivial
        rcases M.lends.waiter_next I hc (fun h => h) hu hm with hm | ⟨-, timeout, he⟩
        · exact absurd hm (hw h)
        · cases he
    · exact M.uses q u s hq hold

theorem create (M : DemoLends server khist x)
    (ht : x.tasks x.kernel.runningTask = some t) {e : DemoEntry} {ok err pc : DemoPc}
    (hpc : t.pc.stmt = .create e ok err) (hpc' : pc = ok ∨ pc = err)
    (D : DemoInv ((x.create text e).1.setTask x.kernel.runningTask (some { t with pc := pc }))) :
    DemoLends server (khist ++ [(x.kernel, .taskCreate (e.initParam text))])
      ((x.create text e).1.setTask x.kernel.runningTask (some { t with pc := pc })) := by
  obtain ⟨-, hsems, hshell⟩ := create_frame text x e
  obtain ⟨role, S⟩ := M.solo
  have hne : t.pc ≠ .ret := fun he => by
    rw [he] at hpc
    cases hpc
  have hlate : ¬ pc.Early := by
    obtain ⟨hok, herr⟩ := DemoPc.not_early_create (Or.inl hpc)
    rcases hpc' with rfl | rfl
    · exact hok
    · exact herr
  have S₁ : Solo (khist ++ [(x.kernel, .taskCreate (e.initParam text))]) role
      (x.setTask x.kernel.runningTask (some { t with pc := pc })) :=
    (S.append _).goOn ht hne fun he => absurd he hlate
  have hcases := M.inv.create_cases text e
  refine M.quiet ⟨trivial, trivial⟩ e.taskPrio_le (fun _ _ he => by cases he)
    (create_kernel text x e) D (fun h hh => Or.inl (hsems ▸ hh)) (fun _ _ he => by cases he)
    (fun q u hq => ?_) ?_
    (fun h => absurd h (by simpa only [DemoSystem.setTask, hsems, hshell] using M.busy ht))
  · rcases MutexPool.update_eq_some.mp hq with ⟨rfl, hu⟩ | ⟨-, hq⟩
    · exact Or.inl ⟨t, ht, by rw [← Option.some.inj hu]⟩
    · rcases hcases with htasks | ⟨pid, htasks, -, hfresh⟩ <;> rw [htasks] at hq
      · exact Or.inl ⟨u, hq, rfl⟩
      · rcases MutexPool.update_eq_some.mp hq with ⟨rfl, -⟩ | ⟨-, hq⟩
        · exact Or.inr hfresh
        · exact Or.inl ⟨u, hq, rfl⟩
  · rcases hcases with htasks | ⟨pid, htasks, hnew, hfresh⟩
    · exact ⟨role, S₁.congr (by simp [DemoSystem.setTask, htasks])⟩
    · have hpid : pid ≠ x.kernel.runningTask := fun h => hfresh (h ▸ M.inv.pool.running)
      have hnone : x.tasks pid = none :=
        Option.eq_none_iff_forall_ne_some.mpr fun u hu => hfresh (M.inv.live pid u hu).2
      have hcr : CreatedIn (khist ++ [(x.kernel, .taskCreate (e.initParam text))]) pid
          e.taskPrio := createdIn_snoc.mpr (Or.inr hnew)
      have S₂ := S₁.newTask (by simpa [DemoSystem.setTask, hpid] using hnone) hcr
        (fun q u hq hr => ?_) (fun q u hq hearly => ?_) (fun he => ?_)
      · refine ⟨_, S₂.congr ?_⟩
        simp only [DemoSystem.setTask, htasks]
        exact Function.update_comm hpid _ _ _
      · rcases DemoPc.create_cases hpc with ⟨he, hearly⟩ | he
        · obtain ⟨hlow, hall⟩ := S.early _ t ht hearly
          rcases MutexPool.update_eq_some.mp hq with ⟨rfl, -⟩ | ⟨hqp, hq⟩
          · rw [hlow, he] at hr
            cases hr
          · exact absurd (hall q u hq) hqp
        · exact he
      · rcases MutexPool.update_eq_some.mp hq with ⟨-, hu⟩ | ⟨hqp, hq⟩
        · rw [← Option.some.inj hu] at hearly
          exact hlate hearly
        · exact hqp ((S.early q u hq hearly).2 _ t ht).symm
      · rcases DemoPc.create_cases hpc with ⟨h, -⟩ | h <;> rw [h] at he <;> cases he

theorem resume (M : DemoLends server khist x)
    (ht : x.tasks x.kernel.runningTask = some t) {e : DemoEntry} {ok err pc : DemoPc}
    (hpc : t.pc.stmt = .resume e ok err) (hpc' : pc = ok ∨ pc = err)
    (D : DemoInv ((x.resume e).1.setTask x.kernel.runningTask (some { t with pc := pc }))) :
    DemoLends server (khist ++ [(x.kernel, .taskResume (x.taskPid e))])
      ((x.resume e).1.setTask x.kernel.runningTask (some { t with pc := pc })) := by
  obtain ⟨role, S⟩ := M.solo
  have hne : t.pc ≠ .ret := fun he => by
    rw [he] at hpc
    cases hpc
  have hlate : ¬ pc.Early := by
    obtain ⟨hok, herr⟩ := DemoPc.not_early_create (Or.inr hpc)
    rcases hpc' with rfl | rfl
    · exact hok
    · exact herr
  refine M.quiet ⟨M.inv.pids e, trivial⟩ trivial (fun _ _ he => by cases he) rfl D
    (fun _ => Or.inl) (fun _ _ he => by cases he) (fun q u hq => ?_)
    ⟨role, ((S.append _).goOn ht hne fun he => absurd he hlate).congr rfl⟩
    fun h => absurd h (M.busy ht)
  rcases MutexPool.update_eq_some.mp hq with ⟨rfl, hu⟩ | ⟨-, hq⟩
  · exact Or.inl ⟨t, ht, by rw [← Option.some.inj hu]⟩
  · exact Or.inl ⟨u, hq, rfl⟩

theorem exit (M : DemoLends server khist x) (hb : bgdActive x.kernel)
    (hidle : x.kernel.runningTask ≠ x.kernel.idleTaskId)
    (ht : x.tasks x.kernel.runningTask = some t) (hsem : t.sem = none)
    (D : DemoInv (x.after x.kernel.runningTask none .taskExit)) :
    DemoLends server (khist ++ [(x.kernel, .taskExit)])
      (x.after x.kernel.runningTask none .taskExit) := by
  obtain ⟨role, S⟩ := M.solo
  refine M.quiet ⟨⟨hb, hidle⟩, trivial⟩ (fun s _ hh => M.not_uses ht hsem s (Or.inl hh))
    (fun _ _ he => by cases he) rfl D (fun _ => Or.inl) (fun _ _ he => by cases he)
    (fun q u hq => ?_) ⟨role, ((S.append _).drop _).congr rfl⟩ fun h => absurd h (M.busy ht)
  rcases MutexPool.update_eq_some.mp hq with ⟨-, hu⟩ | ⟨-, hq⟩
  · cases hu
  · exact Or.inl ⟨u, hq, rfl⟩

/-- **Step lemma** for a task. -/
theorem taskStep (M : DemoLends server khist x) (ho : OneStart server x .task)
    (hb : bgdActive x.kernel) (hidle : x.kernel.runningTask ≠ x.kernel.idleTaskId)
    (ht : x.tasks x.kernel.runningTask = some t) :
    DemoLends server (khist ++ ((t.call text x).map (x.kernel, ·)).toList)
      (x.taskStep text t) := by
  have D : DemoInv (x.taskStep text t) := M.inv.taskStep hb hidle ht
  have hne : ∀ stmt, t.pc.stmt = stmt → stmt ≠ .ret → t.pc ≠ .ret := by
    rintro _ rfl h he
    exact h (DemoPc.stmt_ret.mpr he)
  cases hpc : t.pc.stmt with
  | pend next =>
    cases hh : t.handle with
    | none =>
      simp only [DemoSystem.taskStep, DemoTask.call, hpc, hh] at D ⊢
      simpa using M.load ht (hne _ hpc (by simp)) D
    | some h =>
      simp only [DemoSystem.taskStep, DemoTask.call, hpc, hh]
      exact M.pend ho hb hidle ht hpc hh
  | post next =>
    cases hh : t.handle with
    | none =>
      simp only [DemoSystem.taskStep, DemoTask.call, hpc, hh] at D ⊢
      simpa using M.load ht (hne _ hpc (by simp)) D
    | some h =>
      simp only [DemoSystem.taskStep, DemoTask.call, hpc, hh]
      exact M.post ho hb ht hpc hh
  | create e ok err =>
    simp only [DemoSystem.taskStep, DemoTask.call, hpc] at D ⊢
    exact M.create ht hpc (by split <;> simp) D
  | resume e ok err =>
    simp only [DemoSystem.taskStep, DemoTask.call, hpc] at D ⊢
    exact M.resume ht hpc (by split <;> simp) D
  | ret =>
    simp only [DemoSystem.taskStep, DemoTask.call, hpc] at D ⊢
    exact M.exit hb hidle ht (ho.ends rfl t ht (DemoPc.stmt_ret.mp hpc)) D

/-- The semaphore that the shell creates is free. -/
theorem sems_semCreate (M : DemoLends server khist x) (text : DemoEntry → UIntPtr)
    (hs : x.shell = .semCreate) : ∀ h ∈ (x.createPriorityInversionDemo text).sems,
      h ∈ x.sems ∨ 0 < ((x.createPriorityInversionDemo text).kernel.allSem h).semCount := by
  obtain ⟨ph, I⟩ := M.inv.kernel
  rw [x.shellCall_kernel, DemoSystem.shellCall, hs]
  unfold DemoSystem.createPriorityInversionDemo
  simp only [hs]
  intro h hh
  split at hh
  · exact Or.inl hh
  · rename_i k s hr
    rcases List.mem_cons.mp hh with rfl | hh
    · obtain ⟨rest, -, -, hnext⟩ := I.semCreate_eq (show (prtSemCreate x.kernel 1 false).2 = _ by
        rw [hr])
      rw [hnext]
      simp [semCreatedKernel, createdSem]
    · exact Or.inl hh

/-- **Step lemma** for the shell. -/
theorem shellStep (M : DemoLends server khist x) (ho : OneStart server x .shell) :
    DemoLends server (khist ++ [(x.kernel, x.shellCall text)])
      (x.createPriorityInversionDemo text) := by
  have hidle : x.shell = .semCreate → x.kernel.unusedSemList ≠ [] → x.mutexes.Idle := by
    intro hs _ p s g hu
    rw [DemoSystem.use_none (M.before (Or.inl (ho.once rfl hs)) p)] at hu
    cases hu
  have D : DemoInv (x.createPriorityInversionDemo text) := M.inv.shellStep hidle
  have hk : (x.createPriorityInversionDemo text).kernel = (x.shellCall text).next x.kernel :=
    x.shellCall_kernel
  obtain ⟨role, S⟩ := M.solo
  cases hs : x.shell with
  | semCreate =>
    have hnone := M.before (Or.inl (ho.once rfl hs))
    have htasks : (x.createPriorityInversionDemo text).tasks = x.tasks := by
      unfold DemoSystem.createPriorityInversionDemo
      simp only [hs]
      split <;> rfl
    have hnone' : ∀ p, (x.createPriorityInversionDemo text).tasks p = none := by
      rwa [htasks]
    simp only [DemoSystem.shellCall, hs] at hk ⊢
    exact M.quiet ⟨trivial, trivial⟩ (fun _ _ _ => rfl) (fun _ _ he => by cases he) hk D
      (M.sems_semCreate text hs) (fun _ _ he => by cases he)
      (fun p t ht => by rw [hnone'] at ht; cases ht)
      ⟨role, Solo.of_none hnone'⟩ fun _ => hnone'
  | createLow =>
    have hnone := M.before (Or.inr hs)
    have hcases := M.inv.create_cases text .taskLow
    obtain ⟨-, hsems, -⟩ := create_frame text x .taskLow
    have hne : x.sems ≠ [] := List.ne_nil_of_mem (M.inv.shared (by rw [hs]; simp))
    simp only [DemoSystem.shellCall, DemoSystem.createPriorityInversionDemo, hs] at hk D ⊢
    refine M.quiet ⟨trivial, trivial⟩ (DemoEntry.taskLow).taskPrio_le
      (fun _ _ he => by cases he) hk D (fun h hh => Or.inl (hsems ▸ hh))
      (fun _ _ he => by cases he) (fun p t ht => ?_) ?_ ?_
    · rcases hcases with htasks | ⟨pid, htasks, -, hfresh⟩ <;> simp only [htasks] at ht
      · exact Or.inl ⟨t, ht, rfl⟩
      · rcases MutexPool.update_eq_some.mp ht with ⟨rfl, -⟩ | ⟨-, ht⟩
        · exact Or.inr hfresh
        · exact Or.inl ⟨t, ht, rfl⟩
    · rcases hcases with htasks | ⟨pid, htasks, hnew, -⟩
      · exact ⟨role, Solo.of_none (by simpa only [htasks] using hnone)⟩
      · have hcr : CreatedIn (khist ++ [(x.kernel,
            .taskCreate (DemoEntry.taskLow.initParam text))]) pid DemoEntry.taskLow.taskPrio :=
          createdIn_snoc.mpr (Or.inr hnew)
        have hno : ∀ q u, x.tasks q ≠ some u := fun q u hq => by
          rw [hnone] at hq
          cases hq
        exact ⟨_, ((S.append _).newTask (hnone pid) hcr (fun q u hq => absurd hq (hno q u))
          (fun q u hq => absurd hq (hno q u)) fun _ => hnone).congr htasks⟩
    · rintro (h | h)
      · exact absurd (hsems.symm.trans h) hne
      · simp only at h
        split at h <;> cases h
  | resumeLow =>
    have hne : x.sems ≠ [] := List.ne_nil_of_mem (M.inv.shared (by rw [hs]; simp))
    simp only [DemoSystem.shellCall, DemoSystem.createPriorityInversionDemo, hs] at hk D ⊢
    refine M.quiet ⟨M.inv.pids .taskLow, trivial⟩ trivial (fun _ _ he => by cases he) hk D
      (fun _ => Or.inl) (fun _ _ he => by cases he) (fun p t ht => Or.inl ⟨t, ht, rfl⟩)
      ⟨role, (S.append _).congr rfl⟩ ?_
    rintro (h | h)
    · exact absurd h hne
    · cases h

/-- **Step lemma.** -/
theorem step (M : DemoLends server khist x) {a : DemoAct}
    (ha : (demoMachine text shell).Allowed x a) (ho : OneStart server x a) :
    DemoLends server (khist ++ ((a.call text x).map (x.kernel, ·)).toList)
      ((demoMachine text shell).exec x a) := by
  cases a with
  | task =>
    obtain ⟨hb, hidle, hsome⟩ := ha
    obtain ⟨t, ht⟩ := Option.isSome_iff_exists.mp hsome
    change DemoLends server _ (DemoAct.exec text x .task)
    simp only [DemoAct.exec, DemoAct.call, ht, Option.bind_some]
    exact M.taskStep ho hb hidle ht
  | shell => exact M.shellStep ho
  | other op =>
    obtain ⟨hop, havoid, hwho⟩ := ha
    obtain ⟨role, S⟩ := M.solo
    refine M.quiet (y := { x with kernel := op.next x.kernel }) hop (ho.others op rfl)
      (fun h hh => (havoid h hh).posts_ne) rfl (M.inv.foreign op hop havoid) (fun _ => Or.inl)
      (fun s timeout he => ?_)
      (fun p t ht => Or.inl ⟨t, ht, rfl⟩) ⟨role, (S.append _).congr rfl⟩ M.before
    refine (hwho.resolve_left ?_).1
    simp [he, Op.isUartPost]

theorem start (h : DemoStart x) : DemoLends server [] x where
  inv := DemoInv.start h
  run := .start h.kernel
  oneAtATime := by simp
  inherits s hs := by
    rw [h.sems] at hs
    cases hs
  uses p t s ht := by
    rw [h.tasks] at ht
    cases ht
  solo := ⟨fun _ => .taskMid, Solo.of_none h.tasks⟩
  before _ := h.tasks

/-- **Run lemma.** -/
theorem of_run {hist : DemoHistory} (r : Run (demoMachine text shell) hist x)
    (ho : ∀ e ∈ hist, OneStart server e.1 e.2) : DemoLends server (kernelHistory text hist) x := by
  refine r.invariant_hist (fun hist x => (∀ e ∈ hist, OneStart server e.1 e.2) →
    DemoLends server (kernelHistory text hist) x) (fun x h _ => start h) ?_ ho
  intro hist x a r ih ha ho
  rw [kernelHistory_snoc]
  exact (ih fun e he => ho e (List.mem_append_left _ he)).step ha (ho (x, a) (by simp))

/-- A task of the demo has the base that its role says. -/
theorem base (M : DemoLends server khist x) (S : Solo khist role x) (ht : x.tasks p = some t) :
    x.kernel.originalPriority p = (role p).taskPrio := by
  have hprio : ∀ e ∈ khist, e.2.PrioOk := by
    rintro ⟨k, op⟩ he
    have hu := M.oneAtATime _ he
    cases op with
    | taskCreate initParam => exact hu
    | _ => trivial
  exact (Based.of_run M.run hprio).base p _ (S.created p t ht)

end DemoLends

theorem DemoEntry.taskPrio_injective : Function.Injective DemoEntry.taskPrio := by
  intro a b h
  cases a <;> cases b <;> first | rfl | cases h

/-- **Mid does not run while High waits**, and nothing that is less urgent than High does. -/
theorem demo_no_inversion {hist : DemoHistory} (r : Run (demoMachine text shell) hist x)
    (ho : ∀ e ∈ hist, OneStart server e.1 e.2) {h w : Nat} (hh : h ∈ x.sems)
    (hs : server h = none) (hw : w ∈ x.kernel.semList h) :
    x.kernel.priority x.kernel.runningTask ≤ x.kernel.originalPriority w ∧
    (x.kernel.originalPriority w = DemoEntry.taskHigh.taskPrio →
      ∀ t, x.tasks x.kernel.runningTask = some t →
        x.kernel.originalPriority x.kernel.runningTask ≠ DemoEntry.taskMid.taskPrio) := by
  have M := DemoLends.of_run r ho
  have rs := kernelMachine_supported M.run
  obtain ⟨ph, I⟩ := M.inv.kernel
  have hb := I.active_of_pending (I.linked.mem_semList.mp hw)
  have hpre := (alwaysPreemptive_oneAtATime rs M.oneAtATime).2 hb
  have hle := M.lends.running_le_waiter I (M.inherits h hh) hpre hs hw
  refine ⟨hle, fun hhigh t ht hmid => ?_⟩
  -- Mid holds no mutex, so it would run at its own priority
  obtain ⟨role, S⟩ := M.solo
  have hrole := DemoEntry.taskPrio_injective ((M.base S ht).symm.trans hmid)
  have hsem := (S.mid _ t ht hrole).2
  have hbase := M.lends.running_base I hb fun s hhold => M.not_uses ht hsem s (Or.inl hhold)
  rw [hbase, hmid, hhigh] at hle
  exact absurd hle (by decide)

/-! ## High waits -/

/-- A step that keeps to the rules, where the shell alone has a signal. -/
def QuietStep (x : DemoSystem) (a : DemoAct) : Prop :=
  (match a with
    | .task => ∀ t ∈ x.tasks x.kernel.runningTask, t.pc = .ret → t.sem = none
    | .shell => x.shell = .semCreate → x.sems = []
    | .other op => OneAtATime uartServer x.kernel op) ∧
  (∀ h ∈ x.sems, uartServer h = none) ∧ x.tasks 0 = none

instance (x : DemoSystem) (a : DemoAct) : Decidable (QuietStep x a) :=
  match a with
  | .task => inferInstanceAs (Decidable ((∀ t ∈ _, _) ∧ _))
  | .shell => inferInstanceAs (Decidable ((_ → _) ∧ _))
  | .other _ => inferInstanceAs (Decidable (OneAtATime _ _ _ ∧ _))

theorem QuietStep.oneStart {a : DemoAct} (h : QuietStep x a) : OneStart uartServer x a := by
  obtain ⟨hact, hmutexes, hshell⟩ := h
  refine ⟨?_, ?_, ?_, hmutexes, fun s p hs => ?_⟩
  · rintro rfl
    exact hact
  · rintro rfl t ht
    exact hact t ht
  · rintro op rfl
    exact hact
  · unfold uartServer at hs
    split at hs <;> cases hs
    exact hshell

/-- Low has been lent the priority of High, and has created and resumed Mid. -/
def inversionActs : List DemoAct := demoCommand ++ List.replicate 8 .task

def inversionDemo : DemoSystem := inversionActs.foldl demoExec bootedDemo

theorem inversion_run : Run (demoMachine (fun _ => 0) 0)
    (bootedHistory ++ trace demoExec bootedDemo inversionActs) inversionDemo :=
  booted_run.append inversionActs (by decide +kernel)

/-- Low runs, at the priority of High, and Mid is ready. -/
theorem demo_no_inversion_waiting : inversionDemo.kernel.semList 1 = [3] ∧
    4 ∈ inversionDemo.kernel.runQueue ∧ inversionDemo.kernel.originalPriority 4 = 10 ∧
    inversionDemo.kernel.priority inversionDemo.kernel.runningTask ≤
      inversionDemo.kernel.originalPriority 3 ∧
    inversionDemo.kernel.originalPriority inversionDemo.kernel.runningTask ≠ 10 := by
  have hquiet : ∀ e ∈ bootedHistory ++ trace demoExec bootedDemo inversionActs,
      QuietStep e.1 e.2 := by decide +kernel
  have hw : 3 ∈ inversionDemo.kernel.semList 1 := by decide +kernel
  obtain ⟨hle, hmid⟩ := demo_no_inversion inversion_run (fun e he => (hquiet e he).oneStart)
    (h := 1) (by decide +kernel) rfl hw
  have ht : inversionDemo.tasks inversionDemo.kernel.runningTask =
      some { pc := .lowPost 1, sem := some 1 } := by decide +kernel
  exact ⟨by decide +kernel, by decide +kernel, by decide +kernel, hle,
    hmid (by decide +kernel) _ ht⟩

end MiniEuler
