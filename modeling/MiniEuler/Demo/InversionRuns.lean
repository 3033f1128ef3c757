import MiniEuler.Demo.InversionSteps

/-! Mutual exclusion of the demo, for as long as no `demo` command is given while the
semaphore of an earlier one is in use. -/

namespace MiniEuler
open Library

variable {text : DemoEntry → UIntPtr} {shell : Nat}
variable {x : DemoSystem} {k : Kernel} {p q h : Nat} {t : DemoTask}

namespace DemoInv

/-- **Step lemma** for a task. -/
theorem taskStep (D : DemoInv x) (hb : bgdActive x.kernel)
    (hidle : x.kernel.runningTask ≠ x.kernel.idleTaskId)
    (ht : x.tasks x.kernel.runningTask = some t) : DemoInv (x.taskStep text t) := by
  have hw : ∀ h, x.kernel.runningTask ∉ x.kernel.semList h := D.running_free hb
  have ok := D.task _ t ht
  have hfits := ok.fits
  cases hpc : t.pc.stmt with
  | pend next =>
    cases hh : t.handle with
    | none =>
      simp only [DemoSystem.taskStep, hpc, hh]
      exact D.loadPend ht hpc
    | some h =>
      simp only [DemoSystem.taskStep, hpc, hh]
      exact D.pend hb hidle rfl ht hpc hh
  | post next =>
    cases hh : t.handle with
    | none =>
      simp only [DemoSystem.taskStep, hpc, hh]
      exact D.loadPost hw ht hpc
    | some h =>
      simp only [DemoSystem.taskStep, hpc, hh]
      exact D.post hw ht hpc hh
  | create e okPc errPc =>
    simp only [DemoSystem.taskStep, hpc]
    rw [hpc] at hfits
    obtain ⟨hok, herr⟩ := DemoPc.fits_create (Or.inl hpc) hfits
    obtain ⟨D', hkeep⟩ := D.create text ok.shared e
    obtain ⟨hshared, hsems, -⟩ := create_frame text x e
    refine D'.goOn (hkeep _ t ht) ⟨?_, ?_, ?_⟩ rfl rfl
    · rw [hshared, hsems]
      exact ok.shared
    · rw [hsems]
      exact ok.sems
    · split
      · exact hok
      · exact herr
  | resume e okPc errPc =>
    simp only [DemoSystem.taskStep, hpc]
    rw [hpc] at hfits
    obtain ⟨hok, herr⟩ := DemoPc.fits_create (Or.inr hpc) hfits
    refine (D.resume e).goOn ht ⟨ok.shared, ok.sems, ?_⟩ rfl rfl
    split
    · exact hok
    · exact herr
  | ret =>
    simp only [DemoSystem.taskStep, hpc]
    exact (D.exit hw).foreign .taskExit ⟨⟨hb, hidle⟩, trivial⟩ fun _ _ => trivial

/-- **Step lemma** for the shell. -/
theorem shellStep (D : DemoInv x)
    (hidle : x.shell = .semCreate → x.kernel.unusedSemList ≠ [] → x.mutexes.Idle) :
    DemoInv (x.createPriorityInversionDemo text) := by
  unfold DemoSystem.createPriorityInversionDemo
  split
  · rename_i hsh
    split
    · rename_i k ret hr
      have hk : (Op.semCreate 1 false).next x.kernel = k := by rw [Op.next, Op.exec, hr]
      exact hk ▸ D.foreign (.semCreate 1 false) ⟨trivial, trivial⟩ fun _ _ => trivial
    · rename_i k h hr
      obtain ⟨ph, I⟩ := D.kernel
      have hs : (prtSemCreate x.kernel 1 false).2 = .ok h := by rw [hr]
      obtain ⟨rest, hl, -⟩ := I.semCreate_eq hs
      exact D.restart (hidle hsh (by rw [hl]; simp)) hr
  · rename_i hsh
    have hshared := D.shared (by rw [hsh]; simp)
    obtain ⟨D', -⟩ := D.create text hshared .taskLow
    obtain ⟨hsr, hsems, -⟩ := create_frame text x .taskLow
    exact { D' with shared := fun _ => by rw [hsr, hsems]; exact hshared }
  · exact { D.resume .taskLow with shared := fun h => absurd rfl h }

theorem start (h : DemoStart x) : DemoInv x := by
  have huse : ∀ p, x.mutexes.use p = none := fun p => DemoSystem.use_none (h.tasks p)
  refine ⟨DemoBase.start h, ?_, ?_, fun p s hg => ?_, fun p t ht => ?_,
    fun hs => absurd h.shell hs, ⟨fun hg => ?_, fun hg => ?_, fun hu => ?_⟩⟩
  · simp [h.sems]
  · simp [h.sems]
  · rw [MutexPool.Granted, huse] at hg
    cases hg
  · rw [h.tasks] at ht
    cases ht
  · rw [MutexPool.Granted, huse] at hg
    cases hg
  · rw [MutexPool.Granted, huse] at hg
    cases hg
  · rw [huse] at hu
    cases hu

/-- **Run lemma.** -/
theorem of_run {hist : DemoHistory} (r : Run (demoMachine text shell) hist x)
    (hidle : ∀ e ∈ hist, RestartsIdle e.1 e.2) : DemoInv x := by
  refine (r.restrict hidle).invariant DemoInv (fun _ h => start h) ?_
  rintro x a D ⟨ha, hre⟩
  cases a with
  | task =>
    obtain ⟨hb, hne, hsome⟩ := ha
    obtain ⟨t, ht⟩ := Option.isSome_iff_exists.mp hsome
    change DemoInv (DemoAct.exec text x .task)
    simp only [DemoAct.exec, ht]
    exact D.taskStep hb hne ht
  | shell => exact D.shellStep (hre rfl)
  | other op => exact D.foreign op ha.1 ha.2.1

theorem safe (D : DemoInv x) : DemoSafe x where
  exclusive p q h h' hp hq := D.sound.exclusive hp hq
  posts := by
    intro t next h ht hpc hh
    have hfits := (D.task _ t ht).fits
    rw [hpc] at hfits
    obtain ⟨h', hsem, hall⟩ := hfits
    obtain rfl := hall h hh
    have hb : bgdActive x.kernel := by
      by_contra hno
      obtain ⟨ph, I⟩ := D.kernel
      exact absurd (D.live _ t ht).1 (by have := (I.boot hno).1; omega)
    have hg := granted_of_sem ht hsem (D.running_free hb h)
    exact ⟨hg, D.owner _ h hg⟩

theorem idle_of_unused (D : DemoInv x) (h : ∀ p ≤ x.kernel.tskMaxNum, x.mutexes.use p = none) :
    x.mutexes.Idle := by
  intro p s g hu
  obtain ⟨t, ht, -⟩ := Option.bind_eq_some_iff.mp hu
  rw [h p (D.live p t ht).1] at hu
  cases hu

end DemoInv

/-! ## A command that comes too early -/

/-- `h` has been replaced, and task `p` will not name it in a post any more. -/
structure LeftBehind (p h : Nat) (x : DemoSystem) : Prop where
  shared : x.sharedResource ≠ h
  known : h ∈ x.sems
  read : ∀ t, x.tasks p = some t → t.handle = some h → ∃ next, t.pc.stmt = .pend next

namespace LeftBehind

theorem setTask (K : LeftBehind p h x) {u : Option DemoTask}
    (hu : q = p → ∀ t, u = some t → t.handle ≠ some h) : LeftBehind p h (x.setTask q u) := by
  refine { K with read := fun t ht hh => ?_ }
  by_cases hq : q = p
  · subst hq
    exact absurd hh (hu rfl t (by simpa [DemoSystem.setTask] using ht))
  · exact K.read t (by simpa [DemoSystem.setTask, Ne.symm hq] using ht) hh

theorem create (K : LeftBehind p h x) (text : DemoEntry → UIntPtr) (e : DemoEntry) :
    LeftBehind p h (x.create text e).1 := by
  unfold DemoSystem.create
  split
  · exact { K with }
  · exact { K.setTask fun _ t ht => by cases ht; simp with }

theorem taskStep (K : LeftBehind p h x) (ht : x.tasks x.kernel.runningTask = some t) :
    LeftBehind p h (x.taskStep text t) := by
  have hload : LeftBehind p h
      (x.setTask x.kernel.runningTask (some { t with handle := some x.sharedResource })) :=
    K.setTask fun _ t' he => by cases he; simpa using K.shared
  have hdone : ∀ pc sem, LeftBehind p h
      (x.setTask x.kernel.runningTask (some { pc := pc, sem := sem })) :=
    fun pc sem => K.setTask fun _ t' he => by cases he; simp
  have hkept : (∀ next, t.pc.stmt ≠ .pend next) → x.kernel.runningTask = p →
      ∀ pc t', some { t with pc := pc } = some t' → t'.handle ≠ some h := by
    rintro hno hp pc t' he hh
    cases he
    obtain ⟨next, hpc⟩ := K.read t (hp ▸ ht) hh
    exact hno next hpc
  unfold DemoSystem.taskStep
  split
  · exact hload
  · exact hload
  · exact { hdone _ _ with }
  · exact { hdone _ _ with }
  · rename_i hpc
    exact (K.create text _).setTask fun hp => hkept (by simp [hpc]) hp _
  · rename_i hpc
    exact setTask (x := (x.resume _).1) { K with } fun hp => hkept (by simp [hpc]) hp _
  · have hend := K.setTask (q := x.kernel.runningTask) (u := none) fun _ _ he => by cases he
    exact { hend with }

theorem step (B : DemoBase x) (K : LeftBehind p h x) (a : DemoAct) :
    LeftBehind p h ((demoMachine text shell).exec x a) := by
  cases a with
  | task =>
    change LeftBehind p h (DemoAct.exec text x .task)
    cases ht : x.tasks x.kernel.runningTask with
    | none =>
      simp only [DemoAct.exec, ht]
      exact K
    | some t =>
      simp only [DemoAct.exec, ht]
      exact K.taskStep ht
  | shell =>
    change LeftBehind p h (x.createPriorityInversionDemo text)
    unfold DemoSystem.createPriorityInversionDemo
    split
    · split
      · exact { K with }
      · rename_i k s hr
        have hs : s ≠ h := by
          rintro rfl
          exact B.fresh hr K.known
        exact { K with shared := hs, known := List.mem_cons_of_mem _ K.known }
    · exact { K.create text .taskLow with }
    · exact { K with }
  | other op => exact { K with }

theorem of_run {hist : DemoHistory} {y : DemoSystem}
    (r : Run (demoMachine text shell) hist y) {a : DemoAct}
    (K : LeftBehind p h ((demoMachine text shell).exec x a)) :
    ∀ pre post, hist = pre ++ (x, a) :: post → LeftBehind p h y := by
  refine r.invariant_hist (fun hist y => ∀ pre post, hist = pre ++ (x, a) :: post →
    LeftBehind p h y) (fun _ _ pre post he => by simp at he) ?_
  intro hist y b r ih _ pre post he
  rcases List.eq_nil_or_concat post with rfl | ⟨post', last, rfl⟩
  · obtain ⟨-, h2⟩ := List.append_inj' he rfl
    obtain ⟨rfl, rfl⟩ := Prod.mk.inj (List.cons.inj h2).1
    exact K
  · have he' : hist ++ [(y, b)] = (pre ++ (x, a) :: post') ++ [last] := by simp [he]
    exact step (DemoBase.of_run r) (ih pre post' (List.append_inj' he' rfl).1) b

end LeftBehind

/-- **Every command that comes too early does harm**: a task that has its semaphore from before
it, or is on its way there, comes to a post that names another one. -/
theorem not_safe_of_early {pre post : DemoHistory} {y : DemoSystem}
    (r : Run (demoMachine text shell) (pre ++ (x, .shell) :: post) y) (D : DemoInv x)
    (hs : x.shell = .semCreate) (hun : x.kernel.unusedSemList ≠ []) (ht : x.tasks p = some t)
    {g : Stage} (huse : x.mutexes.use p = some (h, g))
    (hread : t.handle ≠ none → ∃ next, t.pc.stmt = .pend next)
    (hp : y.kernel.runningTask = p) {t' : DemoTask} (ht' : y.tasks p = some t')
    (hsem : t'.sem = some h) {next : DemoPc} (hpc : t'.pc.stmt = .post next) {h' : Nat}
    (hh : t'.handle = some h') : ¬ DemoSafe y := by
  intro S
  have hknown := D.use_sems huse
  have K : LeftBehind p h ((demoMachine text shell).exec x .shell) := by
    change LeftBehind p h (x.createPriorityInversionDemo text)
    unfold DemoSystem.createPriorityInversionDemo
    simp only [hs]
    rcases hr : prtSemCreate x.kernel 1 false with ⟨k, ret | s⟩
    · obtain ⟨s, rest, hl⟩ := List.exists_cons_of_ne_nil hun
      simp [prtSemCreate, osSemCreate, hl, osSemCountMax] at hr
    · have hne : s ≠ h := by
        rintro rfl
        exact D.fresh hr hknown
      refine ⟨hne, List.mem_cons_of_mem _ hknown, fun u hu hh => ?_⟩
      obtain rfl := Option.some.inj (ht.symm.trans hu)
      exact hread (by rw [hh]; simp)
  have hbehind := LeftBehind.of_run r K pre post rfl
  have hg := (S.posts t' next h' (hp ▸ ht') hpc hh).1
  rw [hp, MutexPool.Granted, y.use_eq ht', DemoTask.use, hsem] at hg
  obtain rfl : h = h' := (Prod.mk.inj (Option.some.inj hg)).1
  obtain ⟨next', hpend⟩ := hbehind.read t' ht' hh
  rw [hpc] at hpend
  cases hpend

/-! ## Two commands -/

/-- The system after `OsTskInit` and `OsSemInit`. -/
def demoBoot : DemoSystem where
  kernel := bootKernel
  sharedResource := 0
  taskPid := fun _ => 0
  tasks := fun _ => none
  shell := .semCreate
  sems := []

theorem demoBoot_start : DemoStart demoBoot :=
  ⟨bootKernel_initialised, rfl, fun _ => rfl, fun _ => rfl, rfl, rfl⟩

/-- `PRT_UartInit`, `ShellTaskInit` and `OsActivate`: the shell has pid 0. -/
def demoBootActs : List DemoAct :=
  [.other (.semCreate 0 false), .other (.taskCreate { taskPrio := 9 }), .other (.taskResume 0),
    .other (.activate 0)]

/-- A `demo` command, after which the shell waits for input. -/
def demoCommand : List DemoAct :=
  [.shell, .shell, .shell, .other (.semPend 0 osWaitForever)]

/-- The demo is started and gets `n` steps before a character wakes the shell. -/
def demoFor (n : Nat) : List DemoAct :=
  demoCommand ++ List.replicate n .task ++ [.other (.uartPost 0)]

def demoExec : DemoSystem → DemoAct → DemoSystem := DemoAct.exec fun _ => 0

def bootedDemo : DemoSystem := demoBootActs.foldl demoExec demoBoot

def bootedHistory : DemoHistory := trace demoExec demoBoot demoBootActs

theorem booted_run : Run (demoMachine (fun _ => 0) 0) bootedHistory bootedDemo :=
  Run.ofList (M := demoMachine (fun _ => 0) 0) demoBoot_start demoBootActs (by decide +kernel)

/-- Low of the first start is on its way to its second pend when the second start comes. -/
def lateDemo : DemoSystem := (demoFor 22).foldl demoExec bootedDemo

def lateHistory : DemoHistory := bootedHistory ++ trace demoExec bootedDemo (demoFor 22)

theorem late_run : Run (demoMachine (fun _ => 0) 0) lateHistory lateDemo :=
  booted_run.append (demoFor 22) (by decide +kernel)

def twiceDemo : DemoSystem := (demoFor 9).foldl demoExec lateDemo

def twiceHistory : DemoHistory := lateHistory ++ trace demoExec lateDemo (demoFor 9)

theorem twice_run : Run (demoMachine (fun _ => 0) 0) twiceHistory twiceDemo :=
  late_run.append (demoFor 9) (by decide +kernel)

/-- One command given when nothing is in use. -/
theorem restartsIdle_of_first {as : List DemoAct} (hidle : x.mutexes.Idle)
    (h : ∀ e ∈ trace demoExec (demoExec x .shell) as, e.2 = .shell → e.1.shell ≠ .semCreate) :
    ∀ e ∈ trace demoExec x (.shell :: as), RestartsIdle e.1 e.2 := by
  intro e he
  rcases List.mem_cons.mp he with rfl | he
  · exact fun _ _ _ => hidle
  · exact fun ha hs => absurd hs (h e he ha)

theorem late_idle : ∀ e ∈ lateHistory, RestartsIdle e.1 e.2 := by
  intro e he
  rcases List.mem_append.mp he with he | he
  · have hboot : ∀ e ∈ bootedHistory, e.2 ≠ .shell := by decide +kernel
    exact fun ha => absurd ha (hboot e he)
  · have hnone : ∀ p, bootedDemo.mutexes.use p = none := fun p => DemoSystem.use_none rfl
    refine restartsIdle_of_first (fun p s g hu => ?_) (by decide +kernel) e he
    rw [hnone] at hu
    cases hu

theorem twice_idle : ∀ e ∈ twiceHistory, RestartsIdle e.1 e.2 := by
  intro e he
  rcases List.mem_append.mp he with he | he
  · exact late_idle e he
  · exact restartsIdle_of_first ((DemoInv.of_run late_run late_idle).idle_of_unused
      (by decide +kernel)) (by decide +kernel) e he

/-- **Mutual exclusion of the demo**, for any number of starts and every schedule. -/
theorem demo_safe {hist : DemoHistory} (r : Run (demoMachine text shell) hist x)
    (hidle : ∀ e ∈ hist, RestartsIdle e.1 e.2) : DemoSafe x :=
  (DemoInv.of_run r hidle).safe

/-- The first Low has run to its end, and the second one holds the second semaphore. -/
theorem demo_safe_twice : DemoSafe twiceDemo ∧ twiceDemo.mutexes.Granted 5 2 :=
  ⟨demo_safe twice_run twice_idle, by show twiceDemo.mutexes.use 5 = _; decide +kernel⟩

/-- The second start comes when the first Low holds the first semaphore. -/
def earlyActs : List DemoAct := demoFor 2 ++ demoFor 4

def earlyDemo : DemoSystem := earlyActs.foldl demoExec bootedDemo

/-- Low comes to its post. -/
def mispostActs : List DemoAct := demoFor 2 ++ demoCommand ++ List.replicate 19 .task

def mispostDemo : DemoSystem := mispostActs.foldl demoExec bootedDemo

/-- Low (pid 2) and High (pid 4) of the first start hold a semaphore each, and Low then comes
to post the second one. -/
theorem demo_not_safe :
    Run (demoMachine (fun _ => 0) 0)
      (bootedHistory ++ trace demoExec bootedDemo earlyActs) earlyDemo ∧
    (earlyDemo.mutexes.Granted 2 1 ∧ earlyDemo.mutexes.Granted 4 2) ∧
    Run (demoMachine (fun _ => 0) 0)
      (bootedHistory ++ trace demoExec bootedDemo mispostActs) mispostDemo ∧
    (mispostDemo.kernel.runningTask = 2 ∧
      mispostDemo.tasks 2 = some { pc := .lowPost 1, handle := some 2, sem := some 1 } ∧
      ¬ mispostDemo.mutexes.Granted 2 2) ∧
    ¬ DemoSafe earlyDemo ∧ ¬ DemoSafe mispostDemo := by
  have hearly : earlyDemo.mutexes.Granted 2 1 ∧ earlyDemo.mutexes.Granted 4 2 := by
    show earlyDemo.mutexes.use 2 = _ ∧ earlyDemo.mutexes.use 4 = _
    decide +kernel
  have hpost : mispostDemo.kernel.runningTask = 2 ∧
      mispostDemo.tasks 2 = some { pc := .lowPost 1, handle := some 2, sem := some 1 } ∧
      ¬ mispostDemo.mutexes.Granted 2 2 := by
    show _ ∧ _ ∧ ¬ mispostDemo.mutexes.use 2 = _
    decide +kernel
  refine ⟨booted_run.append earlyActs (by decide +kernel), hearly,
    booted_run.append mispostActs (by decide +kernel), hpost, fun S => ?_, fun S => ?_⟩
  · exact absurd (S.exclusive 2 4 1 2 hearly.1 hearly.2) (by decide)
  · obtain ⟨hrun, htask, hno⟩ := hpost
    have h := S.posts ⟨.lowPost 1, some 2, some 1⟩ (.lowPendAgain 1) 2 (by rw [hrun]; exact htask)
      rfl rfl
    rw [hrun] at h
    exact hno h.1

end MiniEuler
