import MiniEuler.Demo.InversionKernel

/-! What the demo keeps while no `demo` command comes too early. -/

namespace MiniEuler
open Library

variable {text : DemoEntry → UIntPtr}

/-! ## Where a task holds a semaphore -/

/-- What task `t` has read and been granted fits the call it comes to. -/
def DemoStmt.Fits (t : DemoTask) : DemoStmt → Prop
  | .pend _ => t.sem = none
  | .post _ => ∃ h, t.sem = some h ∧ ∀ h', t.handle = some h' → h' = h
  | .create _ _ _ | .resume _ _ _ => t.sem.isSome ∧ t.handle = none
  | .ret => True

theorem fits_lowLoop (loopCount : Nat) (h : Nat) :
    (lowLoop loopCount).stmt.Fits ⟨lowLoop loopCount, none, some h⟩ := by
  unfold lowLoop
  split
  · exact ⟨h, rfl, by simp⟩
  · trivial

theorem fits_highLoop (loopCount : Nat) :
    (highLoop loopCount).stmt.Fits ⟨highLoop loopCount, none, none⟩ := by
  unfold highLoop
  split
  · rfl
  · trivial

theorem DemoEntry.fits_start (e : DemoEntry) : e.start.stmt.Fits ⟨e.start, none, none⟩ := by
  cases e with
  | taskHigh => exact fits_highLoop 0
  | taskMid => trivial
  | taskLow => rfl

theorem DemoPc.fits_pend {pc next : DemoPc} (h : pc.stmt = .pend next) (s : Nat) :
    next.stmt.Fits ⟨next, none, some s⟩ := by
  cases pc <;> simp only [stmt, DemoStmt.pend.injEq, reduceCtorEq] at h <;> subst h
  · exact ⟨rfl, rfl⟩
  · exact fits_lowLoop _ s
  · exact ⟨s, rfl, by simp⟩

theorem DemoPc.fits_post {pc next : DemoPc} (h : pc.stmt = .post next) :
    next.stmt.Fits ⟨next, none, none⟩ := by
  cases pc <;> simp only [stmt, DemoStmt.post.injEq, reduceCtorEq] at h <;> subst h
  · rename_i loopCount
    split
    · rfl
    · rename_i hge
      rw [lowLoop, if_neg hge]
      trivial
  · exact fits_highLoop _

/-- After a creation or a resumption the task still has its semaphore. -/
theorem DemoPc.fits_create {pc ok err : DemoPc} {e : DemoEntry}
    (h : pc.stmt = .create e ok err ∨ pc.stmt = .resume e ok err) {t : DemoTask}
    (ht : t.sem.isSome ∧ t.handle = none) :
    ok.stmt.Fits { t with pc := ok } ∧ err.stmt.Fits { t with pc := err } := by
  obtain ⟨_, handle, sem⟩ := t
  obtain ⟨hs, rfl⟩ := ht
  obtain ⟨s, rfl⟩ := Option.isSome_iff_exists.mp hs
  cases pc <;> simp only [stmt, DemoStmt.create.injEq, DemoStmt.resume.injEq, reduceCtorEq,
    or_false, false_or] at h <;> obtain ⟨-, rfl, rfl⟩ := h
  · exact ⟨⟨rfl, rfl⟩, trivial⟩
  · exact ⟨⟨rfl, rfl⟩, trivial⟩
  · exact ⟨⟨rfl, rfl⟩, fits_lowLoop 0 s⟩
  · exact ⟨fits_lowLoop 0 s, fits_lowLoop 0 s⟩

/-! ## The invariant -/

/-- What `t` has in hand when the handles in `sems` are in use, `shared` the latest of them. -/
structure DemoTask.Ok (shared : Nat) (sems : List Nat) (t : DemoTask) : Prop where
  shared : shared ∈ sems
  sems : ∀ h, t.sem = some h ∨ t.handle = some h → h ∈ sems
  fits : t.pc.stmt.Fits t

structure DemoInv (x : DemoSystem) : Prop extends DemoBase x where
  count : ∀ h ∈ x.sems, (x.kernel.allSem h).semCount ≤ 1
  waits : ∀ h ∈ x.sems, ∀ p ∈ x.kernel.semList h, ∃ t, x.tasks p = some t ∧ t.sem = some h
  owner : ∀ p h, x.mutexes.Granted p h → (x.kernel.allSem h).semOwner = p
  task : ∀ p t, x.tasks p = some t → t.Ok x.sharedResource x.sems
  shared : x.shell ≠ .semCreate → x.sharedResource ∈ x.sems
  sound : x.mutexes.Sound

variable {x : DemoSystem} {k : Kernel} {p q h : Nat} {t : DemoTask}

/-! ## What the mutexes see -/

theorem DemoTask.use_congr (hl : ∀ h, t.sem = some h → (p ∈ k.semList h ↔ p ∈ x.kernel.semList h)) :
    t.use k p = t.use x.kernel p := by
  unfold DemoTask.use
  cases hs : t.sem with
  | none => rfl
  | some h => simp only [hl h hs]

theorem DemoSystem.use_eq {t : DemoTask} (ht : x.tasks p = some t) :
    x.mutexes.use p = t.use x.kernel p := by
  simp [DemoSystem.mutexes, ht]

theorem DemoSystem.use_none (ht : x.tasks p = none) : x.mutexes.use p = none := by
  simp [DemoSystem.mutexes, ht]

/-- What a task uses is a semaphore of the demo. -/
theorem DemoInv.use_sems (D : DemoInv x) {g : Stage} (hu : x.mutexes.use p = some (h, g)) :
    h ∈ x.sems := by
  obtain ⟨t, ht, hu⟩ := Option.bind_eq_some_iff.mp hu
  refine (D.task p t ht).sems h ?_
  unfold DemoTask.use at hu
  split at hu
  · rename_i s hs
    rw [hs, (Prod.mk.inj (Option.some.inj hu)).1]
    exact Or.inl rfl
  · obtain ⟨s, hs, heq⟩ := Option.map_eq_some_iff.mp hu
    rw [hs, (Prod.mk.inj heq).1]
    exact Or.inr rfl

theorem granted_of_sem (ht : x.tasks p = some t) (hs : t.sem = some h)
    (hw : p ∉ x.kernel.semList h) : x.mutexes.Granted p h := by
  rw [MutexPool.Granted, x.use_eq ht, DemoTask.use, hs]
  simp only [hw, ↓reduceIte]

/-- A task that changes hands changes one place of `use`. -/
theorem mutexes_setTask (x : DemoSystem) (p : Nat) (u : Option DemoTask) :
    (x.setTask p u).mutexes = { x.mutexes with
      use := Function.update x.mutexes.use p (u.bind (·.use x.kernel p)) } := by
  simp only [DemoSystem.mutexes, DemoSystem.setTask, MutexPool.mk.injEq, true_and]
  funext q
  by_cases hq : q = p
  · subst hq
    simp
  · simp [hq]

/-- The mutexes see the wait lists and the counts, and nothing else of the kernel. -/
theorem DemoInv.mutexes_congr (D : DemoInv x) (hs : ∀ h ∈ x.sems, SemSame h x.kernel k) :
    ({ x with kernel := k } : DemoSystem).mutexes = x.mutexes := by
  simp only [DemoSystem.mutexes, MutexPool.mk.injEq, true_and]
  refine ⟨funext fun h => propext ?_, funext fun p => ?_⟩
  · constructor
    · rintro ⟨hh, hpos⟩
      exact ⟨hh, by rwa [(hs h hh).sem] at hpos⟩
    · rintro ⟨hh, hpos⟩
      exact ⟨hh, by rwa [(hs h hh).sem]⟩
  · cases ht : x.tasks p with
    | none => rfl
    | some t =>
      refine DemoTask.use_congr fun h hsem => ?_
      rw [(hs h ((D.task p t ht).sems h (Or.inl hsem))).list]

/-! ## Calls that are not about the demo's semaphores -/

namespace DemoInv

theorem foreign (D : DemoInv x) (op : Op) (hop : kernelMachine.Allowed x.kernel op)
    (ha : ∀ h ∈ x.sems, op.Avoids h) : DemoInv { x with kernel := op.next x.kernel } := by
  have hs : ∀ h ∈ x.sems, SemSame h x.kernel (op.next x.kernel) :=
    fun h hh => D.semSame hop.1 hh (ha h hh)
  have hm := D.mutexes_congr hs
  refine { D.toDemoBase.next op hop with
    count := fun h hh => ?_, waits := fun h hh p hp => ?_, owner := fun p h hg => ?_
    task := D.task, shared := D.shared, sound := hm ▸ D.sound }
  · rw [(hs h hh).sem]
    exact D.count h hh
  · rw [(hs h hh).list] at hp
    exact D.waits h hh p hp
  · rw [hm] at hg
    rw [(hs h (D.use_sems hg)).sem]
    exact D.owner p h hg

/-- A task goes on, or ends, without having been granted anything new. -/
theorem setTask (D : DemoInv x) {u : Option DemoTask}
    (hlive : ∀ t, u = some t → HasTcb x.kernel p)
    (hok : ∀ t, u = some t → t.Ok x.sharedResource x.sems)
    (hwaits : ∀ h ∈ x.sems, p ∈ x.kernel.semList h → ∃ t, u = some t ∧ t.sem = some h)
    (hgranted : ∀ h, u.bind (·.use x.kernel p) = some (h, .granted) → x.mutexes.Granted p h)
    (hsound : (x.setTask p u).mutexes.Sound) : DemoInv (x.setTask p u) := by
  refine { D.toDemoBase.setTask hlive with
    count := D.count, waits := fun h hh q hq => ?_, owner := fun q h hg => ?_
    task := fun q t hq => ?_, shared := D.shared, sound := hsound }
  · by_cases hqp : q = p
    · subst hqp
      simpa [DemoSystem.setTask] using hwaits h hh hq
    · simpa [DemoSystem.setTask, hqp] using D.waits h hh q hq
  · rw [mutexes_setTask] at hg
    rcases MutexPool.update_eq_some.mp hg with ⟨rfl, hg⟩ | ⟨-, hg⟩
    · exact D.owner q h (hgranted h hg)
    · exact D.owner q h hg
  · by_cases hqp : q = p
    · subst hqp
      exact hok t (by simpa [DemoSystem.setTask] using hq)
    · exact D.task q t (by simpa [DemoSystem.setTask, hqp] using hq)

/-- A task goes on with what it had. -/
theorem goOn (D : DemoInv x) (ht : x.tasks p = some t) {t' : DemoTask}
    (hok : t'.Ok x.sharedResource x.sems) (hsem : t'.sem = t.sem)
    (huse : t'.use x.kernel p = t.use x.kernel p) : DemoInv (x.setTask p (some t')) := by
  have hsame : (some t' : Option DemoTask).bind (·.use x.kernel p) = x.mutexes.use p :=
    huse.trans (x.use_eq ht).symm
  refine D.setTask (fun _ _ => D.live p t ht) (fun _ he => Option.some.inj he ▸ hok)
    (fun h hh hp => ?_) (fun h hg => hsame.symm.trans hg) ?_
  · obtain ⟨u, hu, hs⟩ := D.waits h hh p hp
    obtain rfl := Option.some.inj (ht.symm.trans hu)
    exact ⟨t', rfl, hsem.trans hs⟩
  · rw [mutexes_setTask, hsame, Function.update_eq_self]
    exact D.sound

/-- A task reads the handle for its next pend. -/
theorem loadPend (D : DemoInv x) (ht : x.tasks p = some t) {next : DemoPc}
    (hpc : t.pc.stmt = .pend next) :
    DemoInv (x.setTask p (some { t with handle := some x.sharedResource })) := by
  have ok := D.task p t ht
  have hfits := ok.fits
  rw [hpc] at hfits
  have hsem : t.sem = none := hfits
  have huse : ({ t with handle := some x.sharedResource } : DemoTask).use x.kernel p =
      some (x.sharedResource, .loaded) := by
    simp [DemoTask.use, hsem]
  refine D.setTask (fun _ _ => D.live p t ht) (fun t' he => ?_) (fun h hh hp => ?_)
    (fun h hg => ?_) ?_
  · obtain rfl := Option.some.inj he
    refine ⟨ok.shared, fun h hor => ?_, by rw [hpc]; exact hsem⟩
    rcases hor with hs | hs
    · exact ok.sems h (Or.inl hs)
    · exact Option.some.inj hs ▸ ok.shared
  · obtain ⟨u, hu, hs⟩ := D.waits h hh p hp
    obtain rfl := Option.some.inj (ht.symm.trans hu)
    rw [hsem] at hs
    cases hs
  · rw [Option.bind_some, huse] at hg
    cases hg
  · rw [mutexes_setTask, Option.bind_some, huse]
    exact D.sound.load p

/-- A task that holds a semaphore reads the handle for its post: the semaphore it holds. -/
theorem loadPost (D : DemoInv x) (hw : ∀ h, p ∉ x.kernel.semList h) (ht : x.tasks p = some t)
    {next : DemoPc} (hpc : t.pc.stmt = .post next) :
    DemoInv (x.setTask p (some { t with handle := some x.sharedResource })) := by
  have ok := D.task p t ht
  have hfits := ok.fits
  rw [hpc] at hfits
  obtain ⟨h, hsem, -⟩ := hfits
  have hcur : h = x.sharedResource := D.sound.granted_current (granted_of_sem ht hsem (hw h))
  refine D.goOn ht ⟨ok.shared, fun h' hor => ?_, ?_⟩ rfl (by simp [DemoTask.use, hsem])
  · rcases hor with hs | hs
    · exact ok.sems h' (Or.inl hs)
    · exact Option.some.inj hs ▸ ok.shared
  · rw [hpc]
    exact ⟨h, hsem, fun h' hh' => (Option.some.inj hh').symm.trans hcur.symm⟩

/-- A task ends. The semaphore it may hold is lost. -/
theorem exit (D : DemoInv x) (hw : ∀ h, p ∉ x.kernel.semList h) : DemoInv (x.setTask p none) := by
  refine D.setTask (fun _ he => by cases he) (fun _ he => by cases he)
    (fun h _ hp => absurd hp (hw h)) (fun h hg => by cases hg) ?_
  rw [mutexes_setTask]
  exact D.sound.drop p

end DemoInv

/-! ## Creating and resuming -/

theorem create_frame (text : DemoEntry → UIntPtr) (x : DemoSystem) (e : DemoEntry) :
    (x.create text e).1.sharedResource = x.sharedResource ∧
      (x.create text e).1.sems = x.sems ∧ (x.create text e).1.shell = x.shell := by
  unfold DemoSystem.create
  split <;> exact ⟨rfl, rfl, rfl⟩

namespace DemoInv

theorem newTask (D : DemoInv x) (hnew : x.tasks p = none) (hlive : HasTcb x.kernel p)
    (hshared : x.sharedResource ∈ x.sems) (e : DemoEntry) :
    DemoInv (x.setTask p (some { pc := e.start })) := by
  have hsame : (some { pc := e.start } : Option DemoTask).bind (·.use x.kernel p) =
      x.mutexes.use p := (DemoSystem.use_none hnew).symm
  refine D.setTask (fun _ _ => hlive) (fun t he => ?_) (fun h hh hp => ?_)
    (fun h hg => hsame.symm.trans hg) ?_
  · obtain rfl := Option.some.inj he
    exact ⟨hshared, by simp, e.fits_start⟩
  · obtain ⟨t, ht, -⟩ := D.waits h hh p hp
    rw [hnew] at ht
    cases ht
  · rw [mutexes_setTask, hsame, Function.update_eq_self]
    exact D.sound

/-- Creating a task leaves the other tasks of the demo alone. -/
theorem create (D : DemoInv x) (text : DemoEntry → UIntPtr)
    (hshared : x.sharedResource ∈ x.sems) (e : DemoEntry) : DemoInv (x.create text e).1 ∧
    ∀ p t, x.tasks p = some t → (x.create text e).1.tasks p = some t := by
  have hout := D.pool.prtTaskCreate (e.initParam text)
  have D' : DemoInv { x with kernel := (prtTaskCreate x.kernel (e.initParam text)).1 } :=
    D.foreign (.taskCreate (e.initParam text)) ⟨trivial, trivial⟩ fun _ _ => trivial
  unfold DemoSystem.create
  rcases hr : prtTaskCreate x.kernel (e.initParam text) with ⟨k, ret | pid⟩ <;>
    rw [hr] at hout D'
  · exact ⟨D', fun _ _ ht => ht⟩
  · obtain ⟨hfresh, htcb⟩ := hout.pid D.pool
    have hnew : ∀ t, x.tasks pid ≠ some t := fun t ht => hfresh (D.live pid t ht).2
    have hnone : x.tasks pid = none := Option.eq_none_iff_forall_ne_some.mpr hnew
    have hpids := (D.toDemoBase.create text e).pids
    rw [DemoSystem.create, hr] at hpids
    refine ⟨{ D'.newTask hnone htcb hshared e with pids := hpids }, fun p t ht => ?_⟩
    have hp : p ≠ pid := by
      rintro rfl
      exact hnew t ht
    simpa [DemoSystem.setTask, hp] using ht

theorem resume (D : DemoInv x) (e : DemoEntry) : DemoInv (x.resume e).1 :=
  D.foreign (.taskResume (x.taskPid e)) ⟨D.pids e, trivial⟩ fun _ _ => trivial

end DemoInv

/-! ## Pend and post -/

/-- Task `p` goes on as `u` after the call `op`. -/
def DemoSystem.after (x : DemoSystem) (p : Nat) (u : Option DemoTask) (op : Op) : DemoSystem :=
  { x.setTask p u with kernel := op.next x.kernel }

namespace DemoInv

section
variable {op : Op} {u : Option DemoTask} (D : DemoInv x)
  (hop : kernelMachine.Allowed x.kernel op) (ha : ∀ h', h' ≠ h → op.Avoids h')

include D hop ha

/-- Tasks that neither make the call nor join or leave the waiters of `h` are where they were. -/
theorem use_after (hq : q ≠ p) (hl : q ∈ (op.next x.kernel).semList h ↔ q ∈ x.kernel.semList h) :
    (x.after p u op).mutexes.use q = x.mutexes.use q := by
  simp only [DemoSystem.mutexes, DemoSystem.after, DemoSystem.setTask, Function.update_of_ne hq]
  cases ht : x.tasks q with
  | none => rfl
  | some t =>
    refine DemoTask.use_congr fun h' hsem => ?_
    by_cases hne : h' = h
    · subst hne
      exact hl
    · rw [(D.semSame hop.1 ((D.task q t ht).sems h' (Or.inl hsem)) (ha h' hne)).list]

theorem free_after (hh : h ∈ x.sems) : (x.after p u op).mutexes.free =
    Function.update x.mutexes.free h (0 < ((op.next x.kernel).allSem h).semCount) := by
  funext h'
  by_cases hne : h' = h
  · subst hne
    rw [Function.update_self]
    exact propext ⟨fun hf => hf.2, fun hpos => ⟨hh, hpos⟩⟩
  · rw [Function.update_of_ne hne]
    refine propext (and_congr_right fun hm => ?_)
    rw [← (D.semSame hop.1 hm (ha h' hne)).sem]
    rfl

theorem free_kept (hh : h ∈ x.sems)
    (hcount : ((op.next x.kernel).allSem h).semCount = (x.kernel.allSem h).semCount) :
    (x.after p u op).mutexes.free = x.mutexes.free := by
  rw [D.free_after hop ha hh, hcount]
  exact Function.update_eq_self_iff.mpr (propext ⟨fun hpos => ⟨hh, hpos⟩, fun hf => hf.2⟩)

theorem mutexes_took (hh : h ∈ x.sems) {next : DemoPc} (hw : p ∉ x.kernel.semList h)
    (hcount : ((op.next x.kernel).allSem h).semCount = 0)
    (hlist : (op.next x.kernel).semList h = x.kernel.semList h) :
    (x.after p (some { pc := next, sem := some h }) op).mutexes = x.mutexes.take p h := by
  refine MutexPool.ext rfl ?_ (funext fun q => ?_)
  · rw [D.free_after hop ha hh, hcount]
    simp [MutexPool.take]
  · by_cases hq : q = p
    · subst hq
      simp [MutexPool.take, DemoSystem.mutexes, DemoSystem.after, DemoSystem.setTask,
        DemoTask.use, hlist, hw]
    · rw [D.use_after hop ha hq (by rw [hlist])]
      simp [MutexPool.take, hq]

theorem mutexes_waits (hh : h ∈ x.sems) {next : DemoPc}
    (hcount : ((op.next x.kernel).allSem h).semCount = (x.kernel.allSem h).semCount)
    (hlist : (op.next x.kernel).semList h = x.kernel.semList h ++ [p]) :
    (x.after p (some { pc := next, sem := some h }) op).mutexes = x.mutexes.wait p h := by
  refine MutexPool.ext rfl (D.free_kept hop ha hh hcount) (funext fun q => ?_)
  by_cases hq : q = p
  · subst hq
    simp [MutexPool.wait, DemoSystem.mutexes, DemoSystem.after, DemoSystem.setTask,
      DemoTask.use, hlist]
  · rw [D.use_after hop ha hq (by simp [hlist, hq])]
    simp [MutexPool.wait, hq]

theorem mutexes_handed (hh : h ∈ x.sems) {next : DemoPc} {w : Nat} {rest : List Nat}
    (hwp : w ≠ p) (hl : x.kernel.semList h = w :: rest) (hnot : w ∉ rest)
    (hcount : ((op.next x.kernel).allSem h).semCount = (x.kernel.allSem h).semCount)
    (hlist : (op.next x.kernel).semList h = rest) :
    (x.after p (some { pc := next }) op).mutexes = x.mutexes.handOver p w h := by
  refine MutexPool.ext rfl (D.free_kept hop ha hh hcount) (funext fun q => ?_)
  obtain ⟨t, ht, hsem⟩ := D.waits h hh w (by simp [hl])
  by_cases hqw : q = w
  · subst hqw
    simp [MutexPool.handOver, DemoSystem.mutexes, DemoSystem.after, DemoSystem.setTask,
      DemoTask.use, hlist, hwp, ht, hsem, hnot]
  · by_cases hq : q = p
    · subst hq
      simp [MutexPool.handOver, DemoSystem.mutexes, DemoSystem.after, DemoSystem.setTask,
        DemoTask.use, hqw]
    · rw [D.use_after hop ha hq (by simp [hlist, hl, hqw])]
      simp [MutexPool.handOver, hq, hqw]

theorem mutexes_given (hh : h ∈ x.sems) {next : DemoPc}
    (hcount : 0 < ((op.next x.kernel).allSem h).semCount)
    (hlist : (op.next x.kernel).semList h = x.kernel.semList h) :
    (x.after p (some { pc := next }) op).mutexes = x.mutexes.give p h := by
  refine MutexPool.ext rfl ?_ (funext fun q => ?_)
  · rw [D.free_after hop ha hh]
    simp [MutexPool.give, MutexPool.drop, hcount]
  · by_cases hq : q = p
    · subst hq
      simp [MutexPool.give, MutexPool.drop, DemoSystem.mutexes, DemoSystem.after,
        DemoSystem.setTask, DemoTask.use]
    · rw [D.use_after hop ha hq (by rw [hlist])]
      simp [MutexPool.give, MutexPool.drop, hq]

/-- A task makes a call about the semaphore `h`, of which the mutexes are `m` afterwards: who is
granted what in `m` has been granted it before, or is granted `h` in the call. -/
theorem call (ht : x.tasks p = some t) {t' : DemoTask}
    (hok : t'.Ok x.sharedResource x.sems) (hw : ∀ h, p ∉ x.kernel.semList h)
    (hcount : ((op.next x.kernel).allSem h).semCount ≤ 1)
    (hwaits : ∀ q ∈ (op.next x.kernel).semList h,
      q = p ∧ t'.sem = some h ∨ q ∈ x.kernel.semList h)
    {m : MutexPool Nat Nat} (hm : (x.after p (some t') op).mutexes = m) (hsound : m.Sound)
    (hgranted : ∀ q h', m.Granted q h' →
      h' = h ∧ ((op.next x.kernel).allSem h).semOwner = q ∨ h' ≠ h ∧ x.mutexes.Granted q h') :
    DemoInv (x.after p (some t') op) := by
  have hs : ∀ h' ∈ x.sems, h' ≠ h → SemSame h' x.kernel (op.next x.kernel) :=
    fun h' hh hne => D.semSame hop.1 hh (ha h' hne)
  have hlive : HasTcb (op.next x.kernel) p := (D.live p t ht).next D.pool op hop.1
  refine { (D.toDemoBase.next op hop).setTask (p := p) (u := some t') fun _ _ => hlive with
    count := fun h' hh => ?_, waits := fun h' hh q hq => ?_, owner := fun q h' hg => ?_
    task := fun q u hq => ?_, shared := D.shared, sound := hm ▸ hsound }
  · by_cases hne : h' = h
    · subst hne
      exact hcount
    · rw [DemoSystem.after, (hs h' hh hne).sem]
      exact D.count h' hh
  · have hold : q = p ∧ t'.sem = some h' ∨ q ∈ x.kernel.semList h' := by
      by_cases hne : h' = h
      · subst hne
        exact hwaits q hq
      · exact Or.inr (by rwa [DemoSystem.after, (hs h' hh hne).list] at hq)
    rcases hold with ⟨rfl, hsem⟩ | hold
    · exact ⟨t', by simp [DemoSystem.after, DemoSystem.setTask], hsem⟩
    · have hqp : q ≠ p := by
        rintro rfl
        exact hw h' hold
      simpa [DemoSystem.after, DemoSystem.setTask, hqp] using D.waits h' hh q hold
  · rw [hm] at hg
    rcases hgranted q h' hg with ⟨rfl, hown⟩ | ⟨hne, hold⟩
    · exact hown
    · rw [DemoSystem.after, (hs h' (D.use_sems hold) hne).sem]
      exact D.owner q h' hold
  · by_cases hqp : q = p
    · subst hqp
      simp only [DemoSystem.after, DemoSystem.setTask, Function.update_self,
        Option.some.injEq] at hq
      exact hq ▸ hok
    · exact D.task q u (by simpa [DemoSystem.after, DemoSystem.setTask, hqp] using hq)

end

/-- The running task pends: it takes the semaphore, or waits for it. -/
theorem pend (D : DemoInv x) (hb : bgdActive x.kernel)
    (hidle : x.kernel.runningTask ≠ x.kernel.idleTaskId) (hp : p = x.kernel.runningTask)
    (ht : x.tasks p = some t) {next : DemoPc} (hpc : t.pc.stmt = .pend next)
    (hh : t.handle = some h) :
    DemoInv (x.after p (some { pc := next, sem := some h }) (.semPend h osWaitForever)) := by
  have ok := D.task p t ht
  have hsems : h ∈ x.sems := ok.sems h (Or.inr hh)
  have hsem : t.sem = none := by
    have hfits := ok.fits
    rwa [hpc] at hfits
  have hw : ∀ h, p ∉ x.kernel.semList h := fun h => hp ▸ D.running_free hb h
  have hload : x.mutexes.use p = some (h, .loaded) := by
    rw [x.use_eq ht, DemoTask.use, hsem]
    simp only [hh, Option.map_some]
  have hok : DemoTask.Ok x.sharedResource x.sems { pc := next, sem := some h } :=
    ⟨ok.shared, by simpa using hsems, DemoPc.fits_pend hpc h⟩
  obtain ⟨ph, I⟩ := D.kernel
  obtain ⟨evs, R⟩ := D.refines h hsems
  have hop : kernelMachine.Allowed x.kernel (.semPend h osWaitForever) :=
    ⟨⟨hb, hidle⟩, Or.inr rfl⟩
  have ha : ∀ h', h' ≠ h → (Op.semPend h osWaitForever).Avoids h' := fun _ hne => Ne.symm hne
  rcases R.pend_cases I hop.1 rfl with ⟨hpos, hcb, hlist⟩ | ⟨hzero, hcb, hlist⟩
  · have hfree : x.mutexes.free h := ⟨hsems, hpos⟩
    have hcount : (((Op.semPend h osWaitForever).next x.kernel).allSem h).semCount = 0 := by
      have := D.count h hsems
      rw [hcb]
      simp only
      omega
    refine D.call hop ha ht hok hw (by omega) (fun q hq => Or.inr (hlist ▸ hq))
      (D.mutexes_took hop ha hsems (hw h) hcount hlist) (D.sound.take hload hfree)
      (fun q h' hg => ?_)
    rcases MutexPool.granted_take.mp hg with ⟨rfl, rfl⟩ | ⟨-, hold⟩
    · exact Or.inl ⟨rfl, by rw [hcb, hp]⟩
    · refine Or.inr ⟨?_, hold⟩
      rintro rfl
      exact D.sound.taken hold hfree
  · rw [← hp] at hlist
    refine D.call hop ha ht hok hw (by rw [hcb, hzero]; omega) (fun q hq => ?_)
      (D.mutexes_waits hop ha hsems (by rw [hcb]) hlist) (D.sound.wait hload) (fun q h' hg => ?_)
    · rw [hlist] at hq
      rcases List.mem_append.mp hq with hq | hq
      · exact Or.inr hq
      · exact Or.inl ⟨List.mem_singleton.mp hq, rfl⟩
    · obtain ⟨-, hold⟩ := MutexPool.granted_wait.mp hg
      by_cases hne : h' = h
      · subst hne
        exact Or.inl ⟨rfl, by rw [hcb]; exact D.owner q h' hold⟩
      · exact Or.inr ⟨hne, hold⟩

/-- A task posts the semaphore it holds, which goes to the first waiter, if there is one. -/
theorem post (D : DemoInv x) (hw : ∀ h, p ∉ x.kernel.semList h)
    (ht : x.tasks p = some t) {next : DemoPc} (hpc : t.pc.stmt = .post next)
    (hh : t.handle = some h) : DemoInv (x.after p (some { pc := next }) (.semPost h)) := by
  have ok := D.task p t ht
  have hsems : h ∈ x.sems := ok.sems h (Or.inr hh)
  have hgr : x.mutexes.Granted p h := by
    have hfits := ok.fits
    rw [hpc] at hfits
    obtain ⟨h', hsem, hall⟩ := hfits
    obtain rfl := hall h hh
    exact granted_of_sem ht hsem (hw h)
  have hzero : (x.kernel.allSem h).semCount = 0 := by
    by_contra hne
    exact D.sound.taken hgr ⟨hsems, by omega⟩
  have hothers : ∀ q h', q ≠ p → x.mutexes.Granted q h' → h' ≠ h := by
    rintro q h' hq hg rfl
    exact hq (D.sound.one hg hgr)
  have hok : DemoTask.Ok x.sharedResource x.sems { pc := next } :=
    ⟨ok.shared, by simp, DemoPc.fits_post hpc⟩
  obtain ⟨ph, I⟩ := D.kernel
  obtain ⟨evs, R⟩ := D.refines h hsems
  have hop : kernelMachine.Allowed x.kernel (.semPost h) := ⟨trivial, trivial⟩
  have ha : ∀ h', h' ≠ h → (Op.semPost h).Avoids h' := fun _ hne => Ne.symm hne
  rcases R.post_cases I (by rw [hzero]; decide) rfl with
    ⟨w, rest, hl, hcb, hlist⟩ | ⟨hl, hcb, hlist⟩
  · have hwp : w ≠ p := by
      rintro rfl
      exact hw h (by simp [hl])
    have hnot : w ∉ rest := (List.nodup_cons.mp (hl ▸ I.linked.placed.nodup (.semList h))).1
    refine D.call hop ha ht hok hw (by rw [hcb, hzero]; omega) (fun q hq => ?_)
      (D.mutexes_handed hop ha hsems hwp hl hnot (by rw [hcb]) hlist) (D.sound.handOver hgr)
      (fun q h' hg => ?_)
    · rw [hlist] at hq
      exact Or.inr (by rw [hl]; exact List.mem_cons_of_mem w hq)
    · rcases MutexPool.granted_handOver.mp hg with ⟨rfl, rfl⟩ | ⟨-, hqp, hold⟩
      · exact Or.inl ⟨rfl, by rw [hcb]⟩
      · exact Or.inr ⟨hothers q h' hqp hold, hold⟩
  · refine D.call hop ha ht hok hw (by rw [hcb, hzero]) (fun q hq => ?_)
      (D.mutexes_given hop ha hsems (by rw [hcb]; simp) (hlist.trans hl.symm))
      (D.sound.give hgr) (fun q h' hg => ?_)
    · rw [hlist] at hq
      cases hq
    · obtain ⟨hqp, hold⟩ := MutexPool.granted_give.mp hg
      exact Or.inr ⟨hothers q h' hqp hold, hold⟩

end DemoInv

/-! ## A new semaphore -/

namespace DemoInv

theorem mutexes_restarted (D : DemoInv x) (hsame : ∀ h' ∈ x.sems, SemSame h' x.kernel k)
    (hpos : 0 < (k.allSem h).semCount) : (x.restarted k h).mutexes = x.mutexes.renew h := by
  refine MutexPool.ext rfl (funext fun h' => propext ?_) (funext fun p => ?_)
  · rw [MutexPool.free_renew]
    by_cases hne : h' = h
    · subst hne
      simp [DemoSystem.mutexes, DemoSystem.restarted, hpos]
    · simp only [DemoSystem.mutexes, DemoSystem.restarted, List.mem_cons, hne, false_or]
      refine and_congr_right fun hh => ?_
      rw [(hsame h' hh).sem]
  · cases ht : x.tasks p with
    | none => simp [DemoSystem.mutexes, DemoSystem.restarted, MutexPool.renew, ht]
    | some t =>
      simp only [DemoSystem.mutexes, DemoSystem.restarted, MutexPool.renew, ht, Option.bind_some]
      refine DemoTask.use_congr fun h' hsem => ?_
      rw [(hsame h' ((D.task p t ht).sems h' (Or.inl hsem))).list]

/-- A new semaphore takes the place of one that is not in use. -/
theorem restart (D : DemoInv x) (hidle : x.mutexes.Idle)
    (hr : prtSemCreate x.kernel 1 false = (k, .ok h)) : DemoInv (x.restarted k h) := by
  have hk : (Op.semCreate 1 false).next x.kernel = k := by rw [Op.next, Op.exec, hr]
  have hnew := D.fresh hr
  have B := D.toDemoBase.restarted hr
  have hs : (prtSemCreate x.kernel 1 false).2 = .ok h := by rw [hr]
  have hsame : ∀ h' ∈ x.sems, SemSame h' x.kernel k := by
    intro h' hh
    rw [← hk]
    exact D.semSame trivial hh trivial
  obtain ⟨ph, I⟩ := D.kernel
  obtain ⟨rest, -, -, heq⟩ := I.semCreate_eq hs
  rw [hk] at heq
  have hone : (k.allSem h).semCount = 1 := by simp [heq, semCreatedKernel, createdSem]
  have hempty : k.semList h = [] := by simp [heq, semCreatedKernel, Kernel.semList]
  have hm := D.mutexes_restarted hsame (h := h) (by omega)
  refine { B with
    count := fun h' hh => ?_, waits := fun h' hh p hp => ?_, owner := fun p h' hg => ?_
    task := fun p t ht => ?_
    shared := fun _ => List.mem_cons_self
    sound := hm ▸ MutexPool.Sound.renew hidle fun p g hu => hnew (D.use_sems hu) }
  · rcases List.mem_cons.mp hh with rfl | hh
    · exact hone.le
    · rw [DemoSystem.restarted, (hsame h' hh).sem]
      exact D.count h' hh
  · rcases List.mem_cons.mp hh with rfl | hh
    · rw [DemoSystem.restarted, hempty] at hp
      cases hp
    · rw [DemoSystem.restarted, (hsame h' hh).list] at hp
      exact D.waits h' hh p hp
  · rw [hm] at hg
    exact absurd (hidle p h' .granted hg) (MutexPool.Sound.not_lost hg)
  · have ok := D.task p t ht
    exact ⟨List.mem_cons_self, fun h' hor => List.mem_cons_of_mem _ (ok.sems h' hor), ok.fits⟩

end DemoInv

end MiniEuler
