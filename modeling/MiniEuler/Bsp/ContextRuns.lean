import MiniEuler.Library.Run
import MiniEuler.Bsp.Context

/-! Switches between tasks in any order. Each task has its own stack; code changes what it likes
outside the other stacks, the frames and the control blocks, and is interrupted wherever there is
room for a frame. What is loaded is what was saved. -/

namespace MiniEuler
open Library

/-- Where the linker and `OsTaskCreate` have put things; `tcb` is also the address of the field
`stackPointer`, the first of a control block. -/
structure StackLayout (τ : Type) where
  gRunningTask : BitVec 64
  osMainSchedule : BitVec 64
  osTskEntry : BitVec 64
  handlers : Handlers
  tcb : τ → BitVec 64
  topOfStack : τ → BitVec 64
  stackSize : τ → BitVec 32

variable {τ : Type} {L : StackLayout τ}

def StackLayout.stack (L : StackLayout τ) (p : τ) : Set (BitVec 64) :=
  Span (L.topOfStack p) (L.stackSize p).toNat

/-- The field `stackPointer` of a task. -/
def StackLayout.stackPointer (L : StackLayout τ) (p : τ) : Set (BitVec 64) := Span (L.tcb p) 8

/-- Stacks and control blocks have nothing in common. -/
structure StackLayout.Apart (L : StackLayout τ) : Prop where
  stack : ∀ p q, p ≠ q → Disjoint (L.stack p) (L.stack q)
  stackPointer : ∀ p q, p ≠ q → Disjoint (L.stackPointer p) (L.stackPointer q)
  beside : ∀ p q, Disjoint (L.stackPointer p) (L.stack q)

/-! ## Frames -/

/-- What made a frame: `OsTskContextInit`, `OsTaskTrap`, or an exception. -/
inductive FrameKind
  | init
  | trap
  | exc
  deriving DecidableEq, Repr

/-- A frame, with the state that was saved in it. -/
structure SavedFrame where
  addr : BitVec 64
  kind : FrameKind
  core : Core

namespace SavedFrame

def area (f : SavedFrame) : Set (BitVec 64) := Span f.addr 288

/-- The frame stands in the memory. -/
def Holds (L : StackLayout τ) (mem : ByteMem) (f : SavedFrame) : Prop :=
  match f.kind with
  | .init => WordsAt mem f.addr (tskContextInit L.osTskEntry).words
  | .trap => ∃ far esr, WordsAt mem f.addr (frameWords (f.core.x 30)
      ({ f.core.pstate with mode := el1h } : Pstate).toSpsr far esr
      (trapGet L.gRunningTask f.core))
  | .exc => WordsAt mem f.addr
      (frameWords f.core.elr f.core.spsr f.core.far f.core.esr f.core.get)

/-- Where the frame of `p` has been put. -/
def Placed (L : StackLayout τ) (p : τ) (f : SavedFrame) : Prop :=
  f.addr = match f.kind with
    | .init => tskContextAddr (L.stackSize p) (L.topOfStack p)
    | .trap => f.core.sp - 288
    | .exc => f.core.sp - 288

/-- What it means that the frame of `p` has been loaded. -/
def Restored (L : StackLayout τ) (p : τ) (f : SavedFrame) (core : Core) : Prop :=
  match f.kind with
  | .init => core.x 30 = L.osTskEntry ∧ core.elr = L.osTskEntry ∧ core.pc = L.osTskEntry ∧
      core.sp = L.topOfStack p + (L.stackSize p).setWidth 64 ∧ core.pstate.mode = el1h
  | .trap => (∀ n : Fin 31, 2 ≤ n → core.x n = f.core.x n) ∧ core.sp = f.core.sp ∧
      core.pc = f.core.x 30 ∧ core.pstate = { f.core.pstate with mode := el1h }
  | .exc => (∀ n, core.x n = f.core.x n) ∧ core.sp = f.core.sp ∧ core.elr = f.core.elr ∧
      core.spsr = f.core.spsr ∧ core.pc = f.core.elr ∧ core.pstate = .ofSpsr f.core.spsr

theorem Holds.congr {mem mem' : ByteMem} {f : SavedFrame} (h : f.Holds L mem)
    (hkeep : ∀ a ∈ f.area, mem' a = mem a) : f.Holds L mem' := by
  obtain ⟨addr, kind, core⟩ := f
  cases kind with
  | init => exact WordsAt.congr (show 8 * 36 ≤ 2 ^ 64 by decide) hkeep h
  | trap =>
    obtain ⟨far, esr, h⟩ := h
    exact ⟨far, esr, frameWords_congr h hkeep⟩
  | exc => exact frameWords_congr h hkeep

end SavedFrame

/-! ## The machine -/

/-- `on` is the task on whose stack the code runs, `scheduling` holds from the end of `OsTaskTrap`
to a load, and `frames` has the frames of each task, the last one first. -/
structure Switching (τ : Type) where
  core : Core
  on : Option τ
  scheduling : Bool
  frames : τ → List SavedFrame

inductive SwitchAct (τ : Type)
  | code (core : Core)
  | create (q : τ)
  | trap
  | load (q : τ)
  | exception (vecId : Fin 16) (vector esr far link : BitVec 64)
  | eret

namespace Switching

variable {σ : Switching τ} {p : τ}

/-- What code may write: no other stack, no frame, and no `stackPointer`. -/
def Writable (L : StackLayout τ) (σ : Switching τ) (a : BitVec 64) : Prop :=
  (∀ q, σ.on ≠ some q → a ∉ L.stack q) ∧
  (∀ q, σ.on = some q → ∀ f ∈ σ.frames q, a ∉ f.area) ∧ ∀ q, a ∉ L.stackPointer q

/-- There is room for a frame below the stack pointer of `p`. -/
def Room (L : StackLayout τ) (σ : Switching τ) (p : τ) : Prop :=
  Span (σ.core.sp - 288) 288 ⊆ L.stack p ∧
  ∀ f ∈ σ.frames p, Disjoint (Span (σ.core.sp - 288) 288) f.area

variable [DecidableEq τ]

def push (σ : Switching τ) (p : τ) (kind : FrameKind) (core : Core) : τ → List SavedFrame :=
  Function.update σ.frames p (⟨σ.core.sp - 288, kind, core⟩ :: σ.frames p)

def pop (σ : Switching τ) (p : τ) : τ → List SavedFrame :=
  Function.update σ.frames p (σ.frames p).tail

def Allowed (L : StackLayout τ) (σ : Switching τ) : SwitchAct τ → Prop
  | .code core => core.pstate.mode = el1h ∧ ∀ a, core.mem a ≠ σ.core.mem a → σ.Writable L a
  | .create q => σ.on ≠ some q ∧ 288 ≤ (L.stackSize q).toNat
  | .trap => ∃ p, σ.on = some p ∧ σ.scheduling = false ∧ σ.Room L p ∧
      load64 σ.core.mem L.gRunningTask = L.tcb p
  | .load q => σ.scheduling = true ∧ σ.core.x 0 = L.tcb q ∧
      ∃ f rest, σ.frames q = f :: rest ∧ f.kind ≠ .exc
  | .exception _ _ _ _ _ => ∃ p, σ.on = some p ∧ σ.scheduling = false ∧ σ.Room L p
  | .eret => ∃ p f rest, σ.on = some p ∧ σ.scheduling = false ∧ σ.frames p = f :: rest ∧
      σ.core.sp = f.addr

/-- The frame that `OsTskContextInit` builds for `q`, and `stackPointer`, which gets its
address. -/
def createMem (L : StackLayout τ) (mem : ByteMem) (q : τ) : ByteMem :=
  store64 (osTskContextInit mem (L.stackSize q) (L.topOfStack q) L.osTskEntry).1 (L.tcb q)
    (tskContextAddr (L.stackSize q) (L.topOfStack q))

def exec (L : StackLayout τ) (σ : Switching τ) : SwitchAct τ → Switching τ
  | .code core => { σ with core := core }
  | .create q =>
    { σ with
      core := σ.core.setMem (createMem L σ.core.mem q)
      frames := Function.update σ.frames q
        [⟨tskContextAddr (L.stackSize q) (L.topOfStack q), .init, σ.core⟩] }
  | .trap =>
    { σ with
      core := execAll (osTaskTrapCode L.gRunningTask L.osMainSchedule) σ.core
      scheduling := true
      frames := match σ.on with
        | some p => σ.push p .trap σ.core
        | none => σ.frames }
  | .load q =>
    { core := execAll osTskContextLoadCode σ.core, on := some q, scheduling := false
      frames := σ.pop q }
  | .exception vecId vector esr far link =>
    let core := σ.core.takeException vector esr far
    { σ with
      core := execAll (excHandle L.handlers link vecId) core
      frames := match σ.on with
        | some p => σ.push p .exc core
        | none => σ.frames }
  | .eret =>
    { σ with
      core := execAll osContextLoad σ.core
      frames := match σ.on with
        | some p => σ.pop p
        | none => σ.frames }

theorem frames_trap (hon : σ.on = some p) :
    (exec L σ .trap).frames = σ.push p .trap σ.core := by
  simp [exec, hon]

theorem frames_exception (hon : σ.on = some p) (vecId : Fin 16)
    (vector esr far link : BitVec 64) :
    (exec L σ (.exception vecId vector esr far link)).frames =
      σ.push p .exc (σ.core.takeException vector esr far) := by
  simp [exec, hon]

theorem frames_eret (hon : σ.on = some p) : (exec L σ .eret).frames = σ.pop p := by
  simp [exec, hon]

end Switching

/-- The first load starts on the stack of `start.S`, with no frame built yet. -/
def switchMachine [DecidableEq τ] (L : StackLayout τ) : Machine (Switching τ) (SwitchAct τ) where
  Start := fun σ => σ.core.pstate.mode = el1h ∧ σ.on = none ∧ σ.scheduling = true ∧
    ∀ p, σ.frames p = []
  Allowed := Switching.Allowed L
  exec := Switching.exec L

/-! ## The frames stay -/

/-- Every frame stands in its stack, clear of the others; the last frame of a task that does not
run is where `stackPointer` says. -/
structure Kept (L : StackLayout τ) (σ : Switching τ) : Prop where
  mode : σ.core.pstate.mode = el1h
  inside : ∀ p, ∀ f ∈ σ.frames p, f.area ⊆ L.stack p
  placed : ∀ p, ∀ f ∈ σ.frames p, f.Placed L p
  clear : ∀ p, (σ.frames p).Pairwise fun f f' => Disjoint f.area f'.area
  holds : ∀ p, ∀ f ∈ σ.frames p, f.Holds L σ.core.mem
  pointer : ∀ p f rest, σ.frames p = f :: rest → f.kind ≠ .exc →
    load64 σ.core.mem (L.tcb p) = f.addr
  below : ∀ p, ∀ f ∈ (σ.frames p).tail, f.kind = .exc
  running : ∀ p, σ.on = some p → σ.scheduling = false → ∀ f ∈ σ.frames p, f.kind = .exc
  excMode : ∀ p, ∀ f ∈ σ.frames p, f.kind = .exc → (Pstate.ofSpsr f.core.spsr).mode = el1h

namespace Kept

variable {σ : Switching τ} {p q : τ} {mem : ByteMem}

/-- What a change of the memory has to leave. -/
theorem holds_of_eq (K : Kept L σ)
    (h : ∀ q, ∀ f ∈ σ.frames q, ∀ a ∈ f.area, mem a = σ.core.mem a) :
    ∀ q, ∀ f ∈ σ.frames q, f.Holds L mem :=
  fun q f hf => (K.holds q f hf).congr (h q f hf)

theorem pointer_of_eq (K : Kept L σ) (h : ∀ a ∈ L.stackPointer q, mem a = σ.core.mem a)
    {f : SavedFrame} {rest : List SavedFrame} (hf : σ.frames q = f :: rest)
    (hkind : f.kind ≠ .exc) : load64 mem (L.tcb q) = f.addr :=
  (load64_congr h).trans (K.pointer q f rest hf hkind)

/-- A frame in the room of `p` is clear of all the others. -/
theorem room_clear (K : Kept L σ) (A : L.Apart) (hroom : σ.Room L p) {f : SavedFrame}
    (hf : f ∈ σ.frames q) {a : BitVec 64} (ha : a ∈ f.area) : a ∉ Span (σ.core.sp - 288) 288 := by
  by_cases hqp : q = p
  · subst hqp
    exact Set.disjoint_right.mp (hroom.2 f hf) ha
  · exact fun h => Set.disjoint_left.mp (A.stack q p hqp) (K.inside q f hf ha) (hroom.1 h)

/-- The first frame of a task is in its stack. -/
theorem firstFrame_subset (hsize : 288 ≤ (L.stackSize q).toNat) :
    Span (tskContextAddr (L.stackSize q) (L.topOfStack q)) 288 ⊆ L.stack q := by
  intro a ha
  have hset : (L.stackSize q).setWidth 64 = BitVec.ofNat 64 (L.stackSize q).toNat := by
    apply BitVec.eq_of_toNat_eq
    simp
  have hlt := (L.stackSize q).isLt
  simp only [tskContextAddr, hset, show BitVec.ofNat 64 sizeofTskContext = 288 from rfl,
    StackLayout.stack, mem_span] at ha ⊢
  bv_omega

theorem createMem_of_notMem {a : BitVec 64} (hptr : a ∉ L.stackPointer q)
    (hframe : a ∉ Span (tskContextAddr (L.stackSize q) (L.topOfStack q)) 288) :
    Switching.createMem L mem q a = mem a := by
  rw [Switching.createMem, store64_of_notMem hptr, osTskContextInit]
  exact storeWords_of_notMem (show 8 * 36 ≤ 2 ^ 64 by decide) hframe

/-- The load of the last frame of `q`. -/
theorem load_restored (K : Kept L σ) {f : SavedFrame} {rest : List SavedFrame}
    (hx0 : σ.core.x 0 = L.tcb q) (hf : σ.frames q = f :: rest) (hkind : f.kind ≠ .exc) :
    f.Restored L q (execAll osTskContextLoadCode σ.core) ∧
      (execAll osTskContextLoadCode σ.core).pstate.mode = el1h ∧
      (execAll osTskContextLoadCode σ.core).mem = σ.core.mem := by
  have hmem : f ∈ σ.frames q := by
    rw [hf]
    exact List.mem_cons_self
  have hptr := K.pointer q f rest hf hkind
  have hholds := K.holds q f hmem
  have hplaced := K.placed q f hmem
  rw [← hx0] at hptr
  obtain ⟨addr, kind, core⟩ := f
  cases kind with
  | exc => exact absurd rfl hkind
  | init =>
    have haddr : addr = tskContextAddr (L.stackSize q) (L.topOfStack q) := hplaced
    subst haddr
    obtain ⟨hx, helr, hpc, hsp, hmode, hmem'⟩ := execAll_firstLoad K.mode hptr hholds
    exact ⟨⟨hx, helr, hpc, hsp, hmode⟩, hmode, hmem'⟩
  | trap =>
    obtain ⟨far, esr, hwords⟩ := hholds
    have H := execAll_osTskContextLoadCode K.mode hptr hwords (by rw [Pstate.ofSpsr_toSpsr])
    obtain ⟨hx, hsp, _, hpc, hpstate, hmem'⟩ := H
    rw [Pstate.ofSpsr_toSpsr] at hpstate
    refine ⟨⟨fun n hn => (hx n).trans (trapGet_x _ _ hn), ?_, hpc, hpstate⟩,
      congrArg Pstate.mode hpstate, hmem'⟩
    · have haddr : addr = core.sp - 288 := hplaced
      rw [hsp, haddr]
      bv_omega

/-- The end of a dispatcher, at the last frame of `p`. -/
theorem eret_restored (K : Kept L σ) {f : SavedFrame} {rest : List SavedFrame}
    (hf : σ.frames p = f :: rest) (hkind : f.kind = .exc) (hsp : σ.core.sp = f.addr) :
    f.Restored L p (execAll osContextLoad σ.core) ∧
      (execAll osContextLoad σ.core).pstate.mode = el1h ∧
      (execAll osContextLoad σ.core).mem = σ.core.mem := by
  have hmem : f ∈ σ.frames p := by
    rw [hf]
    exact List.mem_cons_self
  have hholds := K.holds p f hmem
  have hplaced := K.placed p f hmem
  have hmode := K.excMode p f hmem hkind
  obtain ⟨addr, kind, core⟩ := f
  obtain rfl : kind = .exc := hkind
  obtain rfl : σ.core.sp = addr := hsp
  obtain ⟨hx, hbank, helr, hspsr, hpc, hpstate, hmem'⟩ := execAll_osContextLoad hholds
  refine ⟨⟨hx, ?_, helr, hspsr, hpc, hpstate⟩, ?_, hmem'⟩
  · have haddr : σ.core.sp = core.sp - 288 := hplaced
    rw [Core.sp, hpstate, hmode, hbank, K.mode, Function.update_self, haddr]
    bv_omega
  · rw [hpstate]
    exact hmode

variable [DecidableEq τ]

/-- What holds of the frames that `p` has now, and of those that the others had before, holds of
all frames. -/
theorem forall_frames {frames : τ → List SavedFrame} {l : List SavedFrame}
    {Q : τ → SavedFrame → Prop} (hself : frames p = l)
    (hother : ∀ q, q ≠ p → frames q = σ.frames q) (hnew : ∀ f ∈ l, Q p f)
    (hold : ∀ q, q ≠ p → ∀ f ∈ σ.frames q, Q q f) : ∀ q, ∀ f ∈ frames q, Q q f := by
  intro q f hf
  by_cases hq : q = p
  · subst hq
    rw [hself] at hf
    exact hnew f hf
  · rw [hother q hq] at hf
    exact hold q hq f hf

/-- **A new frame** of `p`, in its room. -/
theorem push (K : Kept L σ) (A : L.Apart) (hroom : σ.Room L p) (kind : FrameKind)
    (core : Core) {σ' : Switching τ} (hframes : σ'.frames = σ.push p kind core)
    (hall : ∀ f ∈ σ.frames p, f.kind = .exc) (hmode : σ'.core.pstate.mode = el1h)
    (hmem : ∀ a ∉ Span (σ.core.sp - 288) 288, a ∉ L.stackPointer p →
      σ'.core.mem a = σ.core.mem a)
    (hholds : SavedFrame.Holds L σ'.core.mem ⟨σ.core.sp - 288, kind, core⟩)
    (hplaced : SavedFrame.Placed L p ⟨σ.core.sp - 288, kind, core⟩)
    (hptr : kind ≠ .exc → load64 σ'.core.mem (L.tcb p) = σ.core.sp - 288)
    (hrun : σ'.on = some p ∧ (σ'.scheduling = false → kind = .exc))
    (hexc : kind = .exc → (Pstate.ofSpsr core.spsr).mode = el1h) : Kept L σ' := by
  have hself : σ'.frames p = ⟨σ.core.sp - 288, kind, core⟩ :: σ.frames p := by
    rw [hframes]
    exact Function.update_self ..
  have hother : ∀ q, q ≠ p → σ'.frames q = σ.frames q := fun q h => by
    rw [hframes]
    exact Function.update_of_ne h ..
  have hkeep : ∀ q, ∀ f ∈ σ.frames q, ∀ a ∈ f.area, σ'.core.mem a = σ.core.mem a :=
    fun q f hf a ha => hmem a (K.room_clear A hroom hf ha)
      fun h => Set.disjoint_left.mp (A.beside p q) h (K.inside q f hf ha)
  -- the frames of `p` are the new one and those it had
  have hpush : ∀ {Q : τ → SavedFrame → Prop}, Q p ⟨σ.core.sp - 288, kind, core⟩ →
      (∀ q, ∀ f ∈ σ.frames q, Q q f) → ∀ q, ∀ f ∈ σ'.frames q, Q q f := fun hnew hold =>
    forall_frames hself hother (List.forall_mem_cons.mpr ⟨hnew, hold p⟩) fun q _ => hold q
  refine ⟨hmode, hpush hroom.1 K.inside, hpush hplaced K.placed, fun q => ?_,
    hpush hholds (K.holds_of_eq hkeep), fun q f rest hf hkind => ?_, fun q f hf => ?_,
    fun q hon hsch f hf => ?_, hpush hexc K.excMode⟩
  · by_cases hq : q = p
    · subst hq
      rw [hself]
      exact List.pairwise_cons.mpr ⟨hroom.2, K.clear q⟩
    · rw [hother q hq]
      exact K.clear q
  · by_cases hq : q = p
    · subst hq
      rw [hself] at hf
      obtain ⟨rfl, rfl⟩ := List.cons.inj hf
      exact hptr hkind
    · rw [hother q hq] at hf
      refine K.pointer_of_eq (fun a ha => hmem a ?_ ?_) hf hkind
      · exact fun h => Set.disjoint_left.mp (A.beside q p) ha (hroom.1 h)
      · exact Set.disjoint_left.mp (A.stackPointer q p hq) ha
  · by_cases hq : q = p
    · subst hq
      rw [hself] at hf
      exact hall f hf
    · rw [hother q hq] at hf
      exact K.below q f hf
  · have hq : q = p := Option.some.inj (hon.symm.trans hrun.1)
    subst hq
    rw [hself] at hf
    rcases List.mem_cons.mp hf with rfl | hf
    · exact hrun.2 hsch
    · exact hall f hf

/-- **The last frame of `q` is gone.** -/
theorem pop (K : Kept L σ) {f : SavedFrame} {rest : List SavedFrame} (hf : σ.frames q = f :: rest)
    {σ' : Switching τ} (hframes : σ'.frames = σ.pop q) (hon : σ'.on = some q)
    (hmode : σ'.core.pstate.mode = el1h) (hmem : σ'.core.mem = σ.core.mem) : Kept L σ' := by
  have hself : σ'.frames q = rest := by
    rw [hframes, Switching.pop, Function.update_self, hf]
    rfl
  have hother : ∀ {p}, p ≠ q → σ'.frames p = σ.frames p := fun h => by
    rw [hframes]
    exact Function.update_of_ne h ..
  have hsub : ∀ p, ∀ f' ∈ σ'.frames p, f' ∈ σ.frames p := fun p f' h => by
    by_cases hp : p = q
    · subst hp
      rw [hself] at h
      rw [hf]
      exact List.mem_cons_of_mem _ h
    · rwa [hother hp] at h
  have hrest : ∀ f' ∈ rest, f'.kind = .exc := by
    have h := K.below q
    rw [hf] at h
    exact h
  refine ⟨hmode, fun p f' h => K.inside p f' (hsub p f' h),
    fun p f' h => K.placed p f' (hsub p f' h), fun p => ?_, fun p f' h => ?_,
    fun p f' rest' h hkind => ?_, fun p f' h => ?_, fun p hp _ f' h => ?_,
    fun p f' h => K.excMode p f' (hsub p f' h)⟩
  · by_cases hp : p = q
    · subst hp
      have h := K.clear p
      rw [hf] at h
      rw [hself]
      exact (List.pairwise_cons.mp h).2
    · rw [hother hp]
      exact K.clear p
  · rw [hmem]
    exact K.holds p f' (hsub p f' h)
  · by_cases hp : p = q
    · subst hp
      rw [hself] at h
      exact absurd (hrest f' (by rw [h]; exact List.mem_cons_self)) hkind
    · rw [hother hp] at h
      rw [hmem]
      exact K.pointer p f' rest' h hkind
  · by_cases hp : p = q
    · subst hp
      rw [hself] at h
      exact hrest f' (List.mem_of_mem_tail h)
    · rw [hother hp] at h
      exact K.below p f' h
  · obtain rfl : q = p := Option.some.inj (hon.symm.trans hp)
    rw [hself] at h
    exact hrest f' h

/-! ### The steps -/

theorem code (K : Kept L σ) {core : Core} (h : Switching.Allowed L σ (.code core)) :
    Kept L (Switching.exec L σ (.code core)) := by
  obtain ⟨hmode, hmem⟩ := h
  have hkeep : ∀ a, ¬ σ.Writable L a → core.mem a = σ.core.mem a :=
    fun a ha => by_contra fun hne => ha (hmem a hne)
  refine ⟨hmode, K.inside, K.placed, K.clear, K.holds_of_eq fun q f hf a ha => hkeep a fun hw => ?_,
    fun q f rest hf hkind => K.pointer_of_eq (fun a ha => hkeep a fun hw => hw.2.2 q ha) hf hkind,
    K.below, K.running, K.excMode⟩
  by_cases hon : σ.on = some q
  · exact hw.2.1 q hon f hf ha
  · exact hw.1 q hon (K.inside q f hf ha)

theorem trap (K : Kept L σ) (A : L.Apart) (h : Switching.Allowed L σ .trap) :
    Kept L (Switching.exec L σ .trap) := by
  obtain ⟨p, hon, hsch, hroom, htcb⟩ := h
  have hd : Disjoint (Span (σ.core.sp - 288) 288)
      (Span (load64 σ.core.mem L.gRunningTask) 8) := by
    rw [htcb]
    exact ((A.beside p p).symm).mono_left hroom.1
  have T := execAll_osTaskTrapCode L.gRunningTask L.osMainSchedule σ.core hd
  refine K.push A hroom .trap σ.core (Switching.frames_trap hon)
    (K.running p hon hsch) (T.pstate ▸ K.mode) (fun a ha hb => T.frame a ha ?_) T.words rfl
    (fun _ => ?_) ⟨hon, fun h => absurd (show true = false from h) (by decide)⟩
    (fun h => absurd h (by decide))
  · rw [htcb]
    exact hb
  · rw [← htcb]
    exact T.saved

theorem exception (K : Kept L σ) (A : L.Apart) {vecId : Fin 16}
    {vector esr far link : BitVec 64}
    (h : Switching.Allowed L σ (.exception vecId vector esr far link)) :
    Kept L (Switching.exec L σ (.exception vecId vector esr far link)) := by
  obtain ⟨p, hon, hsch, hroom⟩ := h
  obtain ⟨c, hc⟩ : ∃ c, σ.core.takeException vector esr far = c := ⟨_, rfl⟩
  have hsp : c.sp = σ.core.sp := by
    rw [← hc, Core.sp, Core.sp, K.mode]
    rfl
  have hmem : c.mem = σ.core.mem := by
    rw [← hc]
    rfl
  have hmode : c.pstate.mode = el1h := by
    rw [← hc]
    rfl
  have hspsr : (Pstate.ofSpsr c.spsr).mode = el1h := by
    rw [← hc]
    change (Pstate.ofSpsr σ.core.pstate.toSpsr).mode = el1h
    rw [Pstate.ofSpsr_toSpsr]
    exact K.mode
  have E := execAll_excHandle L.handlers link vecId c
  have hcore : (Switching.exec L σ (.exception vecId vector esr far link)).core =
      execAll (excHandle L.handlers link vecId) c := by
    rw [Switching.exec, hc]
  have hwords := E.words
  have hframe := E.frame
  rw [hsp] at hwords hframe
  refine K.push A hroom .exc c ?_ (K.running p hon hsch) ?_
    (fun a ha _ => ?_) ?_ ?_ (fun h => absurd rfl h) ⟨hon, fun _ => rfl⟩ (fun _ => hspsr)
  · rw [Switching.frames_exception hon, hc]
  · rw [hcore, E.pstate, hmode]
  · rw [hcore, hframe a ha, hmem]
  · rw [hcore]
    exact hwords
  · change σ.core.sp - 288 = c.sp - 288
    rw [hsp]

theorem load (K : Kept L σ) (h : Switching.Allowed L σ (.load q)) :
    Kept L (Switching.exec L σ (.load q)) := by
  obtain ⟨-, hx0, f, rest, hf, hkind⟩ := h
  obtain ⟨-, hmode, hmem⟩ := K.load_restored hx0 hf hkind
  exact K.pop hf rfl rfl hmode hmem

theorem eret (K : Kept L σ) (h : Switching.Allowed L σ .eret) :
    Kept L (Switching.exec L σ .eret) := by
  obtain ⟨p, f, rest, hon, hsch, hf, hsp⟩ := h
  have hkind : f.kind = .exc := K.running p hon hsch f (by rw [hf]; exact List.mem_cons_self)
  obtain ⟨-, hmode, hmem⟩ := K.eret_restored hf hkind hsp
  exact K.pop hf (Switching.frames_eret hon) hon hmode hmem

theorem create (K : Kept L σ) (A : L.Apart) (h : Switching.Allowed L σ (.create q)) :
    Kept L (Switching.exec L σ (.create q)) := by
  obtain ⟨hon, hsize⟩ := h
  obtain ⟨f, hf⟩ : ∃ f : SavedFrame,
    ⟨tskContextAddr (L.stackSize q) (L.topOfStack q), .init, σ.core⟩ = f := ⟨_, rfl⟩
  obtain ⟨σ', hσ'⟩ : ∃ σ', Switching.exec L σ (.create q) = σ' := ⟨_, rfl⟩
  have hcore : σ'.core = σ.core.setMem (Switching.createMem L σ.core.mem q) := by
    rw [← hσ']
    rfl
  have hself : σ'.frames q = [f] := by
    rw [← hσ', ← hf]
    exact Function.update_self ..
  have hother : ∀ p, p ≠ q → σ'.frames p = σ.frames p := fun p h => by
    rw [← hσ']
    exact Function.update_of_ne h ..
  have hsub : f.area ⊆ L.stack q := by
    rw [← hf]
    exact firstFrame_subset hsize
  have hmem : ∀ a ∉ L.stackPointer q, a ∉ f.area → σ'.core.mem a = σ.core.mem a := by
    rw [hcore, ← hf]
    exact fun a hptr hframe => createMem_of_notMem hptr hframe
  have hkeep : ∀ p, p ≠ q → ∀ f' ∈ σ.frames p, ∀ a ∈ f'.area, σ'.core.mem a = σ.core.mem a :=
    fun p hp f' hf' a ha => by
      have hin := K.inside p f' hf' ha
      exact hmem a (Set.disjoint_right.mp (A.beside q p) hin)
        fun h => Set.disjoint_left.mp (A.stack p q hp) hin (hsub h)
  have hholds : f.Holds L σ'.core.mem := by
    rw [hcore, ← hf]
    have hwords : WordsAt (osTskContextInit σ.core.mem (L.stackSize q) (L.topOfStack q)
        L.osTskEntry).1 (tskContextAddr (L.stackSize q) (L.topOfStack q))
        (tskContextInit L.osTskEntry).words :=
      wordsAt_storeWords (show 8 * 36 ≤ 2 ^ 64 by decide)
    exact hwords.congr (show 8 * 36 ≤ 2 ^ 64 by decide) fun a ha =>
      store64_of_notMem (Set.disjoint_right.mp (A.beside q q) (firstFrame_subset hsize ha))
  have hon' : ∀ p, σ'.on = some p → p ≠ q := fun p hp hpq => hon (by
    rw [← hσ'] at hp
    exact hpq ▸ hp)
  rw [hσ']
  -- the only frame of `q` is the first one
  have hfirst : ∀ {Q : τ → SavedFrame → Prop}, Q q f →
      (∀ p, p ≠ q → ∀ f' ∈ σ.frames p, Q p f') → ∀ p, ∀ f' ∈ σ'.frames p, Q p f' := fun hnew hold =>
    forall_frames hself hother (List.forall_mem_singleton.mpr hnew) hold
  refine ⟨hcore ▸ K.mode, hfirst hsub fun p _ => K.inside p, hfirst ?_ fun p _ => K.placed p,
    fun p => ?_, hfirst hholds fun p hp f' hf' => (K.holds p f' hf').congr (hkeep p hp f' hf'),
    fun p f' rest hf' hkind => ?_, fun p f' hf' => ?_, fun p hp hsch f' hf' => ?_,
    hfirst (fun hkind => ?_) fun p _ => K.excMode p⟩
  · rw [← hf]
    rfl
  · by_cases hp : p = q
    · subst hp
      rw [hself]
      exact List.pairwise_singleton _ f
    · rw [hother p hp]
      exact K.clear p
  · by_cases hp : p = q
    · subst hp
      rw [hself] at hf'
      obtain ⟨rfl, -⟩ := List.cons.inj hf'
      rw [hcore, ← hf]
      exact load64_store64 ..
    · rw [hother p hp] at hf'
      refine K.pointer_of_eq (fun a ha => hmem a ?_ ?_) hf' hkind
      · exact Set.disjoint_left.mp (A.stackPointer p q hp) ha
      · exact fun h => Set.disjoint_left.mp (A.beside p q) ha (hsub h)
  · by_cases hp : p = q
    · subst hp
      rw [hself] at hf'
      cases hf'
    · rw [hother p hp] at hf'
      exact K.below p f' hf'
  · have hne := hon' p hp
    rw [hother p hne] at hf'
    rw [← hσ'] at hp hsch
    exact K.running p hp hsch f' hf'
  · rw [← hf] at hkind
    cases hkind

/-- **One step.** -/
theorem step (K : Kept L σ) (A : L.Apart) {a : SwitchAct τ} (h : Switching.Allowed L σ a) :
    Kept L (Switching.exec L σ a) := by
  cases a with
  | code core => exact K.code h
  | create q => exact K.create A h
  | trap => exact K.trap A h
  | load q => exact K.load h
  | exception vecId vector esr far link => exact K.exception A h
  | eret => exact K.eret h

theorem start (h : (switchMachine L).Start σ) : Kept L σ := by
  obtain ⟨hmode, hon, -, hnone⟩ := h
  have hmem : ∀ {p f}, ¬ f ∈ σ.frames p := fun {p f} h => by
    rw [hnone p] at h
    cases h
  refine ⟨hmode, fun _ _ h => absurd h hmem, fun _ _ h => absurd h hmem, fun p => ?_,
    fun _ _ h => absurd h hmem, fun p f rest h => ?_,
    fun p f h => absurd (List.mem_of_mem_tail h) hmem, fun p hp => ?_,
    fun _ _ h => absurd h hmem⟩
  · rw [hnone p]
    exact List.Pairwise.nil
  · rw [hnone p] at h
    cases h
  · rw [hon] at hp
    cases hp

variable {hist : List (Switching τ × SwitchAct τ)}

theorem of_run (A : L.Apart) (r : Run (switchMachine L) hist σ) : Kept L σ :=
  r.invariant (Kept L) (fun _ => start) fun _ _ K h => K.step A h

theorem of_mem (A : L.Apart) (r : Run (switchMachine L) hist σ) : ∀ e ∈ hist, Kept L e.1 :=
  r.invariant_mem (Kept L) (fun _ => start) fun _ _ K h => K.step A h

end Kept

/-! ## What a load gives back -/

section runs
variable {hist : List (Switching τ × SwitchAct τ)} {σ : Switching τ} {q : τ}

/-- Since `q` was in the state `core` of its last trap, it has not been loaded nor built again. -/
def Trapped (hist : List (Switching τ × SwitchAct τ)) (q : τ) (core : Core) : Prop :=
  ∃ pre σ mid, hist = pre ++ (σ, .trap) :: mid ∧ σ.on = some q ∧ σ.core = core ∧
    ∀ e ∈ mid, e.2 ≠ .load q ∧ e.2 ≠ .create q

theorem not_trapped_nil {core : Core} :
    ¬ Trapped ([] : List (Switching τ × SwitchAct τ)) q core := by
  rintro ⟨pre, σ, mid, h, -⟩
  simp at h

theorem Trapped.of_snoc {core : Core} {a : SwitchAct τ} (h : Trapped (hist ++ [(σ, a)]) q core) :
    (a = .trap ∧ σ.on = some q ∧ σ.core = core) ∨
      (Trapped hist q core ∧ a ≠ .load q ∧ a ≠ .create q) := by
  obtain ⟨pre, σ₀, mid, heq, hon, hcore, hmid⟩ := h
  rcases List.eq_nil_or_concat mid with rfl | ⟨mid, e, rfl⟩
  · left
    obtain ⟨-, hlast⟩ := List.append_inj' heq rfl
    obtain ⟨rfl, rfl⟩ := Prod.mk.inj (List.cons.inj hlast).1
    exact ⟨rfl, hon, hcore⟩
  · right
    have heq' : hist ++ [(σ, a)] = (pre ++ (σ₀, .trap) :: mid) ++ [e] := by simp [heq]
    obtain ⟨rfl, hlast⟩ := List.append_inj' heq' rfl
    obtain rfl := (List.cons.inj hlast).1
    exact ⟨⟨pre, σ₀, mid, rfl, hon, hcore, fun e he => hmid e (by simp [he])⟩,
      hmid (σ, a) (by simp)⟩

variable [DecidableEq τ]

/-- The last frame of a task is that of its trap, until it is loaded. -/
theorem frames_of_trapped (r : Run (switchMachine L) hist σ) :
    ∀ q core, Trapped hist q core →
      (∃ rest, σ.frames q = ⟨core.sp - 288, .trap, core⟩ :: rest) ∧
        (σ.on = some q → σ.scheduling = true) := by
  refine r.invariant_hist (fun hist σ => ∀ q core, Trapped hist q core →
    (∃ rest, σ.frames q = ⟨core.sp - 288, .trap, core⟩ :: rest) ∧
      (σ.on = some q → σ.scheduling = true)) (fun σ _ q core h => absurd h not_trapped_nil) ?_
  intro hist σ a _ ih ha q core h
  rcases h.of_snoc with ⟨rfl, hon, rfl⟩ | ⟨h, hload, hcreate⟩
  · refine ⟨⟨σ.frames q, ?_⟩, fun _ => rfl⟩
    exact (congrFun (Switching.frames_trap (L := L) hon) q).trans (Function.update_self ..)
  · obtain ⟨⟨rest, hframes⟩, hsch⟩ := ih q core h
    -- a task that runs is not `q`
    have hne : ∀ {p}, σ.on = some p → σ.scheduling = false → q ≠ p := fun hp hs hqp => by
      subst hqp
      rw [hsch hp] at hs
      cases hs
    cases a with
    | code core' => exact ⟨⟨rest, hframes⟩, hsch⟩
    | create q' =>
      have hq : q ≠ q' := fun h => hcreate (h ▸ rfl)
      exact ⟨⟨rest, (Function.update_of_ne hq ..).trans hframes⟩, hsch⟩
    | trap =>
      obtain ⟨p, hon, hs, -⟩ := ha
      refine ⟨⟨rest, (congrFun (Switching.frames_trap (L := L) hon) q).trans ?_⟩, fun _ => rfl⟩
      exact (Function.update_of_ne (hne hon hs) ..).trans hframes
    | load q' =>
      have hq : q ≠ q' := fun h => hload (h ▸ rfl)
      exact ⟨⟨rest, (Function.update_of_ne hq ..).trans hframes⟩,
        fun h => absurd (Option.some.inj h).symm hq⟩
    | exception vecId vector esr far link =>
      obtain ⟨p, hon, hs, -⟩ := ha
      refine ⟨⟨rest, (congrFun (Switching.frames_exception (L := L) hon ..) q).trans ?_⟩, hsch⟩
      exact (Function.update_of_ne (hne hon hs) ..).trans hframes
    | eret =>
      obtain ⟨p, f, rest', hon, hs, -⟩ := ha
      refine ⟨⟨rest, (congrFun (Switching.frames_eret (L := L) hon) q).trans ?_⟩, hsch⟩
      exact (Function.update_of_ne (hne hon hs) ..).trans hframes

/-- The exception for which the frame `f` of `p` was made, on top of `rest`. -/
def TakenFor (hist : List (Switching τ × SwitchAct τ)) (p : τ) (f : SavedFrame)
    (rest : List SavedFrame) : Prop :=
  ∃ σ vecId vector esr far link, (σ, .exception vecId vector esr far link) ∈ hist ∧
    σ.on = some p ∧ σ.frames p = rest ∧ f.core = σ.core.takeException vector esr far

omit [DecidableEq τ] in
theorem TakenFor.snoc {f : SavedFrame} {rest : List SavedFrame} (h : TakenFor hist q f rest)
    (e : Switching τ × SwitchAct τ) : TakenFor (hist ++ [e]) q f rest := by
  obtain ⟨σ, vecId, vector, esr, far, link, hmem, h⟩ := h
  exact ⟨σ, vecId, vector, esr, far, link, List.mem_append_left _ hmem, h⟩

theorem frames_taken (r : Run (switchMachine L) hist σ) :
    ∀ p f rest, f :: rest <:+ σ.frames p → f.kind = .exc → TakenFor hist p f rest := by
  refine r.invariant_hist (fun hist σ => ∀ p f rest, f :: rest <:+ σ.frames p →
    f.kind = .exc → TakenFor hist p f rest) (fun σ h p f rest hf => ?_) ?_
  · rw [h.2.2.2 p] at hf
    cases List.suffix_nil.mp hf
  intro hist σ a _ ih ha p f rest hf hkind
  -- frames that were there before
  have hold : f :: rest <:+ σ.frames p → TakenFor (hist ++ [(σ, a)]) p f rest :=
    fun h => (ih p f rest h hkind).snoc _
  have hpush : ∀ {p' kind core}, f :: rest <:+ σ.push p' kind core p →
      (p = p' ∧ f = ⟨σ.core.sp - 288, kind, core⟩ ∧ rest = σ.frames p) ∨
        f :: rest <:+ σ.frames p := fun {p' kind core} h => by
    by_cases hp : p = p'
    · subst hp
      rw [Switching.push, Function.update_self] at h
      rcases List.suffix_cons_iff.mp h with h | h
      · exact Or.inl ⟨rfl, (List.cons.inj h).1, (List.cons.inj h).2⟩
      · exact Or.inr h
    · rw [Switching.push, Function.update_of_ne hp] at h
      exact Or.inr h
  have hpop : ∀ {p'}, f :: rest <:+ σ.pop p' p → f :: rest <:+ σ.frames p := fun {p'} h => by
    by_cases hp : p = p'
    · subst hp
      rw [Switching.pop, Function.update_self] at h
      exact h.trans (List.tail_suffix _)
    · rwa [Switching.pop, Function.update_of_ne hp] at h
  cases a with
  | code core => exact hold hf
  | create q =>
    by_cases hp : p = q
    · subst hp
      change f :: rest <:+ Function.update σ.frames p
        [⟨tskContextAddr (L.stackSize p) (L.topOfStack p), .init, σ.core⟩] p at hf
      rw [Function.update_self] at hf
      rcases List.suffix_cons_iff.mp hf with h | h
      · rw [(List.cons.inj h).1] at hkind
        cases hkind
      · cases List.suffix_nil.mp h
    · change f :: rest <:+ Function.update σ.frames q
        [⟨tskContextAddr (L.stackSize q) (L.topOfStack q), .init, σ.core⟩] p at hf
      rw [Function.update_of_ne hp] at hf
      exact hold hf
  | trap =>
    obtain ⟨p', hon, -⟩ := ha
    change f :: rest <:+ (Switching.exec L σ .trap).frames p at hf
    rw [Switching.frames_trap hon] at hf
    rcases hpush hf with ⟨-, rfl, -⟩ | h
    · cases hkind
    · exact hold h
  | load q => exact hold (hpop hf)
  | exception vecId vector esr far link =>
    obtain ⟨p', hon, -⟩ := ha
    change f :: rest <:+
      (Switching.exec L σ (.exception vecId vector esr far link)).frames p at hf
    rw [Switching.frames_exception hon] at hf
    rcases hpush hf with ⟨rfl, rfl, rfl⟩ | h
    · exact ⟨σ, vecId, vector, esr, far, link, by simp, hon, rfl, rfl⟩
    · exact hold h
  | eret =>
    obtain ⟨p', f', rest', hon, -⟩ := ha
    change f :: rest <:+ (Switching.exec L σ .eret).frames p at hf
    rw [Switching.frames_eret hon] at hf
    exact hold (hpop hf)

/-- A load of `q` gives back the state of its last trap. The end of a dispatcher gives back the
state of the exception that was taken with the same frames below. -/
def GivesBack (L : StackLayout τ) (pre : List (Switching τ × SwitchAct τ))
    (e : Switching τ × SwitchAct τ) : Prop :=
  let core := (Switching.exec L e.1 e.2).core
  (∀ q s, e.2 = .load q → Trapped pre q s →
    (∀ n : Fin 31, 2 ≤ n → core.x n = s.x n) ∧ core.sp = s.sp ∧ core.pc = s.x 30 ∧
      core.pstate = s.pstate) ∧
  ∀ p f rest, e.2 = .eret → e.1.on = some p → e.1.frames p = f :: rest →
    ∃ σ vecId vector esr far link, (σ, .exception vecId vector esr far link) ∈ pre ∧
      σ.on = some p ∧ σ.frames p = rest ∧ (∀ n, core.x n = σ.core.x n) ∧
      core.sp = σ.core.sp ∧ core.pc = σ.core.pc ∧ core.pstate = σ.core.pstate

/-- **Any sequence of switches.** -/
theorem gives_back (A : L.Apart) (r : Run (switchMachine L) hist σ) :
    Always (GivesBack L) hist := by
  refine r.invariant_hist (fun hist _ => Always (GivesBack L) hist)
    (fun _ _ => always_nil _) fun hist σ a r ih ha => (always_snoc _ _ _).mpr ⟨ih, ?_, ?_⟩
  · intro q s hload htrap
    obtain rfl : a = .load q := hload
    obtain ⟨-, hx0, -⟩ := ha
    obtain ⟨⟨rest, hframes⟩, -⟩ := frames_of_trapped r q s htrap
    have hkind : (⟨s.sp - 288, .trap, s⟩ : SavedFrame).kind ≠ .exc := by simp
    obtain ⟨⟨hx, hsp, hpc, hpstate⟩, -⟩ := (Kept.of_run A r).load_restored hx0 hframes hkind
    obtain ⟨pre, σ₀, mid, rfl, -, rfl, -⟩ := htrap
    have hmode : σ₀.core.pstate.mode = el1h := (Kept.of_mem A r (σ₀, .trap) (by simp)).mode
    refine ⟨hx, hsp, hpc, hpstate.trans ?_⟩
    change ({ σ₀.core.pstate with mode := el1h } : Pstate) = σ₀.core.pstate
    rw [← hmode]
  · intro p f rest heret hon hframes
    obtain rfl : a = .eret := heret
    have K := Kept.of_run A r
    obtain ⟨p', f', rest', hon', hsch, hframes', hsp⟩ := ha
    obtain rfl : p = p' := Option.some.inj (hon.symm.trans hon')
    obtain ⟨rfl, rfl⟩ := List.cons.inj (hframes.symm.trans hframes')
    have hkind := K.running p hon hsch f (by rw [hframes']; exact List.mem_cons_self)
    have hres := (K.eret_restored hframes' hkind hsp).1
    obtain ⟨σ₀, vecId, vector, esr, far, link, hmem, hon₀, hrest, hcore⟩ :=
      frames_taken r p f rest (by rw [hframes']) hkind
    have hmode : σ₀.core.pstate.mode = el1h := (Kept.of_mem A r _ hmem).mode
    refine ⟨σ₀, vecId, vector, esr, far, link, hmem, hon₀, hrest, ?_⟩
    rw [SavedFrame.Restored, hkind, hcore] at hres
    obtain ⟨hx, hsp', -, -, hpc, hpstate⟩ := hres
    refine ⟨hx, hsp'.trans ?_, hpc, hpstate.trans (Pstate.ofSpsr_toSpsr _)⟩
    rw [Core.sp, Core.sp, hmode]
    rfl

end runs

/-! ## Saving and loading -/

/-- What the frames are good for, one by one and in any sequence. -/
structure ContextKept [DecidableEq τ] (L : StackLayout τ) : Prop where
  /-- `OsTaskTrap`, and `OsTskContextLoad` of the same task. -/
  trap : ∀ s s₂ : Core,
    Disjoint (Span (s.sp - 288) 288) (Span (load64 s.mem L.gRunningTask) 8) →
    (∀ a ∈ Span (s.sp - 288) 288 ∪ Span (load64 s.mem L.gRunningTask) 8,
      s₂.mem a = (execAll (osTaskTrapCode L.gRunningTask L.osMainSchedule) s).mem a) →
    s₂.x 0 = load64 s.mem L.gRunningTask → s₂.pstate.mode = el1h →
    let s₃ := execAll osTskContextLoadCode s₂
    (∀ n : Fin 31, 2 ≤ n → s₃.x n = s.x n) ∧ s₃.sp = s.sp ∧ s₃.pc = s.x 30 ∧
      s₃.pstate = { s.pstate with mode := el1h }
  /-- The entry of an exception, and the end of its dispatcher. -/
  exception : ∀ (link : BitVec 64) (vecId : Fin 16) (s s₂ : Core),
    (∀ a ∈ Span (s.sp - 256) 256,
      s₂.mem a = (execAll (excHandle L.handlers link vecId) s).mem a) →
    s₂.sp = (execAll (excHandle L.handlers link vecId) s).sp →
    s₂.pstate.mode = s.pstate.mode →
    let s₃ := execAll osContextLoad s₂
    let excRegs := excRegInfoAt s₂.mem (s.sp - 288)
    (∀ n, s₃.x n = s.x n) ∧ s₃.bank (s.pstate.mode.getLsbD 0) = s.sp ∧
      s₃.elr = excRegs.elr ∧ s₃.spsr = excRegs.spsr ∧ s₃.pc = excRegs.elr ∧
      s₃.pstate = .ofSpsr excRegs.spsr
  /-- The frame of a switch is a `struct TskContext`. -/
  trapLayout : ∀ s : Core,
    Disjoint (Span (s.sp - 288) 288) (Span (load64 s.mem L.gRunningTask) 8) →
    let s' := execAll (osTaskTrapCode L.gRunningTask L.osMainSchedule) s
    load64 s'.mem (load64 s.mem L.gRunningTask) = s.sp - 288 ∧
    ∃ far esr, WordsAt s'.mem (s.sp - 288) (tskContextOf (s.x 30)
      ({ s.pstate with mode := el1h } : Pstate).toSpsr far esr (trapGet L.gRunningTask s)).words
  /-- The frame of an exception is both, and the handler is called with its address. -/
  excLayout : ∀ (link : BitVec 64) (vecId : Fin 16) (s : Core),
    let s' := execAll (excHandle L.handlers link vecId) s
    WordsAt s'.mem (s'.x 1) (tskContextOf s.elr s.spsr s.far s.esr s.get).words ∧
    excRegInfoAt s'.mem (s'.x 1) =
      { elr := s.elr, spsr := s.spsr, far := s.far, esr := s.esr, xzr := 0
        xregs := fun i => s.x (Fin.rev i) } ∧
    svcCall (excRegInfoAt s'.mem (s'.x 1)) =
      if (s.esr &&& 0xfc000000) >>> 26 = 0x15 then some ((s.x 8).setWidth 32, s.x 0) else none
  /-- The frame that `OsTskContextInit` builds. -/
  firstLoad : ∀ (s : Core) (mem : ByteMem) (stackSize : BitVec 32) (topStack : BitVec 64),
    (∀ a ∈ Span (tskContextAddr stackSize topStack) 288,
      s.mem a = (osTskContextInit mem stackSize topStack L.osTskEntry).1 a) →
    load64 s.mem (s.x 0) = tskContextAddr stackSize topStack → s.pstate.mode = el1h →
    let s' := execAll osTskContextLoadCode s
    s'.x 30 = L.osTskEntry ∧ s'.elr = L.osTskEntry ∧ s'.pc = L.osTskEntry ∧
      s'.sp = topStack + stackSize.setWidth 64
  runs : ∀ hist σ, Run (switchMachine L) hist σ → Always (GivesBack L) hist

/-- **Contexts are kept.** -/
theorem contexts_kept [DecidableEq τ] (A : L.Apart) : ContextKept L where
  trap := fun _ _ hd hframe hx0 hmode => osTaskTrap_roundTrip hd hframe hx0 hmode
  exception := fun _ _ _ _ hregs hsp hmode => exception_roundTrip hregs hsp hmode
  trapLayout := fun s hd => by
    have T := execAll_osTaskTrapCode L.gRunningTask L.osMainSchedule s hd
    obtain ⟨far, esr, hwords⟩ := T.words
    rw [frameWords_eq] at hwords
    exact ⟨T.saved, far, esr, hwords⟩
  excLayout := fun link vecId s => by
    have E := execAll_excHandle L.handlers link vecId s
    have hwords := E.words
    rw [← E.arg] at hwords
    refine ⟨?_, excRegInfoAt_frame hwords, svcCall_frame hwords⟩
    rw [← frameWords_eq]
    exact hwords
  firstLoad := fun s mem stackSize topStack hmem hptr hmode => by
    have hwords : WordsAt (osTskContextInit mem stackSize topStack L.osTskEntry).1
        (tskContextAddr stackSize topStack) (tskContextInit L.osTskEntry).words :=
      wordsAt_storeWords (show 8 * 36 ≤ 2 ^ 64 by decide)
    obtain ⟨hx, helr, hpc, hsp, -⟩ := execAll_firstLoad hmode hptr
      (hwords.congr (show 8 * 36 ≤ 2 ^ 64 by decide) hmem)
    exact ⟨hx, helr, hpc, hsp⟩
  runs := fun _ _ r => gives_back A r

/-- Two tasks with a stack of 4096 bytes each. -/
def twoStacks : StackLayout Bool where
  gRunningTask := 0x2000
  osMainSchedule := 0x40000000
  osTskEntry := 0x40001000
  handlers :=
    { osExcHandleEntry := 0x40002000, osExcHandleFromLowElEntry := 0x40003000
      osHwiDispatch := 0x40004000 }
  tcb := fun p => if p then 0x1000 else 0x1100
  topOfStack := fun p => if p then 0x10000 else 0x11000
  stackSize := fun _ => 4096

theorem twoStacks_apart : twoStacks.Apart where
  stack := fun p q hpq => by
    rw [Set.disjoint_left]
    intro a ha hb
    cases p <;> cases q <;> simp_all [twoStacks, StackLayout.stack, mem_span] <;> bv_omega
  stackPointer := fun p q hpq => by
    rw [Set.disjoint_left]
    intro a ha hb
    cases p <;> cases q <;> simp_all [twoStacks, StackLayout.stackPointer, mem_span] <;> bv_omega
  beside := fun p q => by
    rw [Set.disjoint_left]
    intro a ha hb
    cases p <;> cases q <;>
      simp_all [twoStacks, StackLayout.stackPointer, StackLayout.stack, mem_span] <;> bv_omega

/-- What a run of the two tasks is made of. Code sets the registers and the stack pointer, or it
makes `q` the running task and goes on to `OsTskContextLoad`. -/
inductive TwoStep
  | work (v sp : BitVec 64)
  | choose (q : Bool)
  | other (a : SwitchAct Bool)

namespace TwoStep

def workCore (core : Core) (v sp : BitVec 64) : Core :=
  { core with
    x := fun n => v + BitVec.ofNat 64 n
    bank := Function.update core.bank true sp
    pc := v
    pstate := { nzcv := 0b0110, daif := 0b0010, mode := el1h } }

def chooseCore (core : Core) (q : Bool) : Core :=
  { core with
    x := Function.update core.x 0 (twoStacks.tcb q)
    mem := store64 core.mem twoStacks.gRunningTask (twoStacks.tcb q) }

def act (σ : Switching Bool) : TwoStep → SwitchAct Bool
  | .work v sp => .code (workCore σ.core v sp)
  | .choose q => .code (chooseCore σ.core q)
  | .other a => a

def exec (σ : Switching Bool) (step : TwoStep) : Switching Bool :=
  Switching.exec twoStacks σ (step.act σ)

/-- The frame goes where there is room for it. -/
def Fits (σ : Switching Bool) (p : Bool) : Prop :=
  (σ.core.sp - 288 - twoStacks.topOfStack p).toNat + 288 ≤ 4096 ∧
    ∀ f ∈ σ.frames p, SpansApart (σ.core.sp - 288) 288 f.addr 288

/-- The tests for a step. -/
def Ok (σ : Switching Bool) : TwoStep → Prop
  | .work _ _ | .choose _ => True
  | .other (.code _) => False
  | .other (.create q) => σ.on ≠ some q
  | .other .trap => ∃ p, σ.on = some p ∧ σ.scheduling = false ∧ Fits σ p ∧
      load64 σ.core.mem twoStacks.gRunningTask = twoStacks.tcb p
  | .other (.load q) => σ.scheduling = true ∧ σ.core.x 0 = twoStacks.tcb q ∧
      ∃ kind ∈ (σ.frames q).head?.map SavedFrame.kind, kind ≠ .exc
  | .other (.exception _ _ _ _ _) => ∃ p, σ.on = some p ∧ σ.scheduling = false ∧ Fits σ p
  | .other .eret => ∃ p, σ.on = some p ∧ σ.scheduling = false ∧
      (σ.frames p).head?.map SavedFrame.addr = some σ.core.sp

instance (σ : Switching Bool) (p : Bool) : Decidable (Fits σ p) :=
  inferInstanceAs (Decidable (_ ∧ _))

instance (σ : Switching Bool) (step : TwoStep) : Decidable (step.Ok σ) :=
  match step with
  | .work _ _ | .choose _ => inferInstanceAs (Decidable True)
  | .other (.code _) => inferInstanceAs (Decidable False)
  | .other (.create _) => inferInstanceAs (Decidable (_ ≠ _))
  | .other .trap => inferInstanceAs (Decidable (∃ p, _ ∧ _ ∧ Fits σ p ∧ _))
  | .other (.load q) =>
    inferInstanceAs (Decidable (_ ∧ _ ∧ ∃ kind ∈ (σ.frames q).head?.map SavedFrame.kind, _))
  | .other (.exception _ _ _ _ _) => inferInstanceAs (Decidable (∃ p, _ ∧ _ ∧ Fits σ p))
  | .other .eret => inferInstanceAs (Decidable (∃ p, σ.on = some p ∧ _ ∧ _))

variable {σ : Switching Bool} {p : Bool}

theorem Fits.room (h : Fits σ p) : σ.Room twoStacks p :=
  ⟨span_subset_span h.1, fun f hf => (h.2 f hf).disjoint⟩

/-- `g_runningTask` is beside the stacks and the control blocks. -/
theorem writable_gRunningTask (K : Kept twoStacks σ) {a : BitVec 64}
    (ha : a ∈ Span twoStacks.gRunningTask 8) : σ.Writable twoStacks a := by
  have hstack : ∀ q, a ∉ twoStacks.stack q := fun q => by
    have hapart : SpansApart twoStacks.gRunningTask 8 (twoStacks.topOfStack q) 4096 := by
      cases q <;> decide
    exact Set.disjoint_left.mp hapart.disjoint ha
  refine ⟨fun q _ => hstack q, fun q _ f hf h => hstack q (K.inside q f hf h), fun q => ?_⟩
  have hapart : SpansApart twoStacks.gRunningTask 8 (twoStacks.tcb q) 8 := by cases q <;> decide
  exact Set.disjoint_left.mp hapart.disjoint ha

theorem Ok.allowed (K : Kept twoStacks σ) {step : TwoStep} (h : step.Ok σ) :
    Switching.Allowed twoStacks σ (step.act σ) := by
  cases step with
  | work v sp => exact ⟨rfl, fun a ha => absurd rfl ha⟩
  | choose q =>
    refine ⟨K.mode, fun a ha => writable_gRunningTask K ?_⟩
    by_contra hout
    exact ha (store64_of_notMem hout)
  | other a =>
    cases a with
    | code core => exact h.elim
    | create q => exact ⟨h, show 288 ≤ 4096 by decide⟩
    | trap =>
      obtain ⟨p, hon, hsch, hfits, hrun⟩ := h
      exact ⟨p, hon, hsch, hfits.room, hrun⟩
    | load q =>
      obtain ⟨hsch, hx0, kind, hkind, hne⟩ := h
      obtain ⟨f, hf, rfl⟩ := Option.map_eq_some_iff.mp hkind
      obtain ⟨rest, hframes⟩ := List.head?_eq_some_iff.mp hf
      exact ⟨hsch, hx0, f, rest, hframes, hne⟩
    | exception vecId vector esr far link =>
      obtain ⟨p, hon, hsch, hfits⟩ := h
      exact ⟨p, hon, hsch, hfits.room⟩
    | eret =>
      obtain ⟨p, hon, hsch, haddr⟩ := h
      obtain ⟨f, hf, hsp⟩ := Option.map_eq_some_iff.mp haddr
      obtain ⟨rest, hframes⟩ := List.head?_eq_some_iff.mp hf
      exact ⟨p, f, rest, hon, hsch, hframes, hsp.symm⟩

end TwoStep

def twoHistory (σ : Switching Bool) (steps : List TwoStep) :
    List (Switching Bool × SwitchAct Bool) :=
  (trace TwoStep.exec σ steps).map fun e => (e.1, e.2.act e.1)

theorem twoRun {hist : List (Switching Bool × SwitchAct Bool)} {σ : Switching Bool}
    (r : Run (switchMachine twoStacks) hist σ) (steps : List TwoStep)
    (hok : ∀ e ∈ trace TwoStep.exec σ steps, e.2.Ok e.1) :
    Run (switchMachine twoStacks) (hist ++ twoHistory σ steps) (steps.foldl TwoStep.exec σ) := by
  induction steps generalizing hist σ with
  | nil => simpa [twoHistory, trace] using r
  | cons step steps ih =>
    have hfirst := (hok (σ, step) List.mem_cons_self).allowed (Kept.of_run twoStacks_apart r)
    have r' : Run (switchMachine twoStacks) (hist ++ [(σ, step.act σ)]) (step.exec σ) :=
      r.step hfirst
    have h := ih r' fun e he => hok e (List.mem_cons_of_mem _ he)
    simpa [twoHistory, trace] using h

def twoStart : Switching Bool where
  core :=
    { x := fun _ => 0, bank := fun _ => 0x30000, pc := 0, pstate := ⟨0, 0, el1h⟩
      elr := 0, spsr := 0, esr := 0, far := 0, mem := fun _ => 0 }
  on := none
  scheduling := true
  frames := fun _ => []

/-- The handler of an interrupt switches to the other task. When this one has called the scheduler
too, the handler goes on, is itself interrupted, and returns. -/
def twoSteps : List TwoStep :=
  [.other (.create true), .other (.create false), .choose true, .other (.load true),
    .work 100 0x10f00, .other (.exception ⟨5, by decide⟩ 0x40005280 0 0 0x40006000),
    .work 200 0x10d80, .other .trap, .choose false, .other (.load false), .work 300 0x11f00,
    .other .trap, .choose true, .other (.load true), .work 400 0x10d40,
    .other (.exception ⟨4, by decide⟩ 0x40005200 0 0 0x40006000), .work 500 0x10c20,
    .other .eret, .work 600 0x10de0, .other .eret]

/-- The first task has its registers, its stack and its flags again, and goes on where it was. -/
theorem contexts_kept_twoStacks :
    Always (GivesBack twoStacks) (twoHistory twoStart twoSteps) ∧
    (∀ n : Fin 31, (twoSteps.foldl TwoStep.exec twoStart).core.x n = 100 + BitVec.ofNat 64 n) ∧
    (twoSteps.foldl TwoStep.exec twoStart).core.sp = 0x10f00 ∧
    (twoSteps.foldl TwoStep.exec twoStart).core.pc = 100 ∧
    (twoSteps.foldl TwoStep.exec twoStart).core.pstate = ⟨0b0110, 0b0010, el1h⟩ := by
  have r : Run (switchMachine twoStacks) (twoHistory twoStart twoSteps)
      (twoSteps.foldl TwoStep.exec twoStart) := by
    simpa using twoRun (.start ⟨rfl, rfl, rfl, fun _ => rfl⟩) twoSteps (by decide +kernel)
  exact ⟨(contexts_kept twoStacks_apart).runs _ _ r, by decide +kernel, by decide +kernel,
    by decide +kernel, by decide +kernel⟩

end MiniEuler
