import Mathlib.Data.Set.Lattice
import Mathlib.Order.CompletePartialOrder
import MiniEuler.Kernel.Pool

/-! Creating a task in a reachable state: what it changes when it succeeds and when
it fails, which stack the task gets, and where the initial context frame lies. -/

namespace MiniEuler
open Library

variable {k k' : Kernel} {p : Nat}

/-! ## Stacks -/

/-- The addresses of an area, however it wraps around. -/
def area (base : UIntPtr) (size : Nat) : Set UIntPtr := {a | (a - base).toNat < size}

/-- A task that has been created with a stack out of `stackMem`. -/
structure SysStack (k : Kernel) (p : Nat) : Prop where
  bound : p ≤ k.tskMaxNum
  inUse : inUse k p
  flg : (k.tskCbArray p).stackCfgFlg = osTskStackCfgBySys

def stackArea (k : Kernel) (p : Nat) : Set UIntPtr :=
  area (k.tskCbArray p).topOfStack (k.tskCbArray p).stackSize.toNat

/-- Where `OsTskAMPInit` puts the control blocks. -/
def tskCbArrayAddr (stackMem : UIntPtr) : Option UIntPtr :=
  (osMemAllocAlign (kernelReset stackMem 0 fun _ => 0) 4096 osTskStackSizeAllocAlign).2

/-- Where `OsSemInit` puts the semaphore blocks. -/
def allSemAddr (stackMem : UIntPtr) : Option UIntPtr :=
  match osTskInit (kernelReset stackMem 0 fun _ => 0) with
  | .error _ => none
  | .ok k => (osMemAllocAlign k 4096 osSemAddrAllocAlign).2

theorem tskCbArrayAddr_eq (stackMem : UIntPtr) :
    tskCbArrayAddr stackMem = some (stackMem + BitVec.ofNat 64 (4096 * 0)) := rfl

theorem allSemAddr_eq (stackMem : UIntPtr) :
    allSemAddr stackMem = some (stackMem + BitVec.ofNat 64 (4096 * 1)) := by
  rw [allSemAddr, osTskInit_eq]
  rfl

/-- Areas of `stackMem` with different numbers have no address in common. -/
theorem area_disjoint (base : UIntPtr) {i j : Nat} (hi : i < stackMemNum) (hj : j < stackMemNum)
    (hij : i ≠ j) : Disjoint (area (base + BitVec.ofNat 64 (4096 * i)) 4096)
      (area (base + BitVec.ofNat 64 (4096 * j)) 4096) := by
  rw [Set.disjoint_left]
  intro a hai haj
  simp only [area, Set.mem_ofPred_eq] at hai haj
  simp only [stackMemNum] at hi hj
  bv_omega

/-- Every system stack is an area of its own, and none of the first two. -/
structure StackSlots (k : Kernel) (slot : Nat → Nat) : Prop where
  used : ∀ i, i < 2 → k.stackMemUsed i = true
  bound : ∀ p, SysStack k p → 2 ≤ slot p ∧ slot p < stackMemNum
  taken : ∀ p, SysStack k p → k.stackMemUsed (slot p) = true
  place : ∀ p, SysStack k p →
    (k.tskCbArray p).topOfStack = k.stackMem + BitVec.ofNat 64 (4096 * slot p) ∧
    (k.tskCbArray p).stackSize = 4096
  inj : ∀ p q, SysStack k p → SysStack k q → slot p = slot q → p = q

theorem PoolKept.sysStack (h : PoolKept k k') (P : Pool k) : SysStack k' p ↔ SysStack k p := by
  obtain ⟨b, v, o, s, ht⟩ := h.frame.tcb p
  constructor
  · rintro ⟨hb, hu, hf⟩
    exact ⟨h.frame.tskMaxNum ▸ hb, (h.inUse P).mp hu, by rw [ht] at hf; exact hf⟩
  · rintro ⟨hb, hu, hf⟩
    exact ⟨h.frame.tskMaxNum ▸ hb, (h.inUse P).mpr hu, by rw [ht]; exact hf⟩

theorem StackSlots.kept {slot : Nat → Nat} (S : StackSlots k slot) (P : Pool k)
    (h : PoolKept k k') : StackSlots k' slot := by
  have hs : ∀ {q}, SysStack k' q → SysStack k q := (h.sysStack P).mp
  have hused := h.frame.stackMemUsed
  refine ⟨?_, fun q hq => S.bound q (hs hq), fun q hq => ?_, fun q hq => ?_,
    fun q r hq hr => S.inj q r (hs hq) (hs hr)⟩
  · rw [hused]
    exact S.used
  · rw [hused]
    exact S.taken q (hs hq)
  · obtain ⟨b, v, o, s, ht⟩ := h.frame.tcb q
    rw [ht, h.frame.stackMem]
    exact S.place q (hs hq)

section
variable {slot : Nat → Nat} {cb : Nat} {initParam : TskInitParam}
  {flg : Nat} {stack : UIntPtr × BitVec 32} {used : Nat → Bool}

theorem sysStack_created {q : Nat}
    (h : SysStack (createdKernel k cb (createdTcb (k.tskCbArray cb) initParam flg stack) used) q) :
    (q = cb ∧ flg = osTskStackCfgBySys) ∨ (q ≠ cb ∧ SysStack k q) := by
  obtain ⟨hb, hu, hf⟩ := h
  by_cases hq : q = cb
  · subst hq
    exact Or.inl ⟨rfl, by simpa [createdKernel, createdTcb] using hf⟩
  · rw [createdKernel_tskCbArray hq] at hf
    rw [inUse_iff, createdKernel_tskCbArray hq, ← inUse_iff] at hu
    exact Or.inr ⟨hq, hb, hu, hf⟩

/-- A new system stack takes an area that no task has. -/
theorem StackSlots.created (S : StackSlots k slot)
    (hst : StackTaken k initParam flg stack used) :
    ∃ slot', StackSlots
      (createdKernel k cb (createdTcb (k.tskCbArray cb) initParam flg stack) used) slot' := by
  cases hst with
  | user ha =>
    have hold : ∀ {q}, SysStack (createdKernel k cb (createdTcb (k.tskCbArray cb) initParam
        osTskStackCfgByUser (initParam.stackAddr, initParam.stackSize)) k.stackMemUsed) q →
        q ≠ cb ∧ SysStack k q := by
      intro q hq
      rcases sysStack_created hq with ⟨-, hflg⟩ | h
      · cases hflg
      · exact h
    refine ⟨slot, S.used, fun q hq => S.bound q (hold hq).2, fun q hq => S.taken q (hold hq).2,
      fun q hq => ?_, fun q r hq hr => S.inj q r (hold hq).2 (hold hr).2⟩
    rw [createdKernel_tskCbArray (hold hq).1]
    exact S.place q (hold hq).2
  | @sys i ha hs hi hu =>
    -- the area was free, so it is none of the tasks' and none of the first two
    have hfresh : ∀ q, SysStack k q → slot q ≠ i := by
      intro q hq he
      have := S.taken q hq
      rw [he, hu] at this
      cases this
    have hi2 : 2 ≤ i := by
      by_contra hlt
      have := S.used i (by omega)
      rw [hu] at this
      cases this
    refine ⟨Function.update slot cb i, fun j hj => ?_, fun q hq => ?_, fun q hq => ?_,
      fun q hq => ?_, fun q r hq hr hqr => ?_⟩
    · have hji : j ≠ i := by omega
      simpa [createdKernel, hji] using S.used j hj
    · rcases sysStack_created hq with ⟨rfl, -⟩ | ⟨hne, hq'⟩
      · simpa using ⟨hi2, hi⟩
      · simpa [hne] using S.bound q hq'
    · rcases sysStack_created hq with ⟨rfl, -⟩ | ⟨hne, hq'⟩
      · simp [createdKernel]
      · simpa [createdKernel, hne, hfresh q hq'] using S.taken q hq'
    · rcases sysStack_created hq with ⟨rfl, -⟩ | ⟨hne, hq'⟩
      · simpa [createdKernel, createdTcb] using hs
      · rw [createdKernel_tskCbArray hne, Function.update_of_ne hne]
        exact S.place q hq'
    · rcases sysStack_created hq with ⟨rfl, -⟩ | ⟨hne, hq'⟩ <;>
        rcases sysStack_created hr with ⟨rfl, -⟩ | ⟨hner, hr'⟩
      · rfl
      · rw [Function.update_self, Function.update_of_ne hner] at hqr
        exact absurd hqr.symm (hfresh r hr')
      · rw [Function.update_self, Function.update_of_ne hne] at hqr
        exact absurd hqr (hfresh q hq')
      · rw [Function.update_of_ne hne, Function.update_of_ne hner] at hqr
        exact S.inj q r hq' hr' hqr

theorem StackSlots.outcome (S : StackSlots k slot) {r : Except Nat Nat}
    (h : CreateOutcome k initParam (k', r)) : ∃ slot', StackSlots k' slot' := by
  cases h with
  | noTcb _ => exact ⟨slot, S⟩
  | noStack _ _ => exact ⟨slot, S⟩
  | created _ hst => exact S.created hst

end

/-- No two system stacks overlap, and none overlaps one of the two arrays. -/
structure StacksApart (k : Kernel) : Prop where
  pair : ∀ p q, SysStack k p → SysStack k q → p ≠ q →
    Disjoint (stackArea k p) (stackArea k q)
  arrays : ∃ tcbs sems, tskCbArrayAddr k.stackMem = some tcbs ∧
    allSemAddr k.stackMem = some sems ∧ Disjoint (area tcbs 4096) (area sems 4096) ∧
    ∀ p, SysStack k p → Disjoint (stackArea k p) (area tcbs 4096) ∧
      Disjoint (stackArea k p) (area sems 4096)

theorem StackSlots.apart {slot : Nat → Nat} (S : StackSlots k slot) : StacksApart k := by
  have hplace : ∀ p, SysStack k p →
      stackArea k p = area (k.stackMem + BitVec.ofNat 64 (4096 * slot p)) 4096 := by
    intro p hp
    obtain ⟨htop, hsize⟩ := S.place p hp
    rw [stackArea, htop, hsize]
    rfl
  refine ⟨fun p q hp hq hpq => ?_, _, _, tskCbArrayAddr_eq _, allSemAddr_eq _,
    area_disjoint _ (by decide) (by decide) (by decide), fun p hp => ?_⟩
  · rw [hplace p hp, hplace q hq]
    exact area_disjoint _ (S.bound p hp).2 (S.bound q hq).2 fun h => hpq (S.inj p q hp hq h)
  · have hb := S.bound p hp
    rw [hplace p hp]
    exact ⟨area_disjoint _ hb.2 (by decide) (by omega),
      area_disjoint _ hb.2 (by decide) (by omega)⟩

theorem StackSlots.initialised (h : Initialised k) : StackSlots k id := by
  have hno : ∀ p, ¬ SysStack k p := by
    intro p hp
    have hle := hp.bound
    have hu := hp.inUse
    rw [initialised_eq h] at hle hu
    have hle : p ≤ 22 := hle
    refine not_inUse_of_unused ?_ hu
    have hne : p ≠ 23 := by omega
    have hlt : p < 23 := by omega
    simp [tskIsUnused, hne, hlt, osTskUnused]
  refine ⟨fun i hi => ?_, fun p hp => absurd hp (hno p), fun p hp => absurd hp (hno p),
    fun p hp => absurd hp (hno p), fun p _ hp => absurd hp (hno p)⟩
  rw [initialised_eq h]
  simpa using hi

theorem StackSlots.of_run {hist : History} (r : Run callMachine hist k) :
    ∃ slot, StackSlots k slot := by
  refine r.invariant_hist (fun _ k => ∃ slot, StackSlots k slot)
    (fun _ h => ⟨id, StackSlots.initialised h⟩) ?_
  rintro hist k op r ⟨slot, S⟩ hc
  have P := Pool.of_run r
  have h := P.step hc
  split at h
  · exact ⟨slot, S.kept P h⟩
  · obtain ⟨k₁, ret, -, hout, hk⟩ := h
    obtain ⟨slot', S'⟩ := S.outcome hout
    exact ⟨slot', S'.kept (P.outcome hout) hk⟩

/-! ## Creating a task is atomic -/

/-- The pid of the task that a call creates. -/
def Op.created (k : Kernel) (op : Op) : Option Nat :=
  op.initParam.bind fun initParam => (prtTaskCreate k initParam).2.toOption

/-- The pids of all tasks created so far, the idle task's among them. -/
def createdPids (hist : History) : List Nat := hist.filterMap fun e => e.2.created e.1

/-- What `*taskPid` holds after a creation. -/
def taskPidOut (taskPid : Nat) : Except Nat Nat → Nat
  | .ok pid => pid
  | .error _ => taskPid

/-- What a creation that returns `OS_OK` has done. -/
structure TaskCreated (hist : History) (k k' : Kernel) (initParam : TskInitParam) (pid : Nat) :
    Prop where
  head : ∃ cb, k.tskCbFreeList = cb :: k'.tskCbFreeList ∧ (k.tskCbArray cb).taskPid = pid ∧
    (k'.tskCbArray cb).taskStatus = osTskSuspend ||| osTskInuse ∧
    ∀ p, p ≠ cb → k'.tskCbArray p = k.tskCbArray p
  fresh : pid ∉ createdPids hist
  sysStack : initParam.stackAddr = 0 → ∃ i, i < stackMemNum ∧ k.stackMemUsed i = false ∧
    k'.stackMemUsed = Function.update k.stackMemUsed i true
  userStack : initParam.stackAddr ≠ 0 → k'.stackMemUsed = k.stackMemUsed
  lists : ∀ h, h ≠ .tskCbFreeList → k'.lists h = k.lists h
  sems : k'.allSem = k.allSem ∧ k'.unusedSemList = k.unusedSemList
  apart : StacksApart k'
  context : WordsAt k'.mem (k'.tskCbArray pid).stackPointer (tskContextInit k.osTskEntry).words ∧
    ∀ a ∉ Span (k'.tskCbArray pid).stackPointer sizeofTskContext, k'.mem a = k.mem a

/-- A creation over sequences has either done everything or nothing. -/
structure CreateAtomic (hist : History) (k : Kernel) (initParam : TskInitParam) (taskPid : Nat) :
    Prop where
  failed : ∀ ret, (prtTaskCreate k initParam).2 = .error ret →
    (prtTaskCreate k initParam).1 = k ∧
    taskPidOut taskPid (prtTaskCreate k initParam).2 = taskPid ∧
    (k.tskCbFreeList = [] ∨ NoStack k initParam)
  created : ∀ pid, (prtTaskCreate k initParam).2 = .ok pid →
    TaskCreated hist k (prtTaskCreate k initParam).1 initParam pid ∧
    taskPidOut taskPid (prtTaskCreate k initParam).2 = pid

theorem createdPids_inUse {hist : History} (r : Run callMachine hist k) :
    ∀ p ∈ createdPids hist, inUse k p := by
  refine r.invariant_hist (fun hist k => ∀ p ∈ createdPids hist, inUse k p)
    (fun _ _ p hp => by simp [createdPids] at hp) ?_
  intro hist k op r ih hc p hp
  have P := Pool.of_run r
  simp only [createdPids, List.filterMap_append, List.mem_append] at hp
  rcases hp with hp | hp
  · exact P.inUse_next hc (ih p hp)
  have hp : op.created k = some p := by simpa using hp
  have h := P.step hc
  split at h
  · rename_i hnone
    simp [Op.created, hnone] at hp
  · rename_i initParam hsome
    obtain ⟨k₁, ret, hcr, hout, hk⟩ := h
    rw [Op.created, hsome, Option.bind_some, hcr] at hp
    cases ret with
    | error ret => cases hp
    | ok pid =>
      obtain rfl := Option.some.inj hp
      exact (hk.inUse (P.outcome hout)).mpr hout.inUse_new

theorem createAtomic_of_run {hist : History} (r : Run callMachine hist k)
    (initParam : TskInitParam) (taskPid : Nat) : CreateAtomic hist k initParam taskPid := by
  have P := Pool.of_run r
  have hout := P.prtTaskCreate initParam
  obtain ⟨k', ret, hcr⟩ : ∃ k' ret, prtTaskCreate k initParam = (k', ret) := ⟨_, _, rfl⟩
  obtain ⟨slot, S⟩ := StackSlots.of_run r
  rw [hcr] at hout
  obtain ⟨slot', S'⟩ := S.outcome hout
  constructor <;> intro x hx <;> simp only [hcr] at hx ⊢ <;> subst hx
  · refine ⟨?_, rfl, ?_⟩
    · cases hout <;> rfl
    · cases hout with
      | noTcb hl => exact Or.inl hl
      | noStack _ hno => exact Or.inr hno
  · refine ⟨?_, rfl⟩
    cases hout with
    | @created cb rest flg stack used hl hst =>
      have hcb := P.free x (by simp [hl])
      refine ⟨⟨x, ?_, P.pid x hcb.1, ?_, fun p hp => createdKernel_tskCbArray hp⟩,
        fun hm => not_inUse_of_unused hcb.2 (createdPids_inUse r x hm), fun ha => ?_,
        fun ha => ?_, fun h hh => ?_, ⟨rfl, rfl⟩, S'.apart, ?_⟩
      · rw [createdKernel_free hl]
        exact hl
      · simp [createdKernel, createdTcb]
      · cases hst with
        | user hne => exact absurd ha hne
        | sys _ _ hi hu => exact ⟨_, hi, hu, rfl⟩
      · cases hst with
        | user _ => rfl
        | sys h0 _ _ _ => exact absurd h0 ha
      · exact List.erase_of_not_mem fun hm => not_inUse_of_unused hcb.2 (P.linked x h hh hm)
      · have hlen : 8 * (tskContextInit k.osTskEntry).words.length ≤ 2 ^ 64 :=
          show 8 * 36 ≤ 2 ^ 64 by decide
        have hptr : ((createdKernel k x (createdTcb (k.tskCbArray x) initParam flg stack)
            used).tskCbArray x).stackPointer = tskContextAddr stack.2 stack.1 := by
          simp [createdKernel, createdTcb]
        rw [hptr]
        exact ⟨wordsAt_storeWords hlen, fun a ha => storeWords_of_notMem hlen ha⟩

/-! ## The initial context frame -/

/-- Declared next to the creation of tasks; nothing calls it. -/
def osCheckAddrOffsetOverflow (base : UIntPtr) (size : BitVec 32) : Prop :=
  base + size.setWidth 64 < base

instance (base : UIntPtr) (size : BitVec 32) : Decidable (osCheckAddrOffsetOverflow base size) :=
  inferInstanceAs (Decidable (_ < _))

/-- The frame at `stackPointer` lies in the stack, which does not wrap, and is aligned. -/
structure FrameInside (topOfStack : UIntPtr) (stackSize : BitVec 32) (stackPointer : UIntPtr) :
    Prop where
  above : topOfStack.toNat ≤ stackPointer.toNat
  below : stackPointer.toNat + sizeofTskContext ≤ topOfStack.toNat + stackSize.toNat
  noWrap : ¬ osCheckAddrOffsetOverflow topOfStack stackSize
  aligned : stackPointer.toNat % 16 = 0

/-- Some stack and some frame would do for the parameters. -/
def Achievable (initParam : TskInitParam) : Prop :=
  ∃ topOfStack stackPointer, (initParam.stackAddr ≠ 0 → topOfStack = initParam.stackAddr) ∧
    FrameInside topOfStack initParam.stackSize stackPointer

/-- A created task has its first frame inside its stack, and parameters for which
that cannot be are refused before anything is written. -/
structure FrameChecked (k : Kernel) (initParam : TskInitParam) : Prop where
  inside : ∀ pid, (prtTaskCreate k initParam).2 = .ok pid →
    FrameInside ((prtTaskCreate k initParam).1.tskCbArray pid).topOfStack
      ((prtTaskCreate k initParam).1.tskCbArray pid).stackSize
      ((prtTaskCreate k initParam).1.tskCbArray pid).stackPointer
  refused : ¬ Achievable initParam →
    ∃ ret, prtTaskCreate k initParam = (k, .error ret)

/-- `stackMem` is aligned to 256 bytes and ends before the last address. -/
structure StackMemPlaced (stackMem : UIntPtr) : Prop where
  aligned : stackMem.toNat % 256 = 0
  fits : stackMem.toNat + 4096 * stackMemNum < 2 ^ 64

/-- A stack given by the caller that holds a frame. -/
structure UserStackFits (initParam : TskInitParam) : Prop where
  size : sizeofTskContext ≤ initParam.stackSize.toNat
  noWrap : ¬ osCheckAddrOffsetOverflow initParam.stackAddr initParam.stackSize
  aligned : (initParam.stackAddr.toNat + initParam.stackSize.toNat) % 16 = 0

theorem not_overflow_iff {base : UIntPtr} {size : BitVec 32} :
    ¬ osCheckAddrOffsetOverflow base size ↔ base.toNat + size.toNat < 2 ^ 64 := by
  have hs := size.isLt
  have hb := base.isLt
  rw [osCheckAddrOffsetOverflow, BitVec.lt_def, BitVec.toNat_add, BitVec.toNat_setWidth]
  omega

/-- **The frame `OsTskContextInit` builds is inside exactly when the stack fits it.** -/
theorem frameInside_iff {top : UIntPtr} {size : BitVec 32} :
    FrameInside top size (tskContextAddr size top) ↔
      sizeofTskContext ≤ size.toNat ∧ ¬ osCheckAddrOffsetOverflow top size ∧
        (top.toNat + size.toNat) % 16 = 0 := by
  have hs := size.isLt
  have ht := top.isLt
  have hsp : (tskContextAddr size top).toNat =
      (2 ^ 64 - sizeofTskContext + (top.toNat + size.toNat)) % 2 ^ 64 := by
    rw [tskContextAddr, BitVec.toNat_sub, BitVec.toNat_add, BitVec.toNat_setWidth,
      BitVec.toNat_ofNat, sizeofTskContext]
    omega
  constructor
  · rintro ⟨habove, hbelow, hwrap, halign⟩
    refine ⟨?_, hwrap, ?_⟩ <;> rw [not_overflow_iff] at hwrap <;>
      rw [hsp, sizeofTskContext] at * <;> omega
  · rintro ⟨hsize, hwrap, halign⟩
    refine ⟨?_, ?_, hwrap, ?_⟩ <;> rw [not_overflow_iff] at hwrap <;>
      rw [hsp, sizeofTskContext] at * <;> omega

/-- A stack out of `stackMem` always holds the frame. -/
theorem sysStack_fits {stackMem : UIntPtr} (hm : StackMemPlaced stackMem) {i : Nat}
    (hi : i < stackMemNum) :
    FrameInside (stackMem + BitVec.ofNat 64 (4096 * i)) 4096
      (tskContextAddr 4096 (stackMem + BitVec.ofNat 64 (4096 * i))) := by
  obtain ⟨halign, hfits⟩ := hm
  rw [stackMemNum] at hi hfits
  have htop : (stackMem + BitVec.ofNat 64 (4096 * i)).toNat = stackMem.toNat + 4096 * i := by
    rw [BitVec.toNat_add, BitVec.toNat_ofNat]
    omega
  have hsize : (4096 : BitVec 32).toNat = 4096 := rfl
  refine frameInside_iff.mpr ⟨by decide, not_overflow_iff.mpr ?_, ?_⟩ <;> rw [htop, hsize] <;> omega

theorem not_achievable {initParam : TskInitParam} (ha : initParam.stackAddr = 0)
    (h : ¬ Achievable initParam) : initParam.stackSize ≠ 4096 := by
  intro hs
  refine h ⟨0, tskContextAddr initParam.stackSize 0, fun hne => absurd ha hne, ?_⟩
  rw [hs, frameInside_iff]
  decide

theorem frameChecked_of_error {initParam : TskInitParam} {ret : Nat}
    (h : prtTaskCreate k initParam = (k, .error ret)) : FrameChecked k initParam := by
  refine ⟨fun pid hok => ?_, fun _ => ⟨ret, h⟩⟩
  rw [h] at hok
  cases hok

/-- **Exactly the stacks that the caller brings along can go wrong.** -/
theorem frameChecked_iff {hist : History} (r : Run callMachine hist k)
    (hm : StackMemPlaced k.stackMem) (initParam : TskInitParam) :
    FrameChecked k initParam ↔
      k.tskCbFreeList = [] ∨ initParam.stackAddr = 0 ∨ UserStackFits initParam := by
  have hout := (Pool.of_run r).prtTaskCreate initParam
  obtain ⟨k', ret, hcr⟩ : ∃ k' ret, prtTaskCreate k initParam = (k', ret) := ⟨_, _, rfl⟩
  rw [hcr] at hout
  cases hout with
  | noTcb hl => exact iff_of_true (frameChecked_of_error hcr) (Or.inl hl)
  | noStack _ hno => exact iff_of_true (frameChecked_of_error hcr) (Or.inr (Or.inl hno.1))
  | @created cb rest flg stack used hl hst =>
    have hne : k.tskCbFreeList ≠ [] := by simp [hl]
    have hinside : (∀ pid, (prtTaskCreate k initParam).2 = .ok pid →
        FrameInside ((prtTaskCreate k initParam).1.tskCbArray pid).topOfStack
          ((prtTaskCreate k initParam).1.tskCbArray pid).stackSize
          ((prtTaskCreate k initParam).1.tskCbArray pid).stackPointer) ↔
        FrameInside stack.1 stack.2 (tskContextAddr stack.2 stack.1) := by
      rw [hcr]
      simp [createdKernel, createdTcb]
    cases hst with
    | sys ha hs hi hu =>
      refine iff_of_true ⟨hinside.mpr ?_, fun hno => absurd hs (not_achievable ha hno)⟩
        (Or.inr (Or.inl ha))
      simp only [hs]
      exact sysStack_fits hm hi
    | user ha =>
      have hfits : FrameInside initParam.stackAddr initParam.stackSize
          (tskContextAddr initParam.stackSize initParam.stackAddr) ↔ UserStackFits initParam :=
        frameInside_iff.trans ⟨fun h => ⟨h.1, h.2.1, h.2.2⟩, fun h => ⟨h.1, h.2, h.3⟩⟩
      constructor
      · intro h
        exact Or.inr (Or.inr (hfits.mp (hinside.mp h.inside)))
      · intro h
        have hin := hfits.mpr ((h.resolve_left hne).resolve_left ha)
        exact ⟨hinside.mpr hin, fun hno => absurd ⟨_, _, fun _ => rfl, hin⟩ hno⟩

theorem bootKernel_stackMemPlaced : StackMemPlaced bootKernel.stackMem :=
  ⟨by decide +kernel, by decide +kernel⟩

/-- A stack of 100 bytes is accepted, and the frame starts below it. -/
theorem shortStack_not_checked : Run callMachine [] bootKernel ∧
    StackMemPlaced bootKernel.stackMem ∧
    ¬ FrameChecked bootKernel { taskPrio := 20, stackSize := 100, stackAddr := 0x50000000 } := by
  refine ⟨.start bootKernel_initialised, bootKernel_stackMemPlaced, fun h => ?_⟩
  have habove := (h.inside 0 (by decide +kernel)).above
  exact absurd habove (by decide +kernel)

/-- A stack of 8192 bytes at an aligned address is fine. -/
theorem userStack_checked :
    FrameChecked bootKernel { taskPrio := 20, stackSize := 8192, stackAddr := 0x50000000 } :=
  (frameChecked_iff (.start bootKernel_initialised) bootKernel_stackMemPlaced _).mpr
    (Or.inr (Or.inr ⟨by decide, by decide, by decide⟩))

end MiniEuler
