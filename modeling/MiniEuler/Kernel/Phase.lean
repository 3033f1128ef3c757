import MiniEuler.Kernel.Effect

/-! What a task control block is for at each moment: its phase. The status word,
the list the block is linked to and `taskSem` all follow from it (`Linked`), and
every helper of the kernel moves a single task from one phase to another. -/

namespace MiniEuler
open Library

/-- `dormant` is a created task on no list: one that has exited, or one that a
call is just moving between lists. -/
inductive TskPhase
  | unused
  | suspended
  | dormant
  | ready
  | pending (sem : Nat)
  deriving DecidableEq, Repr

namespace TskPhase

def bits : TskPhase → BitVec 32
  | unused => osTskUnused
  | suspended => osTskSuspend ||| osTskInuse
  | dormant => osTskInuse
  | ready => osTskInuse ||| osTskReady
  | pending _ => osTskInuse ||| osTskPend

def home : TskPhase → Option ListHead
  | unused => some .tskCbFreeList
  | suspended => none
  | dormant => none
  | ready => some .runQueue
  | pending s => some (.semList s)

end TskPhase

/-- The running task carries `OS_TSK_RUNNING` besides the bits of its phase. -/
def runBit (k : Kernel) (p : Nat) : BitVec 32 := if p = k.runningTask then osTskRunning else 0

structure Linked (k : Kernel) (ph : Nat → TskPhase) : Prop where
  placed : k.lists.Placed (fun p => (ph p).home)
  beyond : ∀ p, k.tskMaxNum < p → ph p = .dormant
  status : ∀ p, p ≤ k.tskMaxNum → (k.tskCbArray p).taskStatus = (ph p).bits ||| runBit k p
  pid : ∀ p, p ≤ k.tskMaxNum → (k.tskCbArray p).taskPid = p
  waits : ∀ p s, ph p = .pending s → (k.tskCbArray p).taskSem = some s
  boost : ∀ p, p ≤ k.tskMaxNum → k.priority p ≤ k.originalPriority p ∧
    (k.priority p = k.originalPriority p ∨ k.priority p ≤ 255)
  fresh : k.highestTask = k.runQueue.argmin k.priority
  owner : ∀ s, (k.allSem s).semStat = osSemUsed → (k.allSem s).semOwner = osInvalidOwnerId ∨
    ((k.allSem s).semOwner ≤ k.tskMaxNum ∧ ph (k.allSem s).semOwner ≠ .unused)

theorem runBit_cases (k : Kernel) (p : Nat) : runBit k p = 0 ∨ runBit k p = osTskRunning := by
  unfold runBit
  split
  · exact Or.inr rfl
  · exact Or.inl rfl

namespace Linked

variable {k : Kernel} {ph : Nat → TskPhase}

/-! ## Reading the phase off the block -/

theorem le_of_ne_dormant (L : Linked k ph) {p : Nat} (h : ph p ≠ .dormant) :
    p ≤ k.tskMaxNum := by
  by_contra hp
  exact h (L.beyond p (by omega))

theorem mem_lists (L : Linked k ph) {p : Nat} {h : ListHead} :
    p ∈ k.lists h ↔ (ph p).home = some h := L.placed.mem h p

theorem mem_runQueue (L : Linked k ph) {p : Nat} : p ∈ k.runQueue ↔ ph p = .ready := by
  rw [Kernel.runQueue, L.mem_lists]
  cases ph p <;> simp [TskPhase.home]

theorem mem_semList (L : Linked k ph) {p s : Nat} : p ∈ k.semList s ↔ ph p = .pending s := by
  rw [Kernel.semList, L.mem_lists]
  cases ph p <;> simp [TskPhase.home]

theorem mem_tskCbFreeList (L : Linked k ph) {p : Nat} :
    p ∈ k.tskCbFreeList ↔ ph p = .unused := by
  rw [Kernel.tskCbFreeList, L.mem_lists]
  cases ph p <;> simp [TskPhase.home]

theorem tskIsUnused_iff (L : Linked k ph) {p : Nat} (hp : p ≤ k.tskMaxNum) :
    tskIsUnused k p ↔ ph p = .unused ∧ p ≠ k.runningTask := by
  rw [tskIsUnused, L.status p hp, runBit]
  by_cases hr : p = k.runningTask
  · cases ph p <;> simp [hr, TskPhase.bits] <;> decide
  · cases ph p <;> simp [hr, TskPhase.bits] <;> decide

theorem not_tskIsUnused (L : Linked k ph) {p : Nat} (hp : p ≤ k.tskMaxNum)
    (h : ph p ≠ .unused) : ¬ tskIsUnused k p := fun hu => h ((L.tskIsUnused_iff hp).mp hu).1

theorem tst_ready (L : Linked k ph) {p : Nat} (hp : p ≤ k.tskMaxNum) :
    tskStatusTst k p osTskReady ↔ ph p = .ready := by
  rw [tskStatusTst, L.status p hp]
  rcases runBit_cases k p with hr | hr <;> rw [hr] <;> cases ph p <;>
    simp [TskPhase.bits] <;> decide

theorem tst_pend (L : Linked k ph) {p : Nat} (hp : p ≤ k.tskMaxNum) :
    tskStatusTst k p osTskPend ↔ ∃ s, ph p = .pending s := by
  rw [tskStatusTst, L.status p hp]
  rcases runBit_cases k p with hr | hr <;> rw [hr] <;> cases ph p <;>
    simp [TskPhase.bits] <;> decide

theorem tst_suspend (L : Linked k ph) {p : Nat} (hp : p ≤ k.tskMaxNum) :
    tskStatusTst k p (osTskSuspend ||| osTskDelayInterruptible) ↔ ph p = .suspended := by
  rw [tskStatusTst, L.status p hp]
  rcases runBit_cases k p with hr | hr <;> rw [hr] <;> cases ph p <;>
    simp [TskPhase.bits] <;> decide

theorem tst_running (L : Linked k ph) {p : Nat} (hp : p ≤ k.tskMaxNum) :
    tskStatusTst k p osTskRunning ↔ p = k.runningTask := by
  rw [tskStatusTst, L.status p hp, runBit]
  by_cases hr : p = k.runningTask
  · cases ph p <;> simp [hr, TskPhase.bits] <;> decide
  · cases ph p <;> simp [hr, TskPhase.bits] <;> decide

end Linked

end MiniEuler
