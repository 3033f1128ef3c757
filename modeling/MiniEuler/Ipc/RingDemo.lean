import Mathlib.Data.Finset.Insert
import Mathlib.Data.Fintype.Defs
import MiniEuler.Library.HandOff
import MiniEuler.Library.CyclicBuffer

/-! `ipc_ring_demo.c`: the loop bodies of the producers and the consumers, and
`IPC_RingDemoGetStats`. A step is one call or one access to a variable that tasks
share; the steps of different tasks come in any order. -/

namespace MiniEuler
open Library

/-- Producers work at the head of the ring and consumers at its tail. -/
inductive Side
  | producer
  | consumer
  deriving DecidableEq, Repr

def Side.other : Side → Side
  | .producer => .consumer
  | .consumer => .producer

@[simp] theorem Side.other_other (d : Side) : d.other.other = d := by cases d <;> rfl

theorem Side.eq_or_other (d d' : Side) : d' = d ∨ d' = d.other := by
  cases d <;> cases d' <;> simp [Side.other]

theorem Side.other_ne (d : Side) : d.other ≠ d := by cases d <;> simp [Side.other]

/-- `g_semEmpty`, `g_semFull` and `g_semMutex`. -/
inductive RingSem
  | empty
  | full
  | mutex
  deriving DecidableEq, Repr

/-- The semaphore whose units a side takes; it posts the other one. -/
def Side.sem : Side → RingSem
  | .producer => .empty
  | .consumer => .full

@[simp] theorem Side.sem_ne_mutex (d : Side) : d.sem ≠ .mutex := by cases d <;> simp [Side.sem]

theorem Side.sem_other_ne (d : Side) : d.other.sem ≠ d.sem := by
  cases d <;> simp [Side.sem, Side.other]

theorem RingSem.cases (s : RingSem) (d : Side) : s = .mutex ∨ s = d.sem ∨ s = d.other.sem := by
  cases s <;> cases d <;> simp [Side.sem, Side.other]

inductive RingCall
  | pend (s : RingSem)
  | post (s : RingSem)
  deriving DecidableEq, Repr

/-- The ring, with `g_head` and `g_tail` as `index`, `g_producedTotal` and
`g_consumedTotal` as `total`, and the counts of each producer and consumer. -/
structure RingBuf (N : Nat) where
  ringBuf : Vector (BitVec 32) N
  index : Side → Fin N
  total : Side → BitVec 32
  per : Side → Nat → BitVec 32
  demoStarted : Bool

def ipcRingBufSize : Nat := 4
def ipcProducerNum : Nat := 2
def ipcConsumerNum : Nat := 2
def ipcProducePerTask : Nat := 5
def ipcConsumePerTask : Nat := 5

/-- A task entry: the side it works on, its place in the counts of that side, how often it
goes round and, for a producer, what its items count up from. -/
structure RingTask where
  side : Side
  num : Nat
  perTask : Nat
  itemBase : BitVec 32

def producerTaskEntry1 : RingTask := ⟨.producer, 0, ipcProducePerTask, 0⟩
def producerTaskEntry2 : RingTask := ⟨.producer, 1, ipcProducePerTask, 100⟩
def consumerTaskEntry1 : RingTask := ⟨.consumer, 0, ipcConsumePerTask, 0⟩
def consumerTaskEntry2 : RingTask := ⟨.consumer, 1, ipcConsumePerTask, 0⟩

/-- The item of round `i`. -/
def RingTask.item (a : RingTask) (i : Nat) : BitVec 32 := a.itemBase + BitVec.ofNat 32 i + 1

/-! ## Under the mutex -/

/-- Where a task is between its `PRT_SemPend(g_semMutex)` and `PRT_SemPost(g_semMutex)`,
with what it has loaded. -/
inductive SectionPc (N : Nat)
  | loadIndex
  | item (slot : Fin N)
  | loadNext
  | storeIndex (h : Fin N)
  | loadTotal
  | storeTotal (n : BitVec 32)
  | loadPer
  | storePer (n : BitVec 32)
  deriving DecidableEq

/-- Where a task goes on. A round starts at `pendSlot`, which is `PRT_SemPend(g_semEmpty)`
for a producer and `PRT_SemPend(g_semFull)` for a consumer; it ends at `postSlot`. -/
inductive LoopPc (N : Nat)
  | pendSlot
  | pendMutex
  | inside (p : SectionPc N)
  | postMutex
  | postSlot
  deriving DecidableEq

/-- `(index + 1) % IPC_RING_BUF_SIZE`. -/
def ringNext {N : Nat} (h : Fin N) : Fin N := ⟨(h + 1) % N, Nat.mod_lt _ h.pos⟩

namespace RingBuf

variable {N : Nat} (r : RingBuf N) (d : Side)

def setIndex (h : Fin N) : RingBuf N := { r with index := Function.update r.index d h }

def setTotal (n : BitVec 32) : RingBuf N := { r with total := Function.update r.total d n }

def setPer (num : Nat) (n : BitVec 32) : RingBuf N :=
  { r with per := Function.update r.per d (Function.update (r.per d) num n) }

end RingBuf

/-- One access under the mutex in round `i`. At `item` a producer stores its item; what a
consumer loads there it only prints. -/
def RingTask.sectionStep {N : Nat} (a : RingTask) (i : Nat) (r : RingBuf N) :
    SectionPc N → RingBuf N × LoopPc N
  | .loadIndex => (r, .inside (.item (r.index a.side)))
  | .item slot =>
    match a.side with
    | .producer => ({ r with ringBuf := r.ringBuf.set slot (a.item i) }, .inside .loadNext)
    | .consumer => (r, .inside .loadNext)
  | .loadNext => (r, .inside (.storeIndex (r.index a.side)))
  | .storeIndex h => (r.setIndex a.side (ringNext h), .inside .loadTotal)
  | .loadTotal => (r, .inside (.storeTotal (r.total a.side)))
  | .storeTotal n => (r.setTotal a.side (n + 1), .inside .loadPer)
  | .loadPer => (r, .inside (.storePer (r.per a.side a.num)))
  | .storePer n => (r.setPer a.side a.num (n + 1), .postMutex)

/-! ## The snapshot -/

structure RingBufStats (N : Nat) where
  ringSize : Nat
  index : Side → Nat
  total : Side → BitVec 32
  per : Side → Nat → BitVec 32
  buffer : Fin N → Int

/-- `memset(out, 0, sizeof(RingBufStats))` and the ring size. -/
def RingBufStats.zero (N : Nat) : RingBufStats N :=
  ⟨N, fun _ => 0, fun _ => 0, fun _ _ => 0, fun _ => 0⟩

inductive StatsField (N : Nat)
  | ringSize
  | index (d : Side)
  | total (d : Side)
  | per (d : Side) (num : Nat)
  | buffer (j : Fin N)
  deriving DecidableEq

/-- The copy of one field into `out`. -/
def RingBufStats.copy {N : Nat} (out : RingBufStats N) (r : RingBuf N) :
    StatsField N → RingBufStats N
  | .ringSize => { out with ringSize := N }
  | .index d => { out with index := Function.update out.index d (r.index d) }
  | .total d => { out with total := Function.update out.total d (r.total d) }
  | .per d num =>
    { out with per := Function.update out.per d (Function.update (out.per d) num (r.per d num)) }
  | .buffer j => { out with buffer := Function.update out.buffer j (r.ringBuf[j].toInt) }

/-- `out` has field `f` of the ring. -/
def RingBufStats.Agrees (out : RingBufStats N) (r : RingBuf N) : StatsField N → Prop
  | .ringSize => out.ringSize = N
  | .index d => out.index d = r.index d
  | .total d => out.total d = r.total d
  | .per d num => out.per d num = r.per d num
  | .buffer j => out.buffer j = r.ringBuf[j].toInt

/-- Where a task is in `IPC_RingDemoGetStats`: outside, at the pend of the mutex, or under
it with the fields that are still to be copied, the last step being the post. -/
inductive StatsPc (N : Nat)
  | outside
  | pendMutex
  | copy (todo : List (StatsField N))
  deriving DecidableEq

/-! ## The demo -/

/-- The tasks of a demo, and `IPC_PRODUCER_NUM` and `IPC_CONSUMER_NUM`. -/
structure RingDemo (T : Type) where
  task : T → RingTask
  num : Side → Nat

/-- The fields `IPC_RingDemoGetStats` copies, in order. -/
def RingDemo.statsFields {T : Type} (D : RingDemo T) (N : Nat) : List (StatsField N) :=
  [.ringSize, .index .producer, .index .consumer, .total .producer, .total .consumer] ++
    (List.range (D.num .producer)).map (.per .producer) ++
    (List.range (D.num .consumer)).map (.per .consumer) ++ (List.finRange N).map .buffer

/-- The four tasks that `IPC_RingDemoStart` creates. -/
inductive IpcTask
  | tP1
  | tP2
  | tC1
  | tC2
  deriving DecidableEq

instance : Fintype IpcTask := ⟨{.tP1, .tP2, .tC1, .tC2}, fun t => by cases t <;> simp⟩

def ipcRingDemo : RingDemo IpcTask where
  task
    | .tP1 => producerTaskEntry1
    | .tP2 => producerTaskEntry2
    | .tC1 => consumerTaskEntry1
    | .tC2 => consumerTaskEntry2
  num
    | .producer => ipcProducerNum
    | .consumer => ipcConsumerNum

structure Loop (N : Nat) where
  i : Nat
  pc : LoopPc N

/-- What the tasks share and where they are, the semaphores apart. Tasks `T` run the loops and
tasks `O` call `IPC_RingDemoGetStats`. -/
structure RingTasks (N : Nat) (T O : Type) where
  ring : RingBuf N
  loops : T → Loop N
  stats : O → StatsPc N
  out : O → RingBufStats N

section
variable {N : Nat} {T O : Type} (D : RingDemo T)

/-- The loop of `t` is over. -/
def RingTasks.Finished (x : RingTasks N T O) (t : T) : Prop :=
  (x.loops t).pc = .pendSlot ∧ (D.task t).perTask ≤ (x.loops t).i

instance (x : RingTasks N T O) (t : T) : Decidable (x.Finished D t) :=
  inferInstanceAs (Decidable (_ ∧ _))

/-- A loop that is not over, or a call of `IPC_RingDemoGetStats` that has not returned. -/
def RingTasks.Unfinished (x : RingTasks N T O) : T ⊕ O → Prop
  | .inl t => ¬ x.Finished D t
  | .inr o => x.stats o ≠ .outside

variable [DecidableEq T] [DecidableEq O]

/-- The next step of a loop, and the call it makes. A task that has to wait in a pend goes on
behind it. -/
def loopStep (x : RingTasks N T O) (t : T) : RingTasks N T O × Option RingCall :=
  let a := D.task t
  let goOn (l : Loop N) : RingTasks N T O := { x with loops := Function.update x.loops t l }
  match x.loops t with
  | ⟨i, .pendSlot⟩ =>
    if i < a.perTask then (goOn ⟨i, .pendMutex⟩, some (.pend a.side.sem)) else (x, none)
  | ⟨i, .pendMutex⟩ => (goOn ⟨i, .inside .loadIndex⟩, some (.pend .mutex))
  | ⟨i, .inside p⟩ =>
    ({ goOn ⟨i, (a.sectionStep i x.ring p).2⟩ with ring := (a.sectionStep i x.ring p).1 }, none)
  | ⟨i, .postMutex⟩ => (goOn ⟨i, .postSlot⟩, some (.post .mutex))
  | ⟨i, .postSlot⟩ => (goOn ⟨i + 1, .pendSlot⟩, some (.post a.side.other.sem))

/-- The call of `IPC_RingDemoGetStats`, up to the pend of the mutex. -/
def ipcRingDemoGetStats (x : RingTasks N T O) (o : O) (null : Bool) : RingTasks N T O :=
  if null then x
  else if ¬ x.ring.demoStarted then
    { x with out := Function.update x.out o (RingBufStats.zero N) }
  else { x with stats := Function.update x.stats o .pendMutex }

/-- The next step of a call of `IPC_RingDemoGetStats`, and the call it makes. -/
def statsStep (x : RingTasks N T O) (o : O) : RingTasks N T O × Option RingCall :=
  let goOn (pc : StatsPc N) : RingTasks N T O := { x with stats := Function.update x.stats o pc }
  match x.stats o with
  | .outside => (x, none)
  | .pendMutex => (goOn (.copy (D.statsFields N)), some (.pend .mutex))
  | .copy (f :: todo) =>
    ({ goOn (.copy todo) with out := Function.update x.out o ((x.out o).copy x.ring f) }, none)
  | .copy [] => (goOn .outside, some (.post .mutex))

inductive RingAct (T O : Type)
  | loop (t : T)
  | getStats (o : O) (null : Bool)
  | stats (o : O)
  /-- `IPC_RingDemoStart` sets `g_demoStarted`. -/
  | started
  deriving DecidableEq

/-- A step of the demo, and who makes which call in it. -/
def RingAct.step (x : RingTasks N T O) : RingAct T O → RingTasks N T O × Option ((T ⊕ O) × RingCall)
  | .loop t => ((loopStep D x t).1, (loopStep D x t).2.map (.inl t, ·))
  | .getStats o null => (ipcRingDemoGetStats x o null, none)
  | .stats o => ((statsStep D x o).1, (statsStep D x o).2.map (.inr o, ·))
  | .started => ({ x with ring := { x.ring with demoStarted := true } }, none)

/-- What a task may do when the kernel lets it run. -/
def RingAct.Ready (x : RingTasks N T O) : RingAct T O → Prop
  | .loop t => ¬ x.Finished D t
  | .getStats o _ => x.stats o = .outside
  | .stats o => x.stats o ≠ .outside
  | .started => True

/-- The task that takes a step. -/
def RingAct.task : RingAct T O → Option (T ⊕ O)
  | .loop t => some (.inl t)
  | .getStats o _ | .stats o => some (.inr o)
  | .started => none

/-- The zeroed variables of the file, and every loop at its start. -/
structure RingTasksStart (x : RingTasks N T O) : Prop where
  index : ∀ d, (x.ring.index d).val = 0
  total : ∀ d, x.ring.total d = 0
  per : ∀ d num, x.ring.per d num = 0
  ringBuf : x.ring.ringBuf = Vector.replicate N 0
  demoStarted : x.ring.demoStarted = false
  loops : ∀ t, x.loops t = ⟨0, .pendSlot⟩
  stats : ∀ o, x.stats o = .outside

/-! ## Over any semaphores with hand-off -/

/-- The tasks and the three semaphores. -/
structure Ring (N : Nat) (T O : Type) extends RingTasks N T O where
  sem : RingSem → HandOff (T ⊕ O)

namespace Ring

/-- The task is on the wait list of a semaphore. -/
def Blocked (σ : Ring N T O) (x : T ⊕ O) : Prop := ∃ s, x ∈ (σ.sem s).queue

/-- The semaphores after a call. -/
def call (σ : Ring N T O) : Option ((T ⊕ O) × RingCall) → RingSem → HandOff (T ⊕ O)
  | none => σ.sem
  | some (x, .pend s) => Function.update σ.sem s ((σ.sem s).pend x)
  | some (_, .post s) => Function.update σ.sem s (σ.sem s).post

end Ring

def RingAct.exec (σ : Ring N T O) (a : RingAct T O) : Ring N T O :=
  ⟨(a.step D σ.toRingTasks).1, σ.call (a.step D σ.toRingTasks).2⟩

/-- A blocked task takes no step. -/
def RingAct.Allowed (σ : Ring N T O) (a : RingAct T O) : Prop :=
  a.Ready D σ.toRingTasks ∧ ∀ x ∈ a.task, ¬ σ.Blocked x

/-- The counts with which `IPC_RingDemoStart` creates the semaphores. -/
def RingSem.units (N : Nat) : RingSem → Nat
  | .empty => N
  | .full => 0
  | .mutex => 1

structure RingStart (σ : Ring N T O) : Prop extends RingTasksStart σ.toRingTasks where
  sem : ∀ s, σ.sem s = HandOff.new (s.units N)

def ringMachine (N : Nat) (O : Type) [DecidableEq O] :
    Machine (Ring N T O) (RingAct T O) where
  Start := RingStart
  Allowed := RingAct.Allowed D
  exec := RingAct.exec D

end

section
variable {N : Nat} {T O : Type}

def ringTasksInit (hN : 0 < N) : RingTasks N T O where
  ring :=
    { ringBuf := Vector.replicate N 0, index := fun _ => ⟨0, hN⟩, total := fun _ => 0
      per := fun _ _ => 0, demoStarted := false }
  loops := fun _ => ⟨0, .pendSlot⟩
  stats := fun _ => .outside
  out := fun _ => RingBufStats.zero N

def ringInit (hN : 0 < N) : Ring N T O := ⟨ringTasksInit hN, fun s => HandOff.new (s.units N)⟩

theorem ringInit_start (hN : 0 < N) : RingStart (ringInit hN : Ring N T O) where
  index _ := rfl
  total _ := rfl
  per _ _ := rfl
  ringBuf := rfl
  demoStarted := rfl
  loops _ := rfl
  stats _ := rfl
  sem _ := rfl

variable [DecidableEq T] [DecidableEq O]

instance (σ : Ring N T O) (x : T ⊕ O) : Decidable (σ.Blocked x) :=
  have (s : RingSem) : Decidable (x ∈ (σ.sem s).queue) :=
    decidable_of_iff (∃ y ∈ (σ.sem s).queue, y = x) (by simp)
  decidable_of_iff (∃ s ∈ [RingSem.empty, .full, .mutex], x ∈ (σ.sem s).queue)
    ⟨fun ⟨s, _, h⟩ => ⟨s, h⟩, fun ⟨s, h⟩ => ⟨s, by cases s <;> simp, h⟩⟩

instance (D : RingDemo T) (x : RingTasks N T O) (a : RingAct T O) : Decidable (a.Ready D x) :=
  match a with
  | .loop _ => inferInstanceAs (Decidable (¬ _))
  | .getStats _ _ => inferInstanceAs (Decidable (_ = _))
  | .stats _ => inferInstanceAs (Decidable (_ ≠ _))
  | .started => inferInstanceAs (Decidable True)

instance (D : RingDemo T) (σ : Ring N T O) (a : RingAct T O) :
    Decidable ((ringMachine D N O).Allowed σ a) :=
  have : Decidable (∀ x ∈ a.task, ¬ σ.Blocked x) :=
    match a.task with
    | none => isTrue (by simp)
    | some x => decidable_of_iff (¬ σ.Blocked x) (by simp)
  inferInstanceAs (Decidable (_ ∧ _))

end

end MiniEuler
