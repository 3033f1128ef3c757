import MiniEuler.Ipc.RingUnits

/-! The ring is a buffer written and read in cyclic order: items come out in the order
they went in. -/

namespace MiniEuler
open Library

variable {N : Nat} {T O : Type}

/-- The access of a step to `g_ringBuf`. -/
def ringAccess (D : RingDemo T) (x : RingTasks N T O) :
    RingAct T O → Option (Access (BitVec 32) N)
  | .loop t =>
    match x.loops t with
    | ⟨i, .inside (.item slot)⟩ =>
      match (D.task t).side with
      | .producer => some (.write slot ((D.task t).item i))
      | .consumer => some (.read slot (x.ring.ringBuf.get slot))
    | _ => none
  | _ => none

/-- The accesses of a run to `g_ringBuf`. -/
def ringAccesses (D : RingDemo T) (hist : RingHistory N T O) : List (Access (BitVec 32) N) :=
  hist.filterMap fun e => ringAccess D e.1.toRingTasks e.2

/-- What the accesses have produced or consumed. -/
def sideItems (acc : List (Access (BitVec 32) N)) : Side → List (BitVec 32)
  | .producer => itemsWritten acc
  | .consumer => itemsRead acc

/-- The slot has been accessed and the index not yet moved on. -/
def LoopPc.stale : LoopPc N → Nat
  | .inside .loadNext | .inside (.storeIndex _) => 1
  | _ => 0

def Loop.stale (l : Loop N) : Nat := l.pc.stale

theorem LoopPc.holds_of_stale {pc : LoopPc N} (h : pc.stale ≠ 0) :
    pc.holds = 1 ∧ pc ≠ .inside .loadIndex := by
  cases pc with
  | inside p => cases p <;> simp_all [LoopPc.stale, LoopPc.holds]
  | _ => simp [LoopPc.stale] at h

theorem Ring.holdsMutex_of_pc {σ : Ring N T O} {t : T} {l : Loop N} (hl : σ.loops t = l)
    (hholds : l.pc.holds = 1) (hb : .inl t ∉ (σ.sem .mutex).queue) : σ.HoldsMutex (.inl t) := by
  refine ⟨?_, hb⟩
  simpa [Ring.holds, Loop.holds, hl] using hholds

section
variable [Fintype T]

/-- The loops, the indices and the buffer tell of the same accesses. -/
structure RingStored (D : RingDemo T) (acc : List (Access (BitVec 32) N))
    (σ : RingTasks N T O) : Prop where
  cyclic : Cyclic acc σ.ring.ringBuf
  accessed : ∀ d, (sideItems acc d).length = tally (D.tasks d) Loop.accessed σ.loops
  index : ∀ d, (sideItems acc d).length % N =
    (σ.ring.index d + tally (D.tasks d) Loop.stale σ.loops) % N
  slot : ∀ t slot, (σ.loops t).pc = .inside (.item slot) → slot = σ.ring.index (D.task t).side
  next : ∀ t h, (σ.loops t).pc = .inside (.storeIndex h) → h = σ.ring.index (D.task t).side

variable {D : RingDemo T} {acc : List (Access (BitVec 32) N)} {σ : Ring N T O}
  {x' : RingTasks N T O} {t : T}

theorem RingStart.stored (h : RingStart σ) : RingStored D [] σ.toRingTasks := by
  have hzero : ∀ (S : Finset T) (f : Loop N → Nat), f ⟨0, .pendSlot⟩ = 0 →
      tally S f σ.loops = 0 :=
    fun S f hf => tally_eq_zero fun t _ => by rw [h.loops t]; exact hf
  have hnil : ∀ d, (sideItems ([] : List (Access (BitVec 32) N)) d).length = 0 := by
    rintro (_ | _) <;> rfl
  refine ⟨.new _, fun d => ?_, fun d => ?_, fun t slot hs => ?_, fun t slot hs => ?_⟩
  · rw [hnil, hzero _ _ rfl]
  · rw [hnil, hzero _ _ rfl, h.index]
  · rw [h.loops t] at hs
    cases hs
  · rw [h.loops t] at hs
    cases hs

/-! ## Steps -/

theorem RingStored.congr (S : RingStored D acc σ.toRingTasks)
    (hbuf : x'.ring.ringBuf = σ.ring.ringBuf)
    (hindex : x'.ring.index = σ.ring.index) (hloops : x'.loops = σ.loops) :
    RingStored D acc x' := by
  obtain ⟨h1, h2, h3, h4, h5⟩ := S
  constructor
  · rw [hbuf]; exact h1
  · rw [hloops]; exact h2
  · rw [hloops, hindex]; exact h3
  · rw [hloops, hindex]; exact h4
  · rw [hloops, hindex]; exact h5

section
variable [DecidableEq T]

/-- A step of `t` that leaves the buffer and the indices alone. -/
theorem RingStored.goOn (S : RingStored D acc σ.toRingTasks) {l : Loop N}
    (hbuf : x'.ring.ringBuf = σ.ring.ringBuf) (hindex : x'.ring.index = σ.ring.index)
    (hloops : x'.loops = Function.update σ.loops t l)
    (hacc : l.accessed = (σ.loops t).accessed) (hstale : l.stale = (σ.loops t).stale)
    (hslot : ∀ slot, l.pc = .inside (.item slot) → slot = σ.ring.index (D.task t).side)
    (hnext : ∀ h, l.pc = .inside (.storeIndex h) → h = σ.ring.index (D.task t).side) :
    RingStored D acc x' := by
  refine ⟨hbuf ▸ S.cyclic, fun d => ?_, fun d => ?_, fun u slot hs => ?_, fun u h hs => ?_⟩
  · rw [hloops, tally_update_eq hacc]
    exact S.accessed d
  · rw [hloops, hindex, tally_update_eq hstale]
    exact S.index d
  · rw [hindex]
    rw [hloops] at hs
    by_cases hu : u = t
    · subst hu
      rw [Function.update_self] at hs
      exact hslot slot hs
    · rw [Function.update_of_ne hu] at hs
      exact S.slot u slot hs
  · rw [hindex]
    rw [hloops] at hs
    by_cases hu : u = t
    · subst hu
      rw [Function.update_self] at hs
      exact hnext h hs
    · rw [Function.update_of_ne hu] at hs
      exact S.next u h hs

end

section
variable [Fintype O] (U : RingUnits D σ)
include U

/-- While `t` holds the mutex no other task has an access under way. -/
theorem RingUnits.alone (ht : σ.HoldsMutex (.inl t)) {u : T} (hu : u ≠ t)
    (hholds : (σ.loops u).pc.holds = 1) : (σ.loops u).pc = .inside .loadIndex := by
  by_contra hne
  have hq : .inl u ∉ (σ.sem .mutex).queue := fun h => hne (U.mutexLoops u h)
  exact hu (Sum.inl.inj (U.exclusive (Ring.holdsMutex_of_pc rfl hholds hq) ht))

theorem RingUnits.stale_alone (ht : σ.HoldsMutex (.inl t))
    (hstale : (σ.loops t).stale = 0) (d : Side) : tally (D.tasks d) Loop.stale σ.loops = 0 := by
  refine tally_eq_zero fun u _ => ?_
  by_cases hu : u = t
  · rw [hu]
    exact hstale
  · by_contra hne
    obtain ⟨hholds, hpc⟩ := LoopPc.holds_of_stale hne
    exact hpc (U.alone ht hu hholds)

/-- The slot that `t` is about to access, and the room there is for it. -/
theorem RingStored.at_item (S : RingStored D acc σ.toRingTasks) {i : Nat} {slot : Fin N}
    (hl : σ.loops t = ⟨i, .inside (.item slot)⟩) (hb : ¬ σ.Blocked (.inl t)) :
    slot.val = (sideItems acc (D.task t).side).length % N ∧
    (sideItems acc (D.task t).side).length <
      (D.task t).side.sem.units N + (sideItems acc (D.task t).side.other).length := by
  have hm := Ring.holdsMutex_of_pc hl rfl fun h => hb ⟨_, h⟩
  constructor
  · have hpc : (σ.loops t).pc = .inside (.item slot) := by rw [hl]
    rw [S.index, U.stale_alone hm (by rw [hl]; rfl), Nat.add_zero, ← S.slot t slot hpc,
      Nat.mod_eq_of_lt slot.isLt]
  · have hlt := U.rounds_lt (t := t) (by rw [hl]; rfl) (by rw [hl]; rfl)
      fun h => hb ⟨_, h⟩
    have hle : tally (D.tasks (D.task t).side.other) Loop.i σ.loops ≤
        tally (D.tasks (D.task t).side.other) Loop.accessed σ.loops :=
      Finset.sum_le_sum fun u _ => Nat.le_add_right _ _
    rw [S.accessed, S.accessed]
    omega

end

section
variable [DecidableEq T] [Fintype O]

/-- When `t` leaves `item` or `storeIndex` nobody else is there. -/
theorem RingUnits.update_pc_ne (U : RingUnits D σ) (ht : σ.HoldsMutex (.inl t)) {l : Loop N}
    {p : SectionPc N} (hp : p ≠ .loadIndex) (hl : l.pc ≠ .inside p) (u : T) :
    (Function.update σ.loops t l u).pc ≠ .inside p := by
  by_cases hu : u = t
  · rw [hu, Function.update_self]
    exact hl
  · rw [Function.update_of_ne hu]
    intro hpc
    have := U.alone ht hu (by rw [hpc]; rfl)
    rw [hpc] at this
    exact hp (LoopPc.inside.inj this)

/-- The access of `t` to its slot. -/
theorem RingStored.item (S : RingStored D acc σ.toRingTasks) (U : RingUnits D σ) {i : Nat}
    {slot : Fin N} (hl : σ.loops t = ⟨i, .inside (.item slot)⟩) (hb : ¬ σ.Blocked (.inl t))
    {a : Access (BitVec 32) N}
    (hindex : x'.ring.index = σ.ring.index)
    (hloops : x'.loops = Function.update σ.loops t ⟨i, .inside .loadNext⟩)
    (hcyclic : Cyclic (acc ++ [a]) x'.ring.ringBuf)
    (hown : (sideItems (acc ++ [a]) (D.task t).side).length =
      (sideItems acc (D.task t).side).length + 1)
    (hother : sideItems (acc ++ [a]) (D.task t).side.other =
      sideItems acc (D.task t).side.other) : RingStored D (acc ++ [a]) x' := by
  have hm := Ring.holdsMutex_of_pc hl rfl fun h => hb ⟨_, h⟩
  have hout := D.not_mem_tasks_other t
  have hacc := tally_update Loop.accessed σ.loops ⟨i, .inside .loadNext⟩
    (D.self_mem_tasks t)
  have hstale := tally_update Loop.stale σ.loops ⟨i, .inside .loadNext⟩
    (D.self_mem_tasks t)
  rw [hl] at hacc hstale
  simp only [Loop.accessed, Loop.stale, LoopPc.accessed, SectionPc.accessed, LoopPc.stale]
    at hacc hstale
  refine ⟨hcyclic, fun d => ?_, fun d => ?_, fun u slot' hs => ?_, fun u h hs => ?_⟩
  · rw [hloops]
    rcases Side.eq_or_other (D.task t).side d with rfl | rfl
    · have := S.accessed (D.task t).side
      omega
    · rw [tally_update_other hout, hother]
      exact S.accessed _
  · rw [hloops, hindex]
    rcases Side.eq_or_other (D.task t).side d with rfl | rfl
    · rw [hown, Nat.add_mod, S.index, ← Nat.add_mod]
      congr 1
      omega
    · rw [tally_update_other hout, hother]
      exact S.index _
  · rw [hloops] at hs
    exact absurd hs (U.update_pc_ne hm (by simp) (by simp) u)
  · rw [hloops] at hs
    exact absurd hs (U.update_pc_ne hm (by simp) (by simp) u)

/-- The index of the side of `t` moves on. -/
theorem RingStored.storeIndex (S : RingStored D acc σ.toRingTasks) (U : RingUnits D σ) {i : Nat}
    {h : Fin N}
    (hl : σ.loops t = ⟨i, .inside (.storeIndex h)⟩) (hb : ¬ σ.Blocked (.inl t))
    (hbuf : x'.ring.ringBuf = σ.ring.ringBuf)
    (hindex : x'.ring.index = Function.update σ.ring.index (D.task t).side (ringNext h))
    (hloops : x'.loops = Function.update σ.loops t ⟨i, .inside .loadTotal⟩) :
    RingStored D acc x' := by
  have hm := Ring.holdsMutex_of_pc hl rfl fun h => hb ⟨_, h⟩
  have hout := D.not_mem_tasks_other t
  have hnow : h = σ.ring.index (D.task t).side := S.next t h (by rw [hl])
  have hacc : (⟨i, .inside .loadTotal⟩ : Loop N).accessed = (σ.loops t).accessed := by rw [hl]; rfl
  have hstale := tally_update Loop.stale σ.loops ⟨i, .inside .loadTotal⟩
    (D.self_mem_tasks t)
  rw [hl] at hstale
  simp only [Loop.stale, LoopPc.stale] at hstale
  refine ⟨hbuf ▸ S.cyclic, fun d => ?_, fun d => ?_, fun u slot hs => ?_, fun u h' hs => ?_⟩
  · rw [hloops, tally_update_eq hacc]
    exact S.accessed d
  · rw [hloops, hindex]
    rcases Side.eq_or_other (D.task t).side d with rfl | rfl
    · rw [Function.update_self, S.index, ringNext, hnow]
      simp only [Nat.mod_add_mod]
      congr 1
      omega
    · rw [tally_update_other hout, Function.update_of_ne (Side.other_ne _)]
      exact S.index _
  · rw [hloops] at hs
    exact absurd hs (U.update_pc_ne hm (by simp) (by simp) u)
  · rw [hloops] at hs
    exact absurd hs (U.update_pc_ne hm (by simp) (by simp) u)

/-- An access under the mutex. -/
theorem RingStored.inside (S : RingStored D acc σ.toRingTasks) (U : RingUnits D σ) {i : Nat}
    {p : SectionPc N} (hl : σ.loops t = ⟨i, .inside p⟩) (hb : ¬ σ.Blocked (.inl t)) :
    RingStored D (acc ++ (ringAccess D σ.toRingTasks (.loop t)).toList)
      (loopStep D σ.toRingTasks t).1 := by
  have hnone : (∀ slot, p ≠ .item slot) → ringAccess D σ.toRingTasks (.loop t) = none := by
    intro hp
    cases p <;> simp_all [ringAccess]
  simp only [loopStep, hl]
  cases p with
  | item slot =>
    obtain ⟨hslot, hroom⟩ := S.at_item U hl hb
    cases hside : (D.task t).side with
    | producer =>
      have hacc : (ringAccess D σ.toRingTasks (.loop t)).toList =
          [.write slot ((D.task t).item i)] := by
        simp [ringAccess, hl, hside]
      simp only [hacc, RingTask.sectionStep, hside] at hslot hroom ⊢
      refine S.item U hl hb rfl rfl ?_ ?_ ?_ <;> simp only [hside]
      · exact S.cyclic.write slot _
          (by simpa [Nat.add_comm, sideItems, Side.sem, RingSem.units, Side.other] using hroom)
          hslot
      · simp [sideItems]
      · simp [sideItems, Side.other]
    | consumer =>
      have hacc : (ringAccess D σ.toRingTasks (.loop t)).toList =
          [.read slot (σ.ring.ringBuf.get slot)] := by
        simp [ringAccess, hl, hside]
      simp only [hacc, RingTask.sectionStep, hside] at hslot hroom ⊢
      refine S.item U hl hb rfl rfl ?_ ?_ ?_ <;> simp only [hside]
      · exact S.cyclic.read slot
          (by simpa [sideItems, Side.sem, RingSem.units, Side.other] using hroom) hslot
      · simp [sideItems]
      · simp [sideItems, Side.other]
  | storeIndex h =>
    rw [hnone (by simp), Option.toList_none, List.append_nil]
    exact S.storeIndex U hl hb rfl rfl rfl
  | loadIndex =>
    rw [hnone (by simp), Option.toList_none, List.append_nil]
    refine S.goOn rfl rfl rfl (by rw [hl]; rfl) (by rw [hl]; rfl) (fun slot h => ?_)
      (by simp [RingTask.sectionStep])
    obtain rfl := SectionPc.item.inj (LoopPc.inside.inj h)
    rfl
  | loadNext =>
    rw [hnone (by simp), Option.toList_none, List.append_nil]
    refine S.goOn rfl rfl rfl (by rw [hl]; rfl) (by rw [hl]; rfl)
      (by simp [RingTask.sectionStep]) fun h hs => ?_
    obtain rfl := SectionPc.storeIndex.inj (LoopPc.inside.inj hs)
    rfl
  | loadTotal | storeTotal n | loadPer | storePer n =>
    rw [hnone (by simp), Option.toList_none, List.append_nil]
    exact S.goOn rfl rfl rfl (by rw [hl]; rfl) (by rw [hl]; rfl)
      (by simp [RingTask.sectionStep]) (by simp [RingTask.sectionStep])

variable [DecidableEq O]

/-- **Step lemma.** -/
theorem RingStored.step (S : RingStored D acc σ.toRingTasks) (U : RingUnits D σ)
    {a : RingAct T O} (ha : a.Allowed D σ) :
    RingStored D (acc ++ (ringAccess D σ.toRingTasks a).toList) (a.exec D σ).toRingTasks := by
  obtain ⟨hready, hfree⟩ := ha
  cases a with
  | loop t =>
    have hb : ¬ σ.Blocked (.inl t) := hfree _ rfl
    simp only [RingAct.exec, RingAct.step]
    rcases hl : σ.loops t with ⟨i, pc⟩
    cases pc with
    | inside p => exact S.inside U hl hb
    | pendSlot =>
      have hi := RingTasks.lt_perTask hready hl
      have hnone : ringAccess D σ.toRingTasks (.loop t) = none := by simp [ringAccess, hl]
      rw [hnone, Option.toList_none, List.append_nil]
      simp only [loopStep, hl, if_pos hi]
      exact S.goOn rfl rfl rfl (by rw [hl]; rfl) (by rw [hl]; rfl) (by simp) (by simp)
    | pendMutex | postMutex | postSlot =>
      have hnone : ringAccess D σ.toRingTasks (.loop t) = none := by simp [ringAccess, hl]
      rw [hnone, Option.toList_none, List.append_nil]
      simp only [loopStep, hl]
      exact S.goOn rfl rfl rfl (by rw [hl]; rfl) (by rw [hl]; rfl) (by simp) (by simp)
  | getStats o null =>
    simp only [ringAccess, Option.toList_none, List.append_nil, RingAct.exec, RingAct.step,
      ipcRingDemoGetStats]
    split
    · exact S
    · split <;> exact S.congr rfl rfl rfl
  | stats o =>
    simp only [ringAccess, Option.toList_none, List.append_nil, RingAct.exec, RingAct.step,
      statsStep]
    split <;> exact S.congr rfl rfl rfl
  | started =>
    simp only [ringAccess, Option.toList_none, List.append_nil, RingAct.exec, RingAct.step]
    exact S.congr rfl rfl rfl

/-- **Run lemma.** -/
theorem RingStored.of_run {hist : RingHistory N T O} (r : Run (ringMachine D N O) hist σ) :
    RingStored D (ringAccesses D hist) σ.toRingTasks := by
  refine r.invariant_hist (fun hist σ => RingStored D (ringAccesses D hist) σ.toRingTasks)
    (fun _ h => RingStart.stored h) fun hist σ a r S ha => ?_
  have hsnoc : ringAccesses D (hist ++ [(σ, a)]) =
      ringAccesses D hist ++ (ringAccess D σ.toRingTasks a).toList := by
    cases hacc : ringAccess D σ.toRingTasks a <;> simp [ringAccesses, hacc]
  rw [hsnoc]
  exact S.step (RingUnits.of_run r) ha

/-- What the ring keeps to: no item is written over before it is read, each read gets the item
written since the last one, items come out in the order they went in and those still
inside are in their slots; and each access is made by the one task that holds the mutex. -/
structure RingDelivers (D : RingDemo T) (hist : RingHistory N T O) (σ : Ring N T O) : Prop where
  writesFree : WritesFree (ringAccesses D hist)
  readsWritten : ReadsWritten (ringAccesses D hist)
  ordered : itemsRead (ringAccesses D hist) <+: itemsWritten (ringAccesses D hist)
  kept : ∀ slot item, lastAt slot (ringAccesses D hist) = some (.write slot item) →
    σ.ring.ringBuf.get slot = item
  underMutex : ∀ e ∈ hist, ∀ t, e.2 = .loop t → ringAccess D e.1.toRingTasks e.2 ≠ none →
    ∀ x, e.1.HoldsMutex x ↔ x = .inl t

/-- **Every item is delivered at most once, in order, and none is lost.** -/
theorem ringDelivers_of_run {hist : RingHistory N T O} (r : Run (ringMachine D N O) hist σ) :
    RingDelivers D hist σ := by
  have S := RingStored.of_run r
  have C := S.cyclic.inv
  refine ⟨C.writesFree, C.readsWritten, C.ordered, fun slot item h => ?_, ?_⟩
  · exact C.stored slot item ((C.last slot item).mp h)
  · rintro ⟨σ', a⟩ he t rfl hacc x
    have U := r.invariant_mem (RingUnits D) (fun _ h => RingStart.units h)
      (fun _ _ U ha => U.step ha) _ he
    have hb : ¬ σ'.Blocked (.inl t) := (r.allowed_mem _ he).2 _ rfl
    have hm : σ'.HoldsMutex (.inl t) := by
      refine Ring.holdsMutex_of_pc rfl ?_ fun h => hb ⟨_, h⟩
      simp only [ringAccess] at hacc
      split at hacc
      · rename_i i slot hl
        rw [hl]
        rfl
      · exact absurd rfl hacc
    exact ⟨fun hx => U.exclusive hx hm, fun hx => hx ▸ hm⟩

/-- `t` and `u` go round once each. Both come to the mutex before `t` has been through. -/
def pairRound {T O : Type} (t u : T) : List (RingAct T O) :=
  [t, u, t, u].map .loop ++ List.replicate 9 (.loop t) ++ List.replicate 9 (.loop u) ++
    [t, u].map .loop

/-- The first consumer waits until there is an item. Then the producers fill the ring, and when
both consumers have been through they go on in the slots that these have left. -/
def wrapActs : List (RingAct IpcTask Unit) :=
  .loop .tC1 :: pairRound .tP1 .tP2 ++ pairRound .tP2 .tP1 ++ [.started, .getStats () false] ++
    List.replicate 11 (.loop .tC1) ++ List.replicate 12 (.loop .tC2) ++ pairRound .tP1 .tP2 ++
    pairRound .tC2 .tC1

theorem ipcRingBufSize_pos : 0 < ipcRingBufSize := by decide

def wrapRing : Ring ipcRingBufSize IpcTask Unit :=
  wrapActs.foldl (RingAct.exec ipcRingDemo) (ringInit ipcRingBufSize_pos)

/-- Six items have gone into the four slots, the last two behind the first two. -/
theorem ringDelivers_wrap :
    RingDelivers ipcRingDemo
      (trace (RingAct.exec ipcRingDemo) (ringInit ipcRingBufSize_pos) wrapActs)
      wrapRing ∧
    wrapRing.ring.total .producer = 6 ∧ wrapRing.ring.ringBuf.toList = [3, 103, 102, 2] :=
  ⟨ringDelivers_of_run (Run.ofList (M := ringMachine ipcRingDemo ipcRingBufSize Unit)
    (ringInit_start _) wrapActs (by decide +kernel)), by decide +kernel, by decide +kernel⟩

end

end

end MiniEuler
