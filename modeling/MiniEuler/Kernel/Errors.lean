import MiniEuler.Kernel.Runs

/-! Failed pends and posts, for every handle and every timeout. -/

namespace MiniEuler
open Library

variable {k : Kernel} {ph : Nat → TskPhase}

def Op.isSemCall : Op → Bool
  | .semPend _ _ | .semPost _ | .uartPost _ => true
  | _ => false

/-- A pend or post that does not return `OS_OK` has changed nothing, and its caller
is still in the run queue. -/
def FailsClean (k : Kernel) (op : Op) : Prop :=
  op.isSemCall → op.ret k ≠ osOk →
    op.next k = k ∧ (bgdActive k → k.runningTask ∈ (op.next k).runQueue)

/-- Every failed pend and post of a run has changed nothing. -/
def AllFailClean (hist : History) : Prop := ∀ e ∈ hist, FailsClean e.1 e.2

instance (k : Kernel) (op : Op) : Decidable (op.Unsupported k) :=
  match op with
  | .semPend s timeout => decidable_of_iff
      ((s < k.maxSem ∧ (k.allSem s).semStat ≠ osSemUnused ∧ ¬ osIntActive k ∧
        (k.allSem s).semCount = 0 ∧ timeout ≠ osNoWait ∧ k.uniTaskLock = 0) ∧
        timeout ≠ osWaitForever)
      ⟨fun ⟨⟨h₁, h₂, h₃, h₄, h₅, h₆⟩, h⟩ => ⟨⟨h₁, h₂, h₃, h₄, h₅, h₆⟩, h⟩,
        fun ⟨⟨h₁, h₂, h₃, h₄, h₅, h₆⟩, h⟩ => ⟨⟨h₁, h₂, h₃, h₄, h₅, h₆⟩, h⟩⟩
  | .taskCreate _ | .taskResume _ | .semCreate _ _ | .osSemCreate _ _ _ _ | .semPost _
  | .uartPost _ | .taskExit | .activate _ => inferInstanceAs (Decidable False)

/-- A pend that is unsupported leaves its caller on the wait list. -/
theorem unsupported_pend (I : Inv k ph) (hb : bgdActive k) {s timeout : Nat}
    (hB : Blocks k s timeout) (hf : timeout ≠ osWaitForever) :
    (Op.semPend s timeout).ret k = osErrnoSemFuncNotSupport ∧
    k.runningTask ∉ ((Op.semPend s timeout).next k).runQueue ∧
    k.runningTask ∈ ((Op.semPend s timeout).next k).semList s := by
  have L' := I.linked.osSemPendListPut (I.active hb).1 (I.sems.used hB.used)
  have hexec : (Op.semPend s timeout).exec k =
      (osSemPendListPut k s, osErrnoSemFuncNotSupport) := by
    rw [Op.exec]
    rcases prtSemPend_cases k s timeout with
      ⟨_, _, hno, _⟩ | ⟨_, _, hpos, _⟩ | ⟨_, h, _⟩ | ⟨_, _, h⟩
    · exact absurd hB hno
    · have := hB.empty
      omega
    · exact absurd h hf
    · exact h
  rw [Op.next, Op.ret, hexec]
  refine ⟨rfl, ?_, L'.mem_semList.mpr (by simp)⟩
  rw [L'.mem_runQueue]
  simp

/-- **Step lemma.** In a sound state only an unsupported pend fails with a trace. -/
theorem failsClean_iff (I : Inv k ph) {op : Op} (hc : op.Callable k) :
    FailsClean k op ↔ ¬ op.Unsupported k := by
  by_cases hsup : op.Unsupported k
  · refine iff_of_false (fun h => ?_) fun h => h hsup
    cases op with
    | semPend s timeout =>
      obtain ⟨hret, hq, -⟩ := unsupported_pend I hc.1 hsup.1 hsup.2
      exact hq ((h rfl (by rw [hret]; decide)).2 hc.1)
    | _ => exact hsup
  · refine iff_of_true (fun hsem hret => ?_) hsup
    have hsame : op.next k = k := by
      have e := op.effect I.linked I.lock hc
      revert e hret
      generalize op.next k = k'
      generalize op.ret k = ret
      intro hret e
      cases e with
      | failed _ _ => rfl
      | unsupported hB hf => exact absurd ⟨hB, hf⟩ hsup
      | _ => exact absurd rfl hret
    rw [hsame]
    exact ⟨rfl, fun hb => I.linked.mem_runQueue.mpr (I.active hb).1⟩

/-- **Every failed pend and post of a run is clean exactly when the run has no
unsupported pend.** -/
theorem failsClean_run_iff {hist : History} (r : Run callMachine hist k) :
    AllFailClean hist ↔ ∀ e ∈ hist, ¬ e.2.Unsupported e.1 := by
  refine r.invariant_hist (fun hist _ => AllFailClean hist ↔
    ∀ e ∈ hist, ¬ e.2.Unsupported e.1) (by simp [AllFailClean]) ?_
  intro hist k op r ih hc
  unfold AllFailClean at ih ⊢
  simp only [List.forall_mem_append, List.forall_mem_singleton]
  rw [ih]
  refine and_congr_right fun hsup => ?_
  obtain ⟨ph, I⟩ := Inv.of_run (r.restrict hsup)
  exact failsClean_iff I hc

/-- A task waits for 5 ticks for a semaphore without units. -/
def timedPendOps : List Op :=
  [.taskCreate { taskPrio := 20 }, .taskResume 0, .activate 0, .semCreate 0 false, .semPend 0 5]

def timedPendKernel : Kernel := (timedPendOps.take 4).foldl Op.next bootKernel

theorem timedPend_run : Run callMachine (trace Op.next bootKernel timedPendOps)
    (timedPendOps.foldl Op.next bootKernel) :=
  Run.ofList (M := callMachine) bootKernel_initialised timedPendOps (by decide +kernel)

/-- It gets an error code, is off the run queue, and is on the wait list. -/
theorem timedPend_not_clean :
    Run callMachine (trace Op.next bootKernel timedPendOps)
      (timedPendOps.foldl Op.next bootKernel) ∧
    (timedPendKernel, .semPend 0 5) ∈ trace Op.next bootKernel timedPendOps ∧
    timedPendKernel.runningTask ∈
      ((Op.semPend 0 5).next timedPendKernel).semList 0 ∧
    ¬ AllFailClean (trace Op.next bootKernel timedPendOps) := by
  have hmem : (timedPendKernel, .semPend 0 5) ∈ trace Op.next bootKernel timedPendOps := by
    simp [timedPendOps, timedPendKernel, trace]
  refine ⟨timedPend_run, hmem, by decide +kernel, fun h => ?_⟩
  have hq := (h _ hmem rfl (by decide +kernel)).2 (by decide +kernel)
  exact absurd hq (by decide +kernel)

/-- The same pend with timeout 0 is refused cleanly. -/
theorem noWaitPend_clean : AllFailClean (trace Op.next bootKernel
    [.taskCreate { taskPrio := 20 }, .taskResume 0, .activate 0, .semCreate 0 false,
      .semPend 0 osNoWait]) :=
  (failsClean_run_iff (Run.ofList (M := callMachine) bootKernel_initialised _
    (by decide +kernel))).mpr (by decide +kernel)

end MiniEuler
