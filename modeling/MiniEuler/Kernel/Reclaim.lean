import Mathlib.Algebra.BigOperators.Group.Finset.Basic
import MiniEuler.Kernel.Stacks

/-! What is left of the two pools as tasks come and go. A task that exits gives
nothing back, so what has been created is counted, not what is alive. -/

namespace MiniEuler
open Library

variable {k k' : Kernel} {hist : History}

def freeTcbs (k : Kernel) : Nat := k.tskCbFreeList.length

def freeStacks (k : Kernel) : Nat :=
  ((Finset.range stackMemNum).filter fun i => k.stackMemUsed i = false).card

/-- What is left after `OsTskInit` and `OsSemInit`. -/
def tcbsLeft : Nat := freeTcbs bootKernel

def stacksLeft : Nat := freeStacks bootKernel

theorem left_of_initialised (h : Initialised k) :
    freeTcbs k = tcbsLeft ∧ freeStacks k = stacksLeft := by
  have hk := initialised_eq h
  have hb := initialised_eq bootKernel_initialised
  constructor
  · rw [tcbsLeft, freeTcbs, freeTcbs, hk, hb]
  · rw [stacksLeft, freeStacks, freeStacks, hk, hb]

example : tcbsLeft = 23 ∧ stacksLeft = 18 := by decide +kernel

/-! ## What a creation takes -/

theorem PoolKept.left (h : PoolKept k k') :
    freeTcbs k' = freeTcbs k ∧ freeStacks k' = freeStacks k := by
  rw [freeTcbs, freeTcbs, freeStacks, freeStacks, h.frame.free, h.frame.stackMemUsed]
  exact ⟨rfl, rfl⟩

theorem freeStacks_take {i : Nat} (hi : i < stackMemNum) (hu : k.stackMemUsed i = false)
    (h : k'.stackMemUsed = Function.update k.stackMemUsed i true) :
    freeStacks k' + 1 = freeStacks k := by
  have herase : ((Finset.range stackMemNum).filter fun j => k'.stackMemUsed j = false) =
      ((Finset.range stackMemNum).filter fun j => k.stackMemUsed j = false).erase i := by
    ext j
    by_cases hj : j = i
    · subst hj
      simp [h]
    · simp [h, hj]
  have hmem : i ∈ (Finset.range stackMemNum).filter fun j => k.stackMemUsed j = false :=
    Finset.mem_filter.mpr ⟨Finset.mem_range.mpr hi, hu⟩
  rw [freeStacks, freeStacks, herase]
  exact Finset.card_erase_add_one hmem

theorem freeStacks_eq_zero (h : ∀ i, i < stackMemNum → k.stackMemUsed i = true) :
    freeStacks k = 0 := by
  rw [freeStacks, Finset.card_eq_zero, Finset.filter_eq_empty_iff]
  intro i hi
  simp [h i (Finset.mem_range.mp hi)]

/-- The parameters every task of the demos is created with. -/
def TskInitParam.Standard (initParam : TskInitParam) : Prop :=
  initParam.stackAddr = 0 ∧ initParam.stackSize = 4096

/-- A standard creation succeeds when both pools have something left, and takes one
of each. -/
theorem CreateOutcome.left {initParam : TskInitParam} {r : Except Nat Nat}
    (h : CreateOutcome k initParam (k', r)) (hstd : initParam.Standard) :
    ((∃ ret, r = .error ret ∧ ret ≠ osOk) ∧ k' = k ∧ (freeTcbs k = 0 ∨ freeStacks k = 0)) ∨
    ((∃ pid, r = .ok pid) ∧ freeTcbs k' + 1 = freeTcbs k ∧ freeStacks k' + 1 = freeStacks k) := by
  cases h with
  | noTcb hl => exact Or.inl ⟨⟨_, rfl, by decide⟩, rfl, Or.inl (by rw [freeTcbs, hl]; rfl)⟩
  | noStack _ hno =>
    exact Or.inl ⟨⟨_, rfl, by decide⟩, rfl, Or.inr (freeStacks_eq_zero (hno.2.resolve_left
      (not_not.mpr hstd.2)))⟩
  | created hl hst =>
    refine Or.inr ⟨⟨_, rfl⟩, ?_, ?_⟩
    · rw [freeTcbs, freeTcbs, createdKernel_free hl, hl]
      rfl
    · cases hst with
      | user ha => exact absurd hstd.1 ha
      | sys _ _ hi hu => exact freeStacks_take hi hu rfl

/-! ## Runs -/

/-- A call that creates a task has the standard parameters. -/
def Op.CreatesStandard (op : Op) : Prop := ∀ initParam, op.initParam = some initParam →
  initParam.Standard

instance (op : Op) : Decidable op.CreatesStandard :=
  match h : op.initParam with
  | none => .isTrue fun initParam h' => by rw [h] at h'; cases h'
  | some initParam =>
    decidable_of_iff (initParam.stackAddr = 0 ∧ initParam.stackSize = 4096)
      ⟨fun hs p h' => by rw [h] at h'; cases h'; exact hs, fun hs => hs initParam h⟩

/-- The kernel when all tasks get their stack from it. -/
def standardMachine : Machine Kernel Op := callMachine.restrict fun _ op => op.CreatesStandard

instance (k : Kernel) (op : Op) : Decidable (standardMachine.Allowed k op) :=
  inferInstanceAs (Decidable (_ ∧ _))

theorem callMachine_of_standard (r : Run standardMachine hist k) : Run callMachine hist k :=
  Run.of_restrict r

/-- The number of calls that create a task, `OsActivate` among them. -/
def creates (hist : History) : Nat := hist.countP fun e => e.2.initParam.isSome

/-- The number of tasks whose entry has returned. -/
def exits (hist : History) : Nat := hist.countP fun e => e.2 = .taskExit

/-- The number of tasks created that have not returned from their entry. -/
def live (hist : History) : Nat := (createdPids hist).length - exits hist

/-- At each creation fewer tasks are live than either pool had to begin with. -/
def WithinCapacity (hist : History) : Prop :=
  Always (fun pre e => e.2.initParam.isSome → live pre < tcbsLeft ∧ live pre < stacksLeft) hist

instance (hist : History) : Decidable (WithinCapacity hist) :=
  inferInstanceAs (Decidable (Always _ _))

/-- Every creation of the run has returned `OS_OK`. -/
def AllCreated (hist : History) : Prop :=
  ∀ e ∈ hist, ∀ initParam, e.2.initParam = some initParam →
    retOf (prtTaskCreate e.1 initParam).2 = osOk

/-- What has been created and what is left make up what there was. -/
theorem created_add_left (r : Run standardMachine hist k) :
    (createdPids hist).length + freeTcbs k = tcbsLeft ∧
      (createdPids hist).length + freeStacks k = stacksLeft := by
  refine r.invariant_hist (fun hist k => (createdPids hist).length + freeTcbs k = tcbsLeft ∧
    (createdPids hist).length + freeStacks k = stacksLeft) (fun k h => ?_) ?_
  · simpa [createdPids] using left_of_initialised h
  · intro hist k op r ih hc
    have h := (Pool.of_run (callMachine_of_standard r)).step hc.1
    have hpids : createdPids (hist ++ [(k, op)]) = createdPids hist ++ (op.created k).toList := by
      cases ho : op.created k <;> simp [createdPids, ho]
    have hexec : standardMachine.exec k op = op.next k := rfl
    rw [hpids, List.length_append, hexec]
    split at h
    · rename_i hnone
      have hcr : op.created k = none := by simp [Op.created, hnone]
      simpa [hcr, h.left] using ih
    · rename_i initParam hsome
      obtain ⟨k₁, ret, hcr, hout, hk⟩ := h
      have hnew : op.created k = ret.toOption := by
        rw [Op.created, hsome, Option.bind_some, hcr]
      rw [hnew, hk.left.1, hk.left.2]
      rcases hout.left (hc.2 initParam hsome) with
        ⟨⟨e, rfl, -⟩, rfl, -⟩ | ⟨⟨pid, rfl⟩, ht, hs⟩
      · simpa [Except.toOption] using ih
      · simp only [Except.toOption, Option.toList_some, List.length_singleton]
        omega

/-- **Step lemma.** A creation succeeds when fewer tasks have been created than
either pool had to begin with. -/
theorem created_iff (r : Run standardMachine hist k) {op : Op} {initParam : TskInitParam}
    (hc : standardMachine.Allowed k op) (ho : op.initParam = some initParam) :
    retOf (prtTaskCreate k initParam).2 = osOk ↔
      (createdPids hist).length < tcbsLeft ∧ (createdPids hist).length < stacksLeft := by
  have hsum := created_add_left r
  have hout := (Pool.of_run (callMachine_of_standard r)).prtTaskCreate initParam
  have hstd := hc.2 initParam ho
  obtain ⟨k', ret, hcr⟩ : ∃ k' ret, prtTaskCreate k initParam = (k', ret) := ⟨_, _, rfl⟩
  rw [hcr] at hout ⊢
  rcases hout.left hstd with ⟨⟨e, rfl, he⟩, -, hz⟩ | ⟨⟨pid, rfl⟩, ht, hs⟩
  · exact iff_of_false he (by omega)
  · exact iff_of_true rfl (by omega)

theorem creates_snoc (hist : History) (k : Kernel) (op : Op) :
    creates (hist ++ [(k, op)]) = creates hist + if op.initParam.isSome then 1 else 0 := by
  simp [creates, List.countP_append, List.countP_cons]

/-- When every creation has succeeded the tasks created are the creations. -/
theorem createdPids_length (r : Run standardMachine hist k) (h : AllCreated hist) :
    (createdPids hist).length = creates hist := by
  rw [createdPids, creates, List.length_filterMap_eq_countP]
  refine List.countP_congr fun e he => ?_
  cases ho : e.2.initParam with
  | none => simp [Op.created, ho]
  | some initParam =>
    have P := Pool.of_run_mem (callMachine_of_standard r) e he
    have hout : CreateOutcome e.1 initParam
        ((prtTaskCreate e.1 initParam).1, (prtTaskCreate e.1 initParam).2) :=
      P.prtTaskCreate initParam
    obtain ⟨pid, hpid⟩ := hout.ok_of_ret (h e he initParam ho)
    simp [Op.created, ho, hpid, Except.toOption]

/-- **A run of creations succeeds as a whole exactly when there are no more of them
than either pool had to begin with.** -/
theorem allCreated_iff (r : Run standardMachine hist k) :
    AllCreated hist ↔ creates hist ≤ tcbsLeft ∧ creates hist ≤ stacksLeft := by
  refine r.invariant_hist (fun hist _ => AllCreated hist ↔
    creates hist ≤ tcbsLeft ∧ creates hist ≤ stacksLeft) (fun _ _ => ?_) ?_
  · simp [AllCreated, creates]
  · intro hist k op r ih hc
    rw [creates_snoc]
    have hsnoc : AllCreated (hist ++ [(k, op)]) ↔ AllCreated hist ∧
        ∀ initParam, op.initParam = some initParam →
          retOf (prtTaskCreate k initParam).2 = osOk := by
      simp [AllCreated, or_imp, forall_and]
    rw [hsnoc]
    cases ho : op.initParam with
    | none => simpa using ih
    | some initParam =>
      have hi := created_iff r hc ho
      constructor
      · rintro ⟨hall, hnew⟩
        have hlen := createdPids_length r hall
        have hlt := hi.mp (hnew initParam rfl)
        simp only [Option.isSome_some, ↓reduceIte]
        omega
      · intro h
        simp only [Option.isSome_some, ↓reduceIte] at h
        have hall := ih.mpr (by omega)
        have hlen := createdPids_length r hall
        refine ⟨hall, fun p hp => ?_⟩
        obtain rfl := Option.some.inj hp
        exact hi.mpr (by omega)

/-- Every creation of the run succeeds if at each one there were few enough live tasks. -/
def Reclaims (hist : History) : Prop := WithinCapacity hist → AllCreated hist

/-- **Finished tasks seem to be reclaimed only as long as there is room for all the tasks
that were ever created.** -/
theorem reclaims_iff (r : Run standardMachine hist k) : Reclaims hist ↔
    (WithinCapacity hist → creates hist ≤ tcbsLeft ∧ creates hist ≤ stacksLeft) :=
  imp_congr_right fun _ => allCreated_iff r

/-- The first task creates others of which each exits before the next is created. -/
def shortLivedOps (n : Nat) : List Op :=
  [.taskCreate { taskPrio := 9 }, .taskResume 0, .activate 0] ++
    (List.range n).flatMap fun i =>
      [.taskCreate { taskPrio := 5 }, .taskResume (i + 2), .taskExit]

theorem shortLived_run (n : Nat)
    (h : ∀ e ∈ trace Op.next bootKernel ((shortLivedOps 17).take n),
      standardMachine.Allowed e.1 e.2) :
    Run standardMachine (trace Op.next bootKernel ((shortLivedOps 17).take n))
      (((shortLivedOps 17).take n).foldl Op.next bootKernel) :=
  Run.ofList (M := standardMachine) bootKernel_initialised _ h

/-- The last of 19 creations fails while two tasks are live. -/
theorem shortLived_not_reclaimed :
    Run standardMachine (trace Op.next bootKernel ((shortLivedOps 17).take 52))
      (((shortLivedOps 17).take 52).foldl Op.next bootKernel) ∧
    ¬ Reclaims (trace Op.next bootKernel ((shortLivedOps 17).take 52)) := by
  have r := shortLived_run 52 (by decide +kernel)
  refine ⟨r, fun h => ?_⟩
  have hall := (allCreated_iff r).mp (h (by decide +kernel))
  exact absurd hall (by decide +kernel)

theorem shortLived_reclaimed : Reclaims (trace Op.next bootKernel ((shortLivedOps 17).take 51)) :=
  (reclaims_iff (shortLived_run 51 (by decide +kernel))).mpr fun _ => by decide +kernel

end MiniEuler
