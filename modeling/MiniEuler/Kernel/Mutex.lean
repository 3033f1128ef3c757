import MiniEuler.Kernel.Preempt

/-! Semaphores as mutexes: one unit each, posted back only by the task it was
granted to. Then a semaphore without a unit is owned, by the one task that holds
a grant it has not posted back. -/

namespace MiniEuler
open Library

/-- The use of semaphores as mutexes, `pre` being what has happened so far. -/
def MutexUse (pre : History) (e : Kernel × Op) : Prop :=
  match e.2 with
  | .semCreate count _ => count = 1
  | .osSemCreate _ _ _ _ => False
  | .semPost s => HandOff.Holds e.1.runningTask (semHistory s pre)
  | .uartPost _ => False
  | _ => True

instance (pre : History) (e : Kernel × Op) : Decidable (MutexUse pre e) :=
  match e with
  | (_, .semCreate _ _) => inferInstanceAs (Decidable (_ = _))
  | (_, .osSemCreate _ _ _ _) | (_, .uartPost _) => inferInstanceAs (Decidable False)
  | (_, .semPost _) => inferInstanceAs (Decidable (HandOff.Holds _ _))
  | (_, .taskCreate _) | (_, .taskResume _) | (_, .semPend _ _) | (_, .taskExit)
  | (_, .activate _) => inferInstanceAs (Decidable True)

variable {k k' : Kernel} {ph : Nat → TskPhase} {s : Nat} {evs : List (HandOff.Event Nat)}

/-- Semaphore `s` with history `evs` is a mutex, and `semOwner` tells who holds it. -/
structure MutexSem (s : Nat) (evs : List (HandOff.Event Nat)) (k : Kernel) : Prop where
  refines : Refines s 1 evs k
  disciplined : HandOff.Disciplined evs
  taken : (k.allSem s).semCount = 0 →
    HandOff.Holds (k.allSem s).semOwner evs ∧ (k.allSem s).semOwner ≠ osInvalidOwnerId
  free : 0 < (k.allSem s).semCount → (k.allSem s).semOwner = osInvalidOwnerId

namespace MutexSem

theorem same (M : MutexSem s evs k) (h : SemSame s k k') : MutexSem s evs k' := by
  obtain ⟨R, d, ht, hf⟩ := M
  refine ⟨R.same h, d, ?_, ?_⟩ <;> rw [h.sem] <;> assumption

theorem count_le (M : MutexSem s evs k) : (k.allSem s).semCount ≤ 1 := by
  obtain ⟨h, H, hc, -⟩ := M.refines.hist
  rcases H.one_holder M.disciplined with ⟨h1, -⟩ | ⟨h0, -⟩ <;> omega

/-- Who holds a grant owns the mutex, and the mutex has no unit left. -/
theorem owner_of_holds (M : MutexSem s evs k) {t : Nat} (ht : HandOff.Holds t evs) :
    (k.allSem s).semCount = 0 ∧ (k.allSem s).semOwner = t := by
  obtain ⟨h, H, hc, -⟩ := M.refines.hist
  have hzero : (k.allSem s).semCount = 0 := by
    rcases H.one_holder M.disciplined with ⟨-, hbal⟩ | ⟨h0, -⟩
    · unfold HandOff.Holds at ht
      have := hbal t
      omega
    · omega
  exact ⟨hzero, (H.exclusive M.disciplined (M.taken hzero).1 ht).1⟩

/-- **Step lemma for one mutex.** -/
theorem step {op : Op} {ret : Nat} (e : SemEffect s k op k' ret) (M : MutexSem s evs k)
    (hsmall : k.tskMaxNum < osInvalidOwnerId)
    (huse : op.posts = some s → op = .semPost s ∧ HandOff.Holds k.runningTask evs) :
    MutexSem s (evs ++ semEvents s k op k' ret) k' := by
  have R' := M.refines.step e
  obtain ⟨h, H, hcount, hqueue⟩ := M.refines.hist
  have hle := M.count_le
  cases e with
  | same hs hev _ =>
    rw [hev, List.append_nil]
    exact M.same hs
  | took _ hrun hpos hsem _ hev =>
    rw [hev] at R' ⊢
    refine ⟨R', M.disciplined.append (by simp), ?_, ?_⟩ <;> rw [hsem]
    · exact fun _ => ⟨H.holds_took M.disciplined _ (by omega), by simp only; omega⟩
    · intro hp
      simp only at hp
      omega
  | blocked _ hzero hsem _ hev =>
    rw [hev] at R' ⊢
    refine ⟨R', M.disciplined.append (by simp), ?_, ?_⟩ <;> rw [hsem]
    · exact fun h0 => ⟨(HandOff.holds_blocked _ _ _).mpr (M.taken h0).1, (M.taken h0).2⟩
    · exact M.free
  | woke ho _ _ hw hsem _ _ hev =>
    obtain ⟨rfl, hold⟩ := huse ho
    have hzero := (M.owner_of_holds hold).1
    rw [hev] at R' ⊢
    refine ⟨R', M.disciplined.append ?_, ?_, ?_⟩
    · rintro p woken he
      cases he
      exact ⟨_, rfl, hold⟩
    · rw [hsem]
      exact fun _ => ⟨H.holds_woken M.disciplined hold, by simp only; omega⟩
    · rw [hsem]
      intro hp
      simp only at hp
      omega
  | released ho _ _ _ hsem _ hev =>
    obtain ⟨rfl, hold⟩ := huse ho
    rw [hev] at R' ⊢
    refine ⟨R', M.disciplined.append ?_, ?_, ?_⟩
    · rintro p woken he
      cases he
      exact ⟨_, rfl, hold⟩
    · rw [hsem]
      intro h0
      simp at h0
    · rw [hsem]
      exact fun _ => rfl

end MutexSem

/-- Every used semaphore is a mutex, and nothing has happened at an unused one. -/
def AllMutex (hist : History) (k : Kernel) : Prop :=
  ∀ s, ((k.allSem s).semStat = osSemUsed ∧ MutexSem s (semHistory s hist) k) ∨
    ((k.allSem s).semStat = osSemUnused ∧ semHistory s hist = [])

theorem semEvents_unused {op : Op} {ret : Nat} (e : Effect k ph op k' ret)
    (hun : (k.allSem s).semStat = osSemUnused) : semEvents s k op k' ret = [] := by
  cases e with
  | failed hr _ => exact semEvents_failed hr
  | created _ _ => rfl
  | resumed _ => rfl
  | semCreated hcr _ => cases op <;> simp [Op.creates] at hcr <;> rfl
  | @took s' _ _ hu _ =>
    have hne : s' ≠ s := by rintro rfl; exact hu hun
    simp [semEvents, hne]
  | @blocked s' hB =>
    have hne : s' ≠ s := by rintro rfl; exact hB.used hun
    simp [semEvents, hne]
  | @unsupported s' _ hB _ =>
    have hne : s' ≠ s := by rintro rfl; exact hB.used hun
    simp [semEvents, hne]
  | @full _ s' ho hP _ =>
    refine semEvents_other (by rintro t rfl; cases ho) ?_
    rw [ho]
    exact fun h => hP.used (Option.some.inj h ▸ hun)
  | @woke _ s' ho hP _ _ =>
    refine semEvents_other (by rintro t rfl; cases ho) ?_
    rw [ho]
    exact fun h => hP.used (Option.some.inj h ▸ hun)
  | @released _ s' ho hP _ _ =>
    refine semEvents_other (by rintro t rfl; cases ho) ?_
    rw [ho]
    exact fun h => hP.used (Option.some.inj h ▸ hun)
  | exited => rfl
  | activated _ => rfl

/-- A new semaphore of one unit is a free mutex. -/
theorem MutexSem.created {rest : List Nat} :
    MutexSem s [] (semCreatedKernel k s rest (createdSem k s 1 semTypeCount .fifo)) := by
  have hsem : (semCreatedKernel k s rest (createdSem k s 1 semTypeCount .fifo)).allSem s =
      createdSem k s 1 semTypeCount .fifo := by simp [semCreatedKernel]
  have hlist :
      (semCreatedKernel k s rest (createdSem k s 1 semTypeCount .fifo)).semList s = [] := by
    simp [semCreatedKernel, Kernel.semList]
  refine ⟨⟨?_, ?_, ?_, ?_, HandOff.new 1, .new, ?_, hlist.symm⟩, HandOff.Disciplined.nil, ?_, ?_⟩
    <;> rw [hsem]
  · rfl
  · rfl
  · rfl
  · exact Nat.le_of_ble_eq_true rfl
  · rfl
  · intro h
    cases h
  · exact fun _ => rfl

/-- **Run lemma.** When semaphores are used as mutexes they are mutexes. -/
theorem AllMutex.of_run {hist : History} (r : Run supportedMachine hist k)
    (hm : Always MutexUse hist) : AllMutex hist k := by
  revert hm
  refine r.invariant_hist (fun hist k => Always MutexUse hist → AllMutex hist k) ?_ ?_
  · intro k hk _ s
    refine Or.inr ⟨?_, rfl⟩
    obtain ⟨_, _, _, k₁, -, h₂⟩ := hk
    obtain ⟨used, rfl⟩ := osSemInit_eq _ _ h₂
    by_cases h : s < 73 <;> simp [h, osSemUnused]
  · rintro hist k op r ih ⟨hc, hsup⟩ hm s
    obtain ⟨hpast, huse⟩ := (always_snoc MutexUse hist (k, op)).mp hm
    obtain ⟨ph, I⟩ := Inv.of_run r
    have e := op.effect I.linked I.lock hc
    rw [semHistory_snoc]
    rcases ih hpast s with ⟨hused, M⟩ | ⟨hun, hnil⟩
    · left
      have M' := M.step (M.refines.semEffect I e hc hsup) I.small (fun ho => ?_)
      · exact ⟨M'.refines.used, M'⟩
      · cases op with
        | semPost s' =>
          obtain rfl := Option.some.inj ho
          exact ⟨rfl, huse⟩
        | uartPost s' => exact absurd huse (by simp [MutexUse])
        | _ => cases ho
    · rw [hnil, semEvents_unused e hun, List.nil_append]
      rcases e.unused I hc hun with hs | ⟨rest, count, semType, semMode, hcr, hk'⟩
      · right
        refine ⟨?_, rfl⟩
        change ((op.next k).allSem s).semStat = _
        rw [hs.sem]
        exact hun
      · left
        have hone : (count, semType, semMode) = (1, semTypeCount, .fifo) := by
          cases op with
          | semCreate c null =>
            obtain rfl : c = 1 := huse
            exact (Option.some.inj hcr).symm
          | osSemCreate _ _ _ _ => exact absurd huse (by simp [MutexUse])
          | _ => cases hcr
        cases hone
        change ((op.next k).allSem s).semStat = _ ∧ MutexSem s [] (op.next k)
        rw [hk']
        exact ⟨MutexSem.created.refines.used, MutexSem.created⟩

end MiniEuler
