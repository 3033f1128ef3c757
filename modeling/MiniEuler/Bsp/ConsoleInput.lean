import MiniEuler.Bsp.Console

/-! What `ShellTask` gets of the characters the UART receives: whether a token of
`sem_uart_rx` stands for each of them, and whether they come in order. -/

namespace MiniEuler
open Library

variable {hist : ConsoleHistory} {x : Console} {a : ConsoleAct}

/-! ## Tokens -/

/-- The grant that `ShellTask` has received and not turned into a read yet. -/
def Console.granted (x : Console) : Nat :=
  if x.shellPc = .read ∧ x.shellTask ∉ x.kernel.semList x.semUartRx then 1 else 0

/-- The characters stored and not fetched. -/
def unread (hist : ConsoleHistory) : Nat := (stored hist).length - (fetched hist).length

/-- Each unread character has a token, and a shell that waits has left none unread. -/
def TokensMatch (hist : ConsoleHistory) (x : Console) : Prop :=
  (x.kernel.allSem x.semUartRx).semCount + x.granted + (fetched hist).length =
      (stored hist).length ∧
    (x.shellTask ∈ x.kernel.semList x.semUartRx → (fetched hist).length = (stored hist).length)

/-- `PRT_UartInit` has returned, and no handler is between its store and its post. -/
def Console.Settled (x : Console) : Prop :=
  x.uartInit = .returned osOk ∧ ¬ AtUartPost x.toSystem

/-- The characters stored before `PRT_SemCreate` has made `sem_uart_rx`. -/
def storedEarly (hist : ConsoleHistory) : Nat :=
  hist.countP fun e => (e.2.stores e.1).isSome && !e.1.uartInit.isReturned

theorem storedEarly_snoc : storedEarly (hist ++ [(x, a)]) = storedEarly hist +
    if (a.stores x).isSome && !x.uartInit.isReturned then 1 else 0 := by
  simp [storedEarly, List.countP_append, List.countP_cons]

namespace ConsoleInv

variable (J : ConsoleInv hist x)
include J

/-- The shell is the only task that waits, and it waits once. -/
theorem granted_add (hr : x.uartInit.isReturned = true) :
    x.granted + (x.kernel.semList x.semUartRx).length = x.reading := by
  have A := J.after hr
  obtain ⟨ph, I⟩ := J.kernel
  have hnodup : (x.kernel.semList x.semUartRx).Nodup := I.linked.placed.nodup _
  rcases hl : x.kernel.semList x.semUartRx with _ | ⟨p, rest⟩
  · simp [Console.granted, Console.reading, hl]
  · obtain ⟨hp, hpc⟩ := A.waits p (by simp [hl])
    have hrest : rest = [] := by
      rw [List.eq_nil_iff_forall_not_mem]
      intro q hq
      rw [hl] at hnodup
      have hqp : q = p := (A.waits q (by simp [hl, hq])).1.trans hp.symm
      exact (List.nodup_cons.mp hnodup).1 (hqp ▸ hq)
    subst hrest
    simp [Console.granted, Console.reading, hl, hp, hpc]

theorem balance (hr : x.uartInit.isReturned = true) :
    (x.kernel.allSem x.semUartRx).semCount + x.granted + x.underway + lost hist +
      (fetched hist).length = (stored hist).length := by
  have hbal := (J.after hr).balance
  have hg := J.granted_add hr
  omega

/-- **Tokens match exactly when no post has been refused.** -/
theorem tokensMatch_iff_lost (hs : x.Settled) : TokensMatch hist x ↔ lost hist = 0 := by
  have hr : x.uartInit.isReturned = true := by rw [hs.1]; rfl
  have hbal := J.balance hr
  rw [show x.underway = 0 from if_neg hs.2] at hbal
  constructor
  · rintro ⟨h, -⟩
    omega
  · intro h
    refine ⟨by omega, fun hwait => ?_⟩
    obtain ⟨ph, I⟩ := J.kernel
    have hzero := (I.sems.waiting _ _ (I.linked.mem_semList.mp hwait)).2
    have hg : x.granted = 0 := if_neg fun h => h.2 hwait
    omega

end ConsoleInv

/-- `PRT_UartInit` returns once, with its semaphore made. -/
theorem isReturned_exec (ha : consoleMachine.Allowed x a) :
    (a.exec x).uartInit.isReturned = true ↔ x.uartInit.isReturned = true ∨ a = .semCreate := by
  cases a with
  | enableInt =>
    have h : x.uartInit = .enableInt := ha.2
    simp [ConsoleAct.exec, UartInitPc.isReturned, h]
  | semCreate =>
    simp only [ConsoleAct.exec, prtUartInitSemCreate, or_true, iff_true]
    split <;> rfl
  | _ => simp [ConsoleAct.exec]

/-- As long as the semaphore has room, it is the early characters that lose their tokens. -/
theorem lost_eq_storedEarly (r : Run consoleMachine hist x)
    (hfew : ∀ pre, pre <+: hist → unread pre < osSemCountMax) :
    (x.uartInit.isReturned = false → storedEarly hist = (stored hist).length) ∧
    (x.uartInit.isReturned = true → lost hist = storedEarly hist) := by
  induction r with
  | start h => exact ⟨fun _ => rfl, fun _ => rfl⟩
  | @step hist x a r ha ih =>
    have J := ConsoleInv.of_run r
    obtain ⟨hbefore, hafter⟩ := ih fun pre hpre => hfew pre (hpre.trans (List.prefix_append _ _))
    have hnow := hfew hist (List.prefix_append _ _)
    have hexec := isReturned_exec ha
    cases hret : x.uartInit.isReturned with
    | false =>
      have hall : storedEarly (hist ++ [(x, a)]) = (stored (hist ++ [(x, a)])).length := by
        rw [storedEarly_snoc, stored_snoc, hbefore hret, hret]
        cases a.stores x <;> simp
      refine ⟨fun _ => hall, fun hr => ?_⟩
      rw [hall]
      rcases hexec.mp hr with h | rfl
      · rw [hret] at h
        cases h
      · have hbal := (J.before hret).balance
        rw [J.underway_none ha.1] at hbal
        rw [lost_snoc, stored_snoc]
        simpa [ConsoleAct.Loses, ConsoleAct.stores] using hbal
    | true =>
      have hstays : (ConsoleAct.exec x a).uartInit.isReturned = true := hexec.mpr (Or.inl hret)
      refine ⟨fun hr => absurd (hstays.symm.trans hr) (by decide), fun _ => ?_⟩
      have hbal := J.balance hret
      have hkeeps : ¬ a.Loses x := by
        intro hl
        cases a with
        | sys a =>
          cases a with
          | hwi =>
            obtain ⟨ph, I⟩ := J.kernel
            obtain ⟨evs, R⟩ := (J.after hret).refines
            refine hl.2 (prtSemPost_ret ⟨I.lt_maxSem R.used, by rw [R.used]; decide, ?_⟩)
            unfold unread at hnow
            omega
          | _ => exact hl
        | _ => exact hl
      rw [lost_snoc, if_neg hkeeps, storedEarly_snoc, hafter hret]
      simp [hret]

/-- What a property of states says of a run. -/
def InEveryState (P : ConsoleHistory → Console → Prop) (hist : ConsoleHistory) (x : Console) :
    Prop :=
  Always (fun pre e => P pre e.1) hist ∧ P hist x

theorem ConsoleInv.tokensMatch (J : ConsoleInv hist x) (r : Run consoleMachine hist x)
    (hfew : ∀ pre, pre <+: hist → unread pre < osSemCountMax) (hs : x.Settled) :
    TokensMatch hist x ↔ storedEarly hist = 0 := by
  rw [J.tokensMatch_iff_lost hs, (lost_eq_storedEarly r hfew).2 (by rw [hs.1]; rfl)]

/-- When `PRT_UartInit` returns, the early characters show. -/
theorem storedEarly_of_match (r : Run consoleMachine hist x)
    (hfew : ∀ pre, pre <+: hist → unread pre < osSemCountMax)
    (hret : x.uartInit.isReturned = true)
    (hall : InEveryState (fun pre y => y.Settled → TokensMatch pre y) hist x) :
    storedEarly hist = 0 := by
  induction r with
  | @start x h =>
    rw [h.uartInit] at hret
    cases hret
  | @step hist x a r ha ih =>
    have J := ConsoleInv.of_run r
    have J' := J.step ha
    cases hx : x.uartInit.isReturned with
    | true =>
      rw [storedEarly_snoc, hx]
      simpa using ih (fun pre hpre => hfew pre (hpre.trans (List.prefix_append _ _))) hx
        ((always_snoc _ _ _).mp hall.1)
    | false =>
      rcases (isReturned_exec ha).mp hret with h | rfl
      · rw [hx] at h
        cases h
      have hdispatch : (prtUartInitSemCreate x).dispatch = x.dispatch := by
        unfold prtUartInitSemCreate
        split <;> rfl
      have hs : Console.Settled (prtUartInitSemCreate x) := by
        refine ⟨(J'.after hret).returned, fun hpost => ?_⟩
        refine J.no_post ha.1 (prtUartInitSemCreate x).kernel.runningTask ?_
        rw [← hdispatch]
        exact hpost
      exact (J'.tokensMatch (r.step ha) hfew hs).mp (hall.2 hs)

theorem match_of_storedEarly (r : Run consoleMachine hist x)
    (hfew : ∀ pre, pre <+: hist → unread pre < osSemCountMax) (hearly : storedEarly hist = 0) :
    InEveryState (fun pre y => y.Settled → TokensMatch pre y) hist x := by
  induction r with
  | @start x h =>
    refine ⟨always_nil _, fun hs => ?_⟩
    cases h.uartInit.symm.trans hs.1
  | @step hist x a r ha ih =>
    have hpast : storedEarly hist = 0 := by
      rw [storedEarly_snoc] at hearly
      omega
    have hall := ih (fun pre hpre => hfew pre (hpre.trans (List.prefix_append _ _))) hpast
    have r' := r.step ha
    refine ⟨(always_snoc _ _ _).mpr hall, fun hs => ?_⟩
    exact ((ConsoleInv.of_run r').tokensMatch r' hfew hs).mpr hearly

/-- **Tokens match unread characters exactly in the runs in which no character is stored before
the semaphore has been created.** -/
theorem tokensMatch_iff (r : Run consoleMachine hist x) (hret : x.uartInit = .returned osOk)
    (hfew : ∀ pre, pre <+: hist → unread pre < osSemCountMax) :
    InEveryState (fun pre y => y.Settled → TokensMatch pre y) hist x ↔ storedEarly hist = 0 :=
  ⟨storedEarly_of_match r hfew (by rw [hret]; rfl), match_of_storedEarly r hfew⟩

/-- The system when `main` calls `PRT_UartInit`; the shell will be task 0. -/
def consoleBoot : Console where
  toSystem := bootSystem
  uartInit := .enableInt
  shellTask := 0
  shellPc := .pend
  shellBufReadOffset := ⟨0, shellShowMaxLen_pos⟩

theorem consoleBoot_start : ConsoleStart consoleBoot where
  system := bootSystem_start
  semUartRx := rfl
  rxFifo := rfl
  shell := rfl
  uartInit := rfl
  shellPc := rfl
  readOffset := rfl

/-- A character arrives, and its interrupt is handled. -/
def keyActs : List ConsoleAct :=
  [.sys (.rx 97), .sys (.irq 33), .sys .hwi, .sys .hwi, .sys .hwi, .sys .hwi]

/-- The shell is created and started, and asks for a character. -/
def shellActs : List ConsoleAct :=
  [.sys (.call (.taskCreate { taskPrio := 9 })), .sys (.call (.taskResume 0)),
    .sys (.call (.activate 0)), .pend]

/-- Two characters come while the shell is at work, the second while the first is handled, and the
timer ticks. The shell goes on until it waits. -/
def busyActs : List ConsoleAct :=
  [.sys (.rx 98), .sys (.irq 33), .sys .hwi, .sys (.rx 99)] ++ List.replicate 5 (.sys .hwi) ++
    [.read, .pend, .sys (.irq 30), .sys .hwi, .sys .hwi, .read, .pend, .read, .pend]

/-- The post of the next character wakes the shell, and the handler goes on when it waits again. -/
def wokenActs : List ConsoleAct :=
  [.sys (.rx 100), .sys (.irq 33), .sys .hwi, .sys .hwi, .read, .pend, .sys .hwi, .sys .hwi]

def busyShellActs : List ConsoleAct :=
  [.enableInt, .semCreate] ++ keyActs ++ shellActs ++ busyActs ++ wokenActs

theorem unread_le_length (hist : ConsoleHistory) : unread hist ≤ hist.length :=
  (Nat.sub_le _ _).trans (List.length_filterMap_le _ _)

theorem tokensMatch_busyShell :
    InEveryState (fun pre y => y.Settled → TokensMatch pre y)
      (trace ConsoleAct.exec consoleBoot busyShellActs)
      (busyShellActs.foldl ConsoleAct.exec consoleBoot) := by
  refine (tokensMatch_iff (Run.ofList (M := consoleMachine) consoleBoot_start busyShellActs
    (by decide +kernel)) (by decide +kernel) fun pre hpre => ?_).mpr (by decide +kernel)
  have hlen : pre.length ≤ 38 := hpre.length_le
  have := unread_le_length pre
  unfold osSemCountMax
  omega

/-- A character that comes before `PRT_SemCreate`. -/
def earlyKeyActs : List ConsoleAct := [.enableInt] ++ keyActs ++ [.semCreate] ++ shellActs

/-- The shell waits, and the character that has come is not fetched. -/
theorem earlyKey_not_matched :
    Run consoleMachine (trace ConsoleAct.exec consoleBoot earlyKeyActs)
      (earlyKeyActs.foldl ConsoleAct.exec consoleBoot) ∧
    (earlyKeyActs.foldl ConsoleAct.exec consoleBoot).Settled ∧
    unread (trace ConsoleAct.exec consoleBoot earlyKeyActs) = 1 ∧
    ¬ TokensMatch (trace ConsoleAct.exec consoleBoot earlyKeyActs)
      (earlyKeyActs.foldl ConsoleAct.exec consoleBoot) ∧
    (earlyKeyActs.foldl ConsoleAct.exec consoleBoot).kernel.semList 0 = [0] := by
  refine ⟨Run.ofList (M := consoleMachine) consoleBoot_start earlyKeyActs (by decide +kernel),
    ⟨by decide +kernel, by decide +kernel⟩, by decide +kernel, fun h => ?_, by decide +kernel⟩
  exact absurd h.1 (by decide +kernel)

/-! ## Order -/

/-- The next character that `ShellTask` has to fetch is in its slot: the last one stored there is
the same character. -/
def SlotKept (hist : ConsoleHistory) : Prop :=
  (stored hist)[lastInSlot shellShowMaxLen (fetched hist).length (stored hist).length]? =
    (stored hist)[(fetched hist).length]?

instance (hist : ConsoleHistory) : Decidable (SlotKept hist) := inferInstanceAs (Decidable (_ = _))

/-- At most `SHELL_SHOW_MAX_LEN` unread characters fit into the buffer. -/
theorem slotKept_of_unread_le (hlt : (fetched hist).length < (stored hist).length)
    (h : unread hist ≤ shellShowMaxLen) : SlotKept hist := by
  unfold unread at h
  rw [SlotKept, lastInSlot_eq hlt (by omega)]

namespace ConsoleInv

variable (J : ConsoleInv hist x)
include J

theorem fetched_le : (fetched hist).length ≤ (stored hist).length := by
  cases hr : x.uartInit.isReturned with
  | false => simp [(J.before hr).noneFetched]
  | true =>
    have := J.balance hr
    omega

/-- The shell reads when it has been granted a token, so there is a character for it. -/
theorem fetched_lt (ha : consoleMachine.Allowed x .read) :
    (fetched hist).length < (stored hist).length := by
  obtain ⟨-, ⟨hret, hb, -, hshell⟩, hpc⟩ := ha
  obtain ⟨ph, I⟩ := J.kernel
  have hbal := J.balance hret
  have hgrant : x.granted = 1 := by
    refine if_pos ⟨hpc, fun hwait => ?_⟩
    have := I.linked.mem_semList.mp hwait
    rw [← hshell, (I.active hb).1] at this
    cases this
  omega

theorem nextChar (hlt : (fetched hist).length < (stored hist).length) :
    (stored hist)[lastInSlot shellShowMaxLen (fetched hist).length (stored hist).length]? =
      some x.nextChar :=
  J.buffer.read hlt J.readOffset

/-- What has been stored has been received, in that order. -/
theorem received_getElem {k : Nat} (hk : k < (stored hist).length) :
    (received hist)[k]? = (stored hist)[k]? := by
  rw [J.arrived, List.getElem?_append_left hk]

end ConsoleInv

/-- Each character fetched is the one received at its place. -/
def InOrder (hist : ConsoleHistory) : Prop :=
  ∀ (k : Nat) (c : BitVec 8), (fetched hist)[k]? = some c → (received hist)[k]? = some c

/-- A step that fetches nothing keeps the order. -/
theorem inOrder_other (J : ConsoleInv hist x) (h : a.fetches x = none) :
    InOrder (hist ++ [(x, a)]) ↔ InOrder hist := by
  unfold InOrder
  rw [fetched_snoc, received_snoc, h, Option.toList_none, List.append_nil]
  have hget : ∀ (k : Nat) (c : BitVec 8), (fetched hist)[k]? = some c →
      (received hist ++ a.receives.toList)[k]? = (received hist)[k]? := by
    intro k c hk
    obtain ⟨hlt, -⟩ := List.getElem?_eq_some_iff.mp hk
    have hle := J.fetched_le
    have harr := congrArg List.length J.arrived
    rw [List.length_append] at harr
    exact List.getElem?_append_left (by omega)
  constructor
  · intro hord k c hk
    rw [← hget k c hk]
    exact hord k c hk
  · intro hord k c hk
    rw [hget k c hk]
    exact hord k c hk

/-- **Step lemma.** A read keeps the order exactly when its slot has been kept. -/
theorem inOrder_read (J : ConsoleInv hist x) (ha : consoleMachine.Allowed x .read) :
    InOrder (hist ++ [(x, .read)]) ↔ InOrder hist ∧ SlotKept hist := by
  have hlt := J.fetched_lt ha
  have hnext := J.nextChar hlt
  have hft : fetched (hist ++ [(x, .read)]) = fetched hist ++ [x.nextChar] := fetched_snoc
  have hrec : received (hist ++ [(x, .read)]) = received hist := by
    simp [received_snoc, ConsoleAct.receives]
  rw [SlotKept, hnext, ← J.received_getElem hlt]
  unfold InOrder
  rw [hft, hrec]
  constructor
  · intro hord
    refine ⟨fun k c hk => ?_, ?_⟩
    · obtain ⟨hklt, -⟩ := List.getElem?_eq_some_iff.mp hk
      exact hord k c (by rw [List.getElem?_append_left hklt]; exact hk)
    · exact (hord (fetched hist).length x.nextChar (by simp)).symm
  · rintro ⟨hord, hkept⟩ k c hk
    rcases lt_or_ge k (fetched hist).length with hklt | hge
    · rw [List.getElem?_append_left hklt] at hk
      exact hord k c hk
    · rw [List.getElem?_append_right hge, List.getElem?_singleton] at hk
      split at hk
      · obtain rfl := Option.some.inj hk
        rw [hkept]
        congr 1
        omega
      · cases hk

/-- **Input is in order exactly when the shell always reads a slot that has been kept.** -/
theorem inOrder_iff (r : Run consoleMachine hist x) :
    InOrder hist ↔ Always (fun pre e => e.2 = .read → SlotKept pre) hist := by
  induction r with
  | start h =>
    refine iff_of_true (fun k c hk => ?_) (always_nil _)
    simp [fetched] at hk
  | @step hist x a r ha ih =>
    have J := ConsoleInv.of_run r
    rw [always_snoc, ← ih]
    by_cases hread : a = .read
    · subst hread
      rw [inOrder_read J ha]
      simp
    · have hnone : a.fetches x = none := by cases a <;> first | rfl | exact absurd rfl hread
      rw [inOrder_other J hnone]
      simp [hread]

theorem inOrder_busyShell :
    InOrder (trace ConsoleAct.exec consoleBoot busyShellActs) ∧
    fetched (trace ConsoleAct.exec consoleBoot busyShellActs) = [97, 98, 99, 100] := by
  have r : Run consoleMachine (trace ConsoleAct.exec consoleBoot busyShellActs)
      (busyShellActs.foldl ConsoleAct.exec consoleBoot) :=
    Run.ofList (M := consoleMachine) consoleBoot_start busyShellActs (by decide +kernel)
  exact ⟨(inOrder_iff r).mpr (by decide +kernel), by decide +kernel⟩

/-- The UART receives a character, and the handler stores it and posts. -/
def handledActs (c : BitVec 8) : List ConsoleAct := [.sys (.rx c), .sys .hwi, .sys .hwi]

/-- While the shell is at work 273 characters arrive one by one, of which only the last is
different. -/
def overrunActs : List ConsoleAct :=
  [.enableInt, .semCreate] ++ shellActs.take 3 ++ [.sys (.irq 33)] ++
    (List.replicate 272 (handledActs 97)).flatten ++ handledActs 98 ++
    [.sys .hwi, .sys .hwi, .pend, .read]

/-- The shell fetches the last character first. -/
theorem overrun_not_inOrder :
    Run consoleMachine (trace ConsoleAct.exec consoleBoot overrunActs)
      (overrunActs.foldl ConsoleAct.exec consoleBoot) ∧
    ¬ InOrder (trace ConsoleAct.exec consoleBoot overrunActs) := by
  have hrun : (∀ e ∈ trace consoleMachine.exec consoleBoot overrunActs,
      consoleMachine.Allowed e.1 e.2) ∧
      (fetched (trace ConsoleAct.exec consoleBoot overrunActs))[0]? = some 98 ∧
      (received (trace ConsoleAct.exec consoleBoot overrunActs))[0]? = some 97 := by
    decide +kernel
  refine ⟨Run.ofList (M := consoleMachine) consoleBoot_start overrunActs hrun.1, fun h => ?_⟩
  have := h 0 98 hrun.2.1
  rw [hrun.2.2] at this
  exact absurd this (by decide)

end MiniEuler
