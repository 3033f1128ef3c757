import MiniEuler.Kernel.Pool
import MiniEuler.Bsp.Switch
import MiniEuler.Library.CyclicBuffer

/-! Console input: `PRT_UartInit`, the handler of the UART interrupt and the reads of
`ShellTask`, from the time `main` calls `PRT_UartInit` on. `CoreTimerInit` has unmasked
IRQs by then. -/

namespace MiniEuler
open Library

/-- Where `main` is in `PRT_UartInit`: at `OsGicEnableInt(33)`, at `PRT_SemCreate`, or back. -/
inductive UartInitPc
  | enableInt
  | semCreate
  | returned (ret : Nat)
  deriving DecidableEq, Repr

def UartInitPc.isReturned : UartInitPc → Bool
  | .returned _ => true
  | _ => false

/-- Where `ShellTask` is: before its pend, with a line or a command in hand, or behind the
pend and before its read of the buffer. -/
inductive ShellPc
  | pend
  | read
  deriving DecidableEq, Repr

structure Console extends System where
  uartInit : UartInitPc
  shellTask : Nat
  shellPc : ShellPc
  shellBufReadOffset : Fin shellShowMaxLen

theorem shellShowMaxLen_pos : 0 < shellShowMaxLen := by decide

/-- `shellBufReadOffset++`, with the wrap. -/
def nextReadOffset (o : Fin shellShowMaxLen) : Fin shellShowMaxLen :=
  if h : o.val + 1 = shellShowMaxLen then ⟨0, shellShowMaxLen_pos⟩ else ⟨o.val + 1, by omega⟩

theorem nextReadOffset_val (o : Fin shellShowMaxLen) :
    (nextReadOffset o).val = (o.val + 1) % shellShowMaxLen := by
  have := o.isLt
  unfold nextReadOffset
  split
  · rename_i h
    rw [h, Nat.mod_self]
  · rw [Nat.mod_eq_of_lt (by omega)]

/-- `PRT_SemCreate(0, &sem_uart_rx)`, the last call of `PRT_UartInit`. -/
def prtUartInitSemCreate (x : Console) : Console :=
  match prtSemCreate x.kernel 0 false with
  | (k, .ok h) => { x with kernel := k, semUartRx := h, uartInit := .returned osOk }
  | (k, .error _) => { x with kernel := k, uartInit := .returned 1 }

namespace Console

/-- `ch = shellCB->shellBuf[shellCB->shellBufReadOffset]`. -/
def nextChar (x : Console) : BitVec 8 := x.shell.shellBuf[x.shellBufReadOffset]

/-- The kernel runs `ShellTask`, which `main` creates after `PRT_UartInit`. -/
def ShellRuns (x : Console) : Prop :=
  x.uartInit.isReturned = true ∧ bgdActive x.kernel ∧
    x.kernel.runningTask ≠ x.kernel.idleTaskId ∧ x.kernel.runningTask = x.shellTask

instance (x : Console) : Decidable x.ShellRuns := inferInstanceAs (Decidable (_ ∧ _ ∧ _ ∧ _))

end Console

/-- The call neither pends on `s` nor posts it. -/
def Op.Avoids (s : Nat) : Op → Prop
  | .semPend s' _ | .semPost s' | .uartPost s' => s' ≠ s
  | _ => True

instance (s : Nat) (op : Op) : Decidable (op.Avoids s) :=
  match op with
  | .semPend _ _ | .semPost _ | .uartPost _ => inferInstanceAs (Decidable (_ ≠ _))
  | .taskCreate _ | .taskResume _ | .semCreate _ _ | .osSemCreate _ _ _ _ | .taskExit
  | .activate _ => inferInstanceAs (Decidable True)

theorem Op.Avoids.posts_ne {op : Op} {s : Nat} (h : op.Avoids s) : op.posts ≠ some s := by
  intro ho
  cases op <;> cases ho <;> exact h rfl

theorem Op.Avoids.frame {op : Op} {s : Nat} (h : op.Avoids s) :
    (∀ timeout, op ≠ .semPend s timeout) ∧ op.posts ≠ some s := by
  cases op with
  | semPend s' t => exact ⟨fun _ he => h (Op.semPend.inj he).1, by simp [Op.posts]⟩
  | semPost s' => exact ⟨by simp, fun he => h (Option.some.inj he)⟩
  | uartPost s' => exact ⟨by simp, fun he => h (Option.some.inj he)⟩
  | _ => exact ⟨by simp, by simp [Op.posts]⟩

inductive ConsoleAct
  /-- `OsGicEnableInt(33)` in `PRT_UartInit`. -/
  | enableInt
  | semCreate
  /-- `PRT_SemPend(sem_uart_rx, OS_WAIT_FOREVER)` in `ShellTask`. -/
  | pend
  /-- The read of `shellBuf` in `ShellTask`. -/
  | read
  /-- An interrupt, or a call about another semaphore or about tasks. -/
  | sys (a : SysAct)
  deriving DecidableEq

def ConsoleAct.exec (x : Console) : ConsoleAct → Console
  | .enableInt => { x with uartInit := .semCreate }
  | .semCreate => prtUartInitSemCreate x
  | .pend =>
    { x with
      kernel := (Op.semPend x.semUartRx osWaitForever).next x.kernel
      shellPc := .read }
  | .read => { x with shellBufReadOffset := nextReadOffset x.shellBufReadOffset, shellPc := .pend }
  | .sys a => { x with toSystem := a.exec x.toSystem }

/-- Only `OsUartRxHandle` posts `sem_uart_rx` and only `ShellTask`, which does not return,
pends on it; the interrupt of the UART comes once it is enabled. -/
def ConsoleAct.Allowed (x : Console) : ConsoleAct → Prop
  | .enableInt => x.current = none ∧ x.uartInit = .enableInt
  | .semCreate => x.current = none ∧ x.uartInit = .semCreate
  | .pend => x.current = none ∧ x.ShellRuns ∧ x.shellPc = .pend
  | .read => x.current = none ∧ x.ShellRuns ∧ x.shellPc = .read
  | .sys (.call op) => SysAct.Allowed x.toSystem (.call op) ∧ x.uartInit.isReturned = true ∧
      op.Avoids x.semUartRx ∧ (x.ShellRuns → x.shellPc = .pend ∧ op ≠ .taskExit)
  | .sys (.irq irqNum) => SysAct.Allowed x.toSystem (.irq irqNum) ∧
      (irqNum = 33 → x.uartInit ≠ .enableInt)
  | .sys a => a.Allowed x.toSystem

/-- The system when `main` calls `PRT_UartInit`. -/
structure ConsoleStart (x : Console) : Prop where
  system : hwiMachine.Start x.toSystem
  semUartRx : x.semUartRx = 0
  rxFifo : x.rxFifo = []
  shell : x.shell.shellBufOffset = 0
  uartInit : x.uartInit = .enableInt
  shellPc : x.shellPc = .pend
  readOffset : x.shellBufReadOffset.val = 0

def consoleMachine : Machine Console ConsoleAct where
  Start := ConsoleStart
  Allowed := ConsoleAct.Allowed
  exec := ConsoleAct.exec

instance (x : Console) (a : ConsoleAct) : Decidable (consoleMachine.Allowed x a) :=
  match a with
  | .enableInt | .semCreate => inferInstanceAs (Decidable (_ ∧ _))
  | .pend | .read => inferInstanceAs (Decidable (_ ∧ _ ∧ _))
  | .sys (.call op) =>
    inferInstanceAs (Decidable (hwiMachine.Allowed x.toSystem (.call op) ∧ _ ∧ _ ∧ _))
  | .sys (.irq n) =>
    inferInstanceAs (Decidable (hwiMachine.Allowed x.toSystem (.irq n) ∧ _))
  | .sys (.rx c) => inferInstanceAs (Decidable (hwiMachine.Allowed x.toSystem (.rx c)))
  | .sys .hwi => inferInstanceAs (Decidable (hwiMachine.Allowed x.toSystem .hwi))

abbrev ConsoleHistory := List (Console × ConsoleAct)

/-! ## The characters of a run -/

/-- The character that the UART receives in a step. -/
def ConsoleAct.receives : ConsoleAct → Option (BitVec 8)
  | .sys (.rx c) => some c
  | _ => none

/-- The character that the handler stores in a step. -/
def ConsoleAct.stores (x : Console) : ConsoleAct → Option (BitVec 8)
  | .sys .hwi => if x.current = some ⟨33, .handle⟩ then x.rxFifo.head? else none
  | _ => none

/-- The character that `ShellTask` fetches in a step. -/
def ConsoleAct.fetches (x : Console) : ConsoleAct → Option (BitVec 8)
  | .read => some x.nextChar
  | _ => none

/-- A post of the handler that is refused. -/
def ConsoleAct.Loses (x : Console) : ConsoleAct → Prop
  | .sys .hwi => AtUartPost x.toSystem ∧ (prtSemPost x.kernel x.semUartRx).2 ≠ osOk
  | _ => False

instance (x : Console) (a : ConsoleAct) : Decidable (a.Loses x) :=
  match a with
  | .sys .hwi => inferInstanceAs (Decidable (_ ∧ _))
  | .sys (.call _) | .sys (.rx _) | .sys (.irq _) | .enableInt | .semCreate | .pend | .read =>
    inferInstanceAs (Decidable False)

def received (hist : ConsoleHistory) : List (BitVec 8) := hist.filterMap fun e => e.2.receives

def stored (hist : ConsoleHistory) : List (BitVec 8) := hist.filterMap fun e => e.2.stores e.1

def fetched (hist : ConsoleHistory) : List (BitVec 8) := hist.filterMap fun e => e.2.fetches e.1

def lost (hist : ConsoleHistory) : Nat := hist.countP fun e => e.2.Loses e.1

variable {hist : ConsoleHistory} {x : Console} {a : ConsoleAct}

theorem received_snoc : received (hist ++ [(x, a)]) = received hist ++ a.receives.toList := by
  cases h : a.receives <;> simp [received, h]

theorem stored_snoc : stored (hist ++ [(x, a)]) = stored hist ++ (a.stores x).toList := by
  cases h : a.stores x <;> simp [stored, h]

theorem fetched_snoc : fetched (hist ++ [(x, a)]) = fetched hist ++ (a.fetches x).toList := by
  cases h : a.fetches x <;> simp [fetched, h]

theorem lost_snoc : lost (hist ++ [(x, a)]) = lost hist + if a.Loses x then 1 else 0 := by
  by_cases h : a.Loses x <;> simp [lost, List.countP_append, h]

/-- A step in which no character moves and no token is lost. -/
theorem ledger_quiet (hist : ConsoleHistory) (hr : a.receives = none) (hs : a.stores x = none)
    (hf : a.fetches x = none) (hl : ¬ a.Loses x) :
    received (hist ++ [(x, a)]) = received hist ∧ stored (hist ++ [(x, a)]) = stored hist ∧
    fetched (hist ++ [(x, a)]) = fetched hist ∧ lost (hist ++ [(x, a)]) = lost hist := by
  simp [received_snoc, stored_snoc, fetched_snoc, lost_snoc, hr, hs, hf, hl]

/-! ## The invariant -/

/-- `ShellTask` is between its pend and its read: it has been granted a token, or waits. -/
def Console.reading (x : Console) : Nat := if x.shellPc = .read then 1 else 0

/-- A character has been stored and is about to be posted. -/
def Console.underway (x : Console) : Nat := if AtUartPost x.toSystem then 1 else 0

/-- Before the semaphore is there the kernel is as `OsSemInit` left it, and each post is lost. -/
structure TokensBefore (hist : ConsoleHistory) (x : Console) : Prop where
  kernel : Initialised x.kernel
  semUartRx : x.semUartRx = 0
  shellPc : x.shellPc = .pend
  noneFetched : fetched hist = []
  balance : lost hist + x.underway = (stored hist).length

/-- From then on each character stored has a token somewhere, or has lost it. -/
structure TokensAfter (hist : ConsoleHistory) (x : Console) : Prop where
  returned : x.uartInit = .returned osOk
  refines : ∃ evs, Refines x.semUartRx 0 evs x.kernel
  waits : ∀ p ∈ x.kernel.semList x.semUartRx, p = x.shellTask ∧ x.shellPc = .read
  balance : (x.kernel.allSem x.semUartRx).semCount + x.reading + x.underway + lost hist +
    (fetched hist).length = (stored hist).length + (x.kernel.semList x.semUartRx).length

structure ConsoleInv (hist : ConsoleHistory) (x : Console) : Prop where
  kernel : ∃ ph, Inv x.kernel ph
  arrived : received hist = stored hist ++ x.rxFifo
  buffer : StoredLast (stored hist) x.shell.shellBuf
  offset : x.shell.shellBufOffset = (stored hist).length % shellShowMaxLen
  readOffset : x.shellBufReadOffset.val = (fetched hist).length % shellShowMaxLen
  /-- A handler goes from its store to its post at once. -/
  posting : ∀ t, (x.dispatch t).map HwiDispatch.pc = some .post → t = x.kernel.runningTask
  before : x.uartInit.isReturned = false → TokensBefore hist x
  after : x.uartInit.isReturned = true → TokensAfter hist x

theorem ConsoleStart.inv (h : ConsoleStart x) : ConsoleInv [] x where
  kernel := ⟨_, Inv.initialised h.system.1⟩
  arrived := by simp [received, stored, h.rxFifo]
  buffer := .nil _
  offset := h.shell
  readOffset := h.readOffset
  posting t ht := by
    rw [h.system.2 t] at ht
    cases ht
  before _ := by
    refine ⟨h.system.1, h.semUartRx, h.shellPc, rfl, ?_⟩
    have : ¬ AtUartPost x.toSystem := by simp [AtUartPost, System.current, h.system.2]
    simp [lost, stored, Console.underway, this]
  after hr := by
    rw [h.uartInit] at hr
    cases hr

/-! ## Steps of the handler -/

/-- What a step of a handler does besides the post. -/
theorem hwi_cases (x : Console) (hc : x.current ≠ none) :
    (AtUartPost x.toSystem ∧
      osHwiDispatchStep x.toSystem = { x.toSystem with
        dispatch := (osHwiDispatchStep x.toSystem).dispatch
        kernel := (Op.uartPost x.semUartRx).next x.kernel } ∧
      ConsoleAct.stores x (.sys .hwi) = none ∧
      ((osHwiDispatchStep x.toSystem).dispatch x.kernel.runningTask).map HwiDispatch.pc =
        some .handle) ∨
    (∃ c rest, ¬ AtUartPost x.toSystem ∧ x.rxFifo = c :: rest ∧
      osHwiDispatchStep x.toSystem = { x.toSystem with
        dispatch := (osHwiDispatchStep x.toSystem).dispatch
        rxFifo := rest
        shell := x.shell.store c } ∧
      ConsoleAct.stores x (.sys .hwi) = some c ∧
      AtUartPost (osHwiDispatchStep x.toSystem)) ∨
    (¬ AtUartPost x.toSystem ∧
      osHwiDispatchStep x.toSystem = { x.toSystem with
        dispatch := (osHwiDispatchStep x.toSystem).dispatch
        uniTicks := (osHwiDispatchStep x.toSystem).uniTicks } ∧
      ConsoleAct.stores x (.sys .hwi) = none ∧
      ¬ AtUartPost (osHwiDispatchStep x.toSystem)) := by
  rcases hcur : x.current with _ | ⟨irqNum, pc⟩
  · exact absurd hcur hc
  cases pc with
  | post =>
    refine Or.inl ⟨by simp [AtUartPost, hcur], ?_, by simp [ConsoleAct.stores, hcur], ?_⟩
    · simp [osHwiDispatchStep, hcur, System.setCurrent]
    · simp [osHwiDispatchStep, hcur, System.setCurrent]
  | clear =>
    refine Or.inr (Or.inr ⟨by simp [AtUartPost, hcur], ?_, by simp [ConsoleAct.stores, hcur], ?_⟩)
    · simp [osHwiDispatchStep, hcur, System.setCurrent, osGicIntClear]
    · simp [osHwiDispatchStep, hcur, System.setCurrent, osGicIntClear, AtUartPost, System.current]
  | handle =>
    by_cases h33 : irqNum = 33
    · subst h33
      rcases hfifo : x.rxFifo with _ | ⟨c, rest⟩
      · refine Or.inr (Or.inr ⟨by simp [AtUartPost, hcur], ?_,
          by simp [ConsoleAct.stores, hcur, hfifo], ?_⟩)
        · simp [osHwiDispatchStep, hcur, hfifo, System.setCurrent]
        · simp [osHwiDispatchStep, hcur, hfifo, System.setCurrent, AtUartPost, System.current]
      · refine Or.inr (Or.inl ⟨c, rest, by simp [AtUartPost, hcur], rfl, ?_,
          by simp [ConsoleAct.stores, hcur, hfifo], ?_⟩)
        · simp [osHwiDispatchStep, hcur, hfifo, System.setCurrent]
        · simp [osHwiDispatchStep, hcur, hfifo, System.setCurrent, AtUartPost, System.current]
    · have hst : ConsoleAct.stores x (.sys .hwi) = none := by
        simp [ConsoleAct.stores, hcur, h33]
      refine Or.inr (Or.inr ⟨by simp [AtUartPost, hcur], ?_, hst, ?_⟩)
      · by_cases h30 : irqNum = 30
        · subst h30
          simp [osHwiDispatchStep, hcur, System.setCurrent, osTickDispatcher]
        · simp [osHwiDispatchStep, hcur, System.setCurrent]
      · by_cases h30 : irqNum = 30
        · subst h30
          simp [osHwiDispatchStep, hcur, System.setCurrent, osTickDispatcher, AtUartPost,
            System.current]
        · simp [osHwiDispatchStep, hcur, System.setCurrent, AtUartPost, System.current]

/-- A post that is refused changes nothing. -/
theorem prtSemPost_refused {k : Kernel} {s : Nat} (h : ¬ Posts k s) :
    (Op.uartPost s).next k = k ∧ (prtSemPost k s).2 ≠ osOk := by
  rcases prtSemPost_cases k s with ⟨ret, hr, -, heq⟩ | ⟨hP, -⟩ | ⟨hP, -⟩ | ⟨hP, -⟩
  · exact ⟨congrArg Prod.fst heq, by rw [heq]; exact hr⟩
  all_goals exact absurd hP h

theorem ledger_hwi (hist : ConsoleHistory) (hstores : ConsoleAct.stores x (.sys .hwi) = none) :
    stored (hist ++ [(x, .sys .hwi)]) = stored hist ∧
      fetched (hist ++ [(x, .sys .hwi)]) = fetched hist := by
  constructor
  · simp [stored_snoc, hstores]
  · simp [fetched_snoc, ConsoleAct.fetches]

/-- The post is refused: no semaphore has been created. -/
theorem TokensBefore.hwiPost (B : TokensBefore hist x) {y : System}
    (hat : AtUartPost x.toSystem)
    (hy : y = { x.toSystem with
      dispatch := y.dispatch, kernel := (Op.uartPost x.semUartRx).next x.kernel })
    (hstores : ConsoleAct.stores x (.sys .hwi) = none)
    (hunder : Console.underway { x with toSystem := y } = 0) :
    TokensBefore (hist ++ [(x, .sys .hwi)]) { x with toSystem := y } := by
  have hkernel : y.kernel = (Op.uartPost x.semUartRx).next x.kernel := by rw [hy]
  have hsem : y.semUartRx = x.semUartRx := by rw [hy]
  have hnow : x.underway = 1 := if_pos hat
  obtain ⟨hst, hft⟩ := ledger_hwi hist hstores
  have hP : ¬ Posts x.kernel x.semUartRx := by
    intro hP
    refine hP.used ?_
    rw [B.semUartRx, initialised_eq B.kernel]
    rfl
  obtain ⟨hsame, hret⟩ := prtSemPost_refused hP
  have hlost : lost (hist ++ [(x, .sys .hwi)]) = lost hist + 1 := by
    rw [lost_snoc, if_pos ⟨hat, hret⟩]
  have hbal := B.balance
  refine ⟨?_, hsem.trans B.semUartRx, B.shellPc, ?_, ?_⟩
  · rw [show ({ x with toSystem := y } : Console).kernel = x.kernel from hkernel.trans hsame]
    exact B.kernel
  · rw [hft]
    exact B.noneFetched
  · rw [hlost, hst, hunder]
    omega

/-- The post gives the character its token, unless the count is at its limit. -/
theorem TokensAfter.hwiPost (A : TokensAfter hist x) {ph : Nat → TskPhase}
    (I : Inv x.kernel ph) {y : System} (hat : AtUartPost x.toSystem)
    (hy : y = { x.toSystem with
      dispatch := y.dispatch, kernel := (Op.uartPost x.semUartRx).next x.kernel })
    (hstores : ConsoleAct.stores x (.sys .hwi) = none)
    (hunder : Console.underway { x with toSystem := y } = 0) :
    TokensAfter (hist ++ [(x, .sys .hwi)]) { x with toSystem := y } := by
  have hkernel : y.kernel = (Op.uartPost x.semUartRx).next x.kernel := by rw [hy]
  have hsem : y.semUartRx = x.semUartRx := by rw [hy]
  have hnow : x.underway = 1 := if_pos hat
  have hcall : (Op.uartPost x.semUartRx).Callable x.kernel := trivial
  obtain ⟨hst, hft⟩ := ledger_hwi hist hstores
  obtain ⟨hret, ⟨evs, R⟩, hwaits, hbal⟩ := A
  obtain ⟨hh, -, hcount, hqueue⟩ := R.hist
  have e := (Op.uartPost x.semUartRx).effect I.linked I.lock hcall
  have R' := R.step (R.semEffect I e hcall id)
  rw [← hkernel, ← hsem] at R'
  by_cases hroom : (x.kernel.allSem x.semUartRx).semCount < osSemCountMax
  · have H := R.post I ⟨hcount.symm, hqueue.symm⟩ (by rw [hcount]; exact hroom)
    have hP : Posts x.kernel x.semUartRx :=
      ⟨I.lt_maxSem R.used, by rw [R.used]; decide, hroom⟩
    have hlost : lost (hist ++ [(x, .sys .hwi)]) = lost hist := by
      rw [lost_snoc, if_neg fun hl => hl.2 (prtSemPost_ret hP), Nat.add_zero]
    have hpost := HandOff.post_balance hh
    change SemIs ((Op.uartPost x.semUartRx).next x.kernel) _ _ at H
    rw [← hkernel, ← hsem] at H
    refine ⟨hret, ⟨_, R'⟩, fun p hp => ?_, ?_⟩
    · rw [show ({ x with toSystem := y } : Console).kernel.semList y.semUartRx = _ from H.list,
        HandOff.post_queue] at hp
      rw [← hqueue] at hwaits
      exact hwaits p (List.mem_of_mem_tail hp)
    · rw [hlost, hft, hst, hunder]
      simp only [H.count, H.list, Console.reading] at hbal ⊢
      rw [hcount, hqueue] at hpost
      omega
  · obtain ⟨hsame, hrefused⟩ := prtSemPost_refused (k := x.kernel) (s := x.semUartRx)
      fun hP => hroom hP.room
    have hlost : lost (hist ++ [(x, .sys .hwi)]) = lost hist + 1 := by
      rw [lost_snoc, if_pos ⟨hat, hrefused⟩]
    have hk : y.kernel = x.kernel := hkernel.trans hsame
    rw [← hk, ← hsem] at hwaits hbal
    refine ⟨hret, ⟨_, R'⟩, hwaits, ?_⟩
    rw [hlost, hft, hst, hunder]
    simp only [Console.reading] at hbal ⊢
    omega

namespace ConsoleInv

variable (J : ConsoleInv hist x)
include J

/-- Outside handlers no character is under way. -/
theorem no_post (hc : x.current = none) (t : Nat) :
    (x.dispatch t).map HwiDispatch.pc ≠ some .post := by
  intro ht
  have hrun := J.posting t ht
  subst hrun
  rw [show x.dispatch x.kernel.runningTask = none from hc] at ht
  cases ht

theorem underway_none (hc : x.current = none) : x.underway = 0 :=
  if_neg (J.no_post hc x.kernel.runningTask)

/-- A step that moves no character and leaves the console itself alone. -/
theorem quiet {x' : Console} (hr : a.receives = none) (hs : a.stores x = none)
    (hf : a.fetches x = none) (hl : ¬ a.Loses x) (hkernel : ∃ ph, Inv x'.kernel ph)
    (hfifo : x'.rxFifo = x.rxFifo) (hshell : x'.shell = x.shell)
    (hread : x'.shellBufReadOffset = x.shellBufReadOffset)
    (hpost : ∀ t, (x'.dispatch t).map HwiDispatch.pc = some .post → t = x'.kernel.runningTask)
    (hbefore : x'.uartInit.isReturned = false → TokensBefore (hist ++ [(x, a)]) x')
    (hafter : x'.uartInit.isReturned = true → TokensAfter (hist ++ [(x, a)]) x') :
    ConsoleInv (hist ++ [(x, a)]) x' := by
  obtain ⟨hrec, hst, hft, -⟩ := ledger_quiet hist hr hs hf hl
  refine ⟨hkernel, ?_, ?_, ?_, ?_, hpost, hbefore, hafter⟩
  · rw [hrec, hst, hfifo]
    exact J.arrived
  · rw [hst, hshell]
    exact J.buffer
  · rw [hst, hshell]
    exact J.offset
  · rw [hft, hread]
    exact J.readOffset

/-- `OsGicEnableInt(33)`. -/
theorem enableInt (ha : x.uartInit = .enableInt) :
    ConsoleInv (hist ++ [(x, .enableInt)]) { x with uartInit := .semCreate } := by
  have B := J.before (by rw [ha]; rfl)
  obtain ⟨-, hst, hft, hlost⟩ := ledger_quiet hist (x := x) (a := .enableInt)
    rfl rfl rfl id
  refine J.quiet rfl rfl rfl id J.kernel rfl rfl rfl J.posting
    (fun _ => ⟨B.kernel, B.semUartRx, B.shellPc, ?_, ?_⟩) fun h => by cases h
  · rw [hft]
    exact B.noneFetched
  · rw [hlost, hst]
    exact B.balance

/-- `PRT_SemCreate` in `PRT_UartInit`: the first semaphore that is created. -/
theorem semCreate (hc : x.current = none) (ha : x.uartInit = .semCreate) :
    ConsoleInv (hist ++ [(x, .semCreate)]) (prtUartInitSemCreate x) := by
  have B := J.before (by rw [ha]; rfl)
  obtain ⟨-, hst, hft, hlost⟩ := ledger_quiet hist (x := x) (a := .semCreate)
    rfl rfl rfl id
  obtain ⟨ph, I⟩ := J.kernel
  have hok : (prtSemCreate x.kernel 0 false).2 = .ok 0 := by
    rw [initialised_eq B.kernel]
    rfl
  obtain ⟨rest, -, -, hnext⟩ := I.semCreate_eq hok
  have hexec : prtUartInitSemCreate x = { x with
      kernel := (Op.semCreate 0 false).next x.kernel, semUartRx := 0
      uartInit := .returned osOk } := by
    have hpair : prtSemCreate x.kernel 0 false = ((Op.semCreate 0 false).next x.kernel, .ok 0) :=
      Prod.ext rfl hok
    simp only [prtUartInitSemCreate, hpair]
  have hcall : (Op.semCreate 0 false).Callable x.kernel := trivial
  have hkernel := I.step hcall ((Op.semCreate 0 false).effect I.linked I.lock hcall) id
  have hrun : ((Op.semCreate 0 false).next x.kernel).runningTask = x.kernel.runningTask := by
    rw [hnext]
    rfl
  rw [hexec]
  refine J.quiet rfl rfl rfl id hkernel rfl rfl rfl (fun t ht => absurd ht (J.no_post hc t))
    (fun h => by cases h) fun _ => ⟨rfl, ⟨[], Refines.created I hok⟩, fun p hp => ?_, ?_⟩
  · rw [hnext] at hp
    simp [semCreatedKernel, Kernel.semList] at hp
  · have hunder : Console.underway { x with
        kernel := (Op.semCreate 0 false).next x.kernel, semUartRx := 0
        uartInit := .returned osOk } = 0 := if_neg (J.no_post hc _)
    have hbal := B.balance
    rw [J.underway_none hc] at hbal
    rw [hlost, hft, hst, B.noneFetched, hunder]
    simp only [Console.reading, B.shellPc, hnext]
    simpa [semCreatedKernel, createdSem, Kernel.semList] using hbal

/-- The pend of `ShellTask`. -/
theorem pend (hc : x.current = none) (hruns : x.ShellRuns) (hpc : x.shellPc = .pend) :
    ConsoleInv (hist ++ [(x, .pend)]) { x with
      kernel := (Op.semPend x.semUartRx osWaitForever).next x.kernel, shellPc := .read } := by
  obtain ⟨hret, hb, hidle, hshell⟩ := hruns
  have A := J.after hret
  obtain ⟨-, hst, hft, hlost⟩ := ledger_quiet hist (x := x) (a := .pend) rfl rfl rfl id
  obtain ⟨ph, I⟩ := J.kernel
  obtain ⟨evs, R⟩ := A.refines
  obtain ⟨h, -, hcount, hqueue⟩ := R.hist
  have hcall : (Op.semPend x.semUartRx osWaitForever).Callable x.kernel := ⟨hb, hidle⟩
  have hsup : ¬ (Op.semPend x.semUartRx osWaitForever).Unsupported x.kernel := fun hu => hu.2 rfl
  have e := (Op.semPend x.semUartRx osWaitForever).effect I.linked I.lock hcall
  have H := R.pend I ⟨hcount.symm, hqueue.symm⟩ hcall
  have hnone := J.no_post hc
  refine J.quiet rfl rfl rfl id (I.step hcall e hsup) rfl rfl rfl
    (fun t ht => absurd ht (hnone t)) (fun h => by rw [hret] at h; cases h)
    fun _ => ⟨A.returned, ⟨_, R.step (R.semEffect I e hcall hsup)⟩, fun p hp => ?_, ?_⟩
  · rw [H.list] at hp
    rcases HandOff.mem_pend_queue hp with hp | rfl
    · rw [hqueue] at hp
      have := (A.waits p hp).2
      rw [hpc] at this
      cases this
    · exact ⟨hshell, rfl⟩
  · have hunder : Console.underway { x with
        kernel := (Op.semPend x.semUartRx osWaitForever).next x.kernel, shellPc := .read } = 0 :=
      if_neg (hnone _)
    have hbal := A.balance
    have hpend := HandOff.pend_balance h x.kernel.runningTask
    rw [J.underway_none hc, Console.reading, hpc, if_neg (by decide)] at hbal
    rw [hlost, hft, hst, hunder]
    simp only [Console.reading, H.count, H.list, ↓reduceIte]
    rw [hcount, hqueue] at hpend
    omega

/-- The read of `ShellTask`. -/
theorem read (hruns : x.ShellRuns) (hpc : x.shellPc = .read) :
    ConsoleInv (hist ++ [(x, .read)]) { x with
      shellBufReadOffset := nextReadOffset x.shellBufReadOffset, shellPc := .pend } := by
  obtain ⟨hret, hb, -, hshell⟩ := hruns
  have A := J.after hret
  obtain ⟨ph, I⟩ := J.kernel
  have hrec : received (hist ++ [(x, .read)]) = received hist := by
    simp [received_snoc, ConsoleAct.receives]
  have hst : stored (hist ++ [(x, .read)]) = stored hist := by simp [stored_snoc, ConsoleAct.stores]
  have hft : (fetched (hist ++ [(x, .read)])).length = (fetched hist).length + 1 := by
    simp [fetched_snoc, ConsoleAct.fetches]
  have hlost : lost (hist ++ [(x, .read)]) = lost hist := by simp [lost_snoc, ConsoleAct.Loses]
  -- the running task waits for nothing
  have hnil : x.kernel.semList x.semUartRx = [] := by
    rw [List.eq_nil_iff_forall_not_mem]
    intro p hp
    have hrun := (A.waits p hp).1
    rw [← hshell] at hrun
    subst hrun
    have := I.linked.mem_semList.mp hp
    rw [(I.active hb).1] at this
    cases this
  refine ⟨⟨ph, I⟩, ?_, ?_, ?_, ?_, J.posting, (fun h => by rw [hret] at h; cases h),
    fun _ => ⟨A.returned, A.refines, fun p hp => ?_, ?_⟩⟩
  · rw [hrec, hst]
    exact J.arrived
  · rw [hst]
    exact J.buffer
  · rw [hst]
    exact J.offset
  · rw [hft, nextReadOffset_val, J.readOffset, Nat.mod_add_mod]
  · rw [hnil] at hp
    cases hp
  · have hbal := A.balance
    rw [Console.reading, hpc, if_pos rfl] at hbal
    rw [hlost, hft, hst]
    simp only [Console.reading, Console.underway, if_neg (show ShellPc.pend ≠ .read by decide)]
      at hbal ⊢
    omega

/-- A call about other things. -/
theorem call {op : Op} (ha : ConsoleAct.Allowed x (.sys (.call op))) :
    ConsoleInv (hist ++ [(x, .sys (.call op))]) { x with kernel := op.next x.kernel } := by
  obtain ⟨⟨hc, hcall, htime, -⟩, hret, havoid, -⟩ := ha
  obtain ⟨hpend, hpost⟩ := havoid.frame
  have A := J.after hret
  obtain ⟨-, hst, hft, hlost⟩ := ledger_quiet hist (x := x) (a := .sys (.call op))
    rfl rfl rfl id
  obtain ⟨ph, I⟩ := J.kernel
  obtain ⟨evs, R⟩ := A.refines
  have e := op.effect I.linked I.lock hcall
  have S := e.semSame I hcall (Or.inr R.used) hpend hpost
  have hnone := J.no_post hc
  have hsup := htime.not_unsupported (k := x.kernel)
  refine J.quiet rfl rfl rfl id (I.step hcall e hsup) rfl rfl rfl
    (fun t ht => absurd ht (hnone t)) (fun h => by rw [hret] at h; cases h)
    fun _ => ⟨A.returned, ⟨_, R.step (R.semEffect I e hcall hsup)⟩, fun p hp => ?_, ?_⟩
  · rw [S.list] at hp
    exact A.waits p hp
  · have hunder : Console.underway { x with kernel := op.next x.kernel } = 0 := if_neg (hnone _)
    have hbal := A.balance
    rw [J.underway_none hc] at hbal
    rw [hlost, hft, hst, hunder]
    simp only [S.sem, S.list]
    exact hbal

theorem rx (c : BitVec 8) : ConsoleInv (hist ++ [(x, .sys (.rx c))])
    { x with rxFifo := x.rxFifo ++ [c] } := by
  have hrec : received (hist ++ [(x, .sys (.rx c))]) = received hist ++ [c] := by
    simp [received_snoc, ConsoleAct.receives]
  have hst : stored (hist ++ [(x, .sys (.rx c))]) = stored hist := by
    simp [stored_snoc, ConsoleAct.stores]
  have hft : fetched (hist ++ [(x, .sys (.rx c))]) = fetched hist := by
    simp [fetched_snoc, ConsoleAct.fetches]
  have hlost : lost (hist ++ [(x, .sys (.rx c))]) = lost hist := by
    simp [lost_snoc, ConsoleAct.Loses]
  refine ⟨J.kernel, ?_, ?_, ?_, ?_, J.posting, fun h => ?_, fun h => ?_⟩
  · rw [hrec, hst, J.arrived, List.append_assoc]
  · rw [hst]
    exact J.buffer
  · rw [hst]
    exact J.offset
  · rw [hft]
    exact J.readOffset
  · have B := J.before h
    refine ⟨B.kernel, B.semUartRx, B.shellPc, ?_, ?_⟩
    · rw [hft]
      exact B.noneFetched
    · rw [hlost, hst]
      exact B.balance
  · have A := J.after h
    refine ⟨A.returned, A.refines, A.waits, ?_⟩
    rw [hlost, hft, hst]
    exact A.balance

/-- An interrupt is acknowledged. -/
theorem irq (hc : x.current = none) (irqNum : Nat) :
    ConsoleInv (hist ++ [(x, .sys (.irq irqNum))])
      { x with toSystem := osGicIntAcknowledge x.toSystem irqNum } := by
  obtain ⟨-, hst, hft, hlost⟩ := ledger_quiet hist (x := x) (a := .sys (.irq irqNum))
    rfl rfl rfl id
  have hunder : Console.underway { x with toSystem := osGicIntAcknowledge x.toSystem irqNum } = 0 :=
    if_neg (by simp [AtUartPost, System.current, osGicIntAcknowledge, System.setCurrent])
  refine J.quiet rfl rfl rfl id J.kernel rfl rfl rfl (fun t ht => ?_) (fun h => ?_) fun h => ?_
  · have ht : (Function.update x.dispatch x.kernel.runningTask (some ⟨irqNum, .handle⟩) t).map
        HwiDispatch.pc = some .post := ht
    by_cases hrun : t = x.kernel.runningTask
    · exact hrun
    · rw [Function.update_of_ne hrun] at ht
      exact J.posting t ht
  · have B := J.before h
    have hbal := B.balance
    rw [J.underway_none hc] at hbal
    refine ⟨B.kernel, B.semUartRx, B.shellPc, ?_, ?_⟩
    · rw [hft]
      exact B.noneFetched
    · rw [hlost, hst, hunder]
      exact hbal
  · have A := J.after h
    have hbal := A.balance
    rw [J.underway_none hc] at hbal
    refine ⟨A.returned, A.refines, A.waits, ?_⟩
    rw [hlost, hft, hst, hunder]
    exact hbal

/-- The handler stores a character. -/
theorem hwiStore {c : BitVec 8} {rest : List (BitVec 8)} {y : System}
    (hno : ¬ AtUartPost x.toSystem) (hfifo : x.rxFifo = c :: rest)
    (hy : y = { x.toSystem with dispatch := y.dispatch, rxFifo := rest, shell := x.shell.store c })
    (hstores : ConsoleAct.stores x (.sys .hwi) = some c) (hpost : AtUartPost y)
    (hother : ∀ t, t ≠ x.kernel.runningTask → y.dispatch t = x.dispatch t) :
    ConsoleInv (hist ++ [(x, .sys .hwi)]) { x with toSystem := y } := by
  have hkernel : y.kernel = x.kernel := by rw [hy]
  have hsem : y.semUartRx = x.semUartRx := by rw [hy]
  have hrec : received (hist ++ [(x, .sys .hwi)]) = received hist := by
    simp [received_snoc, ConsoleAct.receives]
  have hst : stored (hist ++ [(x, .sys .hwi)]) = stored hist ++ [c] := by
    simp [stored_snoc, hstores]
  have hft : fetched (hist ++ [(x, .sys .hwi)]) = fetched hist := by
    simp [fetched_snoc, ConsoleAct.fetches]
  have hlost : lost (hist ++ [(x, .sys .hwi)]) = lost hist := by
    simp [lost_snoc, ConsoleAct.Loses, hno]
  have hunder : Console.underway { x with toSystem := y } = x.underway + 1 := by
    rw [Console.underway, if_pos hpost, Console.underway, if_neg hno]
  have hk : ({ x with toSystem := y } : Console).kernel = x.kernel := hkernel
  refine ⟨by rw [hk]; exact J.kernel,
    ?_, ?_, ?_, ?_, fun t ht => ?_, fun h => ?_, fun h => ?_⟩
  · rw [hrec, hst, J.arrived, hfifo, List.append_assoc, show y.rxFifo = rest by rw [hy]]
    rfl
  · rw [hst, show y.shell = x.shell.store c by rw [hy]]
    exact J.buffer.snoc ⟨x.shell.shellBufOffset, x.shell.offset_lt⟩ J.offset c
  · rw [hst, show y.shell = x.shell.store c by rw [hy], List.length_append, List.length_singleton,
      Nat.add_mod, ← J.offset]
    have hlt := x.shell.offset_lt
    simp only [ShellCB.store]
    split
    · rename_i hwrap
      rw [Nat.mod_eq_of_lt (a := 1) (by decide), hwrap, Nat.mod_self]
    · rw [Nat.mod_eq_of_lt (a := 1) (by decide), Nat.mod_eq_of_lt]
      omega
  · rw [hft]
    exact J.readOffset
  · rw [show ({ x with toSystem := y } : Console).kernel = x.kernel from hkernel]
    by_contra hne
    have ht : (y.dispatch t).map HwiDispatch.pc = some .post := ht
    rw [hother t hne] at ht
    exact hne (J.posting t ht)
  · have B := J.before h
    refine ⟨?_, ?_, B.shellPc, ?_, ?_⟩
    · rw [show ({ x with toSystem := y } : Console).kernel = x.kernel from hkernel]
      exact B.kernel
    · exact hsem.trans B.semUartRx
    · rw [hft]
      exact B.noneFetched
    · have hbal := B.balance
      rw [hlost, hst, hunder, List.length_append, List.length_singleton]
      omega
  · have A := J.after h
    obtain ⟨hret, hrefines, hwaits, hbal⟩ := A
    rw [← hkernel, ← hsem] at hrefines hwaits hbal
    refine ⟨hret, hrefines, hwaits, ?_⟩
    rw [hlost, hft, hst, hunder, List.length_append, List.length_singleton]
    simp only [Console.reading] at hbal ⊢
    omega

/-- A step of a handler that neither stores nor posts. -/
theorem hwiOther {y : System} (hno : ¬ AtUartPost x.toSystem)
    (hy : y = { x.toSystem with dispatch := y.dispatch, uniTicks := y.uniTicks })
    (hstores : ConsoleAct.stores x (.sys .hwi) = none) (hpost : ¬ AtUartPost y)
    (hother : ∀ t, t ≠ x.kernel.runningTask → y.dispatch t = x.dispatch t) :
    ConsoleInv (hist ++ [(x, .sys .hwi)]) { x with toSystem := y } := by
  have hloses : ¬ ConsoleAct.Loses x (.sys .hwi) := fun h => hno h.1
  obtain ⟨-, hst, hft, hlost⟩ := ledger_quiet hist (x := x) (a := .sys .hwi)
    rfl hstores rfl hloses
  have hkernel : y.kernel = x.kernel := by rw [hy]
  have hsem : y.semUartRx = x.semUartRx := by rw [hy]
  have hunder : Console.underway { x with toSystem := y } = x.underway := by
    rw [Console.underway, if_neg hpost, Console.underway, if_neg hno]
  refine J.quiet rfl hstores rfl hloses (by
      rw [show ({ x with toSystem := y } : Console).kernel = x.kernel from hkernel]
      exact J.kernel) (by rw [hy]) (by rw [hy]) rfl
    (fun t ht => ?_) (fun h => ?_) fun h => ?_
  · rw [show ({ x with toSystem := y } : Console).kernel = x.kernel from hkernel]
    by_contra hne
    have ht : (y.dispatch t).map HwiDispatch.pc = some .post := ht
    rw [hother t hne] at ht
    exact hne (J.posting t ht)
  · have B := J.before h
    refine ⟨?_, ?_, B.shellPc, ?_, ?_⟩
    · rw [show ({ x with toSystem := y } : Console).kernel = x.kernel from hkernel]
      exact B.kernel
    · exact hsem.trans B.semUartRx
    · rw [hft]
      exact B.noneFetched
    · rw [hlost, hst, hunder]
      exact B.balance
  · obtain ⟨hret, hrefines, hwaits, hbal⟩ := J.after h
    rw [← hkernel, ← hsem] at hrefines hwaits hbal
    refine ⟨hret, hrefines, hwaits, ?_⟩
    rw [hlost, hft, hst, hunder]
    exact hbal

/-- The handler posts. -/
theorem hwiPost {y : System} (hat : AtUartPost x.toSystem)
    (hy : y = { x.toSystem with
      dispatch := y.dispatch, kernel := (Op.uartPost x.semUartRx).next x.kernel })
    (hstores : ConsoleAct.stores x (.sys .hwi) = none)
    (hhandle : (y.dispatch x.kernel.runningTask).map HwiDispatch.pc = some .handle)
    (hother : ∀ t, t ≠ x.kernel.runningTask → y.dispatch t = x.dispatch t) :
    ConsoleInv (hist ++ [(x, .sys .hwi)]) { x with toSystem := y } := by
  have hrec : received (hist ++ [(x, .sys .hwi)]) = received hist := by
    simp [received_snoc, ConsoleAct.receives]
  obtain ⟨hst, hft⟩ := ledger_hwi hist hstores
  have hnone : ∀ t, (y.dispatch t).map HwiDispatch.pc ≠ some .post := by
    intro t ht
    by_cases hrun : t = x.kernel.runningTask
    · rw [hrun, hhandle] at ht
      cases ht
    · rw [hother t hrun] at ht
      exact hrun (J.posting t ht)
  have hunder : Console.underway { x with toSystem := y } = 0 := if_neg (hnone _)
  obtain ⟨ph, I⟩ := J.kernel
  have hcall : (Op.uartPost x.semUartRx).Callable x.kernel := trivial
  have hinv : ∃ ph, Inv y.kernel ph := by
    rw [hy]
    exact I.step hcall ((Op.uartPost x.semUartRx).effect I.linked I.lock hcall) id
  refine ⟨hinv, ?_, ?_, ?_, ?_, fun t ht => absurd ht (hnone t), fun h => ?_, fun h => ?_⟩
  · rw [hrec, hst, show y.rxFifo = x.rxFifo by rw [hy]]
    exact J.arrived
  · rw [hst, show y.shell = x.shell by rw [hy]]
    exact J.buffer
  · rw [hst, show y.shell = x.shell by rw [hy]]
    exact J.offset
  · rw [hft]
    exact J.readOffset
  · exact (J.before h).hwiPost hat hy hstores hunder
  · exact (J.after h).hwiPost I hat hy hstores hunder

end ConsoleInv

/-- **Step lemma.** -/
theorem ConsoleInv.step (J : ConsoleInv hist x) (ha : consoleMachine.Allowed x a) :
    ConsoleInv (hist ++ [(x, a)]) (consoleMachine.exec x a) := by
  cases a with
  | enableInt => exact J.enableInt ha.2
  | semCreate => exact J.semCreate ha.1 ha.2
  | pend => exact J.pend ha.1 ha.2.1 ha.2.2
  | read => exact J.read ha.2.1 ha.2.2
  | sys a =>
    cases a with
    | call op => exact J.call ha
    | rx c => exact J.rx c
    | irq irqNum => exact J.irq ha.1 irqNum
    | hwi =>
      have hother := fun t (ht : t ≠ x.kernel.runningTask) =>
        osHwiDispatchStep_dispatch x.toSystem ht
      rcases hwi_cases x ha with ⟨hat, hy, hstores, hhandle⟩ |
        ⟨c, rest, hno, hfifo, hy, hstores, hpost⟩ | ⟨hno, hy, hstores, hpost⟩
      · exact J.hwiPost hat hy hstores hhandle hother
      · exact J.hwiStore hno hfifo hy hstores hpost hother
      · exact J.hwiOther hno hy hstores hpost hother

/-- **Run lemma.** -/
theorem ConsoleInv.of_run (r : Run consoleMachine hist x) : ConsoleInv hist x :=
  r.invariant_hist ConsoleInv (fun _ h => ConsoleStart.inv h) fun _ _ _ _ J ha => J.step ha

end MiniEuler
