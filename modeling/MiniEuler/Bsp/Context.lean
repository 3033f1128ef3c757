import MiniEuler.Library.Aarch64
import MiniEuler.Kernel.Task

/-! The frames that hold the registers of a task: what `prt_vector.S` pushes and pops, and the two
structures through which C code sees a frame. -/

namespace MiniEuler
open Library

/-! ## `prt_vector.S` -/

def saveExcRegs : List Instr :=
  [.stpPre (.x 1) (.x 0), .stpPre (.x 3) (.x 2), .stpPre (.x 5) (.x 4), .stpPre (.x 7) (.x 6),
    .stpPre (.x 9) (.x 8), .stpPre (.x 11) (.x 10), .stpPre (.x 13) (.x 12),
    .stpPre (.x 15) (.x 14), .stpPre (.x 17) (.x 16), .stpPre (.x 19) (.x 18),
    .stpPre (.x 21) (.x 20), .stpPre (.x 23) (.x 22), .stpPre (.x 25) (.x 24),
    .stpPre (.x 27) (.x 26), .stpPre (.x 29) (.x 28), .stpPre .xzr (.x 30)]

def restoreExcRegs : List Instr :=
  [.ldpPost .xzr (.x 30), .ldpPost (.x 29) (.x 28), .ldpPost (.x 27) (.x 26),
    .ldpPost (.x 25) (.x 24), .ldpPost (.x 23) (.x 22), .ldpPost (.x 21) (.x 20),
    .ldpPost (.x 19) (.x 18), .ldpPost (.x 17) (.x 16), .ldpPost (.x 15) (.x 14),
    .ldpPost (.x 13) (.x 12), .ldpPost (.x 11) (.x 10), .ldpPost (.x 9) (.x 8),
    .ldpPost (.x 7) (.x 6), .ldpPost (.x 5) (.x 4), .ldpPost (.x 3) (.x 2),
    .ldpPost (.x 1) (.x 0)]

/-- The addresses of the C functions that the dispatchers call. -/
structure Handlers where
  osExcHandleEntry : BitVec 64
  osExcHandleFromLowElEntry : BitVec 64
  osHwiDispatch : BitVec 64

/-- A dispatcher up to the call of its handler, which links `link`. -/
def dispatcherEntry (handler link : BitVec 64) : List Instr :=
  [.mrs 5 .esrEl1, .mrs 4 .farEl1, .mrs 3 .spsrEl1, .mrs 2 .elrEl1, .stpPre (.x 4) (.x 5),
    .stpPre (.x 2) (.x 3), .mov 0 1, .movFromSp 1, .bl handler link]

def osExcDispatch (h : Handlers) (link : BitVec 64) : List Instr :=
  dispatcherEntry h.osExcHandleEntry link

def osExcDispatchFromLowEl (h : Handlers) (link : BitVec 64) : List Instr :=
  dispatcherEntry h.osExcHandleFromLowElEntry link

def osHwiDispatcher (h : Handlers) (link : BitVec 64) : List Instr :=
  dispatcherEntry h.osHwiDispatch link

/-- `EXC_HANDLE` of an entry of `OsVectorTable`, and the dispatcher it branches to. -/
def excHandle (h : Handlers) (link : BitVec 64) (vecId : Fin 16) : List Instr :=
  saveExcRegs ++ [.movImm 1 (BitVec.ofNat 64 vecId)] ++
    if vecId = 5 then osHwiDispatcher h link
    else if vecId = 8 then osExcDispatchFromLowEl h link
    else osExcDispatch h link

/-- The text from `OsContextLoad` on. Each of the dispatchers ends with the same. -/
def osContextLoad : List Instr :=
  [.ldpPost (.x 2) (.x 3), .addSp 16, .msr .spsrEl1 3, .msr .elrEl1 2, .dsb, .isb] ++
    restoreExcRegs ++ [.eret]

def osTskContextLoadCode : List Instr := [.ldr 0 0, .movToSp 0] ++ osContextLoad

def osTaskTrapCode (gRunningTask osMainSchedule : BitVec 64) : List Instr :=
  [.ldrLit 1 gRunningTask, .ldr 0 1] ++ saveExcRegs ++
    [.mrs 3 .daif, .mrs 2 .nzcv, .orr 3 3 2, .orrImm 3 3 (1#64 <<< 2), .orrImm 3 3 1,
      .mov 2 30, .subSp 16, .stpPre (.x 2) (.x 3), .movFromSp 1, .str 1 0, .b osMainSchedule]

/-! ## The structures -/

def xregsNum : Nat := 31

structure ExcRegInfo where
  elr : BitVec 64
  spsr : BitVec 64
  far : BitVec 64
  esr : BitVec 64
  xzr : BitVec 64
  xregs : Fin xregsNum → BitVec 64

/-- The structure at an address. -/
def excRegInfoAt (mem : ByteMem) (excRegs : BitVec 64) : ExcRegInfo where
  elr := load64 mem excRegs
  spsr := load64 mem (excRegs + 8)
  far := load64 mem (excRegs + 16)
  esr := load64 mem (excRegs + 24)
  xzr := load64 mem (excRegs + 32)
  xregs := fun i => load64 mem (excRegs + 40 + BitVec.ofNat 64 (8 * i))

/-- What `OsExcHandleFromLowElEntry` reads of a frame: the number of the system call and its
parameter, if the exception is one. -/
def svcCall (excRegs : ExcRegInfo) : Option (BitVec 32 × BitVec 64) :=
  if (excRegs.esr &&& 0xfc000000) >>> 26 = 0x15 then
    some ((excRegs.xregs ⟨(xregsNum - 1) - 8, by decide⟩).setWidth 32,
      excRegs.xregs ⟨(xregsNum - 1) - 0, by decide⟩)
  else none

/-! ## Frames -/

/-- The pairs of registers in the order of their addresses. -/
def excRegPairs : List (Reg × Reg) :=
  [(.xzr, .x 30), (.x 29, .x 28), (.x 27, .x 26), (.x 25, .x 24), (.x 23, .x 22), (.x 21, .x 20),
    (.x 19, .x 18), (.x 17, .x 16), (.x 15, .x 14), (.x 13, .x 12), (.x 11, .x 10), (.x 9, .x 8),
    (.x 7, .x 6), (.x 5, .x 4), (.x 3, .x 2), (.x 1, .x 0)]

theorem saveExcRegs_eq : saveExcRegs = pushes excRegPairs := rfl

theorem restoreExcRegs_eq : restoreExcRegs = pops excRegPairs := rfl

theorem mem_excRegs (n : Fin 31) : .x n ∈ pairRegs excRegPairs := by
  revert n
  decide

/-- A frame: the exception registers, then the general ones. -/
def frameWords (elr spsr far esr : BitVec 64) (f : Reg → BitVec 64) : List (BitVec 64) :=
  [elr, spsr, far, esr] ++ (pairRegs excRegPairs).map f

variable {s : Core} {elr spsr far esr : BitVec 64} {f : Reg → BitVec 64}

theorem frameWords_congr {mem mem' : ByteMem} {base : BitVec 64}
    (h : WordsAt mem base (frameWords elr spsr far esr f))
    (hkeep : ∀ a ∈ Span base 288, mem' a = mem a) :
    WordsAt mem' base (frameWords elr spsr far esr f) :=
  h.congr (show 8 * 36 ≤ 2 ^ 64 by decide) hkeep

/-- **The load of a frame.** -/
theorem execAll_osContextLoad (h : WordsAt s.mem s.sp (frameWords elr spsr far esr f)) :
    let s' := execAll osContextLoad s
    (∀ n, s'.x n = f (.x n)) ∧
      s'.bank = Function.update s.bank (s.pstate.mode.getLsbD 0) (s.sp + 288) ∧
      s'.elr = elr ∧ s'.spsr = spsr ∧ s'.pc = elr ∧ s'.pstate = .ofSpsr spsr ∧
      s'.mem = s.mem := by
  obtain ⟨helr, hspsr, -, -, hregs⟩ := h
  obtain ⟨c, hc⟩ : ∃ c, { ((s.set (.x 2) elr).set (.x 3) spsr).setSp (s.sp + 32) with
    spsr := spsr, elr := elr } = c := ⟨_, rfl⟩
  have hhead : execAll [.ldpPost (.x 2) (.x 3), .addSp 16, .msr .spsrEl1 3, .msr .elrEl1 2,
      .dsb, .isb] s = c := by
    have hsp : s.sp + 16 + 16 = s.sp + 32 := by bv_omega
    rw [← hc]
    simp only [execAll, List.foldl_cons, List.foldl_nil, Instr.exec, helr, hspsr, Core.sp_setSp,
      Core.setSp_setSp, hsp]
    rfl
  have hregs' : WordsAt c.mem c.sp ((pairRegs excRegPairs).map f) := by
    have hbase : s.sp + 8 + 8 + 8 + 8 = c.sp := by
      rw [← hc]
      change s.sp + 8 + 8 + 8 + 8 = (((s.set (.x 2) elr).set (.x 3) spsr).setSp (s.sp + 32)).sp
      rw [Core.sp_setSp]
      bv_omega
    rw [hbase] at hregs
    rw [← hc] at hregs ⊢
    exact hregs
  intro s'
  have hs' : s' = execAll [.eret] ((loadRegs c (pairRegs excRegPairs)
      ((pairRegs excRegPairs).map f)).setSp (c.sp + 256)) := by
    change execAll osContextLoad s = _
    rw [osContextLoad, execAll_append, execAll_append, hhead, restoreExcRegs_eq,
      execAll_pops (by rfl) hregs']
    rfl
  have hx : ∀ n, s'.x n = f (.x n) := fun n => by
    rw [hs']
    exact loadRegs_map f (Or.inl (mem_excRegs n))
  rw [loadRegs_eq] at hs'
  refine ⟨hx, ?_, ?_, ?_, ?_, ?_, ?_⟩
  · have hcsp : c.sp + 256 = s.sp + 288 := by
      rw [← hc]
      change (((s.set (.x 2) elr).set (.x 3) spsr).setSp (s.sp + 32)).sp + 256 = _
      rw [Core.sp_setSp]
      bv_omega
    have hbank : c.bank = Function.update s.bank (s.pstate.mode.getLsbD 0) (s.sp + 32) := by
      rw [← hc]
      rfl
    have hmode : c.pstate = s.pstate := by
      rw [← hc]
      rfl
    rw [hs']
    change Function.update c.bank (c.pstate.mode.getLsbD 0) (c.sp + 256) = _
    rw [hcsp, hbank, hmode, Function.update_idem]
  · rw [hs', ← hc]
    rfl
  · rw [hs', ← hc]
    rfl
  · rw [hs', ← hc]
    rfl
  · rw [hs', ← hc]
    rfl
  · rw [hs', ← hc]
    rfl

/-- **The save of the general registers.** -/
theorem execAll_saveExcRegs (s : Core) :
    ∃ mem, execAll saveExcRegs s = (s.setSp (s.sp - 256)).setMem mem ∧
      WordsAt mem (s.sp - 256) ((pairRegs excRegPairs).map s.get) ∧
      ∀ a ∉ Span (s.sp - 256) 256, mem a = s.mem a := by
  rw [saveExcRegs_eq]
  exact execAll_pushes s excRegPairs (by decide)

/-! ## The frame of an exception -/

/-- What an exception leaves for its handler: the frame, and a pointer to it. -/
structure ExcFrame (s s' : Core) : Prop where
  words : WordsAt s'.mem (s.sp - 288) (frameWords s.elr s.spsr s.far s.esr s.get)
  frame : ∀ a ∉ Span (s.sp - 288) 288, s'.mem a = s.mem a
  sp : s'.sp = s.sp - 288
  arg : s'.x 1 = s.sp - 288
  bank : s'.bank = Function.update s.bank (s.pstate.mode.getLsbD 0) (s.sp - 288)
  pstate : s'.pstate = s.pstate

/-- Four words below the general registers make a frame. -/
theorem wordsAt_frameWords {mem mem' : ByteMem} {sp : BitVec 64}
    (hregs : WordsAt mem (sp - 256) ((pairRegs excRegPairs).map f))
    (hhead : WordsAt mem' (sp - 288) [elr, spsr, far, esr])
    (hkeep : ∀ a ∈ Span (sp - 256) 256, mem' a = mem a) :
    WordsAt mem' (sp - 288) (frameWords elr spsr far esr f) := by
  have hbase : sp - 288 + BitVec.ofNat 64 (8 * 4) = sp - 256 := by bv_omega
  refine wordsAt_append.mpr ⟨hhead, ?_⟩
  rw [show [elr, spsr, far, esr].length = 4 from rfl, hbase]
  have hlen : 8 * ((pairRegs excRegPairs).map f).length ≤ 2 ^ 64 :=
    show 8 * 32 ≤ 2 ^ 64 by decide
  exact WordsAt.congr hlen hkeep hregs

theorem execAll_dispatcherEntry (handler link vecId : BitVec 64) (s : Core) :
    ExcFrame s (execAll (saveExcRegs ++ [.movImm 1 vecId] ++ dispatcherEntry handler link) s) := by
  obtain ⟨mem, hsave, hregs, hout⟩ := execAll_saveExcRegs s
  obtain ⟨c, hc⟩ : ∃ c, execAll [.movImm 1 vecId, .mrs 5 .esrEl1, .mrs 4 .farEl1,
    .mrs 3 .spsrEl1, .mrs 2 .elrEl1] ((s.setSp (s.sp - 256)).setMem mem) = c := ⟨_, rfl⟩
  have hcsp : c.sp = s.sp - 256 := by
    rw [← hc]
    change (s.setSp (s.sp - 256)).sp = _
    exact Core.sp_setSp s _
  have hcmem : c.mem = mem := by
    rw [← hc]
    rfl
  obtain ⟨mem', hpush, hwords, hout'⟩ :=
    execAll_pushes c [(.x 2, .x 3), (.x 4, .x 5)] (by decide)
  have hlow : c.sp - BitVec.ofNat 64 (16 * 2) = s.sp - 288 := by
    rw [hcsp]
    bv_omega
  have hcregs : (pairRegs [(.x 2, .x 3), (.x 4, .x 5)]).map c.get =
      [s.elr, s.spsr, s.far, s.esr] := by
    rw [← hc]
    rfl
  simp only [List.length_cons, List.length_nil, Nat.zero_add, Nat.reduceAdd, hlow, hcmem,
    hcregs] at hpush hwords hout'
  have hexec : execAll (saveExcRegs ++ [.movImm 1 vecId] ++ dispatcherEntry handler link) s =
      execAll [.mov 0 1, .movFromSp 1, .bl handler link] ((c.setSp (s.sp - 288)).setMem mem') := by
    rw [← hpush, ← hc, ← hsave, ← execAll_append, ← execAll_append, ← execAll_append]
    rfl
  have hcbank : c.bank = Function.update s.bank (s.pstate.mode.getLsbD 0) (s.sp - 256) := by
    rw [← hc]
    rfl
  have hcmode : c.pstate = s.pstate := by
    rw [← hc]
    rfl
  have hkeep : ∀ a ∈ Span (s.sp - 256) 256, mem' a = mem a := fun a ha => by
    refine hout' a ?_
    simp only [mem_span] at ha ⊢
    bv_omega
  have hframe : ∀ a ∉ Span (s.sp - 288) 288, mem' a = s.mem a := fun a ha => by
    rw [hout' a, hout a]
    · simp only [mem_span] at ha ⊢
      bv_omega
    · simp only [mem_span] at ha ⊢
      bv_omega
  have hsp : (c.setSp (s.sp - 288)).sp = s.sp - 288 := Core.sp_setSp c _
  rw [hexec]
  refine ⟨wordsAt_frameWords hregs hwords hkeep, hframe, hsp, hsp, ?_, hcmode⟩
  change Function.update c.bank (c.pstate.mode.getLsbD 0) (s.sp - 288) = _
  rw [hcbank, hcmode, Function.update_idem]

theorem execAll_excHandle (h : Handlers) (link : BitVec 64) (vecId : Fin 16) (s : Core) :
    ExcFrame s (execAll (excHandle h link vecId) s) := by
  unfold excHandle
  split
  · exact execAll_dispatcherEntry _ link _ s
  · split
    · exact execAll_dispatcherEntry _ link _ s
    · exact execAll_dispatcherEntry _ link _ s

/-! ## The frame of a switch -/

/-- The program status that `OsTaskTrap` puts together. -/
theorem trapSpsr_eq (p : Pstate) :
    p.daif.setWidth 64 <<< 6 ||| p.nzcv.setWidth 64 <<< 28 ||| 1#64 <<< 2 ||| 1#64 =
      ({ p with mode := el1h } : Pstate).toSpsr := by
  have hmode : el1h.setWidth 64 = 1#64 <<< 2 ||| 1#64 := by decide
  rw [Pstate.toSpsr, hmode, BitVec.or_comm (p.daif.setWidth 64 <<< 6),
    BitVec.or_assoc _ (1#64 <<< 2)]

/-- The general registers when `OsTaskTrap` saves them. -/
def trapGet (gRunningTask : BitVec 64) (s : Core) : Reg → BitVec 64 :=
  ((s.set (.x 1) gRunningTask).set (.x 0) (load64 s.mem gRunningTask)).get

theorem trapGet_x (gRunningTask : BitVec 64) (s : Core) {n : Fin 31} (hn : 2 ≤ n) :
    trapGet gRunningTask s (.x n) = s.x n := by
  have h1 : n ≠ 1 := by omega
  have h0 : n ≠ 0 := by omega
  change Function.update (Function.update s.x 1 gRunningTask) 0 _ n = s.x n
  rw [Function.update_of_ne h0, Function.update_of_ne h1]

/-- What `OsTaskTrap` leaves for `OsMainSchedule`: the frame, and where it is in the control block
of the running task, which is not in the frame. -/
structure TrapFrame (gRunningTask : BitVec 64) (s s' : Core) : Prop where
  words : ∃ far esr, WordsAt s'.mem (s.sp - 288)
    (frameWords (s.x 30) ({ s.pstate with mode := el1h } : Pstate).toSpsr far esr
      (trapGet gRunningTask s))
  saved : load64 s'.mem (load64 s.mem gRunningTask) = s.sp - 288
  frame : ∀ a ∉ Span (s.sp - 288) 288, a ∉ Span (load64 s.mem gRunningTask) 8 →
    s'.mem a = s.mem a
  bank : s'.bank = Function.update s.bank (s.pstate.mode.getLsbD 0) (s.sp - 288)
  pstate : s'.pstate = s.pstate

theorem execAll_osTaskTrapCode (gRunningTask osMainSchedule : BitVec 64) (s : Core)
    (hd : Disjoint (Span (s.sp - 288) 288) (Span (load64 s.mem gRunningTask) 8)) :
    TrapFrame gRunningTask s (execAll (osTaskTrapCode gRunningTask osMainSchedule) s) := by
  obtain ⟨tcb, htcb⟩ : ∃ tcb, load64 s.mem gRunningTask = tcb := ⟨_, rfl⟩
  obtain ⟨s0, hs0⟩ : ∃ s0, (s.set (.x 1) gRunningTask).set (.x 0) tcb = s0 := ⟨_, rfl⟩
  have hhead : execAll [.ldrLit 1 gRunningTask, .ldr 0 1] s = s0 := by
    rw [← hs0, ← htcb]
    rfl
  obtain ⟨mem, hsave, hregs, hout⟩ := execAll_saveExcRegs s0
  have hs0sp : s0.sp = s.sp := by rw [← hs0, Core.sp_set, Core.sp_set]
  have hs0mem : s0.mem = s.mem := by rw [← hs0, Core.mem_set, Core.mem_set]
  rw [hs0sp] at hsave hregs hout
  obtain ⟨c, hc⟩ : ∃ c, execAll [.mrs 3 .daif, .mrs 2 .nzcv, .orr 3 3 2, .orrImm 3 3 (1#64 <<< 2),
    .orrImm 3 3 1, .mov 2 30, .subSp 16] ((s0.setSp (s.sp - 256)).setMem mem) = c := ⟨_, rfl⟩
  have hcsp : c.sp = s.sp - 256 - 16 := by
    rw [← hc]
    change ((s0.setSp (s.sp - 256)).setSp ((s0.setSp (s.sp - 256)).sp - 16)).sp = _
    rw [Core.sp_setSp, Core.sp_setSp]
  have hcmem : c.mem = mem := by
    rw [← hc]
    rfl
  have hcregs : (pairRegs [(.x 2, .x 3)]).map c.get =
      [s.x 30, ({ s.pstate with mode := el1h } : Pstate).toSpsr] := by
    rw [← trapSpsr_eq, ← hc, ← hs0]
    rfl
  obtain ⟨mem', hpush, hwords, hout'⟩ := execAll_pushes c [(.x 2, .x 3)] (by decide)
  have hlow : c.sp - BitVec.ofNat 64 (16 * 1) = s.sp - 288 := by
    rw [hcsp]
    bv_omega
  simp only [List.length_cons, List.length_nil, Nat.zero_add, Nat.mul_one, hlow, hcmem,
    hcregs] at hpush hwords hout'
  have hexec : execAll (osTaskTrapCode gRunningTask osMainSchedule) s =
      execAll [.movFromSp 1, .str 1 0, .b osMainSchedule]
        ((c.setSp (s.sp - 288)).setMem mem') := by
    rw [← hpush, ← hc, ← hsave, ← hhead, ← execAll_append, ← execAll_append, ← execAll_append,
      ← execAll_append]
    rfl
  have hcbank : ∃ v w, c.bank = Function.update (Function.update s.bank
      (s.pstate.mode.getLsbD 0) v) (s.pstate.mode.getLsbD 0) w := by
    rw [← hc, ← hs0]
    exact ⟨_, _, rfl⟩
  have hcmode : c.pstate = s.pstate := by
    rw [← hc, ← hs0]
    rfl
  have htcbx : c.x 0 = tcb := by
    rw [← hc, ← hs0]
    rfl
  have hsp : (c.setSp (s.sp - 288)).sp = s.sp - 288 := Core.sp_setSp c _
  have hkeep : ∀ a ∈ Span (s.sp - 256) 256, mem' a = mem a := fun a ha => by
    refine hout' a ?_
    simp only [mem_span] at ha ⊢
    bv_omega
  have hframe : ∀ a ∉ Span (s.sp - 288) 288, mem' a = s.mem a := fun a ha => by
    rw [hout' a, hout a, hs0mem]
    · simp only [mem_span] at ha ⊢
      bv_omega
    · simp only [mem_span] at ha ⊢
      bv_omega
  have hget : trapGet gRunningTask s = s0.get := by
    rw [trapGet, htcb, hs0]
  have hmem : (execAll (osTaskTrapCode gRunningTask osMainSchedule) s).mem =
      store64 mem' tcb (s.sp - 288) := by
    rw [hexec]
    change store64 mem' (c.x 0) (c.setSp (s.sp - 288)).sp = _
    rw [hsp, htcbx]
  rw [htcb] at hd
  -- the store into the control block is beside the frame
  have hbeside : ∀ a ∈ Span (s.sp - 288) 288, store64 mem' tcb (s.sp - 288) a = mem' a :=
    fun a ha => store64_of_notMem (Set.disjoint_left.mp hd ha)
  have hfour : WordsAt mem' (s.sp - 288) [s.x 30,
      ({ s.pstate with mode := el1h } : Pstate).toSpsr, load64 mem' (s.sp - 288 + 8 + 8),
      load64 mem' (s.sp - 288 + 8 + 8 + 8)] :=
    ⟨hwords.1, hwords.2.1, rfl, rfl, trivial⟩
  refine ⟨⟨load64 mem' (s.sp - 288 + 8 + 8), load64 mem' (s.sp - 288 + 8 + 8 + 8), ?_⟩, ?_,
    fun a ha hb => ?_, ?_, ?_⟩
  · rw [hmem, hget]
    exact frameWords_congr (wordsAt_frameWords hregs hfour hkeep) hbeside
  · rw [hmem, htcb, load64_store64]
  · rw [htcb] at hb
    rw [hmem, store64_of_notMem hb, hframe a ha]
  · obtain ⟨v, w, hbank⟩ := hcbank
    rw [hexec]
    change Function.update c.bank (c.pstate.mode.getLsbD 0) (s.sp - 288) = _
    rw [hbank, hcmode, Function.update_idem, Function.update_idem]
  · rw [hexec]
    exact hcmode

/-! ## Back from a frame -/

/-- The load of a task, for a frame of EL1h. -/
theorem execAll_osTskContextLoadCode {stackPointer : BitVec 64} (hmode : s.pstate.mode = el1h)
    (hptr : load64 s.mem (s.x 0) = stackPointer)
    (h : WordsAt s.mem stackPointer (frameWords elr spsr far esr f))
    (hspsr : (Pstate.ofSpsr spsr).mode = el1h) :
    let s' := execAll osTskContextLoadCode s
    (∀ n, s'.x n = f (.x n)) ∧ s'.sp = stackPointer + 288 ∧ s'.elr = elr ∧ s'.pc = elr ∧
      s'.pstate = .ofSpsr spsr ∧ s'.mem = s.mem := by
  obtain ⟨c, hc⟩ : ∃ c, (s.set (.x 0) stackPointer).setSp stackPointer = c := ⟨_, rfl⟩
  have hhead : execAll [.ldr 0 0, .movToSp 0] s = c := by
    rw [← hc, ← hptr]
    rfl
  have hcsp : c.sp = stackPointer := by
    rw [← hc, Core.sp_setSp]
  have hcmem : c.mem = s.mem := by
    rw [← hc]
    rfl
  have hcmode : c.pstate = s.pstate := by
    rw [← hc]
    rfl
  rw [← hcmem, ← hcsp] at h
  obtain ⟨hx, hbank, helr, -, hpc, hpstate, hmem⟩ := execAll_osContextLoad h
  intro s'
  have hs' : s' = execAll osContextLoad c := by
    change execAll osTskContextLoadCode s = _
    rw [osTskContextLoadCode, execAll_append, hhead]
  refine ⟨fun n => hs' ▸ hx n, ?_, hs' ▸ helr, hs' ▸ hpc, hs' ▸ hpstate, ?_⟩
  · rw [Core.sp, hs', hpstate, hspsr, hbank, hcmode, hmode, Function.update_self, hcsp]
  · rw [hs', hmem, hcmem]

/-- **Round trip of a switch.** A task that is loaded from the frame of its trap goes on where its
call returns to, with all registers but the first two as they were. -/
theorem osTaskTrap_roundTrip {gRunningTask osMainSchedule : BitVec 64} {s s₂ : Core}
    (hd : Disjoint (Span (s.sp - 288) 288) (Span (load64 s.mem gRunningTask) 8))
    (hframe : ∀ a ∈ Span (s.sp - 288) 288 ∪ Span (load64 s.mem gRunningTask) 8,
      s₂.mem a = (execAll (osTaskTrapCode gRunningTask osMainSchedule) s).mem a)
    (hx0 : s₂.x 0 = load64 s.mem gRunningTask) (hmode : s₂.pstate.mode = el1h) :
    let s₃ := execAll osTskContextLoadCode s₂
    (∀ n : Fin 31, 2 ≤ n → s₃.x n = s.x n) ∧ s₃.sp = s.sp ∧ s₃.pc = s.x 30 ∧
      s₃.pstate = { s.pstate with mode := el1h } := by
  have T := execAll_osTaskTrapCode gRunningTask osMainSchedule s hd
  obtain ⟨far, esr, hwords⟩ := T.words
  have hwords' := frameWords_congr hwords fun a ha => hframe a (Or.inl ha)
  have hptr : load64 s₂.mem (s₂.x 0) = s.sp - 288 := by
    rw [hx0, ← T.saved]
    exact load64_congr fun a ha => hframe a (Or.inr ha)
  obtain ⟨hx, hsp, -, hpc, hpstate, -⟩ := execAll_osTskContextLoadCode hmode hptr hwords'
    (by rw [Pstate.ofSpsr_toSpsr])
  refine ⟨fun n hn => (hx n).trans (trapGet_x _ _ hn), ?_, hpc, ?_⟩
  · rw [hsp]
    bv_omega
  · rw [hpstate, Pstate.ofSpsr_toSpsr]

theorem wordsAt_excRegInfoAt (mem : ByteMem) (excRegs : BitVec 64) :
    WordsAt mem excRegs [(excRegInfoAt mem excRegs).elr, (excRegInfoAt mem excRegs).spsr,
      (excRegInfoAt mem excRegs).far, (excRegInfoAt mem excRegs).esr] := by
  have h16 : excRegs + 8 + 8 = excRegs + 16 := by bv_omega
  have h24 : excRegs + 8 + 8 + 8 = excRegs + 24 := by bv_omega
  refine ⟨rfl, rfl, ?_, ?_, trivial⟩
  · rw [h16]
    rfl
  · rw [h24]
    rfl

/-- **Round trip of an exception.** Whatever the handler does to the exception registers in the
frame, the dispatcher gives the general registers back, and what the frame has for ELR and
SPSR. -/
theorem exception_roundTrip {h : Handlers} {link : BitVec 64} {vecId : Fin 16} {s s₂ : Core}
    (hregs : ∀ a ∈ Span (s.sp - 256) 256, s₂.mem a = (execAll (excHandle h link vecId) s).mem a)
    (hsp : s₂.sp = (execAll (excHandle h link vecId) s).sp)
    (hmode : s₂.pstate.mode = s.pstate.mode) :
    let s₃ := execAll osContextLoad s₂
    let excRegs := excRegInfoAt s₂.mem (s.sp - 288)
    (∀ n, s₃.x n = s.x n) ∧ s₃.bank (s.pstate.mode.getLsbD 0) = s.sp ∧
      s₃.elr = excRegs.elr ∧ s₃.spsr = excRegs.spsr ∧ s₃.pc = excRegs.elr ∧
      s₃.pstate = .ofSpsr excRegs.spsr := by
  have E := execAll_excHandle h link vecId s
  have hbase : s.sp - 288 + BitVec.ofNat 64 (8 * 4) = s.sp - 256 := by bv_omega
  have hgen : WordsAt s₂.mem (s.sp - 256) ((pairRegs excRegPairs).map s.get) := by
    have h2 := (wordsAt_append.mp E.words).2
    rw [show [s.elr, s.spsr, s.far, s.esr].length = 4 from rfl, hbase] at h2
    have hlen : 8 * ((pairRegs excRegPairs).map s.get).length ≤ 2 ^ 64 :=
      show 8 * 32 ≤ 2 ^ 64 by decide
    exact WordsAt.congr hlen hregs h2
  have hhead := wordsAt_excRegInfoAt s₂.mem (s.sp - 288)
  have hwords := wordsAt_frameWords hgen hhead fun _ _ => rfl
  have heq : s₂.sp = s.sp - 288 := hsp.trans E.sp
  rw [← heq] at hwords
  obtain ⟨hx, hbank, helr, hspsr, hpc, hpstate, -⟩ := execAll_osContextLoad hwords
  rw [heq] at helr hspsr hpc hpstate
  intro s₃ excRegs
  have hback : s.sp - 288 + 288 = s.sp := by bv_omega
  refine ⟨hx, ?_, ?_, ?_, ?_, ?_⟩
  · rw [hbank, hmode, Function.update_self, heq, hback]
  · exact helr
  · exact hspsr
  · exact hpc
  · exact hpstate

/-! ## The layout of the frames -/

/-- A frame as a `struct TskContext`. -/
def tskContextOf (elr spsr far esr : BitVec 64) (f : Reg → BitVec 64) : TskContext where
  elr := elr
  spsr := spsr
  far := far
  esr := esr
  xzr := f .xzr
  x30 := f (.x 30)
  x29 := f (.x 29)
  x28 := f (.x 28)
  x27 := f (.x 27)
  x26 := f (.x 26)
  x25 := f (.x 25)
  x24 := f (.x 24)
  x23 := f (.x 23)
  x22 := f (.x 22)
  x21 := f (.x 21)
  x20 := f (.x 20)
  x19 := f (.x 19)
  x18 := f (.x 18)
  x17 := f (.x 17)
  x16 := f (.x 16)
  x15 := f (.x 15)
  x14 := f (.x 14)
  x13 := f (.x 13)
  x12 := f (.x 12)
  x11 := f (.x 11)
  x10 := f (.x 10)
  x09 := f (.x 9)
  x08 := f (.x 8)
  x07 := f (.x 7)
  x06 := f (.x 6)
  x05 := f (.x 5)
  x04 := f (.x 4)
  x03 := f (.x 3)
  x02 := f (.x 2)
  x01 := f (.x 1)
  x00 := f (.x 0)

theorem frameWords_eq (elr spsr far esr : BitVec 64) (f : Reg → BitVec 64) :
    frameWords elr spsr far esr f = (tskContextOf elr spsr far esr f).words := rfl

/-- A frame as a `struct ExcRegInfo`. -/
theorem excRegInfoAt_frame {mem : ByteMem} {excRegs : BitVec 64}
    (h : WordsAt mem excRegs (frameWords elr spsr far esr f)) :
    excRegInfoAt mem excRegs =
      { elr := elr, spsr := spsr, far := far, esr := esr, xzr := f .xzr
        xregs := fun i => f (.x (Fin.rev i)) } := by
  have hregs : ∀ i : Fin 31, (pairRegs excRegPairs)[1 + i.val]? = some (.x i.rev) := by decide
  have hx : ∀ i : Fin xregsNum, load64 mem (excRegs + 40 + BitVec.ofNat 64 (8 * i)) =
      f (.x (Fin.rev i)) := fun i => by
    have hoff : excRegs + 40 + BitVec.ofNat 64 (8 * i) =
        excRegs + BitVec.ofNat 64 (8 * (4 + (1 + i))) := by
      have hi := i.isLt
      bv_omega
    rw [hoff]
    apply h.word
    rw [frameWords, List.getElem?_append_right (Nat.le_add_right 4 _)]
    simp only [List.length_cons, List.length_nil, Nat.zero_add, Nat.reduceAdd,
      Nat.add_sub_cancel_left, List.getElem?_map]
    rw [hregs i]
    rfl
  simp only [excRegInfoAt, ExcRegInfo.mk.injEq]
  exact ⟨h.1, h.2.1, h.word (k := 2) rfl, h.word (k := 3) rfl, h.word (k := 4) rfl, funext hx⟩

/-- **The system call** that a handler sees is that of the trapped registers. -/
theorem svcCall_frame {mem : ByteMem} {excRegs : BitVec 64}
    (h : WordsAt mem excRegs (frameWords elr spsr far esr s.get)) :
    svcCall (excRegInfoAt mem excRegs) =
      if (esr &&& 0xfc000000) >>> 26 = 0x15 then some ((s.x 8).setWidth 32, s.x 0) else none := by
  rw [excRegInfoAt_frame h]
  rfl

/-! ## The first frame of a task -/

/-- The register of a context, by its offset. -/
def TskContext.reg (c : TskContext) : Reg → BitVec 64
  | .x n => c.words.getD (35 - n) 0
  | .xzr => c.xzr

theorem TskContext.words_eq (c : TskContext) :
    c.words = frameWords c.elr c.spsr c.far c.esr c.reg := rfl

/-- The load of a task that has not run goes to its entry, on an empty stack. -/
theorem execAll_firstLoad {stackSize : BitVec 32} {topStack funcTskEntry : BitVec 64}
    (hmode : s.pstate.mode = el1h)
    (hptr : load64 s.mem (s.x 0) = tskContextAddr stackSize topStack)
    (h : WordsAt s.mem (tskContextAddr stackSize topStack)
      (tskContextInit funcTskEntry).words) :
    let s' := execAll osTskContextLoadCode s
    s'.x 30 = funcTskEntry ∧ s'.elr = funcTskEntry ∧ s'.pc = funcTskEntry ∧
      s'.sp = topStack + stackSize.setWidth 64 ∧ s'.pstate.mode = el1h ∧ s'.mem = s.mem := by
  rw [TskContext.words_eq] at h
  have hspsr : (Pstate.ofSpsr (tskContextInit funcTskEntry).spsr).mode = el1h := by
    rw [show (tskContextInit funcTskEntry).spsr = 0x305 from rfl]
    decide
  obtain ⟨hx, hsp, helr, hpc, hpstate, hmem⟩ := execAll_osTskContextLoadCode hmode hptr h hspsr
  refine ⟨hx 30, helr, hpc, ?_, ?_, hmem⟩
  · have hsize : BitVec.ofNat 64 sizeofTskContext = 288 := rfl
    rw [hsp, tskContextAddr, hsize]
    bv_omega
  · rw [hpstate, hspsr]

end MiniEuler
