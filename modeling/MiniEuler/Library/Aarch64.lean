import MiniEuler.Library.Bytes

/-! The part of AArch64 at EL1 that saves and restores registers: straight-line code over the
general registers, the two banked stack pointers, PSTATE and the exception registers. -/

namespace MiniEuler.Library

/-- Numerals are numbers of general registers. -/
instance instNeZeroRegs : NeZero 31 := ⟨by decide⟩

/-- A general register, or the zero register. -/
inductive Reg
  | x (n : Fin 31)
  | xzr
  deriving DecidableEq, Repr

/-- PSTATE: the condition flags, the exception masks, and M[4:0] with the level and SPSel. -/
structure Pstate where
  nzcv : BitVec 4
  daif : BitVec 4
  mode : BitVec 5
  deriving DecidableEq, Repr

def el1h : BitVec 5 := 0b00101

/-- How PSTATE stands in a saved program status register. -/
def Pstate.toSpsr (p : Pstate) : BitVec 64 :=
  p.nzcv.setWidth 64 <<< 28 ||| p.daif.setWidth 64 <<< 6 ||| p.mode.setWidth 64

def Pstate.ofSpsr (w : BitVec 64) : Pstate :=
  { nzcv := w.extractLsb' 28 4, daif := w.extractLsb' 6 4, mode := w.extractLsb' 0 5 }

/-- `bank false` is SP_EL0, `bank true` SP_EL1; `pc` is where the code is left. -/
structure Core where
  x : Fin 31 → BitVec 64
  bank : Bool → BitVec 64
  pc : BitVec 64
  pstate : Pstate
  elr : BitVec 64
  spsr : BitVec 64
  esr : BitVec 64
  far : BitVec 64
  mem : ByteMem

inductive SysReg
  | esrEl1
  | farEl1
  | spsrEl1
  | elrEl1
  | daif
  | nzcv
  deriving DecidableEq, Repr

namespace Core

def get (s : Core) : Reg → BitVec 64
  | .x n => s.x n
  | .xzr => 0

def set (s : Core) (r : Reg) (v : BitVec 64) : Core :=
  match r with
  | .x n => { s with x := Function.update s.x n v }
  | .xzr => s

/-- The selected stack pointer. -/
def sp (s : Core) : BitVec 64 := s.bank (s.pstate.mode.getLsbD 0)

def setSp (s : Core) (v : BitVec 64) : Core :=
  { s with bank := Function.update s.bank (s.pstate.mode.getLsbD 0) v }

def setMem (s : Core) (mem : ByteMem) : Core := { s with mem := mem }

def mrs (s : Core) : SysReg → BitVec 64
  | .esrEl1 => s.esr
  | .farEl1 => s.far
  | .spsrEl1 => s.spsr
  | .elrEl1 => s.elr
  | .daif => s.pstate.daif.setWidth 64 <<< 6
  | .nzcv => s.pstate.nzcv.setWidth 64 <<< 28

def msr (s : Core) (r : SysReg) (v : BitVec 64) : Core :=
  match r with
  | .esrEl1 => { s with esr := v }
  | .farEl1 => { s with far := v }
  | .spsrEl1 => { s with spsr := v }
  | .elrEl1 => { s with elr := v }
  | .daif => { s with pstate := { s.pstate with daif := v.extractLsb' 6 4 } }
  | .nzcv => { s with pstate := { s.pstate with nzcv := v.extractLsb' 28 4 } }

end Core

/-- `stpPre a b` is `stp a, b, [sp,#-16]!`, `ldpPost a b` is `ldp a, b, [sp],#16`; `bl` gets the
address that it links. -/
inductive Instr
  | stpPre (t1 t2 : Reg)
  | ldpPost (t1 t2 : Reg)
  | ldr (t n : Fin 31)
  | ldrLit (t : Fin 31) (v : BitVec 64)
  | str (t n : Fin 31)
  | mov (d n : Fin 31)
  | movImm (d : Fin 31) (v : BitVec 64)
  | movFromSp (d : Fin 31)
  | movToSp (n : Fin 31)
  | addSp (v : BitVec 64)
  | subSp (v : BitVec 64)
  | orr (d n m : Fin 31)
  | orrImm (d n : Fin 31) (v : BitVec 64)
  | mrs (t : Fin 31) (r : SysReg)
  | msr (r : SysReg) (t : Fin 31)
  | dsb
  | isb
  | b (target : BitVec 64)
  | bl (target link : BitVec 64)
  | eret
  deriving DecidableEq, Repr

def Instr.exec (s : Core) : Instr → Core
  | .stpPre t1 t2 =>
    let a := s.sp - 16
    (s.setSp a).setMem (store64 (store64 s.mem a (s.get t1)) (a + 8) (s.get t2))
  | .ldpPost t1 t2 =>
    let a := s.sp
    ((s.set t1 (load64 s.mem a)).set t2 (load64 s.mem (a + 8))).setSp (a + 16)
  | .ldr t n => s.set (.x t) (load64 s.mem (s.x n))
  | .ldrLit t v => s.set (.x t) v
  | .str t n => s.setMem (store64 s.mem (s.x n) (s.x t))
  | .mov d n => s.set (.x d) (s.x n)
  | .movImm d v => s.set (.x d) v
  | .movFromSp d => s.set (.x d) s.sp
  | .movToSp n => s.setSp (s.x n)
  | .addSp v => s.setSp (s.sp + v)
  | .subSp v => s.setSp (s.sp - v)
  | .orr d n m => s.set (.x d) (s.x n ||| s.x m)
  | .orrImm d n v => s.set (.x d) (s.x n ||| v)
  | .mrs t r => s.set (.x t) (s.mrs r)
  | .msr r t => s.msr r (s.x t)
  | .dsb => s
  | .isb => s
  | .b target => { s with pc := target }
  | .bl target link => { s.set (.x 30) link with pc := target }
  | .eret => { s with pc := s.elr, pstate := .ofSpsr s.spsr }

/-- A piece of code from its start to its end. -/
def execAll (code : List Instr) (s : Core) : Core := code.foldl Instr.exec s

/-- The processor takes an exception to EL1, with the syndrome it finds. -/
def Core.takeException (s : Core) (vector esr far : BitVec 64) : Core :=
  { s with
    elr := s.pc, spsr := s.pstate.toSpsr, esr := esr, far := far, pc := vector
    pstate := { s.pstate with daif := 0b1111, mode := el1h } }

theorem execAll_append (code code' : List Instr) (s : Core) :
    execAll (code ++ code') s = execAll code' (execAll code s) :=
  List.foldl_append

theorem execAll_cons (i : Instr) (code : List Instr) (s : Core) :
    execAll (i :: code) s = execAll code (i.exec s) := rfl

/-- PSTATE comes back from where it was saved. -/
@[simp] theorem Pstate.ofSpsr_toSpsr (p : Pstate) : ofSpsr p.toSpsr = p := by
  obtain ⟨nzcv, daif, mode⟩ := p
  simp only [ofSpsr, toSpsr, Pstate.mk.injEq]
  refine ⟨?_, ?_, ?_⟩
  · apply BitVec.eq_of_getLsbD_eq
    intro i hi
    have hdaif : daif.getLsbD (22 + i) = false := BitVec.getLsbD_of_ge _ _ (by omega)
    have hmode : mode.getLsbD (28 + i) = false := BitVec.getLsbD_of_ge _ _ (by omega)
    simp [hi, hmode, hdaif, show 28 + i < 64 by omega, show ¬ 28 + i < 6 by omega,
      show 28 + i - 6 = 22 + i by omega]
  · apply BitVec.eq_of_getLsbD_eq
    intro i hi
    have hmode : mode.getLsbD (6 + i) = false := BitVec.getLsbD_of_ge _ _ (by omega)
    simp [hi, hmode, show 6 + i < 64 by omega, show 6 + i < 28 by omega]
  · apply BitVec.eq_of_getLsbD_eq
    intro i hi
    simp [hi, show i < 64 by omega, show i < 28 by omega]
    omega

namespace Core

variable {s : Core} {r : Reg} {n : Fin 31} {v w : BitVec 64}

@[simp] theorem sp_setSp (s : Core) (v : BitVec 64) : (s.setSp v).sp = v :=
  Function.update_self ..

@[simp] theorem setSp_setSp (s : Core) (v w : BitVec 64) : (s.setSp v).setSp w = s.setSp w := by
  simp [setSp]

@[simp] theorem setSp_sp (s : Core) : s.setSp s.sp = s := by
  simp [setSp, sp]

@[simp] theorem sp_set (s : Core) (r : Reg) (v : BitVec 64) : (s.set r v).sp = s.sp := by
  cases r <;> rfl

@[simp] theorem mem_set (s : Core) (r : Reg) (v : BitVec 64) : (s.set r v).mem = s.mem := by
  cases r <;> rfl

@[simp] theorem sp_setMem (s : Core) (mem : ByteMem) : (s.setMem mem).sp = s.sp := rfl

@[simp] theorem mem_setMem (s : Core) (mem : ByteMem) : (s.setMem mem).mem = mem := rfl

@[simp] theorem mem_setSp (s : Core) (v : BitVec 64) : (s.setSp v).mem = s.mem := rfl

@[simp] theorem get_setMem (s : Core) (mem : ByteMem) (r : Reg) :
    (s.setMem mem).get r = s.get r := by
  cases r <;> rfl

@[simp] theorem get_setSp (s : Core) (v : BitVec 64) (r : Reg) : (s.setSp v).get r = s.get r := by
  cases r <;> rfl

@[simp] theorem setMem_setSp (s : Core) (mem : ByteMem) (v : BitVec 64) :
    (s.setMem mem).setSp v = (s.setSp v).setMem mem := rfl

@[simp] theorem setMem_setMem (s : Core) (mem mem' : ByteMem) :
    (s.setMem mem).setMem mem' = s.setMem mem' := rfl

@[simp] theorem setMem_mem (s : Core) : s.setMem s.mem = s := rfl

theorem set_setSp (s : Core) (r : Reg) (v w : BitVec 64) :
    (s.set r v).setSp w = (s.setSp w).set r v := by
  cases r <;> rfl

end Core

/-! ## Pushing and popping registers -/

/-- The code that pushes pairs of registers, from the last one to the first. -/
def pushes : List (Reg × Reg) → List Instr
  | [] => []
  | p :: ps => pushes ps ++ [.stpPre p.1 p.2]

/-- The code that pops pairs of registers, from the first one to the last. -/
def pops (ps : List (Reg × Reg)) : List Instr := ps.map fun p => .ldpPost p.1 p.2

/-- The registers of pairs as they stand in the memory. -/
def pairRegs : List (Reg × Reg) → List Reg
  | [] => []
  | p :: ps => p.1 :: p.2 :: pairRegs ps

theorem length_pairRegs (ps : List (Reg × Reg)) : (pairRegs ps).length = 2 * ps.length := by
  induction ps with
  | nil => rfl
  | cons p ps ih =>
    rw [pairRegs, List.length_cons, List.length_cons, ih, List.length_cons, Nat.mul_succ]

/-- The registers are loaded with the words of a list. -/
def loadRegs (s : Core) : List Reg → List (BitVec 64) → Core
  | r :: rs, w :: ws => loadRegs (s.set r w) rs ws
  | _, _ => s

/-- A register that was loaded has its word, when each register has only one. -/
theorem loadRegs_map (f : Reg → BitVec 64) {rs : List Reg} {s : Core} {n : Fin 31}
    (h : .x n ∈ rs ∨ s.x n = f (.x n)) : (loadRegs s rs (rs.map f)).x n = f (.x n) := by
  induction rs generalizing s with
  | nil => exact h.resolve_left List.not_mem_nil
  | cons r rs ih =>
    rw [List.map_cons, loadRegs]
    apply ih
    by_cases hr : r = .x n
    · subst hr
      exact Or.inr (Function.update_self ..)
    · refine h.imp (fun hmem => (List.mem_cons.mp hmem).resolve_left fun h => hr h.symm)
        fun hval => ?_
      cases r with
      | xzr => exact hval
      | x m =>
        have hm : n ≠ m := fun h => hr (h ▸ rfl)
        exact (Function.update_of_ne hm ..).trans hval

/-- All that a load of registers leaves as it was. -/
theorem loadRegs_eq (s : Core) (rs : List Reg) (ws : List (BitVec 64)) :
    loadRegs s rs ws = { s with x := (loadRegs s rs ws).x } := by
  induction rs generalizing s ws with
  | nil => rfl
  | cons r rs ih =>
    cases ws with
    | nil => rfl
    | cons w ws =>
      rw [loadRegs, ih]
      cases r <;> rfl

theorem loadRegs_setSp (s : Core) (v : BitVec 64) (rs : List Reg) (ws : List (BitVec 64)) :
    (loadRegs s rs ws).setSp v = loadRegs (s.setSp v) rs ws := by
  induction rs generalizing s ws with
  | nil => rfl
  | cons r rs ih =>
    cases ws with
    | nil => rfl
    | cons w ws => rw [loadRegs, loadRegs, ih, Core.set_setSp]

section
variable {s : Core} {ps : List (Reg × Reg)}

theorem sub_pair (a : BitVec 64) (n : Nat) :
    a - BitVec.ofNat 64 (16 * n) - 16 = a - BitVec.ofNat 64 (16 * (n + 1)) := by
  rw [Nat.mul_succ, BitVec.ofNat_add]
  bv_omega

/-- **Pushing.** The registers stand at the new stack pointer, and nothing else is changed. -/
theorem execAll_pushes (s : Core) (ps : List (Reg × Reg)) (hn : 16 * ps.length ≤ 2 ^ 64) :
    ∃ mem, execAll (pushes ps) s =
        (s.setSp (s.sp - BitVec.ofNat 64 (16 * ps.length))).setMem mem ∧
      WordsAt mem (s.sp - BitVec.ofNat 64 (16 * ps.length)) ((pairRegs ps).map s.get) ∧
      ∀ a ∉ Span (s.sp - BitVec.ofNat 64 (16 * ps.length)) (16 * ps.length), mem a = s.mem a := by
  induction ps with
  | nil => exact ⟨s.mem, by simp [pushes, execAll], trivial, fun _ _ => rfl⟩
  | cons p ps ih =>
    rw [List.length_cons] at hn ⊢
    obtain ⟨mem, hexec, hwords, hframe⟩ := ih (by omega)
    obtain ⟨a, ha⟩ : ∃ a, s.sp - BitVec.ofNat 64 (16 * (ps.length + 1)) = a := ⟨_, rfl⟩
    have hold : s.sp - BitVec.ofNat 64 (16 * ps.length) = a + 8 + 8 := by
      rw [← ha, ← sub_pair]
      bv_omega
    rw [hold] at hexec hwords hframe
    rw [ha]
    refine ⟨store64 (store64 mem a (s.get p.1)) (a + 8) (s.get p.2), ?_, ⟨?_, ?_, ?_⟩, ?_⟩
    · have hsub : a + 8 + 8 - 16 = a := by bv_omega
      rw [pushes, execAll_append, hexec, execAll_cons, Instr.exec]
      simp only [Core.sp_setMem, Core.sp_setSp, hsub, Core.setMem_setSp, Core.setSp_setSp,
        Core.setMem_setMem, Core.mem_setMem, Core.get_setMem, Core.get_setSp]
      rfl
    · rw [load64_store64_of_disjoint, load64_store64]
      exact disjoint_span_cons (by decide)
    · exact load64_store64 ..
    · -- the pairs that were pushed before are above
      have hlen : 8 * ((pairRegs ps).map s.get).length = 16 * ps.length := by
        rw [List.length_map, length_pairRegs]
        omega
      have hlt : 8 * ((pairRegs ps).map s.get).length ≤ 2 ^ 64 := by omega
      refine WordsAt.congr hlt (fun b hb => ?_) hwords
      · rw [hlen] at hb
        rw [store64_of_notMem, store64_of_notMem]
        · simp only [mem_span] at hb ⊢
          bv_omega
        · simp only [mem_span] at hb ⊢
          bv_omega
    · intro b hb
      rw [store64_of_notMem, store64_of_notMem, hframe]
      · simp only [mem_span] at hb ⊢
        bv_omega
      · simp only [mem_span] at hb ⊢
        bv_omega
      · simp only [mem_span] at hb ⊢
        bv_omega

/-- **Popping** loads the words at the stack pointer. -/
theorem execAll_pops {ws : List (BitVec 64)} (hlen : ws.length = 2 * ps.length)
    (h : WordsAt s.mem s.sp ws) :
    execAll (pops ps) s =
      (loadRegs s (pairRegs ps) ws).setSp (s.sp + BitVec.ofNat 64 (16 * ps.length)) := by
  induction ps generalizing s ws with
  | nil => simp [pops, execAll, pairRegs, loadRegs]
  | cons p ps ih =>
    match ws, hlen, h with
    | w :: w' :: ws, hlen, ⟨hw, hw', hws⟩ =>
      have hsp : s.sp + 16 + BitVec.ofNat 64 (16 * ps.length) =
          s.sp + BitVec.ofNat 64 (16 * (p :: ps).length) := by
        rw [List.length_cons, Nat.mul_succ, BitVec.ofNat_add]
        bv_omega
      have hbase : s.sp + 8 + 8 = s.sp + 16 := by bv_omega
      rw [hbase] at hws
      rw [pops, List.map_cons, execAll_cons, Instr.exec, ← pops, hw, hw']
      have hlen' : ws.length = 2 * ps.length := by
        simp only [List.length_cons] at hlen
        omega
      rw [ih hlen' (by simpa using hws)]
      simp only [Core.sp_setSp, hsp, pairRegs, loadRegs, ← loadRegs_setSp, Core.setSp_setSp]

end

end MiniEuler.Library
