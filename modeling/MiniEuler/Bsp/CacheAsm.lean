import MiniEuler.Library.Aarch64
import MiniEuler.Library.LabelledCode

/-! `cache_asm.S`: the maintenance of the caches and of the TLB, with the registers it uses and
the maintenance instructions it gives. -/

namespace MiniEuler
open Library

structure Flags where
  n : Bool
  z : Bool
  c : Bool
  v : Bool
  deriving DecidableEq, Repr

/-- The flags after a subtraction. -/
def Flags.sub (a b : BitVec 64) : Flags where
  n := (a - b).msb
  z := a == b
  c := decide (b ≤ a)
  v := BitVec.ssubOverflow a b

/-- A data cache instruction by set and way: clean, invalidate, or both. -/
inductive DcOp
  | csw
  | isw
  | cisw
  deriving DecidableEq, Repr

inductive CacheEvent
  | dc (op : DcOp) (operand : BitVec 64)
  | icIalluis
  | tlbiVmalle1
  | dsb
  | isb
  deriving DecidableEq, Repr

/-- What the processor says of its caches: CCSIDR depends on what CSSELR selects. -/
structure CacheId where
  clidr : BitVec 64
  ccsidr : BitVec 64 → BitVec 64

/-- A write of CSSELR is seen in CCSIDR after the next `isb` only: `selected` is what is seen. -/
structure CacheCore where
  x : Fin 31 → BitVec 64
  flags : Flags
  csselr : BitVec 64
  selected : BitVec 64
  events : List CacheEvent

inductive CacheInstr
  | lslImm (d n : Fin 31) (k : Nat)
  | lsl (d n m : Fin 31)
  | lsrImm (d n : Fin 31) (k : Nat)
  | lsr (d n m : Fin 31)
  | andImm (d n : Fin 31) (v : BitVec 64)
  /-- `and d, n, m, lsr #k`. -/
  | andLsr (d n m : Fin 31) (k : Nat)
  | addImm (d n : Fin 31) (v : BitVec 64)
  | add (d n m : Fin 31)
  | movImm (d : Fin 31) (v : BitVec 64)
  | mov (d n : Fin 31)
  /-- `clz`, on the lower halves. -/
  | clzW (d n : Fin 31)
  | orr (d n m : Fin 31)
  | subsImm (d n : Fin 31) (v : BitVec 64)
  | cmpImm (n : Fin 31) (v : BitVec 64)
  | cmp (n m : Fin 31)
  | mrsClidr (d : Fin 31)
  | mrsCcsidr (d : Fin 31)
  | msrCsselr (n : Fin 31)
  | dc (op : DcOp) (n : Fin 31)
  | icIalluis
  | tlbiVmalle1
  | dsb
  | isb
  deriving DecidableEq, Repr

inductive CacheCond
  | ge
  | lt
  | gt
  | tbz (n : Fin 31) (bit : Nat)
  | cbz (n : Fin 31)
  deriving DecidableEq, Repr

namespace CacheCore

def set (s : CacheCore) (d : Fin 31) (v : BitVec 64) : CacheCore :=
  { s with x := Function.update s.x d v }

def emit (s : CacheCore) (e : CacheEvent) : CacheCore := { s with events := s.events ++ [e] }

end CacheCore

def CacheInstr.exec (H : CacheId) (s : CacheCore) : CacheInstr → CacheCore
  | .lslImm d n k => s.set d (s.x n <<< k)
  | .lsl d n m => s.set d (s.x n <<< ((s.x m).toNat % 64))
  | .lsrImm d n k => s.set d (s.x n >>> k)
  | .lsr d n m => s.set d (s.x n >>> ((s.x m).toNat % 64))
  | .andImm d n v => s.set d (s.x n &&& v)
  | .andLsr d n m k => s.set d (s.x n &&& s.x m >>> k)
  | .addImm d n v => s.set d (s.x n + v)
  | .add d n m => s.set d (s.x n + s.x m)
  | .movImm d v => s.set d v
  | .mov d n => s.set d (s.x n)
  | .clzW d n => s.set d (((s.x n).setWidth 32).clz.setWidth 64)
  | .orr d n m => s.set d (s.x n ||| s.x m)
  | .subsImm d n v => { s.set d (s.x n - v) with flags := .sub (s.x n) v }
  | .cmpImm n v => { s with flags := .sub (s.x n) v }
  | .cmp n m => { s with flags := .sub (s.x n) (s.x m) }
  | .mrsClidr d => s.set d H.clidr
  | .mrsCcsidr d => s.set d (H.ccsidr s.selected)
  | .msrCsselr n => { s with csselr := s.x n }
  | .dc op n => s.emit (.dc op (s.x n))
  | .icIalluis => s.emit .icIalluis
  | .tlbiVmalle1 => s.emit .tlbiVmalle1
  | .dsb => s.emit .dsb
  | .isb => { s.emit .isb with selected := s.csselr }

def CacheCond.holds (s : CacheCore) : CacheCond → Bool
  | .ge => s.flags.n == s.flags.v
  | .lt => s.flags.n != s.flags.v
  | .gt => !s.flags.z && s.flags.n == s.flags.v
  | .tbz n bit => !(s.x n).getLsbD bit
  | .cbz n => s.x n == 0

def cacheIsa (H : CacheId) : Isa CacheInstr CacheCond CacheCore where
  exec i s := i.exec H s
  holds c s := c.holds s
  link s := s.x 30
  setLink v s := s.set 30 v

/-! ## The text -/

inductive CacheLabel
  | osAsmDcacheLevel
  | loopSet
  | loopWay
  | l3
  | l1
  | l2
  | osAsmDcacheAll
  | loopLevel
  | skip
  | finished
  | osAsmInvalidateDcacheAll
  | osAsmFlushDcacheAll
  | osAsmCleanDcacheAll
  | osAsmInvalidateIcacheAll
  | osAsmInvalidateTlbAll
  deriving DecidableEq, Repr

abbrev CacheLine := CodeLine CacheInstr CacheCond CacheLabel

def osAsmDcacheLevel : List CacheLine :=
  [.label .osAsmDcacheLevel,
    .instr (.data (.lslImm 12 0 1)),
    .instr (.data (.msrCsselr 12)),
    .instr (.data .isb),
    .instr (.data (.mrsCcsidr 6)),
    .instr (.data (.andImm 2 6 7)),
    .instr (.data (.addImm 2 2 4)),
    .instr (.data (.movImm 3 0x3ff)),
    .instr (.data (.andLsr 3 3 6 3)),
    .instr (.data (.clzW 5 3)),
    .instr (.data (.movImm 4 0x7fff)),
    .instr (.data (.andLsr 4 4 6 13)),
    .label .loopSet,
    .instr (.data (.mov 6 3)),
    .label .loopWay,
    .instr (.data (.lsl 7 6 5)),
    .instr (.data (.orr 9 12 7)),
    .instr (.data (.lsl 7 4 2)),
    .instr (.data (.orr 9 9 7)),
    .instr (.bIf (.tbz 1 1) .l3),
    .instr (.data (.dc .csw 9)),
    .instr (.b .l2),
    .label .l3,
    .instr (.bIf (.tbz 1 0) .l1),
    .instr (.data (.dc .isw 9)),
    .instr (.b .l2),
    .label .l1,
    .instr (.data (.dc .cisw 9)),
    .label .l2,
    .instr (.data (.subsImm 6 6 1)),
    .instr (.bIf .ge .loopWay),
    .instr (.data (.subsImm 4 4 1)),
    .instr (.bIf .ge .loopSet),
    .instr .ret]

def osAsmDcacheAll : List CacheLine :=
  [.label .osAsmDcacheAll,
    .instr (.data (.mov 1 0)),
    .instr (.data .dsb),
    .instr (.data (.mrsClidr 10)),
    .instr (.data (.lsrImm 11 10 24)),
    .instr (.data (.andImm 11 11 7)),
    .instr (.bIf (.cbz 11) .finished),
    .instr (.data (.mov 15 30)),
    .instr (.data (.movImm 0 0)),
    .label .loopLevel,
    .instr (.data (.lslImm 12 0 1)),
    .instr (.data (.add 12 12 0)),
    .instr (.data (.lsr 12 10 12)),
    .instr (.data (.andImm 12 12 7)),
    .instr (.data (.cmpImm 12 2)),
    .instr (.bIf .lt .skip),
    .instr (.bl .osAsmDcacheLevel),
    .label .skip,
    .instr (.data (.addImm 0 0 1)),
    .instr (.data (.cmp 11 0)),
    .instr (.bIf .gt .loopLevel),
    .instr (.data (.movImm 0 0)),
    .instr (.data (.msrCsselr 0)),
    .instr (.data .dsb),
    .instr (.data .isb),
    .instr (.data (.mov 30 15)),
    .label .finished,
    .instr .ret]

def osAsmInvalidateDcacheAll : List CacheLine :=
  [.label .osAsmInvalidateDcacheAll, .instr (.data (.movImm 0 1)), .instr (.b .osAsmDcacheAll)]

def osAsmFlushDcacheAll : List CacheLine :=
  [.label .osAsmFlushDcacheAll, .instr (.data (.movImm 0 0)), .instr (.b .osAsmDcacheAll)]

def osAsmCleanDcacheAll : List CacheLine :=
  [.label .osAsmCleanDcacheAll, .instr (.data (.movImm 0 2)), .instr (.b .osAsmDcacheAll)]

def osAsmInvalidateIcacheAll : List CacheLine :=
  [.label .osAsmInvalidateIcacheAll, .instr (.data .icIalluis), .instr (.data .isb), .instr .ret]

def osAsmInvalidateTlbAll : List CacheLine :=
  [.label .osAsmInvalidateTlbAll, .instr (.data .tlbiVmalle1), .instr (.data .dsb),
    .instr (.data .isb), .instr .ret]

def cacheAsm : List CacheLine :=
  osAsmDcacheLevel ++ osAsmDcacheAll ++ osAsmInvalidateDcacheAll ++ osAsmFlushDcacheAll ++
    osAsmCleanDcacheAll ++ osAsmInvalidateIcacheAll ++ osAsmInvalidateTlbAll

/-- An entry that the C code calls. -/
inductive DcEntry
  | invalidate
  | flush
  | clean
  deriving DecidableEq, Repr

def DcEntry.label : DcEntry → CacheLabel
  | .invalidate => .osAsmInvalidateDcacheAll
  | .flush => .osAsmFlushDcacheAll
  | .clean => .osAsmCleanDcacheAll

end MiniEuler
