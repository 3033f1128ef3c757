import Mathlib.Data.BitVec
import Mathlib.Logic.Function.Basic

/-! The page tables: `mmu.c`, down to the system registers that `mmu_setup_pgtables` loads. The
memory is a function from addresses to double words, since all of the entries are aligned. -/

namespace MiniEuler

inductive MmuGranule
  | g4K
  | g64K
  deriving DecidableEq, Repr

structure MmuMmapRegion where
  virt : BitVec 64
  phys : BitVec 64
  size : BitVec 64
  maxLevel : Nat
  attrs : BitVec 64
  deriving DecidableEq, Repr

structure MmuCtrl where
  tlbAddr : BitVec 64
  tlbSize : BitVec 64
  tlbFillptr : BitVec 64
  granule : MmuGranule
  startLevel : Nat
  vaBits : Nat
  deriving DecidableEq, Repr

/-- `g_mmu_ctrl`, the memory, and the registers that `mmu_set_ttbr_tcr_mair` writes. -/
structure Mmu where
  ctrl : MmuCtrl
  mem : BitVec 64 → BitVec 64
  ttbr0 : BitVec 64
  tcr : BitVec 64
  mair : BitVec 64

/-- `g_mmu_ctrl` is zero at the start. -/
def mmuReset : Mmu where
  ctrl :=
    { tlbAddr := 0, tlbSize := 0, tlbFillptr := 0, granule := .g4K, startLevel := 0, vaBits := 0 }
  mem := fun _ => 0
  ttbr0 := 0
  tcr := 0
  mair := 0

/-! ## Constants of `mmu.h` -/

def pteTypeFault : BitVec 64 := 0
def pteTypeBlock : BitVec 64 := 1
def pteTypeMask : BitVec 64 := 3
def pteTypePage : BitVec 64 := 3
def pteTypeTable : BitVec 64 := 3

def maxPteEntries : MmuGranule → Nat
  | .g4K => 512
  | .g64K => 8192

def pteTableAddrMark : MmuGranule → BitVec 64
  | .g4K => 0x0000FFFFFFFFF000
  | .g64K => 0x0000FFFFFFFF0000

def tcrEl1Rsvd : BitVec 64 := 1#64 <<< 35
def tcrIps (ips : Nat) : BitVec 64 := BitVec.ofNat 64 ips <<< 32
def tcrT0sz (vaBits : Nat) : BitVec 64 := BitVec.ofNat 64 (64 - vaBits)
def tcrIrgnWbwa : BitVec 64 := 1#64 <<< 8
def tcrOrgnWbwa : BitVec 64 := 1#64 <<< 10
def tcrSharedInner : BitVec 64 := 3#64 <<< 12
def tcrTg0 : MmuGranule → BitVec 64
  | .g4K => 0#64 <<< 14
  | .g64K => 1#64 <<< 14

def memoryAttributes : BitVec 64 :=
  0x00#64 <<< 0 ||| 0x04#64 <<< 8 ||| 0x0c#64 <<< 16 ||| 0x44#64 <<< 24 ||| 0xff#64 <<< 32

def mmuLevel3 : Nat := 3
def mmuLevelMax : Nat := 4

/-! ## Translation control -/

/-- The largest end of a region. -/
def mmuMaxAddr (memMapInfo : List MmuMmapRegion) : BitVec 64 :=
  memMapInfo.foldl (fun maxAddr map =>
    if maxAddr > map.virt + map.size then maxAddr else map.virt + map.size) 0

/-- The sizes of the physical and the virtual addresses. -/
def mmuAddrBits (maxAddr : BitVec 64) : Nat × Nat :=
  if maxAddr > 1#64 <<< 44 then (5, 48)
  else if maxAddr > 1#64 <<< 42 then (4, 44)
  else if maxAddr > 1#64 <<< 40 then (3, 42)
  else if maxAddr > 1#64 <<< 36 then (2, 40)
  else if maxAddr > 1#64 <<< 32 then (1, 36)
  else (0, 32)

/-- The value for TCR, and the number of bits of a virtual address. -/
def mmuGetTcr (granule : MmuGranule) (memMapInfo : List MmuMmapRegion) : BitVec 64 × Nat :=
  let bits := mmuAddrBits (mmuMaxAddr memMapInfo)
  (tcrEl1Rsvd ||| tcrIps bits.1 ||| (tcrTg0 granule ||| tcrSharedInner ||| tcrOrgnWbwa |||
    tcrIrgnWbwa) ||| tcrT0sz bits.2, bits.2)

/-- The level of the root table. -/
def mmuStartLevel (granule : MmuGranule) (vaBits : Nat) : Nat :=
  match granule with
  | .g4K => if vaBits < 39 then 1 else 0
  | .g64K => if vaBits ≤ 36 then 2 else 1

/-! ## Entries -/

/-- The number of address bits that an entry of a level leaves open. -/
def mmuLevel2shift (granule : MmuGranule) (level : Nat) : Nat :=
  match granule with
  | .g4K => 12 + 9 * (mmuLevel3 - level)
  | .g64K => 16 + 13 * (mmuLevel3 - level)

def mmuGetPteType (m : Mmu) (pte : BitVec 64) : BitVec 64 := m.mem pte &&& pteTypeMask

def mmuIndex (granule : MmuGranule) (addr : BitVec 64) (level : Nat) : BitVec 64 :=
  (addr >>> mmuLevel2shift granule level) &&& BitVec.ofNat 64 (maxPteEntries granule - 1)

/-- The loop of `mmu_find_pte` from level `i` on, with `n` levels to come. -/
def mmuFindPteLoop (m : Mmu) (addr : BitVec 64) (level : Nat) :
    (n i : Nat) → BitVec 64 → Option (BitVec 64)
  | 0, _, _ => none
  | n + 1, i, table =>
    let pte := table + 8 * mmuIndex m.ctrl.granule addr i
    if i = level then some pte
    else if mmuGetPteType m pte ≠ pteTypeTable then none
    else mmuFindPteLoop m addr level n (i + 1) (m.mem pte &&& pteTableAddrMark m.ctrl.granule)

/-- The address of the entry of a level, when the tables above it are there. -/
def mmuFindPte (m : Mmu) (addr : BitVec 64) (level : Nat) : Option (BitVec 64) :=
  if level < m.ctrl.startLevel then none
  else
    mmuFindPteLoop m addr level (mmuLevelMax - m.ctrl.startLevel) m.ctrl.startLevel m.ctrl.tlbAddr

/-! ## Building -/

/-- The loop that clears a new table of `n` entries. -/
def mmuClearTable (mem : BitVec 64 → BitVec 64) (table : BitVec 64) (n : Nat) :
    BitVec 64 → BitVec 64 :=
  (List.range n).foldl (fun mem i => Function.update mem (table + 8 * BitVec.ofNat 64 i) 0) mem

/-- The address of the new table, or NULL when the area is full. -/
def mmuCreateTable (m : Mmu) : Mmu × BitVec 64 :=
  let newTable := m.ctrl.tlbFillptr
  let ptLen := BitVec.ofNat 64 (maxPteEntries m.ctrl.granule * 8)
  let m := { m with ctrl := { m.ctrl with tlbFillptr := m.ctrl.tlbFillptr + ptLen } }
  if m.ctrl.tlbFillptr - m.ctrl.tlbAddr > m.ctrl.tlbSize then (m, 0)
  else ({ m with mem := mmuClearTable m.mem newTable (maxPteEntries m.ctrl.granule) }, newTable)

def mmuSetPteTable (m : Mmu) (pte table : BitVec 64) : Mmu :=
  { m with mem := Function.update m.mem pte (pteTypeTable ||| table) }

def mmuAddMapPteProcess (m : Mmu) (map : MmuMmapRegion) (pte phys : BitVec 64) (level : Nat) :
    Mmu × Int :=
  if level < map.maxLevel then
    if mmuGetPteType m pte = pteTypeFault then
      match mmuCreateTable m with
      | (m, newTable) => if newTable = 0 then (m, -1) else (mmuSetPteTable m pte newTable, 0)
    else (m, 0)
  else if level = mmuLevel3 then
    ({ m with mem := Function.update m.mem pte (phys ||| map.attrs ||| pteTypePage) }, 0)
  else
    ({ m with mem := Function.update m.mem pte (phys ||| map.attrs ||| pteTypeBlock) }, 0)

/-- The loop over the levels from `level` on, with `n` levels to come, and `block_size`. -/
def mmuAddMapLevels (map : MmuMmapRegion) (virt phys : BitVec 64) :
    (n level : Nat) → Mmu → BitVec 64 → Mmu × BitVec 64 × Int
  | 0, _, m, blockSize => (m, blockSize, 0)
  | n + 1, level, m, blockSize =>
    match mmuFindPte m virt level with
    | none => (m, blockSize, -3)
    | some pte =>
      match mmuAddMapPteProcess m map pte phys level with
      | (m, ret) =>
        if ret ≠ 0 then (m, blockSize, ret)
        else
          mmuAddMapLevels map virt phys n (level + 1) m
            (if level ≠ m.ctrl.startLevel then 1#64 <<< mmuLevel2shift m.ctrl.granule level
            else blockSize)

/-- The loop over the blocks of a region, for at most `n` rounds. -/
def mmuAddMapLoop (map : MmuMmapRegion) :
    (n : Nat) → Mmu → (virt phys mapSize blockSize : BitVec 64) → Mmu × Int
  | 0, m, _, _, _, _ => (m, 0)
  | n + 1, m, virt, phys, mapSize, blockSize =>
    if mapSize < map.size then
      match mmuAddMapLevels map virt phys (map.maxLevel + 1 - m.ctrl.startLevel)
        m.ctrl.startLevel m blockSize with
      | (m, blockSize, ret) =>
        if ret ≠ 0 then (m, ret)
        else
          mmuAddMapLoop map n m (virt + blockSize) (phys + blockSize) (mapSize + blockSize)
            blockSize
    else (m, 0)

/-- Each round maps a block of one byte at least, so that `size` rounds are enough as long as the
size mapped does not wrap around. -/
def mmuAddMap (m : Mmu) (map : MmuMmapRegion) : Mmu × Int :=
  if map.maxLevel ≤ m.ctrl.startLevel then (m, -2)
  else mmuAddMapLoop map map.size.toNat m map.virt map.phys 0 0

/-- The loop over the regions. -/
def mmuAddMaps : List MmuMmapRegion → Mmu → Mmu × Int
  | [], m => (m, 0)
  | map :: rest, m =>
    match mmuAddMap m map with
    | (m, ret) => if ret ≠ 0 then (m, ret) else mmuAddMaps rest m

def mmuSetTtbrTcrMair (m : Mmu) (table tcr attr : BitVec 64) : Mmu :=
  { m with ttbr0 := table, tcr := tcr, mair := attr }

/-- What `mmu_setup_pgtables` writes into `g_mmu_ctrl`. -/
def mmuSetupCtrl (m : Mmu) (memMapInfo : List MmuMmapRegion) (tlbAddr tlbLen : BitVec 64)
    (granule : MmuGranule) : Mmu :=
  let vaBits := (mmuGetTcr granule memMapInfo).2
  { m with ctrl :=
    { tlbAddr := tlbAddr, tlbSize := tlbLen, tlbFillptr := tlbAddr, granule := granule
      startLevel := mmuStartLevel granule vaBits, vaBits := vaBits } }

/-- The return code is a `U32`. Addresses of more than 36 bits are refused for 64K pages. -/
def mmuSetupPgtables (m : Mmu) (memMapInfo memMap : List MmuMmapRegion)
    (tlbAddr tlbLen : BitVec 64) (granule : MmuGranule) : Mmu × BitVec 32 :=
  let tcrBits := mmuGetTcr granule memMapInfo
  let m := mmuSetupCtrl m memMapInfo tlbAddr tlbLen granule
  if granule = .g64K ∧ ¬ tcrBits.2 ≤ 36 then (m, 3)
  else
    let newTable := mmuCreateTable m
    if newTable.2 = 0 then (newTable.1, 1)
    else
      let r := mmuAddMaps memMap newTable.1
      if r.2 ≠ 0 then (r.1, BitVec.ofInt 32 r.2)
      else (mmuSetTtbrTcrMair r.1 r.1.ctrl.tlbAddr tcrBits.1 memoryAttributes, 0)

/-! ## The regions of the board -/

def pteBlockMemtype (x : Nat) : BitVec 64 := BitVec.ofNat 64 x <<< 2
def pteBlockInnerShare : BitVec 64 := 3#64 <<< 8
def pteBlockAf : BitVec 64 := 1#64 <<< 10
def pteBlockApRw : BitVec 64 := 0#64 <<< 6

def mmuAttrDeviceNgnrne : BitVec 64 := pteBlockMemtype 0
def mmuAttrCacheShare : BitVec 64 := pteBlockMemtype 4 ||| pteBlockInnerShare
def mmuAccessRwx : BitVec 64 := pteBlockAf ||| pteBlockApRw

/-- `g_mem_map_info`. -/
def gMemMapInfo : List MmuMmapRegion :=
  [{ virt := 0x0, phys := 0x0, size := 0x40000000, maxLevel := 2
     attrs := mmuAttrDeviceNgnrne ||| mmuAccessRwx },
    { virt := 0x40000000, phys := 0x40000000, size := 0x40000000, maxLevel := 2
      attrs := mmuAttrCacheShare ||| mmuAccessRwx }]

end MiniEuler
