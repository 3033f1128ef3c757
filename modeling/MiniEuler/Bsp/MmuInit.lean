import MiniEuler.Bsp.MmuRoom
import MiniEuler.Bsp.CacheLines

/-! `mmu_init`: the tables, the caches and the TLB, and then the MMU. With the MMU on, the
processor translates as its registers say, and the board's memory stays where it is. -/

namespace MiniEuler
open Library

/-! ## `mmu_init` -/

inductive MmuReg
  | ttbr0El1
  | tcrEl1
  | mairEl1
  | sctlrEl1
  deriving DecidableEq, Repr

inductive SysEvent
  | msr (r : MmuReg) (v : BitVec 64)
  | cache (e : CacheEvent)
  deriving DecidableEq, Repr

/-- The memory management, SCTLR, and what the processor has been given to do. -/
structure MmuBoot where
  mmu : Mmu
  sctlr : BitVec 64
  events : List SysEvent

def crM : BitVec 64 := 1#64 <<< 0
def crC : BitVec 64 := 1#64 <<< 2
def crI : BitVec 64 := 1#64 <<< 12

/-- The table area is between `g_mmu_page_begin` and `g_mmu_page_end`. -/
def mmuSetup (m : Mmu) (pageBegin pageEnd : BitVec 64) : Mmu × BitVec 32 :=
  mmuSetupPgtables m gMemMapInfo gMemMapInfo pageBegin (pageEnd - pageBegin) .g4K

def mmuSetTtbrTcrMairEvents (table tcr attr : BitVec 64) : List SysEvent :=
  [.cache .dsb, .msr .ttbr0El1 table, .msr .tcrEl1 tcr, .msr .mairEl1 attr, .cache .isb]

def setSctlrEvents (val : BitVec 64) : List SysEvent :=
  [.cache .dsb, .msr .sctlrEl1 val, .cache .dsb, .cache .isb]

/-- A call of assembler code from C: with any registers it comes back to the link address, with the
registers kept that C code expects to be kept. -/
def AsmCall (H : CacheId) (base : BitVec 64) (l : CacheLabel) (evs : List CacheEvent) : Prop :=
  ∀ s : CacheCore, ∃ s', CodeReaches (cacheIsa H) cacheAsm base
      ⟨s, codeAddr base (placeOf l cacheAsm)⟩ ⟨s', s.x 30⟩ ∧
    s'.events = s.events ++ evs ∧ ∀ r : Fin 31, 18 ≤ r → s'.x r = s.x r

inductive MmuInit (H : CacheId) (base pageBegin pageEnd : BitVec 64) (b : MmuBoot) :
    MmuBoot → BitVec 32 → Prop
  | failed {m : Mmu} {ret : BitVec 32} (h : mmuSetup b.mmu pageBegin pageEnd = (m, ret))
      (hret : ret ≠ 0) : MmuInit H base pageBegin pageEnd b { b with mmu := m } ret
  | on {m : Mmu} {dcache icache tlb : List CacheEvent}
      (h : mmuSetup b.mmu pageBegin pageEnd = (m, 0))
      (hdcache : AsmCall H base .osAsmInvalidateDcacheAll dcache)
      (hicache : AsmCall H base .osAsmInvalidateIcacheAll icache)
      (htlb : AsmCall H base .osAsmInvalidateTlbAll tlb) :
      MmuInit H base pageBegin pageEnd b
        { mmu := m
          sctlr := b.sctlr ||| crC ||| crM ||| crI
          events := b.events ++ mmuSetTtbrTcrMairEvents m.ttbr0 m.tcr m.mair ++
            (dcache ++ icache ++ tlb).map .cache ++
              setSctlrEvents (b.sctlr ||| crC ||| crM ||| crI) } 0

/-! ## The processor with the MMU -/

/-- The memory type by MAIR, and the shareability, access and execution bits. -/
structure MemAttr where
  kind : BitVec 8
  sh : BitVec 2
  ap : BitVec 2
  af : Bool
  pxn : Bool
  uxn : Bool
  deriving DecidableEq, Repr

inductive ArchAccess
  | fault
  | addressSize
  | reserved
  | ok (pa : BitVec 64) (attr : MemAttr)
  deriving DecidableEq, Repr

def archMemAttr (mair attrs : BitVec 64) : MemAttr where
  kind := mair.extractLsb' (8 * (attrs.extractLsb' 2 3).toNat) 8
  sh := attrs.extractLsb' 8 2
  ap := attrs.extractLsb' 6 2
  af := attrs.getLsbD 10
  pxn := attrs.getLsbD 53
  uxn := attrs.getLsbD 54

/-- TCR.T0SZ leaves this many bits of an address. -/
def archVaBits (tcr : BitVec 64) : Nat := 64 - (tcr.extractLsb' 0 6).toNat

/-- The level of the root table: nine bits a level, above the twelve of a page. -/
def archStartLevel (vaBits : Nat) : Nat := 3 - (vaBits - 13) / 9

/-- The bits of a physical address, by TCR.IPS. -/
def archPaBits (tcr : BitVec 64) : Nat :=
  [32, 36, 40, 42, 44, 48, 52, 56].getD (tcr.extractLsb' 32 3).toNat 0

/-- An access through TTBR0, for 4K pages, once SCTLR.M is set. Addresses with bit 55 go through
TTBR1. -/
def archAccess (m : Mmu) (va : BitVec 64) : ArchAccess :=
  if m.tcr.extractLsb' 14 2 ≠ 0 then .reserved
  else if 2 ^ archVaBits m.tcr ≤ va.toNat then .fault
  else
    match archTranslate m.mem m.ttbr0 (archStartLevel (archVaBits m.tcr)) va with
    | .fault => .fault
    | .reserved => .reserved
    | .mapped pa attrs =>
      if pa.toNat < 2 ^ archPaBits m.tcr then .ok pa (archMemAttr m.mair attrs) else .addressSize

/-! ## The assembler calls -/

def icacheEvents : List CacheEvent := [.icIalluis, .isb]

def tlbEvents : List CacheEvent := [.tlbiVmalle1, .dsb, .isb]

section calls
variable {H : CacheId} {base : BitVec 64} {l : CacheLabel} {evs evs' : List CacheEvent}

/-- No instruction stands before the code. -/
theorem codeStep_before (p : CodePoint CacheCore) (h : p.pc = base - 4) :
    codeStep (cacheIsa H) cacheAsm base p = none := by
  have hpc : (p.pc - base).toNat = 2 ^ 64 - 4 := by
    rw [h]
    bv_omega
  have hfetch : fetchAt cacheAsm base p.pc = none := by
    have hlen : (instrsOf cacheAsm).length = 65 := by decide
    rw [fetchAt, hpc, if_pos (by decide), List.getElem?_eq_none]
    rw [hlen]
    decide
  rw [codeStep, hfetch]

/-- The code decides what a call does. -/
theorem AsmCall.unique (h : AsmCall H base l evs) (h' : AsmCall H base l evs') : evs = evs' := by
  let s : CacheCore :=
    { x := fun _ => base - 4, flags := ⟨false, false, false, false⟩, csselr := 0, selected := 0
      events := [] }
  obtain ⟨t, hrun, hevents, -⟩ := h s
  obtain ⟨t', hrun', hevents', -⟩ := h' s
  have heq := hrun.unique hrun' (codeStep_before _ rfl) (codeStep_before _ rfl)
  rw [CodePoint.mk.injEq] at heq
  rw [heq.1] at hevents
  simpa using hevents.symm.trans hevents'

theorem asmCall_dcache (H : CacheId) (base : BitVec 64) :
    AsmCall H base .osAsmInvalidateDcacheAll (dcacheEvents H 1) := by
  intro s
  obtain ⟨s', hrun, S, -⟩ := leads_entry H base .invalidate s s rfl
  refine ⟨s', hrun, S.events, fun r hr => S.x r fun hmem => ?_⟩
  have hall : ∀ r ∈ dcacheRegs, ¬ 18 ≤ r := by decide
  exact hall r hmem hr

/-- A function that is a few instructions and `ret`. -/
theorem asmCall_of_block (is : List CacheInstr) {i : Nat} (hi : placeOf l cacheAsm = i)
    (hcode : ((instrsOf cacheAsm).drop i).take is.length = is.map .data)
    (hret : (instrsOf cacheAsm)[i + is.length]? = some .ret)
    (hexec : ∀ s, (is.foldl (CacheInstr.exec H) s).x = s.x ∧
      (is.foldl (CacheInstr.exec H) s).events = s.events ++ evs) : AsmCall H base l evs := by
  intro s
  have hrun := (leads_block (M := cacheIsa H) (b := base) (P := (· = s))
    (Q := fun t => t.x = s.x ∧ t.events = s.events ++ evs) cacheAsm_length is hcode
    (by rintro _ rfl; exact hexec _)).seq
    (leads_ret cacheAsm_length hret fun t ht => (congrFun ht.1 30 : t.x 30 = s.x 30))
  obtain ⟨t, hrun, hx, hevents⟩ := hrun s rfl
  exact ⟨t, hi ▸ hrun, hevents, fun r _ => congrFun hx r⟩

theorem asmCall_icache (H : CacheId) (base : BitVec 64) :
    AsmCall H base .osAsmInvalidateIcacheAll icacheEvents :=
  asmCall_of_block [.icIalluis, .isb] (i := 58) rfl rfl rfl fun s => ⟨rfl, by
    simp [CacheInstr.exec, CacheCore.emit, icacheEvents]⟩

theorem asmCall_tlb (H : CacheId) (base : BitVec 64) :
    AsmCall H base .osAsmInvalidateTlbAll tlbEvents :=
  asmCall_of_block [.tlbiVmalle1, .dsb, .isb] (i := 61) rfl rfl rfl fun s => ⟨rfl, by
    simp [CacheInstr.exec, CacheCore.emit, tlbEvents]⟩

end calls

/-! ## The board -/

def deviceAttr : MemAttr where
  kind := 0x00
  sh := 0
  ap := 0
  af := true
  pxn := false
  uxn := false

def memoryAttr : MemAttr where
  kind := 0xff
  sh := 3
  ap := 0
  af := true
  pxn := false
  uxn := false

/-- The board's memory stays where it is: the devices below 1G, and write-back memory below 2G. -/
structure Identity (m : Mmu) : Prop where
  device : ∀ va : BitVec 64, va.toNat < 2 ^ 30 → archAccess m va = .ok va deviceAttr
  memory : ∀ va : BitVec 64, 2 ^ 30 ≤ va.toNat → va.toNat < 2 ^ 31 →
    archAccess m va = .ok va memoryAttr
  rest : ∀ va : BitVec 64, va.getLsbD 55 = false → 2 ^ 31 ≤ va.toNat → archAccess m va = .fault

/-- The walk through the tables of the regions. -/
theorem RegionsOk.walk {m : Mmu} {regions : List MmuMmapRegion} (R : RegionsOk .g4K regions)
    {D : PteDirectory .g4K} (B : Built .g4K m D)
    (F : Filled D (regionUnits .g4K (rootLevel .g4K regions) regions) []) {va : BitVec 64}
    (hva : va.toNat < 2 ^ (mmuGetTcr .g4K regions).2) :
    (∀ map ∈ regions, InRegion map va →
      archTranslate m.mem m.ctrl.tlbAddr (rootLevel .g4K regions) va =
        .mapped (map.phys + (va - map.virt)) map.attrs) ∧
    ((∀ map ∈ regions, ¬ InRegion map va) →
      archTranslate m.mem m.ctrl.tlbAddr (rootLevel .g4K regions) va = .fault) := by
  have hc : ∀ map ∈ regions, ∀ va, InRegion map va → Covered .g4K (rootLevel .g4K regions) va :=
    fun map hmap va hva => covered_of_lt (R.inRegion_lt hmap hva)
  have hroot := rootLevel_le regions
  constructor
  · intro map hmap hin
    obtain ⟨k, hk, hnum, hleaf⟩ := R.leaf_of_inRegion hc F hmap hin
    have Rm := R.region map hmap
    have hlevel := Rm.level
    obtain ⟨q, hq⟩ := Nat.exists_eq_add_of_lt hlevel.1
    have htype := (Rm.fields hk).2.2
    have hout := Rm.output hk hnum
    rw [show map.maxLevel - rootLevel .g4K regions = q + 1 by omega] at hleaf
    rw [hq, Nat.add_assoc] at htype hout
    exact (B.archWalk_mapped (j := 0) hleaf htype (by omega) (Nat.zero_add _) (by omega)
      B.root).trans hout
  · intro hout
    refine B.archWalk_unmapped (s := rootLevel .g4K regions) (j := 0) (fun i desc h => ?_)
      (fun i t h => ?_) (by omega) B.root
    · obtain ⟨map, hmap, hin⟩ := R.inRegion_of_leaf hc F (covered_of_lt hva) h
      exact hout map hmap hin
    · have hlt := R.table_level F h (by omega)
      rwa [length_pathTo] at hlt

theorem identity_of_loaded {m : Mmu} (L : Loaded .g4K gMemMapInfo m) {D : PteDirectory .g4K}
    (B : Built .g4K m D)
    (F : Filled D (regionUnits .g4K (rootLevel .g4K gMemMapInfo) gMemMapInfo) []) :
    Identity m := by
  have hbits : archVaBits m.tcr = 32 := by rw [L.tcr]; decide
  have hpa : archPaBits m.tcr = 32 := by rw [L.tcr]; decide
  have htg : m.tcr.extractLsb' 14 2 = 0 := by rw [L.tcr]; decide
  have hstart : archStartLevel 32 = rootLevel .g4K gMemMapInfo := by decide
  have hwalk : ∀ va : BitVec 64, va.toNat < 2 ^ 32 → ∀ t,
      archTranslate m.mem m.ctrl.tlbAddr (rootLevel .g4K gMemMapInfo) va = t →
      archAccess m va = match t with
        | .fault => .fault
        | .reserved => .reserved
        | .mapped pa attrs =>
          if pa.toNat < 2 ^ 32 then .ok pa (archMemAttr memoryAttributes attrs)
          else .addressSize := by
    rintro va hva _ rfl
    rw [archAccess, htg, hbits, hpa, hstart, L.ttbr0, L.mair, if_neg (by simp),
      if_neg (Nat.not_le.mpr hva)]
  have hregion : ∀ map ∈ gMemMapInfo, map.phys = map.virt → ∀ va, InRegion map va →
      va.toNat < 2 ^ 32 → archAccess m va = .ok va (archMemAttr memoryAttributes map.attrs) := by
    intro map hmap hflat va hin hva
    have hsame : map.phys + (va - map.virt) = va := by
      rw [hflat, BitVec.add_comm, BitVec.sub_add_cancel]
    have ht := (gMemMapInfo_ok.walk B F hva).1 map hmap hin
    rw [hwalk va hva _ ht, hsame]
    exact if_pos hva
  refine ⟨fun va hva => ?_, fun va hlow hhigh => ?_, fun va _ hva => ?_⟩
  · have hmap : gMemMapInfo[0] ∈ gMemMapInfo := List.getElem_mem _
    refine (hregion _ hmap rfl va ⟨Nat.zero_le _, ?_⟩ (by omega)).trans (congrArg _ (by decide))
    exact hva
  · have hmap : gMemMapInfo[1] ∈ gMemMapInfo := List.getElem_mem _
    refine (hregion _ hmap rfl va ⟨hlow, ?_⟩ (by omega)).trans (congrArg _ (by decide))
    exact hhigh
  · by_cases h32 : va.toNat < 2 ^ 32
    · have hout : ∀ map ∈ gMemMapInfo, ¬ InRegion map va := by
        intro map hmap hin
        rcases List.mem_pair.mp hmap with rfl | rfl
        · have := hin.2
          change va.toNat < 0 + 2 ^ 30 at this
          omega
        · have := hin.2
          change va.toNat < 2 ^ 30 + 2 ^ 30 at this
          omega
      rw [hwalk va h32 _ ((gMemMapInfo_ok.walk B F h32).2 hout)]
    · rw [archAccess, htg, hbits, if_neg (by simp), if_pos (Nat.not_lt.mp h32)]

/-! ## The whole of `mmu_init` -/

/-- After `mmu_init`. The registers are loaded before the caches are invalidated, and these before
SCTLR is written; between the two each line of the data caches is invalidated once. -/
structure MmuOn (H : CacheId) (b b' : MmuBoot) : Prop where
  sctlr : b'.sctlr = b.sctlr ||| 0x1005#64
  order : ∃ dcache, b'.events = b.events ++
      mmuSetTtbrTcrMairEvents b'.mmu.ttbr0 b'.mmu.tcr b'.mmu.mair ++
        (dcache ++ icacheEvents ++ tlbEvents).map .cache ++ setSctlrEvents b'.sctlr ∧
    (∀ op l, (op, l) ∈ dcache.filterMap H.maintained ↔ op = .isw ∧ H.Has l) ∧
    (dcache.filterMap H.maintained).Nodup
  identity : Identity b'.mmu

section init
variable {H : CacheId} {pageBegin pageEnd : BitVec 64}

theorem mmuSetup_ok (m : Mmu) (A : TableArea .g4K pageBegin (pageEnd - pageBegin))
    (hroom : 0x3000 ≤ (pageEnd - pageBegin).toNat) :
    (mmuSetup m pageBegin pageEnd).2 = 0 ∧ Identity (mmuSetup m pageBegin pageEnd).1 := by
  have hneed : tablesNeeded .g4K gMemMapInfo = 3 := by decide
  have hbits : ¬ ((.g4K : MmuGranule) = .g64K ∧ ¬ (mmuGetTcr .g4K gMemMapInfo).2 ≤ 36) := by simp
  have hc := covered_of_bits gMemMapInfo_ok hbits
  rcases mmuSetupPgtables_room gMemMapInfo_ok A hbits hc (m := m)
    (Prod.mk.eta (p := mmuSetup m pageBegin pageEnd)).symm with
    ⟨-, -, hshort⟩ | ⟨hret, -, L, D, B, -, F⟩
  · rw [Short, card_tablePaths gMemMapInfo_ok hc, hneed] at hshort
    exact absurd hshort (Nat.not_lt.mpr hroom)
  · exact ⟨hret, identity_of_loaded L B F⟩

/-- **The MMU is turned on.** With three tables' room, whatever the memory and the registers are
before, `mmu_init` comes to its end and returns 0, and each of its runs leaves the MMU on. -/
theorem mmuInit_on (hfit : H.Fits) (A : TableArea .g4K pageBegin (pageEnd - pageBegin))
    (hroom : 0x3000 ≤ (pageEnd - pageBegin).toNat) (base : BitVec 64) (b : MmuBoot) :
    (∃ b', MmuInit H base pageBegin pageEnd b b' 0) ∧
    ∀ b' ret, MmuInit H base pageBegin pageEnd b b' ret → ret = 0 ∧ MmuOn H b b' := by
  obtain ⟨hret, hidentity⟩ := mmuSetup_ok b.mmu A hroom
  obtain ⟨m, ret, hsetup⟩ : ∃ m ret, mmuSetup b.mmu pageBegin pageEnd = (m, ret) :=
    ⟨_, _, Prod.mk.eta.symm⟩
  rw [hsetup] at hret hidentity
  obtain rfl : ret = 0 := hret
  have hdcache := asmCall_dcache H base
  have hicache := asmCall_icache H base
  have htlb := asmCall_tlb H base
  constructor
  · exact ⟨_, .on hsetup hdcache hicache htlb⟩
  · rintro b' ret hrun
    cases hrun with
    | failed h hne =>
      rw [hsetup] at h
      exact absurd (Prod.mk.inj h).2.symm hne
    | on h hdcache' hicache' htlb' =>
      rw [hsetup] at h
      obtain rfl := (Prod.mk.inj h).1
      obtain rfl := hdcache.unique hdcache'
      obtain rfl := hicache.unique hicache'
      obtain rfl := htlb.unique htlb'
      obtain ⟨hall, honce⟩ := maintained_entry hfit .invalidate
      have hbits : crC ||| (crM ||| crI) = 0x1005#64 := by decide
      refine ⟨rfl, ?_, ⟨dcacheEvents H 1, rfl, hall, honce⟩, hidentity⟩
      rw [← hbits, ← BitVec.or_assoc, ← BitVec.or_assoc]

end init

/-- The table area of the board, with nothing in the registers before. -/
theorem mmuInit_on_board :
    let b : MmuBoot := { mmu := mmuReset, sctlr := 0x30d00800, events := [] }
    (∃ b', MmuInit twoLevels 0x40001000 0x40800000 0x40808000 b b' 0) ∧
    ∀ b' ret, MmuInit twoLevels 0x40001000 0x40800000 0x40808000 b b' ret →
      ret = 0 ∧ MmuOn twoLevels b b' :=
  mmuInit_on twoLevels_fits ⟨by decide, by decide, by decide⟩ (by decide) _ _

end MiniEuler
