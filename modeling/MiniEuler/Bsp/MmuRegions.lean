import MiniEuler.Bsp.MmuMap

/-! The regions that can be mapped together: aligned to the blocks they are mapped by, and without
a common address. Their blocks are then at places of the tables that do not meet. -/

namespace MiniEuler
open Library

variable {g : MmuGranule} {s : Nat}

/-! ## Addresses and paths -/

theorem two_pow_mmuLevel2shift {level : Nat} (h : level < 3) :
    2 ^ mmuLevel2shift g level = 2 ^ mmuLevel2shift g (level + 1) * maxPteEntries g := by
  have hsplit : level = 0 ∨ level = 1 ∨ level = 2 := by omega
  rcases hsplit with rfl | rfl | rfl <;> cases g <;> rfl

/-- The digits down to a level are the number of the block of that level, for addresses that the
root table covers. -/
theorem pathTo_mmuKey_eq_iff {a b : BitVec 64}
    (ha : a.toNat / 2 ^ mmuLevel2shift g s < maxPteEntries g)
    (hb : b.toNat / 2 ^ mmuLevel2shift g s < maxPteEntries g) {n : Nat} (hn : s + n < 4) :
    pathTo (mmuKey g s a) (n + 1) = pathTo (mmuKey g s b) (n + 1) ↔
      a.toNat / 2 ^ mmuLevel2shift g (s + n) = b.toNat / 2 ^ mmuLevel2shift g (s + n) := by
  induction n with
  | zero =>
    simp [pathTo, mmuKey, mmuDigit, Nat.mod_eq_of_lt ha, Nat.mod_eq_of_lt hb]
  | succ n ih =>
    have hdiv : ∀ x : BitVec 64, x.toNat / 2 ^ mmuLevel2shift g (s + n) =
        x.toNat / 2 ^ mmuLevel2shift g (s + (n + 1)) / maxPteEntries g := fun x => by
      rw [Nat.div_div_eq_div_mul, two_pow_mmuLevel2shift (show s + n < 3 by omega)]
      rfl
    rw [pathTo_succ _ (n + 1), pathTo_succ _ (n + 1), List.cons.injEq, ih (by omega), hdiv a,
      hdiv b]
    simp only [mmuKey, mmuDigit, Fin.mk.injEq]
    constructor
    · rintro ⟨hmod, hquot⟩
      rw [← Nat.div_add_mod (a.toNat / _) (maxPteEntries g), hmod, hquot, Nat.div_add_mod]
    · intro h
      rw [h]
      exact ⟨rfl, rfl⟩

/-! ## Regions -/

/-- The addresses of a region. -/
def InRegion (map : MmuMmapRegion) (va : BitVec 64) : Prop :=
  map.virt.toNat ≤ va.toNat ∧ va.toNat < map.virt.toNat + map.size.toNat

/-- The output address of a descriptor of a level. -/
def outputMask (g : MmuGranule) (level : Nat) : BitVec 64 :=
  BitVec.ofNat 64 (2 ^ 48 - 2 ^ mmuLevel2shift g level)

/-- A region that can be mapped by blocks of its level. -/
structure RegionOk (g : MmuGranule) (s : Nat) (map : MmuMmapRegion) : Prop where
  level : s < map.maxLevel ∧ map.maxLevel ≤ 3
  virt : 2 ^ mmuLevel2shift g map.maxLevel ∣ map.virt.toNat
  phys : 2 ^ mmuLevel2shift g map.maxLevel ∣ map.phys.toNat
  size : 2 ^ mmuLevel2shift g map.maxLevel ∣ map.size.toNat
  virtEnd : map.virt.toNat + map.size.toNat ≤ 2 ^ 48
  physEnd : map.phys.toNat + map.size.toNat ≤ 2 ^ 48
  attrs : map.attrs &&& (outputMask g map.maxLevel ||| pteTypeMask) = 0

namespace RegionOk

variable {map : MmuMmapRegion} {k : Nat}

theorem size_eq (R : RegionOk g s map) :
    map.size.toNat = blockCount g map * 2 ^ mmuLevel2shift g map.maxLevel :=
  (Nat.div_mul_cancel R.size).symm

/-- The offset of a block ends in the region. -/
theorem offset_le (R : RegionOk g s map) (hk : k < blockCount g map) :
    k * 2 ^ mmuLevel2shift g map.maxLevel + 2 ^ mmuLevel2shift g map.maxLevel ≤ map.size.toNat := by
  rw [R.size_eq, ← Nat.succ_mul]
  exact Nat.mul_le_mul_right _ hk

/-- The addresses of a block do not wrap around. -/
theorem toNat_add_blockOffset (R : RegionOk g s map) (hk : k < blockCount g map)
    {base : BitVec 64} (hend : base.toNat + map.size.toNat ≤ 2 ^ 48) :
    (base + blockOffset g map k).toNat =
      base.toNat + k * 2 ^ mmuLevel2shift g map.maxLevel := by
  have hoff : k * 2 ^ mmuLevel2shift g map.maxLevel ≤ map.size.toNat :=
    Nat.le_of_add_right_le (R.offset_le hk)
  rw [blockOffset, BitVec.toNat_add, BitVec.toNat_ofNat, Nat.mod_eq_of_lt (a := k * _) (by omega),
    Nat.mod_eq_of_lt (by omega)]

/-- The number of a block. -/
theorem blockNumber (R : RegionOk g s map) (hk : k < blockCount g map) :
    (map.virt + blockOffset g map k).toNat / 2 ^ mmuLevel2shift g map.maxLevel =
      map.virt.toNat / 2 ^ mmuLevel2shift g map.maxLevel + k := by
  rw [R.toNat_add_blockOffset hk R.virtEnd, Nat.add_mul_div_right _ _ (Nat.two_pow_pos _)]

/-- **The blocks cover the region**: the address of a block of a region and the addresses of that
region are told apart by their block numbers. -/
theorem inRegion_iff (R : RegionOk g s map) (va : BitVec 64) :
    InRegion map va ↔ ∃ k < blockCount g map,
      va.toNat / 2 ^ mmuLevel2shift g map.maxLevel =
        map.virt.toNat / 2 ^ mmuLevel2shift g map.maxLevel + k := by
  have hpos : 0 < 2 ^ mmuLevel2shift g map.maxLevel := Nat.two_pow_pos _
  have hvirt : map.virt.toNat = map.virt.toNat / 2 ^ mmuLevel2shift g map.maxLevel *
      2 ^ mmuLevel2shift g map.maxLevel := (Nat.div_mul_cancel R.virt).symm
  have hlow : map.virt.toNat ≤ va.toNat ↔
      map.virt.toNat / 2 ^ mmuLevel2shift g map.maxLevel ≤
        va.toNat / 2 ^ mmuLevel2shift g map.maxLevel := by
    rw [Nat.le_div_iff_mul_le hpos, ← hvirt]
  have hhigh : va.toNat < map.virt.toNat + map.size.toNat ↔
      va.toNat / 2 ^ mmuLevel2shift g map.maxLevel <
        map.virt.toNat / 2 ^ mmuLevel2shift g map.maxLevel + blockCount g map := by
    rw [Nat.div_lt_iff_lt_mul hpos, Nat.add_mul, ← hvirt, ← R.size_eq]
  rw [InRegion, hlow, hhigh]
  constructor
  · rintro ⟨hle, hlt⟩
    exact ⟨_, Nat.sub_lt_left_of_lt_add hle hlt, (Nat.add_sub_cancel' hle).symm⟩
  · rintro ⟨k, hk, h⟩
    omega

theorem inRegion_block (R : RegionOk g s map) (hk : k < blockCount g map) :
    InRegion map (map.virt + blockOffset g map k) :=
  (R.inRegion_iff _).mpr ⟨k, hk, R.blockNumber hk⟩

end RegionOk

/-! ## Lists of regions -/

/-- The level of the root table for a list of regions. -/
def rootLevel (g : MmuGranule) (regions : List MmuMmapRegion) : Nat :=
  mmuStartLevel g (mmuGetTcr g regions).2

/-- The regions can be mapped together. -/
structure RegionsOk (g : MmuGranule) (regions : List MmuMmapRegion) : Prop where
  region : ∀ map ∈ regions, RegionOk g (rootLevel g regions) map
  disjoint : regions.Pairwise fun map map' => ∀ va, ¬ (InRegion map va ∧ InRegion map' va)

/-- The addresses that the root table covers. -/
def Covered (g : MmuGranule) (s : Nat) (va : BitVec 64) : Prop :=
  va.toNat / 2 ^ mmuLevel2shift g s < maxPteEntries g

/-! ## The size of the address space -/

/-- The loop of `mmu_get_tcr` over the regions, from a value it has reached. -/
theorem toNat_foldl_maxAddr (regions : List MmuMmapRegion) (start : BitVec 64) :
    (regions.foldl (fun maxAddr map =>
      if maxAddr > map.virt + map.size then maxAddr else map.virt + map.size) start).toNat =
      (regions.map fun map => (map.virt + map.size).toNat).foldl max start.toNat := by
  induction regions generalizing start with
  | nil => rfl
  | cons map rest ih =>
    rw [List.foldl_cons, ih, List.map_cons, List.foldl_cons]
    congr 1
    split
    · rename_i h
      exact (max_eq_left (BitVec.lt_def.mp h).le).symm
    · rename_i h
      exact (max_eq_right (BitVec.le_def.mp (BitVec.not_lt.mp h))).symm

theorem foldl_max_le_iff {l : List Nat} {start n : Nat} :
    l.foldl max start ≤ n ↔ start ≤ n ∧ ∀ x ∈ l, x ≤ n := by
  induction l generalizing start with
  | nil => simp
  | cons x l ih => simp [ih, and_assoc]

/-- The largest end of a region is a bound of the ends, and the least one. -/
theorem mmuMaxAddr_le_iff {regions : List MmuMmapRegion} {n : Nat} :
    (mmuMaxAddr regions).toNat ≤ n ↔
      ∀ map ∈ regions, (map.virt + map.size).toNat ≤ n := by
  rw [mmuMaxAddr, toNat_foldl_maxAddr, foldl_max_le_iff]
  simp

/-- The address space holds the addresses below the largest one. -/
theorem le_mmuAddrBits {maxAddr : BitVec 64} (h : maxAddr.toNat ≤ 2 ^ 48) :
    maxAddr.toNat ≤ 2 ^ (mmuAddrBits maxAddr).2 := by
  unfold mmuAddrBits
  simp only [gt_iff_lt, BitVec.lt_def]
  split
  · exact h
  split
  · rename_i h _
    exact Nat.not_lt.mp h
  split
  · rename_i h _
    exact Nat.not_lt.mp h
  split
  · rename_i h _
    exact Nat.not_lt.mp h
  split
  · rename_i h _
    exact Nat.not_lt.mp h
  · rename_i h
    exact Nat.not_lt.mp h

theorem mmuAddrBits_le (maxAddr : BitVec 64) : (mmuAddrBits maxAddr).2 ≤ 48 := by
  unfold mmuAddrBits
  split_ifs <;> decide

/-- The level of the root is chosen such that its table covers the address space. -/
theorem two_pow_le_root {vaBits : Nat} (h : vaBits ≤ 48) :
    2 ^ vaBits ≤ maxPteEntries .g4K * 2 ^ mmuLevel2shift .g4K (mmuStartLevel .g4K vaBits) := by
  simp only [mmuStartLevel]
  split
  · rename_i hlt
    exact Nat.pow_le_pow_right (by decide) (Nat.le_of_lt hlt)
  · exact Nat.pow_le_pow_right (by decide) h

theorem covered_of_lt {regions : List MmuMmapRegion} {va : BitVec 64}
    (h : va.toNat < 2 ^ (mmuGetTcr .g4K regions).2) :
    Covered .g4K (rootLevel .g4K regions) va := by
  rw [Covered, Nat.div_lt_iff_lt_mul (Nat.two_pow_pos _)]
  exact h.trans_le (two_pow_le_root (mmuAddrBits_le _))

/-- The block on the way to another one is the block that the other one starts in. -/
theorem blockNumber_of_suffix {map map' : MmuMmapRegion} (R : RegionOk g s map) {k k' : Nat}
    (hk : k < blockCount g map)
    (hc : Covered g s (map.virt + blockOffset g map k))
    (hc' : Covered g s (map'.virt + blockOffset g map' k'))
    (h : (blockUnit g s map k).1 <:+ (blockUnit g s map' k').1) :
    (map'.virt + blockOffset g map' k').toNat / 2 ^ mmuLevel2shift g map.maxLevel =
      map.virt.toNat / 2 ^ mmuLevel2shift g map.maxLevel + k := by
  have hlevel := R.level
  obtain ⟨-, heq⟩ := pathTo_suffix_iff.mp h
  have hs : s + (map.maxLevel - s) = map.maxLevel := by omega
  rw [pathTo_mmuKey_eq_iff hc hc' (by omega), hs, R.blockNumber hk] at heq
  exact heq.symm

/-- The blocks of disjoint regions are not on each other's way. -/
theorem not_suffix_of_disjoint {map map' : MmuMmapRegion} (R : RegionOk g s map)
    (R' : RegionOk g s map') (hc : ∀ va, InRegion map va → Covered g s va)
    (hc' : ∀ va, InRegion map' va → Covered g s va)
    (hdis : ∀ va, ¬ (InRegion map va ∧ InRegion map' va)) {k k' : Nat}
    (hk : k < blockCount g map) (hk' : k' < blockCount g map') :
    ¬ (blockUnit g s map k).1 <:+ (blockUnit g s map' k').1 := by
  intro hsuf
  have hblock := R.inRegion_block hk
  have hblock' := R'.inRegion_block hk'
  have hnum := blockNumber_of_suffix R hk (hc _ hblock) (hc' _ hblock') hsuf
  exact hdis _ ⟨(R.inRegion_iff _).mpr ⟨k, hk, hnum⟩, hblock'⟩

/-- Two blocks of one region are not on each other's way. -/
theorem RegionOk.not_suffix_of_ne {map : MmuMmapRegion} (R : RegionOk g s map)
    (hc : ∀ va, InRegion map va → Covered g s va) {k k' : Nat} (hk : k < blockCount g map)
    (hk' : k' < blockCount g map) (hne : k ≠ k') :
    ¬ (blockUnit g s map k).1 <:+ (blockUnit g s map k').1 := by
  intro hsuf
  have hnum := blockNumber_of_suffix R hk (hc _ (R.inRegion_block hk))
    (hc _ (R.inRegion_block hk')) hsuf
  rw [R.blockNumber hk'] at hnum
  omega

/-- **The blocks do not meet.** -/
theorem RegionsOk.mappable {regions : List MmuMmapRegion} (R : RegionsOk g regions)
    (hc : ∀ map ∈ regions, ∀ va, InRegion map va → Covered g (rootLevel g regions) va)
    (before : List MmuMmapRegion) (map : MmuMmapRegion) (after : List MmuMmapRegion)
    (h : regions = before ++ map :: after) :
    Mappable g (rootLevel g regions) map (regionUnits g (rootLevel g regions) before) := by
  have hmem : map ∈ regions := by simp [h]
  have Rm := R.region map hmem
  refine ⟨⟨Rm.level.1, Nat.lt_succ_of_le Rm.level.2⟩, Rm.size, fun k hk u hu => ?_⟩
  rcases List.mem_append.mp hu with hu | hu
  · -- a block of an earlier region
    obtain ⟨map', hmap', hu⟩ := List.mem_flatMap.mp hu
    obtain ⟨k', hk', rfl⟩ := List.mem_map.mp hu
    have hk' := List.mem_range.mp hk'
    have hmem' : map' ∈ regions := by simp [h, hmap']
    have Rm' := R.region map' hmem'
    have hdis : ∀ va, ¬ (InRegion map' va ∧ InRegion map va) := by
      have hpair := R.disjoint
      rw [h, List.pairwise_append] at hpair
      exact hpair.2.2 map' hmap' map (by simp)
    constructor
    · exact not_suffix_of_disjoint Rm' Rm (hc map' hmem') (hc map hmem) hdis hk' hk
    · exact not_suffix_of_disjoint Rm Rm' (hc map hmem) (hc map' hmem')
        (fun va hva => hdis va hva.symm) hk hk'
  · -- an earlier block of this region
    obtain ⟨k', hk', rfl⟩ := List.mem_map.mp hu
    have hlt := List.mem_range.mp hk'
    constructor
    · exact Rm.not_suffix_of_ne (hc map hmem) (hlt.trans hk) hk hlt.ne
    · exact Rm.not_suffix_of_ne (hc map hmem) hk (hlt.trans hk) hlt.ne'

/-- The address space holds the regions. -/
theorem RegionsOk.inRegion_lt {regions : List MmuMmapRegion} (R : RegionsOk g regions)
    {map : MmuMmapRegion} (hmap : map ∈ regions) {va : BitVec 64} (hva : InRegion map va) :
    va.toNat < 2 ^ (mmuGetTcr g regions).2 := by
  have hend : ∀ map ∈ regions, (map.virt + map.size).toNat = map.virt.toNat + map.size.toNat :=
    fun map hmap => by
      have := (R.region map hmap).virtEnd
      rw [BitVec.toNat_add, Nat.mod_eq_of_lt (by omega)]
  have hmax : (mmuMaxAddr regions).toNat ≤ 2 ^ 48 := mmuMaxAddr_le_iff.mpr fun map hmap => by
    rw [hend map hmap]
    exact (R.region map hmap).virtEnd
  calc va.toNat < map.virt.toNat + map.size.toNat := hva.2
    _ = (map.virt + map.size).toNat := (hend map hmap).symm
    _ ≤ (mmuMaxAddr regions).toNat := mmuMaxAddr_le_iff.mp le_rfl map hmap
    _ ≤ 2 ^ (mmuGetTcr g regions).2 := le_mmuAddrBits hmax

section paths
variable {regions : List MmuMmapRegion} {D : PteDirectory g} {map : MmuMmapRegion} {va : BitVec 64}

/-- The path of a block is the path of each of its addresses. -/
theorem RegionOk.path_eq_iff (R : RegionOk g s map) {k : Nat} (hk : k < blockCount g map)
    (hc : Covered g s (map.virt + blockOffset g map k)) (hva : Covered g s va) :
    (blockUnit g s map k).1 = pathTo (mmuKey g s va) (map.maxLevel - s + 1) ↔
      va.toNat / 2 ^ mmuLevel2shift g map.maxLevel =
        map.virt.toNat / 2 ^ mmuLevel2shift g map.maxLevel + k := by
  have hlevel := R.level
  have hs : s + (map.maxLevel - s) = map.maxLevel := by omega
  rw [blockUnit, pathTo_mmuKey_eq_iff hc hva (by omega), hs, R.blockNumber hk, eq_comm]

/-- An address of a region leads to the leaf of its block. -/
theorem RegionsOk.leaf_of_inRegion (R : RegionsOk g regions)
    (hc : ∀ map ∈ regions, ∀ va, InRegion map va → Covered g (rootLevel g regions) va)
    (F : Filled D (regionUnits g (rootLevel g regions) regions) []) (hmap : map ∈ regions)
    (hva : InRegion map va) :
    ∃ k < blockCount g map, va.toNat / 2 ^ mmuLevel2shift g map.maxLevel =
        map.virt.toNat / 2 ^ mmuLevel2shift g map.maxLevel + k ∧
      D.entry (pathTo (mmuKey g (rootLevel g regions) va)
        (map.maxLevel - rootLevel g regions + 1)) =
          .leaf (leafPte map (map.phys + blockOffset g map k)) := by
  have Rm := R.region map hmap
  obtain ⟨k, hk, hnum⟩ := (Rm.inRegion_iff va).mp hva
  have hpath := (Rm.path_eq_iff hk (hc map hmap _ (Rm.inRegion_block hk)) (hc map hmap va hva)).mpr
    hnum
  refine ⟨k, hk, hnum, (F.leaf_iff _ _).mpr ?_⟩
  rw [← hpath]
  exact List.mem_flatMap.mpr ⟨map, hmap, List.mem_map.mpr ⟨k, List.mem_range.mpr hk, rfl⟩⟩

/-- An address that leads to a leaf is in a region. -/
theorem RegionsOk.inRegion_of_leaf (R : RegionsOk g regions)
    (hc : ∀ map ∈ regions, ∀ va, InRegion map va → Covered g (rootLevel g regions) va)
    (F : Filled D (regionUnits g (rootLevel g regions) regions) [])
    (hva : Covered g (rootLevel g regions) va) {i : Nat} {desc : BitVec 64}
    (h : D.entry (pathTo (mmuKey g (rootLevel g regions) va) i) = .leaf desc) :
    ∃ map ∈ regions, InRegion map va := by
  obtain ⟨map, hmap, hu⟩ := List.mem_flatMap.mp ((F.leaf_iff _ _).mp h)
  obtain ⟨k, hk, hpath⟩ := List.mem_map.mp hu
  have hk := List.mem_range.mp hk
  have hpath := congrArg Prod.fst hpath
  have Rm := R.region map hmap
  obtain rfl : map.maxLevel - rootLevel g regions + 1 = i := by
    have hlen := congrArg List.length hpath
    simpa [blockUnit] using hlen
  exact ⟨map, hmap, (Rm.inRegion_iff va).mpr ⟨k, hk,
    (Rm.path_eq_iff hk (hc map hmap _ (Rm.inRegion_block hk)) hva).mp hpath⟩⟩

/-- A table is above the leaves. -/
theorem RegionsOk.table_level (R : RegionsOk g regions)
    (F : Filled D (regionUnits g (rootLevel g regions) regions) [])
    {p : List (Fin (maxPteEntries g))} {t : BitVec 64} (h : D.entry p = .table t)
    (hroot : rootLevel g regions < 4) :
    rootLevel g regions + p.length < 4 := by
  rcases F.table p t h with hp | ⟨u, hu, hp⟩
  · rw [List.suffix_nil.mp hp]
    exact hroot
  · have hleaf : D.entry u.1 = .leaf u.2 := (F.leaf_iff _ _).mpr hu
    obtain ⟨map, hmap, hu⟩ := List.mem_flatMap.mp hu
    obtain ⟨k, -, rfl⟩ := List.mem_map.mp hu
    have hne : p.length ≠ (blockUnit g (rootLevel g regions) map k).1.length := fun hlen => by
      rw [hp.eq_of_length hlen, hleaf] at h
      cases h
    have hle := hp.length_le
    have hlevel := (R.region map hmap).level
    simp only [blockUnit, length_pathTo] at hne hle
    omega

end paths

/-! ## `mmu_setup_pgtables` -/

/-- An area for page tables: aligned, below 2^48, and not at NULL. -/
structure TableArea (g : MmuGranule) (tlbAddr tlbLen : BitVec 64) : Prop where
  aligned : tlbAddr.toNat % tableBytes g = 0
  bound : tlbAddr.toNat + tlbLen.toNat ≤ 2 ^ 48
  nonnull : tlbAddr ≠ 0

section setup
variable {m : Mmu} {regions : List MmuMmapRegion} {tlbAddr tlbLen : BitVec 64}

theorem mmuSetupCtrl_area (m : Mmu) (regions : List MmuMmapRegion)
    (A : TableArea g tlbAddr tlbLen) :
    Area g (mmuSetupCtrl m regions tlbAddr tlbLen g) :=
  ⟨rfl, A.bound, A.nonnull, A.aligned, le_rfl, Nat.le_add_right _ _⟩

/-- The registers are loaded for the tables. -/
structure Loaded (g : MmuGranule) (regions : List MmuMmapRegion) (m : Mmu) : Prop where
  ttbr0 : m.ttbr0 = m.ctrl.tlbAddr
  tcr : m.tcr = (mmuGetTcr g regions).1
  mair : m.mair = memoryAttributes

/-- **The run of the builder.** It fills the tables with the blocks of the regions, or the area is
full: it has no room for one table for each way to a block. -/
theorem mmuSetupPgtables_room (R : RegionsOk g regions) (A : TableArea g tlbAddr tlbLen)
    (hbits : ¬ (g = .g64K ∧ ¬ (mmuGetTcr g regions).2 ≤ 36))
    (hc : ∀ map ∈ regions, ∀ va, InRegion map va → Covered g (rootLevel g regions) va)
    {m' : Mmu} {ret : BitVec 32}
    (hr : mmuSetupPgtables m regions regions tlbAddr tlbLen g = (m', ret)) :
    (ret ≠ 0 ∧ Full m' ∧ Short g (mmuSetupCtrl m regions tlbAddr tlbLen g)
      (regionUnits g (rootLevel g regions) regions)) ∨
    (ret = 0 ∧ SameArea (mmuSetupCtrl m regions tlbAddr tlbLen g) m' ∧ Loaded g regions m' ∧
      ∃ D, Built g m' D ∧ Packed g m' D ∧
        Filled D (regionUnits g (rootLevel g regions) regions) []) := by
  have hinit := mmuSetupCtrl_area m regions A
  rw [mmuSetupPgtables, if_neg hbits] at hr
  rcases mmuCreateTable_cases hinit.granule with ⟨hnull, hfull⟩ | ⟨hroom, heq⟩
  · left
    rw [if_pos hnull] at hr
    obtain ⟨rfl, rfl⟩ := Prod.mk.inj hr
    refine ⟨by decide, hfull, ?_⟩
    have hlt := hinit.no_room hfull
    have hone : 1 ≤ (tablePaths (regionUnits g (rootLevel g regions) regions)).card :=
      Finset.card_pos.mpr ⟨[], mem_tablePaths.mpr (Or.inl rfl)⟩
    have hmul := Nat.mul_le_mul_right (tableBytes g) hone
    unfold Short
    change _ < tlbAddr.toNat + _ at hlt
    change _ + tlbAddr.toNat < _ at hlt
    omega
  · have hroot := hinit.root rfl hroom
    obtain ⟨a, ha⟩ : ∃ a, mmuAddMaps regions
      (withTable g (mmuSetupCtrl m regions tlbAddr tlbLen g)) = a := ⟨_, rfl⟩
    have hne : (mmuSetupCtrl m regions tlbAddr tlbLen g).ctrl.tlbFillptr ≠ 0 := A.nonnull
    simp only [heq, hne, ↓reduceIte, ha] at hr
    rcases hroot.mmuAddMaps [] (R.mappable hc) (hinit.packed_root rfl hroom) rfl (Filled.new _)
      ha with ⟨hret, hfull, hshort⟩ | ⟨hret, hsame, D, B, P, F⟩
    · left
      rw [hret, if_pos (by decide)] at hr
      obtain ⟨rfl, rfl⟩ := Prod.mk.inj hr
      exact ⟨by decide, hfull, hshort⟩
    · right
      rw [hret, if_neg (by simp)] at hr
      obtain ⟨rfl, rfl⟩ := Prod.mk.inj hr
      exact ⟨rfl, SameArea.withTable.trans hsame, ⟨rfl, rfl, rfl⟩, D,
        ⟨⟨B.area.granule, B.area.bound, B.area.nonnull, B.area.aligned, B.area.low, B.area.high⟩,
          B.root, B.below, B.holds⟩, P, F⟩

theorem mmuSetupPgtables_cases (R : RegionsOk g regions) (A : TableArea g tlbAddr tlbLen)
    (hbits : ¬ (g = .g64K ∧ ¬ (mmuGetTcr g regions).2 ≤ 36))
    (hc : ∀ map ∈ regions, ∀ va, InRegion map va → Covered g (rootLevel g regions) va)
    {m' : Mmu} {ret : BitVec 32}
    (hr : mmuSetupPgtables m regions regions tlbAddr tlbLen g = (m', ret)) :
    (ret ≠ 0 ∧ Full m') ∨
    (ret = 0 ∧ SameArea (mmuSetupCtrl m regions tlbAddr tlbLen g) m' ∧ ∃ D, Built g m' D ∧
      Filled D (regionUnits g (rootLevel g regions) regions) []) :=
  (mmuSetupPgtables_room R A hbits hc hr).imp (fun ⟨hret, hfull, _⟩ => ⟨hret, hfull⟩)
    fun ⟨hret, hsame, _, D, B, _, F⟩ => ⟨hret, hsame, D, B, F⟩

end setup

end MiniEuler
