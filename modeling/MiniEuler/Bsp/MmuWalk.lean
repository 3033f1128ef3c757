import MiniEuler.Bsp.MmuRegions

/-! The tables as the processor reads them. The walk of the architecture for 4K pages is written
down on its own; after `mmu_setup_pgtables` it maps what the regions say, and nothing else. -/

namespace MiniEuler
open Library

/-! ## The walk of the architecture -/

/-- What a walk comes to: no translation, a descriptor that is reserved at its level, or an output
address with the attributes of the descriptor. -/
inductive Translation
  | fault
  | reserved
  | mapped (pa attrs : BitVec 64)
  deriving DecidableEq, Repr

/-- The address bits that a descriptor of a level leaves open: nine for each further level, above
the twelve of a page. -/
def archShift (level : Nat) : Nat := 12 + 9 * (3 - level)

/-- The output address of a page or a block is in the bits from the shift of its level to bit 47;
the rest of the descriptor, its type apart, are attributes. -/
def archOutput (level : Nat) (va desc : BitVec 64) : Translation :=
  let outputBits := BitVec.ofNat 64 (2 ^ 48 - 2 ^ archShift level)
  .mapped (desc &&& outputBits ||| va &&& (1#64 <<< archShift level - 1#64))
    (desc &&& ~~~ (outputBits ||| 3#64))

/-- The walk from the table of a level on, with `n` levels to come. -/
def archWalk (mem : BitVec 64 → BitVec 64) (va : BitVec 64) :
    (n level : Nat) → (table : BitVec 64) → Translation
  | 0, _, _ => .reserved
  | n + 1, level, table =>
    let desc := mem (table + 8#64 * (va >>> archShift level &&& 0x1FF#64))
    if desc.getLsbD 0 = false then .fault
    else if desc.getLsbD 1 = true then
      if level = 3 then archOutput level va desc
      else archWalk mem va n (level + 1) (desc &&& 0x0000FFFFFFFFF000#64)
    else if level = 1 ∨ level = 2 then archOutput level va desc
    else .reserved

/-- The walk from the root table. -/
def archTranslate (mem : BitVec 64 → BitVec 64) (root : BitVec 64) (startLevel : Nat)
    (va : BitVec 64) : Translation :=
  archWalk mem va (4 - startLevel) startLevel root

/-! ## The fields of a descriptor -/

/-- The fields of a word come back when their masks do not meet. -/
theorem and_of_fields {w : Nat} {p a y m t : BitVec w} (hp : p &&& m = p)
    (ha : a &&& (m ||| t) = 0) (hy : y &&& t = y) (hmt : m &&& t = 0) :
    (p ||| a ||| y) &&& m = p ∧ (p ||| a ||| y) &&& ~~~ (m ||| t) = a ∧
      (p ||| a ||| y) &&& t = y := by
  have bit : ∀ {x z : BitVec w}, x = z → ∀ i, x.getLsbD i = z.getLsbD i :=
    fun h i => by rw [h]
  have hpi := bit hp
  have hai := bit ha
  have hyi := bit hy
  have hmi := bit hmt
  simp only [BitVec.getLsbD_and, BitVec.getLsbD_or, BitVec.ofNat_eq_ofNat,
    BitVec.getLsbD_zero] at hpi hai hyi hmi
  refine ⟨?_, ?_, ?_⟩ <;>
  · apply BitVec.eq_of_getLsbD_eq
    intro i hi
    have hpi := hpi i
    have hai := hai i
    have hyi := hyi i
    have hmi := hmi i
    simp only [BitVec.getLsbD_and, BitVec.getLsbD_or, BitVec.getLsbD_not, hi, decide_true,
      Bool.true_and]
    revert hpi hai hyi hmi
    generalize p.getLsbD i = p', a.getLsbD i = a', y.getLsbD i = y', m.getLsbD i = m',
      t.getLsbD i = t'
    revert p' a' y' m' t'
    decide

theorem outputMask_type {level : Nat} (h : level ≤ 3) :
    outputMask .g4K level &&& pteTypeMask = 0 := by
  have hsplit : level = 0 ∨ level = 1 ∨ level = 2 ∨ level = 3 := by omega
  rcases hsplit with rfl | rfl | rfl | rfl <;> decide

/-- An aligned address inside the output addresses is all output address. -/
theorem and_outputMask {level : Nat} (h : level ≤ 3) {phys : BitVec 64}
    (hal : phys.toNat % 2 ^ mmuLevel2shift .g4K level = 0) (hlt : phys.toNat < 2 ^ 48) :
    phys &&& outputMask .g4K level = phys := by
  have hmask : ∀ level : Fin 4, ∀ j : Fin 64, (outputMask .g4K level).getLsbD j =
      (decide (mmuLevel2shift .g4K level ≤ j) && decide ((j : Nat) < 48)) := by
    decide
  apply BitVec.eq_of_getLsbD_eq
  intro j hj
  have hbit := hmask ⟨level, by omega⟩ ⟨j, hj⟩
  simp only at hbit
  rw [BitVec.getLsbD_and, hbit]
  by_cases hlow : j < mmuLevel2shift .g4K level
  · rw [getLsbD_of_mod hal hlow, Bool.false_and]
  · by_cases hhigh : 48 ≤ j
    · rw [getLsbD_of_lt hlt hhigh, Bool.false_and]
    · simp [Nat.not_lt.mp hlow, Nat.not_le.mp hhigh]

/-- The bits that are left open give the offset. -/
theorem or_offset {level : Nat} {phys va : BitVec 64}
    (hal : phys.toNat % 2 ^ archShift level = 0) :
    (phys ||| va &&& (1#64 <<< archShift level - 1#64)).toNat =
      phys.toNat + va.toNat % 2 ^ archShift level := by
  have hshift : archShift level ≤ 39 := by unfold archShift; omega
  have hpow : 2 ^ archShift level ≤ 2 ^ 39 := Nat.pow_le_pow_right (by decide) hshift
  have hpos : 0 < 2 ^ archShift level := Nat.two_pow_pos _
  have hmask : (1#64 <<< archShift level - 1#64).toNat = 2 ^ archShift level - 1 := by
    rw [BitVec.toNat_sub_of_le]
    · simp [BitVec.toNat_shiftLeft, Nat.one_shiftLeft]
      omega
    · rw [BitVec.le_def]
      simp [BitVec.toNat_shiftLeft, Nat.one_shiftLeft]
      omega
  rw [BitVec.toNat_or, BitVec.toNat_and, hmask, Nat.and_two_pow_sub_one_eq_mod,
    ← Nat.div_mul_cancel (Nat.dvd_of_mod_eq_zero hal), Nat.mul_comm,
    Nat.two_pow_add_eq_or_of_lt (Nat.mod_lt _ hpos)]

section leaf
variable {map : MmuMmapRegion} {s k : Nat} {va : BitVec 64}

theorem RegionOk.fields (R : RegionOk .g4K s map) (hk : k < blockCount .g4K map) :
    let desc := leafPte map (map.phys + blockOffset .g4K map k)
    desc &&& outputMask .g4K map.maxLevel = map.phys + blockOffset .g4K map k ∧
      desc &&& ~~~ (outputMask .g4K map.maxLevel ||| pteTypeMask) = map.attrs ∧
      desc &&& pteTypeMask = leafType map.maxLevel := by
  have hphys := R.toNat_add_blockOffset hk R.physEnd
  have hle := R.offset_le hk
  have hend := R.physEnd
  have hpos : 0 < 2 ^ mmuLevel2shift .g4K map.maxLevel := Nat.two_pow_pos _
  refine and_of_fields (and_outputMask R.level.2 ?_ (by omega)) R.attrs ?_
    (outputMask_type R.level.2)
  · rw [hphys, Nat.add_mul_mod_self_right]
    exact Nat.mod_eq_zero_of_dvd R.phys
  · unfold leafType
    split <;> decide

/-- **The output of a leaf** is the address of the region and its attributes. -/
theorem RegionOk.output (R : RegionOk .g4K s map) (hk : k < blockCount .g4K map)
    (hva : va.toNat / 2 ^ mmuLevel2shift .g4K map.maxLevel =
      map.virt.toNat / 2 ^ mmuLevel2shift .g4K map.maxLevel + k) :
    archOutput map.maxLevel va (leafPte map (map.phys + blockOffset .g4K map k)) =
      .mapped (map.phys + (va - map.virt)) map.attrs := by
  obtain ⟨haddr, hattrs, -⟩ := R.fields hk
  have hin := (R.inRegion_iff va).mpr ⟨k, hk, hva⟩
  have hphys := R.toNat_add_blockOffset hk R.physEnd
  have hend := R.physEnd
  have hal : (map.phys + blockOffset .g4K map k).toNat % 2 ^ archShift map.maxLevel = 0 := by
    rw [hphys]
    exact (Nat.add_mul_mod_self_right _ _ _).trans (Nat.mod_eq_zero_of_dvd R.phys)
  have hoff : va.toNat = map.virt.toNat + k * 2 ^ mmuLevel2shift .g4K map.maxLevel +
      va.toNat % 2 ^ mmuLevel2shift .g4K map.maxLevel := by
    conv_lhs => rw [← Nat.div_add_mod va.toNat (2 ^ mmuLevel2shift .g4K map.maxLevel), hva,
      Nat.mul_add, Nat.mul_div_cancel' R.virt, Nat.mul_comm _ k]
  have hpa : (map.phys + blockOffset .g4K map k |||
      va &&& (1#64 <<< archShift map.maxLevel - 1#64)) = map.phys + (va - map.virt) := by
    have hlt : map.phys.toNat + (va.toNat - map.virt.toNat) < 2 ^ 64 := by
      have := hin.2
      omega
    apply BitVec.eq_of_toNat_eq
    rw [or_offset hal, hphys, BitVec.toNat_add, BitVec.toNat_sub_of_le (BitVec.le_def.mpr hin.1),
      Nat.mod_eq_of_lt hlt]
    change map.phys.toNat + k * 2 ^ mmuLevel2shift .g4K map.maxLevel +
      va.toNat % 2 ^ mmuLevel2shift .g4K map.maxLevel = _
    omega
  have hout : ∀ desc, archOutput map.maxLevel va desc =
      .mapped (desc &&& outputMask .g4K map.maxLevel |||
          va &&& (1#64 <<< archShift map.maxLevel - 1#64))
        (desc &&& ~~~ (outputMask .g4K map.maxLevel ||| pteTypeMask)) := fun _ => rfl
  rw [hout, haddr, hattrs, hpa]

end leaf

/-! ## The walk in the directory -/

theorem archIndex_eq (va : BitVec 64) (level : Nat) :
    va >>> archShift level &&& 0x1FF#64 = BitVec.ofNat 64 (mmuDigit .g4K va level) :=
  (mmuIndex_eq (g := .g4K) va level)

/-- Two bits make the type. -/
theorem getLsbD_of_type {desc type : BitVec 64} (h : desc &&& pteTypeMask = type) :
    desc.getLsbD 0 = type.getLsbD 0 ∧ desc.getLsbD 1 = type.getLsbD 1 := by
  subst h
  simp [pteTypeMask]

namespace Built

variable {m : Mmu} {D : PteDirectory .g4K} {s j n : Nat} {va t t' : BitVec 64}

/-- The descriptor that the walk reads. -/
theorem archRead (B : Built .g4K m D) (ht : D.entry (pathTo (mmuKey .g4K s va) j) = .table t) :
    m.mem (t + 8#64 * (va >>> archShift (s + j) &&& 0x1FF#64)) =
      encodePte (D.entry (pathTo (mmuKey .g4K s va) (j + 1))) := by
  rw [archIndex_eq]
  exact B.read (d := mmuKey .g4K s va j) ht

theorem archWalk_fault (B : Built .g4K m D)
    (ht : D.entry (pathTo (mmuKey .g4K s va) j) = .table t)
    (h : D.entry (pathTo (mmuKey .g4K s va) (j + 1)) = .fault) :
    archWalk m.mem va (n + 1) (s + j) t = .fault := by
  simp only [archWalk, B.archRead ht, h]
  rfl

theorem archWalk_table (B : Built .g4K m D)
    (ht : D.entry (pathTo (mmuKey .g4K s va) j) = .table t)
    (h : D.entry (pathTo (mmuKey .g4K s va) (j + 1)) = .table t') (hlevel : s + j < 3) :
    archWalk m.mem va (n + 1) (s + j) t = archWalk m.mem va n (s + (j + 1)) t' := by
  obtain ⟨h0, h1⟩ := getLsbD_of_type (type_of_table t')
  have haddr := addr_of_table (B.holds.proper _ _ h)
  simp only [archWalk, B.archRead ht, h, encodePte]
  rw [if_neg (by rw [h0]; decide), if_pos (h1.trans (by decide)), if_neg (by omega)]
  exact congrArg _ haddr

theorem archWalk_leaf (B : Built .g4K m D)
    (ht : D.entry (pathTo (mmuKey .g4K s va) j) = .table t) {desc : BitVec 64}
    (h : D.entry (pathTo (mmuKey .g4K s va) (j + 1)) = .leaf desc)
    (htype : desc &&& pteTypeMask = leafType (s + j)) (hlevel : 0 < s + j ∧ s + j ≤ 3) :
    archWalk m.mem va (n + 1) (s + j) t = archOutput (s + j) va desc := by
  obtain ⟨h0, h1⟩ := getLsbD_of_type htype
  simp only [archWalk, B.archRead ht, h, encodePte]
  by_cases hpage : s + j = 3
  · rw [hpage] at h0 h1 ⊢
    rw [if_neg (by rw [h0]; decide), if_pos (h1.trans (by decide)), if_pos rfl]
  · have hblock : leafType (s + j) = pteTypeBlock := if_neg hpage
    rw [hblock] at h0 h1
    rw [if_neg (by rw [h0]; decide), if_neg (by rw [h1]; decide), if_pos (by omega)]

/-- **The walk ends at the leaf on its way.** -/
theorem archWalk_mapped (B : Built .g4K m D) {q : Nat} {desc : BitVec 64}
    (hq : D.entry (pathTo (mmuKey .g4K s va) (q + 1)) = .leaf desc)
    (htype : desc &&& pteTypeMask = leafType (s + q)) (hlevel : 0 < s + q ∧ s + q ≤ 3)
    {k : Nat} (hk : j + k = q) (hn : k < n)
    (ht : D.entry (pathTo (mmuKey .g4K s va) j) = .table t) :
    archWalk m.mem va n (s + j) t = archOutput (s + q) va desc := by
  obtain ⟨n, rfl⟩ := Nat.exists_eq_succ_of_ne_zero (Nat.ne_of_gt (Nat.zero_lt_of_lt hn))
  induction k generalizing j n t with
  | zero =>
    obtain rfl : j = q := by omega
    exact B.archWalk_leaf ht hq htype hlevel
  | succ k ih =>
    obtain ⟨t', ht'⟩ := Directory.table_of_pathTo (D := D) (n := j + 1)
      (ne_of_eq_of_ne hq (by simp)) (by omega)
    obtain ⟨n, rfl⟩ := Nat.exists_eq_succ_of_ne_zero (show n ≠ 0 by omega)
    rw [B.archWalk_table ht ht' (by omega)]
    exact ih (by omega) ht' n (by omega)

/-- **The walk ends at a fault** when there is no leaf on its way, and no table at its end. -/
theorem archWalk_unmapped (B : Built .g4K m D)
    (hleaf : ∀ i desc, D.entry (pathTo (mmuKey .g4K s va) i) ≠ .leaf desc)
    (htable : ∀ i t', D.entry (pathTo (mmuKey .g4K s va) i) = .table t' → s + i < 4)
    (hn : s + j + n = 4) (ht : D.entry (pathTo (mmuKey .g4K s va) j) = .table t) :
    archWalk m.mem va n (s + j) t = .fault := by
  induction n generalizing j t with
  | zero =>
    have := htable j t ht
    omega
  | succ n ih =>
    cases h : D.entry (pathTo (mmuKey .g4K s va) (j + 1)) with
    | fault => exact B.archWalk_fault ht h
    | leaf desc => exact absurd h (hleaf _ _)
    | table t' =>
      have := htable (j + 1) t' h
      rw [B.archWalk_table ht h (by omega)]
      exact ih (by omega) h

end Built

/-! ## The tables of `mmu_setup_pgtables` -/

section setup
variable {m m' : Mmu} {regions : List MmuMmapRegion} {tlbAddr tlbLen : BitVec 64} {ret : BitVec 32}

theorem rootLevel_le (regions : List MmuMmapRegion) : rootLevel .g4K regions ≤ 1 := by
  simp only [rootLevel, mmuStartLevel]
  split <;> omega

/-- **The tables say what the regions say.** -/
theorem mmuSetupPgtables_translates (R : RegionsOk .g4K regions)
    (A : TableArea .g4K tlbAddr tlbLen)
    (hr : mmuSetupPgtables m regions regions tlbAddr tlbLen .g4K = (m', ret)) :
    (ret = 0 → ∀ va : BitVec 64, va.toNat < 2 ^ m'.ctrl.vaBits →
      (∀ map ∈ regions, InRegion map va →
        archTranslate m'.mem tlbAddr m'.ctrl.startLevel va =
          .mapped (map.phys + (va - map.virt)) map.attrs) ∧
      ((∀ map ∈ regions, ¬ InRegion map va) →
        archTranslate m'.mem tlbAddr m'.ctrl.startLevel va = .fault)) ∧
    (ret ≠ 0 → Full m') := by
  have hc : ∀ map ∈ regions, ∀ va, InRegion map va →
      Covered .g4K (rootLevel .g4K regions) va :=
    fun map hmap va hva => covered_of_lt (R.inRegion_lt hmap hva)
  have hroot := rootLevel_le regions
  rcases mmuSetupPgtables_cases R A (by simp) hc hr with
    ⟨hret, hfull⟩ | ⟨hret, hsame, D, B, F⟩
  · exact ⟨fun h => absurd h hret, fun _ => hfull⟩
  · refine ⟨fun _ va hva => ?_, fun h => absurd hret h⟩
    have haddr : m'.ctrl.tlbAddr = tlbAddr := by rw [hsame]; rfl
    have hstart : m'.ctrl.startLevel = rootLevel .g4K regions := by rw [hsame]; rfl
    have hbits : m'.ctrl.vaBits = (mmuGetTcr .g4K regions).2 := by rw [hsame]; rfl
    have hcov := covered_of_lt (hbits ▸ hva)
    have hD := B.root
    rw [haddr] at hD
    rw [hstart, archTranslate]
    constructor
    · intro map hmap hin
      obtain ⟨k, hk, hnum, hleaf⟩ := R.leaf_of_inRegion hc F hmap hin
      have Rm := R.region map hmap
      have hlevel := Rm.level
      have hsub : rootLevel .g4K regions + (map.maxLevel - rootLevel .g4K regions) =
          map.maxLevel := by omega
      have htype := (Rm.fields hk).2.2
      rw [← hsub] at htype
      have hwalk := B.archWalk_mapped hleaf htype (by omega) (j := 0) (Nat.zero_add _)
        (n := 4 - rootLevel .g4K regions) (by omega) hD
      rw [hsub] at hwalk
      exact hwalk.trans (Rm.output hk hnum)
    · intro hout
      refine B.archWalk_unmapped (s := rootLevel .g4K regions) (j := 0) (fun i desc h => ?_)
        (fun i t h => ?_) (by omega) hD
      · obtain ⟨map, hmap, hin⟩ := R.inRegion_of_leaf hc F hcov h
        exact hout map hmap hin
      · have := R.table_level F h (by omega)
        rwa [length_pathTo] at this

end setup

/-- A block of 2M, and behind it two pages. -/
def blockRegion : MmuMmapRegion where
  virt := 0x200000
  phys := 0x40000000
  size := 0x200000
  maxLevel := 2
  attrs := mmuAttrCacheShare ||| mmuAccessRwx

def pagesRegion : MmuMmapRegion where
  virt := 0x400000
  phys := 0x9000000
  size := 0x2000
  maxLevel := 3
  attrs := mmuAttrDeviceNgnrne ||| mmuAccessRwx

theorem blockAndPages_ok : RegionsOk .g4K [blockRegion, pagesRegion] where
  region := fun map hmap => by
    rcases List.mem_pair.mp hmap with rfl | rfl
    · exact ⟨by decide, by decide, by decide, by decide, by decide, by decide, by decide⟩
    · exact ⟨by decide, by decide, by decide, by decide, by decide, by decide, by decide⟩
  disjoint := List.pairwise_pair.mpr fun va ⟨h, h'⟩ => by
    simp [InRegion, blockRegion, pagesRegion] at h h'
    omega

theorem mmuSetupPgtables_translates_blockAndPages :
    let r := mmuSetupPgtables mmuReset [blockRegion, pagesRegion] [blockRegion, pagesRegion]
      0x100000 0x8000 .g4K
    archTranslate r.1.mem 0x100000 r.1.ctrl.startLevel 0x212345 =
        .mapped (blockRegion.phys + (0x212345 - blockRegion.virt)) blockRegion.attrs ∧
      archTranslate r.1.mem 0x100000 r.1.ctrl.startLevel 0x401abc =
        .mapped (pagesRegion.phys + (0x401abc - pagesRegion.virt)) pagesRegion.attrs ∧
      archTranslate r.1.mem 0x100000 r.1.ctrl.startLevel 0x402000 = .fault := by
  have A : TableArea .g4K 0x100000 0x8000 := ⟨by decide, by decide, by decide⟩
  have h := (mmuSetupPgtables_translates (m := mmuReset) blockAndPages_ok A Prod.mk.eta.symm).1
    (by decide +kernel)
  refine ⟨?_, ?_, ?_⟩
  · exact (h 0x212345 (by decide +kernel)).1 blockRegion (by simp) ⟨by decide, by decide⟩
  · exact (h 0x401abc (by decide +kernel)).1 pagesRegion (by simp) ⟨by decide, by decide⟩
  · refine (h 0x402000 (by decide +kernel)).2 fun map hmap => ?_
    rcases List.mem_pair.mp hmap with rfl | rfl
    · exact fun hin => absurd hin.2 (by decide)
    · exact fun hin => absurd hin.2 (by decide)

/-- The regions of the board can be mapped together. -/
theorem gMemMapInfo_ok : RegionsOk .g4K gMemMapInfo where
  region := fun map hmap => by
    rcases List.mem_pair.mp hmap with rfl | rfl
    · exact ⟨by decide, by decide, by decide, by decide, by decide, by decide, by decide⟩
    · exact ⟨by decide, by decide, by decide, by decide, by decide, by decide, by decide⟩
  disjoint := List.pairwise_pair.mpr fun va ⟨h, h'⟩ => by
    simp [InRegion] at h h'
    omega

/-- A table at address 0 is taken for no table: the setup fails, with all of the area free but
the root table. -/
theorem mmuSetupPgtables_null :
    RegionsOk .g4K gMemMapInfo ∧ (0 : BitVec 64).toNat % tableBytes .g4K = 0 ∧
      (0 : BitVec 64).toNat + (0x8000 : BitVec 64).toNat ≤ 2 ^ 48 ∧
      let r := mmuSetupPgtables mmuReset gMemMapInfo gMemMapInfo 0 0x8000 .g4K
      r.2 = 1 ∧ r.1.ctrl.tlbFillptr = 0x1000 ∧ ¬ Full r.1 := by
  refine ⟨gMemMapInfo_ok, by decide, by decide, by decide +kernel, by decide +kernel, ?_⟩
  unfold Full
  decide +kernel

end MiniEuler
