import MiniEuler.Bsp.MmuWalk
import Mathlib.Algebra.BigOperators.Group.Finset.Sigma
import Mathlib.Order.Interval.Finset.Nat

/-! How much of the page-table area is used: the root table, and one table for each block of an
upper level that a region with smaller blocks has an address in. -/

namespace MiniEuler
open Library

variable {g : MmuGranule} {s : Nat}

/-- The numbers of the blocks of a level that a region has an address in. -/
def blocksMet (g : MmuGranule) (level : Nat) (map : MmuMmapRegion) : Finset Nat :=
  if map.size = 0 then ∅
  else Finset.Icc (map.virt.toNat / 2 ^ mmuLevel2shift g level)
    ((map.virt.toNat + map.size.toNat - 1) / 2 ^ mmuLevel2shift g level)

/-- The blocks of a level that are cut up by a further table. -/
def tablesBelow (g : MmuGranule) (regions : List MmuMmapRegion) (level : Nat) : Finset Nat :=
  (regions.toFinset.filter fun map => level < map.maxLevel).biUnion (blocksMet g level)

def tablesNeeded (g : MmuGranule) (regions : List MmuMmapRegion) : Nat :=
  1 + ∑ level ∈ Finset.Ico (rootLevel g regions) mmuLevel3, (tablesBelow g regions level).card

/-! ## Ways and blocks -/

theorem mem_blocksMet {map : MmuMmapRegion} (hend : map.virt.toNat + map.size.toNat ≤ 2 ^ 48)
    {level n : Nat} : n ∈ blocksMet g level map ↔
      ∃ va, InRegion map va ∧ va.toNat / 2 ^ mmuLevel2shift g level = n := by
  have hpos : 0 < 2 ^ mmuLevel2shift g level := Nat.two_pow_pos _
  unfold blocksMet
  by_cases hsize : map.size = 0
  · have hzero : map.size.toNat = 0 := by rw [hsize]; rfl
    rw [if_pos hsize]
    refine ⟨fun h => absurd h (Finset.notMem_empty n), ?_⟩
    rintro ⟨va, ⟨hlow, hhigh⟩, -⟩
    omega
  · have hne : map.size.toNat ≠ 0 := fun h => hsize (BitVec.eq_of_toNat_eq h)
    rw [if_neg hsize, Finset.mem_Icc]
    constructor
    · rintro ⟨hlow, hhigh⟩
      -- the first address that the block and the region share
      have hfirst : n * 2 ^ mmuLevel2shift g level ≤ map.virt.toNat + map.size.toNat - 1 :=
        (Nat.le_div_iff_mul_le hpos).mp hhigh
      refine ⟨BitVec.ofNat 64 (max map.virt.toNat (n * 2 ^ mmuLevel2shift g level)), ?_⟩
      rw [InRegion, BitVec.toNat_ofNat, Nat.mod_eq_of_lt (by omega)]
      refine ⟨by omega, ?_⟩
      rcases Nat.le_total map.virt.toNat (n * 2 ^ mmuLevel2shift g level) with hle | hle
      · rw [Nat.max_eq_right hle, Nat.mul_div_cancel _ hpos]
      · rw [Nat.max_eq_left hle]
        exact Nat.le_antisymm hlow ((Nat.le_div_iff_mul_le hpos).mpr hle)
    · rintro ⟨va, ⟨hlow, hhigh⟩, rfl⟩
      exact ⟨Nat.div_le_div_right hlow, Nat.div_le_div_right (by omega)⟩

theorem suffix_pathTo {ι : Type} {key : Nat → ι} {p : List ι} {n : Nat} :
    p <:+ pathTo key n ↔ ∃ i ≤ n, p = pathTo key i := by
  constructor
  · intro h
    have hle : p.length ≤ n := by simpa using h.length_le
    refine ⟨p.length, hle, ?_⟩
    exact (List.suffix_of_suffix_length_le h (pathTo_suffix hle) (by simp)).eq_of_length (by simp)
  · rintro ⟨i, hi, rfl⟩
    exact pathTo_suffix hi

section ways
variable {regions : List MmuMmapRegion}

/-- The ways to the blocks are the ways to the addresses. -/
theorem mem_tablePaths_regions (R : RegionsOk g regions)
    (hc : ∀ map ∈ regions, ∀ va, InRegion map va → Covered g (rootLevel g regions) va)
    {p : List (Fin (maxPteEntries g))} :
    p ∈ tablePaths (regionUnits g (rootLevel g regions) regions) ↔ p = [] ∨
      ∃ map ∈ regions, ∃ va, InRegion map va ∧ ∃ j < map.maxLevel - rootLevel g regions,
        p = pathTo (mmuKey g (rootLevel g regions) va) (j + 1) := by
  rw [mem_tablePaths]
  constructor
  · rintro (rfl | ⟨u, hu, hsuf, hne⟩)
    · exact Or.inl rfl
    · obtain ⟨map, hmap, hu⟩ := List.mem_flatMap.mp hu
      obtain ⟨k, hk, rfl⟩ := List.mem_map.mp hu
      have hk := List.mem_range.mp hk
      obtain ⟨i, hi, rfl⟩ := suffix_pathTo.mp hsuf
      cases i with
      | zero => exact Or.inl rfl
      | succ j =>
        refine Or.inr ⟨map, hmap, _, (R.region map hmap).inRegion_block hk, j, ?_, rfl⟩
        by_contra hge
        obtain rfl : j = map.maxLevel - rootLevel g regions := by omega
        exact hne rfl
  · rintro (rfl | ⟨map, hmap, va, hva, j, hj, rfl⟩)
    · exact Or.inl rfl
    · have Rm := R.region map hmap
      obtain ⟨k, hk, hnum⟩ := (Rm.inRegion_iff va).mp hva
      have hpath := (Rm.path_eq_iff hk (hc map hmap _ (Rm.inRegion_block hk))
        (hc map hmap va hva)).mpr hnum
      refine Or.inr ⟨blockUnit g (rootLevel g regions) map k, ?_, ?_, ?_⟩
      · exact List.mem_flatMap.mpr ⟨map, hmap, List.mem_map.mpr ⟨k, List.mem_range.mpr hk, rfl⟩⟩
      · rw [hpath]
        exact pathTo_suffix (by omega)
      · rw [hpath]
        exact pathTo_ne (by omega)

/-- The way to the start of a block. -/
def wayTo (g : MmuGranule) (s : Nat) (block : (_ : Nat) × Nat) : List (Fin (maxPteEntries g)) :=
  pathTo (mmuKey g s (BitVec.ofNat 64 (block.2 * 2 ^ mmuLevel2shift g block.1))) (block.1 - s + 1)

theorem wayTo_eq {va : BitVec 64} (hc : Covered g s va) (hva : va.toNat < 2 ^ 48) {j : Nat}
    (hj : s + j < 4) :
    wayTo g s ⟨s + j, va.toNat / 2 ^ mmuLevel2shift g (s + j)⟩ =
      pathTo (mmuKey g s va) (j + 1) := by
  have hpos : 0 < 2 ^ mmuLevel2shift g (s + j) := Nat.two_pow_pos _
  have hle : va.toNat / 2 ^ mmuLevel2shift g (s + j) * 2 ^ mmuLevel2shift g (s + j) ≤ va.toNat :=
    Nat.div_mul_le_self _ _
  have hstart : (BitVec.ofNat 64 (va.toNat / 2 ^ mmuLevel2shift g (s + j) *
      2 ^ mmuLevel2shift g (s + j))).toNat =
        va.toNat / 2 ^ mmuLevel2shift g (s + j) * 2 ^ mmuLevel2shift g (s + j) := by
    rw [BitVec.toNat_ofNat, Nat.mod_eq_of_lt (by omega)]
  rw [wayTo, Nat.add_sub_cancel_left]
  refine (pathTo_mmuKey_eq_iff ?_ hc hj).mpr ?_
  · rw [hstart]
    exact (Nat.div_le_div_right hle).trans_lt hc
  · rw [hstart, Nat.mul_div_cancel _ hpos]

theorem mem_tablesBelow (R : RegionsOk g regions) {level n : Nat} :
    n ∈ tablesBelow g regions level ↔ ∃ map ∈ regions, level < map.maxLevel ∧
      ∃ va, InRegion map va ∧ va.toNat / 2 ^ mmuLevel2shift g level = n := by
  simp only [tablesBelow, Finset.mem_biUnion, Finset.mem_filter, List.mem_toFinset, and_assoc]
  refine exists_congr fun map => and_congr_right fun hmap => and_congr_right fun _ => ?_
  exact mem_blocksMet (R.region map hmap).virtEnd

theorem card_tablePaths (R : RegionsOk g regions)
    (hc : ∀ map ∈ regions, ∀ va, InRegion map va → Covered g (rootLevel g regions) va) :
    (tablePaths (regionUnits g (rootLevel g regions) regions)).card = tablesNeeded g regions := by
  set s := rootLevel g regions with hs
  let blocks := (Finset.Ico s mmuLevel3).sigma (tablesBelow g regions)
  -- a block that is met, with an address in it
  have hmet : ∀ b ∈ blocks, ∃ map ∈ regions, ∃ va, InRegion map va ∧ ∃ j < map.maxLevel - s,
      s + j < 3 ∧ b = ⟨s + j, va.toNat / 2 ^ mmuLevel2shift g (s + j)⟩ := by
    rintro ⟨level, n⟩ hb
    obtain ⟨hlevel, hn⟩ := Finset.mem_sigma.mp hb
    obtain ⟨hlow, hhigh⟩ : s ≤ level ∧ level < 3 := Finset.mem_Ico.mp hlevel
    change n ∈ tablesBelow g regions level at hn
    obtain ⟨map, hmap, hmax, va, hva, rfl⟩ := (mem_tablesBelow R).mp hn
    obtain ⟨j, rfl⟩ := Nat.exists_eq_add_of_le hlow
    exact ⟨map, hmap, va, hva, j, by omega, hhigh, rfl⟩
  have hway : ∀ map ∈ regions, ∀ va, InRegion map va → ∀ j, s + j < 3 →
      wayTo g s ⟨s + j, va.toNat / 2 ^ mmuLevel2shift g (s + j)⟩ =
        pathTo (mmuKey g s va) (j + 1) := by
    intro map hmap va hva j hj
    have hend := (R.region map hmap).virtEnd
    exact wayTo_eq (hc map hmap va hva) (hva.2.trans_le hend) (by omega)
  have hinj : Set.InjOn (wayTo g s) blocks := by
    intro b hb b' hb' heq
    obtain ⟨map, hmap, va, hva, j, -, hj, rfl⟩ := hmet b hb
    obtain ⟨map', hmap', va', hva', j', -, hj', rfl⟩ := hmet b' hb'
    rw [hway map hmap va hva j hj, hway map' hmap' va' hva' j' hj'] at heq
    obtain rfl : j = j' := by simpa using congrArg List.length heq
    rw [(pathTo_mmuKey_eq_iff (hc map hmap va hva) (hc map' hmap' va' hva') (by omega)).mp heq]
  have himage : tablePaths (regionUnits g s regions) = insert [] (blocks.image (wayTo g s)) := by
    ext p
    rw [mem_tablePaths_regions R hc, Finset.mem_insert, Finset.mem_image]
    refine or_congr_right ⟨?_, ?_⟩
    · rintro ⟨map, hmap, va, hva, j, hj, rfl⟩
      have hmax : s < map.maxLevel ∧ map.maxLevel ≤ 3 := (R.region map hmap).level
      rw [← hs] at hj
      refine ⟨⟨s + j, _⟩, Finset.mem_sigma.mpr ⟨Finset.mem_Ico.mpr ⟨?_, ?_⟩,
        (mem_tablesBelow R).mpr ⟨map, hmap, ?_, va, hva, rfl⟩⟩, hway map hmap va hva j ?_⟩
      · exact Nat.le_add_right _ _
      · change s + j < 3
        omega
      · change s + j < _
        omega
      · omega
    · rintro ⟨b, hb, rfl⟩
      obtain ⟨map, hmap, va, hva, j, hj, hlt, rfl⟩ := hmet b hb
      exact ⟨map, hmap, va, hva, j, hj, hway map hmap va hva j hlt⟩
  have hroot : [] ∉ blocks.image (wayTo g s) := by
    intro h
    obtain ⟨b, -, hb⟩ := Finset.mem_image.mp h
    exact absurd (congrArg List.length hb) (by simp [wayTo])
  rw [himage, Finset.card_insert_of_notMem hroot, Finset.card_image_of_injOn hinj,
    Finset.card_sigma, Nat.add_comm, tablesNeeded]

/-! ## The area that is needed -/

variable {tlbAddr tlbLen : BitVec 64}

theorem covered_of_bits (R : RegionsOk g regions)
    (hbits : ¬ (g = .g64K ∧ ¬ (mmuGetTcr g regions).2 ≤ 36)) :
    ∀ map ∈ regions, ∀ va, InRegion map va → Covered g (rootLevel g regions) va := by
  intro map hmap va hva
  have hlt := R.inRegion_lt hmap hva
  cases g with
  | g4K => exact covered_of_lt hlt
  | g64K =>
    have h36 : (mmuGetTcr .g64K regions).2 ≤ 36 := by simpa using hbits
    have hpow : 2 ^ (mmuGetTcr .g64K regions).2 ≤ 2 ^ 36 := Nat.pow_le_pow_right (by decide) h36
    have hlevel : rootLevel .g64K regions = 2 := if_pos h36
    rw [Covered, hlevel, Nat.div_lt_iff_lt_mul (Nat.two_pow_pos _)]
    change _ < 8192 * 2 ^ 29
    omega

/-- **The room for the tables.** The setup succeeds exactly when the area has room for the tables
that are needed, and it uses no more. -/
theorem mmuSetupPgtables_ok_iff (m : Mmu) (R : RegionsOk g regions)
    (A : TableArea g tlbAddr tlbLen) :
    let r := mmuSetupPgtables m regions regions tlbAddr tlbLen g
    (r.2 = 0 ↔ (g = .g64K → (mmuGetTcr g regions).2 ≤ 36) ∧
      tablesNeeded g regions * tableBytes g ≤ tlbLen.toNat) ∧
    (r.2 = 0 → r.1.ctrl.tlbFillptr.toNat =
      tlbAddr.toNat + tablesNeeded g regions * tableBytes g) := by
  intro r
  by_cases hbits : g = .g64K ∧ ¬ (mmuGetTcr g regions).2 ≤ 36
  · have hr : r.2 = 3 := by
      change (mmuSetupPgtables m regions regions tlbAddr tlbLen g).2 = 3
      rw [mmuSetupPgtables, if_pos hbits]
    have hne : r.2 ≠ 0 := by
      rw [hr]
      decide
    exact ⟨⟨fun h => absurd h hne, fun h => absurd (h.1 hbits.1) hbits.2⟩, fun h => absurd h hne⟩
  · have hsmall : g = .g64K → (mmuGetTcr g regions).2 ≤ 36 := fun h =>
      Decidable.of_not_not fun hn => hbits ⟨h, hn⟩
    have hc := covered_of_bits R hbits
    have hcard := card_tablePaths R hc
    rcases mmuSetupPgtables_room R A hbits hc (m := m) (Prod.mk.eta (p := r)).symm with
      ⟨hret, -, hshort⟩ | ⟨hret, hsame, -, D, B, ⟨ps, T, hfill⟩, F⟩
    · rw [Short, hcard] at hshort
      have hroom := Nat.not_le.mpr hshort
      exact ⟨⟨fun h => absurd h hret, fun h => absurd h.2 hroom⟩, fun h => absurd h hret⟩
    · have hhigh := B.area.high
      have haddr : r.1.ctrl.tlbAddr = tlbAddr := by rw [hsame]; rfl
      have hlen : r.1.ctrl.tlbSize = tlbLen := by rw [hsame]; rfl
      rw [F.tables_eq ⟨_, B.root⟩ T, hcard, haddr] at hfill
      rw [haddr, hlen, hfill] at hhigh
      exact ⟨⟨fun _ => ⟨hsmall, by omega⟩, fun _ => hret⟩, fun _ => hfill⟩

end ways

/-- The board needs three tables, and has room for eight. -/
theorem mmuSetupPgtables_ok_board :
    let r := mmuSetupPgtables mmuReset gMemMapInfo gMemMapInfo 0x40800000 0x8000 .g4K
    r.2 = 0 ∧ r.1.ctrl.tlbFillptr.toNat = 0x40803000 := by
  have A : TableArea .g4K 0x40800000 0x8000 := ⟨by decide, by decide, by decide⟩
  have hneed : tablesNeeded .g4K gMemMapInfo = 3 := by decide
  have h := mmuSetupPgtables_ok_iff mmuReset gMemMapInfo_ok A
  rw [hneed] at h
  have hret := h.1.mpr ⟨by simp, by decide⟩
  exact ⟨hret, h.2 hret⟩

end MiniEuler
