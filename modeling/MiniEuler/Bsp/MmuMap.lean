import MiniEuler.Bsp.MmuTables

/-! How `mmu_add_map` fills the tables: each block of a region goes to the place its virtual
address leads to, through tables that are made where they are missing. -/

namespace MiniEuler
open Library

variable {g : MmuGranule} {m m' : Mmu} {D : PteDirectory g} {s : Nat}
  {done : List (List (Fin (maxPteEntries g)) × BitVec 64)}

/-- The digits of an address from the start level on. -/
def mmuKey (g : MmuGranule) (s : Nat) (addr : BitVec 64) (i : Nat) : Fin (maxPteEntries g) :=
  mmuDigit g addr (s + i)

/-- What the builder never changes in `g_mmu_ctrl`. -/
def SameArea (m m' : Mmu) : Prop :=
  m'.ctrl = { m.ctrl with tlbFillptr := m'.ctrl.tlbFillptr }

theorem SameArea.refl (m : Mmu) : SameArea m m := rfl

theorem SameArea.trans {m'' : Mmu} (h : SameArea m m') (h' : SameArea m' m'') :
    SameArea m m'' := by
  unfold SameArea at *
  rw [h', h]

theorem SameArea.withTable : SameArea m (withTable g m) := rfl

theorem SameArea.short (h : SameArea m m') (hshort : Short g m' done) : Short g m done := by
  unfold Short at *
  rw [h] at hshort
  exact hshort

theorem Short.mono {units : List (List (Fin (maxPteEntries g)) × BitVec 64)}
    (h : Short g m done) (hsub : done ⊆ units) : Short g m units :=
  h.trans_le (Nat.mul_le_mul_right _ (Finset.card_le_card (tablePaths_mono hsub)))

theorem SameArea.startLevel (h : SameArea m m') : m'.ctrl.startLevel = m.ctrl.startLevel := by
  rw [h]

/-! ## `mmu_find_pte` -/

theorem mmuIndex_eq (addr : BitVec 64) (level : Nat) :
    mmuIndex g addr level = BitVec.ofNat 64 (mmuDigit g addr level) := by
  apply BitVec.eq_of_toNat_eq
  have h := (mmuIndex g addr level).isLt
  rw [toNat_mmuIndex] at h ⊢
  rw [BitVec.toNat_ofNat, Nat.mod_eq_of_lt h]

namespace Built

/-- The walk goes down the tables that are there. -/
theorem mmuFindPteLoop (B : Built g m D) {addr t : BitVec 64} {n : Nat}
    (hn : D.entry (pathTo (mmuKey g s addr) n) = .table t) {k j : Nat} (hk : j + k = n)
    {t' : BitVec 64} (hj : D.entry (pathTo (mmuKey g s addr) j) = .table t') {fuel : Nat}
    (hfuel : k < fuel) :
    MiniEuler.mmuFindPteLoop m addr (s + n) fuel (s + j) t' =
      some (pteAddr t (mmuDigit g addr (s + n))) := by
  induction k generalizing j t' fuel with
  | zero =>
    obtain rfl : j = n := by omega
    obtain rfl := Entry.table.inj (hj.symm.trans hn)
    obtain ⟨fuel, rfl⟩ := Nat.exists_eq_succ_of_ne_zero (Nat.ne_of_gt hfuel)
    rw [MiniEuler.mmuFindPteLoop, if_pos rfl, B.area.granule, mmuIndex_eq]
    rfl
  | succ k ih =>
    obtain ⟨fuel, rfl⟩ := Nat.exists_eq_succ_of_ne_zero (Nat.ne_of_gt (Nat.zero_lt_of_lt hfuel))
    have hnext : ∃ t'', D.entry (pathTo (mmuKey g s addr) (j + 1)) = .table t'' := by
      by_cases hjn : j + 1 = n
      · exact ⟨t, hjn ▸ hn⟩
      · exact Directory.table_of_pathTo (by rw [hn]; simp) (by omega)
    obtain ⟨t'', ht''⟩ := hnext
    have hread : m.mem (t' + 8 * mmuIndex m.ctrl.granule addr (s + j)) = pteTypeTable ||| t'' := by
      have h := B.read (d := mmuKey g s addr j) hj
      rw [show mmuKey g s addr j :: pathTo (mmuKey g s addr) j =
        pathTo (mmuKey g s addr) (j + 1) from rfl, ht''] at h
      rw [B.area.granule, mmuIndex_eq]
      exact h
    rw [MiniEuler.mmuFindPteLoop, if_neg (by omega), if_neg, hread, B.area.granule,
      addr_of_table (B.holds.proper _ _ ht'')]
    · exact ih (by omega) ht'' (by omega)
    · rw [mmuGetPteType, hread, type_of_table]
      simp

theorem mmuFindPte (B : Built g m D) (hs : m.ctrl.startLevel = s) {addr t : BitVec 64} {n : Nat}
    (hn : D.entry (pathTo (mmuKey g s addr) n) = .table t) (hlevel : s + n < 4) :
    mmuFindPte m addr (s + n) = some (pteAddr t (mmuDigit g addr (s + n))) := by
  rw [MiniEuler.mmuFindPte, if_neg (by omega), hs]
  exact B.mmuFindPteLoop hn (k := n) (j := 0) (by omega) B.root (by unfold mmuLevelMax; omega)

/-! ## `mmu_add_map_pte_process` -/

variable {way p : List (Fin (maxPteEntries g))} {d : Fin (maxPteEntries g)} {t phys : BitVec 64}
  {map : MmuMmapRegion} {level : Nat}

/-- Above the level of the region a table is made, unless it is there. -/
theorem mmuAddMapPteProcess_upper (B : Built g m D) (P : Packed g m D) (F : Filled D done way)
    {e : Fin (maxPteEntries g)}
    (hc : Clear (e :: way) done) (hp : D.entry p = .table t) (hway : d :: p <:+ way)
    (hlevel : level < map.maxLevel) (w : BitVec 64) {r : Mmu × Int}
    (hr : mmuAddMapPteProcess m map (pteAddr t d) phys level = r) :
    (r.2 = -1 ∧ Full r.1 ∧ Short g m (done ++ [(e :: way, w)])) ∨
    (r.2 = 0 ∧ SameArea m r.1 ∧ ∃ D' t', Built g r.1 D' ∧ Packed g r.1 D' ∧
      Filled D' done way ∧ D'.entry (d :: p) = .table t') := by
  rw [mmuAddMapPteProcess, if_pos hlevel, mmuGetPteType, B.read hp] at hr
  cases he : D.entry (d :: p) with
  | leaf w => exact absurd he (F.entry_ne_leaf hc hway w)
  | table t' =>
    rw [he, if_neg (by rw [encodePte, type_of_table]; decide)] at hr
    subst hr
    exact Or.inr ⟨rfl, SameArea.refl m, D, t', B, P, F, he⟩
  | fault =>
    rw [he, if_pos (by decide)] at hr
    rcases mmuCreateTable_cases B.area.granule with ⟨hnull, hfull⟩ | ⟨hroom, heq⟩
    · left
      simp only [hnull, ↓reduceIte] at hr
      subst hr
      exact ⟨rfl, hfull, P.short B.area F hway ⟨t, hp⟩ he hfull e w⟩
    · right
      have hF := B.area.fresh hroom
      rw [heq] at hr
      simp only [hF.nonnull, ↓reduceIte] at hr
      subst hr
      exact ⟨rfl, rfl, _, m.ctrl.tlbFillptr, B.linkTable hp hroom,
        P.linkTable B ⟨t, hp⟩ he hroom _, F.descend hway he ⟨t, hp⟩ _, Directory.entry_set_self⟩

end Built

/-- The type and the descriptor of a block or a page. -/
def leafType (level : Nat) : BitVec 64 := if level = mmuLevel3 then pteTypePage else pteTypeBlock

def leafPte (map : MmuMmapRegion) (phys : BitVec 64) : BitVec 64 :=
  phys ||| map.attrs ||| leafType map.maxLevel

namespace Built

variable {way : List (Fin (maxPteEntries g))} {d : Fin (maxPteEntries g)} {t phys : BitVec 64}
  {map : MmuMmapRegion}

/-- At the level of the region the leaf is placed. -/
theorem mmuAddMapPteProcess_leaf (B : Built g m D) (P : Packed g m D) (F : Filled D done way)
    (hc : Clear (d :: way) done)
    (hp : D.entry way = .table t) {r : Mmu × Int}
    (hr : mmuAddMapPteProcess m map (pteAddr t d) phys map.maxLevel = r) :
    r.2 = 0 ∧ SameArea m r.1 ∧ ∃ D', Built g r.1 D' ∧ Packed g r.1 D' ∧
      Filled D' (done ++ [(d :: way, leafPte map phys)]) [] := by
  have hr' : r = ({ m with mem := Function.update m.mem (pteAddr t d) (leafPte map phys) }, 0) := by
    rw [← hr, mmuAddMapPteProcess, if_neg (Nat.lt_irrefl _), leafPte, leafType]
    split <;> rfl
  subst hr'
  exact ⟨rfl, rfl, _, B.writeLeaf hp _, P.writeLeaf ⟨t, hp⟩ (F.entry_fault hc) _ _,
    F.place hc ⟨t, hp⟩ _⟩

/-- One level of the loop. -/
theorem mmuAddMapLevels_succ {virt pte blockSize : BitVec 64} {level n : Nat}
    (hfind : MiniEuler.mmuFindPte m virt level = some pte) :
    mmuAddMapLevels map virt phys (n + 1) level m blockSize =
      let r := mmuAddMapPteProcess m map pte phys level
      if r.2 ≠ 0 then (r.1, blockSize, r.2)
      else mmuAddMapLevels map virt phys n (level + 1) r.1
        (if level ≠ r.1.ctrl.startLevel then 1#64 <<< mmuLevel2shift r.1.ctrl.granule level
        else blockSize) := by
  rw [mmuAddMapLevels, hfind]

/-- **One block.** The loop over the levels maps the block, or the area is full. -/
theorem mapBlock (B : Built g m D) (P : Packed g m D) (hs : m.ctrl.startLevel = s)
    {virt : BitVec 64}
    (hmax : s < map.maxLevel) (hmax4 : map.maxLevel < 4)
    (F : Filled D done (pathTo (mmuKey g s virt) (map.maxLevel - s)))
    (hc : Clear (pathTo (mmuKey g s virt) (map.maxLevel - s + 1)) done)
    {k j : Nat} (hk : j + k = map.maxLevel - s) {t : BitVec 64}
    (hj : D.entry (pathTo (mmuKey g s virt) j) = .table t) {blockSize : BitVec 64}
    {r : Mmu × BitVec 64 × Int}
    (hr : mmuAddMapLevels map virt phys (k + 1) (s + j) m blockSize = r) :
    let units := done ++ [(pathTo (mmuKey g s virt) (map.maxLevel - s + 1), leafPte map phys)]
    (r.2.2 = -1 ∧ Full r.1 ∧ Short g m units) ∨
    (r.2.2 = 0 ∧ r.2.1 = 1#64 <<< mmuLevel2shift g map.maxLevel ∧ SameArea m r.1 ∧
      ∃ D', Built g r.1 D' ∧ Packed g r.1 D' ∧ Filled D' units []) := by
  induction k generalizing j m D t blockSize with
  | zero =>
    obtain rfl : j = map.maxLevel - s := by omega
    have hlevel : s + (map.maxLevel - s) = map.maxLevel := by omega
    rw [mmuAddMapLevels_succ (B.mmuFindPte hs hj (by omega))] at hr
    obtain ⟨r', hr'⟩ : ∃ r', mmuAddMapPteProcess m map
      (pteAddr t (mmuKey g s virt (map.maxLevel - s))) phys map.maxLevel = r' := ⟨_, rfl⟩
    obtain ⟨hret, hsame, D', B', P', F'⟩ := B.mmuAddMapPteProcess_leaf P F hc hj hr'
    rw [hlevel] at hr
    rw [mmuKey, hlevel] at hr'
    simp only [hr', hret, ne_eq, not_true_eq_false, ↓reduceIte] at hr
    rw [if_pos (by rw [hsame.startLevel]; omega), B'.area.granule, mmuAddMapLevels] at hr
    subst hr
    exact Or.inr ⟨rfl, rfl, hsame, D', B', P', F'⟩
  | succ k ih =>
    rw [mmuAddMapLevels_succ (B.mmuFindPte hs hj (by omega))] at hr
    obtain ⟨r', hr'⟩ : ∃ r', mmuAddMapPteProcess m map
      (pteAddr t (mmuDigit g virt (s + j))) phys (s + j) = r' := ⟨_, rfl⟩
    have hway : pathTo (mmuKey g s virt) (j + 1) <:+ pathTo (mmuKey g s virt) (map.maxLevel - s) :=
      pathTo_suffix (by omega)
    rcases B.mmuAddMapPteProcess_upper P F hc hj hway (by omega) (leafPte map phys) hr' with
      ⟨hret, hfull, hshort⟩ | ⟨hret, hsame, D', t', B', P', F', ht'⟩
    · left
      simp only [hr', hret] at hr
      rw [if_pos (by decide)] at hr
      subst hr
      exact ⟨rfl, hfull, hshort⟩
    · simp only [hr', hret, ne_eq, not_true_eq_false, ↓reduceIte] at hr
      rcases ih B' P' (hsame.startLevel.trans hs) F' (j := j + 1) (by omega) ht' hr with
        ⟨h0, hfull, hshort⟩ | ⟨h0, hb, hsame', D'', B'', P'', F''⟩
      · exact Or.inl ⟨h0, hfull, hsame.short hshort⟩
      · exact Or.inr ⟨h0, hb, hsame.trans hsame', D'', B'', P'', F''⟩

end Built

/-! ## `mmu_add_map` -/

/-- Where the `k`-th block of a region starts, and what goes into its descriptor. -/
def blockOffset (g : MmuGranule) (map : MmuMmapRegion) (k : Nat) : BitVec 64 :=
  BitVec.ofNat 64 (k * 2 ^ mmuLevel2shift g map.maxLevel)

def blockUnit (g : MmuGranule) (s : Nat) (map : MmuMmapRegion) (k : Nat) :
    List (Fin (maxPteEntries g)) × BitVec 64 :=
  (pathTo (mmuKey g s (map.virt + blockOffset g map k)) (map.maxLevel - s + 1),
    leafPte map (map.phys + blockOffset g map k))

/-- The first `n` blocks of a region. -/
def blockUnits (g : MmuGranule) (s : Nat) (map : MmuMmapRegion) (n : Nat) :
    List (List (Fin (maxPteEntries g)) × BitVec 64) :=
  (List.range n).map (blockUnit g s map)

/-- The number of blocks of a region. -/
def blockCount (g : MmuGranule) (map : MmuMmapRegion) : Nat :=
  map.size.toNat / 2 ^ mmuLevel2shift g map.maxLevel

theorem blockOffset_succ (map : MmuMmapRegion) (k : Nat) :
    blockOffset g map k + 1#64 <<< mmuLevel2shift g map.maxLevel =
      blockOffset g map (k + 1) := by
  have h : 1#64 <<< mmuLevel2shift g map.maxLevel =
      BitVec.ofNat 64 (2 ^ mmuLevel2shift g map.maxLevel) := by
    apply BitVec.eq_of_toNat_eq
    simp [BitVec.toNat_shiftLeft, Nat.one_shiftLeft]
  rw [blockOffset, blockOffset, h, ← BitVec.ofNat_add, Nat.succ_mul]

/-- What `mmu_add_map` asks of its region and of what has been mapped before. -/
structure Mappable (g : MmuGranule) (s : Nat) (map : MmuMmapRegion)
    (done : List (List (Fin (maxPteEntries g)) × BitVec 64)) : Prop where
  level : s < map.maxLevel ∧ map.maxLevel < 4
  size : 2 ^ mmuLevel2shift g map.maxLevel ∣ map.size.toNat
  clear : ∀ k < blockCount g map,
    Clear (blockUnit g s map k).1 (done ++ blockUnits g s map k)

theorem Mappable.lt_size {map : MmuMmapRegion} (M : Mappable g s map done) {k : Nat}
    (hk : k ≤ blockCount g map) : blockOffset g map k < map.size ↔ k < blockCount g map := by
  have hpos : 0 < 2 ^ mmuLevel2shift g map.maxLevel := Nat.two_pow_pos _
  have hsize : map.size.toNat = blockCount g map * 2 ^ mmuLevel2shift g map.maxLevel :=
    (Nat.div_mul_cancel M.size).symm
  have hle : k * 2 ^ mmuLevel2shift g map.maxLevel ≤ map.size.toNat := by
    rw [hsize]
    exact Nat.mul_le_mul_right _ hk
  have hlt := map.size.isLt
  rw [BitVec.lt_def, blockOffset, BitVec.toNat_ofNat, Nat.mod_eq_of_lt (by omega), hsize]
  exact Nat.mul_lt_mul_right hpos

/-- **One region.** After `k` blocks the loop maps the others, or the area is full. -/
theorem Built.mapRegion {map : MmuMmapRegion} (M : Mappable g s map done) {n k : Nat}
    (hfuel : k + n = map.size.toNat) (hk : k ≤ blockCount g map) {m : Mmu} {D : PteDirectory g}
    (B : Built g m D) (P : Packed g m D) (hs : m.ctrl.startLevel = s)
    (F : Filled D (done ++ blockUnits g s map k) []) {blockSize : BitVec 64} {r : Mmu × Int}
    (hr : mmuAddMapLoop map n m (map.virt + blockOffset g map k) (map.phys + blockOffset g map k)
      (blockOffset g map k) blockSize = r) :
    (r.2 = -1 ∧ Full r.1 ∧ Short g m (done ++ blockUnits g s map (blockCount g map))) ∨
    (r.2 = 0 ∧ SameArea m r.1 ∧ ∃ D', Built g r.1 D' ∧ Packed g r.1 D' ∧
      Filled D' (done ++ blockUnits g s map (blockCount g map)) []) := by
  induction n generalizing k m D blockSize with
  | zero =>
    have hcount : blockCount g map ≤ map.size.toNat := Nat.div_le_self _ _
    obtain rfl : k = blockCount g map := by omega
    rw [mmuAddMapLoop] at hr
    subst hr
    exact Or.inr ⟨rfl, SameArea.refl m, D, B, P, F⟩
  | succ n ih =>
    by_cases hlt : k < blockCount g map
    · have hlevel := M.level.1
      have hlevels : map.maxLevel + 1 - s = map.maxLevel - s + 1 := by omega
      rw [mmuAddMapLoop, if_pos ((M.lt_size hk).mpr hlt), hs, hlevels] at hr
      obtain ⟨r', hr'⟩ : ∃ r', mmuAddMapLevels map (map.virt + blockOffset g map k)
        (map.phys + blockOffset g map k) (map.maxLevel - s + 1) s m blockSize = r' := ⟨_, rfl⟩
      have hunits : done ++ blockUnits g s map k ++ [blockUnit g s map k] =
          done ++ blockUnits g s map (k + 1) := by
        simp [blockUnits, List.range_succ]
      rcases B.mapBlock P hs M.level.1 M.level.2 (F.start _) (M.clear k hlt) (j := 0) (by omega)
        B.root hr' with ⟨hret, hfull, hshort⟩ | ⟨hret, hb, hsame, D', B', P', F'⟩
      · left
        simp only [hr', hret] at hr
        rw [if_pos (by decide)] at hr
        subst hr
        have hshort' : Short g m (done ++ blockUnits g s map (k + 1)) := hunits ▸ hshort
        refine ⟨rfl, hfull, hshort'.mono (List.append_subset.mpr ⟨List.subset_append_left _ _,
          List.subset_append_of_subset_right _ ?_⟩)⟩
        exact List.map_subset _ (List.range_subset.mpr hlt)
      · simp only [hr', hret, ne_eq, not_true_eq_false, ↓reduceIte, hb, BitVec.add_assoc,
          blockOffset_succ] at hr
        have F'' : Filled D' (done ++ blockUnits g s map (k + 1)) [] := hunits ▸ F'
        rcases ih (by omega) (by omega) B' P' (hsame.startLevel.trans hs) F'' hr with
          ⟨h0, hfull, hshort⟩ | ⟨h0, hsame', D'', B'', P'', F'''⟩
        · exact Or.inl ⟨h0, hfull, hsame.short hshort⟩
        · exact Or.inr ⟨h0, hsame.trans hsame', D'', B'', P'', F'''⟩
    · obtain rfl : k = blockCount g map := by omega
      rw [mmuAddMapLoop, if_neg (mt (M.lt_size hk).mp hlt)] at hr
      subst hr
      exact Or.inr ⟨rfl, SameArea.refl m, D, B, P, F⟩

theorem Built.mmuAddMap {map : MmuMmapRegion} (M : Mappable g s map done) {m : Mmu}
    {D : PteDirectory g} (B : Built g m D) (P : Packed g m D) (hs : m.ctrl.startLevel = s)
    (F : Filled D done []) {r : Mmu × Int} (hr : mmuAddMap m map = r) :
    (r.2 = -1 ∧ Full r.1 ∧ Short g m (done ++ blockUnits g s map (blockCount g map))) ∨
    (r.2 = 0 ∧ SameArea m r.1 ∧ ∃ D', Built g r.1 D' ∧ Packed g r.1 D' ∧
      Filled D' (done ++ blockUnits g s map (blockCount g map)) []) := by
  have hlevel := M.level.1
  rw [MiniEuler.mmuAddMap, if_neg (by omega)] at hr
  have hzero : blockOffset g map 0 = 0 := by simp [blockOffset]
  have F0 : Filled D (done ++ blockUnits g s map 0) [] := by simpa [blockUnits] using F
  have hr' : mmuAddMapLoop map map.size.toNat m (map.virt + blockOffset g map 0)
      (map.phys + blockOffset g map 0) (blockOffset g map 0) 0 = r := by
    simpa [hzero] using hr
  exact B.mapRegion M (Nat.zero_add _) (Nat.zero_le _) P hs F0 hr'

/-! ## `mmu_setup_pgtables` -/

/-- All blocks of a list of regions. -/
def regionUnits (g : MmuGranule) (s : Nat) (regions : List MmuMmapRegion) :
    List (List (Fin (maxPteEntries g)) × BitVec 64) :=
  regions.flatMap fun map => blockUnits g s map (blockCount g map)

/-- **All regions.** -/
theorem Built.mmuAddMaps (pre : List MmuMmapRegion) {rest : List MmuMmapRegion}
    (M : ∀ before map after, pre ++ rest = before ++ map :: after →
      Mappable g s map (regionUnits g s before))
    {m : Mmu} {D : PteDirectory g} (B : Built g m D) (P : Packed g m D)
    (hs : m.ctrl.startLevel = s) (F : Filled D (regionUnits g s pre) []) {r : Mmu × Int}
    (hr : mmuAddMaps rest m = r) :
    (r.2 = -1 ∧ Full r.1 ∧ Short g m (regionUnits g s (pre ++ rest))) ∨
    (r.2 = 0 ∧ SameArea m r.1 ∧ ∃ D', Built g r.1 D' ∧ Packed g r.1 D' ∧
      Filled D' (regionUnits g s (pre ++ rest)) []) := by
  induction rest generalizing pre m D with
  | nil =>
    rw [MiniEuler.mmuAddMaps] at hr
    subst hr
    rw [List.append_nil]
    exact Or.inr ⟨rfl, SameArea.refl m, D, B, P, F⟩
  | cons map rest ih =>
    rw [MiniEuler.mmuAddMaps] at hr
    obtain ⟨r', hr'⟩ : ∃ r', MiniEuler.mmuAddMap m map = r' := ⟨_, rfl⟩
    rcases B.mmuAddMap (M pre map rest rfl) P hs F hr' with
      ⟨hret, hfull, hshort⟩ | ⟨hret, hsame, D', B', P', F'⟩
    · left
      simp only [hr', hret] at hr
      rw [if_pos (by decide)] at hr
      subst hr
      refine ⟨rfl, hfull, hshort.mono ?_⟩
      simp [regionUnits]
    · simp only [hr', hret, ne_eq, not_true_eq_false, ↓reduceIte] at hr
      have F'' : Filled D' (regionUnits g s (pre ++ [map])) [] := by
        simpa [regionUnits] using F'
      have happ : pre ++ map :: rest = pre ++ [map] ++ rest := by simp
      rw [happ] at M ⊢
      rcases ih (pre ++ [map]) M B' P' (hsame.startLevel.trans hs) F'' hr with
        ⟨h0, hfull, hshort⟩ | ⟨h0, hsame', D'', B'', P'', F'''⟩
      · exact Or.inl ⟨h0, hfull, hsame.short hshort⟩
      · exact Or.inr ⟨h0, hsame.trans hsame', D'', B'', P'', F'''⟩

end MiniEuler
