import MiniEuler.Bsp.MmuMap

/-! The stores of `mmu_setup_pgtables`, in their order, whatever the regions are: each of them is
inside the page-table area, and the tables that can be reached form a tree. -/

namespace MiniEuler
open Library

/-- The loop that clears a new table, or one store into an entry. -/
inductive MmuStore
  | clear (table : BitVec 64)
  | entry (pte value : BitVec 64)
  deriving DecidableEq, Repr

namespace MmuStore

def apply (g : MmuGranule) (mem : BitVec 64 → BitVec 64) : MmuStore → BitVec 64 → BitVec 64
  | .clear table => mmuClearTable mem table (maxPteEntries g)
  | .entry pte value => Function.update mem pte value

/-- The store is inside the area. -/
def Inside (g : MmuGranule) (tlbAddr tlbLen : BitVec 64) : MmuStore → Prop
  | .clear table => tlbAddr.toNat ≤ table.toNat ∧
      table.toNat + tableBytes g ≤ tlbAddr.toNat + tlbLen.toNat
  | .entry pte _ => tlbAddr.toNat ≤ pte.toNat ∧
      pte.toNat + 8 ≤ tlbAddr.toNat + tlbLen.toNat

end MmuStore

/-- The memory after a list of stores. -/
def replay (g : MmuGranule) (stores : List MmuStore) (mem : BitVec 64 → BitVec 64) :
    BitVec 64 → BitVec 64 :=
  stores.foldl (MmuStore.apply g) mem

/-! ## The stores of each function -/

def mmuCreateTableStores (m : Mmu) : List MmuStore :=
  let ptLen := BitVec.ofNat 64 (maxPteEntries m.ctrl.granule * 8)
  if m.ctrl.tlbFillptr + ptLen - m.ctrl.tlbAddr > m.ctrl.tlbSize then []
  else [.clear m.ctrl.tlbFillptr]

def mmuAddMapPteProcessStores (m : Mmu) (map : MmuMmapRegion) (pte phys : BitVec 64)
    (level : Nat) : List MmuStore :=
  if level < map.maxLevel then
    if mmuGetPteType m pte = pteTypeFault then
      let newTable := (mmuCreateTable m).2
      mmuCreateTableStores m ++
        if newTable = 0 then [] else [.entry pte (pteTypeTable ||| newTable)]
    else []
  else if level = mmuLevel3 then [.entry pte (phys ||| map.attrs ||| pteTypePage)]
  else [.entry pte (phys ||| map.attrs ||| pteTypeBlock)]

def mmuAddMapLevelsStores (map : MmuMmapRegion) (virt phys : BitVec 64) :
    (n level : Nat) → Mmu → List MmuStore
  | 0, _, _ => []
  | n + 1, level, m =>
    match mmuFindPte m virt level with
    | none => []
    | some pte =>
      let r := mmuAddMapPteProcess m map pte phys level
      mmuAddMapPteProcessStores m map pte phys level ++
        if r.2 ≠ 0 then [] else mmuAddMapLevelsStores map virt phys n (level + 1) r.1

def mmuAddMapLoopStores (map : MmuMmapRegion) :
    (n : Nat) → Mmu → (virt phys mapSize blockSize : BitVec 64) → List MmuStore
  | 0, _, _, _, _, _ => []
  | n + 1, m, virt, phys, mapSize, blockSize =>
    if mapSize < map.size then
      let levels := map.maxLevel + 1 - m.ctrl.startLevel
      let r := mmuAddMapLevels map virt phys levels m.ctrl.startLevel m blockSize
      mmuAddMapLevelsStores map virt phys levels m.ctrl.startLevel m ++
        if r.2.2 ≠ 0 then []
        else
          mmuAddMapLoopStores map n r.1 (virt + r.2.1) (phys + r.2.1) (mapSize + r.2.1) r.2.1
    else []

def mmuAddMapStores (m : Mmu) (map : MmuMmapRegion) : List MmuStore :=
  if map.maxLevel ≤ m.ctrl.startLevel then []
  else mmuAddMapLoopStores map map.size.toNat m map.virt map.phys 0 0

def mmuAddMapsStores : List MmuMmapRegion → Mmu → List MmuStore
  | [], _ => []
  | map :: rest, m =>
    let r := mmuAddMap m map
    mmuAddMapStores m map ++ if r.2 ≠ 0 then [] else mmuAddMapsStores rest r.1

def mmuSetupPgtablesStores (m : Mmu) (memMapInfo memMap : List MmuMmapRegion)
    (tlbAddr tlbLen : BitVec 64) (granule : MmuGranule) : List MmuStore :=
  let m := mmuSetupCtrl m memMapInfo tlbAddr tlbLen granule
  if granule = .g64K ∧ ¬ (mmuGetTcr granule memMapInfo).2 ≤ 36 then []
  else
    let newTable := mmuCreateTable m
    mmuCreateTableStores m ++
      if newTable.2 = 0 then [] else mmuAddMapsStores memMap newTable.1

/-! ## The stores are all that happens to the memory -/

variable {g : MmuGranule} {m m' : Mmu} {map : MmuMmapRegion}

theorem replay_append (stores stores' : List MmuStore) (mem : BitVec 64 → BitVec 64) :
    replay g (stores ++ stores') mem = replay g stores' (replay g stores mem) :=
  List.foldl_append

/-- The stores lead from one state of the builder to another, with the area as it was. -/
structure Replays (g : MmuGranule) (m m' : Mmu) (stores : List MmuStore) : Prop where
  same : SameArea m m'
  mem : m'.mem = replay g stores m.mem

namespace Replays

theorem refl (m : Mmu) : Replays g m m [] := ⟨SameArea.refl m, rfl⟩

theorem trans {m'' : Mmu} {stores stores' : List MmuStore} (h : Replays g m m' stores)
    (h' : Replays g m' m'' stores') : Replays g m m'' (stores ++ stores') where
  same := h.same.trans h'.same
  mem := by rw [replay_append, ← h.mem, h'.mem]

theorem granule {stores : List MmuStore} (h : Replays g m m' stores) :
    m'.ctrl.granule = m.ctrl.granule := by
  rw [h.same]

theorem mmuCreateTable (hg : m.ctrl.granule = g) :
    Replays g m (mmuCreateTable m).1 (mmuCreateTableStores m) := by
  subst hg
  rw [MiniEuler.mmuCreateTable, mmuCreateTableStores]
  split
  · exact ⟨rfl, rfl⟩
  · exact ⟨rfl, rfl⟩

theorem mmuAddMapPteProcess (map : MmuMmapRegion) (hg : m.ctrl.granule = g)
    (pte phys : BitVec 64) (level : Nat) :
    Replays g m (mmuAddMapPteProcess m map pte phys level).1
      (mmuAddMapPteProcessStores m map pte phys level) := by
  rw [MiniEuler.mmuAddMapPteProcess, mmuAddMapPteProcessStores]
  by_cases hlevel : level < map.maxLevel
  · rw [if_pos hlevel, if_pos hlevel]
    by_cases hfault : mmuGetPteType m pte = pteTypeFault
    · have hnew := mmuCreateTable hg
      rw [if_pos hfault, if_pos hfault]
      by_cases hnull : (MiniEuler.mmuCreateTable m).2 = 0
      · simpa [hnull] using hnew
      · simp only [hnull, ↓reduceIte]
        exact hnew.trans ⟨rfl, rfl⟩
    · rw [if_neg hfault, if_neg hfault]
      exact refl m
  · rw [if_neg hlevel, if_neg hlevel]
    by_cases hlast : level = mmuLevel3
    · rw [if_pos hlast, if_pos hlast]
      exact ⟨rfl, rfl⟩
    · rw [if_neg hlast, if_neg hlast]
      exact ⟨rfl, rfl⟩

theorem mmuAddMapLevels (map : MmuMmapRegion) (hg : m.ctrl.granule = g)
    (virt phys : BitVec 64) (n level : Nat) (blockSize : BitVec 64) :
    Replays g m (mmuAddMapLevels map virt phys n level m blockSize).1
      (mmuAddMapLevelsStores map virt phys n level m) := by
  induction n generalizing m level blockSize with
  | zero => exact refl m
  | succ n ih =>
    cases hfind : mmuFindPte m virt level with
    | none =>
      rw [MiniEuler.mmuAddMapLevels, mmuAddMapLevelsStores, hfind]
      exact refl m
    | some pte =>
      have hone := mmuAddMapPteProcess map hg pte phys level
      rw [Built.mmuAddMapLevels_succ hfind, mmuAddMapLevelsStores, hfind]
      by_cases hret : (MiniEuler.mmuAddMapPteProcess m map pte phys level).2 = 0
      · simp only [hret, ne_eq, not_true_eq_false, ↓reduceIte]
        exact hone.trans (ih (hone.granule.trans hg) _ _)
      · simpa [hret] using hone

theorem mmuAddMapLoop (hg : m.ctrl.granule = g) (n : Nat)
    (virt phys mapSize blockSize : BitVec 64) :
    Replays g m (mmuAddMapLoop map n m virt phys mapSize blockSize).1
      (mmuAddMapLoopStores map n m virt phys mapSize blockSize) := by
  induction n generalizing m virt phys mapSize blockSize with
  | zero => exact refl m
  | succ n ih =>
    rw [MiniEuler.mmuAddMapLoop, mmuAddMapLoopStores]
    by_cases hlt : mapSize < map.size
    · have hone := mmuAddMapLevels map hg virt phys (map.maxLevel + 1 - m.ctrl.startLevel)
        m.ctrl.startLevel blockSize
      rw [if_pos hlt, if_pos hlt]
      by_cases hret : (MiniEuler.mmuAddMapLevels map virt phys
        (map.maxLevel + 1 - m.ctrl.startLevel) m.ctrl.startLevel m blockSize).2.2 = 0
      · simp only [hret, ne_eq, not_true_eq_false, ↓reduceIte]
        exact hone.trans (ih (hone.granule.trans hg) _ _ _ _)
      · simpa [hret] using hone
    · rw [if_neg hlt, if_neg hlt]
      exact refl m

theorem mmuAddMap (map : MmuMmapRegion) (hg : m.ctrl.granule = g) :
    Replays g m (mmuAddMap m map).1 (mmuAddMapStores m map) := by
  rw [MiniEuler.mmuAddMap, mmuAddMapStores]
  split
  · exact refl m
  · exact mmuAddMapLoop hg _ _ _ _ _

theorem mmuAddMaps (regions : List MmuMmapRegion) (hg : m.ctrl.granule = g) :
    Replays g m (mmuAddMaps regions m).1 (mmuAddMapsStores regions m) := by
  induction regions generalizing m with
  | nil => exact refl m
  | cons map rest ih =>
    have hone := mmuAddMap map hg
    rw [MiniEuler.mmuAddMaps, mmuAddMapsStores]
    by_cases hret : (MiniEuler.mmuAddMap m map).2 = 0
    · simp only [hret, ne_eq, not_true_eq_false, ↓reduceIte]
      exact hone.trans (ih (hone.granule.trans hg))
    · simpa [hret] using hone

end Replays

/-- **Replay.** The stores give the memory that `mmu_setup_pgtables` leaves. -/
theorem mmuSetupPgtables_replay (m : Mmu) (memMapInfo memMap : List MmuMmapRegion)
    (tlbAddr tlbLen : BitVec 64) (g : MmuGranule) :
    (mmuSetupPgtables m memMapInfo memMap tlbAddr tlbLen g).1.mem =
      replay g (mmuSetupPgtablesStores m memMapInfo memMap tlbAddr tlbLen g) m.mem := by
  rw [mmuSetupPgtables, mmuSetupPgtablesStores]
  by_cases h64 : g = .g64K ∧ ¬ (mmuGetTcr g memMapInfo).2 ≤ 36
  · rw [if_pos h64, if_pos h64]
    rfl
  · have hroot : Replays g (mmuSetupCtrl m memMapInfo tlbAddr tlbLen g)
        (mmuCreateTable (mmuSetupCtrl m memMapInfo tlbAddr tlbLen g)).1 _ :=
      Replays.mmuCreateTable rfl
    rw [if_neg h64, if_neg h64]
    by_cases hnull : (mmuCreateTable (mmuSetupCtrl m memMapInfo tlbAddr tlbLen g)).2 = 0
    · simp only [hnull, ↓reduceIte, List.append_nil]
      exact hroot.mem
    · have hmaps := hroot.trans (Replays.mmuAddMaps memMap (hroot.granule.trans rfl))
      simp only [hnull, ↓reduceIte]
      split
      · exact hmaps.mem
      · exact hmaps.mem

/-! ## Words with a clear type field -/

def TypeClear (x : BitVec 64) : Prop := x &&& pteTypeMask = 0

theorem typeClear_iff {x : BitVec 64} : TypeClear x ↔ x.toNat % 4 = 0 := by
  have hmask : (x &&& pteTypeMask).toNat = x.toNat % 4 := by
    rw [BitVec.toNat_and]
    exact Nat.and_two_pow_sub_one_eq_mod x.toNat 2
  rw [← hmask]
  exact ⟨fun h => by rw [h]; rfl, fun h => BitVec.eq_of_toNat_eq h⟩

theorem TypeClear.add {x y : BitVec 64} (hx : TypeClear x) (hy : TypeClear y) :
    TypeClear (x + y) := by
  rw [typeClear_iff] at *
  rw [BitVec.toNat_add]
  omega

theorem typeClear_block (g : MmuGranule) (level : Nat) :
    TypeClear (1#64 <<< mmuLevel2shift g level) := by
  obtain ⟨n, hn⟩ : ∃ n, mmuLevel2shift g level = n + 2 := by
    cases g
    · exact ⟨10 + 9 * (mmuLevel3 - level), by simp only [mmuLevel2shift]; omega⟩
    · exact ⟨14 + 13 * (mmuLevel3 - level), by simp only [mmuLevel2shift]; omega⟩
  rw [typeClear_iff, BitVec.toNat_shiftLeft, hn, show (1#64).toNat = 1 from rfl,
    Nat.one_shiftLeft, Nat.pow_succ, Nat.pow_succ]
  omega

/-- The type of a leaf is what the builder puts there. -/
theorem type_of_leaf {phys attrs type : BitVec 64} (hphys : TypeClear phys)
    (hattrs : TypeClear attrs) (htype : type &&& pteTypeMask = type) :
    (phys ||| attrs ||| type) &&& pteTypeMask = type := by
  rw [BitVec.and_or_distrib_right, BitVec.and_or_distrib_right, hphys, hattrs, htype]
  simp

/-! ## The forest of tables -/

/-- The memory holds a directory of cleared tables. A leaf above the last level is a block, so that
what has the type of a table there is one. -/
structure Forest (g : MmuGranule) (m : Mmu) (D : PteDirectory g) (stores : List MmuStore) :
    Prop where
  root : D.entry [] = .table m.ctrl.tlbAddr
  holds : Holds (pteLayout g) m.mem D
  block : ∀ p w, D.entry p = .leaf w → m.ctrl.startLevel + p.length < 4 →
    w &&& pteTypeMask = pteTypeBlock
  cleared : ∀ p t, D.entry p = .table t → .clear t ∈ stores
  inside : ∀ e ∈ stores, e.Inside g m.ctrl.tlbAddr m.ctrl.tlbSize

namespace Forest

variable {D : PteDirectory g} {stores : List MmuStore} {p : List (Fin (maxPteEntries g))}
  {d : Fin (maxPteEntries g)} {t : BitVec 64}

theorem read (F : Forest g m D stores) (hp : D.entry p = .table t) :
    m.mem (pteAddr t d) = encodePte (D.entry (d :: p)) :=
  F.holds.read p t d hp

/-- What has the type of a table above the last level is a table. -/
theorem table_of_type (F : Forest g m D stores) (hp : D.entry p = .table t)
    (hlevel : m.ctrl.startLevel + p.length < mmuLevel3)
    (htype : m.mem (pteAddr t d) &&& pteTypeMask = pteTypeTable) :
    D.entry (d :: p) = .table (m.mem (pteAddr t d) &&& pteTableAddrMark g) := by
  have hread := F.read (d := d) hp
  rw [hread] at htype ⊢
  cases he : D.entry (d :: p) with
  | fault =>
    rw [he] at htype
    exact absurd htype (by decide)
  | leaf w =>
    have hblock := F.block _ w he (by simp only [List.length_cons, mmuLevel3] at *; omega)
    rw [he, encodePte, hblock] at htype
    exact absurd htype (by decide)
  | table t' => rw [encodePte, addr_of_table (F.holds.proper _ _ he)]

/-- An entry of a table is inside the area. -/
theorem entry_inside (F : Forest g m D stores) (hp : D.entry p = .table t) (v : BitVec 64) :
    (MmuStore.entry (pteAddr t d) v).Inside g m.ctrl.tlbAddr m.ctrl.tlbSize := by
  have hclear := F.inside _ (F.cleared p t hp)
  have hd := d.isLt
  have haddr := toNat_pteAddr (F.holds.proper p t hp).2 d
  simp only [MmuStore.Inside, tableBytes, haddr] at hclear ⊢
  omega

/-! ### `mmu_find_pte` -/

/-- The walk comes to an entry of a table, or to nothing. -/
theorem mmuFindPteLoop (F : Forest g m D stores) (hg : m.ctrl.granule = g) (addr : BitVec 64)
    (level : Nat) {fuel j : Nat} (hfuel : m.ctrl.startLevel + j + fuel = mmuLevelMax)
    (hj : D.entry (pathTo (mmuKey g m.ctrl.startLevel addr) j) = .table t) :
    MiniEuler.mmuFindPteLoop m addr level fuel (m.ctrl.startLevel + j) t = none ∨
    ∃ n t', level = m.ctrl.startLevel + n ∧ level ≤ mmuLevel3 ∧
      D.entry (pathTo (mmuKey g m.ctrl.startLevel addr) n) = .table t' ∧
      MiniEuler.mmuFindPteLoop m addr level fuel (m.ctrl.startLevel + j) t =
        some (pteAddr t' (mmuKey g m.ctrl.startLevel addr n)) := by
  induction fuel generalizing j t with
  | zero => exact Or.inl rfl
  | succ fuel ih =>
    have hpte : t + 8 * mmuIndex m.ctrl.granule addr (m.ctrl.startLevel + j) =
        pteAddr t (mmuKey g m.ctrl.startLevel addr j) := by
      rw [hg, mmuIndex_eq]
      rfl
    rw [MiniEuler.mmuFindPteLoop, hpte]
    by_cases hlevel : m.ctrl.startLevel + j = level
    · right
      refine ⟨j, t, hlevel.symm, ?_, hj, if_pos hlevel⟩
      simp only [mmuLevelMax, mmuLevel3] at *
      omega
    · rw [if_neg hlevel]
      by_cases htype : mmuGetPteType m (pteAddr t (mmuKey g m.ctrl.startLevel addr j)) =
          pteTypeTable
      · rw [if_neg (not_not.mpr htype), hg]
        by_cases hlast : fuel = 0
        · -- at the last level a page has the type of a table, and the loop ends
          subst hlast
          exact Or.inl rfl
        · have hnext : D.entry (pathTo (mmuKey g m.ctrl.startLevel addr) (j + 1)) = .table
              (m.mem (pteAddr t (mmuKey g m.ctrl.startLevel addr j)) &&& pteTableAddrMark g) := by
            refine F.table_of_type hj ?_ htype
            rw [length_pathTo]
            simp only [mmuLevelMax, mmuLevel3] at *
            omega
          exact ih (by omega) hnext
      · rw [if_pos htype]
        exact Or.inl rfl

theorem mmuFindPte (F : Forest g m D stores) (hg : m.ctrl.granule = g)
    (hs : m.ctrl.startLevel ≤ mmuLevel3) (addr : BitVec 64) (level : Nat) :
    mmuFindPte m addr level = none ∨
    ∃ n t, level = m.ctrl.startLevel + n ∧ level ≤ mmuLevel3 ∧
      D.entry (pathTo (mmuKey g m.ctrl.startLevel addr) n) = .table t ∧
      MiniEuler.mmuFindPte m addr level =
        some (pteAddr t (mmuKey g m.ctrl.startLevel addr n)) := by
  by_cases hlow : level < m.ctrl.startLevel
  · exact Or.inl (if_pos hlow)
  · rw [MiniEuler.mmuFindPte, if_neg hlow]
    refine F.mmuFindPteLoop hg addr level (j := 0) ?_ F.root
    simp only [mmuLevelMax, mmuLevel3] at *
    omega

/-! ### Changes -/

/-- A pointer that is moved too far changes nothing. -/
theorem moved (F : Forest g m D stores) (fillptr : BitVec 64) :
    Forest g { m with ctrl := { m.ctrl with tlbFillptr := fillptr } } D stores :=
  ⟨F.root, F.holds, F.block, F.cleared, F.inside⟩

/-- A new table is linked in. -/
theorem linkTable (F : Forest g m D stores) (B : Built g m D) (hp : D.entry p = .table t)
    (hroom : ¬ Full (withTable g m)) :
    Forest g (mmuSetPteTable (withTable g m) (pteAddr t d) m.ctrl.tlbFillptr)
      (D.set d p (.table m.ctrl.tlbFillptr) ⟨t, hp⟩)
      (stores ++ [.clear m.ctrl.tlbFillptr,
        .entry (pteAddr t d) (pteTypeTable ||| m.ctrl.tlbFillptr)]) := by
  have B' := B.linkTable (d := d) hp hroom
  have N := B.area.fresh hroom
  refine ⟨B'.root, B'.holds, fun q w hq => ?_, fun q t' hq => ?_, fun e he => ?_⟩
  · rcases Directory.leaf_of_entry_set hq with ⟨-, h⟩ | h
    · cases h
    · exact F.block q w h
  · rcases Directory.table_of_entry_set hq with ⟨-, h⟩ | ⟨-, -, h⟩
    · obtain rfl := Entry.table.inj h
      simp
    · exact List.mem_append_left _ (F.cleared q t' h)
  · rcases List.mem_append.mp he with he | he
    · exact F.inside e he
    · simp only [List.mem_cons, List.not_mem_nil, or_false] at he
      rcases he with rfl | rfl
      · exact ⟨B.area.low, N.fillptr ▸ N.area.high⟩
      · exact F.entry_inside hp _

/-- A leaf is written; above the last level it is a block. -/
theorem writeLeaf (F : Forest g m D stores) (B : Built g m D) (hp : D.entry p = .table t)
    {w : BitVec 64} (hw : m.ctrl.startLevel + p.length < mmuLevel3 →
      w &&& pteTypeMask = pteTypeBlock) :
    Forest g { m with mem := Function.update m.mem (pteAddr t d) w }
      (D.set d p (.leaf w) ⟨t, hp⟩) (stores ++ [.entry (pteAddr t d) w]) := by
  have B' := B.writeLeaf (d := d) hp w
  refine ⟨B'.root, B'.holds, fun q w' hq hlevel => ?_, fun q t' hq => ?_, fun e he => ?_⟩
  · rcases Directory.leaf_of_entry_set hq with ⟨rfl, h⟩ | h
    · obtain rfl := Entry.leaf.inj h
      apply hw
      simp only [List.length_cons, mmuLevel3] at hlevel ⊢
      omega
    · exact F.block q w' h hlevel
  · rcases Directory.table_of_entry_set hq with ⟨-, h⟩ | ⟨-, -, h⟩
    · cases h
    · exact List.mem_append_left _ (F.cleared q t' h)
  · rcases List.mem_append.mp he with he | he
    · exact F.inside e he
    · obtain rfl := List.mem_singleton.mp he
      exact F.entry_inside hp w

end Forest

/-! ## Each function keeps the forest -/

/-- After a function the memory holds a forest; if it succeeded, the next table has its place. -/
def Settled (g : MmuGranule) (m : Mmu) (ret : Int) (stores : List MmuStore) : Prop :=
  ∃ D, Forest g m D stores ∧ (ret = 0 → Built g m D)

theorem mmuCreateTable_stores (hg : m.ctrl.granule = g) :
    ((∃ fillptr, mmuCreateTable m = ({ m with ctrl := { m.ctrl with tlbFillptr := fillptr } }, 0)) ∧
      mmuCreateTableStores m = []) ∨
    (¬ Full (withTable g m) ∧ mmuCreateTable m = (withTable g m, m.ctrl.tlbFillptr) ∧
      mmuCreateTableStores m = [.clear m.ctrl.tlbFillptr]) := by
  subst hg
  have hbytes : maxPteEntries m.ctrl.granule * 8 = tableBytes m.ctrl.granule := Nat.mul_comm _ _
  unfold mmuCreateTable mmuCreateTableStores
  simp only [hbytes]
  by_cases hfull : m.ctrl.tlbFillptr + BitVec.ofNat 64 (tableBytes m.ctrl.granule) -
      m.ctrl.tlbAddr > m.ctrl.tlbSize
  · left
    rw [if_pos hfull, if_pos hfull]
    exact ⟨⟨_, rfl⟩, rfl⟩
  · right
    rw [if_neg hfull, if_neg hfull]
    exact ⟨hfull, rfl, rfl⟩

namespace Forest

variable {D : PteDirectory g} {stores : List MmuStore} {p : List (Fin (maxPteEntries g))}
  {d : Fin (maxPteEntries g)} {t phys : BitVec 64}

theorem mmuAddMapPteProcess (F : Forest g m D stores) (B : Built g m D)
    (hp : D.entry p = .table t) (d : Fin (maxPteEntries g)) (hphys : TypeClear phys)
    (hattrs : TypeClear map.attrs) (level : Nat) (hlevel : level = m.ctrl.startLevel + p.length) :
    Settled g (mmuAddMapPteProcess m map (pteAddr t d) phys level).1
      (mmuAddMapPteProcess m map (pteAddr t d) phys level).2
      (stores ++ mmuAddMapPteProcessStores m map (pteAddr t d) phys level) := by
  rw [MiniEuler.mmuAddMapPteProcess, mmuAddMapPteProcessStores]
  by_cases hupper : level < map.maxLevel
  · rw [if_pos hupper, if_pos hupper]
    by_cases hfault : mmuGetPteType m (pteAddr t d) = pteTypeFault
    · rw [if_pos hfault, if_pos hfault]
      rcases mmuCreateTable_stores B.area.granule with
        ⟨⟨fillptr, hnew⟩, hstores⟩ | ⟨hroom, hnew, hstores⟩
      · simp only [hnew, hstores, ↓reduceIte, List.append_nil]
        exact ⟨D, F.moved fillptr, fun h => absurd h (by decide)⟩
      · have hne := (B.area.fresh hroom).nonnull
        simp only [hnew, hstores, hne, ↓reduceIte]
        exact ⟨_, F.linkTable B hp hroom, fun _ => B.linkTable hp hroom⟩
    · rw [if_neg hfault, if_neg hfault, List.append_nil]
      exact ⟨D, F, fun _ => B⟩
  · rw [if_neg hupper, if_neg hupper]
    by_cases hlast : level = mmuLevel3
    · rw [if_pos hlast, if_pos hlast]
      exact ⟨_, F.writeLeaf B hp fun h => absurd h (by omega), fun _ => B.writeLeaf hp _⟩
    · rw [if_neg hlast, if_neg hlast]
      exact ⟨_, F.writeLeaf B hp fun _ => type_of_leaf hphys hattrs (by decide),
        fun _ => B.writeLeaf hp _⟩

theorem mmuAddMapLevels (F : Forest g m D stores) (B : Built g m D)
    (hs : m.ctrl.startLevel ≤ mmuLevel3) (hphys : TypeClear phys) (hattrs : TypeClear map.attrs)
    (virt : BitVec 64) (n level : Nat) (blockSize : BitVec 64) :
    Settled g (mmuAddMapLevels map virt phys n level m blockSize).1
      (mmuAddMapLevels map virt phys n level m blockSize).2.2
      (stores ++ mmuAddMapLevelsStores map virt phys n level m) := by
  induction n generalizing m D stores level blockSize with
  | zero =>
    rw [MiniEuler.mmuAddMapLevels, mmuAddMapLevelsStores, List.append_nil]
    exact ⟨D, F, fun _ => B⟩
  | succ n ih =>
    rcases F.mmuFindPte B.area.granule hs virt level with
      hfind | ⟨k, t, hlevel, -, ht, hfind⟩
    · rw [MiniEuler.mmuAddMapLevels, mmuAddMapLevelsStores, hfind, List.append_nil]
      exact ⟨D, F, fun h => absurd (show (-3 : Int) = 0 from h) (by decide)⟩
    · have hone := F.mmuAddMapPteProcess B ht (mmuKey g m.ctrl.startLevel virt k)
        hphys hattrs level (by rw [length_pathTo]; exact hlevel)
      have hsame := (Replays.mmuAddMapPteProcess map B.area.granule
        (pteAddr t (mmuKey g m.ctrl.startLevel virt k)) phys level).same
      rw [Built.mmuAddMapLevels_succ hfind, mmuAddMapLevelsStores, hfind]
      by_cases hret : (MiniEuler.mmuAddMapPteProcess m map
        (pteAddr t (mmuKey g m.ctrl.startLevel virt k)) phys level).2 = 0
      · obtain ⟨D', F', B'⟩ := hone
        simp only [hret, ne_eq, not_true_eq_false, ↓reduceIte, ← List.append_assoc]
        exact ih F' (B' hret) (by rw [hsame.startLevel]; exact hs) _ _
      · simpa [hret] using hone

/-- The size of a block has a clear type field. -/
theorem typeClear_blockSize (map : MmuMmapRegion) {blockSize : BitVec 64} (hb : TypeClear blockSize)
    (virt phys : BitVec 64) (n level : Nat) (m : Mmu) :
    TypeClear (MiniEuler.mmuAddMapLevels map virt phys n level m blockSize).2.1 := by
  induction n generalizing level m blockSize with
  | zero => exact hb
  | succ n ih =>
    cases hfind : MiniEuler.mmuFindPte m virt level with
    | none =>
      rw [MiniEuler.mmuAddMapLevels, hfind]
      exact hb
    | some pte =>
      rw [Built.mmuAddMapLevels_succ hfind]
      by_cases hret : (MiniEuler.mmuAddMapPteProcess m map pte phys level).2 = 0
      · simp only [hret, ne_eq, not_true_eq_false, ↓reduceIte]
        apply ih
        split
        · exact typeClear_block _ _
        · exact hb
      · simp only [hret, ne_eq, not_false_eq_true, ↓reduceIte]
        exact hb

theorem mmuAddMapLoop (F : Forest g m D stores) (B : Built g m D)
    (hs : m.ctrl.startLevel ≤ mmuLevel3) (hattrs : TypeClear map.attrs) (hphys : TypeClear phys)
    {blockSize : BitVec 64} (hb : TypeClear blockSize) (n : Nat) (virt mapSize : BitVec 64) :
    Settled g (mmuAddMapLoop map n m virt phys mapSize blockSize).1
      (mmuAddMapLoop map n m virt phys mapSize blockSize).2
      (stores ++ mmuAddMapLoopStores map n m virt phys mapSize blockSize) := by
  induction n generalizing m D stores virt phys mapSize blockSize with
  | zero =>
    rw [MiniEuler.mmuAddMapLoop, mmuAddMapLoopStores, List.append_nil]
    exact ⟨D, F, fun _ => B⟩
  | succ n ih =>
    rw [MiniEuler.mmuAddMapLoop, mmuAddMapLoopStores]
    by_cases hlt : mapSize < map.size
    · have hone := F.mmuAddMapLevels B hs hphys hattrs virt
        (map.maxLevel + 1 - m.ctrl.startLevel) m.ctrl.startLevel blockSize
      have hsame := (Replays.mmuAddMapLevels map B.area.granule virt phys
        (map.maxLevel + 1 - m.ctrl.startLevel) m.ctrl.startLevel blockSize).same
      have hb' := typeClear_blockSize map hb virt phys
        (map.maxLevel + 1 - m.ctrl.startLevel) m.ctrl.startLevel m
      rw [if_pos hlt, if_pos hlt]
      by_cases hret : (MiniEuler.mmuAddMapLevels map virt phys
        (map.maxLevel + 1 - m.ctrl.startLevel) m.ctrl.startLevel m blockSize).2.2 = 0
      · obtain ⟨D', F', B'⟩ := hone
        simp only [hret, ne_eq, not_true_eq_false, ↓reduceIte, ← List.append_assoc]
        exact ih F' (B' hret) (by rw [hsame.startLevel]; exact hs) (hphys.add hb') hb' _ _
      · simpa [hret] using hone
    · rw [if_neg hlt, if_neg hlt, List.append_nil]
      exact ⟨D, F, fun _ => B⟩

theorem mmuAddMap (F : Forest g m D stores) (B : Built g m D)
    (hs : m.ctrl.startLevel ≤ mmuLevel3) (hphys : TypeClear map.phys)
    (hattrs : TypeClear map.attrs) :
    Settled g (mmuAddMap m map).1 (mmuAddMap m map).2 (stores ++ mmuAddMapStores m map) := by
  rw [MiniEuler.mmuAddMap, mmuAddMapStores]
  split
  · rw [List.append_nil]
    exact ⟨D, F, fun h => absurd (show (-2 : Int) = 0 from h) (by decide)⟩
  · exact F.mmuAddMapLoop B hs hattrs hphys (typeClear_iff.mpr rfl) _ _ _

theorem mmuAddMaps {regions : List MmuMmapRegion} (F : Forest g m D stores) (B : Built g m D)
    (hs : m.ctrl.startLevel ≤ mmuLevel3)
    (hregions : ∀ map ∈ regions, TypeClear map.phys ∧ TypeClear map.attrs) :
    Settled g (mmuAddMaps regions m).1 (mmuAddMaps regions m).2
      (stores ++ mmuAddMapsStores regions m) := by
  induction regions generalizing m D stores with
  | nil =>
    rw [MiniEuler.mmuAddMaps, mmuAddMapsStores, List.append_nil]
    exact ⟨D, F, fun _ => B⟩
  | cons map rest ih =>
    obtain ⟨hphys, hattrs⟩ := hregions map List.mem_cons_self
    have hone := F.mmuAddMap B hs hphys hattrs
    have hsame := (Replays.mmuAddMap map B.area.granule).same
    rw [MiniEuler.mmuAddMaps, mmuAddMapsStores]
    by_cases hret : (MiniEuler.mmuAddMap m map).2 = 0
    · obtain ⟨D', F', B'⟩ := hone
      simp only [hret, ne_eq, not_true_eq_false, ↓reduceIte, ← List.append_assoc]
      exact ih F' (B' hret) (by rw [hsame.startLevel]; exact hs)
        fun map' h => hregions map' (List.mem_cons_of_mem _ h)
    · simpa [hret] using hone

end Forest

/-! ## The rounds of `mmu_add_map` -/

theorem mmuLevel2shift_le (g : MmuGranule) (level : Nat) : mmuLevel2shift g level ≤ 55 := by
  cases g
  · simp only [mmuLevel2shift, mmuLevel3]; omega
  · simp only [mmuLevel2shift, mmuLevel3]; omega

theorem toNat_block (g : MmuGranule) (level : Nat) :
    (1#64 <<< mmuLevel2shift g level).toNat = 2 ^ mmuLevel2shift g level := by
  have hlt : 2 ^ mmuLevel2shift g level < 2 ^ 64 :=
    Nat.pow_lt_pow_right (by decide) ((mmuLevel2shift_le g level).trans_lt (by decide))
  rw [BitVec.toNat_shiftLeft, show (1#64).toNat = 1 from rfl, Nat.one_shiftLeft,
    Nat.mod_eq_of_lt hlt]

/-- After all levels the size of a block is that of the last one. -/
theorem mmuAddMapLevels_blockSize {virt phys blockSize : BitVec 64} {n level : Nat}
    (hn : level + n = map.maxLevel) (hmax : map.maxLevel ≠ m.ctrl.startLevel)
    (hret : (mmuAddMapLevels map virt phys (n + 1) level m blockSize).2.2 = 0) :
    (mmuAddMapLevels map virt phys (n + 1) level m blockSize).2.1 =
      1#64 <<< mmuLevel2shift m.ctrl.granule map.maxLevel := by
  induction n generalizing m level blockSize with
  | zero =>
    obtain rfl : level = map.maxLevel := hn
    cases hfind : mmuFindPte m virt map.maxLevel with
    | none =>
      rw [mmuAddMapLevels, hfind] at hret
      exact absurd (show (-3 : Int) = 0 from hret) (by decide)
    | some pte =>
      have hone := Replays.mmuAddMapPteProcess map (g := m.ctrl.granule) rfl pte phys
        map.maxLevel
      rw [Built.mmuAddMapLevels_succ hfind] at hret ⊢
      by_cases hzero : (mmuAddMapPteProcess m map pte phys map.maxLevel).2 = 0
      · simp only [hzero, ne_eq, not_true_eq_false, ↓reduceIte, mmuAddMapLevels]
        rw [hone.same.startLevel, if_pos hmax, hone.granule]
      · simp only [hzero, ne_eq, not_false_eq_true, ↓reduceIte] at hret
  | succ n ih =>
    cases hfind : mmuFindPte m virt level with
    | none =>
      rw [mmuAddMapLevels, hfind] at hret
      exact absurd (show (-3 : Int) = 0 from hret) (by decide)
    | some pte =>
      have hone := Replays.mmuAddMapPteProcess map (g := m.ctrl.granule) rfl pte phys level
      rw [Built.mmuAddMapLevels_succ hfind] at hret ⊢
      by_cases hzero : (mmuAddMapPteProcess m map pte phys level).2 = 0
      · simp only [hzero, ne_eq, not_true_eq_false, ↓reduceIte] at hret ⊢
        rw [← hone.granule]
        exact ih (by omega) (by rw [hone.same.startLevel]; exact hmax) hret
      · simp only [hzero, ne_eq, not_false_eq_true, ↓reduceIte] at hret

/-- For a region of at most 2^48 bytes the loop has ended after `size` rounds. -/
theorem mmuAddMapLoop_rounds (hsize : map.size.toNat ≤ 2 ^ 48)
    (hmax : m.ctrl.startLevel < map.maxLevel) (n k : Nat) {virt phys mapSize blockSize : BitVec 64}
    (hn : map.size.toNat ≤ mapSize.toNat + n) :
    mmuAddMapLoop map (n + k) m virt phys mapSize blockSize =
      mmuAddMapLoop map n m virt phys mapSize blockSize := by
  induction n generalizing m virt phys mapSize blockSize with
  | zero =>
    have hend : ¬ mapSize < map.size := by
      rw [BitVec.lt_def]
      omega
    rw [Nat.zero_add, mmuAddMapLoop]
    cases k with
    | zero => rfl
    | succ k => rw [mmuAddMapLoop, if_neg hend]
  | succ n ih =>
    rw [Nat.succ_add, mmuAddMapLoop, mmuAddMapLoop]
    by_cases hlt : mapSize < map.size
    · have hone := Replays.mmuAddMapLevels map (g := m.ctrl.granule) rfl virt phys
        (map.maxLevel + 1 - m.ctrl.startLevel) m.ctrl.startLevel blockSize
      rw [if_pos hlt, if_pos hlt]
      by_cases hret : (mmuAddMapLevels map virt phys (map.maxLevel + 1 - m.ctrl.startLevel)
        m.ctrl.startLevel m blockSize).2.2 = 0
      · have hlevels : map.maxLevel + 1 - m.ctrl.startLevel =
            map.maxLevel - m.ctrl.startLevel + 1 := by omega
        have hb := mmuAddMapLevels_blockSize (n := map.maxLevel - m.ctrl.startLevel) (by omega)
          (by omega) (hlevels ▸ hret)
        rw [← hlevels] at hb
        simp only [hret, ne_eq, not_true_eq_false, ↓reduceIte]
        refine ih (by rw [hone.same.startLevel]; exact hmax) ?_
        -- the size mapped does not wrap around
        have hpos : 0 < 2 ^ mmuLevel2shift m.ctrl.granule map.maxLevel := Nat.two_pow_pos _
        have hle : 2 ^ mmuLevel2shift m.ctrl.granule map.maxLevel ≤ 2 ^ 55 :=
          Nat.pow_le_pow_right (by decide) (mmuLevel2shift_le _ _)
        rw [BitVec.lt_def] at hlt
        rw [hb, BitVec.toNat_add, toNat_block]
        omega
      · simp only [hret, ne_eq, not_false_eq_true, ↓reduceIte]
    · rw [if_neg hlt, if_neg hlt]

/-! ## Tables that can be reached -/

/-- An entry above the last level that has the type of a table, and the table it points to. -/
def IsTableEntry (m : Mmu) (level : Nat) (pte : BitVec 64) : Prop :=
  level < mmuLevel3 ∧ m.mem pte &&& pteTypeMask = pteTypeTable

def tableOf (g : MmuGranule) (m : Mmu) (pte : BitVec 64) : BitVec 64 :=
  m.mem pte &&& pteTableAddrMark g

/-- The tables of a level that can be reached from the root, once there is one. -/
inductive Reached (g : MmuGranule) (m : Mmu) (stores : List MmuStore) :
    (level : Nat) → (table : BitVec 64) → Prop
  | root : .clear m.ctrl.tlbAddr ∈ stores → Reached g m stores m.ctrl.startLevel m.ctrl.tlbAddr
  | down {level : Nat} {table : BitVec 64} (i : Fin (maxPteEntries g)) :
    Reached g m stores level table → IsTableEntry m level (pteAddr table i) →
      Reached g m stores (level + 1) (tableOf g m (pteAddr table i))

section
variable {D : PteDirectory g} {stores : List MmuStore} {level level' : Nat} {t t' : BitVec 64}

theorem Forest.reached (F : Forest g m D stores) (h : Reached g m stores level t) :
    ∃ p, level = m.ctrl.startLevel + p.length ∧ D.entry p = .table t := by
  induction h with
  | root _ => exact ⟨[], rfl, F.root⟩
  | down i _ he ih =>
    obtain ⟨p, rfl, hp⟩ := ih
    exact ⟨i :: p, by rw [List.length_cons, Nat.add_assoc], F.table_of_type hp he.1 he.2⟩

theorem Forest.tableEntry (F : Forest g m D stores) (h : Reached g m stores level t)
    {i : Fin (maxPteEntries g)} (he : IsTableEntry m level (pteAddr t i)) :
    ∃ p, D.entry p = .table t ∧ D.entry (i :: p) = .table (tableOf g m (pteAddr t i)) := by
  obtain ⟨p, rfl, hp⟩ := F.reached h
  exact ⟨p, hp, F.table_of_type hp he.1 he.2⟩

/-- Two entries that point to the same table are the same entry. -/
theorem Forest.tableOf_inj (F : Forest g m D stores) (h : Reached g m stores level t)
    (h' : Reached g m stores level' t') {i i' : Fin (maxPteEntries g)}
    (he : IsTableEntry m level (pteAddr t i)) (he' : IsTableEntry m level' (pteAddr t' i'))
    (heq : tableOf g m (pteAddr t i) = tableOf g m (pteAddr t' i')) : t = t' ∧ i = i' := by
  obtain ⟨p, hp, hi⟩ := F.tableEntry h he
  obtain ⟨p', hp', hi'⟩ := F.tableEntry h' he'
  rw [heq] at hi
  obtain ⟨rfl, rfl⟩ := List.cons.inj (F.holds.unique _ _ _ hi hi')
  rw [hp] at hp'
  exact ⟨Entry.table.inj hp', rfl⟩

end

/-- The forest of the root table alone, also at address 0. -/
theorem Forest.new (hg : m.ctrl.granule = g) (haligned : m.ctrl.tlbAddr.toNat % tableBytes g = 0)
    (hend : m.ctrl.tlbAddr.toNat + m.ctrl.tlbSize.toNat < 2 ^ 48)
    (hstart : m.ctrl.tlbFillptr = m.ctrl.tlbAddr) (hroom : ¬ Full (withTable g m)) :
    Forest g (withTable g m) (Directory.new m.ctrl.tlbAddr) [.clear m.ctrl.tlbFillptr] := by
  have hsmall : tableBytes g ≤ 65536 := by cases g <;> decide
  have hlen : tableBytes g ≤ m.ctrl.tlbSize.toNat := by
    have h := BitVec.le_def.mp (BitVec.not_lt.mp hroom)
    simp only [withTable, hstart, BitVec.toNat_sub, BitVec.toNat_add, BitVec.toNat_ofNat] at h
    omega
  have hempty : ∀ i : Fin (maxPteEntries g),
      (withTable g m).mem (pteAddr m.ctrl.tlbAddr i) = 0 := fun i => by
    rw [← hstart]
    exact (mmuClearTable_apply _ _ _ _).trans (if_pos ⟨i, i.isLt, rfl⟩)
  refine ⟨rfl, Holds.new ⟨haligned, by omega⟩ hempty, fun p w hp => ?_, fun p t hp => ?_,
    fun e he => ?_⟩
  · cases p with
    | nil => cases hp
    | cons d p => cases hp
  · cases p with
    | nil =>
      obtain rfl := Entry.table.inj hp
      rw [hstart]
      exact List.mem_singleton_self _
    | cons d p => cases hp
  · obtain rfl := List.mem_singleton.mp he
    rw [hstart]
    exact ⟨le_rfl, Nat.add_le_add_left hlen _⟩

theorem mmuStartLevel_le (g : MmuGranule) (vaBits : Nat) : mmuStartLevel g vaBits ≤ mmuLevel3 := by
  unfold mmuStartLevel
  cases g
  · dsimp only
    split <;> decide
  · dsimp only
    split <;> decide

section setup
variable {memMap : List MmuMmapRegion} {tlbAddr tlbLen : BitVec 64}

/-- Nothing is stored, or the stores end in a forest. -/
theorem mmuSetupPgtables_forest (m : Mmu) (memMapInfo : List MmuMmapRegion)
    (haligned : tlbAddr.toNat % tableBytes g = 0)
    (hend : tlbAddr.toNat + tlbLen.toNat < 2 ^ 48)
    (hregions : ∀ map ∈ memMap, TypeClear map.phys ∧ TypeClear map.attrs) :
    SameArea (mmuSetupCtrl m memMapInfo tlbAddr tlbLen g)
      (mmuSetupPgtables m memMapInfo memMap tlbAddr tlbLen g).1 ∧
    (mmuSetupPgtablesStores m memMapInfo memMap tlbAddr tlbLen g = [] ∨
      ∃ D, Forest g (mmuSetupPgtables m memMapInfo memMap tlbAddr tlbLen g).1 D
        (mmuSetupPgtablesStores m memMapInfo memMap tlbAddr tlbLen g)) := by
  obtain ⟨c, hc⟩ : ∃ c, mmuSetupCtrl m memMapInfo tlbAddr tlbLen g = c := ⟨_, rfl⟩
  rw [mmuSetupPgtables, mmuSetupPgtablesStores, hc]
  by_cases h64 : g = .g64K ∧ ¬ (mmuGetTcr g memMapInfo).2 ≤ 36
  · rw [if_pos h64, if_pos h64]
    exact ⟨SameArea.refl _, Or.inl rfl⟩
  · have hg : c.ctrl.granule = g := by rw [← hc]; rfl
    have haddr : c.ctrl.tlbAddr = tlbAddr := by rw [← hc]; rfl
    have hlen : c.ctrl.tlbSize = tlbLen := by rw [← hc]; rfl
    have hfill : c.ctrl.tlbFillptr = c.ctrl.tlbAddr := by rw [← hc]; rfl
    have hs : c.ctrl.startLevel ≤ mmuLevel3 := by
      rw [← hc]
      exact mmuStartLevel_le _ _
    rw [← haddr] at haligned hend
    rw [← hlen] at hend
    rw [if_neg h64, if_neg h64]
    rcases mmuCreateTable_stores hg with ⟨⟨fillptr, hnew⟩, hstores⟩ | ⟨hroom, hnew, hstores⟩
    · simp only [hnew, hstores, ↓reduceIte, List.append_nil]
      exact ⟨rfl, Or.inl trivial⟩
    · have F := Forest.new hg haligned hend hfill hroom
      by_cases hnull : c.ctrl.tlbFillptr = 0
      · -- a table at address 0 is taken for none
        simp only [hnew, hstores, hnull, ↓reduceIte, List.append_nil]
        exact ⟨SameArea.withTable, Or.inr ⟨_, hnull ▸ F⟩⟩
      · have A : Area g c := ⟨hg, Nat.le_of_lt hend, fun h => hnull (hfill.trans h),
          by rw [hfill]; exact haligned, hfill ▸ le_rfl, by rw [hfill]; exact Nat.le_add_right _ _⟩
        have hsame := (Replays.mmuAddMaps memMap (m := withTable g c) hg).same
        obtain ⟨D, F', -⟩ := F.mmuAddMaps (A.root hfill hroom) hs hregions
        simp only [hnew, hstores, hnull, ↓reduceIte]
        split
        · exact ⟨SameArea.withTable.trans hsame, Or.inr ⟨D, F'⟩⟩
        · exact ⟨SameArea.withTable.trans hsame,
            Or.inr ⟨D, F'.root, F'.holds, F'.block, F'.cleared, F'.inside⟩⟩

end setup

/-- **Containment.** What `mmu_setup_pgtables` does, whether it succeeds or not, is to store inside
the area; the entries above the last level that can be reached and point to tables point to tables
that it has cleared there, and no two to the same. -/
theorem mmuSetupPgtables_contained (m : Mmu) (memMapInfo memMap : List MmuMmapRegion)
    (tlbAddr tlbLen : BitVec 64) (g : MmuGranule) (haligned : tlbAddr.toNat % tableBytes g = 0)
    (hend : tlbAddr.toNat + tlbLen.toNat < 2 ^ 48)
    (hregions : ∀ map ∈ memMap, TypeClear map.phys ∧ TypeClear map.attrs) :
    let r := (mmuSetupPgtables m memMapInfo memMap tlbAddr tlbLen g).1
    let stores := mmuSetupPgtablesStores m memMapInfo memMap tlbAddr tlbLen g
    r.mem = replay g stores m.mem ∧ (∀ e ∈ stores, e.Inside g tlbAddr tlbLen) ∧
    (∀ level t (i : Fin (maxPteEntries g)), Reached g r stores level t →
      IsTableEntry r level (pteAddr t i) → .clear (tableOf g r (pteAddr t i)) ∈ stores ∧
        (MmuStore.clear (tableOf g r (pteAddr t i))).Inside g tlbAddr tlbLen) ∧
    ∀ level t (i : Fin (maxPteEntries g)) level' t' (i' : Fin (maxPteEntries g)),
      Reached g r stores level t → IsTableEntry r level (pteAddr t i) →
      Reached g r stores level' t' → IsTableEntry r level' (pteAddr t' i') →
      tableOf g r (pteAddr t i) = tableOf g r (pteAddr t' i') → t = t' ∧ i = i' := by
  obtain ⟨hsame, hforest⟩ := mmuSetupPgtables_forest m memMapInfo haligned hend hregions
  have hreplay := mmuSetupPgtables_replay m memMapInfo memMap tlbAddr tlbLen g
  have haddr :
      (mmuSetupPgtables m memMapInfo memMap tlbAddr tlbLen g).1.ctrl.tlbAddr = tlbAddr := by
    rw [hsame]
    rfl
  have hlen :
      (mmuSetupPgtables m memMapInfo memMap tlbAddr tlbLen g).1.ctrl.tlbSize = tlbLen := by
    rw [hsame]
    rfl
  intro r stores
  rcases hforest with hnone | ⟨D, F⟩
  · have hreached : ∀ level t, ¬ Reached g r stores level t := fun level t h => by
      induction h with
      | root h =>
        rw [show stores = [] from hnone] at h
        cases h
      | down _ _ _ ih => exact ih
    refine ⟨hreplay, fun e he => ?_, fun level t i h => absurd h (hreached _ _),
      fun level t i _ _ _ h => absurd h (hreached _ _)⟩
    rw [show stores = [] from hnone] at he
    cases he
  · have hinside := F.inside
    rw [haddr, hlen] at hinside
    refine ⟨hreplay, hinside, fun level t i h he => ?_,
      fun level t i level' t' i' h he h' he' heq => F.tableOf_inj h h' he he' heq⟩
    obtain ⟨p, -, hi⟩ := F.tableEntry h he
    exact ⟨F.cleared _ _ hi, hinside _ (F.cleared _ _ hi)⟩

/-- Regions that are neither aligned nor apart; the area is full before the last of them. -/
def overlappingRegions : List MmuMmapRegion :=
  [{ virt := 0x40000123, phys := 0x40000000, size := 0x1001, maxLevel := 2, attrs := 0x400 },
    { virt := 0x7FFFF004, phys := 0x80000004, size := 0x2000, maxLevel := 3, attrs := 0x404 },
    { virt := 0x40000000, phys := 0, size := 8, maxLevel := 7, attrs := 0 }]

theorem mmuSetupPgtables_contained_overlapping :
    let stores := mmuSetupPgtablesStores mmuReset gMemMapInfo overlappingRegions 0x1000 0x4000 .g4K
    stores = [.clear 0x1000, .clear 0x2000, .entry 0x1008 0x2003, .entry 0x2000 0x40000401,
      .clear 0x3000, .entry 0x2FF8 0x3003, .entry 0x3FF8 0x80000407, .clear 0x4000,
      .entry 0x1010 0x4003] ∧
    ∀ e ∈ stores, e.Inside .g4K 0x1000 0x4000 := by
  intro stores
  refine ⟨by decide +kernel, ?_⟩
  exact (mmuSetupPgtables_contained mmuReset gMemMapInfo overlappingRegions 0x1000 0x4000 .g4K
    (by decide) (by decide) (by unfold TypeClear; decide)).2.1

end MiniEuler
