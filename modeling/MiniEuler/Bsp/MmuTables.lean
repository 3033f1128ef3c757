import MiniEuler.Library.RadixTable
import MiniEuler.Bsp.Mmu

/-! The tables in the page-table area: the memory holds a directory whose paths are the indices of
a virtual address, and each function of the builder changes that directory by one entry. -/

namespace MiniEuler
open Library

variable {g : MmuGranule}

/-! ## Addresses and indices -/

def tableBytes (g : MmuGranule) : Nat := 8 * maxPteEntries g

/-- The index of an address at a level. -/
def mmuDigit (g : MmuGranule) (addr : BitVec 64) (level : Nat) : Fin (maxPteEntries g) :=
  ⟨addr.toNat / 2 ^ mmuLevel2shift g level % maxPteEntries g,
    Nat.mod_lt _ (by cases g <;> decide)⟩

theorem toNat_mmuIndex (addr : BitVec 64) (level : Nat) :
    (mmuIndex g addr level).toNat = mmuDigit g addr level := by
  cases g with
  | g4K =>
    have h := Nat.and_two_pow_sub_one_eq_mod (addr.toNat / 2 ^ mmuLevel2shift .g4K level) 9
    simpa [mmuIndex, mmuDigit, maxPteEntries, Nat.shiftRight_eq_div_pow] using h
  | g64K =>
    have h := Nat.and_two_pow_sub_one_eq_mod (addr.toNat / 2 ^ mmuLevel2shift .g64K level) 13
    simpa [mmuIndex, mmuDigit, maxPteEntries, Nat.shiftRight_eq_div_pow] using h

/-- The address of an entry of a table. -/
def pteAddr (table : BitVec 64) (i : Fin (maxPteEntries g)) : BitVec 64 :=
  table + 8 * BitVec.ofNat 64 i

/-- Table addresses: aligned, and inside the output addresses of a descriptor. -/
def TableAddr (g : MmuGranule) (table : BitVec 64) : Prop :=
  table.toNat % tableBytes g = 0 ∧ table.toNat + tableBytes g ≤ 2 ^ 48

theorem toNat_pteAddr {table : BitVec 64} (h : table.toNat + tableBytes g ≤ 2 ^ 48)
    (i : Fin (maxPteEntries g)) : (pteAddr table i).toNat = table.toNat + 8 * i := by
  have hi := i.isLt
  unfold tableBytes at h
  have hoff : (8 * BitVec.ofNat 64 i).toNat = 8 * i := by
    rw [BitVec.toNat_mul, BitVec.toNat_ofNat, show (8 : BitVec 64).toNat = 8 from rfl]
    omega
  rw [pteAddr, BitVec.toNat_add, hoff]
  omega

theorem pteAddr_inj {t t' : BitVec 64} {i i' : Fin (maxPteEntries g)} (h : TableAddr g t)
    (h' : TableAddr g t') (heq : pteAddr t i = pteAddr t' i') : t = t' ∧ i = i' := by
  have hnat := congrArg BitVec.toNat heq
  rw [toNat_pteAddr h.2, toNat_pteAddr h'.2] at hnat
  obtain ⟨ha, -⟩ := h
  obtain ⟨ha', -⟩ := h'
  have hi := i.isLt
  have hi' := i'.isLt
  have hboth : t.toNat = t'.toNat ∧ (i : Nat) = i' := by
    cases g <;> simp only [tableBytes, maxPteEntries] at * <;> omega
  exact ⟨BitVec.eq_of_toNat_eq hboth.1, Fin.ext hboth.2⟩

/-! ## Descriptors -/

theorem getLsbD_of_mod {x : BitVec 64} {n j : Nat} (h : x.toNat % 2 ^ n = 0) (hj : j < n) :
    x.getLsbD j = false := by
  have hbit := Nat.testBit_mod_two_pow x.toNat n j
  rw [h] at hbit
  simpa [hj, BitVec.getLsbD] using hbit.symm

theorem getLsbD_of_lt {x : BitVec 64} {n j : Nat} (h : x.toNat < 2 ^ n) (hj : n ≤ j) :
    x.getLsbD j = false :=
  Nat.testBit_lt_two_pow (h.trans_le (Nat.pow_le_pow_right (by decide) hj))

/-- What the builder writes into an entry. -/
def encodePte : Entry (BitVec 64) (BitVec 64) → BitVec 64
  | .fault => 0
  | .table t => pteTypeTable ||| t
  | .leaf w => w

/-- The tables of the area, as they stand in the memory. -/
def pteLayout (g : MmuGranule) :
    TableLayout (Fin (maxPteEntries g)) (BitVec 64) (BitVec 64) (BitVec 64) (BitVec 64) where
  slot := pteAddr
  enc := encodePte
  Proper := TableAddr g
  slot_inj := fun _ _ _ _ h h' => pteAddr_inj h h'

theorem tableBytes_eq (g : MmuGranule) : tableBytes g = 2 ^ mmuLevel2shift g mmuLevel3 := by
  cases g <;> rfl

theorem getLsbD_pteTableAddrMark {j : Nat} (hj : j < 64) :
    (pteTableAddrMark g).getLsbD j =
      (decide (mmuLevel2shift g mmuLevel3 ≤ j) && decide (j < 48)) := by
  have h : ∀ j : Fin 64, (pteTableAddrMark g).getLsbD j =
      (decide (mmuLevel2shift g mmuLevel3 ≤ j) && decide ((j : Nat) < 48)) := by
    cases g <;> decide
  exact h ⟨j, hj⟩

/-- The address comes back from a table descriptor. -/
theorem addr_of_table {t : BitVec 64} (h : TableAddr g t) :
    (pteTypeTable ||| t) &&& pteTableAddrMark g = t := by
  obtain ⟨ha, hlt⟩ := h
  rw [tableBytes_eq] at ha
  have hpos : 0 < tableBytes g := by cases g <;> decide
  have hshift : 2 ≤ mmuLevel2shift g mmuLevel3 := by cases g <;> decide
  apply BitVec.eq_of_getLsbD_eq
  intro j hj
  rw [BitVec.getLsbD_and, BitVec.getLsbD_or, getLsbD_pteTableAddrMark hj]
  by_cases hlow : j < mmuLevel2shift g mmuLevel3
  · rw [getLsbD_of_mod ha hlow]
    simp [Nat.not_le.mpr hlow]
  · by_cases hhigh : 48 ≤ j
    · rw [getLsbD_of_lt (x := t) (n := 48) (by omega) hhigh]
      simp [Nat.not_lt.mpr hhigh]
    · have htype : pteTypeTable.getLsbD j = false :=
        getLsbD_of_lt (n := 2) (by decide) (by omega)
      simp [htype, Nat.not_lt.mp hlow, Nat.not_le.mp hhigh]

theorem type_of_table (t : BitVec 64) : (pteTypeTable ||| t) &&& pteTypeMask = pteTypeTable := by
  apply BitVec.eq_of_getLsbD_eq
  intro j hj
  rw [BitVec.getLsbD_and, BitVec.getLsbD_or]
  change ((pteTypeTable.getLsbD j || t.getLsbD j) && pteTypeTable.getLsbD j) = _
  cases pteTypeTable.getLsbD j <;> simp

/-! ## The page-table area -/

/-- The area and its used part. -/
structure Area (g : MmuGranule) (m : Mmu) : Prop where
  granule : m.ctrl.granule = g
  bound : m.ctrl.tlbAddr.toNat + m.ctrl.tlbSize.toNat ≤ 2 ^ 48
  nonnull : m.ctrl.tlbAddr ≠ 0
  aligned : m.ctrl.tlbFillptr.toNat % tableBytes g = 0
  low : m.ctrl.tlbAddr.toNat ≤ m.ctrl.tlbFillptr.toNat
  high : m.ctrl.tlbFillptr.toNat ≤ m.ctrl.tlbAddr.toNat + m.ctrl.tlbSize.toNat

/-- The area has no room for the last table that was asked for. -/
def Full (m : Mmu) : Prop := m.ctrl.tlbFillptr - m.ctrl.tlbAddr > m.ctrl.tlbSize

theorem mmuClearTable_apply (mem : BitVec 64 → BitVec 64) (table a : BitVec 64) (n : Nat) :
    mmuClearTable mem table n a =
      if ∃ i < n, a = table + 8 * BitVec.ofNat 64 i then 0 else mem a := by
  induction n with
  | zero => simp [mmuClearTable]
  | succ n ih =>
    unfold mmuClearTable at ih ⊢
    rw [List.range_succ, List.foldl_append, List.foldl_cons, List.foldl_nil]
    by_cases hn : a = table + 8 * BitVec.ofNat 64 n
    · rw [hn, Function.update_self, if_pos ⟨n, by omega, rfl⟩]
    · rw [Function.update_of_ne hn, ih]
      congr 1
      refine propext ⟨?_, ?_⟩
      · rintro ⟨i, hi, h⟩
        exact ⟨i, by omega, h⟩
      · rintro ⟨i, hi, h⟩
        refine ⟨i, ?_, h⟩
        rcases Nat.lt_succ_iff_lt_or_eq.mp hi with h' | rfl
        · exact h'
        · exact absurd h hn

/-- The builder with a new, empty table at the end of the used part. -/
def withTable (g : MmuGranule) (m : Mmu) : Mmu :=
  { m with
    ctrl := { m.ctrl with tlbFillptr := m.ctrl.tlbFillptr + BitVec.ofNat 64 (tableBytes g) }
    mem := mmuClearTable m.mem m.ctrl.tlbFillptr (maxPteEntries g) }

theorem mmuCreateTable_cases {m : Mmu} (hg : m.ctrl.granule = g) :
    ((mmuCreateTable m).2 = 0 ∧ Full (mmuCreateTable m).1) ∨
    (¬ Full (withTable g m) ∧ mmuCreateTable m = (withTable g m, m.ctrl.tlbFillptr)) := by
  subst hg
  have hbytes : maxPteEntries m.ctrl.granule * 8 = tableBytes m.ctrl.granule := Nat.mul_comm _ _
  unfold mmuCreateTable
  simp only [hbytes]
  by_cases hfull : m.ctrl.tlbFillptr + BitVec.ofNat 64 (tableBytes m.ctrl.granule) -
      m.ctrl.tlbAddr > m.ctrl.tlbSize
  · left
    rw [if_pos hfull]
    exact ⟨rfl, hfull⟩
  · right
    rw [if_neg hfull]
    exact ⟨hfull, rfl⟩

namespace Area

variable {m : Mmu}

/-- What there is to know of a new table. -/
structure Fresh (g : MmuGranule) (m : Mmu) : Prop where
  area : Area g (withTable g m)
  addr : TableAddr g m.ctrl.tlbFillptr
  nonnull : m.ctrl.tlbFillptr ≠ 0
  fillptr : (withTable g m).ctrl.tlbFillptr.toNat = m.ctrl.tlbFillptr.toNat + tableBytes g
  empty : ∀ i : Fin (maxPteEntries g), (withTable g m).mem (pteAddr m.ctrl.tlbFillptr i) = 0
  frame : ∀ a, a.toNat < m.ctrl.tlbFillptr.toNat → (withTable g m).mem a = m.mem a

theorem fresh (A : Area g m) (hroom : ¬ Full (withTable g m)) : Fresh g m := by
  have hsmall : tableBytes g ≤ 65536 := by cases g <;> decide
  have hpos : 0 < tableBytes g := by cases g <;> decide
  have hnull : 0 < m.ctrl.tlbAddr.toNat :=
    Nat.pos_of_ne_zero fun h => A.nonnull (BitVec.eq_of_toNat_eq h)
  obtain ⟨hg, hbound, hne, hal, hlow, hhigh⟩ := A
  have hfill : (withTable g m).ctrl.tlbFillptr.toNat =
      m.ctrl.tlbFillptr.toNat + tableBytes g := by
    simp only [withTable, BitVec.toNat_add, BitVec.toNat_ofNat]
    omega
  have hend : m.ctrl.tlbFillptr.toNat + tableBytes g ≤
      m.ctrl.tlbAddr.toNat + m.ctrl.tlbSize.toNat := by
    have h : ((withTable g m).ctrl.tlbFillptr - m.ctrl.tlbAddr).toNat ≤ m.ctrl.tlbSize.toNat :=
      BitVec.le_def.mp (BitVec.not_lt.mp hroom)
    rw [BitVec.toNat_sub_of_le (BitVec.le_def.mpr (by omega)), hfill] at h
    omega
  refine ⟨⟨hg, hbound, hne, ?_, ?_, ?_⟩, ⟨hal, by omega⟩, ?_, hfill, fun i => ?_, fun a ha => ?_⟩
  · rw [hfill, Nat.add_mod_right]
    exact hal
  · change m.ctrl.tlbAddr.toNat ≤ _
    omega
  · change _ ≤ m.ctrl.tlbAddr.toNat + m.ctrl.tlbSize.toNat
    omega
  · intro h
    rw [h] at hlow
    exact absurd hlow (Nat.not_le.mpr hnull)
  · exact (mmuClearTable_apply _ _ _ _).trans (if_pos ⟨i, i.isLt, rfl⟩)
  · refine (mmuClearTable_apply _ _ _ _).trans (if_neg ?_)
    rintro ⟨i, hi, rfl⟩
    have h : (m.ctrl.tlbFillptr + 8 * BitVec.ofNat 64 i).toNat = m.ctrl.tlbFillptr.toNat + 8 * i :=
      toNat_pteAddr (g := g) (by omega) ⟨i, hi⟩
    rw [h] at ha
    omega

end Area

/-! ## The state of the builder -/

abbrev PteDirectory (g : MmuGranule) :=
  Directory (Fin (maxPteEntries g)) (BitVec 64) (BitVec 64)

/-- The used part of the area holds the tables of the directory. -/
structure Built (g : MmuGranule) (m : Mmu) (D : PteDirectory g) : Prop where
  area : Area g m
  root : D.entry [] = .table m.ctrl.tlbAddr
  below : ∀ p t, D.entry p = .table t →
    t.toNat + tableBytes g ≤ m.ctrl.tlbFillptr.toNat
  holds : Holds (pteLayout g) m.mem D

/-- The root table alone. -/
theorem Area.root {m : Mmu} (A : Area g m) (hstart : m.ctrl.tlbFillptr = m.ctrl.tlbAddr)
    (hroom : ¬ Full (withTable g m)) :
    Built g (withTable g m) (Directory.new m.ctrl.tlbAddr) := by
  have F := A.fresh hroom
  have hempty := F.empty
  have haddr := F.addr
  have hfill := F.fillptr
  rw [hstart] at hempty haddr hfill
  refine ⟨F.area, rfl, fun p t hp => ?_, Holds.new haddr hempty⟩
  cases p with
  | nil =>
    obtain rfl := Entry.table.inj hp
    exact hfill.ge
  | cons d p => cases hp

namespace Built

variable {m : Mmu} {D : PteDirectory g} {p : List (Fin (maxPteEntries g))}
  {d : Fin (maxPteEntries g)} {t : BitVec 64}

/-- The read of an entry. -/
theorem read (B : Built g m D) (hp : D.entry p = .table t) :
    m.mem (pteAddr t d) = encodePte (D.entry (d :: p)) :=
  B.holds.read p t d hp

/-- The write of a leaf. -/
theorem writeLeaf (B : Built g m D) (hp : D.entry p = .table t) (w : BitVec 64) :
    Built g { m with mem := Function.update m.mem (pteAddr t d) w }
      (D.set d p (.leaf w) ⟨t, hp⟩) := by
  refine ⟨⟨B.area.granule, B.area.bound, B.area.nonnull, B.area.aligned, B.area.low, B.area.high⟩,
    ?_, fun q s hq => ?_, ?_⟩
  · rw [Directory.entry_set_other (by simp)]
    exact B.root
  · rcases Directory.table_of_entry_set hq with ⟨-, h⟩ | ⟨-, -, hqs⟩
    · cases h
    · exact B.below q s hqs
  · exact B.holds.write (e := .leaf w) hp fun t' h => by cases h

/-- A new table is made and linked in. -/
theorem linkTable (B : Built g m D) (hp : D.entry p = .table t) (hroom : ¬ Full (withTable g m)) :
    Built g (mmuSetPteTable (withTable g m) (pteAddr t d) m.ctrl.tlbFillptr)
      (D.set d p (.table m.ctrl.tlbFillptr) ⟨t, hp⟩) := by
  have F := B.area.fresh hroom
  have hpos : 0 < tableBytes g := by cases g <;> decide
  have hunused : ∀ q, D.entry q ≠ .table m.ctrl.tlbFillptr := fun q hq => by
    have := B.below q _ hq
    omega
  have H : Holds (pteLayout g) (withTable g m).mem D := by
    refine B.holds.frame fun q s d' hq => F.frame _ ?_
    have hs := B.below q s hq
    have hd := d'.isLt
    rw [show (pteLayout g).slot s d' = pteAddr s d' from rfl,
      toNat_pteAddr (B.holds.proper q s hq).2]
    unfold tableBytes at hs
    omega
  refine ⟨⟨F.area.granule, F.area.bound, F.area.nonnull, F.area.aligned, F.area.low, F.area.high⟩,
    ?_, fun q s hq => ?_, ?_⟩
  · rw [Directory.entry_set_other (by simp)]
    exact B.root
  · change s.toNat + tableBytes g ≤ (withTable g m).ctrl.tlbFillptr.toNat
    rw [F.fillptr]
    rcases Directory.table_of_entry_set hq with ⟨-, h⟩ | ⟨-, -, hqs⟩
    · obtain rfl := Entry.table.inj h
      exact le_rfl
    · have := B.below q s hqs
      omega
  · refine H.write (e := .table m.ctrl.tlbFillptr) hp fun t' h => ?_
    obtain rfl := Entry.table.inj h
    exact ⟨F.addr, hunused, F.empty⟩

end Built

/-! ## The room that the tables take -/

/-- The tables of the directory stand one after the other from the start of the area on. -/
def Packed (g : MmuGranule) (m : Mmu) (D : PteDirectory g) : Prop :=
  ∃ ps, TablesAt D ps ∧
    m.ctrl.tlbFillptr.toNat = m.ctrl.tlbAddr.toNat + ps.card * tableBytes g

/-- The area has no room for the tables that the leaves at `units` need. -/
def Short (g : MmuGranule) (m : Mmu)
    (units : List (List (Fin (maxPteEntries g)) × BitVec 64)) : Prop :=
  m.ctrl.tlbSize.toNat < (tablePaths units).card * tableBytes g

section room
variable {m : Mmu} {D : PteDirectory g} {p : List (Fin (maxPteEntries g))}
  {d : Fin (maxPteEntries g)}

/-- Why a table cannot be made. -/
theorem Area.no_room (A : Area g m) (hfull : Full (mmuCreateTable m).1) :
    m.ctrl.tlbSize.toNat + m.ctrl.tlbAddr.toNat < m.ctrl.tlbFillptr.toNat + tableBytes g := by
  obtain ⟨rfl, hbound, -, -, hlow, hhigh⟩ := A
  have hsmall : tableBytes m.ctrl.granule ≤ 65536 := by cases m.ctrl.granule <;> decide
  have hbytes : maxPteEntries m.ctrl.granule * 8 = tableBytes m.ctrl.granule := Nat.mul_comm _ _
  have hctrl : (mmuCreateTable m).1.ctrl = { m.ctrl with
      tlbFillptr := m.ctrl.tlbFillptr + BitVec.ofNat 64 (tableBytes m.ctrl.granule) } := by
    rw [mmuCreateTable, hbytes]
    dsimp only
    split <;> rfl
  have hfill : (m.ctrl.tlbFillptr + BitVec.ofNat 64 (tableBytes m.ctrl.granule)).toNat =
      m.ctrl.tlbFillptr.toNat + tableBytes m.ctrl.granule := by
    rw [BitVec.toNat_add, BitVec.toNat_ofNat]
    omega
  have hlt : m.ctrl.tlbSize.toNat < (m.ctrl.tlbFillptr +
      BitVec.ofNat 64 (tableBytes m.ctrl.granule) - m.ctrl.tlbAddr).toNat := by
    rw [Full, hctrl] at hfull
    exact BitVec.lt_def.mp hfull
  rw [BitVec.toNat_sub_of_le (BitVec.le_def.mpr (by omega)), hfill] at hlt
  omega

theorem Area.packed_root (A : Area g m) (hstart : m.ctrl.tlbFillptr = m.ctrl.tlbAddr)
    (hroom : ¬ Full (withTable g m)) :
    Packed g (withTable g m) (Directory.new m.ctrl.tlbAddr) := by
  refine ⟨{[]}, TablesAt.new _, (A.fresh hroom).fillptr.trans ?_⟩
  rw [hstart, Finset.card_singleton, Nat.one_mul]
  rfl

theorem Packed.linkTable (P : Packed g m D) (B : Built g m D) (h : ∃ t, D.entry p = .table t)
    (hf : D.entry (d :: p) = .fault) (hroom : ¬ Full (withTable g m)) (pte : BitVec 64) :
    Packed g (mmuSetPteTable (withTable g m) pte m.ctrl.tlbFillptr)
      (D.set d p (.table m.ctrl.tlbFillptr) h) := by
  obtain ⟨ps, T, hfill⟩ := P
  obtain ⟨hnew, T'⟩ := T.table hf h
  refine ⟨_, T', (B.area.fresh hroom).fillptr.trans ?_⟩
  rw [hfill, Finset.card_insert_of_notMem hnew, Nat.succ_mul, Nat.add_assoc]
  rfl

theorem Packed.writeLeaf (P : Packed g m D) (h : ∃ t, D.entry p = .table t)
    (hf : D.entry (d :: p) = .fault) (pte w : BitVec 64) :
    Packed g { m with mem := Function.update m.mem pte w } (D.set d p (.leaf w) h) := by
  obtain ⟨ps, T, hfill⟩ := P
  exact ⟨ps, T.leaf hf h, hfill⟩

/-- On the way to a leaf the area may turn out too small. -/
theorem Packed.short (P : Packed g m D) (A : Area g m)
    {done : List (List (Fin (maxPteEntries g)) × BitVec 64)}
    {way : List (Fin (maxPteEntries g))} (F : Filled D done way) (hway : d :: p <:+ way)
    (h : ∃ t, D.entry p = .table t) (hf : D.entry (d :: p) = .fault)
    (hfull : Full (mmuCreateTable m).1) (e : Fin (maxPteEntries g)) (w : BitVec 64) :
    Short g m (done ++ [(e :: way, w)]) := by
  obtain ⟨ps, T, hfill⟩ := P
  have hroom := A.no_room hfull
  have hsub := Finset.card_le_card (F.insert_subset (d := e) (w := w) T hway)
  rw [Finset.card_insert_of_notMem (T.table hf h (t := 0)).1] at hsub
  have hmul := Nat.mul_le_mul_right (tableBytes g) hsub
  rw [Nat.succ_mul] at hmul
  unfold Short
  omega

end room

end MiniEuler
