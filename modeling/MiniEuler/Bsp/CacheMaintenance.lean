import MiniEuler.Bsp.CacheLoops

/-! `os_asm_dcache_level`, `os_asm_dcache_all` and the entries of the data cache: from the call to
the return, with the whole trace. -/

namespace MiniEuler
open Library

/-! ## What the processor says of its caches -/

namespace CacheId

/-- The level of coherence. -/
def loc (H : CacheId) : Nat := (H.clidr >>> 24 &&& 7).toNat

/-- The kind of cache at a level; data is held there from 2 on. -/
def ctype (H : CacheId) (level : Nat) : BitVec 64 := H.clidr >>> (3 * level) &&& 7

def ccsidrAt (H : CacheId) (level : Nat) : BitVec 64 := H.ccsidr (BitVec.ofNat 64 (2 * level))

/-- The logarithm of the length of a line. -/
def lineBits (H : CacheId) (level : Nat) : Nat := ((H.ccsidrAt level &&& 7) + 4).toNat

def ways (H : CacheId) (level : Nat) : Nat := (0x3ff &&& H.ccsidrAt level >>> 3).toNat + 1

def sets (H : CacheId) (level : Nat) : Nat := (0x7fff &&& H.ccsidrAt level >>> 13).toNat + 1

/-- What `os_asm_dcache_level` gives to `dc`. -/
def operand (H : CacheId) (level set way : Nat) : BitVec 64 :=
  BitVec.ofNat 64 (2 * level) |||
    BitVec.ofNat 64 way <<< ((0x3ff &&& H.ccsidrAt level >>> 3).setWidth 32).clz.toNat |||
    BitVec.ofNat 64 set <<< H.lineBits level

theorem loc_lt (H : CacheId) : H.loc < 8 := by
  rw [loc, BitVec.toNat_and]
  exact Nat.lt_succ_of_le Nat.and_le_right

theorem ways_le (H : CacheId) (level : Nat) : H.ways level ≤ 2 ^ 10 := by
  rw [ways, BitVec.toNat_and]
  exact Nat.succ_le_succ Nat.and_le_left

theorem sets_le (H : CacheId) (level : Nat) : H.sets level ≤ 2 ^ 15 := by
  rw [sets, BitVec.toNat_and]
  exact Nat.succ_le_succ Nat.and_le_left

theorem lineBits_eq (H : CacheId) (level : Nat) :
    H.lineBits level = (H.ccsidrAt level).toNat % 8 + 4 := by
  have h : (H.ccsidrAt level &&& 7).toNat = (H.ccsidrAt level).toNat % 8 := by
    rw [BitVec.toNat_and]
    exact Nat.and_two_pow_sub_one_eq_mod _ 3
  rw [lineBits, BitVec.toNat_add, h]
  exact Nat.mod_eq_of_lt (by
    have := Nat.mod_lt (H.ccsidrAt level).toNat (show 8 > 0 by decide)
    change _ + 4 < _
    omega)

end CacheId

/-! ## A level -/

/-- The trace of `os_asm_dcache_level`. -/
def levelEvents (H : CacheId) (mode : BitVec 64) (level : Nat) : List CacheEvent :=
  .isb :: (List.range (H.sets level)).reverse.flatMap fun set =>
    (List.range (H.ways level)).reverse.map fun way => .dc (dcOpOf mode) (H.operand level set way)

section
variable {H : CacheId} {b : BitVec 64} {s₀ : CacheCore}

theorem leads_level {level : Nat} (h0 : s₀.x 0 = BitVec.ofNat 64 level) :
    CacheLeads H b (· = s₀) 0 (s₀.x 30)
      (Since [2, 3, 4, 5, 6, 7, 9, 12] (levelEvents H (s₀.x 1) level) s₀) := by
  let cc := H.ccsidrAt level
  have hsel : s₀.x 0 <<< 1 = BitVec.ofNat 64 (2 * level) := by
    rw [h0]
    apply BitVec.eq_of_toNat_eq
    simp [Nat.shiftLeft_eq]
    omega
  have hblock : CacheLeads H b (· = s₀) 0 (codeAddr b 11) fun s =>
      Since [2, 3, 4, 5, 6, 12] [.isb] s₀ s ∧ s.x 12 = BitVec.ofNat 64 (2 * level) ∧
        s.x 2 = (cc &&& 7) + 4 ∧ s.x 3 = 0x3ff &&& cc >>> 3 ∧
        s.x 5 = ((0x3ff &&& cc >>> 3).setWidth 32).clz.setWidth 64 ∧
        s.x 4 = 0x7fff &&& cc >>> 13 := by
    refine leads_block cacheAsm_length [.lslImm 12 0 1, .msrCsselr 12, .isb, .mrsCcsidr 6,
      .andImm 2 6 7, .addImm 2 2 4, .movImm 3 0x3ff, .andLsr 3 3 6 3, .clzW 5 3,
      .movImm 4 0x7fff, .andLsr 4 4 6 13] rfl ?_
    rintro _ rfl
    refine ⟨⟨fun r hr => ?_, ?_⟩, ?_, ?_, ?_, ?_, ?_⟩
    · simp only [List.mem_cons, List.not_mem_nil, or_false, not_or] at hr
      simp [cacheIsa, CacheInstr.exec, CacheCore.emit, hr]
    all_goals simp [cacheIsa, CacheInstr.exec, CacheCore.emit, hsel, cc, CacheId.ccsidrAt]
  refine (hblock.seq (j := 11) ?_).seq (leads_ret cacheAsm_length (i := 27) rfl
    fun s S => S.x 30 (by decide))
  rintro s ⟨hsince, h12, h2, h3, h5, h4⟩
  have hevent : ∀ set, dcEvent (s.set 4 (BitVec.ofNat 64 set)) =
      fun way => .dc (dcOpOf (s₀.x 1)) (H.operand level set way) := by
    intro set
    have h1 : s.x 1 = s₀.x 1 := hsince.x 1 (by decide)
    have hline : (s.x 2).toNat % 64 = H.lineBits level := by
      rw [h2]
      exact Nat.mod_eq_of_lt (by rw [← CacheId.lineBits, H.lineBits_eq]; omega)
    have hclz : (s.x 5).toNat % 64 = ((0x3ff &&& cc >>> 3).setWidth 32).clz.toNat := by
      have hle : ((0x3ff &&& cc >>> 3).setWidth 32).clz.toNat ≤ 32 := BitVec.clz_le
      rw [h5, BitVec.toNat_setWidth]
      omega
    funext way
    simp [dcEvent, h1, h12, hline, hclz, CacheId.operand, cc]
  have hways : (0x3ff &&& cc >>> 3).toNat < 2 ^ 63 :=
    Nat.lt_of_lt_of_le (H.ways_le level) (by decide)
  have hsets : (0x7fff &&& cc >>> 13).toNat < 2 ^ 63 :=
    Nat.lt_of_lt_of_le (H.sets_le level) (by decide)
  obtain ⟨s', hrun, -, S⟩ := leads_sets (H := H) (b := b) hways hsets
    (by rw [h3, BitVec.ofNat_toNat, BitVec.setWidth_eq])
    (by rw [h4, BitVec.ofNat_toNat, BitVec.setWidth_eq]) s rfl
  refine ⟨s', hrun, ?_⟩
  have hall : dcSetEvents s (0x3ff &&& cc >>> 3).toNat = fun set =>
      (List.range (H.ways level)).reverse.map
        fun way => .dc (dcOpOf (s₀.x 1)) (H.operand level set way) := by
    funext set
    rw [dcSetEvents, hevent]
    rfl
  rw [hall] at S
  exact (hsince.mono (by decide)).trans S (by decide)

/-! ## The loop over the levels -/

/-- A level without data is passed over. -/
def dcLevelEvents (H : CacheId) (mode : BitVec 64) (level : Nat) : List CacheEvent :=
  if 2 ≤ (H.ctype level).toNat then levelEvents H mode level else []

theorem leads_ctype {level : Nat} (hlevel : level < 8) (h0 : s₀.x 0 = BitVec.ofNat 64 level)
    (h10 : s₀.x 10 = H.clidr) :
    CacheLeads H b (· = s₀) 36 (codeAddr b 43)
      (Since [2, 3, 4, 5, 6, 7, 9, 12, 30] (dcLevelEvents H (s₀.x 1) level) s₀) := by
  have hblock : CacheLeads H b (· = s₀) 36 (codeAddr b 41) fun s =>
      Since [12] [] s₀ s ∧ s.flags = .sub (H.ctype level) 2 := by
    have hshift : ((s₀.x 0).toNat <<< 1 + (s₀.x 0).toNat) % 64 = 3 * level := by
      rw [h0, BitVec.toNat_ofNat, Nat.shiftLeft_eq]
      omega
    refine leads_block cacheAsm_length
      [.lslImm 12 0 1, .add 12 12 0, .lsr 12 10 12, .andImm 12 12 7, .cmpImm 12 2] rfl ?_
    rintro _ rfl
    refine ⟨⟨fun r hr => ?_, ?_⟩, ?_⟩
    · simp only [List.mem_cons, List.not_mem_nil, or_false] at hr
      simp [cacheIsa, CacheInstr.exec, hr]
    · simp [cacheIsa, CacheInstr.exec]
    · simp [cacheIsa, CacheInstr.exec, hshift, h10, CacheId.ctype]
  have hlt : ∀ s, s.flags = .sub (H.ctype level) 2 →
      (cacheIsa H).holds .lt s = !decide (2 ≤ (H.ctype level).toNat) := by
    intro s hs
    have hsmall : (H.ctype level).toNat ≤ 7 := by
      rw [CacheId.ctype, BitVec.toNat_and]
      exact Nat.and_le_right
    have hge := Flags.sub_ge (a := H.ctype level) (b := 2) (by omega) (by decide)
    change (s.flags.n != s.flags.v) = _
    rw [hs, bne, hge]
    rfl
  refine hblock.seq (j := 41) ?_
  by_cases hdata : 2 ≤ (H.ctype level).toNat
  · have hpass : CacheLeads H b (fun s => Since [12] [] s₀ s ∧ s.flags = .sub (H.ctype level) 2)
        41 (codeAddr b 42) (Since [12] [] s₀) :=
      (leads_passed cacheAsm_length (i := 41) rfl fun s h =>
        (hlt s h.2).trans (by simp [hdata])).mono (fun _ h => h) fun _ h => h.1
    have hcall : CacheLeads H b (Since [12] [] s₀) 42 (codeAddr b 0) fun s =>
        Since [12, 30] [] s₀ s ∧ s.x 30 = codeAddr b 43 := by
      refine leads_bl cacheAsm_length (i := 42) rfl fun s h => ⟨⟨fun r hr => ?_, h.events⟩, ?_⟩
      · simp only [List.mem_cons, List.not_mem_nil, or_false, not_or] at hr
        simpa [cacheIsa, hr] using h.x r (by simp [hr])
      · simp [cacheIsa]
    refine hpass.seq (hcall.seq ?_)
    rintro s ⟨h, hlink⟩
    obtain ⟨s', hrun, S⟩ := leads_level (H := H) (b := b) ((h.x 0 (by decide)).trans h0) s rfl
    refine ⟨s', hlink ▸ hrun, ?_⟩
    rw [h.x 1 (by decide)] at S
    rw [dcLevelEvents, if_pos hdata]
    exact (h.mono (by decide)).trans S (by decide)
  · refine (leads_taken cacheAsm_length (i := 41) rfl
      fun s h => (hlt s h.2).trans (by simp [hdata])).mono (fun _ h => h) fun s h => ?_
    rw [dcLevelEvents, if_neg hdata]
    exact h.1.mono (by decide)

/-- At `loop_level`, with the levels below `done` behind. -/
structure LevelLoop (H : CacheId) (s₀ : CacheCore) (done : Nat) (s : CacheCore) : Prop where
  lt : done < H.loc
  level : s.x 0 = BitVec.ofNat 64 done
  since : Since [0, 2, 3, 4, 5, 6, 7, 9, 12, 30]
    ((List.range done).flatMap (dcLevelEvents H (s₀.x 1))) s₀ s

theorem leads_level_round (h10 : s₀.x 10 = H.clidr) (h11 : s₀.x 11 = BitVec.ofNat 64 H.loc)
    (done : Nat) : CacheLeads H b (LevelLoop H s₀ done) 36 (codeAddr b 45) fun s =>
      s.x 0 = BitVec.ofNat 64 (done + 1) ∧
        s.flags = .sub (BitVec.ofNat 64 H.loc) (BitVec.ofNat 64 (done + 1)) ∧
        Since [0, 2, 3, 4, 5, 6, 7, 9, 12, 30]
          ((List.range (done + 1)).flatMap (dcLevelEvents H (s₀.x 1))) s₀ s := by
  intro s L
  have hlt := H.loc_lt
  obtain ⟨s', hrun, S⟩ := leads_ctype (H := H) (b := b) (by have := L.lt; omega) L.level
    ((L.since.x 10 (by decide)).trans h10) s rfl
  have h0 : s'.x 0 = BitVec.ofNat 64 done := (S.x 0 (by decide)).trans L.level
  have h11' : s'.x 11 = BitVec.ofNat 64 H.loc :=
    (S.x 11 (by decide)).trans ((L.since.x 11 (by decide)).trans h11)
  have hsince := L.since.trans S (by decide)
  rw [L.since.x 1 (by decide)] at hsince
  have hnext : BitVec.ofNat 64 done + 1#64 = BitVec.ofNat 64 (done + 1) :=
    (BitVec.ofNat_add _ _).symm
  obtain ⟨s'', hlast, rfl⟩ := leads_block (M := cacheIsa H) (b := b) (i := 43)
    (P := (· = s'))
    (Q := (· = CacheInstr.exec H (CacheInstr.exec H s' (.addImm 0 0 1)) (.cmp 11 0)))
    cacheAsm_length [.addImm 0 0 1, .cmp 11 0] rfl (by rintro _ rfl; rfl) s' rfl
  refine ⟨_, hrun.trans hlast, ?_, ?_, fun r hr => ?_, ?_⟩
  · simp [CacheInstr.exec, h0, hnext]
  · simp [CacheInstr.exec, h0, h11', hnext]
  · have h := hsince.x r hr
    simp only [List.mem_cons, List.not_mem_nil, or_false, not_or] at hr
    simpa [CacheInstr.exec, hr] using h
  · rw [List.range_succ, List.flatMap_append, List.flatMap_singleton]
    exact hsince.events

/-- `b.gt` after `cmp`. -/
theorem holds_gt_of_sub {a b : Nat} (ha : a < 2 ^ 63) (hb : b < 2 ^ 63) {s : CacheCore}
    (h : s.flags = .sub (BitVec.ofNat 64 a) (BitVec.ofNat 64 b)) :
    (cacheIsa H).holds .gt s = decide (b < a) := by
  have hto : ∀ n < 2 ^ 63, (BitVec.ofNat 64 n).toNat = n := fun n hn => by
    rw [BitVec.toNat_ofNat, Nat.mod_eq_of_lt (by omega)]
  have hge := Flags.sub_ge (a := BitVec.ofNat 64 a) (b := BitVec.ofNat 64 b)
    (by rwa [hto a ha]) (by rwa [hto b hb])
  have hz : (BitVec.ofNat 64 a == BitVec.ofNat 64 b) = decide (a = b) := by
    rw [beq_eq_decide, decide_eq_decide, ← BitVec.toNat_inj, hto a ha, hto b hb]
  rw [hto a ha, hto b hb] at hge
  change (!s.flags.z && s.flags.n == s.flags.v) = _
  rw [h, hge, Flags.sub, hz]
  grind

/-- **The levels**, from the first one up. -/
theorem leads_levels (hloc : H.loc ≠ 0) (h0 : s₀.x 0 = 0) (h10 : s₀.x 10 = H.clidr)
    (h11 : s₀.x 11 = BitVec.ofNat 64 H.loc) :
    CacheLeads H b (· = s₀) 36 (codeAddr b 46)
      (Since [0, 2, 3, 4, 5, 6, 7, 9, 12, 30]
        ((List.range H.loc).flatMap (dcLevelEvents H (s₀.x 1))) s₀) := by
  have hlt := H.loc_lt
  have hgt : ∀ done s, done < H.loc →
      s.flags = .sub (BitVec.ofNat 64 H.loc) (BitVec.ofNat 64 (done + 1)) →
      (cacheIsa H).holds .gt s = decide (done + 1 < H.loc) := fun done s hd h =>
    holds_gt_of_sub (by omega) (by omega) h
  -- the loop counts up, so `n` more rounds come where `H.loc - 1 - n` levels are done
  have hround : ∀ n, CacheLeads H b
      (fun s => n + 1 < H.loc ∧ LevelLoop H s₀ (H.loc - 1 - (n + 1)) s) 36 (codeAddr b 36)
      (fun s => n < H.loc ∧ LevelLoop H s₀ (H.loc - 1 - n) s) := by
    rintro n s ⟨hn, L⟩
    obtain ⟨s', hrun, hx, hflags, hsince⟩ := leads_level_round (b := b) h10 h11 _ s L
    have hcount : H.loc - 1 - (n + 1) + 1 = H.loc - 1 - n := by omega
    obtain ⟨t, hback, rfl⟩ := leads_taken (M := cacheIsa H) (b := b) (P := (· = s'))
      cacheAsm_length (i := 45) rfl
      (by rintro _ rfl; rw [hgt _ _ L.lt hflags, decide_eq_true_eq]; omega) s' rfl
    rw [hcount] at hx hsince
    exact ⟨t, hrun.trans hback, by omega, by omega, hx, hsince⟩
  have hlast : CacheLeads H b (fun s => 0 < H.loc ∧ LevelLoop H s₀ (H.loc - 1 - 0) s) 36
      (codeAddr b 46) (Since [0, 2, 3, 4, 5, 6, 7, 9, 12, 30]
        ((List.range H.loc).flatMap (dcLevelEvents H (s₀.x 1))) s₀) := by
    rintro s ⟨hpos, L⟩
    obtain ⟨s', hrun, -, hflags, hsince⟩ := leads_level_round (b := b) h10 h11 _ s L
    have hcount : H.loc - 1 - 0 + 1 = H.loc := by omega
    obtain ⟨t, hpass, rfl⟩ := leads_passed (M := cacheIsa H) (b := b) (P := (· = s'))
      cacheAsm_length (i := 45) rfl
      (by rintro _ rfl; rw [hgt _ _ L.lt hflags, decide_eq_false_iff_not]; omega) s' rfl
    rw [hcount] at hsince
    exact ⟨t, hrun.trans hpass, hsince⟩
  refine (leads_loop (T := fun n s => n < H.loc ∧ LevelLoop H s₀ (H.loc - 1 - n) s) hround hlast
    (H.loc - 1)).mono ?_ fun _ h => h
  rintro s rfl
  refine ⟨by omega, by omega, by rw [h0, Nat.sub_self]; rfl, ?_⟩
  rw [Nat.sub_self]
  exact Since.refl _ _

/-! ## All levels -/

/-- The trace of `os_asm_dcache_all`. -/
def dcacheEvents (H : CacheId) (mode : BitVec 64) : List CacheEvent :=
  .dsb :: if H.loc = 0 then []
    else (List.range H.loc).flatMap (dcLevelEvents H mode) ++ [.dsb, .isb]

/-- The registers that `os_asm_dcache_all` uses. -/
def dcacheRegs : List (Fin 31) := [0, 1, 2, 3, 4, 5, 6, 7, 9, 10, 11, 12, 15]

/-- The part with the levels, with the link register in `x15` while they are gone through. -/
theorem leads_coherent (hloc : H.loc ≠ 0) (h10 : s₀.x 10 = H.clidr)
    (h11 : s₀.x 11 = BitVec.ofNat 64 H.loc) :
    CacheLeads H b (· = s₀) 34 (codeAddr b 51) fun s =>
      Since dcacheRegs
          ((List.range H.loc).flatMap (dcLevelEvents H (s₀.x 1)) ++ [.dsb, .isb]) s₀ s ∧
        s.csselr = 0 ∧ s.selected = 0 := by
  have hsave : CacheLeads H b (· = s₀) 34 (codeAddr b 36)
      (· = (s₀.set 15 (s₀.x 30)).set 0 0) :=
    leads_block cacheAsm_length [.mov 15 30, .movImm 0 0] rfl (by rintro _ rfl; rfl)
  have hrestore : ∀ s₁ : CacheCore, CacheLeads H b (· = s₁) 46 (codeAddr b 51) fun s =>
      Since [0, 30] [.dsb, .isb] s₁ s ∧ s.csselr = 0 ∧ s.selected = 0 ∧ s.x 30 = s₁.x 15 := by
    intro s₁
    refine leads_block cacheAsm_length [.movImm 0 0, .msrCsselr 0, .dsb, .isb, .mov 30 15] rfl ?_
    rintro _ rfl
    refine ⟨⟨fun r hr => ?_, ?_⟩, ?_, ?_, ?_⟩
    · simp only [List.mem_cons, List.not_mem_nil, or_false, not_or] at hr
      simp [cacheIsa, CacheInstr.exec, CacheCore.emit, hr]
    all_goals simp [cacheIsa, CacheInstr.exec, CacheCore.emit]
  refine hsave.seq (j := 36) ?_
  rintro _ rfl
  obtain ⟨s₁, hlevels, S⟩ := leads_levels (b := b) hloc
    (by simp : ((s₀.set 15 (s₀.x 30)).set 0 0).x 0 = 0) (by simp [h10]) (by simp [h11]) _ rfl
  obtain ⟨s₂, htail, R, hcsselr, hselected, h30⟩ := hrestore s₁ s₁ rfl
  have hsaved : Since [0, 15] [] s₀ ((s₀.set 15 (s₀.x 30)).set 0 0) :=
    ⟨fun r hr => by
      simp only [List.mem_cons, List.not_mem_nil, or_false, not_or] at hr
      simp [hr], by simp⟩
  have h1 : ((s₀.set 15 (s₀.x 30)).set 0 0).x 1 = s₀.x 1 := by simp
  rw [h1] at S
  have hwhole : Since (30 :: dcacheRegs) _ s₀ s₂ :=
    ((hsaved.mono (by decide)).trans S (by decide)).trans R (by decide)
  have hlink : s₂.x 30 = s₀.x 30 := h30.trans ((S.x 15 (by decide)).trans (by simp))
  refine ⟨s₂, hlevels.trans htail, ⟨fun r hr => ?_, hwhole.events⟩, hcsselr, hselected⟩
  by_cases h : r = 30
  · rw [h, hlink]
  · exact hwhole.x r fun hm => (List.mem_cons.mp hm).elim h hr

theorem leads_dcache_all :
    CacheLeads H b (· = s₀) 28 (s₀.x 30) fun s =>
      Since dcacheRegs (dcacheEvents H (s₀.x 0)) s₀ s ∧
        (H.loc ≠ 0 → s.csselr = 0 ∧ s.selected = 0) := by
  have hblock : CacheLeads H b (· = s₀) 28 (codeAddr b 33) fun s =>
      Since [1, 10, 11] [.dsb] s₀ s ∧ s.x 1 = s₀.x 0 ∧ s.x 10 = H.clidr ∧
        s.x 11 = BitVec.ofNat 64 H.loc := by
    refine leads_block cacheAsm_length
      [.mov 1 0, .dsb, .mrsClidr 10, .lsrImm 11 10 24, .andImm 11 11 7] rfl ?_
    rintro _ rfl
    refine ⟨⟨fun r hr => ?_, ?_⟩, ?_, ?_, ?_⟩
    · simp only [List.mem_cons, List.not_mem_nil, or_false, not_or] at hr
      simp [cacheIsa, CacheInstr.exec, CacheCore.emit, hr]
    · simp [cacheIsa, CacheInstr.exec, CacheCore.emit]
    · simp [cacheIsa, CacheInstr.exec, CacheCore.emit]
    · simp [cacheIsa, CacheInstr.exec, CacheCore.emit]
    · rw [CacheId.loc, BitVec.ofNat_toNat, BitVec.setWidth_eq]
      rfl
  refine (hblock.seq (j := 33) ?_).seq (leads_ret cacheAsm_length (i := 51) rfl
    fun s S => S.1.x 30 (by decide))
  rintro s ⟨hsince, h1, h10, h11⟩
  have hz : (cacheIsa H).holds (.cbz 11) s = decide (H.loc = 0) := by
    have hlt := H.loc_lt
    change (s.x 11 == 0) = _
    rw [h11, beq_eq_decide, decide_eq_decide, ← BitVec.toNat_inj, BitVec.toNat_ofNat,
      Nat.mod_eq_of_lt (by omega)]
    rfl
  by_cases hloc : H.loc = 0
  · obtain ⟨t, hskip, rfl⟩ := leads_taken (M := cacheIsa H) (b := b) (P := (· = s))
      cacheAsm_length (i := 33) rfl (by rintro _ rfl; rw [hz, hloc]; rfl) s rfl
    refine ⟨t, hskip, ?_, fun h => absurd hloc h⟩
    rw [dcacheEvents, if_pos hloc]
    exact hsince.mono (by decide)
  · obtain ⟨t, hpass, rfl⟩ := leads_passed (M := cacheIsa H) (b := b) (P := (· = s))
      cacheAsm_length (i := 33) rfl (by rintro _ rfl; rw [hz]; exact decide_eq_false hloc) s rfl
    obtain ⟨s', hlevels, S, hsel⟩ := leads_coherent (b := b) hloc h10 h11 t rfl
    refine ⟨s', hpass.trans hlevels, ?_, fun _ => hsel⟩
    rw [h1] at S
    rw [dcacheEvents, if_neg hloc]
    exact (hsince.mono (by decide)).trans S (by decide)

end

/-! ## The entries -/

def DcEntry.mode : DcEntry → BitVec 64
  | .invalidate => 1
  | .flush => 0
  | .clean => 2

def DcEntry.op : DcEntry → DcOp
  | .invalidate => .isw
  | .flush => .cisw
  | .clean => .csw

/-- Where the C code jumps to. -/
def DcEntry.place (e : DcEntry) : Nat := placeOf e.label cacheAsm

theorem leads_entry (H : CacheId) (b : BitVec 64) (e : DcEntry) (s₀ : CacheCore) :
    CacheLeads H b (· = s₀) e.place (s₀.x 30) fun s =>
      Since dcacheRegs (dcacheEvents H e.mode) s₀ s ∧
        (H.loc ≠ 0 → s.csselr = 0 ∧ s.selected = 0) := by
  have hmode : CacheLeads H b (· = s₀) e.place (codeAddr b (e.place + 1))
      (· = s₀.set 0 e.mode) := by
    refine leads_block cacheAsm_length [.movImm 0 e.mode] (by cases e <;> rfl) ?_
    rintro _ rfl
    rfl
  have hjump : CacheLeads H b (· = s₀.set 0 e.mode) (e.place + 1) (codeAddr b 28)
      (· = s₀.set 0 e.mode) :=
    leads_b cacheAsm_length (l := .osAsmDcacheAll) (by cases e <;> rfl)
  refine hmode.seq (hjump.seq ?_)
  rintro _ rfl
  obtain ⟨s, hrun, S, hsel⟩ := leads_dcache_all (H := H) (b := b) (s₀.set 0 e.mode) rfl
  have hset : Since [0] [] s₀ (s₀.set 0 e.mode) :=
    ⟨fun r hr => by
      simp only [List.mem_cons, List.not_mem_nil, or_false] at hr
      simp [hr], by simp⟩
  rw [hset.x 30 (by decide)] at hrun
  rw [show (s₀.set 0 e.mode).x 0 = e.mode by simp] at S
  exact ⟨s, hrun, (hset.mono (by decide)).trans S (by decide), hsel⟩

end MiniEuler
