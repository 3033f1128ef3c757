import MiniEuler.Bsp.CacheMaintenance
import Mathlib.Data.Nat.Log
import Mathlib.Tactic.IntervalCases
import Mathlib.Tactic.Ring

/-! Every line of every data cache below the level of coherence is maintained, and once. -/

namespace MiniEuler
open Library

/-- A line of a data cache. -/
structure DcLine where
  level : Nat
  set : Nat
  way : Nat
  deriving DecidableEq, Repr

namespace CacheId

/-- The processor has the line, in a cache that holds data below the level of coherence. -/
def Has (H : CacheId) (l : DcLine) : Prop :=
  l.level < H.loc ∧ 2 ≤ (H.ctype l.level).toNat ∧ l.set < H.sets l.level ∧ l.way < H.ways l.level

instance (H : CacheId) (l : DcLine) : Decidable (H.Has l) := inferInstanceAs (Decidable (_ ∧ _))

/-- The line that an operand names: the way stands at the top of the lower half, the set above
the bits of the line's length, and the level from bit 1 on. -/
def lineOf (H : CacheId) (v : BitVec 64) : DcLine :=
  let level := v.toNat / 2 % 8
  { level := level
    set := v.toNat / 2 ^ H.lineBits level % 2 ^ Nat.clog 2 (H.sets level)
    way := v.toNat % 2 ^ 32 / 2 ^ (32 - Nat.clog 2 (H.ways level)) }

/-- Set and way have room in an operand. -/
def Fits (H : CacheId) : Prop :=
  ∀ level < H.loc, 2 ≤ (H.ctype level).toNat →
    H.lineBits level + Nat.clog 2 (H.sets level) + Nat.clog 2 (H.ways level) ≤ 32

end CacheId

/-! ## Operands -/

/-- Leading zeros, and the bits that are left. -/
theorem clz_toNat (x : BitVec 32) : x.clz.toNat = 32 - Nat.clog 2 (x.toNat + 1) := by
  have hle : x.clz.toNat ≤ 32 := BitVec.clz_le
  by_cases hx : x = 0
  · rw [hx]
    rfl
  · have hlow := BitVec.two_pow_sub_clz_le_toNat_of_ne_zero (by decide) hx
    have hhigh := BitVec.toNat_lt_two_pow_sub_clz (x := x)
    have hlt : x.clz.toNat < 32 := BitVec.clz_lt_iff_ne_zero.mpr hx
    have hup : Nat.clog 2 (x.toNat + 1) ≤ 32 - x.clz.toNat := Nat.clog_le_of_le_pow hhigh
    have hdown : 32 - 1 - x.clz.toNat < Nat.clog 2 (x.toNat + 1) := by
      rw [Nat.lt_clog_iff_pow_lt (by decide)]
      omega
    omega

/-- Three fields that do not overlap. -/
theorem or_fields {low mid high k m : Nat} (hlow : low < 2 ^ k) (hmid : mid * 2 ^ k + low < 2 ^ m) :
    low ||| high <<< m ||| mid <<< k = high * 2 ^ m + (mid * 2 ^ k + low) := by
  rw [Nat.or_comm low, Nat.or_assoc, Nat.or_comm low, ← Nat.shiftLeft_add_eq_or_of_lt hlow,
    Nat.shiftLeft_eq mid, ← Nat.shiftLeft_add_eq_or_of_lt hmid, Nat.shiftLeft_eq]

section
variable {H : CacheId} {l : DcLine}

theorem operand_bounds (hfit : H.Fits) (h : H.Has l) :
    l.level < 8 ∧ 4 ≤ H.lineBits l.level ∧ l.set < 2 ^ Nat.clog 2 (H.sets l.level) ∧
      l.way < 2 ^ Nat.clog 2 (H.ways l.level) ∧
      H.lineBits l.level + Nat.clog 2 (H.sets l.level) + Nat.clog 2 (H.ways l.level) ≤ 32 :=
  ⟨h.1.trans H.loc_lt, by rw [H.lineBits_eq]; omega,
    h.2.2.1.trans_le (Nat.le_pow_clog (by decide) _),
    h.2.2.2.trans_le (Nat.le_pow_clog (by decide) _), hfit _ h.1 h.2.1⟩

/-- The level and the set stay below the way. -/
theorem low_fields {level set L S m : Nat} (hlevel : level < 8) (hL : 4 ≤ L) (hset : set < 2 ^ S)
    (hm : L + S ≤ m) : 2 * level < 2 ^ L ∧ set * 2 ^ L + 2 * level < 2 ^ m := by
  have h16 : 2 ^ 4 ≤ 2 ^ L := Nat.pow_le_pow_right (by decide) hL
  have htop : 2 ^ (L + S) ≤ 2 ^ m := Nat.pow_le_pow_right (by decide) hm
  have hmul : (set + 1) * 2 ^ L ≤ 2 ^ (L + S) := by
    rw [Nat.add_comm L S, Nat.pow_add]
    exact Nat.mul_le_mul_right _ hset
  rw [Nat.succ_mul] at hmul
  omega

theorem operand_toNat (hfit : H.Fits) (h : H.Has l) :
    (H.operand l.level l.set l.way).toNat =
      l.way * 2 ^ (32 - Nat.clog 2 (H.ways l.level)) +
        (l.set * 2 ^ H.lineBits l.level + 2 * l.level) := by
  obtain ⟨hlevel, hL, hset, hway, hroom⟩ := operand_bounds hfit h
  set m := 32 - Nat.clog 2 (H.ways l.level) with hm
  obtain ⟨hlow, hmid⟩ := low_fields hlevel hL hset (m := m) (by omega)
  have hclz : ((0x3ff &&& H.ccsidrAt l.level >>> 3).setWidth 32).clz.toNat = m := by
    rw [clz_toNat, BitVec.toNat_setWidth, Nat.mod_eq_of_lt]
    · rfl
    · exact Nat.lt_of_lt_of_le (H.ways_le l.level) (by decide)
  have hwide : ∀ a k, a * 2 ^ k < 2 ^ 64 → (BitVec.ofNat 64 a <<< k).toNat = a <<< k := by
    intro a k ha
    have hle : a ≤ a * 2 ^ k := Nat.le_mul_of_pos_right _ (Nat.two_pow_pos k)
    rw [BitVec.toNat_shiftLeft, BitVec.toNat_ofNat, Nat.mod_eq_of_lt (hle.trans_lt ha),
      Nat.shiftLeft_eq, Nat.mod_eq_of_lt ha]
  have hm32 : 2 ^ m ≤ 2 ^ 32 := Nat.pow_le_pow_right (by decide) (Nat.sub_le _ _)
  have hway32 : l.way * 2 ^ m < 2 ^ 64 := by
    have hw : l.way < 2 ^ 10 := h.2.2.2.trans_le (H.ways_le _)
    calc l.way * 2 ^ m ≤ 2 ^ 10 * 2 ^ 32 := Nat.mul_le_mul hw.le hm32
      _ < 2 ^ 64 := by decide
  rw [CacheId.operand, hclz, BitVec.toNat_or, BitVec.toNat_or, BitVec.toNat_ofNat,
    Nat.mod_eq_of_lt (by omega), hwide _ _ hway32, hwide _ _ (by omega), or_fields hlow hmid]

theorem lineOf_operand (hfit : H.Fits) (h : H.Has l) :
    H.lineOf (H.operand l.level l.set l.way) = l := by
  obtain ⟨hlevel, hL, hset, hway, hroom⟩ := operand_bounds hfit h
  have hv := operand_toNat hfit h
  set w := Nat.clog 2 (H.ways l.level)
  set S := Nat.clog 2 (H.sets l.level)
  set L := H.lineBits l.level with hLdef
  obtain ⟨hlow, hmid⟩ := low_fields hlevel hL hset (m := 32 - w) (by omega)
  have hL16 : 2 ^ L = 16 * 2 ^ (L - 4) := (Nat.pow_sub_mul_pow 2 hL).symm.trans (Nat.mul_comm _ _)
  have htop : 2 ^ (32 - w) = 2 ^ L * (2 ^ S * 2 ^ (32 - w - L - S)) := by
    rw [← Nat.pow_add, ← Nat.pow_add]
    congr 1
    omega
  have hl : (H.operand l.level l.set l.way).toNat / 2 % 8 = l.level := by
    have hsum : l.way * 2 ^ (32 - w) + (l.set * 2 ^ L + 2 * l.level) =
        2 * (8 * (2 ^ (L - 4) * (l.way * (2 ^ S * 2 ^ (32 - w - L - S)) + l.set)) + l.level) := by
      rw [htop, hL16]
      ring
    rw [hv, hsum]
    omega
  have hs : (H.operand l.level l.set l.way).toNat / 2 ^ L % 2 ^ S = l.set := by
    have hsum : l.way * 2 ^ (32 - w) + (l.set * 2 ^ L + 2 * l.level) =
        2 * l.level + 2 ^ L * (l.set + 2 ^ S * (2 ^ (32 - w - L - S) * l.way)) := by
      rw [htop]
      ring
    rw [hv, hsum, Nat.add_mul_div_left _ _ (Nat.two_pow_pos L), Nat.div_eq_of_lt hlow,
      Nat.zero_add, Nat.add_mul_mod_self_left, Nat.mod_eq_of_lt hset]
  have hw : (H.operand l.level l.set l.way).toNat % 2 ^ 32 / 2 ^ (32 - w) = l.way := by
    have hfull : (l.way + 1) * 2 ^ (32 - w) ≤ 2 ^ 32 := by
      calc (l.way + 1) * 2 ^ (32 - w) ≤ 2 ^ w * 2 ^ (32 - w) := Nat.mul_le_mul_right _ hway
        _ = 2 ^ 32 := by rw [← Nat.pow_add, Nat.add_sub_of_le (by omega)]
    rw [Nat.succ_mul] at hfull
    rw [hv, Nat.mod_eq_of_lt (by omega), Nat.mul_comm, Nat.mul_add_div (Nat.two_pow_pos _),
      Nat.div_eq_of_lt hmid, Nat.add_zero]
  simp only [CacheId.lineOf, hl, ← hLdef, hs, hw, S, w]

/-! ## The order of the lines -/

theorem nodup_flatMap_of_tag {α β : Type} {as : List α} {f : α → List β} (tag : β → α)
    (hnodup : as.Nodup) (hf : ∀ a ∈ as, (f a).Nodup) (htag : ∀ a ∈ as, ∀ b ∈ f a, tag b = a) :
    (as.flatMap f).Nodup := by
  refine List.nodup_flatMap.mpr ⟨hf, hnodup.pairwise_of_forall_ne fun a ha a' ha' hne => ?_⟩
  intro b hb hb'
  exact hne ((htag a ha b hb).symm.trans (htag a' ha' b hb'))

/-- The lines as `os_asm_dcache_all` comes to them. -/
def CacheId.lines (H : CacheId) : List DcLine :=
  (List.range H.loc).flatMap fun level =>
    if 2 ≤ (H.ctype level).toNat then
      (List.range (H.sets level)).reverse.flatMap fun set =>
        (List.range (H.ways level)).reverse.map fun way => ⟨level, set, way⟩
    else []

theorem mem_lines : l ∈ H.lines ↔ H.Has l := by
  obtain ⟨level, set, way⟩ := l
  simp only [CacheId.lines, List.mem_flatMap, List.mem_range, CacheId.Has]
  constructor
  · rintro ⟨level', hloc, hmem⟩
    split at hmem
    · simp only [List.mem_flatMap, List.mem_reverse, List.mem_range, List.mem_map,
        DcLine.mk.injEq] at hmem
      obtain ⟨set', hset, way', hway, rfl, rfl, rfl⟩ := hmem
      exact ⟨hloc, ‹_›, hset, hway⟩
    · cases hmem
  · rintro ⟨hloc, hdata, hset, hway⟩
    refine ⟨level, hloc, ?_⟩
    rw [if_pos hdata]
    simp only [List.mem_flatMap, List.mem_reverse, List.mem_range, List.mem_map]
    exact ⟨set, hset, way, hway, rfl⟩

theorem nodup_lines (H : CacheId) : H.lines.Nodup := by
  refine nodup_flatMap_of_tag DcLine.level List.nodup_range (fun level _ => ?_) ?_
  · split
    · refine nodup_flatMap_of_tag DcLine.set (List.nodup_reverse.mpr List.nodup_range)
        (fun set _ => ?_) ?_
      · refine (List.nodup_reverse.mpr List.nodup_range).map ?_
        intro way way' heq
        exact congrArg DcLine.way heq
      · rintro set - _ hl
        obtain ⟨way, -, rfl⟩ := List.mem_map.mp hl
        rfl
    · exact List.nodup_nil
  · rintro level - _ hl
    split at hl
    · obtain ⟨set, -, hl⟩ := List.mem_flatMap.mp hl
      obtain ⟨way, -, rfl⟩ := List.mem_map.mp hl
      rfl
    · cases hl

/-- The line that an instruction works on, and what it does to it. -/
def CacheId.maintained (H : CacheId) : CacheEvent → Option (DcOp × DcLine)
  | .dc op v => some (op, H.lineOf v)
  | _ => none

theorem filterMap_flatMap_eq_map {α β γ δ : Type} {p : β → Option δ} {q : γ → δ}
    {f : α → List β} {g : α → List γ} {as : List α}
    (h : ∀ a ∈ as, (f a).filterMap p = (g a).map q) :
    (as.flatMap f).filterMap p = (as.flatMap g).map q := by
  induction as with
  | nil => rfl
  | cons a as ih =>
    rw [List.flatMap_cons, List.flatMap_cons, List.filterMap_append, List.map_append,
      h a List.mem_cons_self, ih fun b hb => h b (List.mem_cons_of_mem a hb)]

theorem maintained_dcacheEvents (hfit : H.Fits) (mode : BitVec 64) :
    (dcacheEvents H mode).filterMap H.maintained = H.lines.map (Prod.mk (dcOpOf mode)) := by
  have hlevels : ((List.range H.loc).flatMap (dcLevelEvents H mode)).filterMap H.maintained =
      H.lines.map (Prod.mk (dcOpOf mode)) := by
    refine filterMap_flatMap_eq_map fun level hlevel => ?_
    by_cases hdata : 2 ≤ (H.ctype level).toNat
    · rw [dcLevelEvents, if_pos hdata, if_pos hdata, levelEvents, List.filterMap_cons_none rfl]
      refine filterMap_flatMap_eq_map fun set hset => ?_
      rw [List.filterMap_map, List.map_map, ← List.filterMap_eq_map]
      refine List.filterMap_congr fun way hway => ?_
      have hhas : H.Has ⟨level, set, way⟩ :=
        ⟨List.mem_range.mp hlevel, hdata, List.mem_range.mp (List.mem_reverse.mp hset),
          List.mem_range.mp (List.mem_reverse.mp hway)⟩
      have hline : H.lineOf (H.operand level set way) = ⟨level, set, way⟩ :=
        lineOf_operand (l := ⟨level, set, way⟩) hfit hhas
      simp only [Function.comp_apply, CacheId.maintained, hline]
    · rw [dcLevelEvents, if_neg hdata, if_neg hdata]
      rfl
  rw [dcacheEvents, List.filterMap_cons_none rfl]
  by_cases hloc : H.loc = 0
  · rw [if_pos hloc, CacheId.lines, hloc]
    rfl
  · rw [if_neg hloc, List.filterMap_append, hlevels]
    exact List.append_nil _

end

/-! ## The entries -/

theorem maintained_entry {H : CacheId} (hfit : H.Fits) (e : DcEntry) :
    (∀ op l, (op, l) ∈ (dcacheEvents H e.mode).filterMap H.maintained ↔ op = e.op ∧ H.Has l) ∧
      ((dcacheEvents H e.mode).filterMap H.maintained).Nodup := by
  have hop : dcOpOf e.mode = e.op := by cases e <;> rfl
  rw [maintained_dcacheEvents hfit e.mode, hop]
  refine ⟨fun op l => ?_, (nodup_lines H).map fun _ _ heq => (Prod.mk.inj heq).2⟩
  rw [List.mem_map]
  constructor
  · rintro ⟨l', hl', heq⟩
    obtain ⟨rfl, rfl⟩ := Prod.mk.inj heq
    exact ⟨rfl, mem_lines.mp hl'⟩
  · rintro ⟨rfl, hl⟩
    exact ⟨l, mem_lines.mpr hl, rfl⟩

/-- What an entry leaves behind, with the instructions `evs` that it has given. -/
structure Maintained (H : CacheId) (e : DcEntry) (evs : List CacheEvent) (s s' : CacheCore) :
    Prop where
  events : s'.events = s.events ++ evs
  /-- Every line has the instruction of the entry, and nothing else has one. -/
  all : ∀ op l, (op, l) ∈ evs.filterMap H.maintained ↔ op = e.op ∧ H.Has l
  once : (evs.filterMap H.maintained).Nodup
  /-- What was written before is waited for, and what is maintained too. -/
  before : evs.head? = some .dsb
  after : H.loc ≠ 0 → [.dsb, .isb] <:+ evs
  select : H.loc ≠ 0 → s'.csselr = 0 ∧ s'.selected = 0
  kept : ∀ r ∉ dcacheRegs, s'.x r = s.x r

/-- **The whole data cache.** Called at an entry, the code comes back to the caller, and by then
it has maintained every line of every level that holds data below the level of coherence,
once. -/
theorem osAsmDcache_maintained {H : CacheId} (hfit : H.Fits) (base : BitVec 64) (e : DcEntry)
    (s : CacheCore) :
    ∃ s' evs, CodeReaches (cacheIsa H) cacheAsm base ⟨s, codeAddr base e.place⟩ ⟨s', s.x 30⟩ ∧
      Maintained H e evs s s' := by
  obtain ⟨s', hrun, hsince, hsel⟩ := leads_entry H base e s s rfl
  obtain ⟨hall, honce⟩ := maintained_entry hfit e
  refine ⟨s', _, hrun, hsince.events, hall, honce, rfl, fun hloc => ?_, hsel, hsince.x⟩
  rw [dcacheEvents, if_neg hloc]
  exact (List.suffix_append _ _).trans (List.suffix_cons _ _)

/-- 32 KiB in two ways at the first level and 1 MiB in sixteen at the second, with 64-byte
lines. -/
def twoLevels : CacheId where
  clidr := 0x2000023
  ccsidr sel := if sel = 0 then 0x1fe00a else 0x7fe07a

def calledAt (lr : BitVec 64) : CacheCore where
  x r := if r = 30 then lr else 0
  flags := ⟨false, false, false, false⟩
  csselr := 0
  selected := 0
  events := []

theorem twoLevels_fits : twoLevels.Fits := by
  intro level hlevel _
  have hlog : ∀ {n k}, n ≤ 2 ^ k → Nat.clog 2 n ≤ k := Nat.clog_le_of_le_pow
  have hloc : twoLevels.loc = 2 := by decide
  rw [hloc] at hlevel
  interval_cases level
  · have hsets : Nat.clog 2 (twoLevels.sets 0) ≤ 8 := hlog (by decide)
    have hways : Nat.clog 2 (twoLevels.ways 0) ≤ 1 := hlog (by decide)
    have hline : twoLevels.lineBits 0 = 6 := by decide
    omega
  · have hsets : Nat.clog 2 (twoLevels.sets 1) ≤ 10 := hlog (by decide)
    have hways : Nat.clog 2 (twoLevels.ways 1) ≤ 4 := hlog (by decide)
    have hline : twoLevels.lineBits 1 = 6 := by decide
    omega

theorem osAsmDcache_maintained_twoLevels :
    ∃ s' evs, CodeReaches (cacheIsa twoLevels) cacheAsm 0x40080000
        ⟨calledAt 0x40081234, codeAddr 0x40080000 DcEntry.invalidate.place⟩
        ⟨s', (calledAt 0x40081234).x 30⟩ ∧
      Maintained twoLevels .invalidate evs (calledAt 0x40081234) s' :=
  osAsmDcache_maintained twoLevels_fits 0x40080000 .invalidate (calledAt 0x40081234)

end MiniEuler
