import MiniEuler.Library.PackedFields

/-! The functions of `hwi_init.c` that set up the interrupt controller, down to the address and the
bits they write. The controller is not in the repository: it is a parameter, and what the
functions rely on is what the architecture says of the registers of a GICv2. -/

namespace MiniEuler
open Library

def gicDistBase : Nat := 0x08000000
def gicCpuBase : Nat := 0x08010000

def gicdCtlr : Nat := gicDistBase + 0x0000
def gicdIsenablern : Nat := gicDistBase + 0x0100
def gicdIcenablern : Nat := gicDistBase + 0x0180
def gicdIcpendrn : Nat := gicDistBase + 0x0280
def gicdIpriorityn : Nat := gicDistBase + 0x0400
def gicdIcfgr : Nat := gicDistBase + 0x0C00

def giccCtlr : Nat := gicCpuBase + 0x0000
def giccPmr : Nat := gicCpuBase + 0x0004
def giccBpr : Nat := gicCpuBase + 0x0008

/-! ## The controller -/

/-- The settings of each interrupt. -/
structure IrqTable where
  enabled : Nat → Bool
  priority : Nat → BitVec 8
  edge : Nat → Bool

/-- `GIC_REG_READ` and `GIC_REG_WRITE` of a controller, what else happens to it, and its settings.
An interrupt is `latched` when it is pending for another reason than the level of its signal. -/
structure GicDevice (D E : Type) where
  reset : D
  gicRegRead : D → (addr : Nat) → BitVec 32
  gicRegWrite : D → (addr : Nat) → (data : BitVec 32) → D
  event : D → E → D
  table : D → IrqTable
  latched : D → Nat → Bool

/-- The interrupts of peripherals that a controller has, those of them whose trigger can be set,
and the bits of a priority that it keeps. -/
structure GicLines where
  implemented : Nat → Bool
  configurable : Nat → Bool
  priorityBits : BitVec 8
  bounds : ∀ i, implemented i → 16 ≤ i ∧ i < 1020
  configurable_implemented : ∀ i, configurable i → implemented i

/-- Two tables agree on all interrupts that there are. -/
def GicLines.Agree (I : GicLines) (t t' : IrqTable) : Prop :=
  ∀ i, I.implemented i →
    t.enabled i = t'.enabled i ∧ t.priority i = t'.priority i ∧ t.edge i = t'.edge i

/-- What the architecture says of the registers. A 1 sets a bit of the enables through one register
and clears it through another; what the controller has no bits for is written in vain and read as
zero; the lower bit of a trigger is reserved, and the trigger of an interrupt may be changed while
it is disabled. -/
structure GicV2 {D E : Type} (G : GicDevice D E) (I : GicLines) : Prop where
  isenabler : ∀ d n w, n < 32 → I.Agree (G.table (G.gicRegWrite d (gicdIsenablern + n * 4) w))
    { G.table d with enabled := fun i =>
        (G.table d).enabled i || decide (i / 32 = n) && w.getLsbD (i % 32) }
  icenabler : ∀ d n w, n < 32 → I.Agree (G.table (G.gicRegWrite d (gicdIcenablern + n * 4) w))
    { G.table d with enabled := fun i =>
        (G.table d).enabled i && !(decide (i / 32 = n) && w.getLsbD (i % 32)) }
  icpendr : ∀ d n w, n < 32 →
    I.Agree (G.table (G.gicRegWrite d (gicdIcpendrn + n * 4) w)) (G.table d)
  icpendr_latched : ∀ d n w i, n < 32 → I.implemented i →
    G.latched (G.gicRegWrite d (gicdIcpendrn + n * 4) w) i =
      (G.latched d i && !(decide (i / 32 = n) && w.getLsbD (i % 32)))
  ipriorityr_read : ∀ d i, I.implemented i →
    field 8 (i % 4) (G.gicRegRead d (gicdIpriorityn + i / 4 * 4)) = (G.table d).priority i
  ipriorityr : ∀ d n w, n < 255 → I.Agree (G.table (G.gicRegWrite d (gicdIpriorityn + n * 4) w))
    { G.table d with priority := fun i =>
        if i / 4 = n then field 8 (i % 4) w &&& I.priorityBits else (G.table d).priority i }
  priorityBits : ∀ d i, I.implemented i →
    (G.table d).priority i &&& I.priorityBits = (G.table d).priority i
  icfgr_read : ∀ d i, I.configurable i →
    (G.gicRegRead d (gicdIcfgr + i / 16 * 4)).getLsbD (2 * (i % 16) + 1) = (G.table d).edge i
  icfgr : ∀ d n w, n < 64 →
    (∀ i, I.configurable i → i / 16 = n → w.getLsbD (2 * (i % 16) + 1) ≠ (G.table d).edge i →
      (G.table d).enabled i = false) →
    I.Agree (G.table (G.gicRegWrite d (gicdIcfgr + n * 4) w))
      { G.table d with edge := fun i =>
          if i / 16 = n ∧ I.configurable i then w.getLsbD (2 * (i % 16) + 1)
          else (G.table d).edge i }
  control : ∀ d addr w, addr ∈ [gicdCtlr, giccCtlr, giccPmr, giccBpr] →
    I.Agree (G.table (G.gicRegWrite d addr w)) (G.table d)
  event : ∀ d e, I.Agree (G.table (G.event d e)) (G.table d)

/-! ## The functions -/

section
variable {D E : Type} (G : GicDevice D E) (d : D)

def osGicInitCpuInterface : D :=
  let d := G.gicRegWrite d gicdCtlr 0
  let d := G.gicRegWrite d giccCtlr 0
  let d := G.gicRegWrite d giccPmr 0xff
  let d := G.gicRegWrite d giccBpr 0x00
  let d := G.gicRegWrite d gicdCtlr 1
  G.gicRegWrite d giccCtlr 1

def osGicDisableInt (intId : BitVec 32) : D :=
  G.gicRegWrite d (gicdIcenablern + intId.toNat / 32 * 4) (1#32 <<< (intId.toNat % 32))

def osGicEnableInt (intId : BitVec 32) : D :=
  G.gicRegWrite d (gicdIsenablern + intId.toNat / 32 * 4) (1#32 <<< (intId.toNat % 32))

def osGicClearInt (interrupt : BitVec 32) : D :=
  G.gicRegWrite d (gicdIcpendrn + interrupt.toNat / 32 * 4) (1#32 <<< (interrupt.toNat % 32))

def osGicIntSetPriority (interrupt priority : BitVec 32) : D :=
  let shift := interrupt.toNat % 4 * 8
  let addr := gicdIpriorityn + interrupt.toNat / 4 * 4
  let value := G.gicRegRead d addr
  let value := value &&& ~~~(0xff#32 <<< shift)
  let value := value ||| priority <<< shift
  G.gicRegWrite d addr value

def osGicIntSetConfig (interrupt config : BitVec 32) : D :=
  let shift := interrupt.toNat % 16 * 2
  let addr := gicdIcfgr + interrupt.toNat / 16 * 4
  let value := G.gicRegRead d addr
  let value := value &&& ~~~(0x03#32 <<< shift)
  let value := value ||| config <<< shift
  G.gicRegWrite d addr value

def osHwiInit : D := osGicInitCpuInterface G d

end

inductive GicCall
  | hwiInit
  | disableInt (intId : BitVec 32)
  | enableInt (intId : BitVec 32)
  | clearInt (interrupt : BitVec 32)
  | intSetPriority (interrupt priority : BitVec 32)
  | intSetConfig (interrupt config : BitVec 32)
  deriving DecidableEq, Repr

def GicCall.exec {D E : Type} (G : GicDevice D E) (d : D) : GicCall → D
  | .hwiInit => osHwiInit G d
  | .disableInt intId => osGicDisableInt G d intId
  | .enableInt intId => osGicEnableInt G d intId
  | .clearInt interrupt => osGicClearInt G d interrupt
  | .intSetPriority interrupt priority => osGicIntSetPriority G d interrupt priority
  | .intSetConfig interrupt config => osGicIntSetConfig G d interrupt config

/-- The calls of `CoreTimerInit`. -/
def coreTimerInitGic : List GicCall :=
  [.intSetConfig 30 0, .intSetPriority 30 0, .clearInt 30, .enableInt 30]

/-- The calls of `PRT_UartInit`. -/
def prtUartInitGic : List GicCall :=
  [.intSetConfig 33 0, .intSetPriority 33 0, .clearInt 33, .enableInt 33]

/-! ## What they are for -/

namespace GicCall

variable (I : GicLines)

/-- What a call is to do to the settings. -/
def apply (t : IrqTable) : GicCall → IrqTable
  | .hwiInit | .clearInt _ => t
  | .disableInt i => { t with enabled := Function.update t.enabled i.toNat false }
  | .enableInt i => { t with enabled := Function.update t.enabled i.toNat true }
  | .intSetPriority i p => { t with
      priority := Function.update t.priority i.toNat (p.setWidth 8 &&& I.priorityBits) }
  | .intSetConfig i c => { t with edge := Function.update t.edge i.toNat (c.getLsbD 1) }

/-- The call is about an interrupt that there is. -/
def OnLine : GicCall → Prop
  | .hwiInit => True
  | .disableInt i | .enableInt i | .clearInt i | .intSetPriority i _ => I.implemented i.toNat
  | .intSetConfig i _ => I.configurable i.toNat

/-- The value has no bits where the register has settings of the interrupts behind. -/
def Fits : GicCall → Prop
  | .intSetPriority i p => ∀ k < 4, 0 < k → i.toNat % 4 + k < 4 → I.implemented (i.toNat + k) →
      field 8 k p &&& I.priorityBits = 0#8
  | .intSetConfig i c => ∀ k < 16, 0 < k → i.toNat % 16 + k < 16 → I.configurable (i.toNat + k) →
      c.getLsbD (2 * k + 1) = false
  | .hwiInit | .disableInt _ | .enableInt _ | .clearInt _ => True

/-- The trigger of an interrupt is set while the interrupt is disabled. -/
def Ready (t : IrqTable) : GicCall → Prop
  | .intSetConfig i _ => t.enabled i.toNat = false
  | _ => True

instance (c : GicCall) : Decidable (c.OnLine I) :=
  match c with
  | .hwiInit => inferInstanceAs (Decidable True)
  | .disableInt _ | .enableInt _ | .clearInt _ | .intSetPriority _ _ | .intSetConfig _ _ =>
    inferInstanceAs (Decidable (_ = true))

instance (c : GicCall) : Decidable (c.Fits I) :=
  match c with
  | .intSetPriority _ _ => inferInstanceAs (Decidable (∀ k < 4, _ → _ → _ → _))
  | .intSetConfig _ _ => inferInstanceAs (Decidable (∀ k < 16, _ → _ → _ → _))
  | .hwiInit | .disableInt _ | .enableInt _ | .clearInt _ => inferInstanceAs (Decidable True)

instance (t : IrqTable) (c : GicCall) : Decidable (c.Ready t) :=
  match c with
  | .intSetConfig _ _ => inferInstanceAs (Decidable (_ = false))
  | .hwiInit | .disableInt _ | .enableInt _ | .clearInt _ | .intSetPriority _ _ =>
    inferInstanceAs (Decidable True)

end GicCall

/-- A call does in state `d` what it is for. -/
def GicDevice.Does {D E : Type} (G : GicDevice D E) (I : GicLines) (d : D) (c : GicCall) : Prop :=
  I.Agree (G.table (c.exec G d)) (c.apply I (G.table d))

namespace GicLines

variable {I : GicLines} {t t' t'' : IrqTable}

theorem Agree.trans (h : I.Agree t t') (h' : I.Agree t' t'') : I.Agree t t'' := fun i hi =>
  ⟨(h i hi).1.trans (h' i hi).1, (h i hi).2.1.trans (h' i hi).2.1,
    (h i hi).2.2.trans (h' i hi).2.2⟩

/-- The settings of the interrupts that there are do not depend on the others. -/
theorem Agree.apply (h : I.Agree t t') (c : GicCall) : I.Agree (c.apply I t) (c.apply I t') := by
  intro j hj
  obtain ⟨he, hp, ht⟩ := h j hj
  cases c <;> refine ⟨?_, ?_, ?_⟩ <;> simp only [GicCall.apply, Function.update_apply, he, hp, ht]

theorem Agree.ready (h : I.Agree t t') {c : GicCall} (hc : c.OnLine I) (hr : c.Ready t') :
    c.Ready t := by
  cases c with
  | intSetConfig i v => exact (h _ (I.configurable_implemented _ hc)).1.trans hr
  | _ => trivial

end GicLines

/-! ## One call -/

/-- The bit that stands for interrupt `k` in a register of 32. -/
theorem getLsbD_oneHot (j k : Nat) :
    (decide (j / 32 = k / 32) && (1#32 <<< (k % 32)).getLsbD (j % 32)) = decide (j = k) := by
  have hj := Nat.mod_lt j (show 0 < 32 by decide)
  have hone : (1#32).getLsbD (j % 32 - k % 32) = decide (j % 32 - k % 32 = 0) := by
    simp [BitVec.getLsbD_one]
  rw [BitVec.getLsbD_shiftLeft, decide_eq_true hj, Bool.true_and, hone, Bool.eq_iff_iff]
  simp only [Bool.and_eq_true, Bool.not_eq_true', decide_eq_true_eq, decide_eq_false_iff_not]
  omega

section
variable {D E : Type} {G : GicDevice D E} {I : GicLines} {i : BitVec 32} {j : Nat}

/-- A bit after a 1 has been written that clears the bit of `k`. -/
theorem and_not_oneHot (b : Bool) (j k : Nat) : (b && !(decide (j / 32 = k / 32) &&
    (1#32 <<< (k % 32)).getLsbD (j % 32))) = if j = k then false else b := by
  rw [getLsbD_oneHot]
  by_cases h : j = k <;> simp [h]

/-- The word that `OsGicIntSetPriority` writes. -/
theorem osGicIntSetPriority_eq (d : D) (i p : BitVec 32) : osGicIntSetPriority G d i p =
    G.gicRegWrite d (gicdIpriorityn + i.toNat / 4 * 4)
      (putField 8 (i.toNat % 4) (G.gicRegRead d (gicdIpriorityn + i.toNat / 4 * 4)) p) := by
  rw [osGicIntSetPriority, putField, Nat.mul_comm 8]
  rfl

theorem osGicIntSetConfig_eq (d : D) (i c : BitVec 32) : osGicIntSetConfig G d i c =
    G.gicRegWrite d (gicdIcfgr + i.toNat / 16 * 4)
      (putField 2 (i.toNat % 16) (G.gicRegRead d (gicdIcfgr + i.toNat / 16 * 4)) c) := by
  rw [osGicIntSetConfig, putField, Nat.mul_comm 2]
  rfl

variable (H : GicV2 G I)
include H

/-- The priorities after a call: those behind get the bits that do not fit. -/
theorem priority_osGicIntSetPriority (hi : I.implemented i.toNat) (d : D) (p : BitVec 32) :
    I.Agree (G.table (osGicIntSetPriority G d i p)) { G.table d with
      priority := fun j =>
        if j = i.toNat then p.setWidth 8 &&& I.priorityBits
        else if j / 4 = i.toNat / 4 ∧ i.toNat < j then
          (G.table d).priority j ||| field 8 (j - i.toNat) p &&& I.priorityBits
        else (G.table d).priority j } := by
  have hlt := (I.bounds _ hi).2
  rw [osGicIntSetPriority_eq]
  refine (H.ipriorityr d (i.toNat / 4) _ (by omega)).trans fun j hj => ⟨rfl, ?_, rfl⟩
  by_cases hword : j / 4 = i.toNat / 4
  · have hread : field 8 (j % 4) (G.gicRegRead d (gicdIpriorityn + i.toNat / 4 * 4)) =
        (G.table d).priority j := hword ▸ H.ipriorityr_read d j hj
    have hbits := H.priorityBits d j hj
    have hj4 : 8 * (j % 4 + 1) ≤ 32 := by omega
    simp only [hword, if_true, true_and]
    rcases Nat.lt_trichotomy j i.toNat with h | rfl | h
    · rw [if_neg (by omega), if_neg (by omega), field_putField_below hj4 (by omega), hread, hbits]
    · rw [if_pos rfl, field_putField_self hj4]
    · rw [if_neg (by omega), if_pos h, field_putField_above hj4 (by omega), hread,
        show j % 4 - i.toNat % 4 = j - i.toNat by omega, BitVec.and_or_distrib_right, hbits]
  · simp only [hword, if_false, false_and]
    rw [if_neg fun h : j = i.toNat => hword (h ▸ rfl)]

/-- The triggers in the word that `OsGicIntSetConfig` writes. -/
theorem getLsbD_osGicIntSetConfig (d : D) (c : BitVec 32) (hj : I.configurable j)
    (hword : j / 16 = i.toNat / 16) :
    (putField 2 (i.toNat % 16) (G.gicRegRead d (gicdIcfgr + i.toNat / 16 * 4)) c).getLsbD
      (2 * (j % 16) + 1) = if j = i.toNat then c.getLsbD 1
        else ((G.table d).edge j || decide (i.toNat < j) && c.getLsbD (2 * (j - i.toNat) + 1)) := by
  have hread : (G.gicRegRead d (gicdIcfgr + i.toNat / 16 * 4)).getLsbD (2 * (j % 16) + 1) =
      (G.table d).edge j := hword ▸ H.icfgr_read d j hj
  rw [getLsbD_putField (by omega)]
  rcases Nat.lt_trichotomy j i.toNat with h | rfl | h
  · rw [if_pos (by omega), if_neg (by omega), hread, decide_eq_false (by omega), Bool.false_and,
      Bool.or_false]
  · rw [if_neg (by omega), if_pos rfl, decide_eq_true (by omega),
      show 2 * (i.toNat % 16) + 1 - 2 * (i.toNat % 16) = 1 by omega]
    simp
  · rw [if_neg (by omega), if_neg (by omega), hread, decide_eq_false (by omega),
      decide_eq_true h, show 2 * (j % 16) + 1 - 2 * (i.toNat % 16) = 2 * (j - i.toNat) + 1 by omega]
    simp

/-- The triggers after a call, as long as all that change are of disabled interrupts. -/
theorem edge_osGicIntSetConfig (hi : I.configurable i.toNat) (d : D) (c : BitVec 32)
    (hdisabled : ∀ j, I.configurable j → j / 16 = i.toNat / 16 →
      (j ≠ i.toNat → decide (i.toNat < j) && c.getLsbD (2 * (j - i.toNat) + 1)) →
      (G.table d).enabled j = false) :
    I.Agree (G.table (osGicIntSetConfig G d i c)) { G.table d with
      edge := fun j =>
        if j = i.toNat then c.getLsbD 1
        else if I.configurable j ∧ j / 16 = i.toNat / 16 ∧ i.toNat < j then
          (G.table d).edge j || c.getLsbD (2 * (j - i.toNat) + 1)
        else (G.table d).edge j } := by
  have hlt := (I.bounds _ (I.configurable_implemented _ hi)).2
  rw [osGicIntSetConfig_eq]
  refine (H.icfgr d (i.toNat / 16) _ (by omega) fun j hj hword hne => hdisabled j hj hword ?_).trans
    fun j hj => ⟨rfl, rfl, ?_⟩
  · intro hji
    rw [getLsbD_osGicIntSetConfig H d c hj hword, if_neg hji] at hne
    by_contra hno
    rw [Bool.eq_false_iff.mpr hno, Bool.or_false] at hne
    exact hne rfl
  · by_cases hword : j / 16 = i.toNat / 16 ∧ I.configurable j
    · simp only [hword, and_self, if_true, true_and,
        getLsbD_osGicIntSetConfig H d c hword.2 hword.1]
      by_cases h : i.toNat < j <;> simp [h]
    · have hji : j ≠ i.toNat := fun h => hword ⟨h ▸ rfl, h ▸ hi⟩
      simp only
      rw [if_neg hword, if_neg hji, if_neg fun h => hword ⟨h.2.1, h.1⟩]

/-- There is a state in which the interrupts of a word have priority 0. -/
theorem exists_priority_zero (n : Nat) (hn : n < 255) :
    ∃ d, ∀ j, I.implemented j → j / 4 = n → (G.table d).priority j = 0#8 := by
  refine ⟨G.gicRegWrite G.reset (gicdIpriorityn + n * 4) 0#32, fun j hj hword => ?_⟩
  have hzero : field 8 (j % 4) 0#32 = 0#8 := by
    refine BitVec.eq_of_getLsbD_eq fun k hk => ?_
    rw [getLsbD_field hk]
    simp
  have h := (H.ipriorityr G.reset n 0#32 hn j hj).2.1
  simp only [hword, if_true] at h
  rw [h, hzero, BitVec.zero_and]

/-- There is a state in which they are disabled, and triggered by a level. -/
theorem exists_level (n : Nat) (hn : n < 64) : ∃ d, ∀ j, I.implemented j → j / 16 = n →
    (G.table d).enabled j = false ∧ (I.configurable j → (G.table d).edge j = false) := by
  obtain ⟨d, hd⟩ : ∃ d, ∀ j, I.implemented j → j / 16 = n → (G.table d).enabled j = false := by
    refine ⟨G.gicRegWrite G.reset (gicdIcenablern + n / 2 * 4) (BitVec.allOnes 32),
      fun j hj hword => ?_⟩
    refine (H.icenabler G.reset (n / 2) _ (by omega) j hj).1.trans ?_
    simp only
    rw [decide_eq_true (show j / 32 = n / 2 by omega), BitVec.getLsbD_allOnes,
      decide_eq_true (Nat.mod_lt j (by decide))]
    simp
  have hset := H.icfgr d n 0 hn fun j hj hword _ => hd j (I.configurable_implemented j hj) hword
  refine ⟨_, fun j hj hword => ⟨(hset j hj).1.trans (hd j hj hword), fun hc => ?_⟩⟩
  have h := (hset j hj).2.2
  simp only [hword, hc, and_self, if_true] at h
  rw [h]
  simp

theorem does_intSetPriority_iff (hi : I.implemented i.toNat) (p : BitVec 32) :
    (∀ d, G.Does I d (.intSetPriority i p)) ↔ (GicCall.intSetPriority i p).Fits I := by
  have hlt := (I.bounds _ hi).2
  constructor
  · intro h k _ hk hroom hj
    obtain ⟨j, rfl⟩ : ∃ j, k = j - i.toNat := ⟨i.toNat + k, by omega⟩
    rw [show i.toNat + (j - i.toNat) = j by omega] at hj
    have hij : i.toNat < j := by omega
    have hword : j / 4 = i.toNat / 4 := by omega
    obtain ⟨d, hd⟩ := exists_priority_zero H (i.toNat / 4) (by omega)
    have hafter := (priority_osGicIntSetPriority H hi d p j hj).2.1
    have hdoes := (h d j hj).2.1
    simp only [GicCall.apply, Function.update_of_ne (Nat.ne_of_gt hij), hd j hj hword] at hdoes
    simp only [(Nat.ne_of_gt hij), if_false, hword, hij, and_self, if_true,
      hd j hj hword, BitVec.zero_or] at hafter
    exact hafter.symm.trans hdoes
  · intro hf d
    refine (priority_osGicIntSetPriority H hi d p).trans fun j hj => ⟨rfl, ?_, rfl⟩
    simp only [GicCall.apply, Function.update_apply]
    by_cases hij : j = i.toNat
    · simp only [hij, if_true]
    · simp only [hij, if_false]
      split
      · rename_i h
        have hspill := hf (j - i.toNat) (by omega) (by omega) (by omega)
        rw [show i.toNat + (j - i.toNat) = j by omega] at hspill
        rw [hspill hj, BitVec.or_zero]
      · rfl

theorem does_intSetConfig_iff (hi : I.configurable i.toNat) (c : BitVec 32) :
    (∀ d, (GicCall.intSetConfig i c).Ready (G.table d) → G.Does I d (.intSetConfig i c)) ↔
      (GicCall.intSetConfig i c).Fits I := by
  have hlt := (I.bounds _ (I.configurable_implemented _ hi)).2
  constructor
  · intro h k _ hk hroom hj
    obtain ⟨j, rfl⟩ : ∃ j, k = j - i.toNat := ⟨i.toNat + k, by omega⟩
    rw [show i.toNat + (j - i.toNat) = j by omega] at hj
    have hij : i.toNat < j := by omega
    have hword : j / 16 = i.toNat / 16 := by omega
    obtain ⟨d, hd⟩ := exists_level H (i.toNat / 16) (by omega)
    have hj' := I.configurable_implemented j hj
    have hafter := (edge_osGicIntSetConfig H hi d c (fun j hj hword _ =>
      (hd j (I.configurable_implemented j hj) hword).1) j hj').2.2
    have hdoes := (h d (hd _ (I.configurable_implemented _ hi) rfl).1 j hj').2.2
    simp only [GicCall.apply, Function.update_of_ne (Nat.ne_of_gt hij),
      (hd j hj' hword).2 hj] at hdoes
    simp only [(Nat.ne_of_gt hij), if_false, hj, hword, hij, and_self, if_true,
      (hd j hj' hword).2 hj, Bool.false_or] at hafter
    exact hafter.symm.trans hdoes
  · intro hf d hready
    have hfits : ∀ j, I.configurable j → j / 16 = i.toNat / 16 → i.toNat < j →
        c.getLsbD (2 * (j - i.toNat) + 1) = false := fun j hj hword hij => by
      refine hf (j - i.toNat) (by omega) (by omega) (by omega) ?_
      rwa [show i.toNat + (j - i.toNat) = j by omega]
    refine (edge_osGicIntSetConfig H hi d c fun j hj hword hspill => ?_).trans
      fun j hj => ⟨rfl, rfl, ?_⟩
    · by_cases hij : j = i.toNat
      · exact hij ▸ hready
      · have hs := hspill hij
        simp only [Bool.and_eq_true, decide_eq_true_eq] at hs
        rw [hfits j hj hword hs.1] at hs
        exact absurd hs.2 (by decide)
    · simp only [GicCall.apply, Function.update_apply]
      by_cases hij : j = i.toNat
      · simp only [hij, if_true]
      · simp only [hij, if_false]
        split
        · rename_i h
          rw [hfits j h.1 h.2.1 h.2.2, Bool.or_false]
        · rfl

/-- **Step lemma.** A call does what it is for in every state exactly when its value fits. -/
theorem GicCall.does_iff {c : GicCall} (hc : c.OnLine I) :
    (∀ d, c.Ready (G.table d) → G.Does I d c) ↔ c.Fits I := by
  cases c with
  | hwiInit =>
    refine iff_of_true (fun d _ => ?_) trivial
    exact (((((H.control _ giccCtlr _ (by simp)).trans (H.control _ gicdCtlr _ (by simp))).trans
      (H.control _ giccBpr _ (by simp))).trans (H.control _ giccPmr _ (by simp))).trans
      (H.control _ giccCtlr _ (by simp))).trans (H.control d gicdCtlr _ (by simp))
  | enableInt i =>
    refine iff_of_true (fun d _ => ?_) trivial
    have hlt := (I.bounds _ hc).2
    refine (H.isenabler d (i.toNat / 32) _ (by omega)).trans fun j _ => ⟨?_, rfl, rfl⟩
    simp only [getLsbD_oneHot, GicCall.apply, Function.update_apply]
    by_cases h : j = i.toNat <;> simp [h]
  | disableInt i =>
    refine iff_of_true (fun d _ => ?_) trivial
    have hlt := (I.bounds _ hc).2
    refine (H.icenabler d (i.toNat / 32) _ (by omega)).trans fun j _ => ⟨?_, rfl, rfl⟩
    simp only [and_not_oneHot, GicCall.apply, Function.update_apply]
  | clearInt i =>
    refine iff_of_true (fun d _ => ?_) trivial
    have hlt := (I.bounds _ hc).2
    exact H.icpendr d (i.toNat / 32) _ (by omega)
  | intSetPriority i p =>
    refine Iff.trans ?_ (does_intSetPriority_iff H hc p)
    exact forall_congr' fun d => ⟨fun h => h trivial, fun h _ => h⟩
  | intSetConfig i c => exact does_intSetConfig_iff H hc c

/-- `OsGicClearInt` takes back one pending interrupt. -/
theorem latched_osGicClearInt (hi : I.implemented i.toNat) (d : D) (hj : I.implemented j) :
    G.latched (osGicClearInt G d i) j = if j = i.toNat then false else G.latched d j := by
  have hlt := (I.bounds _ hi).2
  rw [osGicClearInt, H.icpendr_latched d (i.toNat / 32) _ j (by omega) hj, and_not_oneHot]

end

/-! ## Any calls -/

/-- A call, or something else that happens to the controller: an interrupt arrives, is acknowledged
or ends. -/
inductive GicAct (E : Type)
  | call (c : GicCall)
  | event (e : E)

section
variable {D E : Type}

def GicAct.exec (G : GicDevice D E) (d : D) : GicAct E → D
  | .call c => c.exec G d
  | .event e => G.event d e

def GicAct.apply (I : GicLines) (t : IrqTable) : GicAct E → IrqTable
  | .call c => c.apply I t
  | .event _ => t

/-- The calls are about interrupts that there are, with values that fit, and triggers are set while
their interrupts are disabled. -/
def ActsOk (I : GicLines) : IrqTable → List (GicAct E) → Prop
  | _, [] => True
  | t, .call c :: acts => (c.OnLine I ∧ c.Fits I ∧ c.Ready t) ∧ ActsOk I (c.apply I t) acts
  | t, .event _ :: acts => ActsOk I t acts

instance decidableActsOk (I : GicLines) : (t : IrqTable) → (acts : List (GicAct E)) →
    Decidable (ActsOk I t acts)
  | _, [] => inferInstanceAs (Decidable True)
  | t, .call c :: acts =>
    have := decidableActsOk I (c.apply I t) acts
    inferInstanceAs (Decidable (_ ∧ ActsOk I (c.apply I t) acts))
  | t, .event _ :: acts => decidableActsOk I t acts

variable {G : GicDevice D E} {I : GicLines} (H : GicV2 G I)
include H

/-- **Run lemma.** -/
theorem GicAct.foldl_agree {acts : List (GicAct E)} {d : D} {t : IrqTable}
    (h : I.Agree (G.table d) t) (hok : ActsOk I t acts) :
    I.Agree (G.table (acts.foldl (exec G) d)) (acts.foldl (apply I) t) := by
  induction acts generalizing d t with
  | nil => exact h
  | cons a acts ih =>
    cases a with
    | call c =>
      obtain ⟨⟨hc, hf, hr⟩, hok⟩ := hok
      exact ih (((GicCall.does_iff H hc).mpr hf d (h.ready hc hr)).trans (h.apply c)) hok
    | event e => exact ih ((H.event d e).trans h) hok

/-- **The controller has the settings that the calls give it**, whatever their order and whatever
happens in between, as long as each value fits; a value that does not fit changes another
interrupt in some state. -/
theorem gic_calls_exact :
    (∀ c : GicCall, c.OnLine I → ((∀ d, c.Ready (G.table d) → G.Does I d c) ↔ c.Fits I)) ∧
    (∀ (i : BitVec 32) (j : Nat), I.implemented i.toNat → I.implemented j → ∀ d,
      G.latched (osGicClearInt G d i) j = if j = i.toNat then false else G.latched d j) ∧
    ∀ (acts : List (GicAct E)) (d : D), ActsOk I (G.table d) acts →
      I.Agree (G.table (acts.foldl (GicAct.exec G) d)) (acts.foldl (GicAct.apply I) (G.table d)) :=
  ⟨fun _ hc => GicCall.does_iff H hc, fun _ _ hi hj d => latched_osGicClearInt H hi d hj,
    fun _ _ hok => GicAct.foldl_agree H (fun _ _ => ⟨rfl, rfl, rfl⟩) hok⟩

end

/-! ## The controller of the board -/

/-- A controller with 288 interrupts, of which the first 16 are the processors' own: these are
always enabled and have their triggers fixed. -/
structure VirtGic where
  control : Nat → BitVec 32
  settings : IrqTable
  latched : Nat → Bool

namespace VirtGic

def lines : GicLines where
  implemented i := decide (16 ≤ i ∧ i < 288)
  configurable i := decide (16 ≤ i ∧ i < 288)
  priorityBits := 0xff
  bounds i h := by
    have h := of_decide_eq_true h
    omega
  configurable_implemented _ h := h

def wordOf (bit : Nat → Bool) : BitVec 32 :=
  (BitVec.ofBoolListLE ((List.range 32).map bit)).setWidth 32

theorem getLsbD_wordOf {bit : Nat → Bool} {k : Nat} (hk : k < 32) :
    (wordOf bit).getLsbD k = bit k := by
  rw [wordOf, BitVec.getLsbD_setWidth, decide_eq_true hk, Bool.true_and,
    BitVec.getLsbD_ofBoolListLE]
  simp [hk]

/-- Four priorities to a word, and sixteen triggers. -/
def read (d : VirtGic) (addr : Nat) : BitVec 32 :=
  if gicdIpriorityn ≤ addr ∧ addr < gicdIpriorityn + 0x400 then
    let n := (addr - gicdIpriorityn) / 4
    wordOf fun k => (d.settings.priority (4 * n + k / 8)).getLsbD (k % 8)
  else if gicdIcfgr ≤ addr ∧ addr < gicdIcfgr + 0x100 then
    let n := (addr - gicdIcfgr) / 4
    wordOf fun k => decide (k % 2 = 1) && d.settings.edge (16 * n + k / 2)
  else d.control addr

def write (d : VirtGic) (addr : Nat) (w : BitVec 32) : VirtGic :=
  let line i := lines.implemented i
  if gicdIsenablern ≤ addr ∧ addr < gicdIsenablern + 0x80 then
    { d with settings.enabled := fun i => d.settings.enabled i ||
        (line i && decide (i / 32 = (addr - gicdIsenablern) / 4) && w.getLsbD (i % 32)) }
  else if gicdIcenablern ≤ addr ∧ addr < gicdIcenablern + 0x80 then
    { d with settings.enabled := fun i => d.settings.enabled i &&
        !(line i && decide (i / 32 = (addr - gicdIcenablern) / 4) && w.getLsbD (i % 32)) }
  else if gicdIcpendrn ≤ addr ∧ addr < gicdIcpendrn + 0x80 then
    { d with latched := fun i => d.latched i &&
        !(line i && decide (i / 32 = (addr - gicdIcpendrn) / 4) && w.getLsbD (i % 32)) }
  else if gicdIpriorityn ≤ addr ∧ addr < gicdIpriorityn + 0x400 then
    { d with settings.priority := fun i =>
        if i / 4 = (addr - gicdIpriorityn) / 4 ∧ i < 288 then field 8 (i % 4) w
        else d.settings.priority i }
  else if gicdIcfgr ≤ addr ∧ addr < gicdIcfgr + 0x100 then
    { d with settings.edge := fun i =>
        if i / 16 = (addr - gicdIcfgr) / 4 ∧ line i then w.getLsbD (2 * (i % 16) + 1)
        else d.settings.edge i }
  else { d with control := Function.update d.control addr w }

/-- An event is an interrupt that arrives. -/
def device : GicDevice VirtGic Nat where
  reset :=
    { control := fun _ => 0
      settings := ⟨fun i => decide (i < 16), fun _ => 0, fun i => decide (i < 16)⟩
      latched := fun _ => false }
  gicRegRead := read
  gicRegWrite := write
  event d i := { d with latched := Function.update d.latched i true }
  table := settings
  latched := latched

/-- The registers of the distributor lie in this order. -/
theorem addrs : gicdCtlr = 0x08000000 ∧ gicdIsenablern = 0x08000100 ∧
    gicdIcenablern = 0x08000180 ∧ gicdIcpendrn = 0x08000280 ∧ gicdIpriorityn = 0x08000400 ∧
    gicdIcfgr = 0x08000C00 := by
  decide

section
variable {n : Nat} (d : VirtGic) (w : BitVec 32)

theorem write_isenabler (hn : n < 32) : write d (gicdIsenablern + n * 4) w =
    { d with settings.enabled := fun i => d.settings.enabled i ||
        (lines.implemented i && decide (i / 32 = n) && w.getLsbD (i % 32)) } := by
  have := addrs
  rw [write, if_pos (by omega), Nat.add_sub_cancel_left, Nat.mul_div_cancel n (by decide)]

theorem write_icenabler (hn : n < 32) : write d (gicdIcenablern + n * 4) w =
    { d with settings.enabled := fun i => d.settings.enabled i &&
        !(lines.implemented i && decide (i / 32 = n) && w.getLsbD (i % 32)) } := by
  have := addrs
  rw [write, if_neg (by omega), if_pos (by omega), Nat.add_sub_cancel_left,
    Nat.mul_div_cancel n (by decide)]

theorem write_icpendr (hn : n < 32) : write d (gicdIcpendrn + n * 4) w =
    { d with latched := fun i => d.latched i &&
        !(lines.implemented i && decide (i / 32 = n) && w.getLsbD (i % 32)) } := by
  have := addrs
  rw [write, if_neg (by omega), if_neg (by omega), if_pos (by omega), Nat.add_sub_cancel_left,
    Nat.mul_div_cancel n (by decide)]

theorem write_ipriorityr (hn : n < 256) : write d (gicdIpriorityn + n * 4) w =
    { d with settings.priority := fun i =>
        if i / 4 = n ∧ i < 288 then field 8 (i % 4) w else d.settings.priority i } := by
  have := addrs
  rw [write, if_neg (by omega), if_neg (by omega), if_neg (by omega), if_pos (by omega),
    Nat.add_sub_cancel_left, Nat.mul_div_cancel n (by decide)]

theorem write_icfgr (hn : n < 64) : write d (gicdIcfgr + n * 4) w =
    { d with settings.edge := fun i =>
        if i / 16 = n ∧ lines.implemented i then w.getLsbD (2 * (i % 16) + 1)
        else d.settings.edge i } := by
  have := addrs
  rw [write, if_neg (by omega), if_neg (by omega), if_neg (by omega), if_neg (by omega),
    if_pos (by omega), Nat.add_sub_cancel_left, Nat.mul_div_cancel n (by decide)]

end

theorem device_v2 : GicV2 device lines where
  isenabler d n w hn i hi := by
    change lines.implemented i = true at hi
    simp [device, write_isenabler d w hn, hi]
  icenabler d n w hn i hi := by
    simp [device, write_icenabler d w hn, hi]
  icpendr d n w hn i hi := by
    simp [device, write_icpendr d w hn]
  icpendr_latched d n w i hn hi := by
    simp [device, write_icpendr d w hn, hi]
  ipriorityr_read d i hi := by
    have hlt := (lines.bounds i hi).2
    have := addrs
    refine BitVec.eq_of_getLsbD_eq fun k hk => ?_
    rw [getLsbD_field hk]
    change (read d _).getLsbD _ = _
    rw [read, if_pos (by omega), Nat.add_sub_cancel_left, Nat.mul_div_cancel _ (by decide),
      getLsbD_wordOf (by omega), show 4 * (i / 4) + (8 * (i % 4) + k) / 8 = i by omega,
      show (8 * (i % 4) + k) % 8 = k by omega]
    rfl
  ipriorityr d n w hn i hi := by
    have hlt : i < 288 := (of_decide_eq_true hi).2
    have hones : ∀ p : BitVec 8, p &&& 255#8 = p := fun p => BitVec.and_allOnes
    simp [device, write_ipriorityr d w (show n < 256 by omega), hlt, lines, hones]
  priorityBits d i hi := BitVec.and_allOnes
  icfgr_read d i hi := by
    have hlt := (lines.bounds i hi).2
    have := addrs
    change (read d _).getLsbD _ = _
    rw [read, if_neg (by omega), if_pos (by omega), Nat.add_sub_cancel_left,
      Nat.mul_div_cancel _ (by decide), getLsbD_wordOf (by omega),
      show 16 * (i / 16) + (2 * (i % 16) + 1) / 2 = i by omega, decide_eq_true (by omega)]
    rfl
  icfgr d n w hn _ i hi := by
    have hc : lines.configurable i = true := hi
    simp [device, write_icfgr d w hn, hi, hc]
  control d addr w haddr i hi := by
    have hne : ∀ a ∈ [gicdCtlr, giccCtlr, giccPmr, giccBpr],
        write d a w = { d with control := Function.update d.control a w } := by
      have := addrs
      have hcpu : giccCtlr = 0x08010000 ∧ giccPmr = 0x08010004 ∧ giccBpr = 0x08010008 := by decide
      intro a ha
      simp only [List.mem_cons, List.not_mem_nil, or_false] at ha
      rw [write, if_neg (by omega), if_neg (by omega), if_neg (by omega), if_neg (by omega),
        if_neg (by omega)]
    simp [device, hne addr haddr]
  event d e i hi := ⟨rfl, rfl, rfl⟩

end VirtGic

/-- The timer's interrupt arrives before the calls of the UART. -/
def bootActs : List (GicAct Nat) :=
  .call .hwiInit :: coreTimerInitGic.map .call ++ .event 30 :: prtUartInitGic.map .call

/-- Both interrupts are enabled then, with priority 0 and triggered by a level, and a value of
three bits would reach the trigger of the next interrupt. -/
theorem gic_calls_exact_boot :
    (∀ i ∈ [30, 33], (VirtGic.device.table (bootActs.foldl (GicAct.exec VirtGic.device)
      VirtGic.device.reset)).enabled i = true) ∧
    ¬ ∀ d, (GicCall.intSetConfig 30 8).Ready (VirtGic.device.table d) →
      VirtGic.device.Does VirtGic.lines d (.intSetConfig 30 8) := by
  obtain ⟨hcall, -, hrun⟩ := gic_calls_exact VirtGic.device_v2
  have hboot := hrun bootActs VirtGic.device.reset (by decide +kernel)
  refine ⟨fun i hi => ?_, fun h => ?_⟩
  · have hline : VirtGic.lines.implemented i = true := by
      revert i
      decide
    rw [(hboot i hline).1]
    revert i
    decide +kernel
  · exact absurd ((hcall _ (by decide)).mp h) (by decide +kernel)

end MiniEuler
